import Squirrel.Proofs.Grammar.Progress.Statement
import Squirrel.Proofs.Parse.Evaluation

/-!
# Progress

Statements pass a token where one is left, and no list comes back to itself without having passed one, unless a limit is
exceeded. So the nonterminals that are open at once are bounded by the tokens, and a parse ends. What it may run into is the
end of the input, and the check that it does not look too often, but that one only behind many functions.
-/

namespace Squirrel

/-- The calls that a rule makes in a run, with the states that it makes them in. -/
def Rule.calls (runCall : Nonterminal → State → Except Fault State) {α : Type} :
    Rule α → State → List (Nonterminal × State)
  | done _, _ => []
  | step s rest, state =>
    match s.run state with
    | .error _ => []
    | .ok (answer, after) => (rest answer).calls runCall after
  | wrap kind start inner rest, state =>
    let since := state.placed.length - start
    let before := { state with placed := state.placed.take since }
    inner.calls runCall before ++
      match inner.exec runCall before with
      | .error _ => []
      | .ok ((), after) =>
        rest.calls runCall { after with placed := .node kind after.placed.reverse :: state.placed.drop since }
  | call nonterminal rest, state =>
    (nonterminal, state) ::
      match runCall nonterminal state with
      | .error _ => []
      | .ok after => rest.calls runCall after

/-- A limit has been exceeded that was not before. -/
def State.Exceeds (before after : State) : Prop := before.exceeded? = none ∧ after.exceeded?.isSome = true

/-- A token has been passed, if only trivia, or a limit exceeded. -/
def State.Advances (before after : State) : Prop := after.ahead.length < before.ahead.length ∨ before.Exceeds after

/-- The token behind the trivia here has been passed, or a limit exceeded. -/
def State.PassesWord (before after : State) : Prop :=
  after.ahead.length < before.passTrivia.ahead.length ∨ before.Exceeds after

instance (before after : State) : Decidable (before.Exceeds after) := inferInstanceAs (Decidable (_ ∧ _))

instance (before after : State) : Decidable (before.Advances after) := inferInstanceAs (Decidable (_ ∨ _))

attribute [local grind =] Rule.calls State.standing Nonterminal.Keeps Nonterminal.needs Nonterminal.weight

theorem State.exceeds_of_slack {before after : State} (hslack : after.standing.slack < before.standing.slack) :
    before.Exceeds after := by
  simp only [standing] at hslack
  cases hbefore : before.exceeded? <;> cases hafter : after.exceeded? <;> simp [Exceeds, hbefore, hafter] at hslack ⊢

/-- Room for a run from any state. -/
def State.leeway (state : State) : Nat := state.standing.spent + 46

theorem State.called_of_ne (state : State) {nonterminal : Nonterminal}
    (hsettled : nonterminal = .skipToStatement → state.standing.raw = state.standing.left) :
    nonterminal.Called state.leeway state.standing := by
  have hprice := state.standing.price_le
  have hslack := state.standing.slack_le
  refine ⟨by simp only [leeway]; omega, ?_, hsettled⟩
  have hneeds : nonterminal.needs (min state.standing.slack state.standing.raw) ≤ 6 := by
    cases nonterminal <;> simp only [Nonterminal.needs] <;> omega
  simp only [leeway]
  omega

theorem Nonterminal.keeps (bound : Nat) {room : Nat} {nonterminal : Nonterminal} {state : State}
    (hcalled : nonterminal.Called room state.standing) : nonterminal.Keeps room bound state :=
  keeps_of_leads Grammar.leads_ruleOf bound hcalled

/-- A rule that leads somewhere calls only what weighs less than it may. -/
theorem Rule.Leads.weight_lt {α : Type} {room weight bound : Nat} {rule : Rule α} {state : State}
    {result : α → Standing → Prop} (hleads : rule.Leads room weight state.standing result) {nonterminal : Nonterminal}
    {there : State} (hmem : (nonterminal, there) ∈ rule.calls (Nonterminal.run bound) state) :
    nonterminal.weight there.standing < weight := by
  induction rule generalizing state with
  | done answer => simp [Rule.calls] at hmem
  | step s rest ih =>
    simp only [Rule.calls] at hmem
    split at hmem
    · simp at hmem
    · next answer after hrun => exact ih answer (hleads.2 answer after.standing (s.stands_of_run hleads.1 hrun)) hmem
  | wrap kind start inner rest ihinner ih =>
    let since := state.placed.length - start
    simp only [Rule.calls, List.mem_append] at hmem
    obtain hmem | hmem := hmem
    · exact @ihinner { state with placed := state.placed.take since } _ hleads hmem
    · have hinner := @Leads.exec Unit room weight bound (fun _ _ => Nonterminal.keeps bound) inner
        { state with placed := state.placed.take since } _ hleads
      split at hmem
      · simp at hmem
      · next after hrun =>
        rw [hrun] at hinner
        exact @ih { after with placed := .node kind after.placed.reverse :: state.placed.drop since } _ hinner.1 hmem
  | call found rest ih =>
    simp only [Rule.calls, List.mem_cons] at hmem
    obtain hfirst | hmem := hmem
    · obtain ⟨rfl, rfl⟩ := Prod.mk.inj hfirst
      exact hleads.1.2
    · have hcall := Nonterminal.keeps bound hleads.1.1
      rw [Nonterminal.Keeps] at hcall
      split at hmem
      · simp at hmem
      · next after hrun =>
        rw [hrun] at hcall
        exact ih (hleads.2 after.standing hcall.1) hmem

/-- Skipping to a statement passes the token it starts at, even if that is trivia. -/
theorem Grammar.length_lt_of_calls_skipToStatement {bound : Nat} {state there : State} {nonterminal : Nonterminal}
    (hmem : (nonterminal, there) ∈ skipToStatement.calls (Nonterminal.run bound) state) :
    there.ahead.length < state.ahead.length := by
  simp only [skipToStatement, advance, stopped, currentIn, current, Rule.bind_eq, Rule.ofStep, Rule.bind, Rule.calls,
    Step.run] at hmem
  cases hadvance : state.advance with
  | error fault => simp [hadvance, bind, Except.bind] at hmem
  | ok moved =>
    have hmoved : moved.ahead.length < state.ahead.length := by
      rw [State.advance] at hadvance
      split at hadvance
      · simp at hadvance
      · next token rest hahead =>
        rw [← Except.ok.inj hadvance, hahead]
        exact Nat.lt_succ_self _
    simp only [hadvance, bind, Except.bind, pure, Except.pure] at hmem
    split at hmem
    · simp [Rule.calls] at hmem
    · simp only [Rule.calls, Step.run, bind, Except.bind, pure, Except.pure] at hmem
      cases hlook : moved.passTrivia.spendLook with
      | error fault => simp [hlook] at hmem
      | ok looked =>
        have hlooked : looked.standing.raw = moved.standing.left := (State.looked_spendLook hlook).1
        have hleft := moved.standing.left_le
        simp only [hlook, Rule.bind] at hmem
        split at hmem
        · simp [Rule.calls] at hmem
        · have hthere : there = looked := by
            simp only [call, Rule.calls, List.mem_cons] at hmem
            obtain hfirst | hrest := hmem
            · exact (Prod.mk.inj hfirst).2
            · split at hrest <;> simp at hrest
          rw [hthere]
          exact Nat.lt_of_le_of_lt (Nat.le_trans (Nat.le_of_eq hlooked) hleft) hmoved

/-- A rule comes back to its own nonterminal only once it has advanced. -/
theorem Nonterminal.advances_of_calls {bound : Nat} {nonterminal again : Nonterminal} {state there : State}
    (hmem : (again, there) ∈ (Grammar.ruleOf nonterminal).calls (run bound) state) (hsame : again.ctorIdx = nonterminal.ctorIdx) :
    state.Advances there := by
  by_cases hskip : nonterminal = .skipToStatement
  · subst hskip
    exact .inl (Grammar.length_lt_of_calls_skipToStatement hmem)
  · have hcalled : nonterminal.Called state.leeway state.standing := state.called_of_ne fun hskips => absurd hskips hskip
    have hweight := (Grammar.leads_ruleOf nonterminal state.standing hcalled).weight_lt hmem
    have hrank : again.rank = nonterminal.rank := by
      cases again <;> cases nonterminal <;> first | rfl | simp [Nonterminal.ctorIdx] at hsame
    have hadvanced : there.standing.raw < state.standing.raw ∨ there.standing.slack < state.standing.slack := by
      simp only [weight] at hweight
      omega
    exact hadvanced.imp_right State.exceeds_of_slack

/-- A statement passes a word where one is left. -/
theorem Nonterminal.passesWord_of_statement {bound : Nat} {state after : State} (hrun : run bound .statement state = .ok after)
    (hwithin : state.exceeded? = none) (htoken : ∃ token ∈ state.ahead, token.kind.isTrivia = false) :
    state.PassesWord after := by
  have hkeeps := keeps bound (state.called_of_ne (by simp) : statement.Called state.leeway state.standing)
  rw [Keeps, hrun] at hkeeps
  obtain ⟨-, -, -, hadvances⟩ := hkeeps.1
  refine (hadvances ?_ ?_).imp_right State.exceeds_of_slack
  · obtain ⟨token, hmem, hword⟩ := htoken
    refine List.length_pos_iff.mpr fun hnil => ?_
    have htrivia := List.dropWhile_eq_nil_iff.mp hnil token hmem
    exact Bool.false_ne_true (hword.symm.trans htrivia)
  · simp [State.standing, hwithin]

/-- The state that the parse of a source starts in. -/
def State.start (source : String) (limits : Limits) : State :=
  .initial limits (Lexed.ofSource source).tokens source.utf8ByteSize

theorem Nonterminal.keeps_start (source : String) (limits : Limits) {room : Nat}
    (hroom : State.prices (Lexed.ofSource source).tokens + 40 ≤ room) :
    Nonterminal.script.Keeps room (nestingBound (Lexed.ofSource source).tokens.length) (State.start source limits) := by
  have hslack := (State.start source limits).standing.slack_le
  have hspent : (State.start source limits).standing.spent = State.prices (Lexed.ofSource source).tokens := by
    simp [State.standing, State.start, State.initial]
  refine keeps _ ⟨hroom, ?_, by simp⟩
  simp only [needs, hspent]
  omega

/-- The faults of a parse: no parse nests too deep for its bound. -/
theorem Script.excused_of_parse {source : String} {limits : Limits} {fault : Fault}
    (hparse : parse source limits = .error (.fault fault)) {room : Nat}
    (hroom : State.prices (Lexed.ofSource source).tokens + 40 ≤ room) : fault.Excused room False := by
  have hkeeps := Nonterminal.keeps_start source limits hroom
  have hrun : Nonterminal.script.run (nestingBound (Lexed.ofSource source).tokens.length) (State.start source limits)
      = .error fault := by
    rw [parse] at hparse
    split at hparse
    · next error hparsed =>
      rw [Except.error.inj hparse, parseTokens] at hparsed
      split at hparsed
      · next found hfound => exact ParseError.fault.inj (Except.error.inj hparsed) ▸ hfound
      · split at hparsed
        · cases hparsed
        · cases hparsed
    · cases hparse
  rw [Nonterminal.Keeps, hrun] at hkeeps
  refine Fault.Excused.mono hkeeps fun hdeep => ?_
  have hslack := (State.start source limits).standing.slack_le
  have hraw : (State.start source limits).standing.raw = (Lexed.ofSource source).tokens.length := rfl
  simp only [nestingBound, Nonterminal.weight, Nonterminal.rank, hraw] at hdeep
  omega

/-! ### The end of every parse -/

/-- A parse goes on until it ends. A statement passes the word that it stands before, if one is left, or exceeds a limit;
every round of a list passes a token between two calls of its nonterminal, or exceeds a limit; and nonterminals never nest
too deep for the bound of a parse. -/
theorem Script.parse_progress (source : String) (limits : Limits) :
    (∀ bound state after, Nonterminal.statement.run bound state = .ok after → state.exceeded? = none →
      (∃ token ∈ state.ahead, token.kind.isTrivia = false) → state.PassesWord after) ∧
    (∀ bound (nonterminal again : Nonterminal) state there,
      (again, there) ∈ (Grammar.ruleOf nonterminal).calls (Nonterminal.run bound) state →
        again.ctorIdx = nonterminal.ctorIdx → state.Advances there) ∧
    parse source limits ≠ .error (.fault .nestedTooDeep) := by
  refine ⟨fun bound state after hrun hwithin htoken => Nonterminal.passesWord_of_statement hrun hwithin htoken,
    fun bound nonterminal again state there hmem hsame => Nonterminal.advances_of_calls hmem hsame, fun hparse => ?_⟩
  exact Script.excused_of_parse hparse (Nat.le_refl _)

/-- It holds of a call: the first statement and the first round of the script both pass its tokens. -/
theorem Script.parse_progress_call :
    ∃ after there, Nonterminal.statement.run 40 (State.start "f(a)" .unbounded) = .ok after ∧
      (State.start "f(a)" .unbounded).PassesWord after ∧
      (.script, there) ∈ (Grammar.ruleOf .script).calls (Nonterminal.run 40) (State.start "f(a)" .unbounded) ∧
      (State.start "f(a)" .unbounded).Advances there ∧ parse "f(a)" .unbounded ≠ .error (.fault .nestedTooDeep) := by
  obtain ⟨hstatements, hrounds, hdepth⟩ := Script.parse_progress "f(a)" .unbounded
  have hstart : State.start "f(a)" .unbounded = .initial .unbounded (Lexed.computed "f(a)").tokens 4 := by
    rw [Lexed.computed_eq]
    rfl
  have hran : (Nonterminal.statement.run 40 (State.start "f(a)" .unbounded)).isOk = true := by
    rw [hstart]
    decide +kernel
  have hcalled : ((Grammar.ruleOf .script).calls (Nonterminal.run 40) (State.start "f(a)" .unbounded)).any
      (fun found => match found.1 with | .script => true | _ => false) = true := by
    rw [hstart]
    decide +kernel
  have htoken : ∃ token ∈ (State.start "f(a)" .unbounded).ahead, token.kind.isTrivia = false := by
    rw [hstart]
    decide +kernel
  obtain ⟨⟨found, there⟩, hmem, hscript⟩ := List.any_eq_true.mp hcalled
  cases hrun : Nonterminal.statement.run 40 (State.start "f(a)" .unbounded) with
  | error fault => simp [hrun, Except.isOk, Except.toBool] at hran
  | ok after =>
    cases found with
    | script =>
      exact ⟨after, there, rfl, hstatements 40 _ after hrun rfl htoken, hmem, hrounds 40 .script .script _ there hmem rfl, hdepth⟩
    | _ => simp at hscript

/-! ### Looking too often -/

theorem State.prices_eq (tokens : List Token) : prices tokens = 12 * tokens.countP (·.kind == .kwFunction) := by
  induction tokens with
  | nil => rfl
  | cons token rest ih =>
    rw [prices, Token.price, List.countP_cons, ih]
    by_cases hfunction : token.kind = .kwFunction
    · simp [hfunction]
      omega
    · simp [hfunction]

/-- A parse does not look too often between two moves, if its source has only a few functions. -/
theorem Script.parse_ne_lookedTooOften {source : String} (limits : Limits)
    (hfew : (Lexed.ofSource source).tokens.countP (·.kind == .kwFunction) ≤ 18) :
    parse source limits ≠ .error (.fault .lookedTooOften) := by
  intro hparse
  have hroom : State.prices (Lexed.ofSource source).tokens + 40 ≤ State.lookLimit := by
    rw [State.prices_eq]
    simp only [State.lookLimit]
    omega
  exact Nat.lt_irrefl _ (Script.excused_of_parse hparse hroom)

/-- It holds of a function in a table that is cut off. -/
theorem Script.parse_ne_lookedTooOften_defaultTable :
    (Lexed.ofSource "x=\x7bfunction f(a=\x7b").tokens.countP (·.kind == .kwFunction) ≤ 18 ∧
      parse "x=\x7bfunction f(a=\x7b" .standard ≠ .error (.fault .lookedTooOften) := by
  have hfew : (Lexed.ofSource "x=\x7bfunction f(a=\x7b").tokens.countP (·.kind == .kwFunction) ≤ 18 := by
    rw [← Lexed.computed_eq]
    decide +kernel
  exact ⟨hfew, Script.parse_ne_lookedTooOften .standard hfew⟩

/-- The kinds of a constant that is a table, with a function in it whose parameter defaults to another such table, and so
on, cut off in the innermost one. -/
def Kind.nestedDefaults (depth : Nat) : List Kind :=
  [kwConst, id, equals] ++ (List.replicate depth [braceOpen, kwFunction, id, parenOpen, id, equals]).flatten ++ [integerLit]

-- deep enough it does look too often, as closing these tables refills no looks
example : (match parseTokens .unbounded 0 ⟨(Kind.nestedDefaults 52).map (⟨·, 0, ""⟩), []⟩ with
    | .error (.fault .lookedTooOften) => true
    | _ => false) = true := by
  decide +kernel

end Squirrel
