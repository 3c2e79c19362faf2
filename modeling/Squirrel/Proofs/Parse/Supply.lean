import Squirrel.Proofs.Parse.Laying

/-!
# Enough words to move on

Moving past the end of the input is a fault. What keeps a rule from it is that it has looked at a word, or has asked
whether anything is left; moving on uses such knowledge up. The words that a rule is sure of are counted along its steps,
and a rule that is sure of one whenever it moves on never moves past the end.

Whether anything is left is asked of the tokens, trivia included. The answer tells of a word only if the last token is
one: behind a last word that trivia follows, a rule may believe that there is more.
-/

namespace Squirrel

namespace Step

/-- How many words a rule has to be sure of to take a step. -/
def needs {α : Type} : Step α → Nat
  | advance => 1
  | _ => 0

/-- How many words a rule is sure of after a step and its answer. -/
def sureAfter {α : Type} (words : Nat) : Step α → α → Nat
  | current, kind => if kind = .error then words else max words 1
  | atEnd, false | stopped, false => max words 1
  | numberFollows, true => max words 2
  | advance, _ => words - 1
  | _, _ => words

end Step

/-- What a rule has to know to call a nonterminal: skipping to a statement begins by moving on, and a separator must not
be mistaken for the end of the input. -/
def Nonterminal.Ready (words : Nat) : Nonterminal → Prop
  | skipToStatement => 0 < words
  | path separator => separator ≠ .error
  | _ => True

namespace Rule

variable {α β : Type}

/-- Wherever a rule moves on it is sure of a word, and it ends with an answer and a count of words as asked for. -/
def Supplied {α : Type} : Rule α → Nat → (α → Nat → Prop) → Prop
  | done answer, words, ended => ended answer words
  | step s rest, words, ended => s.needs ≤ words ∧ ∀ answer, (rest answer).Supplied (s.sureAfter words answer) ended
  | wrap _ _ inner rest, words, ended => inner.Supplied words fun _ left => rest.Supplied left ended
  | call nonterminal rest, words, ended => nonterminal.Ready words ∧ rest.Supplied 0 ended

theorem Supplied.mono {rule : Rule α} {words : Nat} {ended weaker : α → Nat → Prop} (hsupplied : rule.Supplied words ended)
    (hweaker : ∀ answer left, ended answer left → weaker answer left) : rule.Supplied words weaker := by
  induction rule generalizing words with
  | done answer => exact hweaker answer words hsupplied
  | step s rest ih => exact ⟨hsupplied.1, fun answer => ih answer (hsupplied.2 answer) hweaker⟩
  | wrap kind start inner rest ihinner ih => exact ihinner hsupplied fun _ left hleft => ih hleft hweaker
  | call nonterminal rest ih => exact ⟨hsupplied.1, ih hsupplied.2 hweaker⟩

@[simp] theorem supplied_pure (answer : α) (words : Nat) (ended : α → Nat → Prop) :
    (pure answer : Rule α).Supplied words ended ↔ ended answer words := Iff.rfl

@[simp] theorem supplied_bind (rule : Rule α) (next : α → Rule β) (words : Nat) (ended : β → Nat → Prop) :
    (rule >>= next).Supplied words ended ↔ rule.Supplied words fun answer left => (next answer).Supplied left ended := by
  rw [bind_eq]
  induction rule generalizing words with
  | done answer => rfl
  | step s rest ih => exact and_congr_right fun _ => forall_congr' fun answer => ih answer next _
  | wrap kind start inner rest ihinner ih =>
    have hrest (left : Nat) : (rest.bind next).Supplied left ended ↔
        rest.Supplied left fun answer left => (next answer).Supplied left ended := ih next left
    simp only [Rule.bind, Supplied, hrest]
  | call nonterminal rest ih => exact and_congr_right fun _ => ih next _

@[simp] theorem supplied_map (f : α → β) (rule : Rule α) (words : Nat) (ended : β → Nat → Prop) :
    (f <$> rule).Supplied words ended ↔ rule.Supplied words fun answer left => ended (f answer) left :=
  supplied_bind ..

@[simp] theorem supplied_ite (condition : Prop) [Decidable condition] (left right : Rule α) (words : Nat)
    (ended : α → Nat → Prop) : (if condition then left else right).Supplied words ended
      ↔ if condition then left.Supplied words ended else right.Supplied words ended := by
  split <;> rfl

@[simp] theorem supplied_ofStep (s : Step α) (words : Nat) (ended : α → Nat → Prop) :
    (ofStep s).Supplied words ended ↔ s.needs ≤ words ∧ ∀ answer, ended answer (s.sureAfter words answer) := Iff.rfl

@[simp] theorem supplied_orM (left right : Rule Bool) (words : Nat) (ended : Bool → Nat → Prop) :
    (left <||> right).Supplied words ended ↔
      left.Supplied words fun answer sure => if answer then ended true sure else right.Supplied sure ended := by
  refine (supplied_bind ..).trans (iff_of_eq ?_)
  congr
  funext answer sure
  cases answer <;> rfl

@[simp] theorem supplied_andM (left right : Rule Bool) (words : Nat) (ended : Bool → Nat → Prop) :
    (left <&&> right).Supplied words ended ↔
      left.Supplied words fun answer sure => if answer then right.Supplied sure ended else ended false sure := by
  refine (supplied_bind ..).trans (iff_of_eq ?_)
  congr
  funext answer sure
  cases answer <;> rfl

end Rule

/-! ### What the states of a run bear out -/

namespace State

/-- The last token is a word, and so many words at least are ahead. -/
structure Supplies (state : State) (words : Nat) : Prop where
  last : ∀ token ∈ state.ahead.getLast?, token.kind.isTrivia = false
  enough : words ≤ state.ahead.countP (!·.kind.isTrivia)

variable {state after : State} {words : Nat}

theorem Supplies.fewer {fewer : Nat} (hsupplies : state.Supplies words) (hle : fewer ≤ words) : state.Supplies fewer :=
  ⟨hsupplies.last, Nat.le_trans hle hsupplies.enough⟩

/-- What follows some of the tokens ends with the same token. -/
theorem getLast?_of_suffix {tokens rest : List Token} (hsuffix : rest <:+ tokens)
    (hlast : ∀ token ∈ tokens.getLast?, token.kind.isTrivia = false) :
    ∀ token ∈ rest.getLast?, token.kind.isTrivia = false := by
  obtain ⟨passed, rfl⟩ := hsuffix
  intro token hmem
  refine hlast token ?_
  rw [List.getLast?_append, Option.mem_def.mp hmem]
  rfl

/-- If anything is left a word is left. -/
theorem Supplies.one (hsupplies : state.Supplies words) (hahead : state.ahead ≠ []) : state.Supplies (max words 1) := by
  refine ⟨hsupplies.last, Nat.max_le.mpr ⟨hsupplies.enough, List.countP_pos_iff.mpr ?_⟩⟩
  have hword := hsupplies.last _ (List.getLast?_eq_some_getLast hahead)
  exact ⟨state.ahead.getLast hahead, List.getLast_mem hahead, by simp [hword]⟩

theorem Supplies.passTrivia (hsupplies : state.Supplies words) : state.passTrivia.Supplies words := by
  refine ⟨getLast?_of_suffix (List.dropWhile_suffix _) hsupplies.last, Nat.le_trans hsupplies.enough (Nat.le_of_eq ?_)⟩
  have hpassed : (state.ahead.takeWhile (·.kind.isTrivia)).countP (!·.kind.isTrivia) = 0 :=
    List.countP_eq_zero.mpr fun token hmem => by simpa using List.all_eq_true.mp List.all_takeWhile token hmem
  have hsplit := congrArg (List.countP (!·.kind.isTrivia))
    (List.takeWhile_append_dropWhile (p := (·.kind.isTrivia)) (l := state.ahead))
  rw [List.countP_append, hpassed, Nat.zero_add] at hsplit
  exact hsplit.symm

/-- A number right behind the word here makes two. -/
theorem Supplies.two (hsupplies : state.passTrivia.Supplies words)
    (hfollows : state.passTrivia.ahead.tail.head?.any isFoldable = true) : state.passTrivia.Supplies (max words 2) := by
  refine ⟨hsupplies.last, Nat.max_le.mpr ⟨hsupplies.enough, ?_⟩⟩
  cases hahead : state.passTrivia.ahead with
  | nil => simp [hahead] at hfollows
  | cons token rest =>
    have hword : token.kind.isTrivia = false := by
      have hhere := isTrivia_kindOf_passTrivia state
      rwa [hahead] at hhere
    cases rest with
    | nil => simp [hahead] at hfollows
    | cons number rest =>
      have hnumber : number.kind.isTrivia = false := by
        have hfoldable : isFoldable number = true := by simpa [hahead] using hfollows
        cases htrivia : number.kind.isTrivia with
        | false => rfl
        | true => exact nomatch (Word.isFoldable_eq_false htrivia).symm.trans hfoldable
      simp [hword, hnumber]

theorem Supplies.advance (hsupplies : state.Supplies words) (hadvance : state.advance = .ok after) :
    after.Supplies (words - 1) := by
  rw [State.advance] at hadvance
  split at hadvance
  · cases hadvance
  · next token rest hahead =>
    obtain ⟨left?, exceeded?, hspend, -, -⟩ := spendStep_eq state
    rw [hspend] at hadvance
    obtain rfl := Except.ok.inj hadvance
    obtain ⟨hlast, henough⟩ := hsupplies
    rw [hahead] at hlast henough
    refine ⟨getLast?_of_suffix (List.suffix_cons token rest) hlast, ?_⟩
    rw [List.countP_cons] at henough
    have hone : (if (!token.kind.isTrivia) = true then 1 else 0) ≤ 1 := by split <;> omega
    show words - 1 ≤ rest.countP _
    omega

theorem Supplies.advance_ne (hsupplies : state.Supplies words) (hneeds : 0 < words) :
    state.advance ≠ .error .advancedPastEnd := by
  have hahead : state.ahead ≠ [] := by
    intro hnil
    have henough := hsupplies.enough
    rw [hnil] at henough
    exact absurd hneeds (Nat.not_lt.mpr henough)
  rw [State.advance]
  split
  · next hnil => exact absurd hnil hahead
  · intro hsame
    cases hsame

end State

/-- A run does not move past the end, and what it ends with is as asked for. -/
def Fares {α : Type} (ended : α → State → Prop) : Except Fault (α × State) → Prop
  | .error fault => fault ≠ .advancedPastEnd
  | .ok (answer, after) => ended answer after

open State in
/-- A step that is supplied with a word does not move past the end, and the words that a rule is sure of are ahead. -/
theorem Step.fares_of_run {α : Type} (step : Step α) {words : Nat} {state : State} (hneeds : step.needs ≤ words)
    (hsupplies : state.Supplies words) :
    Fares (fun answer after => after.Supplies (step.sureAfter words answer)) (step.run state) := by
  have hpassed := hsupplies.passTrivia
  have hlook {looked : State} (hlook : state.passTrivia.spendLook = .ok looked) :
      looked.ahead = state.passTrivia.ahead ∧ looked.Supplies words := by
    rw [eq_of_spendLook hlook]
    exact ⟨rfl, hpassed.last, hpassed.enough⟩
  cases step with
  | current =>
    simp only [Step.run]
    obtain herror | ⟨left, hspent⟩ := spendLook_eq state.passTrivia
    · rw [herror]
      intro hsame
      cases hsame
    · rw [hspent]
      obtain ⟨hahead, hlooked⟩ := hlook hspent
      show Supplies _ (if _ then _ else _)
      split
      · exact hlooked
      · next hkind =>
        refine hlooked.one fun hnil => hkind ?_
        rw [hnil]
        rfl
  | adjacent =>
    simp only [Step.run]
    obtain herror | ⟨left, hspent⟩ := spendLook_eq state.passTrivia
    · rw [herror]
      intro hsame
      cases hsame
    · rw [hspent]
      exact (hlook hspent).2
  | next | currentSpan | afterLineBreak | placeTrivia => exact ⟨hpassed.last, hpassed.enough⟩
  | numberFollows =>
    show State.Supplies _ _
    cases hfollows : state.passTrivia.ahead.tail.head?.any isFoldable with
    | true => exact hpassed.two hfollows
    | false => exact hpassed
  | atEnd =>
    show State.Supplies _ _
    cases hend : state.atEnd with
    | true => exact hsupplies
    | false => exact hsupplies.one (List.isEmpty_eq_false_iff.mp hend)
  | stopped =>
    show State.Supplies _ _
    cases hstopped : state.stopped with
    | true => exact hsupplies
    | false => exact hsupplies.one (List.isEmpty_eq_false_iff.mp (Bool.or_eq_false_iff.mp hstopped).1)
  | advance =>
    simp only [Step.run]
    cases hadvance : state.advance with
    | error fault =>
      rintro rfl
      exact hsupplies.advance_ne hneeds hadvance
    | ok advanced => exact hsupplies.advance hadvance
  | previous | mark | pushOpener | popOpener | report | ascend => exact ⟨hsupplies.last, hsupplies.enough⟩
  | reportOnce offset diagnostic =>
    simp only [Step.run, Fares, State.reportOnce]
    split <;> exact ⟨hsupplies.last, hsupplies.enough⟩
  | descend =>
    simp only [Step.run, State.descend]
    split <;> exact ⟨hsupplies.last, hsupplies.enough⟩

/-! ### Runs -/

/-- The run of a nonterminal does not move past the end. -/
def Nonterminal.Fares : Except Fault State → Prop
  | .error fault => fault ≠ .advancedPastEnd
  | .ok after => after.Supplies 0

/-- A supplied rule does not move past the end if the nonterminals that it calls do not. -/
theorem Rule.Supplied.exec {α : Type} {bound : Nat}
    (hcalls : ∀ (nonterminal : Nonterminal) (words : Nat) (state : State), nonterminal.Ready words →
      state.Supplies words → Nonterminal.Fares (nonterminal.run bound state))
    {rule : Rule α} {words : Nat} {ended : α → Nat → Prop} {state : State} (hsupplied : rule.Supplied words ended)
    (hsupplies : state.Supplies words) :
    Fares (fun answer after => ∃ left, after.Supplies left ∧ ended answer left)
      (rule.exec (Nonterminal.run bound) state) := by
  induction rule generalizing words state with
  | done answer => exact ⟨words, hsupplies, hsupplied⟩
  | step s rest ih =>
    have hstep := s.fares_of_run hsupplied.1 hsupplies
    rw [Rule.exec]
    cases hrun : s.run state with
    | error fault => rwa [hrun] at hstep
    | ok result =>
      rw [hrun] at hstep
      exact ih result.1 (hsupplied.2 result.1) hstep
  | wrap kind start inner rest ihinner ih =>
    have hopen : State.Supplies { state with placed := state.placed.take (state.placed.length - start) } words :=
      ⟨hsupplies.last, hsupplies.enough⟩
    have hinner := ihinner hsupplied hopen
    simp only [Rule.exec]
    cases hrun : inner.exec (Nonterminal.run bound)
        { state with placed := state.placed.take (state.placed.length - start) } with
    | error fault => rwa [hrun] at hinner
    | ok result =>
      rw [hrun] at hinner
      obtain ⟨left, hleft, hrest⟩ := hinner
      exact ih hrest ⟨hleft.last, hleft.enough⟩
  | call nonterminal rest ih =>
    have hcall := hcalls nonterminal words state hsupplied.1 hsupplies
    rw [Rule.exec]
    cases hrun : nonterminal.run bound state with
    | error fault => rwa [hrun] at hcall
    | ok after =>
      rw [hrun] at hcall
      exact ih hsupplied.2 hcall

/-- If the rule of every nonterminal is supplied, no run moves past the end. -/
theorem Nonterminal.fares_of_run
    (hsupplied : ∀ (nonterminal : Nonterminal) (words : Nat), nonterminal.Ready words →
      (Grammar.ruleOf nonterminal).Supplied words fun _ _ => True)
    (bound : Nat) (nonterminal : Nonterminal) (words : Nat) (state : State) (hready : nonterminal.Ready words)
    (hsupplies : state.Supplies words) : Fares (nonterminal.run bound state) := by
  induction bound generalizing nonterminal words state with
  | zero =>
    intro hsame
    cases hsame
  | succ bound ih =>
    have hexec := (hsupplied nonterminal words hready).exec ih hsupplies
    rw [Nonterminal.run]
    cases hrun : (Grammar.ruleOf nonterminal).exec (Nonterminal.run bound) state with
    | error fault => rwa [hrun] at hexec
    | ok result =>
      rw [hrun] at hexec
      obtain ⟨left, hleft, -⟩ := hexec
      exact hleft.fewer (Nat.zero_le left)

end Squirrel
