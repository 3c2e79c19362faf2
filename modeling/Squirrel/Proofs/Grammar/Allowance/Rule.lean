import Squirrel.Proofs.Grammar.Accept.Rule
import Squirrel.Proofs.Grammar.Ensures

/-!
# What a reading takes

A reading that succeeds is what an unlimited run does, as long as its rules do not look too often between two moves and
not too many nonterminals are open at once. A rule is followed with the number of tokens ahead and the number of looks that
are left: moving on and changing the level of nesting give all looks back, and every token passed allows for a few more
nonterminals.
-/

namespace Squirrel

/-- What the rule reads is also what it does in a run with so many nonterminals open at once, from any state with at most
so many tokens ahead and at least so many looks left; and the result is told such numbers for the state after it. -/
def Rule.Runs (fuel : Nat) {α : Type} (rule : Rule α) (tokens looks : Nat) (result : α → Nat → Nat → Prop) : Prop :=
  ∀ (state : State) (answer : α) (after : View), state.Free → state.ahead.length ≤ tokens → looks ≤ state.looks →
    rule.Gives state.view answer after →
    ∃ reached left leftLooks, rule.exec (Nonterminal.run fuel) state = .ok (answer, reached) ∧ reached.view = after ∧
      reached.Free ∧ reached.ahead.length ≤ left ∧ leftLooks ≤ reached.looks ∧ result answer left leftLooks

/-! ### Steps -/

namespace Step

/-- How many looks a step takes. -/
def cost {α : Type} : Step α → Nat
  | current | adjacent => 1
  | _ => 0

/-- How many looks are left after a step. -/
def left {α : Type} (looks : Nat) : Step α → Nat
  | current | adjacent => looks - 1
  | advance | descend | ascend => State.lookLimit
  | _ => looks

theorem exists_run_of_read {α : Type} (step : Step α) {state : State} {after : View} {answer : α} {looks : Nat}
    (hread : step.read state.view = some (answer, after)) (hfree : state.Free) (hlooks : looks ≤ state.looks)
    (hcost : step.cost ≤ looks) :
    ∃ reached, step.run state = .ok (answer, reached) ∧ reached.view = after ∧ reached.Free ∧
      step.left looks ≤ reached.looks := by
  have hsome : state.passTrivia.looks = state.looks := rfl
  obtain hfailed | ⟨reached, hrun, hview, hreached⟩ := step.run_of_read hread hfree
  · cases step
    case current | adjacent =>
      simp only [cost] at hcost
      obtain ⟨left, hleft⟩ := Nat.exists_eq_succ_of_ne_zero (Nat.ne_of_gt (Nat.lt_of_lt_of_le hcost hlooks))
      simp [run, Bind.bind, Except.bind, State.spendLook, hsome, hleft, pure, Except.pure] at hfailed
    case advance =>
      simp only [run, Bind.bind, Except.bind] at hfailed
      split at hfailed
      · next fault hadvance =>
        rw [State.advance] at hadvance
        split at hadvance
        · simp only [Except.error.injEq] at hadvance hfailed
          rw [← hadvance] at hfailed
          cases hfailed
        · simp at hadvance
      · simp [pure, Except.pure] at hfailed
    all_goals simp [run] at hfailed
  · refine ⟨reached, hrun, hview, hreached, ?_⟩
    cases step
    case current | adjacent =>
      simp only [cost] at hcost
      obtain ⟨left, hleft⟩ := Nat.exists_eq_succ_of_ne_zero (Nat.ne_of_gt (Nat.lt_of_lt_of_le hcost hlooks))
      simp only [run, Bind.bind, Except.bind, State.spendLook, hsome, hleft, pure, Except.pure, Except.ok.injEq,
        Prod.mk.injEq] at hrun
      rw [← hrun.2]
      simp only [Step.left]
      omega
    case advance =>
      simp only [run, Bind.bind, Except.bind] at hrun
      split at hrun
      · simp at hrun
      · next advanced hadvance =>
        simp only [pure, Except.pure, Except.ok.injEq, Prod.mk.injEq] at hrun
        rw [State.advance] at hadvance
        split at hadvance
        · simp at hadvance
        · simp only [Except.ok.injEq] at hadvance
          rw [← hrun.2, ← hadvance]
          exact Nat.le_refl _
    case descend =>
      simp only [run, State.descend, hfree.2.2.2.2, Except.ok.injEq] at hrun
      simp only [Option.any_none, Bool.false_eq_true, if_false, Prod.mk.injEq] at hrun
      rw [← hrun.2]
      exact Nat.le_refl _
    case ascend =>
      simp only [run, Except.ok.injEq, Prod.mk.injEq] at hrun
      rw [← hrun.2]
      exact Nat.le_refl _
    case report | reportOnce => simp [read] at hread
    all_goals
      simp only [run, Except.ok.injEq, Prod.mk.injEq] at hrun
      rw [← hrun.2]
      exact hlooks

end Step

namespace Rule

theorem Gives.read_ofStep {α : Type} {step : Step α} {view after : View} {answer : α}
    (hgives : (ofStep step).Gives view answer after) : step.read view = some (answer, after) := by
  obtain ⟨bound, hread⟩ := hgives
  rwa [Rule.read_ofStep] at hread

theorem Gives.exists_bind {α β : Type} {rule : Rule α} {next : α → Rule β} {view after : View} {answer : β}
    (hgives : (rule >>= next).Gives view answer after) :
    ∃ first between, rule.Gives view first between ∧ (next first).Gives between answer after := by
  obtain ⟨bound, hread⟩ := hgives
  obtain ⟨first, between, hfirst, hnext⟩ := read_bind_some hread
  exact ⟨first, between, ⟨bound, hfirst⟩, ⟨bound, hnext⟩⟩

theorem Gives.of_call {nonterminal : Nonterminal} {view after : View}
    (hgives : (Grammar.call nonterminal).Gives view () after) : (Grammar.ruleOf nonterminal).Gives view () after := by
  obtain ⟨bound, hread⟩ := hgives
  rw [Grammar.read_call, Option.map_eq_some_iff] at hread
  obtain ⟨found, hread, hfound⟩ := hread
  obtain ⟨-, rfl⟩ := Prod.mk.inj hfound
  cases bound with
  | zero => exact nomatch hread
  | succ bound =>
    rw [Nonterminal.read, Option.map_eq_some_iff] at hread
    obtain ⟨⟨⟨⟩, stop⟩, hread, rfl⟩ := hread
    exact ⟨bound, hread⟩

end Rule

namespace Grammar

open Rule

variable {α β : Type} {fuel tokens looks : Nat}

/-! ### Rules in general -/

theorem runs_pure {answer : α} {result : α → Nat → Nat → Prop} (hresult : result answer tokens looks) :
    (pure answer : Rule α).Runs fuel tokens looks result := by
  intro state found after hfree htokens hlooks ⟨_, hread⟩
  obtain ⟨rfl, rfl⟩ := Prod.mk.inj (Option.some.inj hread)
  exact ⟨state, tokens, looks, rfl, rfl, hfree, htokens, hlooks, hresult⟩

theorem runs_bind {rule : Rule α} {next : α → Rule β} {result : β → Nat → Nat → Prop}
    (hrule : rule.Runs fuel tokens looks fun answer left leftLooks => (next answer).Runs fuel left leftLooks result) :
    (rule >>= next).Runs fuel tokens looks result := by
  intro state answer after hfree htokens hlooks hgives
  obtain ⟨first, between, hfirst, hnext⟩ := hgives.exists_bind
  obtain ⟨middle, left, leftLooks, hexec, rfl, hmiddle, hleft, hleftLooks, hruns⟩ :=
    hrule state first between hfree htokens hlooks hfirst
  obtain ⟨reached, last, lastLooks, hexec', hafter⟩ := hruns middle answer after hmiddle hleft hleftLooks hnext
  exact ⟨reached, last, lastLooks, by rw [exec_bind, hexec]; exact hexec', hafter⟩

theorem runs_mono {rule : Rule α} {first result : α → Nat → Nat → Prop} (hrule : rule.Runs fuel tokens looks first)
    (hresult : ∀ answer left less, first answer left less → result answer left less) :
    rule.Runs fuel tokens looks result := by
  intro state answer after hfree htokens hlooks hgives
  obtain ⟨reached, left, less, hexec, hview, hreached, hleft, hless, hfirst⟩ :=
    hrule state answer after hfree htokens hlooks hgives
  exact ⟨reached, left, less, hexec, hview, hreached, hleft, hless, hresult answer left less hfirst⟩

/-- A rule that reads nothing. -/
theorem runs_dead {rule : Rule α} {result : α → Nat → Nat → Prop}
    (hnone : ∀ readCall view, rule.read readCall view = none) : rule.Runs fuel tokens looks result := by
  intro state answer after _ _ _ ⟨_, hread⟩
  simp [hnone] at hread

theorem runs_deadBind {rule : Rule α} {next : α → Rule β} {result : β → Nat → Nat → Prop}
    (hnone : ∀ readCall view, rule.read readCall view = none) : (rule >>= next).Runs fuel tokens looks result :=
  runs_bind (runs_dead hnone)

theorem runs_step {step : Step α} {result : α → Nat → Nat → Prop} (hcost : step.cost ≤ looks)
    (hresult : ∀ answer, result answer tokens (step.left looks)) : (ofStep step).Runs fuel tokens looks result := by
  intro state answer after hfree htokens hlooks hgives
  have hread := hgives.read_ofStep
  obtain ⟨reached, hrun, rfl, hreached, hleft⟩ := step.exists_run_of_read hread hfree hlooks hcost
  have hahead : reached.ahead.length ≤ state.ahead.length := (step.ahead_of_read hread).length_le
  exact ⟨reached, tokens, step.left looks, by simp only [ofStep, exec, hrun], rfl, hreached,
    Nat.le_trans hahead htokens, hleft, hresult answer⟩

theorem runs_ite {condition : Prop} [Decidable condition] {yes no : Rule α} {result : α → Nat → Nat → Prop}
    (hyes : yes.Runs fuel tokens looks result) (hno : no.Runs fuel tokens looks result) :
    (if condition then yes else no).Runs fuel tokens looks result := by
  split
  · exact hyes
  · exact hno

theorem runs_orM {left right : Rule Bool} {result : Bool → Nat → Nat → Prop}
    (hleft : left.Runs fuel tokens looks fun answer rest less =>
      (answer = true → result true rest less) ∧ (answer = false → right.Runs fuel rest less result)) :
    (left <||> right).Runs fuel tokens looks result := by
  refine runs_bind (runs_mono hleft fun answer rest less hanswer => ?_)
  cases answer with
  | true => exact runs_pure (hanswer.1 rfl)
  | false => exact hanswer.2 rfl

/-! ### Looking ahead -/

/-- Steps that take no looks and give none back. -/
theorem runs_glance {step : Step α} {result : α → Nat → Nat → Prop} (hcost : step.cost = 0)
    (hleft : step.left looks = looks) (hresult : ∀ answer, result answer tokens looks) :
    (ofStep step).Runs fuel tokens looks result :=
  runs_step (hcost ▸ Nat.zero_le _) fun answer => by rw [hleft]; exact hresult answer

theorem runs_current {result : Kind → Nat → Nat → Prop} (hlooks : 0 < looks)
    (hresult : ∀ kind, result kind tokens (looks - 1)) : current.Runs fuel tokens looks result :=
  runs_step hlooks hresult

/-- A rule that looks at the next token, where rejected input cannot be read. -/
theorem runs_currentAccepted {next : Kind → Rule α} {result : α → Nat → Nat → Prop} (hlooks : 0 < looks)
    (hgarbage : ∀ readCall (view : View), Word.here view.words = .garbage → (next .garbage).read readCall view = none)
    (hnext : ∀ kind, kind ≠ .garbage → (next kind).Runs fuel tokens (looks - 1) result) :
    (current >>= next).Runs fuel tokens looks result := by
  intro state answer after hfree htokens hfewer hgives
  obtain ⟨kind, between, hcurrent, hrest⟩ := hgives.exists_bind
  by_cases hkind : kind = .garbage
  · obtain ⟨_, hcurrent⟩ := hcurrent
    obtain ⟨_, hrest⟩ := hrest
    rw [read_current, Option.some.injEq, Prod.mk.injEq] at hcurrent
    rw [hkind, hgarbage _ _ (by rw [← hcurrent.2, View.words_passTrivia, hcurrent.1, hkind])] at hrest
    exact nomatch hrest
  · have hruns : current.Runs fuel tokens looks fun found left less =>
        found ≠ .garbage → (next found).Runs fuel left less result := runs_current hlooks hnext
    obtain ⟨middle, left, less, hexec, rfl, hmiddle, hleft, hless, hnext⟩ :=
      hruns state kind between hfree htokens hfewer hcurrent
    obtain ⟨reached, last, fewer, hexec', hafter⟩ := hnext hkind middle answer after hmiddle hleft hless hrest
    exact ⟨reached, last, fewer, by rw [exec_bind, hexec]; exact hexec', hafter⟩

theorem runs_currentIs {kind : Kind} {result : Bool → Nat → Nat → Prop} (hlooks : 0 < looks)
    (hresult : ∀ answer, result answer tokens (looks - 1)) : (currentIs kind).Runs fuel tokens looks result :=
  runs_bind (runs_current hlooks fun _ => runs_pure (hresult _))

theorem runs_currentIn {set : TokenSet} {result : Bool → Nat → Nat → Prop} (hlooks : 0 < looks)
    (hresult : ∀ answer, result answer tokens (looks - 1)) : (currentIn set).Runs fuel tokens looks result :=
  runs_bind (runs_current hlooks fun _ => runs_pure (hresult _))

/-- Changing the level of nesting gives all looks back. -/
theorem runs_descend {result : Bool → Nat → Nat → Prop} (hresult : ∀ more, 200 ≤ more → result true tokens more) :
    (ofStep .descend).Runs fuel tokens looks result := by
  intro state answer after hfree htokens hlooks hgives
  have hread : Step.descend.read state.view = some (answer, after) := hgives.read_ofStep
  obtain ⟨rfl, -⟩ := Prod.mk.inj (Option.some.inj hread)
  have hruns : (ofStep .descend).Runs fuel tokens looks fun _ left less => left = tokens ∧ less = State.lookLimit :=
    runs_step (Nat.zero_le _) fun _ => ⟨rfl, rfl⟩
  obtain ⟨reached, _, _, hexec, hview, hreached, hleft, hless, rfl, rfl⟩ :=
    hruns state true after hfree htokens hlooks hgives
  exact ⟨reached, _, _, hexec, hview, hreached, hleft, hless, hresult _ (by decide)⟩

theorem runs_ascend {result : Unit → Nat → Nat → Prop} (hresult : ∀ more, 200 ≤ more → result () tokens more) :
    (ofStep .ascend).Runs fuel tokens looks result :=
  runs_step (Nat.zero_le _) fun _ => hresult State.lookLimit (by decide)

/-- A step that asks whether anything is left. -/
theorem runs_endStep {step : Step Bool} {result : Bool → Nat → Nat → Prop} (hcost : step.cost = 0)
    (hleft : step.left looks = looks) (hstep : ∀ view, step.read view = some (view.ahead.isEmpty, view)) (hyes : result true 0 looks)
    (hno : 0 < tokens → result false tokens looks) : (ofStep step).Runs fuel tokens looks result := by
  intro state answer after hfree htokens hlooks hgives
  have hread := hgives.read_ofStep
  obtain ⟨reached, hrun, rfl, hreached, hmore⟩ := step.exists_run_of_read hread hfree hlooks (hcost ▸ Nat.zero_le _)
  rw [hleft] at hmore
  rw [hstep, Option.some.injEq, Prod.mk.injEq] at hread
  obtain ⟨rfl, hview⟩ := hread
  have hahead : reached.ahead = state.ahead := (congrArg View.ahead hview).symm
  cases hcase : state.ahead with
  | nil =>
    refine ⟨reached, 0, looks, by simp only [ofStep, exec, hrun], rfl, hreached, by simp [hahead, hcase], hmore, ?_⟩
    rwa [show state.view.ahead = [] from hcase]
  | cons token rest =>
    refine ⟨reached, tokens, looks, by simp only [ofStep, exec, hrun], rfl, hreached, hahead ▸ htokens, hmore, ?_⟩
    rw [show state.view.ahead = token :: rest from hcase]
    refine hno (Nat.lt_of_lt_of_le ?_ htokens)
    rw [hcase]
    exact Nat.succ_pos _

theorem runs_stopped {result : Bool → Nat → Nat → Prop} (hyes : result true 0 looks)
    (hno : 0 < tokens → result false tokens looks) : stopped.Runs fuel tokens looks result :=
  runs_endStep rfl rfl (fun _ => rfl) hyes hno

theorem runs_atEnd {result : Bool → Nat → Nat → Prop} (hyes : result true 0 looks)
    (hno : 0 < tokens → result false tokens looks) : atEnd.Runs fuel tokens looks result :=
  runs_endStep rfl rfl (fun _ => rfl) hyes hno

/-! ### Passing words -/

/-- The result holds of any state with fewer tokens ahead and plenty of looks left. -/
def Moved (tokens : Nat) (result : Nat → Nat → Prop) : Prop :=
  ∀ left looks, left < tokens ∧ 200 ≤ looks → result left looks

/-- It also holds with some looks taken since. -/
def Passed (tokens : Nat) (result : Nat → Nat → Prop) : Prop :=
  ∀ left looks, left < tokens ∧ 50 ≤ looks → result left looks

/-- It holds whether or not a token has been passed, as long as many looks are left. -/
def Kept (tokens : Nat) (result : Nat → Nat → Prop) : Prop :=
  ∀ left looks, left ≤ tokens ∧ 50 ≤ looks → result left looks

/-- It holds whether or not a token has been passed, with a few looks taken since. -/
def Stayed (tokens looks : Nat) (result : Nat → Nat → Prop) : Prop :=
  ∀ left less, left ≤ tokens ∧ min looks 45 ≤ less + 5 → result left less

theorem runs_advance {result : Unit → Nat → Nat → Prop} (hresult : Moved tokens (result ())) :
    advance.Runs fuel tokens looks result := by
  intro state answer after hfree htokens hlooks hgives
  have hread : Step.advance.read state.view = some (answer, after) := hgives.read_ofStep
  obtain ⟨reached, hrun, rfl, hreached, hleft⟩ := Step.advance.exists_run_of_read hread hfree hlooks (Nat.zero_le _)
  have hahead : reached.ahead.length < state.ahead.length := by
    have hadvance : state.view.advance = some reached.view := by
      rw [Step.read, Option.map_eq_some_iff] at hread
      obtain ⟨found, hadvance, hfound⟩ := hread
      rwa [(Prod.mk.inj hfound).2] at hadvance
    rw [View.advance] at hadvance
    split at hadvance
    · cases hadvance
    · next token rest hcons =>
      split at hadvance
      · cases hadvance
      · have hrest : rest = reached.ahead := congrArg View.ahead (Option.some.inj hadvance)
        rw [← hrest, show state.ahead = token :: rest from hcons]
        exact Nat.lt_succ_self _
  exact ⟨reached, reached.ahead.length, State.lookLimit, by simp only [advance, ofStep, exec, hrun], rfl, hreached,
    Nat.le_refl _, hleft, hresult _ _ ⟨Nat.lt_of_lt_of_le hahead htokens, by decide⟩⟩

theorem runs_eat {kind : Kind} {result : Bool → Nat → Nat → Prop} (hlooks : 0 < looks)
    (hyes : Moved tokens (result true)) (hno : result false tokens (looks - 1)) :
    (eat kind).Runs fuel tokens looks result := by
  refine runs_bind (runs_currentIs hlooks fun answer => ?_)
  cases answer with
  | true => exact runs_bind (runs_advance fun left more hmoved => runs_pure (hyes left more hmoved))
  | false => exact runs_pure hno

theorem runs_expect {kind : Kind} {what : String} {result : Bool → Nat → Nat → Prop} (hlooks : 0 < looks)
    (hresult : Moved tokens (result true)) : (expect kind what).Runs fuel tokens looks result := by
  refine runs_bind (runs_eat hlooks (fun left more hmoved => runs_pure (hresult left more hmoved)) ?_)
  refine runs_bind (runs_step (Nat.zero_le _) fun _ => runs_bind (runs_step (Nat.zero_le _) fun _ => ?_))
  exact runs_deadBind fun _ _ => rfl

theorem runs_open {kind : Kind} {result : Unit → Nat → Nat → Prop}
    (hresult : Moved tokens (result ())) : (openDelimiter kind).Runs fuel tokens looks result :=
  runs_bind (runs_step (Nat.zero_le _) fun _ => runs_bind (runs_step (Nat.zero_le _) fun _ => runs_advance hresult))

theorem runs_close {close : Kind} {construct : String} {result : Unit → Nat → Nat → Prop} (hlooks : 1 < looks)
    (hresult : Moved tokens (result ())) :
    (closeDelimiter close construct).Runs fuel tokens looks result := by
  refine runs_bind (runs_step (Nat.zero_le _) fun opener? => ?_)
  refine runs_bind (runs_eat (Nat.zero_lt_of_lt hlooks) (fun left more hmoved => runs_pure (hresult left more hmoved)) ?_)
  refine runs_bind (runs_step (Nat.zero_le _) fun ranOut => ?_)
  split
  · exact runs_bind (runs_step (Nat.zero_le _) fun _ => runs_dead fun _ _ => rfl)
  · exact runs_bind (runs_expect (Nat.sub_pos_of_lt hlooks) fun left more hmoved => runs_pure (hresult left more hmoved))

/-! ### Nodes and nonterminals -/

theorem runs_nodeFrom {kind : Kind} {start : Nat} {inner : Rule Unit} {result : Unit → Nat → Nat → Prop}
    (hinner : inner.Runs fuel tokens looks result) : (nodeFrom start kind inner).Runs fuel tokens looks result := by
  intro state answer after hfree htokens hlooks ⟨bound, hread⟩
  simp only [nodeFrom, Rule.read] at hread
  split at hread
  · cases hread
  · next between hgives =>
    obtain ⟨-, rfl⟩ := Prod.mk.inj (Option.some.inj hread)
    obtain ⟨reached, left, leftLooks, hexec, hview, hfree', hreached⟩ :=
      hinner { state with placed := state.placed.take (state.placed.length - start) } () between hfree htokens hlooks
        ⟨bound, hgives⟩
    refine ⟨{ reached with placed := .node kind reached.placed.reverse :: state.placed.drop (state.placed.length - start) },
      left, leftLooks, by simp only [nodeFrom, exec, hexec], ?_, hfree', hreached⟩
    rw [← hview]
    rfl

theorem runs_node {kind : Kind} {inner : Rule Unit} {result : Unit → Nat → Nat → Prop}
    (hinner : inner.Runs fuel tokens looks result) : (node kind inner).Runs fuel tokens looks result :=
  runs_bind (runs_step (Nat.zero_le _) fun _ => runs_nodeFrom hinner)

theorem runs_call {nonterminal : Nonterminal} {result : Unit → Nat → Nat → Prop}
    (hrule : (ruleOf nonterminal).Runs fuel tokens looks result) :
    (call nonterminal).Runs (fuel + 1) tokens looks result := by
  intro state answer after hfree htokens hlooks hgives
  obtain ⟨reached, left, leftLooks, hexec, hreached⟩ := hrule state () after hfree htokens hlooks hgives.of_call
  refine ⟨reached, left, leftLooks, ?_, hreached⟩
  simp only [call, exec, Nonterminal.run, hexec]

end Grammar

end Squirrel
