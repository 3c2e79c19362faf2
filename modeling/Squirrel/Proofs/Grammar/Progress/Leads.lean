import Squirrel.Proofs.Grammar.Progress.Standing

/-!
# What a rule leads to

`Rule.Leads` follows a rule from where it stands, by what its steps do and by what its calls promise. It demands of every
step that it fits, and of every call that it weighs less than the rule itself; so a rule that leads somewhere runs into no
bound of the machine, passes tokens only where it stands at one, and calls only what is lighter.
-/

namespace Squirrel

namespace Nonterminal

/-- Nonterminals that start without having moved call each other in the order of their ranks only. -/
def rank : Nonterminal → Nat
  | skipUntil _ | skipToStatement | operators .. => 0
  | expression .. => 1
  | statement => 2
  | _ => 3

theorem rank_le (nonterminal : Nonterminal) : nonterminal.rank ≤ 3 := by cases nonterminal <;> simp [rank]

/-- How many nonterminals a run may have open at once. -/
def weight (nonterminal : Nonterminal) (standing : Standing) : Nat :=
  4 * (standing.raw + standing.slack) + nonterminal.rank

/-- Whether the rule of a nonterminal first asks whether the run has stopped. -/
def asksFirst : Nonterminal → Bool
  | statement | expression .. | skipUntil _ | skipToStatement | path _ | localBindings => false
  | _ => true

/-- The looks that a nonterminal may take before it moves or refills them; those that ask first whether the run has
stopped take none if it has. -/
def needs (nonterminal : Nonterminal) (going : Nat) : Nat :=
  match nonterminal with
  | statement | expression .. | skipToStatement => 0
  | skipUntil _ | path _ | localBindings => 1
  | _ => 6 * going

/-- What a nonterminal needs: some looks, and to skip to a statement it has to stand at a token. -/
def Called (room : Nat) (nonterminal : Nonterminal) (standing : Standing) : Prop :=
  standing.price + 40 ≤ room ∧ standing.spent + nonterminal.needs (min standing.slack standing.raw) ≤ room ∧
    (nonterminal = .skipToStatement → standing.raw = standing.left)

/-- The looks that a nonterminal may have spent since it started, if it has not moved. -/
def tries (nonterminal : Nonterminal) (going : Nat) : Nat :=
  match nonterminal with
  | statement | expression .. | skipToStatement => 0
  | skipUntil _ | path _ | localBindings => 1
  | _ => 5 * going

/-- The looks that a nonterminal may have spent beyond the price, if it has moved. -/
def margin : Nonterminal → Nat
  | statement | expression .. => 0
  | skipUntil _ | skipToStatement | path _ => 1
  | localBindings => 3
  | slots | elements => 10
  | parameterList .. | enumEntries => 13
  | attributeList => 20
  | switchClauses _ => 18
  | operators .. => 19
  | members => 28
  | _ => 12

end Nonterminal

namespace Standing

/-- At the same place or further on. -/
abbrev Later (before after : Standing) : Prop :=
  after.left ≤ after.raw ∧ after.raw ≤ before.raw ∧ after.left ≤ before.left ∧ after.slack ≤ before.slack ∧
    after.price ≤ before.price ∧ after.price ≤ after.spent

/-- The token behind the trivia here has been passed or a limit exceeded. -/
abbrev Advanced (before after : Standing) : Prop := after.raw < before.left ∨ after.slack < before.slack

end Standing

namespace Nonterminal

/-- What a nonterminal promises: it goes on from where it started, and does not look too often. A statement and an
expression refill the looks unless that exceeds a limit, and move if they can; skipping goes on up to a token of the set. -/
def Exits (nonterminal : Nonterminal) (before after : Standing) : Prop :=
  before.Later after ∧
    (after.spent ≤ before.spent + nonterminal.tries (min before.slack before.raw) ∨ after.spent ≤ before.price + nonterminal.margin) ∧
    match nonterminal with
    | statement => (after.slack = 0 ∨ after.spent ≤ before.price) ∧
        (0 < before.left → before.slack = 1 → before.Advanced after)
    | expression .. => (after.slack = 0 ∨ after.spent ≤ before.price) ∧
        (before.slack = 1 → TokenSet.expressionFirst.contains before.here = true ∨ before.here = .braceOpen →
          before.Advanced after)
    | skipUntil recovery => after.raw < before.left ∧ after.spent ≤ before.price + 1 ∨
        recovery.contains before.here = true ∨ before.left = 0 ∨ before.slack = 0
    | skipToStatement => after.raw < before.left
    | _ => True

end Nonterminal

namespace Rule

variable {α β : Type} {room weight : Nat} {standing : Standing} {result : α → Standing → Prop}

/-- Where a rule leads from a standing, if its calls keep their promises. -/
def Leads (room weight : Nat) {α : Type} : Rule α → Standing → (α → Standing → Prop) → Prop
  | done answer, standing, result => result answer standing
  | step s rest, standing, result =>
    s.Fits room standing ∧ ∀ answer after, s.Stands standing answer after → (rest answer).Leads room weight after result
  | wrap _ _ inner rest, standing, result =>
    inner.Leads room weight standing fun _ after => rest.Leads room weight after result
  | call nonterminal rest, standing, result =>
    (nonterminal.Called room standing ∧ nonterminal.weight standing < weight) ∧
      ∀ after, nonterminal.Exits standing after → rest.Leads room weight after result

theorem Leads.mono {rule : Rule α} {weaker : α → Standing → Prop} (hleads : rule.Leads room weight standing result)
    (hweaker : ∀ answer after, result answer after → weaker answer after) : rule.Leads room weight standing weaker := by
  induction rule generalizing standing with
  | done answer => exact hweaker answer standing hleads
  | step s rest ih => exact ⟨hleads.1, fun answer after hstands => ih answer (hleads.2 answer after hstands) hweaker⟩
  | wrap kind start inner rest ihinner ih => exact ihinner hleads fun _ _ hrest => ih hrest hweaker
  | call nonterminal rest ih => exact ⟨hleads.1, fun after hexits => ih (hleads.2 after hexits) hweaker⟩

theorem Leads.bind {rule : Rule α} {next : α → Rule β} {result : β → Standing → Prop}
    (hleads : rule.Leads room weight standing fun answer after => (next answer).Leads room weight after result) :
    (rule >>= next).Leads room weight standing result := by
  rw [bind_eq]
  induction rule generalizing standing with
  | done answer => exact hleads
  | step s rest ih => exact ⟨hleads.1, fun answer after hstands => ih answer (hleads.2 answer after hstands)⟩
  | wrap kind start inner rest ihinner ih =>
    simp only [Rule.bind, Leads] at hleads ⊢
    exact hleads.mono fun _ _ hrest => ih hrest
  | call nonterminal rest ih => exact ⟨hleads.1, fun after hexits => ih (hleads.2 after hexits)⟩

end Rule

/-! ### Runs -/

/-- The faults that are left: moving past the end, looking too often in too small a room, and nesting too deep where that
is to be expected. -/
def Fault.Excused (room : Nat) (deep : Prop) : Fault → Prop
  | .advancedPastEnd => True
  | .lookedTooOften => State.lookLimit < room
  | .nestedTooDeep => deep

/-- A result that is as promised, or a fault that is excused. -/
def Fault.Delivers {γ : Type} (room : Nat) (deep : Prop) (promise : γ → Prop) : Except Fault γ → Prop
  | .ok found => promise found
  | .error fault => fault.Excused room deep

theorem Fault.Excused.mono {room : Nat} {deep deeper : Prop} {fault : Fault} (hexcused : fault.Excused room deep)
    (hdeeper : deep → deeper) : fault.Excused room deeper := by
  cases fault with
  | nestedTooDeep => exact hdeeper hexcused
  | _ => exact hexcused

theorem Fault.Delivers.mono {γ : Type} {room : Nat} {deep : Prop} {promise weaker : γ → Prop} {found : Except Fault γ}
    (hdelivers : Delivers room deep promise found) (hweaker : ∀ answer, promise answer → weaker answer) :
    Delivers room deep weaker found := by
  cases found with
  | error fault => exact hdelivers
  | ok answer => exact hweaker answer hdelivers

/-- A run of a nonterminal that keeps its promise and accounts for its steps. -/
def Nonterminal.Keeps (room bound : Nat) (nonterminal : Nonterminal) (state : State) : Prop :=
  Fault.Delivers room (bound ≤ nonterminal.weight state.standing)
    (fun after => nonterminal.Exits state.standing after.standing ∧ state.Accounts after) (nonterminal.run bound state)

theorem Step.excused_of_run {α : Type} {step : Step α} {state : State} {fault : Fault} {room : Nat} {deep : Prop}
    (hfits : step.Fits room state.standing) (hrun : step.run state = .error fault) : fault.Excused room deep := by
  cases step <;> simp only [Step.run, bind, Except.bind, pure, Except.pure, reduceCtorEq] at hrun
  case current | adjacent =>
    split at hrun
    · next hlook =>
      obtain rfl := Except.error.inj hrun
      obtain ⟨rfl, hspent⟩ := State.spendLook_error hlook
      exact Nat.lt_of_le_of_lt hspent hfits
    · simp at hrun
  case advance =>
    split at hrun
    · next hadvance =>
      obtain rfl := Except.error.inj hrun
      rw [State.advance] at hadvance
      split at hadvance
      · exact Except.error.inj hadvance ▸ trivial
      · simp at hadvance
    · simp at hrun

theorem Rule.Leads.exec {α : Type} {room weight bound : Nat}
    (hcalls : ∀ (nonterminal : Nonterminal) (state : State),
      nonterminal.Called room state.standing → nonterminal.Keeps room bound state)
    {rule : Rule α} {state : State} {result : α → Standing → Prop}
    (hleads : rule.Leads room weight state.standing result) :
    Fault.Delivers room (bound < weight) (fun found => result found.1 found.2.standing ∧ state.Accounts found.2)
      (Rule.exec (Nonterminal.run bound) rule state) := by
  induction rule generalizing state with
  | done answer => exact ⟨hleads, .refl state⟩
  | step s rest ih =>
    simp only [Rule.exec]
    split
    · next fault hrun => exact s.excused_of_run hleads.1 hrun
    · next answer after hrun =>
      have hrest := ih answer (hleads.2 answer after.standing (s.stands_of_run hleads.1 hrun))
      exact hrest.mono fun _ hfound => ⟨hfound.1, (s.accounts_of_run hleads.1 hrun).trans hfound.2⟩
  | wrap kind start inner rest ihinner ih =>
    simp only [Rule.exec]
    -- what has been placed is no part of where a run stands
    have hinner := @ihinner { state with placed := state.placed.take (state.placed.length - start) } _ hleads
    split
    · next fault hrun => rwa [hrun] at hinner
    · next after hrun =>
      rw [hrun] at hinner
      have hrest := @ih { after with
        placed := .node kind after.placed.reverse :: state.placed.drop (state.placed.length - start) } _ hinner.1
      exact hrest.mono fun _ hfound => ⟨hfound.1, State.Accounts.trans hinner.2 hfound.2⟩
  | call nonterminal rest ih =>
    simp only [Rule.exec]
    have hcall := hcalls nonterminal state hleads.1.1
    rw [Nonterminal.Keeps] at hcall
    split
    · next fault hrun =>
      rw [hrun] at hcall
      exact Fault.Excused.mono hcall fun hdeep => Nat.lt_of_le_of_lt hdeep hleads.1.2
    · next after hrun =>
      rw [hrun] at hcall
      exact (ih (hleads.2 after.standing hcall.1)).mono fun _ hfound => ⟨hfound.1, hcall.2.trans hfound.2⟩

/-- If the rule of every nonterminal leads to what that promises, every run keeps the promise. -/
theorem Nonterminal.keeps_of_leads {room : Nat}
    (hleads : ∀ (nonterminal : Nonterminal) (standing : Standing), nonterminal.Called room standing →
      (Grammar.ruleOf nonterminal).Leads room (nonterminal.weight standing) standing fun _ after =>
        nonterminal.Exits standing after)
    (bound : Nat) {nonterminal : Nonterminal} {state : State} (hcalled : nonterminal.Called room state.standing) :
    nonterminal.Keeps room bound state := by
  induction bound generalizing nonterminal state with
  | zero => exact Nat.zero_le _
  | succ bound ih =>
    have hexec := (hleads nonterminal state.standing hcalled).exec fun _ _ => ih
    rw [Nonterminal.Keeps, Nonterminal.run]
    split
    · next fault hrun =>
      rw [hrun] at hexec
      exact Fault.Excused.mono hexec fun hdeep => hdeep
    · next after hrun =>
      rw [hrun] at hexec
      exact hexec

end Squirrel
