import Squirrel.Proofs.Grammar.Flat

/-!
# Balanced rules

What a rule has opened and not closed, followed without running it: the delimiters it waits for, the levels of nesting it
has gone down, and how many trees are sure to stand in the open node, which tells whether a mark still does. A rule that is
balanced closes only what it has opened itself, and building it on a stack of open nodes bears the account out.
-/

namespace Squirrel

/-- What has been opened and is still to be closed. -/
structure Debt where
  /-- The openers that have been pushed and not popped. -/
  pushed : Nat
  /-- The levels of nesting that have been gone down and not come up again. -/
  descended : Nat

namespace Debt

def none : Debt := ⟨0, 0⟩

def opener : Debt := ⟨1, 0⟩

def level : Debt := ⟨0, 1⟩

instance : Add Debt where
  add debt more := ⟨debt.pushed + more.pushed, debt.descended + more.descended⟩

end Debt

/-- The account of a rule: its debt, and how many trees at least have been placed in the open node. -/
structure Balance extends Debt where
  sure : Nat

/-- From the entry of a rule up to a state, the account is right: the openers that waited at the entry still do, behind
those of the rule itself. -/
structure Balance.Holds (balance : Balance) (entry state : State) : Prop where
  openers : ∃ own : List Opener, own.length = balance.pushed ∧ state.openers = own ++ entry.openers
  depth : state.depth = entry.depth + balance.descended
  sure : balance.sure ≤ state.placed.length

namespace Step

variable {α : Type} (balance : Balance)

/-- Only what the rule has opened itself is closed. -/
def Covered : Step α → Prop
  | popOpener => 0 < balance.pushed
  | ascend => 0 < balance.descended
  | _ => True

/-- A mark is behind all the trees that are sure to stand. -/
def Possible : Step α → α → Prop
  | mark, count => balance.sure ≤ count
  | _, _ => True

/-- The account after a step. -/
def settle : Step α → α → Balance
  | pushOpener _, _ => { balance with pushed := balance.pushed + 1 }
  | popOpener, _ => { balance with pushed := balance.pushed - 1 }
  | descend, true => { balance with descended := balance.descended + 1 }
  | ascend, _ => { balance with descended := balance.descended - 1 }
  | mark, count => { balance with sure := count }
  | _, _ => balance

end Step

/-! ### Steps -/

namespace Balance

variable {balance : Balance} {entry state after : State}

theorem holds_entry {sure : Nat} (hsure : sure ≤ entry.placed.length) : Holds ⟨.none, sure⟩ entry entry where
  openers := ⟨[], rfl, rfl⟩
  depth := rfl
  sure := hsure

/-- Where nothing is opened and closed, more may be placed. -/
theorem Holds.later (hholds : balance.Holds entry state) (hopeners : after.openers = state.openers)
    (hdepth : after.depth = state.depth) (hplaced : state.placed.length ≤ after.placed.length) :
    balance.Holds entry after where
  openers := hopeners ▸ hholds.openers
  depth := hdepth ▸ hholds.depth
  sure := Nat.le_trans hholds.sure hplaced

theorem Holds.placePending (hholds : balance.Holds entry state) : balance.Holds entry state.placePending :=
  hholds.later rfl rfl (by simp [State.placePending])

theorem Holds.spendLook (hholds : balance.Holds entry state) (hlook : state.spendLook = .ok after) :
    balance.Holds entry after := by
  rw [State.spendLook] at hlook
  split at hlook
  · cases hlook
  · obtain rfl := Except.ok.inj hlook
    exact hholds.later rfl rfl (Nat.le_refl _)

theorem Holds.spendStep (hholds : balance.Holds entry state) : balance.Holds entry state.spendStep := by
  rw [State.spendStep]
  split <;> exact hholds.later rfl rfl (Nat.le_refl _)

theorem Holds.advance (hholds : balance.Holds entry state) (hadvance : state.advance = .ok after) :
    balance.Holds entry after := by
  rw [State.advance] at hadvance
  split at hadvance
  · cases hadvance
  · obtain rfl := Except.ok.inj hadvance
    exact hholds.spendStep.placePending.later rfl rfl (Nat.le_succ _)

theorem Holds.reportOnce (hholds : balance.Holds entry state) (offset : Nat) (diagnostic : Diagnostic) :
    balance.Holds entry (state.reportOnce offset diagnostic) := by
  rw [State.reportOnce]
  split <;> exact hholds.later rfl rfl (Nat.le_refl _)

theorem Holds.pushOpener (hholds : balance.Holds entry state) (opener : Opener) :
    Holds { balance with pushed := balance.pushed + 1 } entry { state with openers := opener :: state.openers } where
  openers :=
    let ⟨own, hlength, hopeners⟩ := hholds.openers
    ⟨opener :: own, congrArg (· + 1) hlength, congrArg (opener :: ·) hopeners⟩
  depth := hholds.depth
  sure := hholds.sure

theorem Holds.popOpener (hholds : balance.Holds entry state) (hpushed : 0 < balance.pushed) :
    Holds { balance with pushed := balance.pushed - 1 } entry { state with openers := state.openers.tail } where
  openers := by
    obtain ⟨own, hlength, hopeners⟩ := hholds.openers
    have hsome : own ≠ [] := List.length_pos_iff.mp (hlength ▸ hpushed)
    exact ⟨own.tail, by rw [List.length_tail, hlength], by rw [hopeners, List.tail_append_of_ne_nil hsome]⟩
  depth := hholds.depth
  sure := hholds.sure

theorem Holds.ascend (hholds : balance.Holds entry state) (hdescended : 0 < balance.descended) :
    Holds { balance with descended := balance.descended - 1 } entry state.ascend where
  openers := hholds.openers
  depth := by
    have hdepth := hholds.depth
    show state.depth - 1 = entry.depth + (balance.descended - 1)
    omega
  sure := hholds.sure

theorem Holds.descend (hholds : balance.Holds entry state) :
    ((Step.descend).settle balance state.descend.1).Holds entry state.descend.2 := by
  rw [State.descend]
  split
  · exact hholds.later rfl rfl (Nat.le_refl _)
  · exact ⟨hholds.openers, congrArg (· + 1) hholds.depth, hholds.sure⟩

end Balance

/-- A step that is covered keeps the account right. -/
theorem Step.settles {α : Type} {s : Step α} {balance : Balance} {entry state after : State} {answer : α}
    (hcovered : s.Covered balance) (hholds : balance.Holds entry state) (hrun : s.run state = .ok (answer, after)) :
    s.Possible balance answer ∧ (s.settle balance answer).Holds entry after := by
  have hpassed : balance.Holds entry state.passTrivia := hholds.later rfl rfl (Nat.le_refl _)
  cases s <;> simp only [run, bind, Except.bind, pure, Except.pure, Except.ok.injEq, Prod.mk.injEq] at hrun
  case current | adjacent =>
    split at hrun
    · cases hrun
    · next looked hlook =>
      obtain ⟨rfl, rfl⟩ := Prod.mk.inj (Except.ok.inj hrun)
      exact ⟨trivial, hpassed.spendLook hlook⟩
  case next | currentSpan | afterLineBreak | numberFollows =>
    obtain ⟨rfl, rfl⟩ := hrun
    exact ⟨trivial, hpassed⟩
  case previous | atEnd | stopped =>
    obtain ⟨rfl, rfl⟩ := hrun
    exact ⟨trivial, hholds⟩
  case advance =>
    split at hrun
    · cases hrun
    · next moved hadvance =>
      obtain ⟨rfl, rfl⟩ := Prod.mk.inj (Except.ok.inj hrun)
      exact ⟨trivial, hholds.advance hadvance⟩
  case mark =>
    obtain ⟨rfl, rfl⟩ := hrun
    exact ⟨hholds.placePending.sure, hholds.openers, hholds.depth, Nat.le_refl _⟩
  case placeTrivia =>
    obtain ⟨-, rfl⟩ := hrun
    exact ⟨trivial, hpassed.placePending⟩
  case pushOpener opener =>
    obtain ⟨-, rfl⟩ := hrun
    exact ⟨trivial, hholds.pushOpener opener⟩
  case popOpener =>
    obtain ⟨-, rfl⟩ := hrun
    exact ⟨trivial, hholds.popOpener hcovered⟩
  case report diagnostic =>
    obtain ⟨-, rfl⟩ := hrun
    exact ⟨trivial, hholds.later rfl rfl (Nat.le_refl _)⟩
  case reportOnce offset diagnostic =>
    obtain ⟨-, rfl⟩ := hrun
    exact ⟨trivial, hholds.reportOnce offset diagnostic⟩
  case descend =>
    obtain ⟨rfl, rfl⟩ := Prod.mk.inj hrun.symm
    exact ⟨trivial, hholds.descend⟩
  case ascend =>
    obtain ⟨-, rfl⟩ := hrun
    exact ⟨trivial, hholds.ascend hcovered⟩

/-! ### Rules -/

namespace Nonterminal

/-- The mark that a nonterminal goes back to: the operators take in what has been placed since the start of the
expression. -/
abbrev mark? : Nonterminal → Option Nat
  | operators start _ => some start
  | _ => none

/-- The mark of a nonterminal is not behind what has been placed. -/
def Stands (nonterminal : Nonterminal) (placed : Nat) : Prop := ∀ start ∈ nonterminal.mark?, start ≤ placed

/-- So many of the trees placed before stand after a call, taken in or not. -/
def sureAfter (nonterminal : Nonterminal) (placed : Nat) : Nat := nonterminal.mark?.elim placed (min placed)

theorem Stands.mono {nonterminal : Nonterminal} {placed more : Nat} (hstands : nonterminal.Stands placed)
    (hle : placed ≤ more) : nonterminal.Stands more := fun start hstart => Nat.le_trans (hstands start hstart) hle

theorem sureAfter_mono (nonterminal : Nonterminal) {placed more : Nat} (hle : placed ≤ more) :
    nonterminal.sureAfter placed ≤ nonterminal.sureAfter more := by
  unfold sureAfter
  cases nonterminal.mark? with
  | none => exact hle
  | some start =>
    show min placed start ≤ min more start
    omega

end Nonterminal

namespace Rule

variable {α β : Type} {strict : Prop}

/-- A rule that closes only what it has opened, whatever its steps answer, and ends with an answer and an account as asked
for. A strict one also goes back only to marks that stand. -/
def Balanced (strict : Prop) {α : Type} : Rule α → Balance → (α → Balance → Prop) → Prop
  | done answer, balance, ended => ended answer balance
  | step s rest, balance, ended => s.Covered balance ∧
      ∀ answer, s.Possible balance answer → (rest answer).Balanced strict (s.settle balance answer) ended
  | wrap _ start inner rest, balance, ended => (strict → start ≤ balance.sure) ∧
      inner.Balanced strict { balance with sure := 0 } fun _ after =>
        rest.Balanced strict { after with sure := start + 1 } ended
  | call nonterminal rest, balance, ended => (strict → nonterminal.Stands balance.sure) ∧
      rest.Balanced strict { balance with sure := nonterminal.sureAfter balance.sure } ended

theorem Balanced.mono {rule : Rule α} {balance : Balance} {ended weaker : α → Balance → Prop}
    (hbalanced : rule.Balanced strict balance ended)
    (hweaker : ∀ answer after, ended answer after → weaker answer after) : rule.Balanced strict balance weaker := by
  induction rule generalizing balance with
  | done answer => exact hweaker answer balance hbalanced
  | step s rest ih =>
    exact ⟨hbalanced.1, fun answer hpossible => ih answer (hbalanced.2 answer hpossible) hweaker⟩
  | wrap kind start inner rest ihinner ih =>
    exact ⟨hbalanced.1, ihinner hbalanced.2 fun _ _ hrest => ih hrest hweaker⟩
  | call nonterminal rest ih => exact ⟨hbalanced.1, ih hbalanced.2 hweaker⟩

theorem Balanced.bind {rule : Rule α} {next : α → Rule β} {balance : Balance} {ended : β → Balance → Prop}
    (hbalanced : rule.Balanced strict balance fun answer after => (next answer).Balanced strict after ended) :
    (rule >>= next).Balanced strict balance ended := by
  rw [bind_eq]
  induction rule generalizing balance with
  | done answer => exact hbalanced
  | step s rest ih => exact ⟨hbalanced.1, fun answer hpossible => ih answer (hbalanced.2 answer hpossible)⟩
  | wrap kind start inner rest ihinner ih =>
    exact ⟨hbalanced.1, hbalanced.2.mono fun _ _ hrest => ih hrest⟩
  | call nonterminal rest ih => exact ⟨hbalanced.1, ih hbalanced.2⟩

/-- A rule that takes over a debt and leaves another one, besides whatever else is owed. -/
def Trades (strict : Prop) (taken : Debt) (left : α → Debt) (rule : Rule α) : Prop :=
  ∀ (rest : Debt) (sure : Nat), rule.Balanced strict ⟨rest + taken, sure⟩ fun answer after =>
    after.toDebt = rest + left answer ∧ sure ≤ after.sure

theorem Trades.bind {taken : Debt} {between : α → Debt} {left : β → Debt} {rule : Rule α} {next : α → Rule β}
    (hrule : rule.Trades strict taken between) (hnext : ∀ answer, (next answer).Trades strict (between answer) left) :
    (rule >>= next).Trades strict taken left := by
  refine fun rest sure => Balanced.bind ((hrule rest sure).mono fun answer ⟨debt, more⟩ ⟨hdebt, hsure⟩ => ?_)
  obtain rfl : debt = rest + between answer := hdebt
  exact (hnext answer rest more).mono fun _ _ hlast => ⟨hlast.1, Nat.le_trans hsure hlast.2⟩

/-- A rule that leaves no debt behind. -/
def Steady (strict : Prop) (rule : Rule α) : Prop := rule.Trades strict .none fun _ => .none

/-- A steady rule does not touch what is owed. -/
theorem Steady.trades {rule : Rule α} (hsteady : rule.Steady strict) (debt : Debt) :
    rule.Trades strict debt fun _ => debt := fun rest => hsteady (rest + debt)

theorem Steady.andThen {rule : Rule α} {next : α → Rule β} {debt : Debt} {sure : Nat} {ended : β → Balance → Prop}
    (hsteady : rule.Steady strict)
    (hnext : ∀ answer more, sure ≤ more → (next answer).Balanced strict ⟨debt, more⟩ ended) :
    (rule >>= next).Balanced strict ⟨debt, sure⟩ ended := by
  refine Balanced.bind ((hsteady debt sure).mono fun answer ⟨after, more⟩ ⟨hdebt, hsure⟩ => ?_)
  obtain rfl : after = debt := hdebt
  exact hnext answer more hsure

theorem trades_pure {taken : Debt} {left : α → Debt} {answer : α} (htaken : taken = left answer) :
    (pure answer : Rule α).Trades strict taken left :=
  fun rest _ => ⟨congrArg (rest + ·) htaken, Nat.le_refl _⟩

theorem trades_ifThen {condition : Prop} [Decidable condition] {first : Rule α} {rest : Rule β} {taken : Debt}
    {left : β → Debt} (hfirst : first.Steady strict) (hrest : rest.Trades strict taken left) :
    (if condition then first >>= fun _ => rest else rest).Trades strict taken left := by
  split
  · exact (hfirst.trades taken).bind fun _ => hrest
  · exact hrest

@[grind .] theorem steady_pure (answer : α) : (pure answer : Rule α).Steady strict := trades_pure rfl

@[grind ←] theorem steady_bind {rule : Rule α} {next : α → Rule β} (hrule : rule.Steady strict)
    (hnext : ∀ answer, (next answer).Steady strict) : (rule >>= next).Steady strict := Trades.bind hrule hnext

/-- A part that is done under a condition only. -/
theorem steady_ifThen {condition : Prop} [Decidable condition] {first : Rule α} {rest : Rule β}
    (hfirst : first.Steady strict) (hrest : rest.Steady strict) :
    (if condition then first >>= fun _ => rest else rest).Steady strict := trades_ifThen hfirst hrest

@[grind ←] theorem steady_map {f : α → β} {rule : Rule α} (hrule : rule.Steady strict) : (f <$> rule).Steady strict :=
  steady_bind hrule fun _ => steady_pure _

@[grind ←] theorem steady_orM {left right : Rule Bool} (hleft : left.Steady strict) (hright : right.Steady strict) :
    (left <||> right).Steady strict :=
  steady_bind hleft fun answer => by
    cases answer
    · exact hright
    · exact steady_pure true

@[grind ←] theorem steady_andM {left right : Rule Bool} (hleft : left.Steady strict) (hright : right.Steady strict) :
    (left <&&> right).Steady strict :=
  steady_bind hleft fun answer => by
    cases answer
    · exact steady_pure false
    · exact hright

end Rule

/-! ### Runs -/

/-- What is built for a nonterminal leaves the openers and the nesting as they were. A mark is refused only where the
nonterminal goes back to one that does not stand. -/
def Nonterminal.Restores (nonterminal : Nonterminal) (state : State) : Except BuildError (Unit × Site) → Prop
  | .ok (_, after) => after.state.openers = state.openers ∧ after.state.depth = state.depth ∧
      nonterminal.sureAfter state.placed.length ≤ after.state.placed.length
  | .error error => nonterminal.Stands state.placed.length → error ≠ .staleMark

namespace Balance

variable {balance : Balance} {entry : State} {site : Site}

theorem Holds.opened (hholds : balance.Holds entry site.state) (kind : Kind) (start : Nat) :
    Holds { balance with sure := 0 } entry (site.opened kind start).state where
  openers := hholds.openers
  depth := hholds.depth
  sure := Nat.zero_le _

/-- A closed node stands behind the trees before its mark. -/
theorem Holds.closed {inside : State} {start : Nat} {tree : Tree} (hholds : balance.Holds entry inside)
    (hstart : start ≤ site.state.placed.length) :
    Holds { balance with sure := start + 1 } entry
      { inside with placed := tree :: site.state.placed.drop (site.state.placed.length - start) } where
  openers := hholds.openers
  depth := hholds.depth
  sure := by
    show start + 1 ≤ (site.state.placed.drop _).length + 1
    rw [List.length_drop]
    omega

theorem Holds.called {nonterminal : Nonterminal} {found : Unit × Site} (hholds : balance.Holds entry site.state)
    (hcall : nonterminal.Restores site.state (.ok found)) :
    Holds { balance with sure := nonterminal.sureAfter balance.sure } entry found.2.state where
  openers := hcall.1 ▸ hholds.openers
  depth := hcall.2.1 ▸ hholds.depth
  sure := Nat.le_trans (nonterminal.sureAfter_mono hholds.sure) hcall.2.2

end Balance

/-- What is built for a balanced rule bears its account out. -/
def Balance.Delivers {α : Type} (strict : Prop) (entry : State) (ended : α → Balance → Prop) :
    Except BuildError (α × Site) → Prop
  | .ok (answer, after) => ∃ last, ended answer last ∧ last.Holds entry after.state
  | .error error => strict → error ≠ .staleMark

namespace Rule

variable {α : Type} {strict : Prop}

theorem Balanced.build_flat {bound : Nat}
    (hcalls : ∀ (nonterminal : Nonterminal) (site : Site), nonterminal.Restores site.state (nonterminal.build bound site))
    {rule : Rule α} {balance : Balance} {ended : α → Balance → Prop} {entry : State} {site : Site}
    (hbalanced : rule.Balanced strict balance ended) (hholds : balance.Holds entry site.state) :
    Balance.Delivers strict entry ended (rule.flat.build (Nonterminal.build bound) site) := by
  induction rule generalizing balance site with
  | done answer => exact ⟨balance, hbalanced, hholds⟩
  | step s rest ih =>
    rw [flat, Routine.build]
    cases hrun : s.run site.state with
    | error fault => exact fun _ => BuildError.noConfusion
    | ok found =>
      obtain ⟨hpossible, hafter⟩ := s.settles hbalanced.1 hholds hrun
      exact @ih found.1 _ _ ⟨found.2, site.nodes⟩ (hbalanced.2 found.1 hpossible) hafter
  | wrap kind start inner rest ihinner ih =>
    rw [build_flat_wrap]
    cases hopen : site.openAt kind start with
    | error error =>
      obtain ⟨hbehind, rfl⟩ := Site.openAt_error hopen
      exact fun hstrict => absurd (hbalanced.1 hstrict) (Nat.not_le_of_lt (Nat.lt_of_le_of_lt hholds.sure hbehind))
    | ok opened =>
      obtain ⟨hstart, rfl⟩ := Site.openAt_ok hopen
      -- the inner rule runs on a stack with one node more, and gives it back to be closed here
      have hinner := ihinner hbalanced.2 (hholds.opened kind start)
      have hnodes := builtAs_flat (Nonterminal.builtAs_build bound) inner (site.opened kind start)
      show Balance.Delivers strict entry ended (inner.flat.build (Nonterminal.build bound) (site.opened kind start) >>= _)
      cases hbuilt : inner.flat.build (Nonterminal.build bound) (site.opened kind start) with
      | error error =>
        rw [hbuilt] at hinner
        exact hinner
      | ok found =>
        rw [hbuilt] at hinner hnodes
        obtain ⟨last, hrest, hlast⟩ := hinner
        show Balance.Delivers strict entry ended (found.2.close >>= _)
        rw [Site.close_of_nodes hnodes.2]
        exact ih hrest (hlast.closed hstart)
  | call nonterminal rest ih =>
    have hcall := hcalls nonterminal site
    rw [flat, Routine.build]
    cases hbuilt : nonterminal.build bound site with
    | error error =>
      rw [hbuilt] at hcall
      exact fun hstrict => hcall ((hbalanced.1 hstrict).mono hholds.sure)
    | ok found =>
      rw [hbuilt] at hcall
      exact ih hbalanced.2 (hholds.called hcall)

end Rule

/-- The account that the rule of a nonterminal starts with, and the one it has to end with. -/
def Nonterminal.IsBalanced (nonterminal : Nonterminal) : Prop :=
  ∀ (strict : Prop) (sure : Nat), (strict → nonterminal.Stands sure) →
    (Grammar.ruleOf nonterminal).Balanced strict ⟨.none, sure⟩ fun _ after =>
      after.toDebt = .none ∧ nonterminal.sureAfter sure ≤ after.sure

/-- Without a debt all is as it was. -/
theorem Balance.Holds.restored {balance : Balance} {entry state : State} (hholds : balance.Holds entry state)
    (hnone : balance.toDebt = .none) : state.openers = entry.openers ∧ state.depth = entry.depth := by
  obtain ⟨own, hlength, hopeners⟩ := hholds.openers
  have hdepth := hholds.depth
  rw [hnone] at hlength hdepth
  obtain rfl := List.eq_nil_of_length_eq_zero hlength
  exact ⟨hopeners, hdepth⟩

theorem Nonterminal.restores_build (hbalanced : ∀ nonterminal : Nonterminal, nonterminal.IsBalanced) (bound : Nat)
    (nonterminal : Nonterminal) (site : Site) : nonterminal.Restores site.state (nonterminal.build bound site) := by
  induction bound generalizing nonterminal site with
  | zero => exact fun _ => BuildError.noConfusion
  | succ bound ih =>
    have hrule := hbalanced nonterminal (nonterminal.Stands site.state.placed.length) site.state.placed.length id
    have hbuilt := hrule.build_flat ih (Balance.holds_entry (Nat.le_refl _))
    rw [build_succ]
    cases hresult : (Grammar.ruleOf nonterminal).flat.build (build bound) site with
    | error error =>
      rw [hresult] at hbuilt
      exact hbuilt
    | ok found =>
      rw [hresult] at hbuilt
      obtain ⟨last, ⟨hnone, hsure⟩, hlast⟩ := hbuilt
      obtain ⟨hopeners, hdepth⟩ := hlast.restored hnone
      exact ⟨hopeners, hdepth, Nat.le_trans hsure hlast.sure⟩

end Squirrel
