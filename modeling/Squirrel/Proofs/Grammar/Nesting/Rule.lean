import Squirrel.Proofs.Grammar.Primitive

/-!
# How deep a rule nests

The limit on nesting counts statements and expressions only. What stands in brackets is nested as well, so it has to be
seen how much of it a rule can place between two counted levels. A rule is followed from state to state: no tree that it
places nests deeper than the levels that are left allow, and a fixed number of brackets of its own.
-/

namespace Squirrel

/-- Nodes for something in brackets. -/
def Kind.isBracketed : Kind → Bool
  | block | table | array | parameters | callArgs | parenthesizedExpression => true
  | _ => false

namespace Tree

/-- The kinds of the nodes on a way down through a tree, from its root on. -/
inductive Descent : Tree → List Kind → Prop where
  | here {kind : Kind} {children : List Tree} : Descent (node kind children) [kind]
  | down {kind : Kind} {children : List Tree} {child : Tree} {kinds : List Kind} (hmem : child ∈ children)
      (hdescent : Descent child kinds) : Descent (node kind children) (kind :: kinds)

/-- Whether the kinds are those of the nodes on a way down. -/
def descends (kinds : List Kind) (tree : Tree) : Bool :=
  match kinds, tree with
  | [], _ | _, token _ => false
  | [kind], node found _ => kind == found
  | kind :: next :: rest, node found children => kind == found && children.any (descends (next :: rest))

theorem descent_of_descends {kinds : List Kind} {tree : Tree} (hdescends : tree.descends kinds = true) :
    tree.Descent kinds := by
  induction kinds generalizing tree with
  | nil => simp [descends] at hdescends
  | cons kind rest ih =>
    cases tree with
    | token => simp [descends] at hdescends
    | node found children =>
      cases rest with
      | nil =>
        obtain rfl := beq_iff_eq.mp hdescends
        exact .here
      | cons next rest =>
        obtain ⟨hkind, hany⟩ := Bool.and_eq_true_iff.mp hdescends
        obtain rfl := beq_iff_eq.mp hkind
        obtain ⟨child, hmem, hchild⟩ := List.any_eq_true.mp hany
        exact .down hmem (ih hchild)

end Tree

namespace Descent

/-- How many nodes on a way down stand for something in brackets. -/
def brackets (kinds : List Kind) : Nat := kinds.countP Kind.isBracketed

/-- How many tables on a way down are the default of a parameter, right under a node of the given kind or further on. -/
def defaultTables (outer : Kind) : List Kind → Nat
  | [] => 0
  | kind :: rest => (if outer = .parameter ∧ kind = .table then 1 else 0) + defaultTables kind rest

@[simp] theorem brackets_cons (kind : Kind) (rest : List Kind) :
    brackets (kind :: rest) = (if kind.isBracketed then 1 else 0) + brackets rest := by
  rw [brackets, List.countP_cons, Nat.add_comm]
  rfl

@[simp] theorem brackets_nil : brackets [] = 0 := rfl

theorem defaultTables_script_le (outer : Kind) (kinds : List Kind) :
    defaultTables .script kinds ≤ defaultTables outer kinds := by
  cases kinds with
  | nil => exact Nat.le_refl 0
  | cons kind rest => simp [defaultTables]

end Descent

open Descent

/-! ### Bounds on trees -/

namespace Tree

/-- On every way down a tree the nodes in brackets are at most so many, and two more for each table that is the default of
a parameter. -/
def NestsWithin (tree : Tree) (outer : Kind) (bound : Nat) : Prop :=
  ∀ kinds, tree.Descent kinds → brackets kinds ≤ bound + 2 * defaultTables outer kinds

variable {tree : Tree} {outer kind : Kind} {bound more : Nat} {children : List Tree}

theorem nestsWithin_token (leaf : Leaf) : (token leaf).NestsWithin outer bound := by
  intro kinds hdescent
  cases hdescent

theorem NestsWithin.mono (htree : tree.NestsWithin outer bound) (hmore : bound ≤ more) :
    tree.NestsWithin outer more := by
  intro kinds hdescent
  have hle := htree kinds hdescent
  omega

theorem NestsWithin.under (htree : tree.NestsWithin .script bound) (outer : Kind) : tree.NestsWithin outer bound := by
  intro kinds hdescent
  have hle := htree kinds hdescent
  have hdefaults := defaultTables_script_le outer kinds
  omega

theorem nestsWithin_node (hchildren : ∀ child ∈ children, child.NestsWithin kind bound) :
    (node kind children).NestsWithin outer (bound + if kind.isBracketed then 1 else 0) := by
  intro kinds hdescent
  cases hdescent with
  | here =>
    rw [brackets_cons, brackets_nil]
    omega
  | @down _ _ child rest hmem hrest =>
    have hle := hchildren child hmem rest hrest
    rw [brackets_cons, defaultTables]
    omega

/-- The two nodes that a default table may add are allowed for. -/
theorem nestsWithin_defaultTable (hchildren : ∀ child ∈ children, child.NestsWithin .table (bound + 1)) :
    (node .table children).NestsWithin .parameter bound := by
  intro kinds hdescent
  cases hdescent with
  | here => simp [defaultTables, Kind.isBracketed]
  | @down _ _ child rest hmem hrest =>
    have hle := hchildren child hmem rest hrest
    simp only [brackets_cons, defaultTables, Kind.isBracketed]
    simp
    omega

end Tree

/-! ### Bounds on states -/

/-- All trees placed in the innermost open node nest within a bound. -/
def State.NestsWithin (state : State) (outer : Kind) (bound : Nat) : Prop :=
  ∀ tree ∈ state.placed, tree.NestsWithin outer bound

/-- The brackets that the levels which are left may hold. -/
def State.room (state : State) (limit : Nat) : Nat := 3 * (limit - state.depth)

/-- Between two states the level of nesting falls by `lift`, and what has been placed has at most so many brackets of its
own. -/
def State.NestsTo (lift : Nat) (outer : Kind) (own : Nat) (state after : State) : Prop :=
  ∀ limit, state.depthLimit? = some limit → state.depth ≤ limit →
    after.depthLimit? = some limit ∧ after.depth = state.depth - lift ∧
      ∀ bound, state.room limit + own ≤ bound → state.NestsWithin .script bound → after.NestsWithin outer bound

/-- A rule that keeps to the brackets of its own in every run. -/
def Rule.NestsTo (runCall : Nonterminal → State → Except Fault State) (lift : Nat) (outer : Kind) (own : Nat) {α : Type}
    (rule : Rule α) : Prop :=
  ∀ state answer after, rule.exec runCall state = .ok (answer, after) → state.NestsTo lift outer own after

abbrev Rule.Nests (runCall : Nonterminal → State → Except Fault State) (own : Nat) {α : Type} (rule : Rule α) : Prop :=
  rule.NestsTo runCall 0 .script own

namespace State.NestsTo

variable {state between after : State} {lift own more : Nat} {outer : Kind}

theorem refl (state : State) : state.NestsTo 0 .script own state :=
  fun _ hlimit _ => ⟨hlimit, rfl, fun _ _ hplaced => hplaced⟩

theorem trans (hfirst : state.NestsTo 0 .script own between) (hsecond : between.NestsTo lift outer own after) :
    state.NestsTo lift outer own after := by
  intro limit hlimit hdepth
  obtain ⟨hlimit, hsame, hplaced⟩ := hfirst limit hlimit hdepth
  rw [Nat.sub_zero] at hsame
  obtain ⟨hlimit, hlift, hplaced'⟩ := hsecond limit hlimit (hsame ▸ hdepth)
  refine ⟨hlimit, hsame ▸ hlift, fun bound hbound hstate => ?_⟩
  refine hplaced' bound ?_ (hplaced bound hbound hstate)
  rwa [room, hsame]

theorem mono (hnests : state.NestsTo lift outer own after) (hmore : own ≤ more) : state.NestsTo lift outer more after := by
  intro limit hlimit hdepth
  obtain ⟨hlimit, hlift, hplaced⟩ := hnests limit hlimit hdepth
  exact ⟨hlimit, hlift, fun bound hbound => hplaced bound (by omega)⟩

theorem under (hnests : state.NestsTo lift .script own after) (outer : Kind) : state.NestsTo lift outer own after := by
  intro limit hlimit hdepth
  obtain ⟨hlimit, hlift, hplaced⟩ := hnests limit hlimit hdepth
  exact ⟨hlimit, hlift, fun bound hbound hstate tree hmem => (hplaced bound hbound hstate tree hmem).under outer⟩

end State.NestsTo

/-! ### Steps -/

theorem State.nestsWithin_placePending {state : State} {bound : Nat} (hstate : state.NestsWithin .script bound) :
    state.placePending.NestsWithin .script bound := by
  intro tree hmem
  obtain hmem | hmem := List.mem_append.mp hmem
  · obtain ⟨token, -, rfl⟩ := List.mem_map.mp hmem
    exact Tree.nestsWithin_token _
  · exact hstate tree hmem

/-- Between the states only tokens have been placed. -/
theorem State.NestsTo.of_tokens {state after : State} (hdepth : after.depth = state.depth)
    (hlimit : after.depthLimit? = state.depthLimit?) (tokens : List Token)
    (hplaced : after.placed = tokens.map State.leafOf ++ state.placed) : state.NestsTo 0 .script 0 after := by
  intro limit hsome _
  refine ⟨hlimit.trans hsome, hdepth, fun bound _ hstate tree hmem => ?_⟩
  rw [hplaced] at hmem
  obtain hmem | hmem := List.mem_append.mp hmem
  · obtain ⟨token, -, rfl⟩ := List.mem_map.mp hmem
    exact Tree.nestsWithin_token _
  · exact hstate tree hmem

/-- The steps that change the level of nesting. -/
def Step.isLevel {α : Type} : Step α → Bool
  | descend | ascend => true
  | _ => false

theorem Step.nestsTo_run {α : Type} (step : Step α) {state after : State} {answer : α}
    (hrun : step.run state = .ok (answer, after)) (hlevel : step.isLevel = false) : state.NestsTo 0 .script 0 after := by
  cases step <;> simp only [run, bind, Except.bind, pure, Except.pure, Except.ok.injEq, Prod.mk.injEq] at hrun
  case current | adjacent =>
    split at hrun
    · simp at hrun
    · next looked hlook =>
      simp only [Except.ok.injEq, Prod.mk.injEq] at hrun
      rw [← hrun.2, State.eq_of_spendLook hlook]
      exact .of_tokens rfl rfl [] rfl
  case next | currentSpan | afterLineBreak | numberFollows | previous | atEnd | stopped | pushOpener | popOpener
    | report => exact hrun.2 ▸ .of_tokens rfl rfl [] rfl
  case mark | placeTrivia => exact hrun.2 ▸ .of_tokens rfl rfl _ rfl
  case reportOnce offset diagnostic =>
    rw [← hrun.2, State.reportOnce]
    split
    · exact .refl state
    · exact .of_tokens rfl rfl [] rfl
  case advance =>
    split at hrun
    · simp at hrun
    · next advanced hadvance =>
      simp only [Except.ok.injEq, Prod.mk.injEq] at hrun
      rw [State.advance] at hadvance
      split at hadvance
      · simp at hadvance
      · next token rest _ =>
        obtain ⟨left?, exceeded?, hspend, -, -⟩ := State.spendStep_eq state
        simp only [Except.ok.injEq, hspend] at hadvance
        rw [← hrun.2, ← hadvance]
        exact .of_tokens rfl rfl (token :: state.pending) rfl
  case descend | ascend => cases hlevel

/-! ### Rules -/

namespace Rule

variable {runCall : Nonterminal → State → Except Fault State} {α β : Type} {lift own more : Nat} {outer : Kind}

theorem nests_pure (answer : α) : (pure answer : Rule α).Nests runCall own := by
  intro state found after hexec
  obtain ⟨-, rfl⟩ := Prod.mk.inj (Except.ok.inj hexec)
  exact State.NestsTo.mono (.refl state) (Nat.zero_le own)

theorem nests_bind {rule : Rule α} {next : α → Rule β} (hrule : rule.Nests runCall own)
    (hnext : ∀ answer, (next answer).NestsTo runCall lift outer own) : (rule >>= next).NestsTo runCall lift outer own := by
  intro state answer after hexec
  obtain ⟨first, between, hfirst, hrest⟩ := exec_bind_ok hexec
  exact (hrule state first between hfirst).trans (hnext first between answer after hrest)

theorem NestsTo.mono {rule : Rule α} (hrule : rule.NestsTo runCall lift outer own) (hmore : own ≤ more) :
    rule.NestsTo runCall lift outer more :=
  fun state answer after hexec => (hrule state answer after hexec).mono hmore

theorem NestsTo.under {rule : Rule α} (hrule : rule.Nests runCall own) (outer : Kind) :
    rule.NestsTo runCall 0 outer own :=
  fun state answer after hexec => (hrule state answer after hexec).under outer

theorem nests_ofStep (step : Step α) (hlevel : step.isLevel = false) : (ofStep step).Nests runCall own := by
  intro state answer after hexec
  exact (step.nestsTo_run (run_of_exec_ofStep hexec) hlevel).mono (Nat.zero_le own)

theorem nests_ite {condition : Prop} [Decidable condition] {left right : Rule α}
    (hleft : left.NestsTo runCall lift outer own) (hright : right.NestsTo runCall lift outer own) :
    (if condition then left else right).NestsTo runCall lift outer own := by
  split
  · exact hleft
  · exact hright

theorem nests_orM {left right : Rule Bool} (hleft : left.Nests runCall own) (hright : right.Nests runCall own) :
    (left <||> right).Nests runCall own :=
  nests_bind hleft fun answer => by
    cases answer
    · exact hright
    · exact nests_pure _

theorem nests_andM {left right : Rule Bool} (hleft : left.Nests runCall own) (hright : right.Nests runCall own) :
    (left <&&> right).Nests runCall own :=
  nests_bind hleft fun answer => by
    cases answer
    · exact nests_pure _
    · exact hright

theorem nests_map {f : α → β} {rule : Rule α} (hrule : rule.Nests runCall own) : (f <$> rule).Nests runCall own :=
  nests_bind hrule fun _ => nests_pure _

/-! ### Levels -/

theorem nests_ascend : (ofStep .ascend).NestsTo runCall 1 .script own := by
  intro state answer after hexec
  obtain ⟨-, rfl⟩ := Prod.mk.inj (Except.ok.inj hexec)
  exact fun limit hlimit _ => ⟨hlimit, rfl, fun _ _ hplaced => hplaced⟩

/-- One level deeper a rule may have three brackets of its own. -/
theorem nests_descend {rule otherwise : Rule Unit} (hrule : rule.NestsTo runCall 1 .script 3)
    (hotherwise : otherwise.Nests runCall own) :
    (ofStep .descend >>= fun within => if within = true then rule else otherwise).Nests runCall own := by
  intro state answer after hexec limit hlimit hdepth
  obtain ⟨within, between, hstep, hrest⟩ := exec_bind_ok hexec
  have hdescend : state.descend = (within, between) := Except.ok.inj hstep
  have hfull? : state.depthLimit?.any (· ≤ state.depth) = decide (limit ≤ state.depth) := by
    rw [hlimit]
    rfl
  rw [State.descend, hfull?] at hdescend
  by_cases hfull : limit ≤ state.depth
  · rw [if_pos (decide_eq_true hfull)] at hdescend
    obtain ⟨rfl, rfl⟩ := Prod.mk.inj hdescend
    exact hotherwise _ answer after hrest limit hlimit hdepth
  · rw [if_neg (by simpa using hfull)] at hdescend
    obtain ⟨rfl, rfl⟩ := Prod.mk.inj hdescend
    obtain ⟨hlimit, hlift, hplaced⟩ := hrule _ answer after hrest limit hlimit (by simp; omega)
    refine ⟨hlimit, hlift, fun bound hbound hstate => hplaced bound ?_ hstate⟩
    simp only [State.room] at hbound ⊢
    omega

/-! ### Nodes -/

/-- A node with fresh contents. The trees in it nest within a bound that the node around them adds to. -/
theorem nests_nodeUnder {kind inside : Kind} {inner : Rule Unit} {within : Nat}
    (hinner : inner.NestsTo runCall 0 inside within)
    (hbuild : ∀ base bound children, base + own ≤ bound → ∃ smaller, base + within ≤ smaller ∧
      ((∀ child ∈ children, child.NestsWithin inside smaller) → (Tree.node kind children).NestsWithin outer bound)) :
    (Grammar.node kind inner).NestsTo runCall 0 outer own := by
  intro state answer after hexec limit hlimit hdepth
  obtain ⟨stop, hstop, rfl⟩ := exec_node_ok hexec
  obtain ⟨hlimit, hsame, hplaced⟩ := hinner _ _ _ hstop limit hlimit hdepth
  refine ⟨hlimit, hsame, fun bound hbound hstate tree hmem => ?_⟩
  obtain rfl | hmem := List.mem_cons.mp hmem
  · obtain ⟨smaller, hsmaller, htree⟩ := hbuild (state.room limit) bound stop.placed.reverse hbound
    refine htree fun child hchild => hplaced smaller hsmaller ?_ child (List.mem_reverse.mp hchild)
    intro other hother
    simp at hother
  · refine Tree.NestsWithin.under ?_ outer
    exact State.nestsWithin_placePending hstate tree hmem

theorem nests_node {kind : Kind} {inner : Rule Unit} (hinner : inner.Nests runCall own)
    (hkind : kind.isBracketed = false) : (Grammar.node kind inner).Nests runCall own := by
  refine nests_nodeUnder hinner fun base bound children hbound => ⟨bound, hbound, fun hchildren => ?_⟩
  have htree : (Tree.node kind children).NestsWithin .script _ :=
    Tree.nestsWithin_node fun child hmem => (hchildren child hmem).under kind
  rwa [hkind] at htree

theorem nests_brackets {kind : Kind} {inner : Rule Unit} (hinner : inner.Nests runCall own) :
    (Grammar.node kind inner).Nests runCall (own + 1) := by
  refine nests_nodeUnder hinner fun base bound children hbound => ⟨bound - 1, by omega, fun hchildren => ?_⟩
  have htree : (Tree.node kind children).NestsWithin .script _ :=
    Tree.nestsWithin_node fun child hmem => (hchildren child hmem).under kind
  refine htree.mono ?_
  split
  all_goals omega

/-- What stands in a parameter may count as the default of a parameter. -/
theorem nests_parameter {inner : Rule Unit} (hinner : inner.NestsTo runCall 0 .parameter own) :
    (Grammar.node .parameter inner).Nests runCall own :=
  nests_nodeUnder hinner fun _ bound _ hbound => ⟨bound, hbound, Tree.nestsWithin_node⟩

theorem nests_defaultTable {inner : Rule Unit} (hinner : inner.Nests runCall (own + 1)) :
    (Grammar.node .table inner).NestsTo runCall 0 .parameter own :=
  nests_nodeUnder hinner fun _ bound _ hbound => ⟨bound + 1, by omega, fun hchildren =>
    Tree.nestsWithin_defaultTable fun child hmem => (hchildren child hmem).under .table⟩

/-- A node around trees that have been placed before. -/
theorem nests_nodeFrom {kind : Kind} {start : Nat} {inner : Rule Unit} (hinner : inner.Nests runCall own)
    (hkind : kind.isBracketed = false) : (Grammar.nodeFrom start kind inner).Nests runCall own := by
  intro state answer after hexec limit hlimit hdepth
  obtain ⟨stop, hstop, rfl⟩ := exec_nodeFrom_ok hexec
  obtain ⟨hlimit, hsame, hplaced⟩ := hinner _ _ _ hstop limit hlimit hdepth
  refine ⟨hlimit, hsame, fun bound hbound hstate tree hmem => ?_⟩
  obtain rfl | hmem := List.mem_cons.mp hmem
  · have hchildren := hplaced bound hbound fun other hother => hstate other (List.mem_of_mem_take hother)
    have htree : (Tree.node kind stop.placed.reverse).NestsWithin .script _ :=
      Tree.nestsWithin_node fun child hmem => (hchildren child (List.mem_reverse.mp hmem)).under kind
    rwa [hkind] at htree
  · exact hstate tree (List.mem_of_mem_drop hmem)

end Rule

end Squirrel
