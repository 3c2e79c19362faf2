import Mathlib.Algebra.GroupWithZero.Nat
import Squirrel.Proofs.Tree.Between
import Squirrel.Proofs.Tree.Position

/-!
# Nodes and the leaves behind them

What follows a node are the leaves behind it. `EachBefore` speaks of all nodes of a tree with the leaves that stand behind
them, by recursion on the tree. Two nodes end at the same offset just if the same leaves stand behind them, for no leaf
is empty.
-/

namespace Squirrel

/-- The first word among some leaves. -/
def Leaf.firstWord? (leaves : List Leaf) : Option Leaf := leaves.find? (!·.kind.isTrivia)

/-- How many bytes of source some leaves cover. -/
def Leaf.widthOf (leaves : List Leaf) : Nat := (leaves.map (·.text.utf8ByteSize)).sum

namespace Leaf

variable {left right : List Leaf}

/-- Blanks and comments are no words. -/
theorem firstWord?_append_of_trivia (htrivia : ∀ leaf ∈ left, leaf.kind.isTrivia = true) :
    firstWord? (left ++ right) = firstWord? right := by
  have hnone : left.find? (!·.kind.isTrivia) = none := List.find?_eq_none.mpr fun leaf hmem => by simp [htrivia leaf hmem]
  rw [firstWord?, List.find?_append, hnone, Option.none_or]
  rfl

@[simp] theorem widthOf_append : widthOf (left ++ right) = widthOf left + widthOf right := by
  rw [widthOf, List.map_append, List.sum_append]
  rfl

theorem eq_nil_of_widthOf (hpos : ∀ leaf ∈ left, 0 < leaf.text.utf8ByteSize) (hwidth : widthOf left = 0) :
    left = [] := by
  cases left with
  | nil => rfl
  | cons leaf rest =>
    have hleaf := hpos leaf List.mem_cons_self
    rw [widthOf, List.map_cons, List.sum_cons] at hwidth
    omega

end Leaf

namespace Tree

variable {inner between tree : Tree} {before after behind : List Leaf} {holds : Tree → List Leaf → Prop}

/-! ### Properties of nodes and of what is behind them -/

mutual

/-- A property of each node of a tree and of the leaves behind that node. -/
def EachBefore (holds : Tree → List Leaf → Prop) (behind : List Leaf) : Tree → Prop
  | token _ => True
  | node kind children => holds (node kind children) behind ∧ EachOfBefore holds behind children

/-- The same of a row of trees. -/
def EachOfBefore (holds : Tree → List Leaf → Prop) (behind : List Leaf) : List Tree → Prop
  | [] => True
  | tree :: rest => EachBefore holds (leavesOf rest ++ behind) tree ∧ EachOfBefore holds behind rest

end

theorem eachOfBefore_append {left right : List Tree} : EachOfBefore holds behind (left ++ right) ↔
    EachOfBefore holds (leavesOf right ++ behind) left ∧ EachOfBefore holds behind right := by
  induction left with
  | nil => simp [EachOfBefore]
  | cons tree rest ih =>
    rw [List.cons_append, EachOfBefore, EachOfBefore, ih, leavesOf_append, List.append_assoc, and_assoc]

/-- What holds of each node of a tree holds of one that stands in it. -/
theorem EachBefore.of_between (heach : EachBefore holds behind tree) (hbetween : inner.Between before after tree)
    (hnode : inner.isNode = true) : holds inner (after ++ behind) := by
  induction hbetween generalizing behind with
  | self =>
    cases inner with
    | token => cases hnode
    | node => exact heach.1
  | child _ ih =>
    obtain ⟨htree, -⟩ := (eachOfBefore_append.mp heach.2).2
    rw [List.append_assoc]
    exact ih htree

/-- Tokens have no nodes in them. -/
theorem eachOfBefore_of_tokens {trees : List Tree} (htokens : ∀ tree ∈ trees, tree.isNode = false) :
    EachOfBefore holds behind trees := by
  induction trees with
  | nil => trivial
  | cons tree rest ih =>
    obtain ⟨htree, hrest⟩ := List.forall_mem_cons.mp htokens
    cases tree with
    | token leaf => exact ⟨trivial, ih hrest⟩
    | node => exact nomatch htree

/-- The first word among the leaves of a row and others is one of the others, if the row holds trivia only. -/
theorem firstWord?_of_trivia {trees : List Tree} (htrivia : ∀ tree ∈ trees, tree.isTrivia = true) :
    Leaf.firstWord? (leavesOf trees ++ behind) = Leaf.firstWord? behind := by
  refine Leaf.firstWord?_append_of_trivia ?_
  induction trees with
  | nil => exact List.forall_mem_nil _
  | cons tree rest ih =>
    obtain ⟨htree, hrest⟩ := List.forall_mem_cons.mp htrivia
    cases tree with
    | token leaf => exact List.forall_mem_cons.mpr ⟨htree, ih hrest⟩
    | node => exact nomatch htree

/-! ### Places -/

theorem Between.trans (hinner : inner.Between before after between) {outside beyond : List Leaf}
    (hbetween : between.Between outside beyond tree) : inner.Between (outside ++ before) (after ++ beyond) tree := by
  induction hbetween with
  | self => rwa [List.nil_append, List.append_nil]
  | child _ ih =>
    rw [List.append_assoc, ← List.append_assoc after]
    exact ih.child

mutual

theorem width_eq (tree : Tree) : tree.width = Leaf.widthOf tree.leaves := by
  cases tree with
  | token leaf => rw [width, leaves, Leaf.widthOf, List.map_singleton, List.sum_singleton]
  | node kind children => rw [width, leaves, widthOf_eq]

theorem widthOf_eq (trees : List Tree) : widthOf trees = Leaf.widthOf (leavesOf trees) := by
  cases trees with
  | nil => rfl
  | cons tree rest => rw [widthOf, leavesOf, Leaf.widthOf_append, width_eq, widthOf_eq]

end

mutual

/-- The place of a node starts behind the leaves before the node. -/
theorem exists_between_of_mem_placesFrom {start : Nat} {field? : Option Field} {tree : Tree} {place : Place}
    (hmem : place ∈ tree.placesFrom start field?) :
    ∃ before after, place.tree.Between before after tree ∧ place.start = start + Leaf.widthOf before := by
  cases tree with
  | token => cases hmem
  | node kind children =>
    rw [placesFrom] at hmem
    obtain rfl | hmem := List.mem_cons.mp hmem
    · exact ⟨[], [], .self, rfl⟩
    · obtain ⟨left, child, right, before, after, rfl, hchild, hstart⟩ := exists_between_of_mem_placesUnder hmem
      refine ⟨_, _, hchild.child, ?_⟩
      rw [hstart, Leaf.widthOf_append, widthOf_eq, Nat.add_assoc]

theorem exists_between_of_mem_placesUnder {parent : Tree} {index start : Nat} {trees : List Tree} {place : Place}
    (hmem : place ∈ parent.placesUnder index start trees) : ∃ left child right before after,
      trees = left ++ child :: right ∧ place.tree.Between before after child ∧
        place.start = start + widthOf left + Leaf.widthOf before := by
  cases trees with
  | nil => cases hmem
  | cons tree rest =>
    rw [placesUnder] at hmem
    obtain hmem | hmem := List.mem_append.mp hmem
    · obtain ⟨before, after, htree, hstart⟩ := exists_between_of_mem_placesFrom hmem
      exact ⟨[], tree, rest, before, after, rfl, htree, hstart⟩
    · obtain ⟨left, child, right, before, after, rfl, hchild, hstart⟩ := exists_between_of_mem_placesUnder hmem
      refine ⟨tree :: left, child, right, before, after, rfl, hchild, ?_⟩
      rw [hstart, widthOf, ← Nat.add_assoc start]

end

/-- Behind a node that ends where the whole tree ends there is no leaf in the tree. -/
theorem exists_between_of_stop_eq {start : Nat} {field? : Option Field} {place : Place}
    (hpos : ∀ leaf ∈ tree.leaves, 0 < leaf.text.utf8ByteSize) (hmem : place ∈ tree.placesFrom start field?)
    (hstop : place.start + place.tree.width = start + tree.width) : ∃ before, place.tree.Between before [] tree := by
  obtain ⟨before, after, hbetween, hstart⟩ := exists_between_of_mem_placesFrom hmem
  have hleaves := hbetween.leaves
  have hnone : after = [] := by
    refine Leaf.eq_nil_of_widthOf (fun leaf hleaf => hpos leaf (by simp [hleaves, hleaf])) ?_
    rw [hstart, width_eq, width_eq, hleaves, Leaf.widthOf_append, Leaf.widthOf_append] at hstop
    omega
  exact ⟨before, hnone ▸ hbetween⟩

end Tree

end Squirrel
