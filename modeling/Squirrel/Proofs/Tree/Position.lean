import Squirrel.View.Field

/-!
# Where nodes start

A tree holds no positions: where a node starts follows from the widths of what stands before it. `EachFrom` speaks of all
nodes of a tree with the offsets where they start, by recursion on the tree.
-/

namespace Squirrel.Tree

theorem widthOf_append (left right : List Tree) : widthOf (left ++ right) = widthOf left + widthOf right := by
  induction left with
  | nil => rw [List.nil_append, widthOf, Nat.zero_add]
  | cons tree rest ih => rw [List.cons_append, widthOf, widthOf, ih, Nat.add_assoc]

@[simp] theorem widthOf_reverse (trees : List Tree) : widthOf trees.reverse = widthOf trees := by
  induction trees with
  | nil => rfl
  | cons tree rest ih => rw [List.reverse_cons, widthOf_append, ih, widthOf, widthOf, widthOf, Nat.add_zero, Nat.add_comm]

mutual

/-- A property of each node of a tree and of the offset where that node starts. -/
def EachFrom (holds : Nat → Tree → Prop) (start : Nat) : Tree → Prop
  | token _ => True
  | node kind children => holds start (node kind children) ∧ EachOf holds start children

/-- The same of a row of trees, each starting where the one before it ends. -/
def EachOf (holds : Nat → Tree → Prop) (start : Nat) : List Tree → Prop
  | [] => True
  | tree :: rest => EachFrom holds start tree ∧ EachOf holds (start + tree.width) rest

end

variable {holds weaker : Nat → Tree → Prop}

theorem eachOf_append {start : Nat} {left right : List Tree} : EachOf holds start (left ++ right) ↔
    EachOf holds start left ∧ EachOf holds (start + widthOf left) right := by
  induction left generalizing start with
  | nil => simp [EachOf, widthOf]
  | cons tree rest ih => rw [List.cons_append, EachOf, EachOf, ih, widthOf, Nat.add_assoc, and_assoc]

mutual

theorem EachFrom.mono (hweaker : ∀ start tree, holds start tree → weaker start tree) {start : Nat} {tree : Tree}
    (hall : EachFrom holds start tree) : EachFrom weaker start tree := by
  cases tree with
  | token leaf => trivial
  | node kind children =>
    rw [EachFrom] at hall ⊢
    exact ⟨hweaker start _ hall.1, EachOf.mono hweaker hall.2⟩

theorem EachOf.mono (hweaker : ∀ start tree, holds start tree → weaker start tree) {start : Nat} {trees : List Tree}
    (hall : EachOf holds start trees) : EachOf weaker start trees := by
  cases trees with
  | nil => trivial
  | cons tree rest =>
    rw [EachOf] at hall ⊢
    exact ⟨EachFrom.mono hweaker hall.1, EachOf.mono hweaker hall.2⟩

end

mutual

/-- The places of a tree are its nodes with the offsets where they start. -/
theorem EachFrom.of_mem_placesFrom {start : Nat} {field? : Option Field} {tree : Tree} {place : Place}
    (hall : EachFrom holds start tree) (hmem : place ∈ tree.placesFrom start field?) : holds place.start place.tree := by
  cases tree with
  | token leaf => simp [placesFrom] at hmem
  | node kind children =>
    rw [EachFrom] at hall
    rw [placesFrom] at hmem
    obtain rfl | hmem := List.mem_cons.mp hmem
    · exact hall.1
    · exact EachOf.of_mem_placesUnder hall.2 hmem

theorem EachOf.of_mem_placesUnder {parent : Tree} {index start : Nat} {trees : List Tree} {place : Place}
    (hall : EachOf holds start trees) (hmem : place ∈ parent.placesUnder index start trees) :
    holds place.start place.tree := by
  cases trees with
  | nil => simp [placesUnder] at hmem
  | cons tree rest =>
    rw [EachOf] at hall
    rw [placesUnder] at hmem
    obtain hmem | hmem := List.mem_append.mp hmem
    · exact EachFrom.of_mem_placesFrom hall.1 hmem
    · exact EachOf.of_mem_placesUnder hall.2 hmem

end

mutual

/-- What holds of all places of a tree holds of each of its nodes. -/
theorem EachFrom.of_placesFrom {start : Nat} (field? : Option Field) {tree : Tree}
    (hall : ∀ place ∈ tree.placesFrom start field?, holds place.start place.tree) : EachFrom holds start tree := by
  cases tree with
  | token leaf => trivial
  | node kind children =>
    rw [placesFrom] at hall
    obtain ⟨hnode, hunder⟩ := List.forall_mem_cons.mp hall
    exact ⟨hnode, EachOf.of_placesUnder (node kind children) 0 hunder⟩

theorem EachOf.of_placesUnder (parent : Tree) (index : Nat) {start : Nat} {trees : List Tree}
    (hall : ∀ place ∈ parent.placesUnder index start trees, holds place.start place.tree) :
    EachOf holds start trees := by
  cases trees with
  | nil => trivial
  | cons tree rest =>
    rw [placesUnder] at hall
    obtain ⟨htree, hrest⟩ := List.forall_mem_append.mp hall
    exact ⟨EachFrom.of_placesFrom _ htree, EachOf.of_placesUnder parent (index + 1) hrest⟩

end

/-- Tokens have no nodes in them. -/
theorem eachOf_of_tokens {start : Nat} {trees : List Tree} (htokens : ∀ tree ∈ trees, tree.isNode = false) :
    EachOf holds start trees := by
  induction trees generalizing start with
  | nil => trivial
  | cons tree rest ih =>
    obtain ⟨htree, hrest⟩ := List.forall_mem_cons.mp htokens
    cases tree with
    | token leaf => exact ⟨trivial, ih hrest⟩
    | node => exact nomatch htree

end Squirrel.Tree
