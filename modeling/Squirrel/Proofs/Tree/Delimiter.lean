import Squirrel.Proofs.Grammar.Throughout
import Squirrel.Proofs.Token.Delimiter
import Squirrel.Proofs.Tree.Between
import Squirrel.Proofs.View.Row

/-!
# Delimiters in a tree

If the delimiters right under each node of a tree are nested, a node makes no difference to the closers that are awaited
around it. All delimiters of the tree are nested then, and a matching pair of them stands under one node.
-/

namespace Squirrel.Tree

open Kind

/-- The delimiters right under a tree are nested. -/
def NestsTokens (tree : Tree) : Prop := Nested (tree.tokens.map Leaf.kind)

/-- What holds of all nodes in a tree holds of those in a part of it. -/
theorem Throughout.of_within {holds : Tree → Prop} {part tree : Tree} (hall : tree.Throughout holds)
    (hwithin : part.Within tree) : part.Throughout holds :=
  fun inner hinner => hall inner (hinner.trans hwithin)

mutual

/-- What lies under a node is nested. -/
theorem nested_leaves {tree : Tree} (hnests : tree.Throughout NestsTokens) (hnode : tree.isNode = true) :
    Nested (tree.leaves.map Leaf.kind) := by
  cases tree with
  | token => cases hnode
  | node kind children =>
    rw [leaves, Nested, awaited_leavesOf fun child hmem => hnests.of_within (.child hmem .self)]
    exact hnests _ .self rfl

/-- Nodes make no difference to what is awaited. -/
theorem awaited_leavesOf {trees : List Tree} (hnests : ∀ tree ∈ trees, tree.Throughout NestsTokens) (waiting : List Kind) :
    awaited waiting ((leavesOf trees).map Leaf.kind) = awaited waiting ((leavesIn trees).map Leaf.kind) := by
  cases trees with
  | nil => rfl
  | cons tree rest =>
    obtain ⟨htree, hrest⟩ := List.forall_mem_cons.mp hnests
    rw [leavesOf, List.map_append, awaited_append]
    cases tree with
    | token leaf =>
      rw [leavesIn, List.filterMap_cons_some (leaf?_token leaf), List.map_cons, awaited_cons]
      rw [leaves, List.map_singleton, awaited_cons]
      cases await waiting leaf.kind with
      | none => rfl
      | some next => exact awaited_leavesOf hrest next
    | node kind children =>
      rw [(nested_leaves htree rfl).awaited_eq, Option.bind_some, awaited_leavesOf hrest]
      rfl

end

/-- An opener and its closer are children of one node in a tree, with the given leaves before, between and after them. -/
def Pairs (opening closing : Leaf) (before inner after : List Leaf) (tree : Tree) : Prop :=
  ∃ kind left middle right outside beyond,
    (node kind (left ++ token opening :: (middle ++ token closing :: right))).Between outside beyond tree ∧
      before = outside ++ leavesOf left ∧ inner = leavesOf middle ∧ after = leavesOf right ++ beyond

/-- Each token of a row stands behind some trees. -/
theorem exists_of_leavesIn {row : List Tree} {leaf : Leaf} {front back : List Leaf}
    (hleaves : leavesIn row = front ++ leaf :: back) :
    ∃ left right, row = left ++ token leaf :: right ∧ leavesIn left = front := by
  obtain ⟨first, others, rfl, hfirst, hothers⟩ := List.filterMap_eq_append_iff.mp hleaves
  obtain ⟨nodes, tree, right, rfl, hnodes, htree, -⟩ := List.filterMap_eq_cons_iff.mp hothers
  cases tree with
  | node => cases htree
  | token own =>
    obtain rfl : own = leaf := Option.some.inj htree
    refine ⟨first ++ nodes, right, (List.append_assoc ..).symm, ?_⟩
    rw [leavesIn, List.filterMap_append, hfirst, List.filterMap_eq_nil_iff.mpr hnodes, List.append_nil]

/-- A pair of delimiters with nested leaves in between stands under one node. -/
theorem pairs_of_leaves {tree : Tree} {opening closing : Leaf} {before inner after : List Leaf}
    (hnests : tree.Throughout NestsTokens) (hnode : tree.isNode = true)
    (hleaves : tree.leaves = before ++ opening :: (inner ++ closing :: after))
    (hcloser : opening.kind.closer? = some closing.kind) (hinner : Nested (inner.map Leaf.kind)) :
    Pairs opening closing before inner after tree := by
  obtain ⟨rfl, -⟩ | ⟨kind, left, others, outside, beyond, hparent, rfl, hbehind⟩ :=
    (between_of_leaves hleaves).exists_parent
  · cases hnode
  -- the tokens of the parent are nested, so one of them is the closer
  have hown : Nested ((leavesIn (left ++ token opening :: others)).map Leaf.kind) := hnests _ hparent.within rfl
  rw [leavesIn, List.filterMap_append, List.filterMap_cons_some (leaf?_token opening), List.map_append, List.map_cons] at hown
  obtain ⟨between, rest, hothers, hbetween⟩ := hown.exists_closer hcloser
  obtain ⟨front, back, hsplit, rfl, hback⟩ := List.map_eq_append_iff.mp hothers
  obtain ⟨own, back, rfl, hclosing, rfl⟩ := List.map_eq_cons_iff.mp hback
  obtain ⟨middle, right, rfl, rfl⟩ := exists_of_leavesIn hsplit
  -- the trees in between are nested too, so no other closer comes before this one
  have hmiddle : Nested ((leavesOf middle).map Leaf.kind) := by
    have hparts := hnests.of_within hparent.within
    rw [Nested, awaited_leavesOf fun child hmem => hparts.of_within (.child (by simp [hmem]) .self)]
    exact hbetween
  have hsame : inner ++ closing :: after = leavesOf middle ++ own :: (leavesOf right ++ beyond) := by
    rw [hbehind, leavesOf_append, leavesOf, leaves]
    simp
  have hcloses := isCloser_of_closer? hcloser
  obtain ⟨rfl, rfl, rfl⟩ := hinner.inner_unique hsame hmiddle hcloses (by rw [hclosing]; exact hcloses)
  exact ⟨kind, left, middle, right, outside, beyond, hparent, rfl, rfl, rfl⟩

end Squirrel.Tree
