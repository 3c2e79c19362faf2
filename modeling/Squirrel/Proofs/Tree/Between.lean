import Squirrel.Proofs.Parse.Lossless
import Squirrel.Proofs.View.Complete

/-!
# Where a tree stands in another one

A tree stands in another one between the leaves before it and those after it. Two equal trees at different places are
told apart by these leaves, and what follows a node can be said of them.
-/

namespace Squirrel.Tree

/-- One element of a row that is put together from two stands in the first or in the second. -/
theorem append_eq_append_cons {α : Type} {front back left right : List α} {a : α}
    (hsame : front ++ back = left ++ a :: right) :
    (∃ skipped, left = front ++ skipped ∧ back = skipped ++ a :: right) ∨
      ∃ skipped, front = left ++ a :: skipped ∧ right = skipped ++ back := by
  obtain hbehind | ⟨skipped, rfl, hrest⟩ := List.append_eq_append_iff.mp hsame
  · exact .inl hbehind
  · cases skipped with
    | nil => exact .inl ⟨[], by simp, by simpa using hrest.symm⟩
    | cons first skipped =>
      obtain ⟨rfl, rfl⟩ := List.cons_eq_cons.mp hrest
      exact .inr ⟨skipped, rfl, rfl⟩

/-- A tree stands in another one, behind some of its leaves and in front of others. -/
inductive Between (inner : Tree) : List Leaf → List Leaf → Tree → Prop where
  | self : Between inner [] [] inner
  | child {kind : Kind} {left right : List Tree} {child : Tree} {before after : List Leaf}
      (hbetween : Between inner before after child) :
      Between inner (leavesOf left ++ before) (after ++ leavesOf right) (.node kind (left ++ child :: right))

variable {inner tree : Tree} {before after : List Leaf}

theorem Between.leaves (hbetween : inner.Between before after tree) : tree.leaves = before ++ (inner.leaves ++ after) := by
  induction hbetween with
  | self => simp
  | child _ ih => simp [Tree.leaves, leavesOf_append, leavesOf, ih]

theorem Within.exists_between (hwithin : inner.Within tree) : ∃ before after, inner.Between before after tree := by
  induction hwithin with
  | self => exact ⟨[], [], .self⟩
  | child hmem _ ih =>
    obtain ⟨before, after, hbetween⟩ := ih
    obtain ⟨left, right, rfl⟩ := List.append_of_mem hmem
    exact ⟨_, _, hbetween.child⟩

theorem Within.trans {between : Tree} (hinner : inner.Within between) (hwithin : between.Within tree) : inner.Within tree := by
  induction hwithin with
  | self => exact hinner
  | child hmem _ ih => exact .child hmem ih

theorem Between.within (hbetween : inner.Between before after tree) : inner.Within tree := by
  induction hbetween with
  | self => exact .self
  | child _ ih => exact .child (by simp) ih

/-- A node does not stand in a token. -/
theorem Between.isNode (hbetween : inner.Between before after tree) (hnode : inner.isNode = true) :
    tree.isNode = true := by
  cases hbetween with
  | self => exact hnode
  | child => rfl

/-- A tree stands right under a node of another one, if it is not the other one itself. -/
theorem Between.exists_parent (hbetween : inner.Between before after tree) :
    (inner = tree ∧ before = [] ∧ after = []) ∨ ∃ kind left right outside beyond,
      (node kind (left ++ inner :: right)).Between outside beyond tree ∧
      before = outside ++ leavesOf left ∧ after = leavesOf right ++ beyond := by
  induction hbetween with
  | self => exact .inl ⟨rfl, rfl, rfl⟩
  | @child kind left right child before after _ ih =>
    refine .inr ?_
    obtain ⟨rfl, rfl, rfl⟩ | ⟨parent, first, others, outside, beyond, hparent, rfl, rfl⟩ := ih
    · exact ⟨kind, left, right, [], [], .self, by simp, by simp⟩
    · exact ⟨parent, first, others, _, _, hparent.child, by simp, by simp⟩

mutual

/-- Each leaf of a tree stands in it where it is among the leaves. -/
theorem between_of_leaves {leaf : Leaf} {before after : List Leaf} {tree : Tree}
    (hleaves : tree.leaves = before ++ leaf :: after) : (token leaf).Between before after tree := by
  cases tree with
  | token own =>
    have hsingle : [own] = before ++ leaf :: after := hleaves
    obtain ⟨rfl, rfl, rfl⟩ : before = [] ∧ leaf = own ∧ after = [] := by
      simpa [List.append_eq_cons_iff] using hsingle.symm
    exact .self
  | node kind children =>
    rw [leaves] at hleaves
    obtain ⟨left, child, right, before, after, rfl, hchild, rfl, rfl⟩ := between_of_leavesOf hleaves
    exact hchild.child

theorem between_of_leavesOf {leaf : Leaf} {before after : List Leaf} {trees : List Tree}
    (hleaves : leavesOf trees = before ++ leaf :: after) : ∃ left child right before' after',
      trees = left ++ child :: right ∧ (token leaf).Between before' after' child ∧
        before = leavesOf left ++ before' ∧ after = after' ++ leavesOf right := by
  cases trees with
  | nil => exact absurd hleaves.symm (List.append_ne_nil_of_right_ne_nil _ (List.cons_ne_nil _ _))
  | cons tree rest =>
    rw [leavesOf] at hleaves
    obtain ⟨skipped, rfl, hrest⟩ | ⟨skipped, htree, rfl⟩ := append_eq_append_cons hleaves
    · obtain ⟨left, child, right, before', after', rfl, hchild, rfl, rfl⟩ := between_of_leavesOf hrest
      exact ⟨tree :: left, child, right, before', after', rfl, hchild, by rw [leavesOf, List.append_assoc], rfl⟩
    · exact ⟨[], tree, rest, before, skipped, rfl, between_of_leaves htree, rfl, rfl⟩

end

end Squirrel.Tree
