import Squirrel.Proofs.Grammar.Derivation
import Squirrel.Proofs.View.Complete

/-!
# What holds of all nodes that a derivation places

A derivation builds its nodes from the inside out. What a production gives to its node, knowing it of the parts, holds of
every node in the trees.
-/

namespace Squirrel

open Squirrel.Tree

namespace Tree

/-- A property of all nodes in a tree. -/
def Throughout (holds : Tree → Prop) (tree : Tree) : Prop :=
  ∀ inner : Tree, inner.Within tree → inner.isNode = true → holds inner

variable {holds : Tree → Prop}

theorem throughout_token (leaf : Leaf) : (token leaf).Throughout holds := by
  intro inner hwithin hnode
  cases hwithin
  cases hnode

theorem throughout_node {kind : Kind} {children : List Tree} (hnode : holds (node kind children))
    (hchildren : ∀ child ∈ children, child.Throughout holds) : (node kind children).Throughout holds := by
  intro inner hwithin hinner
  cases hwithin with
  | self => exact hnode
  | child hmem hwithin => exact hchildren _ hmem inner hwithin hinner

theorem BuiltOf.throughout {tree : Tree} {kind : Kind} {row : List Tree} (hbuilt : tree.BuiltOf kind row)
    (hnode : holds tree) (hrow : ∀ part ∈ row, part.Throughout holds) : tree.Throughout holds := by
  obtain ⟨children, rfl, rfl⟩ := hbuilt
  refine throughout_node hnode fun child hmem => ?_
  cases child with
  | token leaf => exact throughout_token leaf
  | node kind children => exact hrow _ (List.mem_filter.mpr ⟨hmem, rfl⟩)

end Tree

/-- A property of words that each step hands on, and one of trees that each production gives to its node. -/
theorem Derives.throughout {written : Word → Prop} {holds : Tree → Prop}
    (hword : ∀ word, written word → holds word.tree)
    (hproduction : ∀ {phrase : Phrase} {kind : Kind} {body : List Item} {words last : List Word} {row : List Tree}
      {tree : Tree}, Production phrase (.node kind) body → Derives body words last row →
      (∀ word ∈ words, written word) → (∀ part ∈ row, holds part) → tree.BuiltOf kind row → holds tree)
    (htight : ∀ {phrase : Phrase} {kind : Kind} {body : List Item} {words last : List Word} {row : List Tree},
      Production phrase (.tight kind) body → Derives body words last row → (∀ word ∈ words, written word) →
      (∀ part ∈ row, holds part) → holds (.node kind row))
    {items : List Item} {words last : List Word} {trees : List Tree} (hderives : Derives items words last trees)
    (hwritten : ∀ word ∈ words, written word) :
    (∀ word ∈ last, written word) ∧ ∀ tree ∈ trees, holds tree ∧ tree.Throughout holds := by
  induction hderives with
  | nil => exact ⟨hwritten, by simp⟩
  | @word _ _ word _ _ _ _ _ ih | @wordIn _ _ word _ _ _ _ _ ih =>
    obtain ⟨hfirst, hrest⟩ := List.forall_mem_cons.mp hwritten
    obtain ⟨hlast, htrees⟩ := ih hrest
    exact ⟨hlast, List.forall_mem_cons.mpr ⟨⟨hword word hfirst, throughout_token _⟩, htrees⟩⟩
  | check _ _ ih => exact ih hwritten
  | @part phrase form body items words middle last parts placed trees hstep hbody hform hitems ihbody ih =>
    obtain ⟨hmiddle, hparts⟩ := ihbody hwritten
    obtain ⟨hlast, htrees⟩ := ih hmiddle
    refine ⟨hlast, List.forall_mem_append.mpr ⟨?_, htrees⟩⟩
    cases form with
    | bare =>
      obtain rfl : placed = parts := hform
      exact hparts
    | node kind =>
      obtain ⟨tree, hbuilt, rfl⟩ := hform
      have htree := hproduction hstep hbody hwritten (fun part hmem => (hparts part hmem).1) hbuilt
      exact List.forall_mem_singleton.mpr ⟨htree, hbuilt.throughout htree fun part hmem => (hparts part hmem).2⟩
    | tight kind =>
      obtain rfl : placed = [.node kind parts] := hform
      have htree := htight hstep hbody hwritten fun part hmem => (hparts part hmem).1
      exact List.forall_mem_singleton.mpr ⟨htree, throughout_node htree fun part hmem => (hparts part hmem).2⟩

end Squirrel
