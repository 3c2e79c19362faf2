import Squirrel.Parse.State
import Squirrel.Proofs.Token.Delimiter
import Squirrel.Proofs.Tree.Position

/-!
# Openers without a closer

An opening delimiter that is never closed is a token of some node, and no closing delimiter stands behind it in that
node. In a row of trees it may be one of the row, or lie in a node under it.
-/

namespace Squirrel

namespace Tree

/-- No tree of a row is a closing delimiter. -/
def NoCloser (row : List Tree) : Prop := ∀ leaf, token leaf ∈ row → leaf.kind.isCloser = false

variable {left right : List Tree}

theorem noCloser_nil : NoCloser [] := fun _ hmem => absurd hmem List.not_mem_nil

theorem NoCloser.append (hleft : NoCloser left) (hright : NoCloser right) : NoCloser (left ++ right) := fun leaf hmem =>
  (List.mem_append.mp hmem).elim (hleft leaf) (hright leaf)

theorem NoCloser.subset (hright : NoCloser right) (hsubset : left ⊆ right) : NoCloser left := fun leaf hmem =>
  hright leaf (hsubset hmem)

theorem NoCloser.reverse (hright : NoCloser right) : NoCloser right.reverse := fun leaf hmem =>
  hright leaf (List.mem_reverse.mp hmem)

theorem NoCloser.cons_node (hright : NoCloser right) (kind : Kind) (children : List Tree) :
    NoCloser (node kind children :: right) := by
  intro leaf hmem
  obtain heq | hmem := List.mem_cons.mp hmem
  · cases heq
  · exact hright leaf hmem

theorem noCloser_node (kind : Kind) (children : List Tree) : NoCloser [node kind children] :=
  noCloser_nil.cons_node kind children

/-- Blanks and comments are no closers. -/
theorem noCloser_of_trivia {tokens : List Token} (htrivia : ∀ token ∈ tokens, token.kind.isTrivia = true) :
    NoCloser (tokens.map State.leafOf) := by
  intro leaf hmem
  obtain ⟨token, htoken, heq⟩ := List.mem_map.mp hmem
  obtain rfl : (⟨token.kind, token.text⟩ : Leaf) = leaf := Tree.token.inj heq
  have hother := Kind.isDelimiter_eq_false Kind.isTrivia (htrivia token htoken) rfl
  exact (Bool.or_eq_false_iff.mp hother).2

end Tree

namespace Opener

open Squirrel.Tree

variable {opener : Opener} {start : Nat} {left right row : List Tree}

/-- The opener is a token of a row that starts at an offset, and no closer stands behind it there. -/
def StandsOpen (opener : Opener) (start : Nat) (row : List Tree) : Prop :=
  ∃ left leaf right, row = left ++ token leaf :: right ∧ leaf.kind = opener.kind ∧ opener.kind.closer?.isSome = true ∧
    opener.span = ⟨start + widthOf left, start + widthOf left + leaf.text.utf8ByteSize⟩ ∧ NoCloser right

/-- The opener stands open in some node of a row. -/
def OpenUnder (opener : Opener) (start : Nat) (row : List Tree) : Prop :=
  ¬EachOf (fun start tree => ¬opener.StandsOpen start tree.children) start row

/-- The opener stands open in a row or in some node of it. -/
def OpenIn (opener : Opener) (start : Nat) (row : List Tree) : Prop :=
  opener.StandsOpen start row ∨ opener.OpenUnder start row

theorem StandsOpen.append (hopen : opener.StandsOpen start left) (hright : NoCloser right) :
    opener.StandsOpen start (left ++ right) := by
  obtain ⟨before, leaf, behind, rfl, hkind, hcloser, hspan, hbehind⟩ := hopen
  exact ⟨before, leaf, behind ++ right, by rw [List.append_assoc, List.cons_append], hkind, hcloser, hspan,
    hbehind.append hright⟩

theorem StandsOpen.of_append (hopen : opener.StandsOpen start (left ++ right)) :
    opener.StandsOpen start left ∨ opener.StandsOpen (start + widthOf left) right := by
  obtain ⟨before, leaf, behind, hsplit, hkind, hcloser, hspan, hbehind⟩ := hopen
  obtain ⟨shared, rfl, hshared⟩ | ⟨shared, rfl, hshared⟩ := List.append_eq_append_iff.mp hsplit
  · refine .inr ⟨shared, leaf, behind, hshared, hkind, hcloser, ?_, hbehind⟩
    rw [hspan, widthOf_append, ← Nat.add_assoc]
  · cases shared with
    | nil =>
      refine .inr ⟨[], leaf, behind, hshared.symm, hkind, hcloser, ?_, hbehind⟩
      rw [hspan, List.append_nil, widthOf, Nat.add_zero]
    | cons first shared =>
      obtain ⟨rfl, rfl⟩ := List.cons_eq_cons.mp hshared
      exact .inl ⟨before, leaf, shared, rfl, hkind, hcloser, hspan, hbehind.subset (List.subset_append_left _ _)⟩

theorem openUnder_append : opener.OpenUnder start (left ++ right) ↔
    opener.OpenUnder start left ∨ opener.OpenUnder (start + widthOf left) right := by
  rw [OpenUnder, eachOf_append, Classical.not_and_iff_not_or_not]
  rfl

/-- What is open in the children of a node is open under it. -/
theorem openUnder_node {kind : Kind} : opener.OpenUnder start [node kind row] ↔ opener.OpenIn start row := by
  rw [OpenUnder, EachOf, EachFrom, EachOf, and_true, Classical.not_and_iff_not_or_not, Classical.not_not]
  rfl

theorem OpenIn.append (hopen : opener.OpenIn start left) (hright : NoCloser right) :
    opener.OpenIn start (left ++ right) :=
  hopen.imp (·.append hright) fun hunder => openUnder_append.mpr (.inl hunder)

theorem OpenIn.of_append (hopen : opener.OpenIn start (left ++ right)) :
    opener.OpenIn start left ∨ opener.OpenIn (start + widthOf left) right := by
  obtain hstands | hunder := hopen
  · exact hstands.of_append.imp .inl .inl
  · exact (openUnder_append.mp hunder).imp .inr .inr

/-- A node is closed around the end of a row. -/
theorem OpenIn.wrap {kind : Kind} (hopen : opener.OpenIn (start + widthOf left) row) :
    opener.OpenIn start (left ++ [node kind row]) :=
  .inr (openUnder_append.mpr (.inr (openUnder_node.mpr hopen)))

/-- An opener that is open somewhere in a tree stands open in one of its nodes. -/
theorem OpenUnder.exists_place {tree : Tree} (hopen : opener.OpenUnder 0 [tree]) :
    ∃ place ∈ tree.places, opener.StandsOpen place.start place.tree.children := by
  refine Classical.byContradiction fun hnone => hopen ?_
  exact ⟨EachFrom.of_placesFrom none fun place hmem hstands => hnone ⟨place, hmem, hstands⟩, trivial⟩

end Opener

end Squirrel
