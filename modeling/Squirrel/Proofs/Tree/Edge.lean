import Squirrel.Grammar.Operator
import Squirrel.Proofs.Grammar.Throughout
import Squirrel.Proofs.Parse.Lossless

/-!
# Where nodes start and end

Blanks and comments stand between the words of a node and, at best, never at its edges. Then the place of a node is that
of its words. Two sorts of nodes may start with blanks: one that an operator opens around an operand which is placed
already, together with the blanks before it, and one that is opened right behind a word, before the blanks after that
word have been passed.
-/

namespace Squirrel

open Squirrel.Tree

/-- Whether a node of the second kind is opened right behind a word of the first, without a look at what comes next. -/
def Kind.leadsTo : Kind → Kind → Bool
  | .atSign, .parameters | .kwFunction, .parameters | .kwConstructor, .parameters | .kwRawcall, .callArgs => true
  | _, _ => false

namespace Tree

def StartsWithWord (tree : Tree) : Prop := ∃ leaf ∈ tree.leaves.head?, leaf.kind.isTrivia = false

def EndsWithWord (tree : Tree) : Prop := ∃ leaf ∈ tree.leaves.getLast?, leaf.kind.isTrivia = false

/-- An accessor or an operator behind its left operand. -/
def TakesIn (tree : Tree) : Prop := (∃ found : Suffix, tree.kind = found.node) ∧ tree.startsWithNode = true

/-- A node that ends with a word, and that starts with one unless it is one of the two sorts that may not. The tree before
it in its parent decides about the second sort. -/
def Exact (before? : Option Tree) (tree : Tree) : Prop :=
  tree.EndsWithWord ∧
    (tree.StartsWithWord ∨ tree.TakesIn ∨
      ∃ leaf, before? = some (token leaf) ∧ leaf.kind.leadsTo tree.kind = true)

/-- All nodes in a row of siblings are exact. The last sibling comes first. -/
def ExactRow : List Tree → Prop
  | [] => True
  | tree :: older => (tree.isNode = true → tree.Exact older.head?) ∧ ExactRow older

/-- The nodes under a tree are exact, and so are those under them. -/
def ExactWithin (tree : Tree) : Prop := tree.Throughout fun parent => ExactRow parent.children.reverse

variable {tree : Tree}

/-! ### Rows of siblings -/

/-- What does not depend on a tree before it may have any. -/
theorem Exact.behind (hexact : tree.Exact none) (before? : Option Tree) : tree.Exact before? := by
  obtain ⟨hends, hstarts | htakes | ⟨leaf, hnone, -⟩⟩ := hexact
  · exact ⟨hends, .inl hstarts⟩
  · exact ⟨hends, .inr (.inl htakes)⟩
  · exact nomatch hnone

theorem ExactRow.token {older : List Tree} (hrow : ExactRow older) (leaf : Leaf) : ExactRow (token leaf :: older) :=
  ⟨nofun, hrow⟩

theorem ExactRow.append {newer older : List Tree} (hnewer : ExactRow newer) (holder : ExactRow older) :
    ExactRow (newer ++ older) := by
  induction newer with
  | nil => exact holder
  | cons tree rest ih =>
    refine ⟨fun hnode => ?_, ih hnewer.2⟩
    have hexact := hnewer.1 hnode
    cases rest with
    | nil => exact hexact.behind _
    | cons before others => exact hexact

theorem exactRow_of_tokens {trees : List Tree} (htokens : ∀ tree ∈ trees, tree.isNode = false) : ExactRow trees := by
  induction trees with
  | nil => trivial
  | cons tree rest ih =>
    obtain ⟨htree, hrest⟩ := List.forall_mem_cons.mp htokens
    exact ⟨fun hnode => absurd hnode (Bool.eq_false_iff.mp htree), ih hrest⟩

theorem ExactRow.exact {after before : List Tree} (hrow : ExactRow (after ++ tree :: before))
    (hnode : tree.isNode = true) : tree.Exact before.head? := by
  induction after with
  | nil => exact hrow.1 hnode
  | cons other rest ih => exact ih hrow.2

/-! ### Edges of nodes -/

theorem EndsWithWord.leaves_ne_nil (hends : tree.EndsWithWord) : tree.leaves ≠ [] := by
  intro hnil
  obtain ⟨leaf, hlast, -⟩ := hends
  rw [hnil] at hlast
  exact nomatch hlast

theorem EndsWithWord.isTrivia (hends : tree.EndsWithWord) : tree.isTrivia = false := by
  cases tree with
  | node => rfl
  | token leaf =>
    obtain ⟨found, hlast, hword⟩ := hends
    obtain rfl : leaf = found := by simpa [leaves] using hlast
    exact hword

theorem endsWithWord_leafOf {token : Token} (hword : token.kind.isTrivia = false) : (State.leafOf token).EndsWithWord :=
  ⟨_, rfl, hword⟩

theorem leaves_node (kind : Kind) (tree : Tree) (older : List Tree) :
    (node kind (tree :: older).reverse).leaves = leavesOf older.reverse ++ tree.leaves := by
  rw [List.reverse_cons, leaves, leavesOf_append, leavesOf, leavesOf, List.append_nil]

/-- A node ends where the last tree in it ends. -/
theorem EndsWithWord.node (hends : tree.EndsWithWord) (kind : Kind) (older : List Tree) :
    (node kind (tree :: older).reverse).EndsWithWord := by
  obtain ⟨leaf, hlast, hword⟩ := hends
  refine ⟨leaf, ?_, hword⟩
  rw [leaves_node, List.getLast?_append, Option.mem_def.mp hlast]
  rfl

/-- A node around an operand, with trivia before it. -/
theorem takesIn_node (found : Suffix) (more : List Tree) {trivia : List Tree} (hnode : tree.isNode = true)
    (htrivia : ∀ tree ∈ trivia, tree.isTrivia = true) : (node found.node (more ++ tree :: trivia).reverse).TakesIn := by
  have hword : tree.isTrivia = false := by
    cases tree with
    | token => exact nomatch hnode
    | node => rfl
  refine ⟨⟨found, rfl⟩, ?_⟩
  have hfirst : (more ++ tree :: trivia).reverse.find? (!·.isTrivia) = some tree := by
    rw [List.reverse_append, List.reverse_cons, List.append_assoc, List.find?_append]
    have hnone : trivia.reverse.find? (!·.isTrivia) = none :=
      List.find?_eq_none.mpr fun other hmem => by simp [htrivia other (List.mem_reverse.mp hmem)]
    rw [hnone, Option.none_or, List.singleton_append, List.find?_cons_of_pos (by simp [hword])]
  rw [startsWithNode, children, hfirst, Option.any_some, hnode]

end Tree

end Squirrel
