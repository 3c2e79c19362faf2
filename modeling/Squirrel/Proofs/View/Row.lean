import Squirrel.Proofs.Grammar.Primitive
import Squirrel.View.Expression
import Squirrel.View.Statement

/-!
# Views of a row of parts

The typed views look at the children of a node one after the other and pass over blanks and comments, so what they find
depends on the other children only. Here each accessor is read off the row of these parts.
-/

namespace Squirrel.Tree

def isExpression (tree : Tree) : Bool := tree.isNode && tree.kind.isExpression

def isStatement (tree : Tree) : Bool := tree.isNode && tree.kind.isStatement

def isNodeOf (kind : Kind) (tree : Tree) : Bool := tree.isNode && tree.kind == kind

/-- The tokens of a row. -/
def leavesIn (row : List Tree) : List Leaf := row.filterMap leaf?

/-! ### Lists and tests -/

section

variable {α : Type} {keep test : α → Bool}

theorem find?_filter_of_imp (himp : ∀ a, test a = true → keep a = true) (list : List α) :
    (list.filter keep).find? test = list.find? test := by
  rw [List.find?_filter]
  congr 1
  funext a
  cases htest : test a with
  | true => simp [himp a htest]
  | false => simp

theorem filter_filter_of_imp (himp : ∀ a, test a = true → keep a = true) (list : List α) :
    (list.filter keep).filter test = list.filter test := by
  rw [List.filter_filter]
  congr 1
  funext a
  cases htest : test a with
  | true => simp [himp a htest]
  | false => simp

/-- Going on while a test holds passes over what is left out, if that passes the test. -/
theorem filter_takeWhile_filter {before : α → Bool} (hpass : ∀ a, keep a = false → before a = true) (list : List α) :
    (list.filter keep).takeWhile before = (list.takeWhile before).filter keep := by
  induction list with
  | nil => rfl
  | cons a rest ih =>
    cases hkeep : keep a with
    | true =>
      rw [List.filter_cons_of_pos hkeep, List.takeWhile_cons, List.takeWhile_cons]
      cases before a with
      | true => simp [hkeep, ih]
      | false => rfl
    | false =>
      rw [List.filter_cons_of_neg (by simp [hkeep]), List.takeWhile_cons, hpass a hkeep, ih]
      simp [hkeep]

theorem filter_dropWhile_filter {before : α → Bool} (hpass : ∀ a, keep a = false → before a = true) (list : List α) :
    (list.filter keep).dropWhile before = (list.dropWhile before).filter keep := by
  induction list with
  | nil => rfl
  | cons a rest ih =>
    cases hkeep : keep a with
    | true =>
      rw [List.filter_cons_of_pos hkeep, List.dropWhile_cons, List.dropWhile_cons]
      cases before a with
      | true => simp [ih]
      | false => simp [hkeep]
    | false =>
      rw [List.filter_cons_of_neg (by simp [hkeep]), List.dropWhile_cons, hpass a hkeep, ih]
      simp

end

/-! ### Children and parts -/

theorem map_tree_parts (tree : Tree) : tree.parts.map Child.tree = tree.children := by
  have hpairs : tree.parts.map Child.tree = (tree.children.zipIdx.attach.map Subtype.val).map Prod.fst := by
    simp only [parts, List.map_map]
    rfl
  rw [hpairs, List.attach_map_subtype_val, List.zipIdx_map_fst]

theorem map_tree_filter (tree : Tree) (test : Tree → Bool) :
    (tree.parts.filter (test ·.tree)).map Child.tree = tree.children.filter test := by
  rw [← map_tree_parts, List.filter_map]
  rfl

theorem isTrivia_of_isNode {part : Tree} (hnode : part.isNode = true) : part.isTrivia = false := by
  cases part with
  | token => simp [isNode] at hnode
  | node => rfl

@[simp] theorem leaf?_token (leaf : Leaf) : (token leaf).leaf? = some leaf := rfl

theorem leaf?_of_isNode {part : Tree} (hnode : part.isNode = true) : part.leaf? = none := by
  cases part with
  | token => simp [isNode] at hnode
  | node => rfl

variable {tree : Tree} {kind : Kind} {row : List Tree} (hbuilt : tree.BuiltOf kind row)

namespace BuiltOf

include hbuilt

theorem kind_eq : tree.kind = kind := by
  obtain ⟨children, rfl, -⟩ := hbuilt
  rfl

theorem isNode : tree.isNode = true := by
  obtain ⟨children, rfl, -⟩ := hbuilt
  rfl

theorem filter_children : tree.children.filter (!·.isTrivia) = row := by
  obtain ⟨children, rfl, rfl⟩ := hbuilt
  rfl

/-- A test that only nodes and words pass finds the same among the children of a node as in its row. -/
theorem filter_eq (test : Tree → Bool) (htest : ∀ part : Tree, test part = true → part.isTrivia = false) :
    tree.children.filter test = row.filter test := by
  rw [← hbuilt.filter_children, filter_filter_of_imp]
  intro part hpart
  simp [htest part hpart]

/-! ### Nodes -/

theorem map_filter_nodes (test : Kind → Bool) :
    (tree.nodes.filter (test ·.kind)).map Child.tree = row.filter fun part => part.isNode && test part.kind := by
  have hrow := hbuilt.filter_eq (fun part => part.isNode && test part.kind) fun part hpart =>
    isTrivia_of_isNode (Bool.and_eq_true_iff.mp hpart).1
  rw [← hrow, ← map_tree_filter, nodes, List.filter_filter]
  congr 2
  funext child
  exact Bool.and_comm ..

theorem map_nodes : tree.nodes.map Child.tree = row.filter Tree.isNode := by
  rw [← hbuilt.filter_eq Tree.isNode fun part => isTrivia_of_isNode, ← map_tree_filter]
  rfl

theorem map_expression? (place : Nat) : (tree.expression? place).map Child.tree = (row.filter isExpression)[place]? := by
  rw [expression?, ← List.getElem?_map, expressions, hbuilt.map_filter_nodes]
  rfl

theorem map_statement? : tree.statement?.map Child.tree = row.find? isStatement := by
  rw [statement?, ← List.head?_map, statements, hbuilt.map_filter_nodes, List.head?_filter]
  rfl

theorem map_nodesOf (found : Kind) : (tree.nodesOf found).map Child.tree = row.filter (isNodeOf found) :=
  hbuilt.map_filter_nodes (· == found)

theorem map_nodeOf? (found : Kind) : (tree.nodeOf? found).map Child.tree = row.find? (isNodeOf found) := by
  rw [nodeOf?, ← List.head?_filter, ← List.head?_map, hbuilt.map_filter_nodes (· == found), List.head?_filter]
  rfl

/-- The statement behind the first token of a kind. -/
theorem map_statementAfterHeader? : tree.statementAfterHeader?.map Child.tree
    = (row.dropWhile (·.kind != .parenClose)).find? isStatement := by
  have hparts : (tree.parts.dropWhile (·.kind != .parenClose)).map Child.tree
      = tree.children.dropWhile (·.kind != .parenClose) := by
    rw [← map_tree_parts, List.dropWhile_map]
    rfl
  have hpass : ∀ part : Tree, (!part.isTrivia) = false → (part.kind != .parenClose) = true := by
    intro part hpart
    cases part with
    | token leaf =>
      have htrivia : leaf.kind.isTrivia = true := by simpa [Tree.isTrivia] using hpart
      refine bne_iff_ne.mpr fun hkind => ?_
      rw [show leaf.kind = .parenClose from hkind] at htrivia
      cases htrivia
    | node => cases hpart
  rw [statementAfterHeader?, ← hbuilt.filter_children, filter_dropWhile_filter hpass, find?_filter_of_imp, ← hparts,
    List.find?_map]
  · rfl
  · intro part hpart
    simp [isTrivia_of_isNode (Bool.and_eq_true_iff.mp hpart).1]

/-! ### Tokens -/

theorem filter_tokens : tree.tokens.filter (!·.kind.isTrivia) = leavesIn row := by
  rw [← hbuilt.filter_children, tokens, leavesIn, List.filter_filterMap, List.filterMap_filter]
  congr 1
  funext part
  cases part with
  | token leaf =>
    rw [leaf?, Option.filter_some]
    rfl
  | node => rfl

theorem find?_tokens (test : Leaf → Bool) (htest : ∀ leaf : Leaf, test leaf = true → leaf.kind.isTrivia = false) :
    tree.tokens.find? test = (leavesIn row).find? test := by
  rw [← hbuilt.filter_tokens, find?_filter_of_imp]
  intro leaf hleaf
  simp [htest leaf hleaf]

theorem tokenOf?_eq {found : Kind} (hword : found.isTrivia = false) :
    tree.tokenOf? found = (leavesIn row).find? (·.kind == found) :=
  hbuilt.find?_tokens (·.kind == found) fun _ hkind => beq_iff_eq.mp hkind ▸ hword

theorem hasToken_eq {found : Kind} (hword : found.isTrivia = false) :
    tree.hasToken found = (leavesIn row).any (·.kind == found) := by
  rw [hasToken, hbuilt.tokenOf?_eq hword, Bool.eq_iff_iff, List.find?_isSome, List.any_eq_true]

theorem operatorIn?_eq {accepts : Kind → Bool} (hword : ∀ found, accepts found = true → found.isTrivia = false) :
    tree.operatorIn? accepts = (leavesIn row).find? (accepts ·.kind) :=
  hbuilt.find?_tokens (accepts ·.kind) fun _ hkind => hword _ hkind

theorem firstToken?_eq : tree.firstToken? = (leavesIn row).head? := by
  rw [firstToken?, ← List.head?_filter, hbuilt.filter_tokens]

theorem tokensOf_eq {found : Kind} (hword : found.isTrivia = false) :
    tree.tokensOf found = (leavesIn row).filter (·.kind == found) := by
  rw [tokensOf, ← hbuilt.filter_tokens, filter_filter_of_imp]
  intro leaf hkind
  rw [beq_iff_eq.mp hkind, hword]
  rfl

/-- Whether the first part of a node is a node itself. -/
theorem startsWithNode_eq : tree.startsWithNode = row.head?.any Tree.isNode := by
  rw [startsWithNode, ← List.head?_filter, hbuilt.filter_children]

theorem classPath_eq : tree.classPath = ((leavesIn row).takeWhile fun leaf =>
    leaf.kind != .kwExtends && leaf.kind != .braceOpen).filter (·.kind == .id) := by
  rw [classPath, ← hbuilt.filter_tokens, filter_takeWhile_filter, filter_filter_of_imp]
  · intro leaf hkind
    rw [beq_iff_eq.mp hkind]
    rfl
  · intro leaf hleaf
    cases hkind : leaf.kind <;> simp [hkind, Kind.isTrivia] at hleaf <;> rfl

theorem classBase?_eq :
    tree.classBase? = ((leavesIn row).dropWhile (·.kind != .kwExtends)).find? (·.kind == .id) := by
  rw [classBase?, ← hbuilt.filter_tokens, filter_dropWhile_filter, find?_filter_of_imp]
  · intro leaf hkind
    rw [beq_iff_eq.mp hkind]
    rfl
  · intro leaf hleaf
    cases hkind : leaf.kind <;> simp [hkind, Kind.isTrivia] at hleaf <;> rfl

/-! ### Parts that are there -/

theorem expression?_isSome {place : Nat} (hplace : place < (row.filter isExpression).length) :
    (tree.expression? place).isSome := by
  rw [← Option.isSome_map, hbuilt.map_expression?, List.getElem?_eq_getElem hplace]
  rfl

theorem statement?_isSome {part : Tree} (hmem : part ∈ row) (hpart : part.isStatement = true) :
    tree.statement?.isSome := by
  rw [← Option.isSome_map, hbuilt.map_statement?, List.find?_isSome]
  exact ⟨part, hmem, hpart⟩

theorem nodeOf?_isSome_eq (found : Kind) : (tree.nodeOf? found).isSome = row.any (isNodeOf found) := by
  rw [← Option.isSome_map, hbuilt.map_nodeOf?, Bool.eq_iff_iff, List.find?_isSome, List.any_eq_true]

theorem nodeOf?_isSome {found : Kind} {part : Tree} (hmem : part ∈ row) (hpart : isNodeOf found part = true) :
    (tree.nodeOf? found).isSome := by
  rw [hbuilt.nodeOf?_isSome_eq, List.any_eq_true]
  exact ⟨part, hmem, hpart⟩

theorem name_isSome {leaf : Leaf} (hmem : token leaf ∈ row) (hname : leaf.kind = .id) : (tree.tokenOf? .id).isSome := by
  rw [hbuilt.tokenOf?_eq rfl, List.find?_isSome]
  exact ⟨leaf, List.mem_filterMap.mpr ⟨_, hmem, rfl⟩, beq_iff_eq.mpr hname⟩

theorem operatorIn?_isSome {accepts : Kind → Bool} (hword : ∀ found, accepts found = true → found.isTrivia = false)
    {leaf : Leaf} (hmem : token leaf ∈ row) (hleaf : accepts leaf.kind = true) : (tree.operatorIn? accepts).isSome := by
  rw [hbuilt.operatorIn?_eq hword, List.find?_isSome]
  exact ⟨leaf, List.mem_filterMap.mpr ⟨_, hmem, rfl⟩, hleaf⟩

/-- A statement is found behind the parenthesis that closes a header. -/
theorem statementAfterHeader?_isSome {before after : List Tree} {close : Leaf} {part : Tree}
    (hrow : row = before ++ token close :: after) (hclose : close.kind = .parenClose)
    (hbefore : ∀ other ∈ before, other.kind ≠ .parenClose) (hmem : part ∈ after) (hpart : part.isStatement = true) :
    tree.statementAfterHeader?.isSome := by
  have hdrop : row.dropWhile (·.kind != .parenClose) = token close :: after := by
    rw [hrow, List.dropWhile_append_of_pos (by simpa using hbefore), List.dropWhile_cons]
    simp [Tree.kind, hclose]
  rw [← Option.isSome_map, hbuilt.map_statementAfterHeader?, hdrop, List.find?_isSome]
  exact ⟨part, List.mem_cons_of_mem _ hmem, hpart⟩

end BuiltOf

end Squirrel.Tree
