import Squirrel.Proofs.Grammar.Primitive

/-!
# Trees up to trivia and parentheses

Two trees say the same if they differ in blanks and comments only, or also in the parentheses around expressions. Both are
made equations here, by forms of a tree from which these are gone.
-/

namespace Squirrel.Tree

/-! ### Without trivia -/

mutual

/-- A tree without the blanks and comments in it. -/
def trim : Tree → Tree
  | token leaf => token leaf
  | node kind children => node kind (trimAll children)

def trimAll : List Tree → List Tree
  | [] => []
  | tree :: rest => if tree.isTrivia then trimAll rest else trim tree :: trimAll rest

end

@[simp] theorem trim_token (leaf : Leaf) : (token leaf).trim = token leaf := by rw [trim]

@[simp] theorem trim_node (kind : Kind) (children : List Tree) : (node kind children).trim = node kind (trimAll children) := by
  rw [trim]

@[simp] theorem isTrivia_trim (tree : Tree) : tree.trim.isTrivia = tree.isTrivia := by
  cases tree with
  | token => simp
  | node => simp [isTrivia]

theorem trimAll_eq (trees : List Tree) : trimAll trees = (items trees).map trim := by
  induction trees with
  | nil => simp [trimAll]
  | cons tree rest ih =>
    cases htrivia : tree.isTrivia with
    | true => simpa [trimAll, items, htrivia] using ih
    | false => simpa [trimAll, items, htrivia] using ih

theorem BuiltOf.trim_eq {tree : Tree} {kind : Kind} {row : List Tree} (hbuilt : tree.BuiltOf kind row) :
    tree.trim = node kind (row.map trim) := by
  obtain ⟨children, rfl, rfl⟩ := hbuilt
  rw [trim_node, trimAll_eq]

/-- What a tree without its trivia is built of. -/
theorem exists_builtOf {tree : Tree} {kind : Kind} {parts : List Tree} (htrim : tree.trim = node kind parts) :
    ∃ row, tree.BuiltOf kind row ∧ row.map trim = parts := by
  cases tree with
  | token => simp at htrim
  | node found children =>
    rw [trim_node, trimAll_eq] at htrim
    obtain ⟨rfl, hparts⟩ := node.inj htrim
    exact ⟨items children, ⟨children, rfl, rfl⟩, hparts⟩

/-! ### Without parentheses -/

/-- What is left of an expression in parentheses. -/
def unwrap (kind : Kind) (parts : List Tree) : Tree :=
  match kind, parts with
  | .parenthesizedExpression, [_, inner, _] => inner
  | kind, parts => node kind parts

mutual

/-- A tree without trivia and without the nodes of parentheses around expressions. -/
def bare : Tree → Tree
  | token leaf => token leaf
  | node kind children => unwrap kind (bareAll children)

def bareAll : List Tree → List Tree
  | [] => []
  | tree :: rest => if tree.isTrivia then bareAll rest else bare tree :: bareAll rest

end

@[simp] theorem bare_token (leaf : Leaf) : (token leaf).bare = token leaf := by rw [bare]

theorem bare_node (kind : Kind) (children : List Tree) : (node kind children).bare = unwrap kind (bareAll children) := by
  rw [bare]

theorem bareAll_eq (trees : List Tree) : bareAll trees = (items trees).map bare := by
  induction trees with
  | nil => simp [bareAll]
  | cons tree rest ih =>
    cases htrivia : tree.isTrivia with
    | true => simpa [bareAll, items, htrivia] using ih
    | false => simpa [bareAll, items, htrivia] using ih

mutual

theorem bare_trim (tree : Tree) : tree.trim.bare = tree.bare := by
  cases tree with
  | token => simp
  | node kind children => rw [trim_node, bare_node, bare_node, bareAll_trimAll children]

theorem bareAll_trimAll (trees : List Tree) : bareAll (trimAll trees) = bareAll trees := by
  cases trees with
  | nil => simp [trimAll]
  | cons tree rest =>
    rw [trimAll, bareAll]
    cases htrivia : tree.isTrivia with
    | true => simpa using bareAll_trimAll rest
    | false => simp [bareAll, htrivia, bare_trim tree, bareAll_trimAll rest]

end

end Squirrel.Tree
