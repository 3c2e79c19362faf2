import Squirrel.Tree

/-!
# The children of a node

A child is a tree together with its place in its parent, so two children with the same content stay apart. The typed
views pick children and leaves of one node by the functions of this module only.
-/

namespace Squirrel

structure Child (parent : Tree) where
  index : Nat
  tree : Tree
  isAt : parent.children[index]? = some tree

namespace Child

variable {parent : Tree}

def kind (child : Child parent) : Kind := child.tree.kind

theorem mem_children (child : Child parent) : child.tree ∈ parent.children := List.mem_of_getElem? child.isAt

theorem sizeOf_lt (child : Child parent) : sizeOf child.tree < sizeOf parent :=
  Tree.sizeOf_lt_of_mem_children child.mem_children

end Child

namespace Tree

variable (tree : Tree)

/-- Everything right under a node, in order. -/
def parts : List (Child tree) :=
  tree.children.zipIdx.attach.map fun ⟨(child, index), hmem⟩ => ⟨index, child, List.mem_zipIdx_iff_getElem?.mp hmem⟩

/-! ### Nodes -/

def nodes : List (Child tree) := tree.parts.filter (·.tree.isNode)

def nodesOf (kind : Kind) : List (Child tree) := tree.nodes.filter (·.kind == kind)

def nodeOf? (kind : Kind) : Option (Child tree) := tree.nodes.find? (·.kind == kind)

def expressions : List (Child tree) := tree.nodes.filter (·.kind.isExpression)

def statements : List (Child tree) := tree.nodes.filter (·.kind.isStatement)

def expression? (place : Nat) : Option (Child tree) := tree.expressions[place]?

def statement? : Option (Child tree) := tree.statements.head?

/-- The statement after the parenthesis that closes a header. -/
def statementAfterHeader? : Option (Child tree) :=
  (tree.parts.dropWhile (·.kind != .parenClose)).find? fun part => part.tree.isNode && part.kind.isStatement

/-! ### Tokens -/

/-- The tokens right under a node. -/
def tokens : List Leaf := tree.children.filterMap leaf?

def tokensOf (kind : Kind) : List Leaf := tree.tokens.filter (·.kind == kind)

def tokenOf? (kind : Kind) : Option Leaf := tree.tokens.find? (·.kind == kind)

def hasToken (kind : Kind) : Bool := (tree.tokenOf? kind).isSome

def firstToken? : Option Leaf := tree.tokens.find? (!·.kind.isTrivia)

end Tree

end Squirrel
