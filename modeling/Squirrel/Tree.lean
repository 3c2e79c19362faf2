import Squirrel.Kind
import Squirrel.Span

/-!
# Syntax trees

A tree keeps every token of its source, blanks and comments included, as leaves under the nodes that the grammar builds.
Leaves hold their text and no position, so equal pieces of source give equal trees; positions come from the widths of
what stands before.
-/

namespace Squirrel

/-- A token of a tree. -/
structure Leaf where
  kind : Kind
  text : String
  deriving DecidableEq, Inhabited

/-- The text of a token, and nothing for a token that is missing. -/
def Leaf.textOf (leaf? : Option Leaf) : String := (leaf?.map Leaf.text).getD ""

inductive Tree where
  | token (leaf : Leaf)
  | node (kind : Kind) (children : List Tree)
  deriving Inhabited

namespace Tree

def kind : Tree → Kind
  | token leaf => leaf.kind
  | node kind _ => kind

def children : Tree → List Tree
  | token _ => []
  | node _ children => children

def isNode : Tree → Bool
  | token _ => false
  | node .. => true

def leaf? : Tree → Option Leaf
  | token leaf => some leaf
  | node .. => none

def isTrivia : Tree → Bool
  | token leaf => leaf.kind.isTrivia
  | node .. => false

theorem sizeOf_lt_of_mem_children {tree child : Tree} (hmem : child ∈ tree.children) : sizeOf child < sizeOf tree := by
  cases tree with
  | token => simp [children] at hmem
  | node kind inner =>
    have hlt : sizeOf child < sizeOf inner := List.sizeOf_lt_of_mem hmem
    simp
    omega

/-! ### Leaves and text -/

mutual

/-- The tokens of a tree from left to right. -/
def leaves : Tree → List Leaf
  | token leaf => [leaf]
  | node _ children => leavesOf children

def leavesOf : List Tree → List Leaf
  | [] => []
  | tree :: rest => leaves tree ++ leavesOf rest

end

def text (tree : Tree) : String := String.join (tree.leaves.map Leaf.text)

mutual

/-- How many bytes of source a tree covers. -/
def width : Tree → Nat
  | token leaf => leaf.text.utf8ByteSize
  | node _ children => widthOf children

def widthOf : List Tree → Nat
  | [] => 0
  | tree :: rest => width tree + widthOf rest

end

/-! ### Size and depth -/

mutual

/-- How many nodes a tree has; its tokens do not count. -/
def nodeCount : Tree → Nat
  | token _ => 0
  | node _ children => nodeCountOf children + 1

def nodeCountOf : List Tree → Nat
  | [] => 0
  | tree :: rest => nodeCount tree + nodeCountOf rest

end

mutual

/-- The largest number of nodes on a path down from the root, the root included. -/
def depth : Tree → Nat
  | token _ => 0
  | node _ children => depthOf children + 1

def depthOf : List Tree → Nat
  | [] => 0
  | tree :: rest => max (depth tree) (depthOf rest)

end

end Tree

end Squirrel
