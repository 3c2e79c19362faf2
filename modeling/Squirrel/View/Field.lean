import Squirrel.View.Statement

/-!
# Fields

The grammar gives names to some of the places under a node. The field of a node says which of them it stands in.
-/

namespace Squirrel

inductive Field where
  | initial | condition | increment | consequence | alternative | case | collection | left | right | operand | object
  | index | function
  deriving DecidableEq

namespace Field

def name : Field → String
  | initial => "initial"
  | condition => "condition"
  | increment => "increment"
  | consequence => "consequence"
  | alternative => "alternative"
  | case => "case"
  | collection => "collection"
  | left => "left"
  | right => "right"
  | operand => "operand"
  | object => "object"
  | index => "index"
  | function => "function"

def ofClause : ForClause → Field
  | .initial => initial
  | .condition => condition
  | .increment => increment

end Field

namespace Tree

/-- The place of a child among the expressions right under its parent. -/
def expressionPlace? (parent : Tree) (child : Nat) : Option Nat :=
  parent.expressions.findIdx? (·.index == child)

/-- The field of a child that is an expression, where the expressions of its parent stand in these fields. -/
def fieldAmong? (parent : Tree) (child : Nat) (fields : List Field) : Option Field :=
  (parent.expressionPlace? child).bind (fields[·]?)

/-- The field of a child that is an expression, where all expressions of its parent stand in the same field. -/
def fieldOfAny? (parent : Tree) (child : Nat) (field : Field) : Option Field :=
  (parent.expressionPlace? child).map fun _ => field

/-- The kind of a child that is a node. -/
def nodeKindAt? (parent : Tree) (child : Nat) : Option Kind :=
  parent.children[child]?.bind fun tree => if tree.isNode then some tree.kind else none

/-- The field that the child at an index stands in. -/
def fieldAt? (parent : Tree) (child : Nat) : Option Field :=
  match parent.kind with
  | .forStatement =>
    (parent.forClauses.find? fun (_, part) => part.index == child).map fun (clause, _) => Field.ofClause clause
  | .ifStatement =>
    let kind? := parent.nodeKindAt? child
    if kind? = some .parenthesizedExpression then some .condition
    else if kind?.any Kind.isStatement then some .consequence
    else none
  | .elseStatement => if (parent.nodeKindAt? child).any Kind.isStatement then some .alternative else none
  | .caseStatement => parent.fieldAmong? child [.case]
  | .foreachStatement => parent.fieldOfAny? child .collection
  | .attributeEntry => parent.fieldOfAny? child .right
  | .unaryExpression => parent.fieldOfAny? child .operand
  | .binaryExpression | .assignmentExpression | .updateExpression => parent.fieldAmong? child [.left, .right]
  | .ternaryExpression => parent.fieldAmong? child [.condition, .consequence, .alternative]
  | .indexExpression => parent.fieldAmong? child [.object, .index]
  | .callExpression => parent.fieldOfAny? child .function
  | _ => none

end Tree

/-- A node of a tree with the offset at which it starts and the field it stands in. -/
structure Place where
  tree : Tree
  start : Nat
  field? : Option Field

namespace Tree

mutual

/-- The nodes of a tree that starts at an offset and stands in a field, each before those under it. -/
def placesFrom (start : Nat) (field? : Option Field) : Tree → List Place
  | token _ => []
  | node kind children => ⟨node kind children, start, field?⟩ :: placesUnder (node kind children) 0 start children

def placesUnder (parent : Tree) (index start : Nat) : List Tree → List Place
  | [] => []
  | tree :: rest =>
    placesFrom start (parent.fieldAt? index) tree ++ placesUnder parent (index + 1) (start + tree.width) rest

end

/-- All nodes of a whole tree. -/
def places (tree : Tree) : List Place := tree.placesFrom 0 none

end Tree

end Squirrel
