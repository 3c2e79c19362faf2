import Squirrel.Grammar.Operator
import Squirrel.Literal.Integer
import Squirrel.Literal.Real
import Squirrel.Literal.Text
import Squirrel.Tree.Child

/-!
# Expressions of a tree

The view of an expression node by its form: each form names the children and tokens it is made of. A part that recovery
left out is `none`. The view goes one level deep; the parts are trees again.
-/

namespace Squirrel

/-- The keywords that are operators in front of a whole expression. -/
inductive KeywordOperator where
  | clone | delete | resume
  deriving DecidableEq

namespace KeywordOperator

def text : KeywordOperator → String
  | clone => "clone"
  | delete => "delete"
  | resume => "resume"

end KeywordOperator

inductive Expression (tree : Tree) where
  /-- A prefix operator, or an increment after its operand. -/
  | unary (operator : Option Leaf) (isSuffix : Bool) (operand : Option (Child tree))
  | binary (left : Option (Child tree)) (operator : Option Leaf) (right : Option (Child tree))
  | ternary (condition consequence alternative : Option (Child tree))
  | assignment (left : Option (Child tree)) (operator : Option Leaf) (right : Option (Child tree))
  | update (left : Option (Child tree)) (operator : Option Leaf) (right : Option (Child tree))
  /-- A raw call has no function of its own. -/
  | call (isRaw : Bool) (function arguments : Option (Child tree))
  | index (object index : Option (Child tree))
  | member (object : Option (Child tree)) (member : Option Leaf)
  | lambda (parameters body : Option (Child tree))
  | anonymousFunction (parameters body : Option (Child tree))
  | parenthesized (inner : Option (Child tree))
  | keyword (operator : KeywordOperator) (operand : Option (Child tree))
  | array (elements : List (Child tree))
  | table (slots : List (Child tree))
  | identifier (name : Option Leaf)
  | globalVariable (name : Option Leaf)
  | integer (value : Option IntegerValue) (isNegative : Bool)
  | float (value : Option Float)
  | string (token : Option Leaf)
  | verbatimString (token : Option Leaf)
  | char (token : Option Leaf)
  | bool (value : Bool)
  | null

namespace Tree

variable (tree : Tree)

def operatorIn? (isOperator : Kind → Bool) : Option Leaf := tree.tokens.find? (isOperator ·.kind)

/-- Whether the first thing in a node, trivia left out, is a node. -/
def startsWithNode : Bool := (tree.children.find? (!·.isTrivia)).any Tree.isNode

/-- The view of an expression; nothing for any other tree. -/
def asExpression? : Option (Expression tree) :=
  if !tree.isNode then none
  else
    match tree.kind with
    | .unaryExpression =>
      some (.unary (tree.operatorIn? TokenSet.prefixOperators.contains) tree.startsWithNode (tree.expression? 0))
    | .binaryExpression =>
      some (.binary (tree.expression? 0) (tree.operatorIn? (Power.binary? · |>.isSome)) (tree.expression? 1))
    | .ternaryExpression => some (.ternary (tree.expression? 0) (tree.expression? 1) (tree.expression? 2))
    | .assignmentExpression =>
      some (.assignment (tree.expression? 0) (tree.operatorIn? TokenSet.assignOperators.contains) (tree.expression? 1))
    | .updateExpression =>
      some (.update (tree.expression? 0) (tree.operatorIn? TokenSet.assignOperators.contains) (tree.expression? 1))
    | .callExpression =>
      some (.call (tree.hasToken .kwRawcall) (tree.expression? 0) (tree.nodeOf? .callArgs))
    | .indexExpression => some (.index (tree.expression? 0) (tree.expression? 1))
    | .derefExpression => some (.member (tree.expression? 0) (tree.tokenOf? .id))
    | .lambdaExpression => some (.lambda (tree.nodeOf? .parameters) (tree.expression? 0))
    | .anonymousFunction => some (.anonymousFunction (tree.nodeOf? .parameters) tree.statement?)
    | .parenthesizedExpression => some (.parenthesized (tree.expression? 0))
    | .cloneExpression => some (.keyword .clone (tree.expression? 0))
    | .deleteExpression => some (.keyword .delete (tree.expression? 0))
    | .resumeExpression => some (.keyword .resume (tree.expression? 0))
    | .array => some (.array tree.expressions)
    | .table => some (.table (tree.nodesOf .tableSlot))
    | .identifier => some (.identifier (tree.tokenOf? .id))
    | .globalVariable => some (.globalVariable (tree.tokenOf? .id))
    | .integer => some (.integer (Literal.decodeInteger tree.text).toOption (tree.hasToken .minus))
    | .float => some (.float (Literal.decodeFloat tree.text).toOption)
    | .str => some (.string (tree.tokenOf? .stringLit))
    | .verbatimStr => some (.verbatimString (tree.tokenOf? .verbatimStringLit))
    | .char => some (.char (tree.tokenOf? .charLit))
    | .bool => some (.bool (tree.hasToken .kwTrue))
    | .null => some .null
    | _ => none

end Tree

namespace Leaf

/-! ### Values of literal tokens -/

def stringValue? (leaf : Leaf) : Option String := (Literal.decodeString leaf.text).toOption

def verbatimValue? (leaf : Leaf) : Option String := (Literal.decodeVerbatim leaf.text).toOption

def charValue? (leaf : Leaf) : Option Char := (Literal.decodeChar leaf.text).toOption

end Leaf

end Squirrel
