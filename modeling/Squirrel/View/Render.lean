import Squirrel.View.Expression

/-!
# Writing expressions

An expression written as source again, on one line and with as few parentheses as its operators need. Operators have
spaces around them; tables, arrays and functions keep the text they have.
-/

namespace Squirrel

namespace Precedence

/-- Forms that take in everything to their right. -/
def openEnded : Nat := 0

def primary : Nat := 16

end Precedence

namespace Tree

/-- How tightly the outermost operator of an expression binds. -/
def precedence (tree : Tree) : Nat :=
  match tree.asExpression? with
  | some (.assignment ..) | some (.update ..) => Power.assignment
  | some (.ternary ..) => Power.ternary
  | some (.binary _ operator _) => (operator.bind (Power.binary? ·.kind)).getD Precedence.openEnded
  | some (.unary ..) => Power.unary
  | some (.call ..) | some (.index ..) | some (.member ..) => Power.accessor
  | some (.lambda ..) | some (.anonymousFunction ..) | some (.keyword ..) => Precedence.openEnded
  | _ => Precedence.primary

def isOpenEnded (tree : Tree) : Bool :=
  match tree.asExpression? with
  | some (.lambda ..) | some (.anonymousFunction ..) | some (.keyword ..) => true
  | _ => false

/-- A prefix operator with its operand. -/
def isPrefixed (tree : Tree) : Bool :=
  match tree.asExpression? with
  | some (.unary _ isSuffix _) => !isSuffix
  | _ => false

end Tree

namespace Render

/-- Whether a prefix operator would fuse with the operand written after it. -/
def needsSpace (operator : Kind) (operand : String) : Bool :=
  let first? := operand.toList.head?
  operator == .kwTypeof || first?.any (fun c => c == '-' || c == '+') ||
    (operator == .minus && first?.any fun c => '0' ≤ c && c ≤ '9')

mutual

/-- The text of an expression. At the tail nothing follows it that a form open to the right could take in. -/
def expression (tree : Tree) (tail : Bool) : String :=
  match tree.asExpression? with
  | some (.binary left operator right) =>
    operand left tree.precedence false false ++ " " ++ Leaf.textOf operator ++ " " ++
      operand right (tree.precedence + 1) false tail
  | some (.assignment left _ right) =>
    -- in `a ? b : c = d` the whole ternary is assigned to
    operand left Power.ternary false false ++ " = " ++ operand right Power.assignment true tail
  | some (.update left operator right) =>
    operand left Power.ternary false false ++ " " ++ Leaf.textOf operator ++ " " ++
      operand right Power.assignment true tail
  | some (.ternary condition consequence alternative) =>
    operand condition (Power.ternary + 1) false false ++ " ? " ++
      operand consequence Precedence.openEnded true true ++ " : " ++ operand alternative Power.ternary true tail
  | some (.unary operator true inner) => operand inner Power.unary false false ++ Leaf.textOf operator
  | some (.unary none false _) => ""
  | some (.unary (some operator) false none) => operator.text
  | some (.unary (some operator) false (some inner)) =>
    let written := prefixOperand inner tail
    operator.text ++ (if needsSpace operator.kind written then " " else "") ++ written
  | some (.call isRaw function arguments) =>
    (if isRaw then "rawcall" else operand function Power.accessor false false) ++ "(" ++
      (match arguments with
        | none => ""
        | some list => ", ".intercalate (argumentsOf list)) ++ ")"
  | some (.index object index) =>
    operand object Power.accessor false false ++ "[" ++ operand index Precedence.openEnded false true ++ "]"
  | some (.member object member) => operand object Power.accessor true false ++ "." ++ Leaf.textOf member
  | some (.parenthesized inner) => "(" ++ operand inner Precedence.openEnded false true ++ ")"
  | some (.keyword operator inner) => operator.text ++ " " ++ operand inner Precedence.openEnded false tail
  | some (.identifier name) => Leaf.textOf name
  | some (.globalVariable name) => "::" ++ Leaf.textOf name
  | _ => tree.text
termination_by (sizeOf tree, 1)

/-- A part of an expression, in parentheses if it binds too loosely or is a table where none is allowed. -/
def operand {tree : Tree} (part? : Option (Child tree)) (atLeast : Nat) (tableAllowed tail : Bool) : String :=
  match part? with
  | none => ""
  | some part =>
    let tooLoose := part.tree.precedence < atLeast && !(tail && part.tree.isOpenEnded)
    if tooLoose || (part.kind == .table && !tableAllowed) then "(" ++ expression part.tree true ++ ")"
    else expression part.tree tail
termination_by (sizeOf tree, 0)
decreasing_by all_goals exact Prod.Lex.left _ _ part.sizeOf_lt

/-- The operand of a prefix operator. Further prefix operators need no parentheses. -/
def prefixOperand {tree : Tree} (part : Child tree) (tail : Bool) : String :=
  let bare := part.tree.isPrefixed || (tail && part.tree.isOpenEnded)
  if part.tree.precedence < Power.accessor && !bare then "(" ++ expression part.tree true ++ ")"
  else expression part.tree tail
termination_by (sizeOf tree, 0)
decreasing_by all_goals exact Prod.Lex.left _ _ part.sizeOf_lt

def argumentsOf {tree : Tree} (list : Child tree) : List String :=
  list.tree.expressions.map fun argument => operand (some argument) Precedence.openEnded true true
termination_by (sizeOf tree, 0)
decreasing_by exact Prod.Lex.left _ _ list.sizeOf_lt

end

end Render

/-- An expression written as source. -/
def Tree.render (tree : Tree) : String := Render.expression tree true

end Squirrel
