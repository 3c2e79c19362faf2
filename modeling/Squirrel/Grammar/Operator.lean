import Squirrel.TokenSet

/-!
# Operators and how tightly they bind

A binding power is a number: the operand of an operator holds only operators that bind at least as tightly as the
operand's power. From the loosest to the tightest: assignments, the ternary, the binary operators in ten tiers, prefix
operators together with postfix increments, and accessors. Assignments and the ternary group to the right, binary
operators to the left. As prefix operators and postfix increments share a tier, `-a++` increments `-a`.
-/

namespace Squirrel

namespace Power

def assignment : Nat := 1

def ternary : Nat := 2

def unary : Nat := 13

def accessor : Nat := 14

/-- The binding power of a binary operator. -/
def binary? : Kind → Option Nat
  | .pipePipe => some 3
  | .ampAmp | .kwIn => some 4
  | .pipe => some 5
  | .caret => some 6
  | .amp => some 7
  | .equalsEquals | .bangEquals => some 8
  | .less | .lessEquals | .greater | .greaterEquals | .spaceship | .kwInstanceof => some 9
  | .shiftLeft | .shiftRight | .unsignedShiftRight => some 10
  | .plus | .minus => some 11
  | .star | .slash | .percent => some 12
  | _ => none

end Power

/-- What can follow an operand and take it in. -/
inductive Suffix where
  | member
  | index
  | call
  | increment
  | ternary
  | assignment
  | update
  | binary (power : Nat)
  deriving DecidableEq

namespace Suffix

/-- The kind of node that a suffix wraps around its left operand. -/
def node : Suffix → Kind
  | member => .derefExpression
  | index => .indexExpression
  | call => .callExpression
  | increment => .unaryExpression
  | ternary => .ternaryExpression
  | assignment => .assignmentExpression
  | update => .updateExpression
  | binary _ => .binaryExpression

/-- The suffix that a token starts after an operand, where only operators of at least the given power belong to the
expression. An index or an increment on a new line starts something else. -/
def of? (power : Nat) (afterLineBreak : Bool) (kind : Kind) : Option Suffix :=
  match kind with
  | .dot => some member
  | .bracketOpen => if afterLineBreak then none else some index
  | .parenOpen => some call
  | .plusPlus | .minusMinus => if power ≤ Power.unary ∧ !afterLineBreak then some increment else none
  | .question => if power ≤ Power.ternary then some ternary else none
  | .equals => if power ≤ Power.assignment then some assignment else none
  | .newSlot | .plusEquals | .minusEquals | .starEquals | .slashEquals | .percentEquals =>
    if power ≤ Power.assignment then some update else none
  | kind =>
    match Power.binary? kind with
    | some own => if power ≤ own then some (binary own) else none
    | none => none

end Suffix

end Squirrel
