import Squirrel.Tree.Listing
import Squirrel.View.Expression
import Squirrel.View.Field

/-!
# Outlines

One line for every node, with its field, its kind and what is special about it. What is under an error node is left out:
its line shows the text instead.
-/

namespace Squirrel

namespace Outline

variable {tree : Tree}

def joined (separator : String) (leaves : List Leaf) : String := separator.intercalate (leaves.map Leaf.text)

def ofClass (parts : ClassParts tree) : String :=
  let path := joined "." parts.path
  match parts.base with
  | some base => path ++ " extends " ++ base.text
  | none => path

def ofMember (member : Member tree) : String :=
  match member.kind with
  | .field => if member.isStatic then "static " ++ Leaf.textOf member.name else Leaf.textOf member.name
  | .computed => "[computed]"
  | .method => "method"
  | .constructor => "constructor"

def ofSlot (slot : Slot tree) : String :=
  match slot.kind with
  | .named => Leaf.textOf slot.name
  | .computed => "[computed]"
  | .keyed => "keyed"
  | .method => "method"

/-- What is special about an expression. Literals show their text. -/
def ofExpression (tree : Tree) : Expression tree → String
  | .identifier name => Leaf.textOf name
  | .globalVariable name => "::" ++ Leaf.textOf name
  | .integer .. | .float _ | .string _ | .verbatimString _ | .char _ | .bool _ => tree.text
  | .unary operator isSuffix _ => if isSuffix then Leaf.textOf operator ++ " (postfix)" else Leaf.textOf operator
  | .binary _ operator _ | .assignment _ operator _ | .update _ operator _ => Leaf.textOf operator
  | .member _ member => "." ++ Leaf.textOf member
  | .call isRaw _ _ => if isRaw then "rawcall" else ""
  | _ => ""

def ofStatement : Statement tree → String
  | .functionDeclaration function => joined "::" function.path
  | .classDeclaration parts => ofClass parts
  | .varDeclaration name _ | .constDeclaration name _ | .enumDeclaration name _ _ => Leaf.textOf name
  | .foreachLoop index value _ _ =>
    match index with
    | some index => index.text ++ ", " ++ Leaf.textOf value
    | none => Leaf.textOf value
  | _ => ""

/-- What is special about a node. -/
def detail (tree : Tree) : String :=
  match tree.asExpression?, tree.asStatement? with
  | some expression, _ => ofExpression tree expression
  | none, some statement => ofStatement statement
  | none, none =>
    match tree.kind with
    | .error => Text.quote tree.text
    | .memberDeclaration => ofMember tree.asMember
    | .tableSlot => ofSlot tree.asSlot
    | .localBinding => Leaf.textOf tree.asBinding.name
    | .enumEntry => Leaf.textOf tree.asEnumEntry.name
    | .attributeEntry => Leaf.textOf tree.asAttribute.name
    | .catchStatement => Leaf.textOf tree.asCatch.binding
    | .parameter =>
      let parameter := tree.asParameter
      if parameter.isVariadic then "..." else Leaf.textOf parameter.name
    | _ => ""

end Outline

namespace Tree

mutual

def outlineFrom (spans : Bool) (depth start : Nat) (field? : Option Field) : Tree → List String
  | token _ => []
  | node kind children =>
    let tree := node kind children
    let field := (field?.map (·.name ++ ": ")).getD ""
    let detail := Outline.detail tree
    let line := Listing.indent depth ++ field ++ kind.name ++ Listing.span spans start tree.width ++
      (if detail.isEmpty then "" else " " ++ detail)
    line :: (if kind == .error then [] else outlineUnder spans (depth + 1) tree 0 start children)

def outlineUnder (spans : Bool) (depth : Nat) (parent : Tree) (index start : Nat) : List Tree → List String
  | [] => []
  | tree :: rest =>
    outlineFrom spans depth start (parent.fieldAt? index) tree ++
      outlineUnder spans depth parent (index + 1) (start + tree.width) rest

end

def outline (spans : Bool) (tree : Tree) : String := Listing.join (tree.outlineFrom spans 0 0 none)

end Tree

end Squirrel
