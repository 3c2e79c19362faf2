import Squirrel.Tree.Child

/-!
# The parts that definitions are made of

Views of the nodes below functions, classes, tables and enums. A part that recovery left out is `none`.
-/

namespace Squirrel

variable (tree : Tree)

/-! ### Parameters and attributes -/

structure Parameter where
  name : Option Leaf
  isVariadic : Bool
  default : Option (Child tree)

structure AttributeEntry where
  name : Option Leaf
  value : Option (Child tree)

/-! ### Functions and classes -/

/-- A function with a name. The path holds every segment of the name. -/
structure Function where
  path : List Leaf
  parameters : Option (Child tree)
  body : Option (Child tree)

inductive MemberKind where
  | field | computed | method | constructor
  deriving DecidableEq

namespace MemberKind

def name : MemberKind → String
  | field => "Field"
  | computed => "Computed"
  | method => "Method"
  | constructor => "Constructor"

end MemberKind

structure Member where
  kind : MemberKind
  isStatic : Bool
  attributes : Option (Child tree)
  name : Option Leaf
  /-- The expression in brackets that names a computed member. -/
  key : Option (Child tree)
  value : Option (Child tree)
  method : Option (Child tree)
  parameters : Option (Child tree)
  /-- The body of a constructor. -/
  body : Option (Child tree)

/-! ### Table slots -/

inductive SlotKind where
  | named | computed | keyed | method
  deriving DecidableEq

namespace SlotKind

def name : SlotKind → String
  | named => "Named"
  | computed => "Computed"
  | keyed => "Keyed"
  | method => "Method"

end SlotKind

structure Slot where
  kind : SlotKind
  name : Option Leaf
  key : Option (Child tree)
  value : Option (Child tree)
  method : Option (Child tree)

namespace Tree

def asParameter : Parameter tree := ⟨tree.tokenOf? .id, tree.hasToken .ellipsis, tree.expression? 0⟩

def asAttribute : AttributeEntry tree := ⟨tree.tokenOf? .id, tree.expression? 0⟩

def asFunction : Function tree := ⟨tree.tokensOf .id, tree.nodeOf? .parameters, tree.statement?⟩

def memberKind : MemberKind :=
  if (tree.nodeOf? .functionDeclaration).isSome then .method
  else
    match tree.firstToken?.map Leaf.kind with
    | some .kwConstructor => .constructor
    | some .bracketOpen => .computed
    | _ => .field

def asMember : Member tree where
  kind := tree.memberKind
  isStatic := tree.hasToken .kwStatic
  attributes := tree.nodeOf? .attributeDeclaration
  name := tree.tokenOf? .id
  key := match tree.memberKind with
    | .computed => tree.expression? 0
    | _ => none
  value := match tree.memberKind with
    | .field => tree.expression? 0
    | .computed => tree.expression? 1
    | _ => none
  method := tree.nodeOf? .functionDeclaration
  parameters := tree.nodeOf? .parameters
  body := match tree.memberKind with
    | .constructor => tree.statement?
    | _ => none

def slotKind : SlotKind :=
  if (tree.nodeOf? .functionDeclaration).isSome then .method
  else
    match tree.firstToken?.map Leaf.kind with
    | some .id => .named
    | some .bracketOpen => .computed
    | _ => .keyed

def asSlot : Slot tree where
  kind := tree.slotKind
  name := match tree.slotKind with
    | .named => tree.tokenOf? .id
    | _ => none
  key := match tree.slotKind with
    | .computed | .keyed => tree.expression? 0
    | _ => none
  value := match tree.slotKind with
    | .named => tree.expression? 0
    | .computed | .keyed => tree.expression? 1
    | .method => none
  method := tree.nodeOf? .functionDeclaration

end Tree

end Squirrel
