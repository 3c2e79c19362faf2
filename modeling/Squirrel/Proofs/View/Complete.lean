import Squirrel.View.Expression
import Squirrel.View.Field

/-!
# Complete views

The typed views leave out what recovery could not find. A view is complete if no part is missing that the grammar asks
for; a node is complete if its view is, and if it is none of the error nodes. Parts that the grammar makes optional may
be missing, but not the value after a sign that announces one.
-/

namespace Squirrel

variable {tree : Tree}

namespace Expression

def IsComplete : Expression tree → Prop
  | unary operator _ operand => operator.isSome ∧ operand.isSome
  | binary left operator right | assignment left operator right | update left operator right =>
    left.isSome ∧ operator.isSome ∧ right.isSome
  | ternary condition consequence alternative => condition.isSome ∧ consequence.isSome ∧ alternative.isSome
  | call isRaw function arguments => (isRaw = false → function.isSome) ∧ arguments.isSome
  | index object key => object.isSome ∧ key.isSome
  | member object name => object.isSome ∧ name.isSome
  | lambda parameters body | anonymousFunction parameters body => parameters.isSome ∧ body.isSome
  | parenthesized inner => inner.isSome
  | keyword _ operand => operand.isSome
  | identifier name | globalVariable name => name.isSome
  | integer value _ => value.isSome
  | float value => value.isSome
  | string token => (token.bind Leaf.stringValue?).isSome
  | verbatimString token => (token.bind Leaf.verbatimValue?).isSome
  | char token => (token.bind Leaf.charValue?).isSome
  | array _ | table _ | bool _ | null => True

end Expression

namespace Statement

def IsComplete : Statement tree → Prop
  | expression value | throwJump value => value.isSome
  | conditional condition consequence _ => condition.isSome ∧ consequence.isSome
  | whileLoop condition _ => condition.isSome
  | doWhileLoop body condition => body.isSome ∧ condition.isSome
  | switch value _ _ => value.isSome
  | forLoop _ _ _ body => body.isSome
  | foreachLoop _ value collection body => value.isSome ∧ collection.isSome ∧ body.isSome
  | localDeclaration bindings => bindings ≠ []
  | varDeclaration name value | constDeclaration name value => name.isSome ∧ value.isSome
  | functionDeclaration function => function.path ≠ [] ∧ function.parameters.isSome ∧ function.body.isSome
  | classDeclaration parts => parts.path ≠ []
  | tryCatch body handler => body.isSome ∧ handler.isSome
  | enumDeclaration name _ _ => name.isSome
  | block _ | empty | breakJump | continueJump | returnJump _ | yieldJump _ => True

end Statement

def Member.IsComplete (member : Member tree) : Prop :=
  match member.kind with
  | .field => member.name.isSome ∧ member.value.isSome
  | .computed => member.key.isSome ∧ member.value.isSome
  | .method => member.method.isSome
  | .constructor => member.parameters.isSome ∧ member.body.isSome

def Slot.IsComplete (slot : Slot tree) : Prop :=
  match slot.kind with
  | .named => slot.name.isSome ∧ slot.value.isSome
  | .computed | .keyed => slot.key.isSome ∧ slot.value.isSome
  | .method => slot.method.isSome

namespace Tree

/-- What is asked of a class member: the parts that its view names, and of one that starts with `constructor` those of a
constructor. -/
def HoldsMember (tree : Tree) : Prop :=
  tree.asMember.IsComplete ∧
    (tree.hasToken .kwConstructor → tree.asMember.parameters.isSome ∧ tree.asMember.body.isSome)

/-- A constructor whose body is a function with a name. Its view takes it for a method with that name. -/
def IsMistakenConstructor (tree : Tree) : Prop :=
  tree.kind = .memberDeclaration ∧ tree.hasToken .kwConstructor ∧ (tree.nodeOf? .functionDeclaration).isSome

instance : Decidable tree.IsMistakenConstructor := inferInstanceAs (Decidable (_ ∧ _ ∧ _))

/-- Every node right under a tree is a statement. -/
def HoldsStatements (tree : Tree) : Prop := ∀ child ∈ tree.nodes, child.tree.asStatement?.isSome

/-- What is asked of nodes that are neither an expression nor a statement, and of classes and blocks beyond their
views. -/
def PartsComplete (tree : Tree) : Prop :=
  match tree.kind with
  | .script | .block => tree.HoldsStatements
  | .elseStatement => tree.statement?.isSome
  | .caseStatement => tree.asCase.value.isSome
  | .catchStatement => tree.asCatch.binding.isSome ∧ tree.asCatch.body.isSome
  | .localBinding => tree.asBinding.name.isSome ∧ (tree.asBinding.operator.isSome → tree.asBinding.value.isSome)
  | .parameter => (tree.asParameter.name.isSome ∨ tree.asParameter.isVariadic) ∧
      (tree.hasToken .equals → tree.asParameter.default.isSome)
  | .attributeEntry => tree.asAttribute.name.isSome ∧ tree.asAttribute.value.isSome
  | .enumEntry => tree.asEnumEntry.name.isSome ∧ (tree.hasToken .equals → tree.asEnumEntry.value.isSome)
  | .classDeclaration => tree.hasToken .kwExtends → tree.asClass.base.isSome
  | .memberDeclaration => tree.HoldsMember
  | .tableSlot => tree.asSlot.IsComplete
  | .error => False
  | _ => True

/-- No part is missing that the grammar asks for. -/
structure IsComplete (tree : Tree) : Prop where
  expression : ∀ expression, tree.asExpression? = some expression → expression.IsComplete
  statement : ∀ statement, tree.asStatement? = some statement → statement.IsComplete
  parts : tree.PartsComplete

/-! ### Trees inside a tree -/

/-- The tree itself, or one somewhere below it. -/
inductive Within (inner : Tree) : Tree → Prop where
  | self : Within inner inner
  | child {kind : Kind} {children : List Tree} {child : Tree} (hmem : child ∈ children)
      (hwithin : Within inner child) : Within inner (.node kind children)

mutual

/-- The places of a tree hold the nodes within it. -/
theorem within_of_mem_placesFrom {start : Nat} {field? : Option Field} {place : Place} {tree : Tree}
    (hmem : place ∈ tree.placesFrom start field?) : place.tree.Within tree ∧ place.tree.isNode = true := by
  cases tree with
  | token leaf => simp [placesFrom] at hmem
  | node kind children =>
    rw [placesFrom] at hmem
    obtain rfl | hmem := List.mem_cons.mp hmem
    · exact ⟨.self, rfl⟩
    · obtain ⟨child, hchild, hwithin, hnode⟩ := within_of_mem_placesUnder hmem
      exact ⟨.child hchild hwithin, hnode⟩

theorem within_of_mem_placesUnder {parent : Tree} {index start : Nat} {place : Place} {trees : List Tree}
    (hmem : place ∈ parent.placesUnder index start trees) :
    ∃ child ∈ trees, place.tree.Within child ∧ place.tree.isNode = true := by
  cases trees with
  | nil => simp [placesUnder] at hmem
  | cons tree rest =>
    rw [placesUnder] at hmem
    obtain hmem | hmem := List.mem_append.mp hmem
    · exact ⟨tree, List.mem_cons_self, within_of_mem_placesFrom hmem⟩
    · obtain ⟨child, hchild, hwithin⟩ := within_of_mem_placesUnder hmem
      exact ⟨child, List.mem_cons_of_mem _ hchild, hwithin⟩

end

end Tree

end Squirrel
