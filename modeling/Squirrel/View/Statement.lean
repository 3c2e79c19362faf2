import Squirrel.View.Definition

/-!
# Statements of a tree

The view of a statement node by its form, one level deep, and the views of the parts that only statements have. A part
that recovery left out is `none`.
-/

namespace Squirrel

variable (tree : Tree)

/-- The clauses in the header of a `for`. -/
inductive ForClause where
  | initial | condition | increment
  deriving DecidableEq

structure ClassParts where
  /-- The segments of the name. -/
  path : List Leaf
  base : Option Leaf
  attributes : Option (Child tree)
  members : List (Child tree)

inductive Statement where
  | block (statements : List (Child tree))
  | empty
  | expression (expression : Option (Child tree))
  /-- The condition is the expression with its parentheses; what `otherwise` holds is the `else` with its statement. -/
  | conditional (condition consequence otherwise : Option (Child tree))
  | whileLoop (condition body : Option (Child tree))
  | doWhileLoop (body condition : Option (Child tree))
  | switch (value : Option (Child tree)) (cases : List (Child tree)) (default : Option (Child tree))
  /-- The initializer is an expression or a local declaration. -/
  | forLoop (initial condition increment body : Option (Child tree))
  | foreachLoop (index value : Option Leaf) (collection body : Option (Child tree))
  | breakJump
  | continueJump
  | returnJump (value : Option (Child tree))
  | yieldJump (value : Option (Child tree))
  | throwJump (value : Option (Child tree))
  | localDeclaration (bindings : List (Child tree))
  | varDeclaration (name : Option Leaf) (value : Option (Child tree))
  | constDeclaration (name : Option Leaf) (value : Option (Child tree))
  | functionDeclaration (function : Function tree)
  | classDeclaration (parts : ClassParts tree)
  | tryCatch (body handler : Option (Child tree))
  | enumDeclaration (name : Option Leaf) (attributes : Option (Child tree)) (entries : List (Child tree))

structure LocalBinding where
  name : Option Leaf
  operator : Option Leaf
  value : Option (Child tree)

structure CaseClause where
  value : Option (Child tree)
  statements : List (Child tree)

structure CatchClause where
  binding : Option Leaf
  body : Option (Child tree)

structure EnumEntry where
  name : Option Leaf
  value : Option (Child tree)

namespace Tree

/-! ### The header of a `for` -/

/-- The clause that comes after a number of semicolons. -/
def clauseAfter : Nat → ForClause
  | 0 => .initial
  | 1 => .condition
  | _ => .increment

/-- The nodes among the parts of a header with their clauses, where some semicolons have been passed. -/
def clausesFrom (semicolons : Nat) : List (Child tree) → List (ForClause × Child tree)
  | [] => []
  | part :: rest =>
    if part.kind == .semicolon then clausesFrom (semicolons + 1) rest
    else if part.tree.isNode then (clauseAfter semicolons, part) :: clausesFrom semicolons rest
    else clausesFrom semicolons rest

/-- The nodes in the header of a `for`, each with its clause. -/
def forClauses : List (ForClause × Child tree) :=
  tree.clausesFrom 0 (tree.parts.takeWhile (·.kind != .parenClose))

def forClause? (clause : ForClause) : Option (Child tree) :=
  (tree.forClauses.find? fun (found, _) => found == clause).map (·.2)

def forExpression? (clause : ForClause) : Option (Child tree) := (tree.forClause? clause).filter (·.kind.isExpression)

def forInitial? : Option (Child tree) :=
  (tree.forClause? .initial).filter fun child => child.kind == .localDeclaration || child.kind.isExpression

/-! ### Names -/

/-- The variable before the comma of a `foreach` with two. -/
def foreachIndex? : Option Leaf :=
  match tree.tokensOf .id with
  | first :: _ :: _ => some first
  | _ => none

def foreachValue? : Option Leaf := ((tree.tokensOf .id).take 2).getLast?

/-- The segments of a class name, which stand before what the class extends and before its body. -/
def classPath : List Leaf :=
  (tree.tokens.takeWhile fun leaf => leaf.kind != .kwExtends && leaf.kind != .braceOpen).filter (·.kind == .id)

def classBase? : Option Leaf := (tree.tokens.dropWhile (·.kind != .kwExtends)).find? (·.kind == .id)

/-! ### Views -/

def asClass : ClassParts tree :=
  ⟨tree.classPath, tree.classBase?, tree.nodeOf? .attributeDeclaration, tree.nodesOf .memberDeclaration⟩

/-- The view of a statement; nothing for any other tree. -/
def asStatement? : Option (Statement tree) :=
  if !tree.isNode then none
  else
    match tree.kind with
    | .block => some (.block tree.statements)
    | .emptyStatement => some .empty
    | .expressionStatement => some (.expression (tree.expression? 0))
    | .ifStatement =>
      some (.conditional (tree.nodeOf? .parenthesizedExpression) tree.statement? (tree.nodeOf? .elseStatement))
    | .whileStatement => some (.whileLoop (tree.expression? 0) tree.statementAfterHeader?)
    | .doWhileStatement => some (.doWhileLoop tree.statement? (tree.expression? 0))
    | .switchStatement =>
      some (.switch (tree.expression? 0) (tree.nodesOf .caseStatement) (tree.nodeOf? .defaultStatement))
    | .forStatement =>
      some (.forLoop tree.forInitial? (tree.forExpression? .condition) (tree.forExpression? .increment)
        tree.statementAfterHeader?)
    | .foreachStatement =>
      some (.foreachLoop tree.foreachIndex? tree.foreachValue? (tree.expression? 0) tree.statementAfterHeader?)
    | .breakStatement => some .breakJump
    | .continueStatement => some .continueJump
    | .returnStatement => some (.returnJump (tree.expression? 0))
    | .yieldStatement => some (.yieldJump (tree.expression? 0))
    | .throwStatement => some (.throwJump (tree.expression? 0))
    | .localDeclaration => some (.localDeclaration (tree.nodesOf .localBinding))
    | .varStatement => some (.varDeclaration (tree.tokenOf? .id) (tree.expression? 0))
    | .constDeclaration => some (.constDeclaration (tree.tokenOf? .id) (tree.expression? 0))
    | .functionDeclaration => some (.functionDeclaration tree.asFunction)
    | .classDeclaration => some (.classDeclaration tree.asClass)
    | .tryStatement => some (.tryCatch tree.statement? (tree.nodeOf? .catchStatement))
    | .enumDeclaration =>
      some (.enumDeclaration (tree.tokenOf? .id) (tree.nodeOf? .attributeDeclaration) (tree.nodesOf .enumEntry))
    | _ => none

/-- The operator of a binding is `=` if there is one, else `<-`. -/
def asBinding : LocalBinding tree :=
  ⟨tree.tokenOf? .id, (tree.tokenOf? .equals).or (tree.tokenOf? .newSlot), tree.expression? 0⟩

def asCase : CaseClause tree := ⟨tree.expression? 0, tree.statements⟩

def asCatch : CatchClause tree := ⟨tree.tokenOf? .id, tree.statement?⟩

def asEnumEntry : EnumEntry tree := ⟨tree.tokenOf? .id, tree.expression? 0⟩

end Tree

end Squirrel
