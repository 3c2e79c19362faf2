import Squirrel.Proofs.Grammar.Primitive

/-!
# The grammar as a relation

What a source without errors looks like, said without a parser. A production names the items that a phrase consists of
and the node that is built around them; a derivation follows productions through the words of a source and tells which
trees they place. Conditions on the words ahead stand only where the items leave a choice open, such as whether an
optional part is there or how far an expression goes.
-/

namespace Squirrel

/-! ### Phrases -/

/-- The phrases of the grammar. -/
inductive Phrase where
  | script
  | statement
  | blockStatements
  | header
  | elseBranch
  | elseClause
  | loopBody
  | forInitial
  | headerLocal
  | bindings
  | binding
  | bindingValue
  | loopVariables
  | switchClauses
  | caseClause
  | defaultClause
  | caseStatements
  | returnValue
  | yieldValue
  | catchClause
  | terminator
  | classDeclaration
  | base
  | members
  | member
  | enumDeclaration
  | enumEntries
  | enumEntry
  | constDeclaration
  | functionDeclaration
  | parameters
  | parameterList
  | parameter
  | variadic
  | optionalAttributes
  | attributes
  | attributeList
  | attributeEntry
  | path (separator : Kind)
  /-- `=` and a constant, or nothing. -/
  | initialConst
  | constValue
  | optionalExpression
  | expression (power : Nat) (tableAllowed : Bool)
  /-- An operand and some of the suffixes that take it in. -/
  | chain (power : Nat) (tableAllowed : Bool)
  | suffix (found : Suffix)
  | operand (tableAllowed : Bool)
  | parenthesized
  | array
  | elements
  | table
  | slots
  | slot
  | callArguments
  | arguments
  | negative
  | literal
  | optional (kind : Kind)

/-- What a production asks for next. -/
inductive Item where
  | word (kind : Kind)
  | wordIn (accepts : Kind → Bool)
  | part (phrase : Phrase)
  /-- A condition on the words ahead. -/
  | check (condition : List Word → Prop)

/-- What becomes of the parts of a phrase. -/
inductive Form where
  | bare
  | node (kind : Kind)
  /-- A node without blanks and comments between its parts. -/
  | tight (kind : Kind)

/-- The trees that stand for a phrase with the given parts. -/
def Form.Holds (form : Form) (parts trees : List Tree) : Prop :=
  match form with
  | .bare => trees = parts
  | .node kind => ∃ tree : Tree, tree.BuiltOf kind parts ∧ trees = [tree]
  | .tight kind => trees = [.node kind parts]

/-! ### Conditions -/

namespace Word

/-- Whether the second word is a number that belongs to a minus sign before it. -/
def NumberFollows (words : List Word) : Prop := words.tail.head?.any folds = true

/-- The suffix that the first word starts. -/
def suffix? (power : Nat) (words : List Word) : Option Suffix :=
  words.head?.bind fun word => Suffix.of? power word.afterBreak word.kind

def StartsExpression (words : List Word) : Prop := TokenSet.expressionFirst.contains (here words) = true

def StartsStatement (words : List Word) : Prop := TokenSet.statementFirst.contains (here words) = true

/-- The first word is on another line than the word before it. -/
def AfterBreak (words : List Word) : Prop := words.head?.any Word.afterBreak = true

/-- A statement may end before these words. -/
def MayEnd (words : List Word) : Prop := words = [] ∨ here words = .braceClose ∨ AfterBreak words

/-- Neither a name with `=` after it, nor a bracket, nor a function with a name. -/
def StartsKey (words : List Word) : Prop :=
  ¬(here words = .id ∧ here words.tail = .equals) ∧ here words ≠ .bracketOpen ∧
    ¬(here words = .kwFunction ∧ here words.tail = .id)

end Word

namespace Grammar

def isUpdate (kind : Kind) : Bool :=
  kind ∈ [.newSlot, .plusEquals, .minusEquals, .starEquals, .slashEquals, .percentEquals]

def isIncrement (kind : Kind) : Bool := kind ∈ [.plusPlus, .minusMinus]

def isBindingOperator (kind : Kind) : Bool := kind ∈ [.equals, .newSlot]

/-- The keywords in front of a whole expression, with the kinds of their nodes. -/
def keywordNode? : Kind → Option Kind
  | .kwClone => some .cloneExpression
  | .kwDelete => some .deleteExpression
  | .kwResume => some .resumeExpression
  | _ => none

/-- The keywords that are a statement by themselves, with the kinds of their nodes. -/
def jumpNode? : Kind → Option Kind
  | .kwBreak => some .breakStatement
  | .kwContinue => some .continueStatement
  | _ => none

end Grammar

/-! ### Productions -/

open Grammar Word Item in
/-- The productions of each phrase. -/
inductive Production : Phrase → Form → List Item → Prop where
  -- scripts and blocks
  | scriptEnd : Production .script .bare []
  | scriptMore : Production .script .bare [part .statement, part .script]
  | block : Production .statement (.node .block) [word .braceOpen, part .blockStatements, word .braceClose]
  | blockEnd : Production .blockStatements .bare []
  | blockMore : Production .blockStatements .bare [part .statement, part .blockStatements]
  | emptyStatement : Production .statement (.node .emptyStatement) [word .semicolon]
  -- conditions and loops
  | header : Production .header .bare [word .parenOpen, part (.expression 0 false), word .parenClose]
  | ifStatement : Production .statement (.node .ifStatement)
      [word .kwIf, part .parenthesized, part .statement, part .elseBranch]
  | noElse : Production .elseBranch .bare [check fun words => here words ≠ .kwElse]
  | someElse : Production .elseBranch .bare [part .elseClause]
  | elseClause : Production .elseClause (.node .elseStatement) [word .kwElse, part .statement]
  | whileStatement : Production .statement (.node .whileStatement) [word .kwWhile, part .header, part .loopBody]
  | noLoopBody : Production .loopBody .bare [check fun words => ¬StartsStatement words]
  | someLoopBody : Production .loopBody .bare [part .statement]
  | doWhileStatement : Production .statement (.node .doWhileStatement)
      [word .kwDo, part .statement, word .kwWhile, part .header, part (.optional .semicolon)]
  | forStatement : Production .statement (.node .forStatement)
      [word .kwFor, word .parenOpen, part .forInitial, word .semicolon, part .optionalExpression, word .semicolon,
        part .optionalExpression, word .parenClose, part .statement]
  | forLocal : Production .forInitial .bare [part .headerLocal]
  | forExpression : Production .forInitial .bare
      [check fun words => here words ≠ .kwLocal, part .optionalExpression]
  | headerLocal : Production .headerLocal (.node .localDeclaration) [word .kwLocal, part .bindings]
  | foreachStatement : Production .statement (.node .foreachStatement)
      [word .kwForeach, word .parenOpen, part .loopVariables, word .kwIn, part (.expression 0 false), word .parenClose,
        part .statement]
  | loopValue : Production .loopVariables .bare [word .id]
  | loopIndexValue : Production .loopVariables .bare [word .id, word .comma, word .id]
  -- switch
  | switchStatement : Production .statement (.node .switchStatement)
      [word .kwSwitch, part .header, word .braceOpen, part .switchClauses, word .braceClose]
  | switchEnd : Production .switchClauses .bare []
  | switchCase : Production .switchClauses .bare [part .caseClause, part .switchClauses]
  | switchDefault : Production .switchClauses .bare [part .defaultClause]
  | caseClause : Production .caseClause (.node .caseStatement)
      [word .kwCase, part (.expression 0 false), word .colon, part .caseStatements]
  | defaultClause : Production .defaultClause (.node .defaultStatement)
      [word .kwDefault, word .colon, part .caseStatements]
  | caseEnd : Production .caseStatements .bare [check fun words => TokenSet.caseBodyEnd.contains (here words) = true]
  | caseMore : Production .caseStatements .bare [part .statement, part .caseStatements]
  -- jumps
  | jump {keyword node : Kind} (hjump : jumpNode? keyword = some node) :
      Production .statement (.node node) [word keyword, word .semicolon]
  | returnStatement : Production .statement (.node .returnStatement)
      [word .kwReturn, part .returnValue, part (.optional .semicolon)]
  | noReturnValue : Production .returnValue .bare
      [check fun words => ¬StartsExpression words ∧ here words ≠ .braceOpen]
  | someReturnValue : Production .returnValue .bare [part (.expression 0 true)]
  | yieldStatement : Production .statement (.node .yieldStatement)
      [word .kwYield, part .yieldValue, part .terminator]
  | noYieldValue : Production .yieldValue .bare [check fun words => ¬StartsExpression words ∨ AfterBreak words]
  | someYieldValue : Production .yieldValue .bare [check fun words => ¬AfterBreak words, part (.expression 0 false)]
  | throwStatement : Production .statement (.node .throwStatement)
      [word .kwThrow, part (.expression 0 false), part (.optional .semicolon)]
  | terminatorWord : Production .terminator .bare [word .semicolon]
  | terminatorPlace : Production .terminator .bare [check fun words => here words ≠ .semicolon ∧ MayEnd words]
  -- declarations and errors
  | localStatement : Production .statement (.node .localDeclaration)
      [word .kwLocal, part .bindings, part (.optional .semicolon)]
  | lastBinding : Production .bindings .bare [part .binding, check fun words => here words ≠ .comma]
  | moreBindings : Production .bindings .bare [part .binding, word .comma, part .bindings]
  | binding : Production .binding (.node .localBinding) [word .id, part .bindingValue]
  | noBindingValue : Production .bindingValue .bare [check fun words => isBindingOperator (here words) = false]
  | someBindingValue : Production .bindingValue .bare [wordIn isBindingOperator, part (.expression 0 true)]
  | varStatement : Production .statement (.node .varStatement)
      [word .kwVar, word .id, word .equals, part (.expression 0 true), part (.optional .semicolon)]
  | tryStatement : Production .statement (.node .tryStatement) [word .kwTry, part .statement, part .catchClause]
  | catchClause : Production .catchClause (.node .catchStatement)
      [word .kwCatch, word .parenOpen, word .id, word .parenClose, part .statement]
  | expressionStatement : Production .statement (.node .expressionStatement)
      [part (.expression 0 false), part (.optional .semicolon)]
  | functionStatement : Production .statement .bare [part .functionDeclaration]
  | classStatement : Production .statement .bare [part .classDeclaration]
  | constStatement : Production .statement .bare [part .constDeclaration]
  | enumStatement : Production .statement .bare [part .enumDeclaration]
  -- functions
  | functionDeclaration : Production .functionDeclaration (.node .functionDeclaration)
      [word .kwFunction, word .id, part (.path .doubleColon), part .parameters, part .statement]
  | pathEnd {separator : Kind} : Production (.path separator) .bare [check fun words => here words ≠ separator]
  | pathMore {separator : Kind} :
      Production (.path separator) .bare [word separator, word .id, part (.path separator)]
  | parameters : Production .parameters (.node .parameters)
      [word .parenOpen, part .parameterList, word .parenClose]
  | parametersEnd : Production .parameterList .bare []
  | lastParameter : Production .parameterList .bare [part .parameter]
  | moreParameters : Production .parameterList .bare [part .parameter, word .comma, part .parameterList]
  | lastVariadic : Production .parameterList .bare [part .variadic, part (.optional .comma)]
  | parameter : Production .parameter (.node .parameter) [word .id, part .initialConst]
  | variadic : Production .variadic (.node .parameter) [word .ellipsis]
  | noInitialConst : Production .initialConst .bare [check fun words => here words ≠ .equals]
  | someInitialConst : Production .initialConst .bare [word .equals, part .constValue]
  -- attributes
  | noAttributes : Production .optionalAttributes .bare [check fun words => here words ≠ .attributeOpen]
  | someAttributes : Production .optionalAttributes .bare [part .attributes]
  | attributes : Production .attributes (.node .attributeDeclaration)
      [word .attributeOpen, part .attributeList, word .attributeClose]
  | attributesEnd : Production .attributeList .bare []
  | attributesMore : Production .attributeList .bare
      [part .attributeEntry, part (.optional .comma), part .attributeList]
  | attributeEntry : Production .attributeEntry (.node .attributeEntry) [word .id, word .equals, part .constValue]
  -- classes
  | classDeclaration : Production .classDeclaration (.node .classDeclaration)
      [word .kwClass, word .id, part (.path .dot), part .base, part .optionalAttributes, word .braceOpen, part .members,
        word .braceClose]
  | noBase : Production .base .bare [check fun words => here words ≠ .kwExtends]
  | someBase : Production .base .bare [word .kwExtends, word .id]
  | membersEnd : Production .members .bare []
  | membersMore : Production .members .bare [part .member, part .members]
  | field : Production .member (.node .memberDeclaration)
      [part .optionalAttributes, part (.optional .kwStatic), word .id, word .equals, part (.expression 0 true),
        part (.optional .semicolon)]
  | computed : Production .member (.node .memberDeclaration)
      [part .optionalAttributes, word .bracketOpen, part (.expression 0 false), word .bracketClose, word .equals,
        part (.expression 0 true), part (.optional .semicolon)]
  | method : Production .member (.node .memberDeclaration) [part .optionalAttributes, part .functionDeclaration]
  | constructor : Production .member (.node .memberDeclaration)
      [part .optionalAttributes, word .kwConstructor, part .parameters, part .statement]
  -- enums and constants
  | enumDeclaration : Production .enumDeclaration (.node .enumDeclaration)
      [word .kwEnum, word .id, part .optionalAttributes, word .braceOpen, part .enumEntries, word .braceClose,
        part (.optional .semicolon)]
  | enumEnd : Production .enumEntries .bare []
  | lastEntry : Production .enumEntries .bare [part .enumEntry]
  | moreEntries : Production .enumEntries .bare [part .enumEntry, word .comma, part .enumEntries]
  | enumEntry : Production .enumEntry (.node .enumEntry) [word .id, part .initialConst]
  | constDeclaration : Production .constDeclaration (.node .constDeclaration)
      [word .kwConst, word .id, word .equals, part .constValue, part .terminator]
  | constNegative : Production .constValue .bare [part .negative]
  | constArray : Production .constValue .bare [part .array]
  | constTable : Production .constValue .bare [part .table]
  | constName : Production .constValue .bare
      [check fun words => here words ∈ [.id, .doubleColon, .kwRawcall], part (.expression Power.accessor false)]
  | constLiteral : Production .constValue .bare [part .literal]
  -- expressions
  | noExpression : Production .optionalExpression .bare [check fun words => ¬StartsExpression words]
  | someExpression : Production .optionalExpression .bare [part (.expression 0 false)]
  | expression {power : Nat} {tableAllowed : Bool} : Production (.expression power tableAllowed) .bare
      [part (.chain power tableAllowed), check fun words => suffix? power words = none]
  | chainOperand {power : Nat} {tableAllowed : Bool} :
      Production (.chain power tableAllowed) .bare [part (.operand tableAllowed)]
  | chainSuffix {power : Nat} {tableAllowed : Bool} (found : Suffix) :
      Production (.chain power tableAllowed) (.node found.node)
        [part (.chain power tableAllowed), check fun words => suffix? power words = some found, part (.suffix found)]
  -- suffixes
  | suffixMember : Production (.suffix .member) .bare [word .dot, word .id]
  | suffixIndex : Production (.suffix .index) .bare
      [word .bracketOpen, part (.expression 0 false), word .bracketClose]
  | suffixCall : Production (.suffix .call) .bare [part .callArguments]
  | suffixIncrement : Production (.suffix .increment) .bare [wordIn isIncrement]
  | suffixTernary : Production (.suffix .ternary) .bare
      [word .question, part (.expression 0 true), word .colon, part (.expression Power.ternary true)]
  | suffixAssignment : Production (.suffix .assignment) .bare
      [word .equals, part (.expression Power.assignment true)]
  | suffixUpdate : Production (.suffix .update) .bare [wordIn isUpdate, part (.expression Power.assignment true)]
  | suffixBinary (power : Nat) : Production (.suffix (.binary power)) .bare
      [wordIn fun kind => Power.binary? kind == some power, part (.expression (power + 1) false)]
  -- operands
  | operandNegative {tableAllowed : Bool} : Production (.operand tableAllowed) .bare [part .negative]
  | prefixed {tableAllowed : Bool} : Production (.operand tableAllowed) (.node .unaryExpression)
      [check fun words => ¬(here words = .minus ∧ NumberFollows words), wordIn TokenSet.prefixOperators.contains,
        part (.expression Power.accessor true)]
  | operandParenthesized {tableAllowed : Bool} : Production (.operand tableAllowed) .bare [part .parenthesized]
  | operandArray {tableAllowed : Bool} : Production (.operand tableAllowed) .bare [part .array]
  | operandTable : Production (.operand true) .bare [part .table]
  | identifier {tableAllowed : Bool} : Production (.operand tableAllowed) (.node .identifier) [word .id]
  | globalVariable {tableAllowed : Bool} :
      Production (.operand tableAllowed) (.node .globalVariable) [word .doubleColon, word .id]
  | lambda {tableAllowed : Bool} : Production (.operand tableAllowed) (.node .lambdaExpression)
      [word .atSign, part .parameters, part (.expression 0 false)]
  | anonymousFunction {tableAllowed : Bool} : Production (.operand tableAllowed) (.node .anonymousFunction)
      [word .kwFunction, part .parameters, part .statement]
  | keyword {tableAllowed : Bool} {keyword node : Kind} (hkeyword : keywordNode? keyword = some node) :
      Production (.operand tableAllowed) (.node node) [word keyword, part (.expression 0 false)]
  | rawcall {tableAllowed : Bool} : Production (.operand tableAllowed) (.node .callExpression)
      [word .kwRawcall, part .callArguments]
  | operandLiteral {tableAllowed : Bool} : Production (.operand tableAllowed) .bare [part .literal]
  | parenthesized : Production .parenthesized (.node .parenthesizedExpression)
      [word .parenOpen, part (.expression 0 false), word .parenClose]
  | negativeInteger : Production .negative (.tight .integer)
      [check NumberFollows, word .minus, word .integerLit]
  | negativeFloat : Production .negative (.tight .float) [check NumberFollows, word .minus, word .floatLit]
  | literal {kind node : Kind} (hliteral : literalNode? kind = some node) :
      Production .literal (.tight node) [word kind]
  -- arrays, tables and arguments
  | array : Production .array (.node .array) [word .bracketOpen, part .elements, word .bracketClose]
  | elementsEnd : Production .elements .bare []
  | elementsMore : Production .elements .bare
      [part (.expression 0 true), part (.optional .comma), part .elements]
  | table : Production .table (.node .table) [word .braceOpen, part .slots, word .braceClose]
  | slotsEnd : Production .slots .bare []
  | slotsMore : Production .slots .bare [part .slot, part (.optional .comma), part .slots]
  | namedSlot : Production .slot (.node .tableSlot) [word .id, word .equals, part (.expression 0 true)]
  | computedSlot : Production .slot (.node .tableSlot)
      [word .bracketOpen, part (.expression 0 false), word .bracketClose, word .equals, part (.expression 0 true)]
  | methodSlot : Production .slot (.node .tableSlot) [part .functionDeclaration]
  | keyedSlot : Production .slot (.node .tableSlot)
      [check StartsKey, part (.expression (Power.ternary + 1) false), word .colon, part (.expression 0 true)]
  | callArguments : Production .callArguments (.node .callArgs)
      [word .parenOpen, part .arguments, word .parenClose]
  | argumentsEnd : Production .arguments .bare []
  | lastArgument : Production .arguments .bare [part (.expression 0 true)]
  | moreArguments : Production .arguments .bare [part (.expression 0 true), word .comma, part .arguments]
  -- optional tokens
  | noToken {kind : Kind} : Production (.optional kind) .bare [check fun words => here words ≠ kind]
  | someToken {kind : Kind} : Production (.optional kind) .bare [word kind]

/-! ### Derivations -/

/-- Items stand for the words in front of the last ones and place the given trees. -/
inductive Derives : List Item → List Word → List Word → List Tree → Prop where
  | nil {words : List Word} : Derives [] words words []
  | word {kind : Kind} {items : List Item} {word : Word} {rest last : List Word} {trees : List Tree}
      (hkind : word.kind = kind) (hitems : Derives items rest last trees) :
      Derives (.word kind :: items) (word :: rest) last (word.tree :: trees)
  | wordIn {accepts : Kind → Bool} {items : List Item} {word : Word} {rest last : List Word} {trees : List Tree}
      (hkind : accepts word.kind = true) (hitems : Derives items rest last trees) :
      Derives (.wordIn accepts :: items) (word :: rest) last (word.tree :: trees)
  | check {condition : List Word → Prop} {items : List Item} {words last : List Word} {trees : List Tree}
      (hcondition : condition words) (hitems : Derives items words last trees) :
      Derives (.check condition :: items) words last trees
  | part {phrase : Phrase} {form : Form} {body items : List Item} {words middle last : List Word}
      {parts placed trees : List Tree} (hproduction : Production phrase form body)
      (hbody : Derives body words middle parts) (hform : form.Holds parts placed)
      (hitems : Derives items middle last trees) :
      Derives (.part phrase :: items) words last (placed ++ trees)

namespace Derives

/-- A phrase by itself. -/
theorem phrase {phrase : Phrase} {form : Form} {body : List Item} {words last : List Word} {parts placed : List Tree}
    (hproduction : Production phrase form body) (hbody : Derives body words last parts)
    (hform : form.Holds parts placed) : Derives [.part phrase] words last placed := by
  have hpart := part hproduction hbody hform nil
  rwa [List.append_nil] at hpart

/-- A condition by itself. -/
theorem guard {words : List Word} (condition : List Word → Prop) (hcondition : condition words) :
    Derives [.check condition] words words [] :=
  check hcondition nil

theorem append {left right : List Item} {words middle last : List Word} {first second : List Tree}
    (hleft : Derives left words middle first) (hright : Derives right middle last second) :
    Derives (left ++ right) words last (first ++ second) := by
  induction hleft with
  | nil => exact hright
  | word hkind _ ih => exact word hkind (ih hright)
  | wordIn hkind _ ih => exact wordIn hkind (ih hright)
  | check hcondition _ ih => exact check hcondition (ih hright)
  | part hproduction hbody hform _ _ ih =>
    rw [List.append_assoc]
    exact part hproduction hbody hform (ih hright)

/-- The production behind a phrase. -/
theorem exists_production {phrase : Phrase} {words last : List Word} {placed : List Tree}
    (hderives : Derives [.part phrase] words last placed) :
    ∃ form body parts, Production phrase form body ∧ Derives body words last parts ∧ form.Holds parts placed := by
  cases hderives with
  | part hproduction hbody hform hitems =>
    cases hitems
    rw [List.append_nil]
    exact ⟨_, _, _, hproduction, hbody, hform⟩

theorem split (left : List Item) {right : List Item} {words last : List Word} {trees : List Tree}
    (hderives : Derives (left ++ right) words last trees) :
    ∃ middle first second, Derives left words middle first ∧ Derives right middle last second ∧
      trees = first ++ second := by
  induction left generalizing words trees with
  | nil => exact ⟨words, [], trees, nil, hderives, rfl⟩
  | cons item items ih =>
    cases hderives with
    | word hkind hitems =>
      obtain ⟨middle, first, second, hleft, hright, rfl⟩ := ih hitems
      exact ⟨middle, _, second, word hkind hleft, hright, rfl⟩
    | wordIn hkind hitems =>
      obtain ⟨middle, first, second, hleft, hright, rfl⟩ := ih hitems
      exact ⟨middle, _, second, wordIn hkind hleft, hright, rfl⟩
    | check hcondition hitems =>
      obtain ⟨middle, first, second, hleft, hright, rfl⟩ := ih hitems
      exact ⟨middle, first, second, check hcondition hleft, hright, rfl⟩
    | part hproduction hbody hform hitems =>
      obtain ⟨middle, first, second, hleft, hright, rfl⟩ := ih hitems
      exact ⟨middle, _, second, part hproduction hbody hform hleft, hright, by rw [List.append_assoc]⟩

end Derives

end Squirrel
