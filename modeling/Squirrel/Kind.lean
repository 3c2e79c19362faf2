/-!
# Kinds of tokens and nodes

Every piece of a script has a kind: punctuation and keywords, which are always spelled the same way, literals and names,
trivia, the openers of tokens whose end depends on their content, input that is no token at all, and the nodes that the
grammar builds. A kind's number is its place in the list, so token kinds come before node kinds.
-/

namespace Squirrel

inductive Kind where
  -- punctuation and operators
  | parenOpen | parenClose | bracketOpen | bracketClose | braceOpen | braceClose | comma | semicolon | colon
  | doubleColon | dot | ellipsis | atSign | question | equals | newSlot | plusEquals | minusEquals | starEquals
  | slashEquals | percentEquals | plusPlus | minusMinus | plus | minus | star | slash | percent | pipePipe
  | ampAmp | pipe | caret | amp | equalsEquals | bangEquals | spaceship | greater | greaterEquals | less
  | lessEquals | shiftLeft | shiftRight | unsignedShiftRight | bang | tilde | attributeOpen | attributeClose
  -- keywords
  | kwIf | kwElse | kwWhile | kwDo | kwSwitch | kwCase | kwDefault | kwFor | kwForeach | kwBreak | kwContinue
  | kwReturn | kwYield | kwLocal | kwFunction | kwClass | kwExtends | kwStatic | kwConstructor | kwTry
  | kwCatch | kwThrow | kwConst | kwEnum | kwDelete | kwClone | kwIn | kwInstanceof | kwTypeof | kwTrue
  | kwFalse | kwNull | kwRawcall | kwResume | kwVar
  -- names and literals
  | id | integerLit | floatLit | stringLit | verbatimStringLit | charLit
  -- trivia
  | whitespace | newline | lineComment | blockComment
  -- openers of comments, strings and char literals
  | blockCommentStart | lineCommentStart | stringStart | verbatimStart | charStart
  -- rejected input
  | garbage | error
  -- nodes
  | script | block | emptyStatement | expressionStatement | ifStatement | elseStatement | whileStatement
  | doWhileStatement | switchStatement | caseStatement | defaultStatement | forStatement | foreachStatement
  | breakStatement | continueStatement | returnStatement | yieldStatement | localDeclaration | localBinding
  | varStatement | functionDeclaration | parameters | parameter | classDeclaration | memberDeclaration
  | tryStatement | catchStatement | throwStatement | constDeclaration | enumDeclaration | enumEntry
  | attributeDeclaration | attributeEntry | unaryExpression | binaryExpression | ternaryExpression
  | assignmentExpression | updateExpression | callExpression | callArgs | indexExpression | derefExpression
  | lambdaExpression | anonymousFunction | parenthesizedExpression | cloneExpression | deleteExpression
  | resumeExpression | array | table | tableSlot | identifier | globalVariable | integer | float | str
  | verbatimStr | char | bool | null
  deriving DecidableEq, Inhabited

namespace Kind

/-- How many kinds there are. -/
def count : Nat := 159

/-- The place of a kind in the list of all kinds. -/
def number (kind : Kind) : Nat := kind.ctorIdx

def ofNumber? (n : Nat) : Option Kind := if n < count then some (Kind.ofNat n) else none

/-- All kinds in the order of their numbers. -/
def all : List Kind := (List.range count).map Kind.ofNat

/-! ### Classes -/

def isTrivia : Kind → Bool
  | whitespace | newline | lineComment | blockComment => true
  | _ => false

/-- Input that no rule of the grammar accepts. -/
def isRejected : Kind → Bool
  | garbage | error => true
  | _ => false

def isKeyword (kind : Kind) : Bool := kwIf.number ≤ kind.number && kind.number ≤ kwVar.number

def isNode (kind : Kind) : Bool := script.number ≤ kind.number

/-- The kinds that only open a token; the token itself gets its kind once its end is found. -/
def isOpener : Kind → Bool
  | blockCommentStart | lineCommentStart | stringStart | verbatimStart | charStart => true
  | _ => false

/-- The nodes that stand for a statement. -/
def isStatement : Kind → Bool
  | block | emptyStatement | expressionStatement | ifStatement | whileStatement | doWhileStatement | switchStatement
  | forStatement | foreachStatement | breakStatement | continueStatement | returnStatement | yieldStatement
  | localDeclaration | varStatement | functionDeclaration | classDeclaration | tryStatement | throwStatement
  | constDeclaration | enumDeclaration => true
  | _ => false

/-- The nodes that stand for an expression, table literals included. -/
def isExpression : Kind → Bool
  | unaryExpression | binaryExpression | ternaryExpression | assignmentExpression | updateExpression | callExpression
  | indexExpression | derefExpression | lambdaExpression | anonymousFunction | parenthesizedExpression
  | cloneExpression | deleteExpression | resumeExpression | array | table | identifier | globalVariable | integer
  | float | str | verbatimStr | char | bool | null => true
  | _ => false

/-! ### Texts -/

/-- The text of a kind that is always spelled the same way: punctuation, operators and keywords. -/
def spelling? : Kind → Option String
  | parenOpen => some "("
  | parenClose => some ")"
  | bracketOpen => some "["
  | bracketClose => some "]"
  | braceOpen => some "\x7b"
  | braceClose => some "\x7d"
  | comma => some ","
  | semicolon => some ";"
  | colon => some ":"
  | doubleColon => some "::"
  | dot => some "."
  | ellipsis => some "..."
  | atSign => some "@"
  | question => some "?"
  | equals => some "="
  | newSlot => some "<-"
  | plusEquals => some "+="
  | minusEquals => some "-="
  | starEquals => some "*="
  | slashEquals => some "/="
  | percentEquals => some "%="
  | plusPlus => some "++"
  | minusMinus => some "--"
  | plus => some "+"
  | minus => some "-"
  | star => some "*"
  | slash => some "/"
  | percent => some "%"
  | pipePipe => some "||"
  | ampAmp => some "&&"
  | pipe => some "|"
  | caret => some "^"
  | amp => some "&"
  | equalsEquals => some "=="
  | bangEquals => some "!="
  | spaceship => some "<=>"
  | greater => some ">"
  | greaterEquals => some ">="
  | less => some "<"
  | lessEquals => some "<="
  | shiftLeft => some "<<"
  | shiftRight => some ">>"
  | unsignedShiftRight => some ">>>"
  | bang => some "!"
  | tilde => some "~"
  | attributeOpen => some "</"
  | attributeClose => some "/>"
  | kwIf => some "if"
  | kwElse => some "else"
  | kwWhile => some "while"
  | kwDo => some "do"
  | kwSwitch => some "switch"
  | kwCase => some "case"
  | kwDefault => some "default"
  | kwFor => some "for"
  | kwForeach => some "foreach"
  | kwBreak => some "break"
  | kwContinue => some "continue"
  | kwReturn => some "return"
  | kwYield => some "yield"
  | kwLocal => some "local"
  | kwFunction => some "function"
  | kwClass => some "class"
  | kwExtends => some "extends"
  | kwStatic => some "static"
  | kwConstructor => some "constructor"
  | kwTry => some "try"
  | kwCatch => some "catch"
  | kwThrow => some "throw"
  | kwConst => some "const"
  | kwEnum => some "enum"
  | kwDelete => some "delete"
  | kwClone => some "clone"
  | kwIn => some "in"
  | kwInstanceof => some "instanceof"
  | kwTypeof => some "typeof"
  | kwTrue => some "true"
  | kwFalse => some "false"
  | kwNull => some "null"
  | kwRawcall => some "rawcall"
  | kwResume => some "resume"
  | kwVar => some "var"
  | _ => none

/-- What messages call a kind: its spelling between backquotes, or a word for what it is. -/
def displayName (kind : Kind) : String :=
  match kind.spelling? with
  | some text => "`" ++ text ++ "`"
  | none =>
    match kind with
    | id => "identifier"
    | integerLit => "integer"
    | floatLit => "float"
    | stringLit | stringStart => "string"
    | verbatimStringLit | verbatimStart => "verbatim string"
    | charLit | charStart => "char"
    | whitespace => "whitespace"
    | newline => "line break"
    | lineComment | blockComment | lineCommentStart | blockCommentStart => "comment"
    | garbage | error => "invalid input"
    | _ => "syntax node"

/-- The name of a kind in listings of tokens and trees. -/
def name : Kind → String
  | parenOpen => "ParenOpen"
  | parenClose => "ParenClose"
  | bracketOpen => "BracketOpen"
  | bracketClose => "BracketClose"
  | braceOpen => "BraceOpen"
  | braceClose => "BraceClose"
  | comma => "Comma"
  | semicolon => "Semicolon"
  | colon => "Colon"
  | doubleColon => "DoubleColon"
  | dot => "Dot"
  | ellipsis => "Ellipsis"
  | atSign => "At"
  | question => "Question"
  | equals => "Equals"
  | newSlot => "NewSlot"
  | plusEquals => "PlusEquals"
  | minusEquals => "MinusEquals"
  | starEquals => "StarEquals"
  | slashEquals => "SlashEquals"
  | percentEquals => "PercentEquals"
  | plusPlus => "PlusPlus"
  | minusMinus => "MinusMinus"
  | plus => "Plus"
  | minus => "Minus"
  | star => "Star"
  | slash => "Slash"
  | percent => "Percent"
  | pipePipe => "PipePipe"
  | ampAmp => "AmpAmp"
  | pipe => "Pipe"
  | caret => "Caret"
  | amp => "Amp"
  | equalsEquals => "EqualsEquals"
  | bangEquals => "BangEquals"
  | spaceship => "Spaceship"
  | greater => "Greater"
  | greaterEquals => "GreaterEquals"
  | less => "Less"
  | lessEquals => "LessEquals"
  | shiftLeft => "ShiftLeft"
  | shiftRight => "ShiftRight"
  | unsignedShiftRight => "UnsignedShiftRight"
  | bang => "Bang"
  | tilde => "Tilde"
  | attributeOpen => "AttributeOpen"
  | attributeClose => "AttributeClose"
  | kwIf => "KwIf"
  | kwElse => "KwElse"
  | kwWhile => "KwWhile"
  | kwDo => "KwDo"
  | kwSwitch => "KwSwitch"
  | kwCase => "KwCase"
  | kwDefault => "KwDefault"
  | kwFor => "KwFor"
  | kwForeach => "KwForeach"
  | kwBreak => "KwBreak"
  | kwContinue => "KwContinue"
  | kwReturn => "KwReturn"
  | kwYield => "KwYield"
  | kwLocal => "KwLocal"
  | kwFunction => "KwFunction"
  | kwClass => "KwClass"
  | kwExtends => "KwExtends"
  | kwStatic => "KwStatic"
  | kwConstructor => "KwConstructor"
  | kwTry => "KwTry"
  | kwCatch => "KwCatch"
  | kwThrow => "KwThrow"
  | kwConst => "KwConst"
  | kwEnum => "KwEnum"
  | kwDelete => "KwDelete"
  | kwClone => "KwClone"
  | kwIn => "KwIn"
  | kwInstanceof => "KwInstanceof"
  | kwTypeof => "KwTypeof"
  | kwTrue => "KwTrue"
  | kwFalse => "KwFalse"
  | kwNull => "KwNull"
  | kwRawcall => "KwRawcall"
  | kwResume => "KwResume"
  | kwVar => "KwVar"
  | id => "Id"
  | integerLit => "IntegerLit"
  | floatLit => "FloatLit"
  | stringLit => "StringLit"
  | verbatimStringLit => "VerbatimStringLit"
  | charLit => "CharLit"
  | whitespace => "Whitespace"
  | newline => "Newline"
  | lineComment => "LineComment"
  | blockComment => "BlockComment"
  | blockCommentStart => "BlockCommentStart"
  | lineCommentStart => "LineCommentStart"
  | stringStart => "StringStart"
  | verbatimStart => "VerbatimStart"
  | charStart => "CharStart"
  | garbage => "Garbage"
  | error => "Error"
  | script => "Script"
  | block => "Block"
  | emptyStatement => "EmptyStatement"
  | expressionStatement => "ExpressionStatement"
  | ifStatement => "IfStatement"
  | elseStatement => "ElseStatement"
  | whileStatement => "WhileStatement"
  | doWhileStatement => "DoWhileStatement"
  | switchStatement => "SwitchStatement"
  | caseStatement => "CaseStatement"
  | defaultStatement => "DefaultStatement"
  | forStatement => "ForStatement"
  | foreachStatement => "ForeachStatement"
  | breakStatement => "BreakStatement"
  | continueStatement => "ContinueStatement"
  | returnStatement => "ReturnStatement"
  | yieldStatement => "YieldStatement"
  | localDeclaration => "LocalDeclaration"
  | localBinding => "LocalBinding"
  | varStatement => "VarStatement"
  | functionDeclaration => "FunctionDeclaration"
  | parameters => "Parameters"
  | parameter => "Parameter"
  | classDeclaration => "ClassDeclaration"
  | memberDeclaration => "MemberDeclaration"
  | tryStatement => "TryStatement"
  | catchStatement => "CatchStatement"
  | throwStatement => "ThrowStatement"
  | constDeclaration => "ConstDeclaration"
  | enumDeclaration => "EnumDeclaration"
  | enumEntry => "EnumEntry"
  | attributeDeclaration => "AttributeDeclaration"
  | attributeEntry => "Attribute"
  | unaryExpression => "UnaryExpression"
  | binaryExpression => "BinaryExpression"
  | ternaryExpression => "TernaryExpression"
  | assignmentExpression => "AssignmentExpression"
  | updateExpression => "UpdateExpression"
  | callExpression => "CallExpression"
  | callArgs => "CallArgs"
  | indexExpression => "IndexExpression"
  | derefExpression => "DerefExpression"
  | lambdaExpression => "LambdaExpression"
  | anonymousFunction => "AnonymousFunction"
  | parenthesizedExpression => "ParenthesizedExpression"
  | cloneExpression => "CloneExpression"
  | deleteExpression => "DeleteExpression"
  | resumeExpression => "ResumeExpression"
  | array => "Array"
  | table => "Table"
  | tableSlot => "TableSlot"
  | identifier => "Identifier"
  | globalVariable => "GlobalVariable"
  | integer => "Integer"
  | float => "Float"
  | str => "Str"
  | verbatimStr => "VerbatimStr"
  | char => "Char"
  | bool => "Bool"
  | null => "Null"

def ofName? (text : String) : Option Kind := all.find? (·.name == text)

theorem number_lt (kind : Kind) : kind.number < count := by cases kind <;> decide

theorem ofNumber?_number (kind : Kind) : ofNumber? kind.number = some kind := by cases kind <;> rfl

end Kind

end Squirrel
