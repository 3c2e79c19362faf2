import Squirrel.Kind

/-!
# Sets of token kinds

A set has one bit for each of the first 128 kinds, which holds every token kind. The named sets say what may start a
construct and where recovery stops; the grammar tests them and nothing else about them.
-/

namespace Squirrel

/-- A set of kinds whose numbers are below the capacity. -/
structure TokenSet where
  bits : BitVec 128
  deriving DecidableEq

namespace TokenSet

def capacity : Nat := 128

def empty : TokenSet := ⟨0⟩

/-- The set of one kind, if its number fits. -/
def single? (kind : Kind) : Option TokenSet :=
  if kind.number < capacity then some ⟨BitVec.twoPow 128 kind.number⟩ else none

def contains (set : TokenSet) (kind : Kind) : Bool := set.bits.getLsbD kind.number

def union (left right : TokenSet) : TokenSet := ⟨left.bits ||| right.bits⟩

def ofList (kinds : List Kind) : TokenSet :=
  ⟨kinds.foldl (fun bits kind => bits ||| BitVec.twoPow 128 kind.number) 0⟩

/-- The members in the order of their numbers. -/
def toList (set : TokenSet) : List Kind := Kind.all.filter set.contains

def size (set : TokenSet) : Nat := set.toList.length

/-- The members' names in braces. -/
def describe (set : TokenSet) : String := "\x7b" ++ ", ".intercalate (set.toList.map Kind.name) ++ "\x7d"

instance : Union TokenSet := ⟨union⟩

/-! ### What starts a construct -/

/-- Tokens that form a literal node on their own. -/
def literals : TokenSet :=
  ofList [.integerLit, .floatLit, .stringLit, .verbatimStringLit, .charLit, .kwTrue, .kwFalse, .kwNull]

def prefixOperators : TokenSet := ofList [.minus, .bang, .tilde, .kwTypeof, .plusPlus, .minusMinus]

/-- What starts an expression. Tables are left out: whether one is allowed depends on the position. -/
def expressionFirst : TokenSet :=
  ofList [.parenOpen, .bracketOpen, .id, .doubleColon, .atSign, .kwFunction, .kwClone, .kwDelete, .kwResume,
    .kwRawcall, .garbage] ∪ literals ∪ prefixOperators

/-- Keywords that can only start a statement. -/
def statementKeywords : TokenSet :=
  ofList [.kwIf, .kwWhile, .kwDo, .kwSwitch, .kwFor, .kwForeach, .kwBreak, .kwContinue, .kwReturn, .kwYield, .kwLocal,
    .kwVar, .kwClass, .kwTry, .kwThrow, .kwConst, .kwEnum]

def statementFirst : TokenSet := expressionFirst ∪ statementKeywords ∪ ofList [.braceOpen, .semicolon]

def assignOperators : TokenSet :=
  ofList [.equals, .newSlot, .plusEquals, .minusEquals, .starEquals, .slashEquals, .percentEquals]

def memberFirst : TokenSet :=
  ofList [.id, .kwStatic, .bracketOpen, .kwFunction, .kwConstructor, .attributeOpen]

/-! ### Where recovery stops -/

def statementRecovery : TokenSet := statementKeywords ∪ ofList [.braceClose, .semicolon, .kwFunction]

/-- Tokens that end a delimited list even when its closer is missing. -/
def listRecovery : TokenSet := statementKeywords ∪ ofList [.semicolon]

def memberRecovery : TokenSet := memberFirst ∪ ofList [.braceClose]

/-- Where skipping stops after a token that cannot start a statement. -/
def statementSync : TokenSet := statementFirst ∪ statementRecovery ∪ ofList [.kwCase, .kwDefault]

def caseBodyEnd : TokenSet := ofList [.kwCase, .kwDefault, .braceClose]

def argumentsRecovery : TokenSet := listRecovery ∪ ofList [.parenClose, .comma, .braceClose]

def parametersRecovery : TokenSet := listRecovery ∪ ofList [.parenClose, .comma, .braceOpen, .braceClose]

def arrayRecovery : TokenSet := listRecovery ∪ ofList [.bracketClose, .comma, .braceClose]

def tableRecovery : TokenSet := listRecovery ∪ ofList [.braceClose, .comma, .id, .bracketOpen, .kwFunction]

def enumRecovery : TokenSet := listRecovery ∪ ofList [.braceClose, .comma, .id]

def attributesRecovery : TokenSet := listRecovery ∪ ofList [.attributeClose, .comma, .id, .braceOpen]

end TokenSet

end Squirrel
