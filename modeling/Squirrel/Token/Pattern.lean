/-!
# Patterns of characters

Regular expressions as data, the texts they match, and the longest start of a text that one of several patterns matches.
Matching goes by derivatives: the derivative of a pattern by a character matches what may follow that character. At
equal length the pattern that stands first wins.
-/

namespace Squirrel

inductive Pattern where
  /-- Matches nothing, not even the empty text. -/
  | never
  | empty
  | one (allowed : Char → Bool)
  | seq (first second : Pattern)
  | alt (left right : Pattern)
  | many (inner : Pattern)

namespace Pattern

/-- The texts that a pattern describes. -/
inductive Matches : Pattern → List Char → Prop
  | empty : Matches .empty []
  | one {allowed : Char → Bool} {c : Char} : allowed c = true → Matches (.one allowed) [c]
  | seq {first second : Pattern} {text rest : List Char} :
      Matches first text → Matches second rest → Matches (.seq first second) (text ++ rest)
  | left {left right : Pattern} {text : List Char} : Matches left text → Matches (.alt left right) text
  | right {left right : Pattern} {text : List Char} : Matches right text → Matches (.alt left right) text
  | done {inner : Pattern} : Matches (.many inner) []
  | again {inner : Pattern} {text rest : List Char} :
      Matches inner text → Matches (.many inner) rest → Matches (.many inner) (text ++ rest)

/-- Whether the empty text matches. -/
def nullable : Pattern → Bool
  | never => false
  | empty => true
  | one _ => false
  | seq first second => first.nullable && second.nullable
  | alt left right => left.nullable || right.nullable
  | many _ => true

def isNever : Pattern → Bool
  | never => true
  | _ => false

/-- `seq`, but `never` if the first part never matches. -/
def followedBy : Pattern → Pattern → Pattern
  | never, _ => never
  | empty, second => second
  | first, second => seq first second

/-- `alt`, without a side that never matches. -/
def orElse : Pattern → Pattern → Pattern
  | never, right => right
  | left, never => left
  | left, right => alt left right

/-- What may follow the character in a text that the pattern matches. -/
def derivative (c : Char) : Pattern → Pattern
  | never => never
  | empty => never
  | one allowed => if allowed c then empty else never
  | seq first second =>
    let within := (first.derivative c).followedBy second
    if first.nullable then within.orElse (second.derivative c) else within
  | alt left right => (left.derivative c).orElse (right.derivative c)
  | many inner => (inner.derivative c).followedBy (many inner)

/-! ### Building patterns -/

def ofChars (text : List Char) : Pattern := text.foldr (fun c rest => seq (one (· == c)) rest) empty

def ofString (text : String) : Pattern := ofChars text.toList

/-- One or more. -/
def some (inner : Pattern) : Pattern := seq inner (many inner)

def optional (inner : Pattern) : Pattern := alt inner empty

/-! ### The longest match -/

/-- Follows all rules along the text at once. `best` is the longest match among the characters passed so far. -/
def longestFrom {κ : Type} (rules : List (κ × Pattern)) (passed : Nat) (best : Option (κ × Nat)) :
    List Char → Option (κ × Nat)
  | [] => here rules passed best
  | c :: rest =>
    let remaining := rules.filterMap fun (name, pattern) =>
      let next := pattern.derivative c
      if next.isNever then none else Option.some (name, next)
    let best := here rules passed best
    if remaining.isEmpty then best else longestFrom remaining (passed + 1) best rest
where
  /-- A match that ends here is longer than any before it. -/
  here (rules : List (κ × Pattern)) (passed : Nat) (best : Option (κ × Nat)) : Option (κ × Nat) :=
    match rules.find? fun (_, pattern) => pattern.nullable with
    | Option.some (name, _) => Option.some (name, passed)
    | none => best

/-- The rule with the longest match at the start of the text, and the length of that match in characters. -/
def longest? {κ : Type} (rules : List (κ × Pattern)) (text : List Char) : Option (κ × Nat) :=
  longestFrom rules 0 none text

end Pattern

end Squirrel
