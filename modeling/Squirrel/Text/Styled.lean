/-!
# Styled rows

A row of text whose characters have styles. Text is written into a row at a column, over what stands there, and the row
grows with blanks as far as it must. A row without styles is its characters; with styles, each run of one style stands
between the codes that switch the style on and off.
-/

namespace Squirrel.Text

inductive Style where
  | plain | strong | error | warning | gutter | help | added | removed
  deriving DecidableEq

namespace Style

/-- The terminal codes that switch a style on. -/
def codes : Style → String
  | plain => ""
  | strong => "\x1b[1m"
  | error => "\x1b[1m\x1b[91m"
  | warning => "\x1b[1m\x1b[33m"
  | gutter => "\x1b[1m\x1b[94m"
  | help => "\x1b[1m\x1b[96m"
  | added => "\x1b[92m"
  | removed => "\x1b[91m"

/-- The terminal code that switches every style off. -/
def reset : String := "\x1b[0m"

def paint (style : Style) (text : String) : String :=
  match style with
  | plain => text
  | _ => style.codes ++ text ++ reset

end Style

structure Cell where
  char : Char
  style : Style
  deriving DecidableEq

structure Row where
  cells : List Cell
  deriving DecidableEq

/-- A text with the column that it is written at. -/
structure Mark where
  column : Nat
  style : Style
  text : String

namespace Row

def empty : Row := ⟨[]⟩

def blank : Cell := ⟨' ', .plain⟩

/-- Writing nothing changes nothing, also behind the end of a row. -/
def write (row : Row) (mark : Mark) : Row :=
  match mark.text.toList with
  | [] => row
  | chars =>
    let before := row.cells.take mark.column ++ List.replicate (mark.column - row.cells.length) blank
    ⟨before ++ chars.map (⟨·, mark.style⟩) ++ row.cells.drop (mark.column + chars.length)⟩

/-- Marks in the order in which they are written: later ones cover earlier ones. -/
def ofMarks (marks : List Mark) : Row := marks.foldl write empty

/-- Texts side by side. -/
def ofRuns (runs : List (Style × String)) : Row :=
  ⟨runs.flatMap fun (style, text) => text.toList.map (⟨·, style⟩)⟩

def append (left right : Row) : Row := ⟨left.cells ++ right.cells⟩

instance : Append Row := ⟨append⟩

def textOf (cells : List Cell) : String := String.ofList (cells.map Cell.char)

def plain (row : Row) : String := textOf row.cells

def colored (row : Row) : String :=
  let runs := row.cells.splitBy fun left right => left.style == right.style
  String.join (runs.map fun run => ((run.head?.map Cell.style).getD .plain).paint (textOf run))

end Row

end Squirrel.Text
