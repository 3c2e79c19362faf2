import Squirrel.Diagnostic
import Squirrel.Diagnostic.Marker
import Squirrel.Position

/-!
# Snippets

A diagnostic shown with the line of source that it is about: a title, the place if the source has a path, the line, and
markers under the span and the related spans that start in the same line. A fix adds the line as it would become. The
line's number stands in front of a gutter that all rows of a snippet share.
-/

namespace Squirrel

open Text (Mark Row Style)

/-! ### What a source line looks like -/

/-- How a character is shown: a tab as four blanks, any other control character as its picture. -/
def shownChar (c : Char) : List Char :=
  if c = '\t' then [' ', ' ', ' ', ' ']
  else if c.toNat < 0x20 then [Char.ofNat (0x2400 + c.toNat)]
  else if c.toNat = 0x7f then ['␡']
  else [c]

def shown (text : List Char) : String := String.ofList (text.flatMap shownChar)

/-- A line of a source, without the end of the line. -/
structure SourceLine where
  number : Nat
  /-- The offset at which the line starts. -/
  start : Nat
  chars : List Char

namespace SourceLine

/-- The line that an offset is in. -/
def ofOffset (source : String) (offset : Nat) : SourceLine :=
  let table := LineTable.ofText source
  let position := table.position offset
  let text := ((source.splitOn "\n")[position.line - 1]?.getD "").toList
  let chars := if text.getLast? = some '\r' then text.dropLast else text
  ⟨position.line, (table.starts[position.line - 1]?).getD 0, chars⟩

/-- The characters of a line before some number of bytes. -/
def charsBefore : Nat → List Char → List Char
  | _, [] => []
  | bytes, c :: rest => if bytes = 0 then [] else c :: charsBefore (bytes - c.utf8Size) rest

def before (line : SourceLine) (offset : Nat) : List Char := charsBefore (offset - line.start) line.chars

def behind (line : SourceLine) (offset : Nat) : List Char := line.chars.drop (line.before offset).length

def between (line : SourceLine) (start stop : Nat) : List Char :=
  (line.before stop).drop (line.before start).length

/-- The column at which an offset of the line is shown. -/
def column (line : SourceLine) (offset : Nat) : Nat := ((line.before offset).flatMap shownChar).length

end SourceLine

/-! ### Markers of a diagnostic -/

namespace Severity

def style : Severity → Style
  | error => .error
  | warning => .warning

end Severity

namespace Diagnostic

/-- A span as it is shown: an empty one takes in the next byte, if there is one. -/
def shownSpan (source : String) (span : Span) : Span :=
  if span.start = span.stop then ⟨span.start, min (span.start + 1) source.utf8ByteSize⟩ else span

/-- The marker of a span. What has no width at the end of a source still gets one column. -/
def marker (line : SourceLine) (span : Span) (label : String) (isPrimary : Bool) (style : Style) : Marker :=
  let start := line.column span.start
  ⟨start, max (start + 1) (line.column span.stop), shown label.toList, isPrimary, style⟩

def markers (diagnostic : Diagnostic) (source : String) (line : SourceLine) : List Marker :=
  let related := diagnostic.related.filter fun entry =>
    (SourceLine.ofOffset source (shownSpan source entry.span).start).number = line.number
  marker line (shownSpan source diagnostic.span) diagnostic.message true diagnostic.severity.style ::
    related.map fun entry => marker line (shownSpan source entry.span) entry.message false .gutter

end Diagnostic

/-! ### Rows with a gutter -/

namespace Snippet

/-- The width of the line numbers. -/
def numberWidth (line : SourceLine) : Nat := (toString line.number).length

def blanks (count : Nat) : String := String.ofList (List.replicate count ' ')

/-- The gutter of a row without a line number. -/
def bar (line : SourceLine) : Row := .ofRuns [(.plain, blanks (numberWidth line + 1)), (.gutter, "|")]

def title (style : Style) (lead : String) (textStyle : Style) (text : String) : Row :=
  .ofRuns [(style, lead), (textStyle, ": " ++ text)]

def place (line : SourceLine) (path : String) (position : Position) : Row :=
  .ofRuns [(.plain, blanks (numberWidth line)), (.gutter, "--> "), (.plain, path ++ ":" ++ position.describe)]

def numbered (line : SourceLine) (content : List (Style × String)) : Row :=
  .ofRuns ((Style.gutter, toString line.number) :: (.plain, " ") :: content)

def sourceRow (line : SourceLine) : Row :=
  numbered line ((.gutter, "|") :: if line.chars.isEmpty then [] else [(.plain, " " ++ shown line.chars)])

/-- A row of marks under a line. -/
def marked (line : SourceLine) (marks : Row) : Row := bar line ++ .ofRuns [(.plain, " ")] ++ marks

/-! ### Fixes -/

/-- How many characters two texts have in common at their starts. -/
def commonLength : List Char → List Char → Nat
  | a :: left, b :: right => if a = b then commonLength left right + 1 else 0
  | _, _ => 0

/-- What a replacement adds, and behind how many characters, if it keeps all of the text it replaces. An addition at
the end is tried first, then one at the start, then one after what both have in common. -/
def addition? (replaced replacement : List Char) : Option (Nat × List Char) :=
  let atEnd := replaced.length
  let common := commonLength replaced replacement
  if common = atEnd then some (atEnd, replacement.drop atEnd)
  else if replaced <:+ replacement then some (0, replacement.take (replacement.length - atEnd))
  else if replaced.drop common <:+ replacement.drop common then
    some (common, (replacement.drop common).take (replacement.length - atEnd))
  else none

def isBlank (c : Char) : Bool := c == ' ' || c == '\t'

/-- A text without the blanks at both of its ends, after how many columns it starts; all of it if it is blank. -/
def inked (text : List Char) : Nat × List Char :=
  if text.all isBlank then (0, text)
  else
    let leading := text.takeWhile isBlank
    ((leading.flatMap shownChar).length, ((text.drop leading.length).reverse.dropWhile isBlank).reverse)

/-- The line with an addition in it, and what is added underlined. -/
def additionRows (line : SourceLine) (kept added rest : List Char) : List Row :=
  let (shift, underlined) := inked added
  let start := (kept.flatMap shownChar).length + shift
  let marks := String.ofList (List.replicate (underlined.flatMap shownChar).length '+')
  [numbered line [(.gutter, "| "), (.plain, shown kept), (.added, shown added), (.plain, shown rest)],
    marked line (.ofMarks [⟨start, .added, marks⟩])]

/-- The line before and after; a line that becomes blank is not shown. -/
def replacementRows (line : SourceLine) (kept replaced replacement rest : List Char) : List Row :=
  let row (style : Style) (sign : String) (text : List Char) : Row :=
    numbered line [(style, sign), (.plain, shown kept), (style, shown text), (.plain, shown rest)]
  let after := if (kept ++ replacement ++ rest).all isBlank then [] else [row .added "+ " replacement]
  row .removed "- " replaced :: after ++ [bar line]

def fixRows (line : SourceLine) (span : Span) (fix : Fix) : List Row :=
  let kept := line.before span.start
  let replaced := line.between span.start span.stop
  let rest := line.behind span.stop
  let replacement := fix.replacement.toList
  let change := match addition? replaced replacement with
    | some (shared, added) => additionRows line (kept ++ replaced.take shared) added (replaced.drop shared ++ rest)
    | none => replacementRows line kept replaced replacement rest
  bar line :: title .help "help" .plain fix.description :: bar line :: change

end Snippet

/-! ### Whole snippets -/

namespace Diagnostic

/-- The rows of a diagnostic's snippet. -/
def snippet (diagnostic : Diagnostic) (source : String) (path? : Option String) : List Row :=
  let span := shownSpan source diagnostic.span
  let line := SourceLine.ofOffset source span.start
  let position := (LineTable.ofText source).position span.start
  let title :=
    Snippet.title diagnostic.severity.style diagnostic.severity.name .strong (shown diagnostic.message.toList)
  let place := match path? with
    | some path => [Snippet.place line path position]
    | none => []
  let marked := (Marker.rows (diagnostic.markers source line)).map (Snippet.marked line)
  let fix := match diagnostic.fix? with
    | some fix => Snippet.fixRows line span fix
    | none => []
  title :: place ++ Snippet.bar line :: Snippet.sourceRow line :: marked ++ fix

/-- The snippets of a list of diagnostics, one after another. -/
def snippets (diagnostics : List Diagnostic) (source : String) (path? : Option String) (colored : Bool) : String :=
  let rows := diagnostics.flatMap (·.snippet source path?)
  "\n".intercalate (rows.map fun row => if colored then row.colored else row.plain)

end Diagnostic

end Squirrel
