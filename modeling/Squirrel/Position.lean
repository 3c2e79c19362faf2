import Squirrel.Span

/-!
# Lines and columns

A line table holds where the lines of a text start. It turns an offset into a position and a position back into an
offset. Lines and columns count from one, columns in bytes.
-/

namespace Squirrel

structure Position where
  line : Nat
  column : Nat
  deriving DecidableEq

namespace Position

def describe (position : Position) : String := toString position.line ++ ":" ++ toString position.column

end Position

structure LineTable where
  /-- The offsets at which lines start, in increasing order. The first line starts at zero. -/
  starts : List Nat
  /-- The length of the text. -/
  length : Nat
  deriving DecidableEq

namespace LineTable

/-- The offsets right after the line feeds of a text that itself starts at an offset. -/
def startsFrom (offset : Nat) : List Char → List Nat
  | [] => []
  | c :: rest =>
    let next := offset + c.utf8Size
    if c = '\n' then next :: startsFrom next rest else startsFrom next rest

def ofText (text : String) : LineTable := ⟨0 :: startsFrom 0 text.toList, text.utf8ByteSize⟩

def lineCount (table : LineTable) : Nat := table.starts.length

/-- The position of an offset. An offset past the end counts as the end of the text. -/
def position (table : LineTable) (offset : Nat) : Position :=
  let offset := min offset table.length
  let reached := table.starts.takeWhile (· ≤ offset)
  ⟨reached.length, offset - reached.getLastD 0 + 1⟩

/-- The offset of a position: nothing for a line that does not exist and for a column past the end of the text. -/
def offset? (table : LineTable) (position : Position) : Option Nat :=
  if position.line = 0 ∨ position.column = 0 then none
  else
    match table.starts[position.line - 1]? with
    | none => none
    | some start =>
      let offset := start + (position.column - 1)
      if offset ≤ table.length then some offset else none

end LineTable

end Squirrel
