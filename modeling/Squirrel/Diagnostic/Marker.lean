import Squirrel.Text.Styled

/-!
# Markers under a line

A marker underlines columns of a line and has a label. Markers are placed from right to left. The label of the rightmost
one stands behind its underline if nothing is in its way. Every other label hangs lower, at the column where its marker
starts, from a bar; a level lower for each label that would run into the one before.
-/

namespace Squirrel

open Text (Mark Row Style)

structure Marker where
  start : Nat
  stop : Nat
  label : String
  isPrimary : Bool
  style : Style

namespace Marker

def length (marker : Marker) : Nat := marker.stop - marker.start

def hasLabel (marker : Marker) : Bool := !marker.label.isEmpty

/-- Whether two markers share a column when some columns are added behind the first one. -/
def overlaps (left right : Marker) (padding : Nat) : Bool :=
  (right.start ≤ left.start && left.start < right.stop) ||
    (left.start ≤ right.start && right.start < left.stop + padding)

/-! ### Levels -/

/-- Whether the label of a marker cannot stand behind its underline because another marker runs there. A marker without
a label under the same columns is no hindrance. -/
def isBlockedBy (marker other : Marker) : Bool :=
  other.overlaps marker 0 && !(other.start == marker.start && other.stop == marker.stop && !other.hasLabel)

/-- Whether a marker further left needs a lower level than the marker at this level. -/
def pushesDown (marker : Marker) (level : Nat) (other : Marker) : Bool :=
  other.hasLabel && other.overlaps marker (other.label.utf8ByteSize + 2) &&
    (marker.hasLabel || (level == 0 && other.stop ≤ marker.stop))

/-- Markers with their levels, given from right to left. Level zero is the line of the underlines. -/
def placeFrom (level : Nat) : List Marker → List (Nat × Marker)
  | [] => []
  | marker :: rest =>
    let level := if level == 0 && marker.hasLabel && rest.any marker.isBlockedBy then 1 else level
    (level, marker) :: placeFrom (if rest.any (marker.pushesDown level) then level + 1 else level) rest

def place (markers : List Marker) : List (Nat × Marker) :=
  placeFrom 0 (markers.mergeSort fun left right => right.start ≤ left.start)

/-! ### Rows -/

/-- The bar from which a label hangs, if it passes a row. -/
def barAt? (row level : Nat) (marker : Marker) : Option Mark :=
  if 0 < level && marker.hasLabel && row ≤ level then some ⟨marker.start, marker.style, "|"⟩ else none

/-- The label of a marker, if it stands in a row. -/
def labelAt? (row level : Nat) (marker : Marker) : Option Mark :=
  if level = 0 then if row = 0 then some ⟨marker.stop + 1, marker.style, marker.label⟩ else none
  else if row = level + 1 then some ⟨marker.start, marker.style, marker.label⟩
  else none

def underline (marker : Marker) : Mark :=
  let char := if marker.isPrimary then '^' else '-'
  ⟨marker.start, marker.style, String.ofList (List.replicate marker.length char)⟩

/-- Long underlines first, so that short ones are drawn over them. Of two with the same length the primary one wins. -/
def underlines (markers : List Marker) : List Mark :=
  (markers.mergeSort fun left right =>
    right.length < left.length || (right.length == left.length && (!left.isPrimary || right.isPrimary))).map underline

/-- The rows under a line: underlines, bars and labels. -/
def rows (markers : List Marker) : List Row :=
  let placed := place markers
  let lowest := (placed.map (·.1)).foldl max 0
  (List.range (if lowest = 0 then 1 else lowest + 2)).map fun row =>
    let bars := placed.filterMap fun (level, marker) => marker.barAt? row level
    let labels := placed.filterMap fun (level, marker) => marker.labelAt? row level
    Row.ofMarks (bars ++ labels ++ if row = 0 then underlines markers else [])

end Marker

end Squirrel
