import Squirrel.Proofs.Position.Line

/-!
# Offsets and positions

An offset is told by its position, and positions increase with their offsets: the line counts the line feeds in front, and
the column starts again behind each of them. In the other direction a position is only held against the end of the text.
A column that runs past the end of its line is taken to stand on one of the lines that follow.
-/

namespace Squirrel.LineTable

open Literal

variable {table : LineTable} {position : Position} {offset : Nat}

/-! ### The offset of a position -/

theorem offset?_eq_some_iff : table.offset? position = some offset ↔
    ∃ line count start, position = ⟨line + 1, count + 1⟩ ∧ table.starts[line]? = some start ∧ offset = start + count ∧
      offset ≤ table.length := by
  obtain ⟨line, column⟩ := position
  constructor
  · intro hfound
    rw [offset?] at hfound
    split at hfound
    · cases hfound
    · next hpos =>
      obtain ⟨hline, hcolumn⟩ := not_or.mp hpos
      split at hfound
      · cases hfound
      · next start hstart =>
        simp only at hfound
        split at hfound
        · next hle =>
          obtain rfl := Option.some.inj hfound
          refine ⟨line - 1, column - 1, start, ?_, hstart, rfl, hle⟩
          rw [Nat.sub_one_add_one hline, Nat.sub_one_add_one hcolumn]
        · cases hfound
  · rintro ⟨line, count, start, heq, hstart, rfl, hle⟩
    obtain ⟨rfl, rfl⟩ := Position.mk.inj heq
    simp only [offset?, Nat.add_one_ne_zero, or_self, if_false, Nat.add_sub_cancel, hstart, if_pos hle]

/-- The offset of the position of an offset is that offset. -/
theorem offset?_position (hordered : table.IsOrdered) (hle : offset ≤ table.length) :
    table.offset? (table.position offset) = some offset := by
  obtain ⟨line, start, hholds, hposition⟩ := exists_holds hordered hle
  rw [hposition, offset?_eq_some_iff]
  exact ⟨line, offset - start, start, rfl, hholds.isStart, (Nat.add_sub_cancel' hholds.start_le).symm, hle⟩

theorem position_clamp (table : LineTable) (offset : Nat) :
    table.position offset = table.position (min offset table.length) := by
  rw [LineTable.position, LineTable.position, Nat.min_assoc, Nat.min_self]

/-! ### The order of positions -/

theorem position_lt (hordered : table.IsOrdered) {left right : Nat} (hlt : left < right) (hle : right ≤ table.length) :
    table.position left < table.position right := by
  obtain ⟨line, start, hholds, hposition⟩ := exists_holds hordered (Nat.le_trans (Nat.le_of_lt hlt) hle)
  obtain ⟨line', start', hholds', hposition'⟩ := exists_holds hordered hle
  rw [hposition, hposition']
  obtain hline | rfl := Nat.lt_or_eq_of_le (hholds.line_le hordered hholds' (Nat.le_of_lt hlt))
  · exact .inl (Nat.succ_lt_succ hline)
  · obtain rfl : start = start' := Option.some.inj (hholds.isStart.symm.trans hholds'.isStart)
    have hstart := hholds.start_le
    exact .inr ⟨rfl, show left - start + 1 < right - start + 1 by omega⟩

/-- The first column is that of the offsets at which lines start. -/
theorem column_position_eq_one_iff (hordered : table.IsOrdered) (hle : offset ≤ table.length) :
    (table.position offset).column = 1 ↔ offset ∈ table.starts := by
  obtain ⟨line, start, hholds, hposition⟩ := exists_holds hordered hle
  rw [hposition]
  constructor
  · intro hcolumn
    have hstart := hholds.start_le
    obtain rfl : offset = start := by
      have : offset - start + 1 = 1 := hcolumn
      omega
    exact List.mem_of_getElem? hholds.isStart
  · intro hmem
    obtain ⟨found, hfound⟩ := List.mem_iff_getElem?.mp hmem
    have hself : table.Holds found offset offset :=
      ⟨hfound, Nat.le_refl _, fun next hnext => hordered.lt_of_lt (Nat.lt_succ_self found) hfound hnext⟩
    have heq := hposition.symm.trans (hself.position_eq hordered hle)
    rw [(Position.mk.inj heq).2, Nat.sub_self]

/-- The line of a position counts the line feeds in front. -/
theorem line_position (text : String) (offset : Nat) : ((ofText text).position offset).line
    = ((utf8Bytes text.toList).take offset).count '\n'.toNat + 1 := by
  have hclamp : (utf8Bytes text.toList).take offset = (utf8Bytes text.toList).take (min offset text.utf8ByteSize) := by
    rw [← length_utf8Bytes_toList, ← List.take_eq_take_min]
  show ((ofText text).starts.takeWhile (· ≤ min offset text.utf8ByteSize)).length = _
  rw [starts_ofText, List.takeWhile_cons_of_pos (by simp), List.length_cons,
    length_takeWhile_startsBehind _ (Nat.zero_le _), Nat.sub_zero, ← hclamp]

/-- Neither the line nor the column of a position exceeds the length of the text by more than one. -/
theorem position_le (text : String) (offset : Nat) : ((ofText text).position offset).line ≤ text.utf8ByteSize + 1 ∧
    ((ofText text).position offset).column ≤ text.utf8ByteSize + 1 := by
  constructor
  · have hcount := List.count_le_length (a := '\n'.toNat) (l := (utf8Bytes text.toList).take offset)
    have htake := List.length_take_le' offset (utf8Bytes text.toList)
    rw [length_utf8Bytes_toList] at htake
    rw [line_position]
    omega
  · have hmin : min offset (ofText text).length ≤ text.utf8ByteSize := Nat.min_le_right _ _
    refine Nat.succ_le_succ (Nat.le_trans (Nat.sub_le _ _) hmin)

/-! ### Main statements -/

/-- The offset of the position of an offset is that offset, or the end of the text for one past it. Up to the end positions
increase strictly with their offsets. A line counts the line feeds in front, and the first column is that of the start of
the text and of what stands right behind a line feed. No number exceeds the length of the text by more than one, so words
of 32 bits hold them all if the text has a length of at most 2 ^ 32 - 2. -/
theorem position_faithful (text : String) :
    (∀ offset, (ofText text).offset? ((ofText text).position offset) = some (min offset text.utf8ByteSize)) ∧
    (∀ left right, left < right → right ≤ text.utf8ByteSize →
      (ofText text).position left < (ofText text).position right) ∧
    (∀ offset, offset ≤ text.utf8ByteSize → (((ofText text).position offset).column = 1 ↔
      offset = 0 ∨ ∃ place, offset = place + 1 ∧ (utf8Bytes text.toList)[place]? = some '\n'.toNat)) ∧
    (∀ offset, ((ofText text).position offset).line = ((utf8Bytes text.toList).take offset).count '\n'.toNat + 1) ∧
    ∀ offset, ((ofText text).position offset).line ≤ text.utf8ByteSize + 1 ∧
      ((ofText text).position offset).column ≤ text.utf8ByteSize + 1 := by
  have hordered := isOrdered_ofText text
  refine ⟨fun offset => ?_, fun left right hlt hle => position_lt hordered hlt hle, fun offset hle => ?_,
    line_position text, position_le text⟩
  · rw [position_clamp]
    exact offset?_position hordered (Nat.min_le_right _ _)
  · rw [column_position_eq_one_iff hordered hle, mem_starts_ofText]

/-- A character of two bytes, a line break of two characters and an empty line stand in front of the last line. -/
theorem position_faithful_breaks : (3 < 5 ∧ 5 ≤ "é\r\n\nab".utf8ByteSize) ∧
    (ofText "é\r\n\nab").position 3 < (ofText "é\r\n\nab").position 5 ∧
    (((ofText "é\r\n\nab").position 5).column = 1 ↔
      5 = 0 ∨ ∃ place, 5 = place + 1 ∧ (utf8Bytes "é\r\n\nab".toList)[place]? = some '\n'.toNat) := by
  have hle : 5 ≤ "é\r\n\nab".utf8ByteSize := by decide
  exact ⟨⟨by decide, hle⟩, (position_faithful _).2.1 3 5 (by decide) hle, (position_faithful _).2.2.1 5 hle⟩

/-- A position that has an offset is the position of this offset if and only if none of the bytes that its column counts
is a line feed. Otherwise the column runs past the end of its line, and the offset stands on a later one. -/
theorem position_of_offset? {text : String} {position : Position} {offset : Nat}
    (hfound : (ofText text).offset? position = some offset) :
    ((ofText text).position offset = position ↔
      ∀ place, place < offset → offset < place + position.column → (utf8Bytes text.toList)[place]? ≠ some '\n'.toNat) ∧
    ((ofText text).position offset ≠ position → position.line < ((ofText text).position offset).line) := by
  have hordered := isOrdered_ofText text
  obtain ⟨line, count, start, rfl, hstart, rfl, hle⟩ := offset?_eq_some_iff.mp hfound
  obtain ⟨line', start', hholds', hposition⟩ := exists_holds hordered hle
  have hwithin : (ofText text).position (start + count) = ⟨line + 1, count + 1⟩ ↔
      (ofText text).Holds line start (start + count) := by
    constructor
    · intro heq
      obtain rfl : line = line' := Nat.succ.inj (Position.mk.inj (heq.symm.trans hposition)).1
      obtain rfl : start = start' := Option.some.inj (hstart.symm.trans hholds'.isStart)
      exact hholds'
    · intro hholds
      rw [hholds.position_eq hordered hle, Nat.add_sub_cancel_left]
  refine ⟨?_, fun hne => ?_⟩
  · rw [hwithin, holds_ofText_iff hstart (Nat.le_add_right _ _)]
    exact ⟨fun hnone place hto hfrom => hnone place (by simp only at hfrom; omega) hto,
      fun hnone place hfrom hto => hnone place hto (by simp only; omega)⟩
  · rw [hposition]
    refine Nat.succ_lt_succ (Nat.lt_of_le_of_ne ?_ ?_)
    · exact hholds'.le_of_start_le hordered hstart (Nat.le_add_right _ _)
    · rintro rfl
      obtain rfl : start = start' := Option.some.inj (hstart.symm.trans hholds'.isStart)
      exact hne (hwithin.mpr hholds')

/-- The fifth column of a line of two bytes is taken to be the second column of the next line. -/
theorem position_of_offset?_beyond : (ofText "ab\ncd\n").offset? ⟨1, 5⟩ = some 4 ∧
    (ofText "ab\ncd\n").position 4 ≠ ⟨1, 5⟩ ∧ 1 < ((ofText "ab\ncd\n").position 4).line := by
  have hfound : (ofText "ab\ncd\n").offset? ⟨1, 5⟩ = some 4 := by decide
  have hne : (ofText "ab\ncd\n").position 4 ≠ ⟨1, 5⟩ := by decide
  exact ⟨hfound, hne, (position_of_offset? hfound).2 hne⟩

end Squirrel.LineTable
