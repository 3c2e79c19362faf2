import Squirrel.Position
import Squirrel.Proofs.Text.Bytes

/-!
# The lines of a text

A line starts at the start of the text and behind each line feed, so the starts in a line table increase and none lies
past the end. Of an offset they single out one line: the last one that starts at it or before. All that is known of
positions comes from that line, whatever way it is searched for.
-/

namespace Squirrel

open Literal

/-- Positions are ordered by their lines, and on one line by their columns. -/
instance : LT Position where
  lt left right := left.line < right.line ∨ left.line = right.line ∧ left.column < right.column

instance (left right : Position) : Decidable (left < right) :=
  inferInstanceAs (Decidable (left.line < right.line ∨ left.line = right.line ∧ left.column < right.column))

namespace LineTable

/-! ### Where lines start -/

/-- The places behind the line feeds among bytes that stand from an offset on. -/
def startsBehind (offset : Nat) : List Nat → List Nat
  | [] => []
  | byte :: rest =>
    if byte = '\n'.toNat then (offset + 1) :: startsBehind (offset + 1) rest else startsBehind (offset + 1) rest

attribute [local grind =] startsBehind

theorem startsBehind_append_of_not_mem {bytes : List Nat} (hplain : '\n'.toNat ∉ bytes) (offset : Nat) (rest : List Nat) :
    startsBehind offset (bytes ++ rest) = startsBehind (offset + bytes.length) rest := by
  induction bytes generalizing offset with
  | nil => rfl
  | cons byte bytes ih =>
    obtain ⟨hne, hplain⟩ := not_or.mp fun hmem => hplain (List.mem_cons.mpr hmem)
    rw [List.cons_append, startsBehind, if_neg (Ne.symm hne), ih hplain, List.length_cons, Nat.add_right_comm, Nat.add_assoc]

/-- Line feeds may be looked for among the bytes of a text. -/
theorem startsFrom_eq (offset : Nat) (text : List Char) : startsFrom offset text = startsBehind offset (utf8Bytes text) := by
  induction text generalizing offset with
  | nil => rfl
  | cons c rest ih =>
    have hbytes : utf8Bytes (c :: rest) = (String.utf8EncodeChar c).map UInt8.toNat ++ utf8Bytes rest := List.flatMap_cons
    rw [startsFrom, hbytes, ih]
    by_cases hbreak : c = '\n'
    · subst hbreak
      rfl
    · have hplain : '\n'.toNat ∉ (String.utf8EncodeChar c).map UInt8.toNat := fun hmem =>
        ne_of_mem_utf8EncodeChar (by decide) hbreak _ hmem rfl
      rw [if_neg hbreak, startsBehind_append_of_not_mem hplain, List.length_map, String.length_utf8EncodeChar]

theorem mem_startsBehind {bytes : List Nat} {offset start : Nat} :
    start ∈ startsBehind offset bytes ↔ ∃ place, start = offset + place + 1 ∧ bytes[place]? = some '\n'.toNat := by
  induction bytes generalizing offset with
  | nil => simp [startsBehind]
  | cons byte rest ih =>
    have hlater : start ∈ startsBehind (offset + 1) rest ↔
        ∃ place, start = offset + (place + 1) + 1 ∧ (byte :: rest)[place + 1]? = some '\n'.toNat := by
      rw [ih]
      simp only [Nat.add_right_comm offset 1, Nat.add_assoc, List.getElem?_cons_succ]
    have hhere : start ∈ startsBehind offset (byte :: rest) ↔
        (start = offset + 1 ∧ byte = '\n'.toNat) ∨ start ∈ startsBehind (offset + 1) rest := by
      rw [startsBehind]
      split
      · next hbreak => simp [hbreak]
      · next hbreak => simp only [hbreak, and_false, false_or]
    rw [hhere, hlater]
    constructor
    · rintro (⟨rfl, rfl⟩ | ⟨place, hstart, hplace⟩)
      · exact ⟨0, rfl, rfl⟩
      · exact ⟨place + 1, hstart, hplace⟩
    · rintro ⟨_ | place, hstart, hplace⟩
      · exact .inl ⟨hstart, Option.some.inj hplace⟩
      · exact .inr ⟨place, hstart, hplace⟩

theorem pairwise_startsBehind (offset : Nat) (bytes : List Nat) : (startsBehind offset bytes).Pairwise (· < ·) := by
  induction bytes generalizing offset with
  | nil => exact List.Pairwise.nil
  | cons byte rest ih =>
    rw [startsBehind]
    split
    · refine List.pairwise_cons.mpr ⟨fun start hmem => ?_, ih _⟩
      obtain ⟨place, rfl, -⟩ := mem_startsBehind.mp hmem
      omega
    · exact ih _

/-- The starts up to an offset are as many as the line feeds in front of it. -/
theorem length_takeWhile_startsBehind {start offset : Nat} (bytes : List Nat) (hle : start ≤ offset) :
    ((startsBehind start bytes).takeWhile (· ≤ offset)).length = (bytes.take (offset - start)).count '\n'.toNat := by
  induction bytes generalizing start with
  | nil => simp [startsBehind]
  | cons byte rest ih =>
    obtain rfl | hlt := Nat.eq_or_lt_of_le hle
    · have hnone : (startsBehind start (byte :: rest)).takeWhile (· ≤ start) = [] := by
        cases hstarts : startsBehind start (byte :: rest) with
        | nil => rfl
        | cons first others =>
          obtain ⟨place, rfl, -⟩ := mem_startsBehind.mp (hstarts ▸ List.mem_cons_self)
          rw [List.takeWhile_cons_of_neg (by rw [decide_eq_true_iff]; omega)]
      rw [hnone, Nat.sub_self]
      rfl
    · have hrest := ih hlt
      rw [show offset - start = offset - (start + 1) + 1 by omega, List.take_succ_cons, List.count_cons, startsBehind]
      split
      · next hbreak =>
        rw [List.takeWhile_cons_of_pos (by simpa using Nat.succ_le_of_lt hlt), List.length_cons, hrest, hbreak,
          if_pos (by rfl)]
      · next hbreak => rw [hrest, if_neg (by simpa using hbreak), Nat.add_zero]

/-- The starts of a table begin with that of the text, increase, and do not lie past the end. -/
structure IsOrdered (table : LineTable) : Prop where
  first : table.starts[0]? = some 0
  increasing : table.starts.Pairwise (· < ·)
  le_length : ∀ start ∈ table.starts, start ≤ table.length

theorem starts_ofText (text : String) : (ofText text).starts = 0 :: startsBehind 0 (utf8Bytes text.toList) := by
  rw [ofText, startsFrom_eq]

theorem length_utf8Bytes_toList (text : String) : (utf8Bytes text.toList).length = text.utf8ByteSize := by
  rw [length_utf8Bytes, byteLength_toList]

/-- The starts of a text, apart from the first, are the places behind its line feeds. -/
theorem mem_starts_ofText {text : String} {start : Nat} : start ∈ (ofText text).starts ↔
    start = 0 ∨ ∃ place, start = place + 1 ∧ (utf8Bytes text.toList)[place]? = some '\n'.toNat := by
  simp only [starts_ofText, List.mem_cons, mem_startsBehind, Nat.zero_add]

theorem isOrdered_ofText (text : String) : (ofText text).IsOrdered where
  first := rfl
  increasing := by
    rw [starts_ofText]
    refine List.pairwise_cons.mpr ⟨fun start hmem => ?_, pairwise_startsBehind 0 _⟩
    obtain ⟨place, rfl, -⟩ := mem_startsBehind.mp hmem
    exact Nat.succ_pos _
  le_length := by
    intro start hmem
    obtain rfl | ⟨place, rfl, hbreak⟩ := mem_starts_ofText.mp hmem
    · exact Nat.zero_le _
    · have hlt := (List.getElem?_eq_some_iff.mp hbreak).1
      rwa [length_utf8Bytes_toList] at hlt

/-! ### The line of an offset -/

variable {table : LineTable} {line start offset : Nat}

/-- The offset stands on this line, counted from zero: the line starts no later and the next one starts after it. -/
structure Holds (table : LineTable) (line start offset : Nat) : Prop where
  isStart : table.starts[line]? = some start
  start_le : start ≤ offset
  lt_next : ∀ next, table.starts[line + 1]? = some next → offset < next

theorem IsOrdered.lt_of_lt (hordered : table.IsOrdered) {earlier later before after : Nat} (hlt : earlier < later)
    (hbefore : table.starts[earlier]? = some before) (hafter : table.starts[later]? = some after) : before < after := by
  obtain ⟨hearlier, rfl⟩ := List.getElem?_eq_some_iff.mp hbefore
  obtain ⟨hlater, rfl⟩ := List.getElem?_eq_some_iff.mp hafter
  exact List.pairwise_iff_getElem.mp hordered.increasing _ _ hearlier hlater hlt

theorem IsOrdered.le_of_le (hordered : table.IsOrdered) {earlier later before after : Nat} (hle : earlier ≤ later)
    (hbefore : table.starts[earlier]? = some before) (hafter : table.starts[later]? = some after) : before ≤ after := by
  obtain rfl | hlt := Nat.eq_or_lt_of_le hle
  · exact Nat.le_of_eq (Option.some.inj (hbefore.symm.trans hafter))
  · exact Nat.le_of_lt (hordered.lt_of_lt hlt hbefore hafter)

/-- The starts up to an offset are never none, since the first of them is that of the text. -/
theorem exists_reached (hordered : table.IsOrdered) (offset : Nat) : ∃ front start rest,
    table.starts = front ++ start :: rest ∧ table.starts.takeWhile (· ≤ offset) = front ++ [start] ∧ start ≤ offset ∧
      ∀ next, rest[0]? = some next → offset < next := by
  have hsome : table.starts.takeWhile (· ≤ offset) ≠ [] := by
    have hfirst := hordered.first
    cases hstarts : table.starts with
    | nil => simp [hstarts] at hfirst
    | cons first rest =>
      rw [hstarts] at hfirst
      obtain rfl := Option.some.inj hfirst
      rw [List.takeWhile_cons_of_pos (by simp)]
      exact List.cons_ne_nil _ _
  obtain ⟨front, start, hreached⟩ : ∃ front start, table.starts.takeWhile (· ≤ offset) = front ++ [start] :=
    ⟨_, _, (List.dropLast_concat_getLast hsome).symm⟩
  have hstart : start ∈ table.starts.takeWhile (· ≤ offset) := hreached ▸ List.mem_concat_self
  refine ⟨front, start, table.starts.dropWhile (· ≤ offset), ?_, hreached,
    of_decide_eq_true (List.all_eq_true.mp List.all_takeWhile start hstart), fun next hnext => ?_⟩
  · rw [List.append_cons, ← hreached, List.takeWhile_append_dropWhile]
  · have hnot := List.head?_dropWhile_not (· ≤ offset) table.starts
    rw [List.head?_eq_getElem?, hnext] at hnot
    exact Nat.not_le.mp (of_decide_eq_false hnot)

/-- The position of an offset tells the line that it stands on and how far behind its start. -/
theorem exists_holds (hordered : table.IsOrdered) (hle : offset ≤ table.length) :
    ∃ line start, table.Holds line start offset ∧ table.position offset = ⟨line + 1, offset - start + 1⟩ := by
  obtain ⟨front, start, rest, hstarts, hreached, hstart, hnext⟩ := exists_reached hordered offset
  refine ⟨front.length, start, ⟨?_, hstart, fun next hfound => hnext next ?_⟩, ?_⟩
  · rw [hstarts, List.getElem?_append_right (Nat.le_refl _), Nat.sub_self]
    rfl
  · rw [hstarts, List.getElem?_append_right (Nat.le_add_right _ 1), Nat.add_sub_cancel_left] at hfound
    exact hfound
  · rw [position, Nat.min_eq_left hle]
    simp only [hreached, List.length_append, List.length_singleton, List.getLastD_concat]

/-- No line that starts at the offset or before lies behind the line that it stands on. -/
theorem Holds.le_of_start_le (hordered : table.IsOrdered) (hholds : table.Holds line start offset)
    {line' start' : Nat} (hstart' : table.starts[line']? = some start') (hle : start' ≤ offset) : line' ≤ line := by
  refine Nat.not_lt.mp fun hlt => ?_
  have hbound := (List.getElem?_eq_some_iff.mp hstart').1
  obtain ⟨next, hnext⟩ : ∃ next, table.starts[line + 1]? = some next := ⟨_, List.getElem?_eq_getElem (by omega)⟩
  have hbefore := hordered.le_of_le (Nat.succ_le_of_lt hlt) hnext hstart'
  have hafter := hholds.lt_next _ hnext
  omega

/-- Lines follow one another as their offsets do. -/
theorem Holds.line_le (hordered : table.IsOrdered) {line' start' offset' : Nat} (hholds : table.Holds line start offset)
    (hholds' : table.Holds line' start' offset') (hle : offset ≤ offset') : line ≤ line' :=
  hholds'.le_of_start_le hordered hholds.isStart (Nat.le_trans hholds.start_le hle)

/-- An offset stands on one line only, so its position is the one on any line that it stands on. -/
theorem Holds.position_eq (hordered : table.IsOrdered) (hholds : table.Holds line start offset)
    (hle : offset ≤ table.length) : table.position offset = ⟨line + 1, offset - start + 1⟩ := by
  obtain ⟨line', start', hholds', hposition⟩ := exists_holds hordered hle
  obtain rfl : line = line' :=
    Nat.le_antisymm (hholds.line_le hordered hholds' (Nat.le_refl _)) (hholds'.line_le hordered hholds (Nat.le_refl _))
  obtain rfl : start = start' := Option.some.inj (hholds.isStart.symm.trans hholds'.isStart)
  exact hposition

/-- In a text, an offset stands on a line if there is no line feed between the start of the line and the offset. -/
theorem holds_ofText_iff {text : String} (hstart : (ofText text).starts[line]? = some start) (hle : start ≤ offset) :
    (ofText text).Holds line start offset ↔
      ∀ place, start ≤ place → place < offset → (utf8Bytes text.toList)[place]? ≠ some '\n'.toNat := by
  have hordered := isOrdered_ofText text
  constructor
  · intro hholds place hfrom hto hbreak
    obtain ⟨found, hfound⟩ := List.mem_iff_getElem?.mp (mem_starts_ofText.mpr (.inr ⟨place, rfl, hbreak⟩))
    have hbehind : found ≤ line := hholds.le_of_start_le hordered hfound (Nat.succ_le_of_lt hto)
    have hbefore := hordered.le_of_le hbehind hfound hstart
    omega
  · intro hnone
    refine ⟨hstart, hle, fun next hnext => Nat.not_le.mp fun hreached => ?_⟩
    have hlater := hordered.lt_of_lt (Nat.lt_succ_self line) hstart hnext
    obtain rfl | ⟨place, rfl, hbreak⟩ := mem_starts_ofText.mp (List.mem_of_getElem? hnext)
    · omega
    · exact hnone place (Nat.le_of_lt_succ hlater) hreached hbreak

end LineTable

end Squirrel
