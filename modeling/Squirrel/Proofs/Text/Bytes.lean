import Squirrel.Literal.Integer
import Squirrel.Span

/-!
# Characters and their bytes

An ASCII character is one byte, and no byte of any other character is one of ASCII. So a scan over bytes finds an ASCII
character exactly where it stands, and takes the bytes of all other characters one by one without seeing it.
-/

namespace Squirrel

open Literal

/-! ### One character -/

theorem utf8Size_of_ascii {c : Char} (hc : c.toNat ≤ 127) : c.utf8Size = 1 :=
  Char.utf8Size_eq_one_iff.mpr (UInt32.le_iff_toNat_le.mpr hc)

theorem utf8EncodeChar_of_ascii {c : Char} (hc : c.toNat ≤ 127) :
    (String.utf8EncodeChar c).map UInt8.toNat = [c.toNat] := by
  have hbyte : c.val.toUInt8.toNat = c.toNat % 256 := UInt32.toNat_toUInt8 c.val
  rw [String.utf8EncodeChar_eq_singleton (utf8Size_of_ascii hc), List.map_singleton, hbyte, Nat.mod_eq_of_lt (by omega)]

/-- All bytes of a character outside of ASCII are outside of ASCII. -/
theorem lt_of_mem_utf8EncodeChar {c : Char} (hc : 127 < c.toNat) :
    ∀ byte ∈ (String.utf8EncodeChar c).map UInt8.toNat, 127 < byte := by
  rw [String.utf8EncodeChar, if_neg (show ¬c.val.toNat ≤ 127 from Nat.not_le.mpr hc)]
  split
  · simp only [List.map_cons, List.map_nil, List.forall_mem_cons, UInt8.toNat_ofNat']
    refine ⟨by omega, by omega, nofun⟩
  · split
    · simp only [List.map_cons, List.map_nil, List.forall_mem_cons, UInt8.toNat_ofNat']
      refine ⟨by omega, by omega, by omega, nofun⟩
    · simp only [List.map_cons, List.map_nil, List.forall_mem_cons, UInt8.toNat_ofNat']
      refine ⟨by omega, by omega, by omega, by omega, nofun⟩

/-- A character has no byte of an ASCII character that it is not. -/
theorem ne_of_mem_utf8EncodeChar {c a : Char} (ha : a.toNat ≤ 127) (hne : c ≠ a) :
    ∀ byte ∈ (String.utf8EncodeChar c).map UInt8.toNat, byte ≠ a.toNat := by
  intro byte hbyte heq
  by_cases hc : c.toNat ≤ 127
  · rw [utf8EncodeChar_of_ascii hc, List.mem_singleton] at hbyte
    exact hne (Char.toNat_inj.mp (hbyte.symm.trans heq))
  · have hlt := lt_of_mem_utf8EncodeChar (Nat.not_le.mp hc) byte hbyte
    omega

/-! ### The bytes of a text -/

theorem utf8Bytes_append (left right : List Char) : utf8Bytes (left ++ right) = utf8Bytes left ++ utf8Bytes right :=
  List.flatMap_append

@[simp] theorem length_utf8Bytes (text : List Char) : (utf8Bytes text).length = byteLength text := by
  induction text with
  | nil => rfl
  | cons c rest ih =>
    rw [utf8Bytes, List.flatMap_cons, List.length_append, List.length_map, String.length_utf8EncodeChar, byteLength_cons]
    exact congrArg (c.utf8Size + ·) ih

section Place

variable {front rest : List Char} {c a : Char}

variable (front rest) in
/-- The bytes of a character stand behind those of the characters in front of it. -/
theorem getElem?_utf8Bytes_char {place : Nat} (hfrom : byteLength front ≤ place)
    (hto : place < byteLength front + c.utf8Size) :
    ∃ byte ∈ (String.utf8EncodeChar c).map UInt8.toNat, (utf8Bytes (front ++ c :: rest))[place]? = some byte := by
  have hlength : ((String.utf8EncodeChar c).map UInt8.toNat).length = c.utf8Size := by
    rw [List.length_map, String.length_utf8EncodeChar]
  have hplace : place - byteLength front < ((String.utf8EncodeChar c).map UInt8.toNat).length := by omega
  refine ⟨_, List.getElem_mem hplace, ?_⟩
  rw [utf8Bytes_append, List.getElem?_append_right (by rw [length_utf8Bytes]; exact hfrom), length_utf8Bytes,
    utf8Bytes, List.flatMap_cons, List.getElem?_append_left hplace, List.getElem?_eq_getElem hplace]

theorem getElem?_utf8Bytes_ascii (hc : c.toNat ≤ 127) :
    (utf8Bytes (front ++ c :: rest))[byteLength front]? = some c.toNat := by
  obtain ⟨byte, hmem, hbyte⟩ :=
    getElem?_utf8Bytes_char front rest (Nat.le_refl _) (Nat.lt_add_of_pos_right c.utf8Size_pos)
  rw [utf8EncodeChar_of_ascii hc, List.mem_singleton] at hmem
  rw [hbyte, hmem]

theorem getElem?_utf8Bytes_ne (ha : a.toNat ≤ 127) (hne : c ≠ a) {place : Nat} (hfrom : byteLength front ≤ place)
    (hto : place < byteLength front + c.utf8Size) : (utf8Bytes (front ++ c :: rest))[place]? ≠ some a.toNat := by
  obtain ⟨byte, hmem, hbyte⟩ := getElem?_utf8Bytes_char front rest hfrom hto
  rw [hbyte]
  exact fun heq => ne_of_mem_utf8EncodeChar ha hne byte hmem (Option.some.inj heq)

/-- Behind the first byte of a character there is no byte of ASCII before the next character. -/
theorem getElem?_utf8Bytes_inner (ha : a.toNat ≤ 127) {place : Nat} (hfrom : byteLength front < place)
    (hto : place < byteLength front + c.utf8Size) : (utf8Bytes (front ++ c :: rest))[place]? ≠ some a.toNat := by
  refine getElem?_utf8Bytes_ne ha ?_ (Nat.le_of_lt hfrom) hto
  rintro rfl
  rw [utf8Size_of_ascii ha] at hto
  omega

theorem getElem?_utf8Bytes_end : (utf8Bytes front)[byteLength front]? = none :=
  List.getElem?_eq_none (Nat.le_of_eq (length_utf8Bytes front))

end Place

end Squirrel
