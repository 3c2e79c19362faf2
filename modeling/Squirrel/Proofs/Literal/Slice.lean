import Squirrel.Proofs.Literal.Spelling
import Squirrel.Proofs.Text.Bytes

/-!
# Strings decoded by byte offsets

A decoder that holds the whole text and an offset into it, in bytes, and looks at slices of the text. A slice exists only
if it begins and ends within the text and between two characters; the decoder has no result if one does not. It always has
a result, the one that the decoder of character lists has, since all offsets that it computes stand behind characters that
it has read.
-/

namespace Squirrel.Literal

/-! ### Slices -/

/-- A text cut at a byte offset, unless the offset is outside of the text or within a character. -/
def splitAt? (offset : Nat) : List Char → Option (List Char × List Char)
  | [] => if offset = 0 then some ([], []) else none
  | c :: rest =>
    if offset = 0 then some ([], c :: rest)
    else if c.utf8Size ≤ offset then (splitAt? (offset - c.utf8Size) rest).map fun (front, back) => (c :: front, back)
    else none

def upTo? (stop : Nat) (text : List Char) : Option (List Char) := (splitAt? stop text).map Prod.fst

def from? (start : Nat) (text : List Char) : Option (List Char) := (splitAt? start text).map Prod.snd

def slice? (start stop : Nat) (text : List Char) : Option (List Char) := (upTo? stop text).bind (from? start)

attribute [local grind =] splitAt? upTo? from? slice?

theorem splitAt?_append (front back : List Char) : splitAt? (byteLength front) (front ++ back) = some (front, back) := by
  induction front with
  | nil =>
    cases back with
    | nil => rfl
    | cons c rest => rfl
  | cons c rest ih =>
    have hsize := c.utf8Size_pos
    rw [List.cons_append, splitAt?, byteLength_cons, if_neg (by omega), if_pos (Nat.le_add_right _ _),
      Nat.add_sub_cancel_left, ih]
    rfl

theorem splitAt?_eq_some_iff {offset : Nat} {text front back : List Char} :
    splitAt? offset text = some (front, back) ↔ text = front ++ back ∧ byteLength front = offset := by
  constructor
  · intro hsplit
    induction text generalizing offset front with
    | nil =>
      rw [splitAt?] at hsplit
      split at hsplit
      · next hzero =>
        cases hsplit
        exact ⟨rfl, hzero.symm⟩
      · cases hsplit
    | cons c rest ih =>
      rw [splitAt?] at hsplit
      split at hsplit
      · next hzero =>
        cases hsplit
        exact ⟨rfl, hzero.symm⟩
      · split at hsplit
        · next hsize =>
          obtain ⟨found, hfound, heq⟩ := Option.map_eq_some_iff.mp hsplit
          cases heq
          obtain ⟨hrest, hlength⟩ := ih hfound
          refine ⟨congrArg (c :: ·) hrest, ?_⟩
          rw [byteLength_cons, hlength]
          omega
        · cases hsplit
  · rintro ⟨rfl, rfl⟩
    exact splitAt?_append front back

theorem upTo?_of_append {stop : Nat} {text front back : List Char} (htext : text = front ++ back)
    (hstop : byteLength front = stop) : upTo? stop text = some front := by
  rw [upTo?, splitAt?_eq_some_iff.mpr ⟨htext, hstop⟩]
  rfl

theorem from?_of_append {start : Nat} {text front back : List Char} (htext : text = front ++ back)
    (hstart : byteLength front = start) : from? start text = some back := by
  rw [from?, splitAt?_eq_some_iff.mpr ⟨htext, hstart⟩]
  rfl

/-- A slice exists where characters of the text begin and end. -/
theorem slice?_eq_some_iff {start stop : Nat} {text middle : List Char} :
    slice? start stop text = some middle ↔ ∃ front back, text = front ++ middle ++ back ∧ byteLength front = start ∧
      start + byteLength middle = stop := by
  rw [slice?, Option.bind_eq_some_iff]
  constructor
  · rintro ⟨begun, hbegun, hmiddle⟩
    obtain ⟨⟨_, back⟩, hstop, rfl⟩ := Option.map_eq_some_iff.mp hbegun
    obtain ⟨⟨front, _⟩, hstart, rfl⟩ := Option.map_eq_some_iff.mp hmiddle
    obtain ⟨rfl, rfl⟩ := splitAt?_eq_some_iff.mp hstop
    obtain ⟨rfl, rfl⟩ := splitAt?_eq_some_iff.mp hstart
    exact ⟨front, back, rfl, rfl, (byteLength_append _ _).symm⟩
  · rintro ⟨front, back, rfl, rfl, rfl⟩
    exact ⟨front ++ middle, upTo?_of_append rfl (byteLength_append _ _), from?_of_append rfl rfl⟩

/-! ### Digits counted in bytes -/

/-- How many bytes of a run are digits. -/
def countDigits (base : Nat) (bytes : List Nat) : Nat :=
  (bytes.takeWhile fun byte => isDigit base (Char.ofNat byte)).length

theorem le_of_isDigit {base : Nat} {c : Char} (hdigit : isDigit base c = true) : c.toNat ≤ 127 := by
  obtain ⟨value, hvalue⟩ := Option.isSome_iff_exists.mp hdigit
  rw [digit?] at hvalue
  obtain ⟨hsome, -⟩ := Option.filter_eq_some_iff.mp hvalue
  have hle (last : Char) (hc : c ≤ last) : c.toNat ≤ last.toNat := hc
  split at hsome
  · next hbetween => exact Nat.le_trans (hle '9' hbetween.2) (by decide)
  · split at hsome
    · next hbetween => exact Nat.le_trans (hle 'f' hbetween.2) (by decide)
    · split at hsome
      · next hbetween => exact Nat.le_trans (hle 'F' hbetween.2) (by decide)
      · cases hsome

/-- The first byte of several is no character of its own. -/
theorem exists_utf8EncodeChar {c : Char} (hc : 127 < c.toNat) :
    ∃ byte others, (String.utf8EncodeChar c).map UInt8.toNat = byte :: others ∧ 127 < byte ∧ byte < 256 := by
  have hlength : ((String.utf8EncodeChar c).map UInt8.toNat).length = c.utf8Size := by
    rw [List.length_map, String.length_utf8EncodeChar]
  obtain ⟨byte, others, hbytes⟩ := List.exists_cons_of_length_pos (hlength ▸ c.utf8Size_pos)
  have hmem : byte ∈ (String.utf8EncodeChar c).map UInt8.toNat := hbytes ▸ List.mem_cons_self
  obtain ⟨unsigned, -, hunsigned⟩ := List.mem_map.mp hmem
  exact ⟨byte, others, hbytes, lt_of_mem_utf8EncodeChar hc byte hmem, hunsigned ▸ unsigned.toNat_lt⟩

theorem byteLength_of_digits {base : Nat} {text : List Char} (hdigits : ∀ c ∈ text, isDigit base c = true) :
    byteLength text = text.length := by
  induction text with
  | nil => rfl
  | cons c rest ih =>
    obtain ⟨hc, hrest⟩ := List.forall_mem_cons.mp hdigits
    rw [byteLength_cons, List.length_cons, ih hrest, utf8Size_of_ascii (le_of_isDigit hc), Nat.add_comm]

/-- The bytes of a character of several bytes are no digits, so bytes may be counted in place of characters. -/
theorem countDigits_utf8Bytes (base count : Nat) (text : List Char) :
    countDigits base ((utf8Bytes text).take count) = ((text.take count).takeWhile (isDigit base)).length := by
  induction text generalizing count with
  | nil => rw [List.take_nil]; simp [utf8Bytes, countDigits]
  | cons c rest ih =>
    have hbytes : utf8Bytes (c :: rest) = (String.utf8EncodeChar c).map UInt8.toNat ++ utf8Bytes rest := List.flatMap_cons
    cases count with
    | zero => rfl
    | succ count =>
      rw [hbytes, List.take_succ_cons, List.takeWhile_cons]
      by_cases hascii : c.toNat ≤ 127
      · rw [utf8EncodeChar_of_ascii hascii, List.singleton_append, List.take_succ_cons, countDigits, List.takeWhile_cons,
          Char.ofNat_toNat]
        split
        · exact congrArg Nat.succ (ih count)
        · rfl
      · obtain ⟨byte, others, hencode, hbyte, hmax⟩ := exists_utf8EncodeChar (Nat.not_le.mp hascii)
        have hnone (d : Char) (hd : 127 < d.toNat) : isDigit base d = false :=
          Bool.eq_false_iff.mpr fun hdigit => absurd (le_of_isDigit hdigit) (Nat.not_le.mpr hd)
        have hchar : 127 < (Char.ofNat byte).toNat := by
          rw [Char.ofNat, dif_pos (.inl (by omega))]
          exact hbyte
        rw [hencode, List.cons_append, List.take_succ_cons, countDigits, List.takeWhile_cons, hnone _ hchar,
          hnone c (Nat.not_le.mp hascii)]
        rfl

theorem countDigits_eq (base : Nat) (text : List Char) :
    countDigits base (utf8Bytes text) = (text.takeWhile (isDigit base)).length := by
  have hcount := countDigits_utf8Bytes base (text.length + (utf8Bytes text).length) text
  rwa [List.take_of_length_le (Nat.le_add_left _ _), List.take_of_length_le (Nat.le_add_right _ _)] at hcount

/-! ### Escapes -/

/-- The error for the first bytes of a text. -/
def sliceInvalid (text : List Char) (length : Nat) : Option (Except LiteralError (Char × Nat)) :=
  (upTo? length text).map fun spelling => .error (.invalidEscape 0 length (String.ofList spelling))

/-- The character with a code point given in 32 bits. -/
def scalar? (value : Nat) : Option Char := if value.isValidChar then some (Char.ofNat value) else none

/-- The character whose code point is written from one offset to another. -/
def sliceScalar (text : List Char) (base start stop length : Nat) : Option (Except LiteralError (Char × Nat)) := do
  let digits ← slice? start stop text
  match (foldBelow? (2 ^ 32) base digits).bind scalar? with
  | some c => some (.ok (c, length))
  | none => sliceInvalid text length

def sliceFixed (text : List Char) (count : Nat) : Option (Except LiteralError (Char × Nat)) := do
  let rest ← from? 2 text
  let found := countDigits 16 ((utf8Bytes rest).take count)
  if found < count then sliceInvalid text (2 + found) else sliceScalar text 16 2 (2 + count) (2 + count)

def sliceBraced (text : List Char) : Option (Except LiteralError (Char × Nat)) := do
  let inner ← from? 3 text
  let found := countDigits 16 (utf8Bytes inner)
  let close := 3 + found
  if found = 0 then sliceInvalid text (min close (byteLength text))
  else
    let rest ← from? close text
    if rest.head? = some '\x7d' then sliceScalar text 16 3 close (close + 1)
    else sliceInvalid text (min close (byteLength text))

/-- Decodes the escape at the start of a text that begins with a backslash. -/
def sliceEscape (text : List Char) : Option (Except LiteralError (Char × Nat)) := do
  let after ← from? 1 text
  match after.head? with
  | none => sliceInvalid text 1
  | some c =>
    match Escape.simple? c with
    | some denoted => some (.ok (denoted, 2))
    | none =>
      if isDigit 8 c then
        let stop := 1 + countDigits 8 ((utf8Bytes after).take 3)
        sliceScalar text 8 1 stop stop
      else if c = 'x' then sliceFixed text 2
      else if c = 'u' then
        let rest ← from? 2 text
        if rest.head? = some '\x7b' then sliceBraced text else sliceFixed text 4
      else some (.ok (c, 1 + c.utf8Size))

/-- What the decoder of character lists makes of an escape that has been read. -/
def escapeResult (after : List Char) : Escape → Except LiteralError (Char × Nat)
  | .denotes c taken => .ok (c, 1 + byteLength (after.take taken))
  | .invalid taken => .error (escapeError 0 after taken)

theorem decodeEscape_eq (after : List Char) :
    decodeEscape (String.ofList ('\\' :: after)) = escapeResult after (Escape.read after) := by
  rw [decodeEscape, String.toList_ofList]
  rfl

theorem sliceInvalid_eq {length : Nat} (spelling rest : List Char) (hlength : byteLength spelling + 1 = length) :
    sliceInvalid ('\\' :: (spelling ++ rest)) length
      = some (escapeResult (spelling ++ rest) (.invalid spelling.length)) := by
  have hspelling : byteLength ('\\' :: spelling) = length := (Nat.add_comm _ _).trans hlength
  rw [sliceInvalid, upTo?_of_append (List.cons_append ..).symm hspelling, escapeResult, escapeError, List.take_left,
    hspelling]
  rfl

theorem foldBelow?_bind_scalar? {base number : Nat} (hbase : 0 < base) {digits : List Char} (hsome : digits ≠ [])
    (hnumber : Writes base digits number) : (foldBelow? (2 ^ 32) base digits).bind scalar? = scalar? number := by
  rw [foldBelow?_eq (by decide) hbase (wholeNumber?_eq_some_iff.mpr ⟨hsome, hnumber⟩)]
  split
  · rfl
  · next hlarge =>
    have hinvalid : ¬number.isValidChar := by
      rw [Nat.isValidChar]
      omega
    exact (if_neg hinvalid).symm

theorem sliceScalar_eq {base number start stop length : Nat} {front digits back spelling rest : List Char}
    (hbase : 0 < base) (hsome : digits ≠ []) (hnumber : Writes base digits number)
    (htext : '\\' :: (spelling ++ rest) = front ++ digits ++ back) (hstart : byteLength front = start)
    (hstop : start + byteLength digits = stop) (hlength : byteLength spelling + 1 = length) :
    sliceScalar ('\\' :: (spelling ++ rest)) base start stop length
      = some (escapeResult (spelling ++ rest) (Escape.ofCodePoint number spelling.length)) := by
  have hslice : slice? start stop ('\\' :: (spelling ++ rest)) = some digits :=
    slice?_eq_some_iff.mpr ⟨front, back, htext, hstart, hstop⟩
  rw [sliceScalar, hslice, Option.bind_eq_bind, Option.bind_some, foldBelow?_bind_scalar? hbase hsome hnumber, scalar?,
    Escape.ofCodePoint]
  by_cases hvalid : number.isValidChar
  · rw [if_pos hvalid, if_pos hvalid, escapeResult, List.take_left, Nat.add_comm 1, hlength]
  · rw [if_neg hvalid, if_neg hvalid]
    exact sliceInvalid_eq spelling rest hlength

theorem sliceFixed_eq {letter : Char} (hletter : letter.utf8Size = 1) {count : Nat} (hcount : 0 < count)
    (rest : List Char) :
    sliceFixed ('\\' :: letter :: rest) count = some (escapeResult (letter :: rest) (Escape.fixedHex count rest)) := by
  obtain ⟨run, back, rfl, hrun, hdigits, hmost, -⟩ := exists_run (isDigit 16) count rest
  have hfront : byteLength ['\\', letter] = 2 := by
    rw [byteLength_cons, byteLength_cons, hletter]
    rfl
  have hspelling : byteLength (letter :: run) + 1 = 2 + run.length := by
    rw [byteLength_cons, hletter, byteLength_of_digits hdigits]
    omega
  have hrest : from? 2 ('\\' :: letter :: (run ++ back)) = some (run ++ back) :=
    from?_of_append (show _ = ['\\', letter] ++ (run ++ back) from rfl) hfront
  rw [sliceFixed, hrest, Option.bind_eq_bind, Option.bind_some, countDigits_utf8Bytes, Escape.fixedHex, hrun]
  by_cases hfew : run.length < count
  · rw [if_pos hfew, if_pos hfew, Nat.add_comm 1]
    exact sliceInvalid_eq (letter :: run) back hspelling
  · obtain rfl : run.length = count := by omega
    rw [if_neg hfew, if_neg hfew, Nat.add_comm 1]
    exact sliceScalar_eq (by decide) (List.ne_nil_of_length_pos hcount) (writes_iff.mpr ⟨hdigits, rfl⟩)
      (show '\\' :: (letter :: run ++ back) = ['\\', letter] ++ run ++ back from rfl) hfront
      (by rw [byteLength_of_digits hdigits]) hspelling

theorem sliceBraced_eq (rest : List Char) :
    sliceBraced ('\\' :: 'u' :: '\x7b' :: rest)
      = some (escapeResult ('u' :: '\x7b' :: rest) (Escape.bracedHex rest)) := by
  obtain ⟨run, back, rfl, hrun, hdigits, -, -⟩ := exists_run (isDigit 16) rest.length rest
  rw [List.take_length] at hrun
  have hspelling : byteLength ('u' :: '\x7b' :: run) + 1 = 3 + run.length := by
    rw [byteLength_cons, byteLength_cons, byteLength_of_digits hdigits]
    show 1 + (1 + run.length) + 1 = 3 + run.length
    omega
  have hinner : from? 3 ('\\' :: 'u' :: '\x7b' :: (run ++ back)) = some (run ++ back) :=
    from?_of_append (show _ = ['\\', 'u', '\x7b'] ++ (run ++ back) from rfl) rfl
  have hrest : from? (3 + run.length) ('\\' :: 'u' :: '\x7b' :: (run ++ back)) = some back :=
    from?_of_append (show _ = '\\' :: 'u' :: '\x7b' :: run ++ back from rfl) ((Nat.add_comm _ _).trans hspelling)
  have hmin : min (3 + run.length) (byteLength ('\\' :: 'u' :: '\x7b' :: (run ++ back))) = 3 + run.length := by
    refine Nat.min_eq_left ?_
    show 3 + run.length ≤ byteLength ('\\' :: ('u' :: '\x7b' :: run ++ back))
    rw [byteLength_escape]
    omega
  have hinvalid := sliceInvalid_eq ('u' :: '\x7b' :: run) back hspelling
  rw [sliceBraced, hinner, Option.bind_eq_bind, Option.bind_some, countDigits_eq, Escape.bracedHex, hrun]
  dsimp only
  rw [hmin, hrest, Option.bind_some, List.drop_left, Nat.add_comm 2]
  by_cases hnone : run = []
  · subst hnone
    exact hinvalid
  · rw [if_neg (mt List.length_eq_zero_iff.mp hnone)]
    by_cases hclosed : back.head? = some '\x7d'
    · obtain ⟨others, rfl⟩ := List.head?_eq_some_iff.mp hclosed
      have htext : 'u' :: '\x7b' :: (run ++ '\x7d' :: others) = 'u' :: '\x7b' :: (run ++ ['\x7d']) ++ others := by simp
      have hlength : ('u' :: '\x7b' :: (run ++ ['\x7d'])).length = 3 + run.length := by
        simp only [List.length_cons, List.length_append, List.length_nil]
        omega
      have hend : byteLength ('u' :: '\x7b' :: (run ++ ['\x7d'])) + 1 = 3 + run.length + 1 := by
        rw [← List.cons_append, ← List.cons_append, byteLength_append, ← hspelling]
        rfl
      have hslices : '\\' :: ('u' :: '\x7b' :: (run ++ ['\x7d']) ++ others)
          = ['\\', 'u', '\x7b'] ++ run ++ '\x7d' :: others := by simp
      have hscalar := sliceScalar_eq (by decide) hnone (writes_iff.mpr ⟨hdigits, rfl⟩) hslices rfl rfl hend
      rw [hlength, ← htext] at hscalar
      rw [if_pos hclosed, if_neg (by simp [hnone]), ← hscalar, byteLength_of_digits hdigits]
      rfl
    · rw [if_neg hclosed, if_pos (by simp [hclosed])]
      exact hinvalid

theorem utf8Size_of_simple? {letter denoted : Char} (hsimple : Escape.simple? letter = some denoted) :
    letter.utf8Size = 1 := by
  unfold Escape.simple? at hsimple
  split at hsimple
  all_goals first | rfl | cases hsimple

theorem sliceEscape_eq (after : List Char) :
    sliceEscape ('\\' :: after) = some (decodeEscape (String.ofList ('\\' :: after))) := by
  have hafter : from? 1 ('\\' :: after) = some after := from?_of_append (show _ = ['\\'] ++ after from rfl) rfl
  rw [decodeEscape_eq, sliceEscape, hafter, Option.bind_eq_bind, Option.bind_some]
  cases after with
  | nil => exact sliceInvalid_eq [] [] rfl
  | cons c rest =>
    rw [List.head?_cons]
    dsimp only
    cases hsimple : Escape.simple? c with
    | some denoted =>
      rw [Escape.read_simple hsimple, escapeResult, List.take_succ_cons, List.take_zero, byteLength_cons,
        utf8Size_of_simple? hsimple]
      rfl
    | none =>
      dsimp only
      cases hoctal : isDigit 8 c with
      | true =>
        obtain ⟨run, back, htext, hrun, hsome, hdigits, -, -⟩ := Escape.exists_octal hoctal
        rw [if_pos rfl, Escape.read_octal hoctal, countDigits_utf8Bytes, hrun, htext]
        refine sliceScalar_eq (by decide) hsome (writes_iff.mpr ⟨hdigits, rfl⟩)
          (show '\\' :: (run ++ back) = ['\\'] ++ run ++ back from rfl) rfl ?_ ?_
        · rw [byteLength_of_digits hdigits]
        · rw [byteLength_of_digits hdigits, Nat.add_comm]
      | false =>
        rw [if_neg Bool.false_ne_true]
        by_cases hx : c = 'x'
        · subst hx
          rw [if_pos rfl, Escape.read_short]
          exact sliceFixed_eq rfl (by decide) rest
        · rw [if_neg hx]
          by_cases hu : c = 'u'
          · subst hu
            have hrest : from? 2 ('\\' :: 'u' :: rest) = some rest :=
              from?_of_append (show _ = ['\\', 'u'] ++ rest from rfl) rfl
            rw [if_pos rfl, hrest, Option.bind_some]
            by_cases hopen : rest.head? = some '\x7b'
            · obtain ⟨inner, rfl⟩ := List.head?_eq_some_iff.mp hopen
              rw [if_pos hopen, Escape.read_braced]
              exact sliceBraced_eq inner
            · rw [if_neg hopen, Escape.read_long hopen]
              exact sliceFixed_eq rfl (by decide) rest
          · rw [if_neg hu, Escape.read_itself hsimple hoctal hx hu]
            rfl

/-! ### Strings -/

/-- An error in a text that starts so many bytes further on. -/
def shift (distance : Nat) : LiteralError → LiteralError
  | .invalidEscape offset length text => .invalidEscape (offset + distance) length text
  | other => other

theorem shift_escapeError (distance : Nat) (after : List Char) (taken : Nat) :
    shift distance (escapeError 0 after taken) = escapeError distance after taken := by
  rw [escapeError, shift, Nat.zero_add]
  rfl

/-- The character at an offset, or the one that an escape there denotes, and the bytes that it takes. The body begins at
the given offset of its literal. -/
def sliceTurn (body : List Char) (base offset : Nat) : Option (Except LiteralError (Char × Nat)) := do
  let rest ← from? offset body
  if rest.head? = some '\\' then (sliceEscape rest).map (Except.mapError (shift (base + offset)))
  else
    let c := rest.headD '\x00'
    some (.ok (c, c.utf8Size))

theorem sliceTurn_plain {body rest : List Char} {base offset : Nat} {c : Char}
    (hrest : from? offset body = some (c :: rest)) (hplain : c ≠ '\\') :
    sliceTurn body base offset = some (.ok (c, c.utf8Size)) := by
  rw [sliceTurn, hrest, Option.bind_eq_bind, Option.bind_some, if_neg (by simpa using hplain)]
  rfl

theorem sliceTurn_escape {body after : List Char} {base offset : Nat} (hrest : from? offset body = some ('\\' :: after)) :
    sliceTurn body base offset = some ((escapeResult after (Escape.read after)).mapError (shift (base + offset))) := by
  rw [sliceTurn, hrest, Option.bind_eq_bind, Option.bind_some, if_pos List.head?_cons, sliceEscape_eq, decodeEscape_eq]
  rfl

theorem pos_of_sliceTurn {body : List Char} {base offset length : Nat} {c : Char}
    (hturn : sliceTurn body base offset = some (.ok (c, length))) : 0 < length := by
  have hbind := hturn
  rw [sliceTurn, Option.bind_eq_bind, Option.bind_eq_some_iff] at hbind
  obtain ⟨rest, hrest, hchar⟩ := hbind
  by_cases hbackslash : rest.head? = some '\\'
  · obtain ⟨after, rfl⟩ := List.head?_eq_some_iff.mp hbackslash
    rw [sliceTurn_escape hrest] at hturn
    cases hread : Escape.read after with
    | denotes denoted taken =>
      rw [hread] at hturn
      cases hturn
      omega
    | invalid taken =>
      rw [hread] at hturn
      cases hturn
  · rw [if_neg hbackslash] at hchar
    cases hchar
    exact Char.utf8Size_pos _

/-- Decodes a body from an offset on, behind what has been decoded. -/
def sliceEscaped (body : List Char) (base offset : Nat) (decoded : List Char) : Option (Except LiteralError String) :=
  if _ : offset < byteLength body then
    match _hturn : sliceTurn body base offset with
    | none => none
    | some (.error error) => some (.error error)
    | some (.ok (c, length)) => sliceEscaped body base (offset + length) (decoded ++ [c])
  else some (.ok (String.ofList decoded))
termination_by byteLength body - offset
decreasing_by
  have := pos_of_sliceTurn _hturn
  omega

def sliceString (text : String) : Option (Except LiteralError String) :=
  match between? '"' '"' text.toList with
  | some body => sliceEscaped body 1 0 []
  | none => some (.error (.malformed .string))

theorem sliceEscaped_next {body decoded : List Char} {base offset length : Nat} {c : Char}
    (hmore : offset < byteLength body) (hturn : sliceTurn body base offset = some (.ok (c, length))) :
    sliceEscaped body base offset decoded = sliceEscaped body base (offset + length) (decoded ++ [c]) := by
  rw [sliceEscaped, dif_pos hmore]
  split
  · next hnone => cases hnone.symm.trans hturn
  · next herror => cases herror.symm.trans hturn
  · next hok =>
    cases hok.symm.trans hturn
    rfl

theorem sliceEscaped_error {body decoded : List Char} {base offset : Nat} {error : LiteralError}
    (hmore : offset < byteLength body) (hturn : sliceTurn body base offset = some (.error error)) :
    sliceEscaped body base offset decoded = some (.error error) := by
  rw [sliceEscaped, dif_pos hmore]
  split
  · next hnone => cases hnone.symm.trans hturn
  · next herror =>
    cases herror.symm.trans hturn
    rfl
  · next hok => cases hok.symm.trans hturn

theorem lt_byteLength_append (front : List Char) (c : Char) (rest : List Char) :
    byteLength front < byteLength (front ++ c :: rest) := by
  have := c.utf8Size_pos
  rw [byteLength_append, byteLength_cons]
  omega

/-- Each turn begins behind the characters in front, which are whole, and so ends behind the next ones. -/
theorem sliceEscaped_eq {base offset : Nat} {rest : List Char} (front decoded : List Char)
    (hoffset : base + byteLength front = offset) :
    sliceEscaped (front ++ rest) base (byteLength front) decoded
      = some ((fun value => String.ofList (decoded ++ value)) <$> unescape offset rest) := by
  fun_induction unescape offset rest generalizing front decoded with
  | case1 offset =>
    rw [sliceEscaped, dif_neg (by simp)]
    exact congrArg (fun value => some (Except.ok (String.ofList value))) (List.append_nil decoded).symm
  | case2 offset rest denoted taken hread ih =>
    have hturn : sliceTurn (front ++ '\\' :: rest) base (byteLength front)
        = some (.ok (denoted, 1 + byteLength (rest.take taken))) := by
      rw [sliceTurn_escape (from?_of_append rfl rfl), hread]
      rfl
    have hfront : byteLength (front ++ '\\' :: rest.take taken) = byteLength front + (1 + byteLength (rest.take taken)) :=
      byteLength_append front _
    have htext : front ++ '\\' :: rest = front ++ '\\' :: rest.take taken ++ rest.drop taken := by simp
    rw [sliceEscaped_next (lt_byteLength_append front '\\' rest) hturn, htext, ← hfront, ih _ _ (by omega)]
    cases unescape (offset + 1 + byteLength (rest.take taken)) (rest.drop taken) with
    | ok value => exact congrArg (fun value => some (Except.ok (String.ofList value))) (List.append_cons ..).symm
    | error error => rfl
  | case3 offset rest taken hread =>
    have hturn : sliceTurn (front ++ '\\' :: rest) base (byteLength front)
        = some (.error (escapeError offset rest taken)) := by
      rw [sliceTurn_escape (from?_of_append rfl rfl), hread, ← hoffset]
      exact congrArg (fun error => some (Except.error error)) (shift_escapeError _ rest taken)
    rw [sliceEscaped_error (lt_byteLength_append front '\\' rest) hturn]
    rfl
  | case4 offset c rest hplain ih =>
    have hturn : sliceTurn (front ++ c :: rest) base (byteLength front) = some (.ok (c, c.utf8Size)) :=
      sliceTurn_plain (from?_of_append rfl rfl) hplain
    have hfront : byteLength (front ++ [c]) = byteLength front + c.utf8Size := byteLength_append front [c]
    rw [sliceEscaped_next (lt_byteLength_append front c rest) hturn, List.append_cons front, ← hfront,
      ih _ _ (by omega)]
    cases unescape (offset + c.utf8Size) rest with
    | ok value => exact congrArg (fun value => some (Except.ok (String.ofList value))) (List.append_cons ..).symm
    | error error => rfl

/-- No slice that the decoder looks at is missing. -/
theorem sliceString_eq (text : String) : sliceString text = some (decodeString text) := by
  rw [sliceString, decodeString]
  cases between? '"' '"' text.toList with
  | some body => exact sliceEscaped_eq [] [] rfl
  | none => rfl

/-! ### Strings and their grammar -/

theorem between?_quotes (body : String) : between? '"' '"' ("\"" ++ body ++ "\"").toList = some body.toList := by
  have htext : ("\"" ++ body ++ "\"").toList = '"' :: (body.toList ++ ['"']) := by simp
  have hlast : (body.toList ++ ['"']).getLast? = some '"' := List.getLast?_concat
  rw [htext, between?, if_pos ⟨rfl, hlast⟩, List.dropLast_concat]

theorem decodeString_quotes (body : String) :
    decodeString ("\"" ++ body ++ "\"") = String.ofList <$> unescape 1 body.toList := by
  rw [decodeString, between?_quotes]

/-- Decoding by offsets never misses a slice. A string has the value that the grammar gives to its body, and an error if
there is none: the error begins behind the longest prefix that has a value, and shows the slice of the string that it
spans. -/
theorem decodeString_exact :
    (∀ text : String, sliceString text = some (decodeString text)) ∧
    ∀ body : String,
      (∀ value : String, decodeString ("\"" ++ body ++ "\"") = .ok value ↔ Spells body.toList value.toList) ∧
      ((∀ value, ¬Spells body.toList value) →
        ∃ front length spelling, IsLongestSpelled front body.toList ∧
          decodeString ("\"" ++ body ++ "\"") = .error (.invalidEscape (1 + byteLength front) length spelling) ∧
          slice? (1 + byteLength front) (1 + byteLength front + length) ("\"" ++ body ++ "\"").toList
            = some spelling.toList) := by
  refine ⟨sliceString_eq, fun body => ⟨fun value => ?_, fun hnone => ?_⟩⟩
  · rw [decodeString_quotes, ← unescape_eq_ok_iff]
    cases unescape 1 body.toList with
    | ok found =>
      constructor
      · intro hok
        cases hok
        rw [String.toList_ofList]
      · intro hok
        cases hok
        exact congrArg Except.ok String.ofList_toList
    | error error =>
      constructor
      · intro hok
        cases hok
      · intro hok
        cases hok
  · obtain ⟨value, -, hspells⟩ | ⟨front, value, after, taken, hbody, hfront, hinvalid, herror⟩ :=
      unescape_cases 1 body.toList
    · exact absurd hspells (hnone value)
    · have hafter : after.take taken ++ (after.drop taken ++ ['"']) = after ++ ['"'] := by
        rw [← List.append_assoc, List.take_append_drop]
      have htext : ("\"" ++ body ++ "\"").toList
          = '"' :: front ++ '\\' :: after.take taken ++ (after.drop taken ++ ['"']) := by
        simp [hbody, hafter]
      refine ⟨front, byteLength ('\\' :: after.take taken), String.ofList ('\\' :: after.take taken),
        hbody ▸ hfront.isLongest hinvalid, ?_,
        slice?_eq_some_iff.mpr ⟨'"' :: front, after.drop taken ++ ['"'], ?_, rfl, ?_⟩⟩
      · rw [decodeString_quotes, herror]
        rfl
      · rw [String.toList_ofList, htext]
      · rw [String.toList_ofList]

/-- Two hexadecimal digits are asked for and one is there. -/
theorem decodeString_exact_short : (∀ value, ¬Spells "é\\x4".toList value) ∧
    ∃ front length spelling, IsLongestSpelled front "é\\x4".toList ∧
      decodeString ("\"" ++ "é\\x4" ++ "\"") = .error (.invalidEscape (1 + byteLength front) length spelling) ∧
      slice? (1 + byteLength front) (1 + byteLength front + length) ("\"" ++ "é\\x4" ++ "\"").toList
        = some spelling.toList := by
  have hnone : ∀ value, ¬Spells "é\\x4".toList value := by
    intro value hspells
    have hread : Escape.read ['x', '4'] = .invalid 2 := by decide
    have hok := hspells.unescape 1
    rw [show "é\\x4".toList = ['é', '\\', 'x', '4'] from rfl, unescape, if_neg (by decide), unescape, if_pos rfl,
      hread] at hok
    cases hok
  exact ⟨hnone, (decodeString_exact.2 "é\\x4").2 hnone⟩

end Squirrel.Literal
