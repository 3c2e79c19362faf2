import Mathlib.Data.List.Forall2
import Squirrel.Literal.Text
import Squirrel.Proofs.Literal.Numeral

/-!
# The spelling of characters in strings

A grammar of escapes and of the bodies of strings, and the decoder measured by it. An escape is a spelling that a backslash
announces; only that of an octal number depends on what follows, since it takes every digit that it can. The decoder reads
each body from the left in the only way that there is and stops where no spelling begins.
-/

namespace Squirrel

/-! ### Grammar -/

namespace Escape

/-- The simple escapes: letters that denote a control character, and marks that denote themselves. -/
def singles : List (Char × Char) :=
  [('a', '\x07'), ('b', '\x08'), ('f', '\x0c'), ('n', '\x0a'), ('r', '\x0d'), ('t', '\x09'), ('v', '\x0b'),
    ('\'', '\''), ('"', '"'), ('\\', '\\'), ('?', '?')]

/-- What may follow a backslash, before some text, with the character that it denotes. -/
inductive Spells : List Char → List Char → Char → Prop
  | simple {letter denoted : Char} {after : List Char} (hsimple : (letter, denoted) ∈ singles) :
      Spells [letter] after denoted
  | octal {digits after : List Char} {number : Nat} (hsome : digits ≠ []) (hmost : digits.length ≤ 3)
      (hnumber : Literal.Writes 8 digits number)
      (hgreedy : digits.length = 3 ∨ ∀ c, after.head? = some c → isDigit 8 c = false) :
      Spells digits after (Char.ofNat number)
  | short {digits after : List Char} {number : Nat} (hcount : digits.length = 2)
      (hnumber : Literal.Writes 16 digits number) : Spells ('x' :: digits) after (Char.ofNat number)
  | long {digits after : List Char} {number : Nat} (hcount : digits.length = 4)
      (hnumber : Literal.Writes 16 digits number) (hvalid : number.isValidChar) :
      Spells ('u' :: digits) after (Char.ofNat number)
  | braced {digits after : List Char} {number : Nat} (hsome : digits ≠ []) (hnumber : Literal.Writes 16 digits number)
      (hvalid : number.isValidChar) : Spells ('u' :: '\x7b' :: (digits ++ ['\x7d'])) after (Char.ofNat number)
  | itself {c : Char} {after : List Char} (hsimple : ∀ denoted, (c, denoted) ∉ singles) (hoctal : isDigit 8 c = false)
      (hx : c ≠ 'x') (hu : c ≠ 'u') : Spells [c] after c

end Escape

namespace Literal

/-- The body of a string and the characters that it denotes. -/
inductive Spells : List Char → List Char → Prop
  | nil : Spells [] []
  | plain {c : Char} {rest value : List Char} (hplain : c ≠ '\\') (hrest : Spells rest value) :
      Spells (c :: rest) (c :: value)
  | escape {spelling rest value : List Char} {denoted : Char} (hspells : Escape.Spells spelling rest denoted)
      (hrest : Spells rest value) : Spells ('\\' :: (spelling ++ rest)) (denoted :: value)

end Literal

/-! ### Runs of digits -/

/-- A run that stops for its length or for what follows it is found again. -/
theorem takeWhile_take_append {p : Char → Bool} {run after : List Char} {count : Nat} (hrun : ∀ c ∈ run, p c = true)
    (hmost : run.length ≤ count) (hstop : run.length = count ∨ ∀ c, after.head? = some c → p c = false) :
    ((run ++ after).take count).takeWhile p = run := by
  rw [List.take_append, List.take_of_length_le hmost, List.takeWhile_append_of_pos hrun]
  have hnothing : (after.take (count - run.length)).takeWhile p = [] := by
    obtain hfull | hother := hstop
    · rw [hfull, Nat.sub_self]
      rfl
    · cases hafter : after.take (count - run.length) with
      | nil => rfl
      | cons c rest =>
        have hhead : after.head? = some c := by
          rw [← List.take_append_drop (count - run.length) after, hafter]
          rfl
        rw [List.takeWhile_cons, hother c hhead]
        rfl
  rw [hnothing, List.append_nil]

/-- A text begins with a run of digits, as long as the count allows. -/
theorem exists_run (p : Char → Bool) (count : Nat) (text : List Char) : ∃ run after, text = run ++ after ∧
    (text.take count).takeWhile p = run ∧ (∀ c ∈ run, p c = true) ∧ run.length ≤ count ∧
    (run.length = count ∨ ∀ c, after.head? = some c → p c = false) := by
  induction count generalizing text with
  | zero => exact ⟨[], text, rfl, rfl, by simp, Nat.le_refl 0, .inl rfl⟩
  | succ count ih =>
    cases text with
    | nil => exact ⟨[], [], rfl, rfl, by simp, Nat.zero_le _, .inr (by simp)⟩
    | cons c rest =>
      cases hc : p c with
      | true =>
        obtain ⟨run, after, rfl, htake, hrun, hmost, hstop⟩ := ih rest
        refine ⟨c :: run, after, rfl, ?_, List.forall_mem_cons.mpr ⟨hc, hrun⟩, Nat.succ_le_succ hmost,
          hstop.imp_left (congrArg Nat.succ)⟩
        rw [List.take_succ_cons, List.takeWhile_cons, hc, if_pos rfl, htake]
      | false =>
        refine ⟨[], c :: rest, rfl, ?_, by simp, Nat.zero_le _, .inr ?_⟩
        · rw [List.take_succ_cons, List.takeWhile_cons, hc]
          rfl
        · intro d hd
          cases hd
          exact hc

/-! ### Numbers of digits -/

namespace Literal

variable {base number : Nat} {text : List Char}

theorem lt_of_digit? {c : Char} {d : Nat} (hdigit : digit? base c = some d) : d < base :=
  of_decide_eq_true (Option.filter_eq_some_iff.mp hdigit).2

theorem forall₂_digit?_iff {values : List Nat} : List.Forall₂ (fun c d => digit? base c = some d) text values ↔
    (∀ c ∈ text, isDigit base c = true) ∧ values = text.filterMap (digit? base) := by
  induction text generalizing values with
  | nil => simp [List.forall₂_nil_left_iff]
  | cons c rest ih =>
    rw [List.forall₂_cons_left_iff, List.forall_mem_cons, isDigit]
    cases hdigit : digit? base c with
    | none => simp
    | some d =>
      rw [List.filterMap_cons_some hdigit]
      constructor
      · rintro ⟨_, others, heq, hothers, rfl⟩
        obtain rfl := Option.some.inj heq
        obtain ⟨hrest, rfl⟩ := ih.mp hothers
        exact ⟨⟨rfl, hrest⟩, rfl⟩
      · rintro ⟨⟨-, hrest⟩, rfl⟩
        exact ⟨d, _, rfl, ih.mpr ⟨hrest, rfl⟩, rfl⟩

theorem writes_iff : Writes base text number ↔ (∀ c ∈ text, isDigit base c = true) ∧ number = numberOf base text := by
  rw [numberOf, positional_eq]
  constructor
  · rintro ⟨values, hvalues, rfl⟩
    obtain ⟨hdigits, rfl⟩ := forall₂_digit?_iff.mp hvalues
    exact ⟨hdigits, rfl⟩
  · rintro ⟨hdigits, rfl⟩
    exact ⟨_, forall₂_digit?_iff.mpr ⟨hdigits, rfl⟩, rfl⟩

theorem Writes.lt (hbase : 1 < base) (hnumber : Writes base text number) : number < base ^ text.length := by
  obtain ⟨values, hvalues, rfl⟩ := hnumber
  rw [hvalues.length_eq, ← List.length_reverse]
  refine Nat.ofDigits_lt_base_pow_length hbase fun d hd => ?_
  rw [List.mem_reverse, (forall₂_digit?_iff.mp hvalues).2] at hd
  obtain ⟨c, -, hdigit⟩ := List.mem_filterMap.mp hd
  exact lt_of_digit? hdigit

/-- Numbers of few digits are code points below those that are no characters. -/
theorem Writes.isValidChar {count : Nat} (hbase : 1 < base) (hnumber : Writes base text number)
    (hcount : text.length ≤ count) (hsmall : base ^ count ≤ 0xd800) : number.isValidChar :=
  .inl (Nat.lt_of_lt_of_le (hnumber.lt hbase)
    (Nat.le_trans (Nat.pow_le_pow_right (Nat.zero_lt_of_lt hbase) hcount) hsmall))

end Literal

/-! ### The reader of escapes -/

namespace Escape

theorem ofCodePoint_eq_denotes_iff {value length taken : Nat} {c : Char} :
    ofCodePoint value length = denotes c taken ↔ value.isValidChar ∧ c = Char.ofNat value ∧ taken = length := by
  rw [ofCodePoint]
  split
  · next hvalid => simp [hvalid, eq_comm]
  · next hvalid => simp [hvalid]

/-- The decoder knows the simple escapes. -/
theorem simple?_eq_some_iff {letter denoted : Char} : simple? letter = some denoted ↔ (letter, denoted) ∈ singles := by
  constructor
  · intro hsimple
    unfold simple? at hsimple
    split at hsimple
    all_goals cases hsimple <;> decide
  · intro hsingle
    have hknown : ∀ single ∈ singles, simple? single.1 = some single.2 := by decide
    exact hknown _ hsingle

theorem simple?_eq_none_iff {c : Char} : simple? c = none ↔ ∀ denoted, (c, denoted) ∉ singles := by
  rw [Option.eq_none_iff_forall_ne_some]
  exact forall_congr' fun denoted => not_congr simple?_eq_some_iff

/-- An octal digit is no letter with an escape of its own. -/
theorem simple?_of_isDigit {c : Char} (hdigit : isDigit 8 c = true) : simple? c = none := by
  unfold simple?
  split
  all_goals first | rfl | exact absurd hdigit (by decide)

theorem read_simple {letter denoted : Char} {rest : List Char} (hsimple : simple? letter = some denoted) :
    read (letter :: rest) = denotes denoted 1 := by
  rw [Escape.read.eq_def]
  dsimp only
  rw [hsimple]

theorem read_octal {c : Char} {rest : List Char} (hdigit : isDigit 8 c = true) :
    read (c :: rest) = ofCodePoint (numberOf 8 (((c :: rest).take 3).takeWhile (isDigit 8)))
      (((c :: rest).take 3).takeWhile (isDigit 8)).length := by
  rw [Escape.read.eq_def]
  dsimp only
  rw [simple?_of_isDigit hdigit, if_pos hdigit]

theorem read_short (rest : List Char) : read ('x' :: rest) = fixedHex 2 rest := rfl

theorem read_long {rest : List Char} (hopen : rest.head? ≠ some '\x7b') : read ('u' :: rest) = fixedHex 4 rest := by
  cases rest with
  | nil => rfl
  | cons c others => exact Escape.read.eq_3 _ _ fun inner heq => hopen (by rw [heq]; rfl)

theorem read_braced (inner : List Char) : read ('u' :: '\x7b' :: inner) = bracedHex inner := rfl

theorem read_itself {c : Char} {rest : List Char} (hsimple : simple? c = none) (hoctal : isDigit 8 c = false)
    (hx : c ≠ 'x') (hu : c ≠ 'u') : read (c :: rest) = denotes c 1 := by
  rw [Escape.read.eq_def]
  dsimp only
  rw [hsimple, if_neg (by simp [hoctal]), if_neg hx, if_neg hu]

theorem fixedHex_append {count number : Nat} {digits after : List Char} (hcount : digits.length = count)
    (hnumber : Literal.Writes 16 digits number) (hvalid : number.isValidChar) :
    fixedHex count (digits ++ after) = denotes (Char.ofNat number) (1 + count) := by
  obtain ⟨hdigits, rfl⟩ := Literal.writes_iff.mp hnumber
  rw [fixedHex, takeWhile_take_append hdigits hcount.le (.inl hcount)]
  rw [if_neg (by omega)]
  exact ofCodePoint_eq_denotes_iff.mpr ⟨hvalid, rfl, rfl⟩

theorem exists_of_fixedHex {count taken : Nat} {rest : List Char} {c : Char}
    (hread : fixedHex count rest = denotes c taken) :
    ∃ digits after number, rest = digits ++ after ∧ digits.length = count ∧ taken = 1 + count ∧
      Literal.Writes 16 digits number ∧ number.isValidChar ∧ c = Char.ofNat number := by
  obtain ⟨digits, after, rfl, htake, hdigits, hmost, -⟩ := exists_run (isDigit 16) count rest
  rw [fixedHex, htake] at hread
  split at hread
  · cases hread
  · next hcount =>
    obtain ⟨hvalid, rfl, rfl⟩ := ofCodePoint_eq_denotes_iff.mp hread
    exact ⟨digits, after, _, rfl, by omega, rfl, Literal.writes_iff.mpr ⟨hdigits, rfl⟩, hvalid, rfl⟩

theorem bracedHex_append {number : Nat} {digits after : List Char} (hsome : digits ≠ [])
    (hnumber : Literal.Writes 16 digits number) (hvalid : number.isValidChar) :
    bracedHex (digits ++ '}' :: after) = denotes (Char.ofNat number) (3 + digits.length) := by
  obtain ⟨hdigits, rfl⟩ := Literal.writes_iff.mp hnumber
  have hrun : (digits ++ '}' :: after).takeWhile (isDigit 16) = digits := by
    rw [List.takeWhile_append_of_pos hdigits]
    exact List.append_nil digits
  rw [bracedHex, hrun]
  rw [List.drop_left, if_neg (by simpa using hsome)]
  exact ofCodePoint_eq_denotes_iff.mpr ⟨hvalid, rfl, rfl⟩

theorem exists_of_bracedHex {taken : Nat} {rest : List Char} {c : Char} (hread : bracedHex rest = denotes c taken) :
    ∃ digits after number, rest = digits ++ '}' :: after ∧ digits ≠ [] ∧ taken = 3 + digits.length ∧
      Literal.Writes 16 digits number ∧ number.isValidChar ∧ c = Char.ofNat number := by
  obtain ⟨digits, after, rfl, htake, hdigits, -, -⟩ := exists_run (isDigit 16) rest.length rest
  rw [List.take_length] at htake
  rw [bracedHex, htake] at hread
  rw [List.drop_left] at hread
  split at hread
  · cases hread
  · next hclosed =>
    rw [Bool.or_eq_true, not_or, List.isEmpty_iff, bne_iff_ne, not_not] at hclosed
    obtain ⟨others, rfl⟩ := List.head?_eq_some_iff.mp hclosed.2
    obtain ⟨hvalid, rfl, rfl⟩ := ofCodePoint_eq_denotes_iff.mp hread
    exact ⟨digits, others, _, rfl, hclosed.1, rfl, Literal.writes_iff.mpr ⟨hdigits, rfl⟩, hvalid, rfl⟩

/-- The reader takes every spelling. -/
theorem Spells.read {spelling after : List Char} {denoted : Char} (hspells : Spells spelling after denoted) :
    read (spelling ++ after) = denotes denoted spelling.length := by
  cases hspells with
  | simple hsimple => exact read_simple (simple?_eq_some_iff.mpr hsimple)
  | octal hsome hmost hnumber hgreedy =>
    obtain ⟨hdigits, rfl⟩ := Literal.writes_iff.mp hnumber
    have hrun := takeWhile_take_append hdigits hmost hgreedy
    obtain ⟨c, rest, rfl⟩ := List.exists_cons_of_ne_nil hsome
    rw [List.cons_append] at hrun ⊢
    rw [read_octal (hdigits c List.mem_cons_self), hrun]
    exact ofCodePoint_eq_denotes_iff.mpr ⟨hnumber.isValidChar (by decide) hmost (by decide), rfl, rfl⟩
  | short hcount hnumber =>
    have hvalid := hnumber.isValidChar (by decide) hcount.le (by decide)
    rw [List.cons_append, read_short, fixedHex_append hcount hnumber hvalid, List.length_cons, hcount]
  | @long digits _ _ hcount hnumber hvalid =>
    have hopen : (digits ++ after).head? ≠ some '\x7b' := by
      cases digits with
      | nil => cases hcount
      | cons c rest =>
        rintro ⟨rfl⟩
        exact absurd ((Literal.writes_iff.mp hnumber).1 _ List.mem_cons_self) (by decide)
    rw [List.cons_append, read_long hopen, fixedHex_append hcount hnumber hvalid, List.length_cons, hcount]
  | braced hsome hnumber hvalid =>
    rw [List.cons_append, List.cons_append, List.append_assoc, List.singleton_append, read_braced,
      bracedHex_append hsome hnumber hvalid]
    simp only [List.length_cons, List.length_append, List.length_nil]
    exact congrArg _ (by omega)
  | itself hsimple hoctal hx hu => exact read_itself (simple?_eq_none_iff.mpr hsimple) hoctal hx hu

/-- An octal digit begins a number of as many octal digits as follow, up to three. -/
theorem exists_octal {c : Char} {rest : List Char} (hdigit : isDigit 8 c = true) : ∃ run after, c :: rest = run ++ after ∧
    ((c :: rest).take 3).takeWhile (isDigit 8) = run ∧ run ≠ [] ∧ (∀ d ∈ run, isDigit 8 d = true) ∧
    read (c :: rest) = denotes (Char.ofNat (numberOf 8 run)) run.length ∧
    Spells run after (Char.ofNat (numberOf 8 run)) := by
  obtain ⟨run, after, htext, hrun, hdigits, hmost, hstop⟩ := exists_run (isDigit 8) 3 (c :: rest)
  have hsome : run ≠ [] := by
    rintro rfl
    rw [List.take_succ_cons, List.takeWhile_cons, hdigit] at hrun
    cases hrun
  have hnumber : Literal.Writes 8 run (numberOf 8 run) := Literal.writes_iff.mpr ⟨hdigits, rfl⟩
  refine ⟨run, after, htext, hrun, hsome, hdigits, ?_, .octal hsome hmost hnumber hstop⟩
  rw [read_octal hdigit, hrun]
  exact ofCodePoint_eq_denotes_iff.mpr ⟨hnumber.isValidChar (by decide) hmost (by decide), rfl, rfl⟩

/-- Where the reader gets a character, a spelling of it stands. -/
theorem exists_spells {text : List Char} {denoted : Char} {taken : Nat} (hread : read text = denotes denoted taken) :
    ∃ spelling after, text = spelling ++ after ∧ spelling.length = taken ∧ Spells spelling after denoted := by
  cases text with
  | nil => cases hread
  | cons c rest =>
    cases hsimple : simple? c with
    | some found =>
      obtain ⟨rfl, rfl⟩ := denotes.inj ((read_simple hsimple).symm.trans hread)
      exact ⟨[c], rest, rfl, rfl, .simple (simple?_eq_some_iff.mp hsimple)⟩
    | none =>
      cases hoctal : isDigit 8 c with
      | true =>
        obtain ⟨run, after, htext, -, -, -, hrun, hspells⟩ := exists_octal hoctal
        obtain ⟨rfl, rfl⟩ := denotes.inj (hrun.symm.trans hread)
        exact ⟨run, after, htext, rfl, hspells⟩
      | false =>
        by_cases hx : c = 'x'
        · subst hx
          obtain ⟨digits, after, number, rfl, hcount, rfl, hnumber, -, rfl⟩ :=
            exists_of_fixedHex ((read_short rest).symm.trans hread)
          exact ⟨'x' :: digits, after, rfl, by rw [List.length_cons, hcount], .short hcount hnumber⟩
        · by_cases hu : c = 'u'
          · subst hu
            by_cases hopen : rest.head? = some '\x7b'
            · obtain ⟨inner, rfl⟩ := List.head?_eq_some_iff.mp hopen
              obtain ⟨digits, after, number, rfl, hsome, rfl, hnumber, hvalid, rfl⟩ :=
                exists_of_bracedHex ((read_braced inner).symm.trans hread)
              refine ⟨'u' :: '\x7b' :: (digits ++ ['\x7d']), after, by simp, ?_, .braced hsome hnumber hvalid⟩
              simp only [List.length_cons, List.length_append, List.length_nil]
              omega
            · obtain ⟨digits, after, number, rfl, hcount, rfl, hnumber, hvalid, rfl⟩ :=
                exists_of_fixedHex ((read_long hopen).symm.trans hread)
              exact ⟨'u' :: digits, after, rfl, by rw [List.length_cons, hcount], .long hcount hnumber hvalid⟩
          · obtain ⟨rfl, rfl⟩ := denotes.inj ((read_itself hsimple hoctal hx hu).symm.trans hread)
            exact ⟨[c], rest, rfl, rfl, .itself (simple?_eq_none_iff.mp hsimple) hoctal hx hu⟩

/-- Of what follows, a spelling regards only an octal digit that comes next. -/
theorem Spells.congr {spelling after other : List Char} {denoted : Char} (hspells : Spells spelling after denoted)
    (hhead : ∀ c, other.head? = some c → isDigit 8 c = true → after.head? = some c) : Spells spelling other denoted := by
  cases hspells with
  | simple hsimple => exact .simple hsimple
  | octal hsome hmost hnumber hgreedy =>
    refine .octal hsome hmost hnumber (hgreedy.imp_right fun hnone c hc => ?_)
    cases hdigit : isDigit 8 c with
    | true => exact hdigit.symm.trans (hnone c (hhead c hc hdigit))
    | false => rfl
  | short hcount hnumber => exact .short hcount hnumber
  | long hcount hnumber hvalid => exact .long hcount hnumber hvalid
  | braced hsome hnumber hvalid => exact .braced hsome hnumber hvalid
  | itself hsimple hoctal hx hu => exact .itself hsimple hoctal hx hu

/-- With more text, the reader may get another character, but no error. -/
theorem exists_read_append {text : List Char} {denoted : Char} {taken : Nat} (hread : read text = denotes denoted taken)
    (more : List Char) : ∃ denoted taken, read (text ++ more) = denotes denoted taken := by
  obtain ⟨spelling, after, rfl, -, hspells⟩ := exists_spells hread
  rw [List.append_assoc]
  cases hspells with
  | octal hsome hmost hnumber hgreedy =>
    obtain ⟨c, rest, rfl⟩ := List.exists_cons_of_ne_nil hsome
    obtain ⟨run, others, -, -, -, -, hrun, -⟩ := exists_octal ((Literal.writes_iff.mp hnumber).1 c List.mem_cons_self)
    exact ⟨_, _, hrun⟩
  | simple hsimple => exact ⟨_, _, (Spells.simple hsimple).read⟩
  | short hcount hnumber => exact ⟨_, _, (Spells.short hcount hnumber).read⟩
  | long hcount hnumber hvalid => exact ⟨_, _, (Spells.long hcount hnumber hvalid).read⟩
  | braced hsome hnumber hvalid => exact ⟨_, _, (Spells.braced hsome hnumber hvalid).read⟩
  | itself hsimple hoctal hx hu => exact ⟨_, _, (Spells.itself hsimple hoctal hx hu).read⟩

end Escape

/-! ### Bodies -/

namespace Literal

theorem byteLength_escape (spelling rest : List Char) :
    byteLength ('\\' :: (spelling ++ rest)) = 1 + byteLength spelling + byteLength rest := by
  rw [byteLength_cons, byteLength_append, show ('\\' : Char).utf8Size = 1 from rfl, Nat.add_assoc]

/-- What is spelled well in front is decoded first, unless a digit comes next that an octal number would take. -/
theorem Spells.unescape_append {front value after : List Char} (hspells : Spells front value)
    (hafter : ∀ c, after.head? = some c → isDigit 8 c = false) (offset : Nat) :
    unescape offset (front ++ after) = (value ++ ·) <$> unescape (offset + byteLength front) after := by
  induction hspells generalizing offset with
  | nil =>
    rw [List.nil_append, byteLength_nil, Nat.add_zero]
    cases unescape offset after <;> rfl
  | @plain c rest value hplain hrest ih =>
    rw [List.cons_append, unescape, if_neg hplain, ih, byteLength_cons, Nat.add_assoc]
    cases unescape (offset + (c.utf8Size + byteLength rest)) after <;> rfl
  | @escape spelling rest value denoted hdenoted hrest ih =>
    have hread : Escape.read (spelling ++ (rest ++ after)) = .denotes denoted spelling.length := by
      refine (hdenoted.congr fun c hc hdigit => ?_).read
      cases rest with
      | nil =>
        rw [hafter c hc] at hdigit
        cases hdigit
      | cons first others => exact hc
    rw [List.cons_append, List.append_assoc, unescape, if_pos rfl, hread]
    dsimp only
    rw [List.take_left, List.drop_left, ih, byteLength_escape, ← Nat.add_assoc, ← Nat.add_assoc]
    cases unescape (offset + 1 + byteLength spelling + byteLength rest) after <;> rfl

theorem Spells.unescape {body value : List Char} (hspells : Spells body value) (offset : Nat) :
    unescape offset body = .ok value := by
  rw [← List.append_nil body, hspells.unescape_append (by simp), Literal.unescape]
  exact congrArg Except.ok (List.append_nil value)

/-- The decoder stops behind what is spelled well, at a backslash with nothing well spelled behind it. -/
theorem unescape_cases (offset : Nat) (body : List Char) :
    (∃ value, unescape offset body = .ok value ∧ Spells body value) ∨
      ∃ front value after taken, body = front ++ '\\' :: after ∧ Spells front value ∧ Escape.read after = .invalid taken ∧
        unescape offset body = .error (escapeError (offset + byteLength front) after taken) := by
  fun_induction unescape offset body with
  | case1 => exact .inl ⟨[], rfl, .nil⟩
  | case2 offset rest denoted taken hread ih =>
    obtain ⟨spelling, others, rfl, rfl, hspells⟩ := Escape.exists_spells hread
    rw [List.take_left, List.drop_left] at ih ⊢
    obtain ⟨value, hok, hothers⟩ | ⟨front, value, after, taken, rfl, hfront, hinvalid, herror⟩ := ih
    · exact .inl ⟨denoted :: value, by rw [hok]; rfl, .escape hspells hothers⟩
    · refine .inr ⟨'\\' :: (spelling ++ front), denoted :: value, after, taken, by simp, ?_, hinvalid, ?_⟩
      · exact .escape (hspells.congr fun c hc _ => by rw [List.head?_append, hc]; rfl) hfront
      · rw [herror, byteLength_escape, ← Nat.add_assoc, ← Nat.add_assoc]
        rfl
  | case3 offset rest taken hread => exact .inr ⟨[], [], rest, taken, rfl, .nil, hread, rfl⟩
  | case4 offset c rest hplain ih =>
    obtain ⟨value, hok, hrest⟩ | ⟨front, value, after, taken, rfl, hfront, hinvalid, herror⟩ := ih
    · exact .inl ⟨c :: value, by rw [hok]; rfl, .plain hplain hrest⟩
    · refine .inr ⟨c :: front, c :: value, after, taken, rfl, .plain hplain hfront, hinvalid, ?_⟩
      rw [herror, byteLength_cons, Nat.add_assoc]
      rfl

theorem unescape_eq_ok_iff {offset : Nat} {body value : List Char} :
    unescape offset body = .ok value ↔ Spells body value := by
  refine ⟨fun hok => ?_, fun hspells => hspells.unescape offset⟩
  obtain ⟨found, hfound, hspells⟩ | ⟨front, found, after, taken, -, -, -, herror⟩ := unescape_cases offset body
  · cases hfound.symm.trans hok
    exact hspells
  · cases herror.symm.trans hok

/-! ### The longest prefix -/

/-- The longest prefix of a body that is spelled well. -/
structure IsLongestSpelled (front body : List Char) : Prop where
  isPrefix : front <+: body
  spells : ∃ value, Spells front value
  longest : ∀ other, other <+: body → (∃ value, Spells other value) → other.length ≤ front.length

/-- Where the decoder stops, no prefix that is spelled well goes further. -/
theorem Spells.isLongest {front value after : List Char} {taken : Nat} (hfront : Spells front value)
    (hinvalid : Escape.read after = .invalid taken) : IsLongestSpelled front (front ++ '\\' :: after) := by
  refine ⟨List.prefix_append _ _, ⟨value, hfront⟩, ?_⟩
  rintro other hother ⟨found, hfound⟩
  by_contra hlonger
  -- The other prefix contains the backslash, so the decoder stops there in it as well.
  obtain ⟨middle, rfl⟩ : front <+: other :=
    List.prefix_of_prefix_length_le (List.prefix_append _ _) hother (by omega)
  obtain ⟨c, rest, rfl⟩ : ∃ c rest, middle = c :: rest := by
    refine List.exists_cons_of_ne_nil ?_
    rintro rfl
    simp at hlonger
  obtain ⟨rfl, more, rfl⟩ := List.cons_prefix_cons.mp ((List.prefix_append_right_inj front).mp hother)
  cases hread : Escape.read rest with
  | denotes denoted length =>
    obtain ⟨_, _, hmore⟩ := Escape.exists_read_append hread more
    cases hinvalid.symm.trans hmore
  | invalid length =>
    have hok := hfound.unescape 0
    rw [hfront.unescape_append (by simp [show isDigit 8 '\\' = false by decide]) 0, Literal.unescape, if_pos rfl,
      hread] at hok
    cases hok

end Literal

end Squirrel
