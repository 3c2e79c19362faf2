import Mathlib.Data.Nat.Digits.Defs
import Mathlib.Tactic.IntervalCases
import Squirrel.Proofs.Literal.Folded

/-!
# The notations of integers

A grammar of integer literals with the number each of them stands for, and the decoder measured by it. The notations
exclude one another by their first characters, so the decoder may try one after the other.
-/

namespace Squirrel.Literal

/-! ### Grammar -/

/-- A text of digits and the number that it writes, the first digit weighing most. -/
def Writes (base : Nat) (text : List Char) (number : Nat) : Prop :=
  ∃ values, List.Forall₂ (fun c d => digit? base c = some d) text values ∧ number = Nat.ofDigits base values.reverse

/-- A character of a range is found by its distance from the first one. -/
theorem exists_of_between {low high c : Char} (hlow : low ≤ c) (hhigh : c ≤ high) :
    ∃ place ≤ high.toNat - low.toNat, c.toNat - low.toNat = place ∧ c = Char.ofNat (low.toNat + place) := by
  have hleft : low.toNat ≤ c.toNat := hlow
  have hright : c.toNat ≤ high.toNat := hhigh
  refine ⟨c.toNat - low.toNat, by omega, rfl, ?_⟩
  rw [Nat.add_sub_cancel' hleft, Char.ofNat_toNat]

/-- The digits of every base up to 16, each at the place of its value. -/
theorem digit?_eq_some_iff {base value : Nat} {c : Char} : digit? base c = some value ↔ value < base ∧
    ("0123456789abcdef".toList[value]? = some c ∨ "0123456789ABCDEF".toList[value]? = some c) := by
  rw [digit?, Option.filter_eq_some_iff, decide_eq_true_iff, and_comm, and_congr_right_iff]
  rintro -
  constructor
  · intro hvalue
    split at hvalue
    · next hrange =>
      obtain ⟨place, hplace, heq, rfl⟩ := exists_of_between hrange.1 hrange.2
      obtain rfl : place = value := heq.symm.trans (Option.some.inj hvalue)
      refine .inl ?_
      simp only [Char.reduceToNat] at hplace
      interval_cases place <;> rfl
    · split at hvalue
      · next hrange =>
        obtain ⟨place, hplace, heq, rfl⟩ := exists_of_between hrange.1 hrange.2
        obtain rfl : place + 10 = value := (congrArg (· + 10) heq).symm.trans (Option.some.inj hvalue)
        refine .inl ?_
        simp only [Char.reduceToNat] at hplace
        interval_cases place <;> rfl
      · split at hvalue
        · next hrange =>
          obtain ⟨place, hplace, heq, rfl⟩ := exists_of_between hrange.1 hrange.2
          obtain rfl : place + 10 = value := (congrArg (· + 10) heq).symm.trans (Option.some.inj hvalue)
          refine .inr ?_
          simp only [Char.reduceToNat] at hplace
          interval_cases place <;> rfl
        · cases hvalue
  · rintro (hlower | hupper)
    · have hsixteen : value < 16 := (List.getElem?_eq_some_iff.mp hlower).1
      interval_cases value <;> cases hlower <;> rfl
    · have hsixteen : value < 16 := (List.getElem?_eq_some_iff.mp hupper).1
      interval_cases value <;> cases hupper <;> rfl

/-- Integers without sign, by notation. -/
inductive Numeral : List Char → Radix → Nat → Prop
  | quoted {body : List Char} (hbody : body ≠ []) :
      Numeral ('\'' :: '\'' :: '\'' :: (body ++ ['\'', '\'', '\''])) .quoted (Nat.ofDigits 256 (utf8Bytes body).reverse)
  | hexadecimal {mark : Char} {digits : List Char} {number : Nat} (hmark : mark = 'x' ∨ mark = 'X')
      (hdigits : digits ≠ []) (hnumber : Writes 16 digits number) : Numeral ('0' :: mark :: digits) .hexadecimal number
  | octal {digits : List Char} {number : Nat} (hdigits : digits ≠ []) (hnumber : Writes 8 digits number) :
      Numeral ('0' :: digits) .octal number
  | zero : Numeral ['0'] .decimal 0
  | decimal {digits : List Char} {number : Nat} (hdigits : digits ≠ []) (hhead : digits.head? ≠ some '0')
      (hnumber : Writes 10 digits number) : Numeral digits .decimal number

/-- A number with its sign. -/
def signed (negative : Bool) (magnitude : Nat) : Int := if negative then -magnitude else magnitude

/-- An integer literal stands for a number, which may be too large for 64 bits. -/
def Stands (text : String) (radix : Radix) (number : Int) : Prop :=
  ∃ negative numeral magnitude, text.toList = (if negative then ['-'] else []) ++ numeral ∧
    Numeral numeral radix magnitude ∧ number = signed negative magnitude

/-! ### Numbers -/

theorem positional_eq (base : Nat) (values : List Nat) : positional base values = Nat.ofDigits base values.reverse := by
  rw [Nat.ofDigits_eq_foldr, List.foldr_reverse, positional]
  simp only [Nat.cast_id, Nat.mul_comm base, Nat.add_comm]

theorem digits?_eq_some_iff {base : Nat} {text : List Char} {values : List Nat} :
    digits? base text = some values ↔ List.Forall₂ (fun c d => digit? base c = some d) text values := by
  induction text generalizing values with
  | nil =>
    constructor
    · intro hvalues
      cases hvalues
      exact .nil
    · intro hvalues
      cases hvalues
      rfl
  | cons c rest ih =>
    rw [digits?, List.mapM_cons, Option.bind_eq_bind, Option.bind_eq_some_iff]
    constructor
    · rintro ⟨d, hdigit, hrest⟩
      obtain ⟨others, hothers, heq⟩ := Option.bind_eq_some_iff.mp hrest
      cases heq
      exact .cons hdigit (ih.mp hothers)
    · rintro (_ | ⟨hdigit, hrest⟩)
      exact ⟨_, hdigit, Option.bind_eq_some_iff.mpr ⟨_, ih.mpr hrest, rfl⟩⟩

theorem wholeNumber?_eq_some_iff {base : Nat} {text : List Char} {number : Nat} :
    wholeNumber? base text = some number ↔ text ≠ [] ∧ Writes base text number := by
  cases text with
  | nil => simp [wholeNumber?]
  | cons c rest =>
    have hwhole : wholeNumber? base (c :: rest) = (digits? base (c :: rest)).map (positional base) := rfl
    rw [hwhole, Option.map_eq_some_iff]
    refine ⟨?_, ?_⟩
    · rintro ⟨values, hvalues, rfl⟩
      exact ⟨List.cons_ne_nil _ _, values, digits?_eq_some_iff.mp hvalues, positional_eq base values⟩
    · rintro ⟨-, values, hvalues, rfl⟩
      exact ⟨values, digits?_eq_some_iff.mpr hvalues, positional_eq base values⟩

/-! ### Bodies -/

theorem quotedBody?_eq_some_iff {text body : List Char} :
    quotedBody? text = some body ↔ text = '\'' :: '\'' :: '\'' :: (body ++ ['\'', '\'', '\'']) := by
  constructor
  · intro hbody
    unfold quotedBody? at hbody
    split at hbody
    · next rest =>
      split at hbody
      · next hsuffix =>
        obtain ⟨front, rfl⟩ := List.isSuffixOf_iff_suffix.mp hsuffix
        have htake : (front ++ ['\'', '\'', '\'']).take ((front ++ ['\'', '\'', '\'']).length - 3) = front := by simp
        rw [htake] at hbody
        cases hbody
        rfl
      · cases hbody
    · cases hbody
  · rintro rfl
    have hsuffix : ['\'', '\'', '\''].isSuffixOf (body ++ ['\'', '\'', '\'']) = true :=
      List.isSuffixOf_iff_suffix.mpr (List.suffix_append _ _)
    rw [quotedBody?, if_pos hsuffix]
    simp

theorem quotedBody?_of_head {text : List Char} (hhead : text.head? ≠ some '\'') : quotedBody? text = none := by
  cases hbody : quotedBody? text with
  | none => rfl
  | some body =>
    rw [quotedBody?_eq_some_iff.mp hbody] at hhead
    exact absurd rfl hhead

theorem hexBody?_eq_some_iff {text body : List Char} :
    hexBody? text = some body ↔ ∃ mark, (mark = 'x' ∨ mark = 'X') ∧ text = '0' :: mark :: body := by
  constructor
  · intro hbody
    unfold hexBody? at hbody
    split at hbody
    · cases hbody
      exact ⟨'x', .inl rfl, rfl⟩
    · cases hbody
      exact ⟨'X', .inr rfl, rfl⟩
    · cases hbody
  · rintro ⟨mark, rfl | rfl, rfl⟩
    · rfl
    · rfl

theorem octalBody?_eq_some_iff {text body : List Char} :
    octalBody? text = some body ↔ text = '0' :: body ∧ body ≠ [] := by
  constructor
  · intro hbody
    unfold octalBody? at hbody
    split at hbody
    · cases hbody
      exact ⟨rfl, List.cons_ne_nil _ _⟩
    · cases hbody
  · rintro ⟨rfl, hbody⟩
    obtain ⟨c, rest, rfl⟩ := List.exists_cons_of_ne_nil hbody
    rfl

theorem hexBody?_of_head {text : List Char} (hhead : text.head? ≠ some '0') : hexBody? text = none := by
  cases hbody : hexBody? text with
  | none => rfl
  | some body =>
    obtain ⟨mark, -, rfl⟩ := hexBody?_eq_some_iff.mp hbody
    exact absurd rfl hhead

theorem octalBody?_of_head {text : List Char} (hhead : text.head? ≠ some '0') : octalBody? text = none := by
  cases hbody : octalBody? text with
  | none => rfl
  | some body =>
    obtain ⟨rfl, -⟩ := octalBody?_eq_some_iff.mp hbody
    exact absurd rfl hhead

/-! ### Notation and magnitude -/

/-- What the decoder makes of the text behind the sign. -/
def numeral? (text : List Char) : Option (Radix × Nat) :=
  match quotedBody? text, hexBody? text, octalBody? text with
  | some body, _, _ => if body.isEmpty then none else some (.quoted, positional 256 (utf8Bytes body))
  | none, some body, _ => (wholeNumber? 16 body).map (.hexadecimal, ·)
  | none, none, some body => (wholeNumber? 8 body).map (.octal, ·)
  | none, none, none => (wholeNumber? 10 text).map (.decimal, ·)

/-- A first digit is no sign, no quote and no mark of a base. -/
theorem Writes.head {base : Nat} {text : List Char} {number : Nat} (hnumber : Writes base text number) {c : Char}
    (hhead : text.head? = some c) : c ≠ '-' ∧ c ≠ '\'' ∧ c ≠ 'x' ∧ c ≠ 'X' := by
  obtain ⟨values, hvalues, -⟩ := hnumber
  cases hvalues with
  | nil => cases hhead
  | cons hdigit hrest =>
    cases hhead
    refine ⟨?_, ?_, ?_, ?_⟩ <;>
    · rintro rfl
      simp [digit?] at hdigit

theorem Numeral.head_ne_minus {text : List Char} {radix : Radix} {magnitude : Nat}
    (hnumeral : Numeral text radix magnitude) : text.head? ≠ some '-' := by
  cases hnumeral with
  | quoted hbody => simp
  | hexadecimal hmark hdigits hnumber => simp
  | octal hdigits hnumber => simp
  | zero => simp
  | decimal hdigits hhead hnumber => exact fun hminus => (hnumber.head hminus).1 rfl

theorem numeral?_of_numeral {text : List Char} {radix : Radix} {magnitude : Nat}
    (hnumeral : Numeral text radix magnitude) : numeral? text = some (radix, magnitude) := by
  cases hnumeral with
  | quoted hbody =>
    rw [numeral?, quotedBody?_eq_some_iff.mpr rfl]
    dsimp only
    rw [if_neg (by simpa using hbody), positional_eq]
  | @hexadecimal mark digits _ hmark hdigits hnumber =>
    rw [numeral?, quotedBody?_of_head (by simp),
      hexBody?_eq_some_iff.mpr ⟨mark, hmark, rfl⟩]
    dsimp only
    rw [wholeNumber?_eq_some_iff.mpr ⟨hdigits, hnumber⟩]
    rfl
  | @octal digits _ hdigits hnumber =>
    have hhex : hexBody? ('0' :: digits) = none := by
      cases hbody : hexBody? ('0' :: digits) with
      | none => rfl
      | some body =>
        obtain ⟨mark, hmark, heq⟩ := hexBody?_eq_some_iff.mp hbody
        have hhead : digits.head? = some mark := by rw [(List.cons.inj heq).2]; rfl
        obtain ⟨-, -, hx, hX⟩ := hnumber.head hhead
        exact (hmark.elim hx hX).elim
    rw [numeral?, quotedBody?_of_head (by simp), hhex,
      octalBody?_eq_some_iff.mpr ⟨rfl, hdigits⟩]
    dsimp only
    rw [wholeNumber?_eq_some_iff.mpr ⟨hdigits, hnumber⟩]
    rfl
  | zero => rfl
  | decimal hdigits hhead hnumber =>
    have hquote : text.head? ≠ some '\'' := fun hquote => (hnumber.head hquote).2.1 rfl
    rw [numeral?, quotedBody?_of_head hquote, hexBody?_of_head hhead, octalBody?_of_head hhead]
    dsimp only
    rw [wholeNumber?_eq_some_iff.mpr ⟨hdigits, hnumber⟩]
    rfl

theorem numeral_of_numeral? {text : List Char} {radix : Radix} {magnitude : Nat}
    (hnumeral : numeral? text = some (radix, magnitude)) : Numeral text radix magnitude := by
  rw [numeral?] at hnumeral
  cases hquoted : quotedBody? text with
  | some body =>
    rw [hquoted] at hnumeral
    dsimp only at hnumeral
    split at hnumeral
    · cases hnumeral
    · next hbody =>
      cases hnumeral
      rw [quotedBody?_eq_some_iff.mp hquoted, positional_eq]
      exact .quoted (by simpa using hbody)
  | none =>
    cases hhex : hexBody? text with
    | some body =>
      rw [hquoted, hhex] at hnumeral
      obtain ⟨number, hnumber, heq⟩ := Option.map_eq_some_iff.mp hnumeral
      cases heq
      obtain ⟨mark, hmark, rfl⟩ := hexBody?_eq_some_iff.mp hhex
      obtain ⟨hdigits, hwrites⟩ := wholeNumber?_eq_some_iff.mp hnumber
      exact .hexadecimal hmark hdigits hwrites
    | none =>
      cases hoctal : octalBody? text with
      | some body =>
        rw [hquoted, hhex, hoctal] at hnumeral
        obtain ⟨number, hnumber, heq⟩ := Option.map_eq_some_iff.mp hnumeral
        cases heq
        obtain ⟨rfl, -⟩ := octalBody?_eq_some_iff.mp hoctal
        obtain ⟨hdigits, hwrites⟩ := wholeNumber?_eq_some_iff.mp hnumber
        exact .octal hdigits hwrites
      | none =>
        rw [hquoted, hhex, hoctal] at hnumeral
        obtain ⟨number, hnumber, heq⟩ := Option.map_eq_some_iff.mp hnumeral
        cases heq
        obtain ⟨hdigits, hwrites⟩ := wholeNumber?_eq_some_iff.mp hnumber
        by_cases hhead : text.head? = some '0'
        · -- A zero that begins no octal literal stands alone.
          obtain ⟨rest, rfl⟩ := List.head?_eq_some_iff.mp hhead
          have hrest : rest = [] := by
            by_contra hmore
            rw [octalBody?_eq_some_iff.mpr ⟨rfl, hmore⟩] at hoctal
            cases hoctal
          subst hrest
          cases hnumber
          exact .zero
        · exact .decimal hdigits hhead hwrites

theorem numeral?_eq_some_iff {text : List Char} {radix : Radix} {magnitude : Nat} :
    numeral? text = some (radix, magnitude) ↔ Numeral text radix magnitude :=
  ⟨numeral_of_numeral?, numeral?_of_numeral⟩

/-! ### The decoder -/

theorem eq_splitMinus (text : List Char) :
    text = (if (splitMinus text).1 then ['-'] else []) ++ (splitMinus text).2 := by
  unfold splitMinus
  split
  · rfl
  · rfl

theorem splitMinus_of_head {text : List Char} (hhead : text.head? ≠ some '-') : splitMinus text = (false, text) := by
  unfold splitMinus
  split
  · exact absurd rfl hhead
  · rfl

theorem stands_iff {text : String} {radix : Radix} {number : Int} :
    Stands text radix number ↔ ∃ magnitude, numeral? (splitMinus text.toList).2 = some (radix, magnitude) ∧
      number = signed (splitMinus text.toList).1 magnitude := by
  constructor
  · rintro ⟨negative, numeral, magnitude, htext, hnumeral, rfl⟩
    have hsplit : splitMinus text.toList = (negative, numeral) := by
      rw [htext]
      cases negative with
      | true => rfl
      | false => exact splitMinus_of_head hnumeral.head_ne_minus
    rw [hsplit]
    exact ⟨magnitude, numeral?_eq_some_iff.mpr hnumeral, rfl⟩
  · rintro ⟨magnitude, hnumeral, rfl⟩
    exact ⟨_, _, magnitude, eq_splitMinus text.toList, numeral?_eq_some_iff.mp hnumeral, rfl⟩

/-- The word for a number in some notation: decimals must fit, the others are taken modulo 2 ^ 64. -/
def toWord (text : String) (radix : Radix) (number : Int) : Except LiteralError IntegerValue :=
  if radix = .decimal ∧ ¬(-2 ^ 63 ≤ number ∧ number < 2 ^ 63) then .error (.integerOverflow text)
  else .ok ⟨Int64.ofInt number, radix⟩

theorem fits_iff (number : Int) :
    (Int64.minValue.toInt ≤ number ∧ number ≤ Int64.maxValue.toInt) ↔ -2 ^ 63 ≤ number ∧ number < 2 ^ 63 := by
  have hmin : Int64.minValue.toInt = -9223372036854775808 := by decide
  have hmax : Int64.maxValue.toInt = 9223372036854775807 := by decide
  rw [hmin, hmax]
  omega

theorem decodeInteger_eq (text : String) :
    decodeInteger text = (numeral? (splitMinus text.toList).2).elim (.error (.malformed .integer)) fun found =>
      toWord text found.1 (signed (splitMinus text.toList).1 found.2) := by
  rw [decodeInteger]
  split
  next negative digits hsign =>
  rw [show splitMinus text.toList = (negative, digits) from hsign, numeral?]
  dsimp only
  cases quotedBody? digits with
  | some body =>
    dsimp only
    cases body.isEmpty with
    | true => rfl
    | false => rfl
  | none =>
    cases hexBody? digits with
    | some body =>
      dsimp only
      cases wholeNumber? 16 body with
      | none => rfl
      | some magnitude => rfl
    | none =>
      cases octalBody? digits with
      | some body =>
        dsimp only
        cases wholeNumber? 8 body with
        | none => rfl
        | some magnitude => rfl
      | none =>
        dsimp only
        cases wholeNumber? 10 digits with
        | none => rfl
        | some magnitude =>
          rw [Option.map_some, Option.elim_some, toWord]
          by_cases hfits : -2 ^ 63 ≤ signed negative magnitude ∧ signed negative magnitude < 2 ^ 63
          · rw [if_neg fun hnot => hnot.2 hfits]
            exact if_pos ((fits_iff _).mpr hfits)
          · rw [if_pos ⟨rfl, hfits⟩]
            exact if_neg fun hrange => hfits ((fits_iff _).mp hrange)

theorem decodeInteger_of_stands {text : String} {radix : Radix} {number : Int} (hstands : Stands text radix number) :
    decodeInteger text = toWord text radix number := by
  obtain ⟨magnitude, hnumeral, rfl⟩ := stands_iff.mp hstands
  rw [decodeInteger_eq, hnumeral, Option.elim_some]

theorem decodeInteger_cases (text : String) :
    (∃ radix number, Stands text radix number ∧ decodeInteger text = toWord text radix number) ∨
      (∀ radix number, ¬Stands text radix number) ∧ decodeInteger text = .error (.malformed .integer) := by
  by_cases hstands : ∃ radix number, Stands text radix number
  · obtain ⟨radix, number, hnumber⟩ := hstands
    exact .inl ⟨radix, number, hnumber, decodeInteger_of_stands hnumber⟩
  · have hnone : ∀ radix number, ¬Stands text radix number :=
      fun radix number hnumber => hstands ⟨radix, number, hnumber⟩
    refine .inr ⟨hnone, ?_⟩
    cases hnumeral : numeral? (splitMinus text.toList).2 with
    | none => rw [decodeInteger_eq, hnumeral, Option.elim_none]
    | some found => exact absurd (stands_iff.mpr ⟨found.2, hnumeral, rfl⟩) (hnone found.1 _)

theorem ok_eq_ok_iff {word : Int64} {radix : Radix} {value : IntegerValue} :
    (.ok ⟨word, radix⟩ : Except LiteralError IntegerValue) = .ok value ↔
      value.radix = radix ∧ value.value.toInt = word.toInt := by
  obtain ⟨found, form⟩ := value
  rw [Except.ok.injEq, IntegerValue.mk.injEq, Int64.toInt_inj, and_comm, eq_comm (a := radix), eq_comm (a := word)]

theorem toWord_eq_ok_iff {text : String} {radix : Radix} {number : Int} {value : IntegerValue} :
    toWord text radix number = .ok value ↔ value.radix = radix ∧
      value.value.toInt = if radix = .decimal then number else number.bmod (2 ^ 64) := by
  rw [toWord]
  by_cases hdecimal : radix = .decimal
  · rw [if_pos hdecimal]
    by_cases hfits : -2 ^ 63 ≤ number ∧ number < 2 ^ 63
    · have hword : (Int64.ofInt number).toInt = number := Int64.toInt_ofInt_of_le hfits.1 hfits.2
      rw [if_neg fun hnot => hnot.2 hfits, ok_eq_ok_iff, hword]
    · rw [if_pos ⟨hdecimal, hfits⟩]
      constructor
      · intro hok
        cases hok
      · rintro ⟨-, hvalue⟩
        have hrange := (fits_iff value.value.toInt).mp ⟨value.value.minValue_le_toInt, value.value.toInt_le⟩
        exact absurd (hvalue ▸ hrange) hfits
  · rw [if_neg hdecimal, if_neg fun hboth => hdecimal hboth.1, ok_eq_ok_iff, Int64.toInt_ofInt]
    rfl

theorem toWord_eq_overflow_iff {text : String} {radix : Radix} {number : Int} :
    toWord text radix number = .error (.integerOverflow text) ↔
      radix = .decimal ∧ ¬(-2 ^ 63 ≤ number ∧ number < 2 ^ 63) := by
  rw [toWord]
  split
  · next hover => exact ⟨fun _ => hover, fun _ => rfl⟩
  · next hover =>
    constructor
    · intro hok
      cases hok
    · exact fun hnot => absurd hnot hover

/-- Folding words and building numbers give the same, and that is what the grammar says: a literal of the grammar has the
word for its number, unless that is a decimal out of range, and no other text is taken. -/
theorem decodeInteger_exact (text : String) :
    foldInteger text = decodeInteger text ∧
    (∀ value : IntegerValue, decodeInteger text = .ok value ↔
      ∃ number, Stands text value.radix number ∧
        value.value.toInt = if value.radix = .decimal then number else number.bmod (2 ^ 64)) ∧
    (decodeInteger text = .error (.integerOverflow text) ↔
      ∃ number, Stands text .decimal number ∧ ¬(-2 ^ 63 ≤ number ∧ number < 2 ^ 63)) ∧
    (decodeInteger text = .error (.malformed .integer) ↔ ∀ radix number, ¬Stands text radix number) := by
  have hcases := decodeInteger_cases text
  refine ⟨foldInteger_eq text, fun value => ⟨fun hok => ?_, ?_⟩, ⟨fun hover => ?_, ?_⟩, fun hmalformed => ?_,
    fun hnone => ?_⟩
  · obtain ⟨radix, number, hnumber, hword⟩ | ⟨-, herror⟩ := hcases
    · obtain ⟨rfl, hvalue⟩ := toWord_eq_ok_iff.mp (hword.symm.trans hok)
      exact ⟨number, hnumber, hvalue⟩
    · cases herror.symm.trans hok
  · rintro ⟨number, hnumber, hvalue⟩
    rw [decodeInteger_of_stands hnumber]
    exact toWord_eq_ok_iff.mpr ⟨rfl, hvalue⟩
  · obtain ⟨radix, number, hnumber, hword⟩ | ⟨-, herror⟩ := hcases
    · obtain ⟨rfl, hrange⟩ := toWord_eq_overflow_iff.mp (hword.symm.trans hover)
      exact ⟨number, hnumber, hrange⟩
    · cases herror.symm.trans hover
  · rintro ⟨number, hnumber, hrange⟩
    rw [decodeInteger_of_stands hnumber]
    exact toWord_eq_overflow_iff.mpr ⟨rfl, hrange⟩
  · obtain ⟨radix, number, -, hword⟩ | ⟨hnone, -⟩ := hcases
    · rw [hword, toWord] at hmalformed
      split at hmalformed
      · cases hmalformed
      · cases hmalformed
    · exact hnone
  · obtain ⟨radix, number, hnumber, -⟩ | ⟨-, herror⟩ := hcases
    · exact absurd hnumber (hnone radix number)
    · exact herror

example : decodeInteger "-0x8000000000000000" = .ok ⟨Int64.minValue, .hexadecimal⟩ := by decide

example : decodeInteger "'''é'''" = .ok ⟨50089, .quoted⟩ := by decide

end Squirrel.Literal
