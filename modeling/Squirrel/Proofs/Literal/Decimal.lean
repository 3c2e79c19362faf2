import Squirrel.Literal.Integer

/-!
# Decimal numerals

The usual decimal digits of a number, with a minus sign in front of those of a negative one, are read as that number. This
is what the decoder of literals does with the whole text; it takes all integers of 64 bits, also the least one.
-/

namespace Squirrel.Literal

/-! ### Digits -/

theorem digit?_of_isDigit {c : Char} (hdigit : c.isDigit = true) : digit? 10 c = some (c.toNat - '0'.toNat) := by
  obtain ⟨hlow, hhigh⟩ := Char.isDigit_iff_toNat.mp hdigit
  have hbetween : '0' ≤ c ∧ c ≤ '9' := by
    simp only [Char.le_def, UInt32.le_iff_toNat_le]
    exact ⟨hlow, hhigh⟩
  rw [digit?, if_pos hbetween, Option.filter_some_pos]
  have hvalue : c.toNat - '0'.toNat ≤ '9'.toNat - '0'.toNat := Nat.sub_le_sub_right hhigh _
  exact decide_eq_true (Nat.lt_succ_of_le hvalue)

/-- Digits have the value that they get one by one, each weighing ten times less than the one before it. -/
theorem exists_digits? {text : List Char} (hdigits : ∀ c ∈ text, c.isDigit = true) (start : Nat) : ∃ values,
    digits? 10 text = some values ∧ values.foldl (fun value d => value * 10 + d) start = Nat.ofDigitChars 10 text start := by
  induction text generalizing start with
  | nil => exact ⟨[], rfl, rfl⟩
  | cons c rest ih =>
    obtain ⟨hfirst, hrest⟩ := List.forall_mem_cons.mp hdigits
    obtain ⟨values, hvalues, hsum⟩ := ih hrest (10 * start + (c.toNat - '0'.toNat))
    rw [digits?] at hvalues
    refine ⟨(c.toNat - '0'.toNat) :: values, ?_, ?_⟩
    · rw [digits?, List.mapM_cons, digit?_of_isDigit hfirst, hvalues]
      rfl
    · rw [List.foldl_cons, Nat.ofDigitChars_cons, ← hsum, Nat.mul_comm start]

theorem isDigit_of_mem_toDigits (n : Nat) : ∀ c ∈ Nat.toDigits 10 n, c.isDigit = true :=
  fun _ => Nat.isDigit_of_mem_toDigits (by decide) (by decide)

theorem wholeNumber?_toDigits (n : Nat) : wholeNumber? 10 (Nat.toDigits 10 n) = some n := by
  obtain ⟨values, hvalues, hsum⟩ := exists_digits? (isDigit_of_mem_toDigits n) 0
  have hnonempty : (Nat.toDigits 10 n).isEmpty = false := List.isEmpty_eq_false_iff.mpr Nat.toDigits_ne_nil
  rw [wholeNumber?, hnonempty, hvalues]
  show some (positional 10 values) = some n
  rw [positional, hsum, Nat.ofDigitChars_toDigits (by decide) (by decide)]

/-- The digits of a number start with zero only if there is no other digit. -/
theorem head?_toDigits {n : Nat} (hpos : 0 < n) : ∃ c rest, Nat.toDigits 10 n = c :: rest ∧ c ≠ '0' := by
  induction n using Nat.strongRecOn with
  | ind n ih =>
    by_cases hsmall : n < 10
    · rw [Nat.toDigits_of_lt_base hsmall]
      exact ⟨_, [], rfl, fun hzero => by rw [Nat.digitChar_eq_zero] at hzero; omega⟩
    · obtain ⟨c, rest, hdigits, hc⟩ := ih (n / 10) (Nat.div_lt_self hpos (by decide)) (by omega)
      rw [Nat.toDigits_of_base_le (by decide) (by omega), hdigits]
      exact ⟨c, _, rfl, hc⟩

/-! ### Numerals -/

/-- The digits of a number are no literal of another notation. -/
theorem otherBodies_toDigits (n : Nat) : quotedBody? (Nat.toDigits 10 n) = none ∧ hexBody? (Nat.toDigits 10 n) = none ∧
    octalBody? (Nat.toDigits 10 n) = none := by
  have hdigits := isDigit_of_mem_toDigits n
  refine ⟨?_, ?_, ?_⟩
  · rw [quotedBody?.eq_def]
    split
    · next htext => exact nomatch hdigits '\'' (by rw [htext]; exact List.mem_cons_self)
    · rfl
  · rw [hexBody?.eq_def]
    split
    · next htext => exact nomatch hdigits 'x' (by rw [htext]; simp)
    · next htext => exact nomatch hdigits 'X' (by rw [htext]; simp)
    · rfl
  · rw [octalBody?.eq_def]
    split
    · next htext =>
      obtain rfl | hpos := Nat.eq_zero_or_pos n
      · exact nomatch htext
      · obtain ⟨c, rest, hdigits, hc⟩ := head?_toDigits hpos
        rw [hdigits] at htext
        exact absurd (List.cons.inj htext).1 hc
    · rfl

/-- A text of digits behind an optional minus sign has the value that its digits have with the sign, if that fits. -/
theorem decodeInteger_toDigits {text : String} {negative : Bool} {n : Nat}
    (htext : text.toList = (if negative then ['-'] else []) ++ Nat.toDigits 10 n) {value : Int}
    (hvalue : value = if negative then -(n : Int) else n)
    (hfits : Int64.minValue.toInt ≤ value ∧ value ≤ Int64.maxValue.toInt) :
    decodeInteger text = .ok ⟨Int64.ofInt value, .decimal⟩ := by
  obtain ⟨hquoted, hhex, hoctal⟩ := otherBodies_toDigits n
  rw [decodeInteger]
  split
  next isNegative digits hsign =>
    obtain ⟨rfl, rfl⟩ : isNegative = negative ∧ digits = Nat.toDigits 10 n := by
      cases negative with
      | true =>
        rw [htext] at hsign
        exact ⟨(Prod.mk.inj hsign).1.symm, (Prod.mk.inj hsign).2.symm⟩
      | false =>
        rw [if_neg Bool.false_ne_true, List.nil_append] at htext
        split at hsign
        · next hminus =>
          rw [htext] at hminus
          exact nomatch isDigit_of_mem_toDigits n '-' (by rw [hminus]; exact List.mem_cons_self)
        · exact ⟨(Prod.mk.inj hsign).1.symm, (Prod.mk.inj hsign).2.symm.trans htext⟩
    simp only [hquoted, hhex, hoctal, wholeNumber?_toDigits]
    rw [← hvalue, if_pos hfits]

/-- An integer is written as its digits, behind a minus sign if it is negative. -/
theorem toString_eq (value : Int64) :
    toString value = (if value.toInt < 0 then "-" else "") ++ value.toInt.natAbs.repr := by
  show value.toInt.repr = _
  cases value.toInt with
  | ofNat n =>
    have hnot : ¬Int.ofNat n < 0 := Int.not_lt.mpr (Int.natCast_nonneg n)
    rw [if_neg hnot, String.empty_append]
    rfl
  | negSucc n =>
    rw [if_pos (Int.negSucc_lt_zero n)]
    rfl

/-- The digits of an integer other than the least one fit without a sign, too. -/
theorem natAbs_le_of_ne {value : Int64} (hleast : value ≠ Int64.minValue) :
    (value.toInt.natAbs : Int) ≤ Int64.maxValue.toInt := by
  have hne : value.toInt ≠ Int64.minValue.toInt := fun heq => hleast (Int64.toInt_inj.mp heq)
  have hlow := Int64.minValue_le_toInt value
  have hhigh := Int64.toInt_le value
  have hmin : Int64.minValue.toInt = -9223372036854775808 := by decide
  have hmax : Int64.maxValue.toInt = 9223372036854775807 := by decide
  omega

/-- The decoder takes the decimal digits of every integer of 64 bits. -/
theorem decodeInteger_toString (value : Int64) : decodeInteger (toString value) = .ok ⟨value, .decimal⟩ := by
  have htext : (toString value).toList =
      (if decide (value.toInt < 0) then ['-'] else []) ++ Nat.toDigits 10 value.toInt.natAbs := by
    rw [toString_eq, String.toList_append, Nat.toList_repr]
    by_cases hnegative : value.toInt < 0 <;> simp [hnegative]
  have hvalue : value.toInt = if decide (value.toInt < 0) then -(value.toInt.natAbs : Int) else value.toInt.natAbs := by
    by_cases hnegative : value.toInt < 0
    · simp only [hnegative, decide_true, if_true]
      omega
    · simp only [hnegative, decide_false, Bool.false_eq_true, if_false]
      omega
  rw [decodeInteger_toDigits htext hvalue ⟨Int64.minValue_le_toInt value, Int64.toInt_le value⟩, Int64.ofInt_toInt]

end Squirrel.Literal
