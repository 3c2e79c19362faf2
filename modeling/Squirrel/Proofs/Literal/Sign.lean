import Squirrel.Literal.Integer
import Squirrel.Literal.Real

/-!
# Signs of numbers

A minus sign in front of the digits of a number never makes the number unreadable. The magnitudes of decimal integers are
below 2 ^ 63, and the range of 64 bits reaches one further on the negative side.
-/

namespace Squirrel.Literal

/-! ### Integers -/

theorem exists_decodeInteger_negative {text : String} {value : IntegerValue} (hhead : text.toList.head? ≠ some '-')
    (hdecode : decodeInteger text = .ok value) : ∃ negated, decodeInteger ("-" ++ text) = .ok negated := by
  have hminus : ("-" ++ text).toList = '-' :: text.toList := by simp
  have hplain : ∀ rest, text.toList ≠ '-' :: rest := by
    intro rest htext
    rw [htext] at hhead
    exact hhead rfl
  rw [decodeInteger] at hdecode ⊢
  rw [hminus]
  split at hdecode
  next negative digits hsplit =>
  have hdigits : negative = false ∧ digits = text.toList := by
    split at hsplit
    · next rest htext => exact absurd htext (hplain rest)
    · simpa [eq_comm] using hsplit
  obtain ⟨rfl, rfl⟩ := hdigits
  simp only at hdecode ⊢
  cases hquoted : quotedBody? text.toList with
  | some body =>
    simp only [hquoted] at hdecode ⊢
    cases hempty : body.isEmpty with
    | true => simp [hempty] at hdecode
    | false => simp
  | none =>
    simp only [hquoted] at hdecode ⊢
    cases hhex : hexBody? text.toList with
    | some body =>
      simp only [hhex] at hdecode ⊢
      cases hwhole : wholeNumber? 16 body with
      | none => simp [hwhole] at hdecode
      | some magnitude => simp
    | none =>
      simp only [hhex] at hdecode ⊢
      cases hoctal : octalBody? text.toList with
      | some body =>
        simp only [hoctal] at hdecode ⊢
        cases hwhole : wholeNumber? 8 body with
        | none => simp [hwhole] at hdecode
        | some magnitude => simp
      | none =>
        simp only [hoctal] at hdecode ⊢
        cases hwhole : wholeNumber? 10 text.toList with
        | none => simp [hwhole] at hdecode
        | some magnitude =>
          have hmin : Int64.minValue.toInt = -9223372036854775808 := by decide
          have hmax : Int64.maxValue.toInt = 9223372036854775807 := by decide
          simp only [hwhole, Bool.false_eq_true, if_false, hmin, hmax] at hdecode ⊢
          have hrange : (magnitude : Int) ≤ 9223372036854775807 := by
            refine Decidable.byContradiction fun hover => ?_
            rw [if_neg fun hboth => hover hboth.2] at hdecode
            exact nomatch hdecode
          rw [if_pos (by simp only [if_true]; omega)]
          exact ⟨_, rfl⟩

/-! ### Floats -/

theorem splitSign_of_head {text : List Char} (hminus : text.head? ≠ some '-') (hplus : text.head? ≠ some '+') :
    splitSign text = (false, text) := by
  unfold splitSign
  split
  · exact absurd rfl hminus
  · exact absurd rfl hplus
  · rfl

/-- A sign in front is no mark of an exponent. -/
theorem fillFraction_minus (text : List Char) : fillFraction ('-' :: text) = '-' :: fillFraction text := by
  rw [fillFraction, fillFraction]
  simp only [List.takeWhile_cons, List.dropWhile_cons]
  cases hbefore : text.takeWhile (fun c => !(c == 'e' || c == 'E')) with
  | nil => simp
  | cons first rest =>
    simp
    split
    · rfl
    · rfl

theorem head?_fillFraction {text : List Char} {c : Char} (hhead : text.head? = some c) :
    (fillFraction text).head? = some c := by
  rw [fillFraction]
  split
  · next hfill =>
    cases hbefore : text.takeWhile (fun c => !(c == 'e' || c == 'E')) with
    | nil =>
      rw [hbefore] at hfill
      simp at hfill
    | cons first rest =>
      have htext : text = first :: (rest ++ text.dropWhile (fun c => !(c == 'e' || c == 'E'))) := by
        rw [← List.cons_append, ← hbefore, List.takeWhile_append_dropWhile]
      rw [htext] at hhead
      simpa using hhead
  · exact hhead

theorem exists_decodeFloat_negative {text : String} {value : Float} {c : Char} (hhead : text.toList.head? = some c)
    (hminus : c ≠ '-') (hplus : c ≠ '+') (hdecode : decodeFloat text = .ok value) :
    ∃ negated, decodeFloat ("-" ++ text) = .ok negated := by
  have hsplit : splitSign (fillFraction text.toList) = (false, fillFraction text.toList) := by
    refine splitSign_of_head ?_ ?_
    · rw [head?_fillFraction hhead]
      simpa using hminus
    · rw [head?_fillFraction hhead]
      simpa using hplus
  have hnegative : splitSign (fillFraction ("-" ++ text).toList) = (true, fillFraction text.toList) := by
    rw [show ("-" ++ text).toList = '-' :: text.toList by simp, fillFraction_minus]
    rfl
  rw [decodeFloat, hsplit] at hdecode
  rw [decodeFloat, hnegative]
  cases hdecimal : decimal? (fillFraction text.toList) with
  | none => simp [hdecimal] at hdecode
  | some decimal =>
    simp only [hdecimal]
    cases decimal with
    | finite digits exponent => exact ⟨_, rfl⟩
    | infinite => exact ⟨_, rfl⟩
    | undefined => exact ⟨_, rfl⟩

end Squirrel.Literal
