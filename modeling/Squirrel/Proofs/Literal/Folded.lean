import Mathlib.Algebra.GroupWithZero.Nat
import Squirrel.Literal.Integer

/-!
# Integers folded in machine words

A decoder need not build the number that a long literal stands for. It folds the digits in a word of 64 bits: each step
multiplies and adds, or shifts and joins, and what is lost at the top is a multiple of 2 ^ 64. Only decimals are folded in
a wider word, of 128 bits, in which an overflow is seen. Folding gives what the decoder gives.
-/

namespace Squirrel.Literal

/-! ### Words of 64 bits -/

/-- Digits folded in 64 bits, up to the first character that is none. -/
def foldDigits? (base : Nat) (text : List Char) : Option Int64 :=
  if text.isEmpty then none
  else text.foldlM (fun value c => (digit? base c).map (value * Int64.ofNat base + Int64.ofNat ·)) 0

/-- Bytes shifted into 64 bits one after the other. -/
def foldBytes (bytes : List Nat) : Int64 := bytes.foldl (fun value byte => value <<< 8 ||| Int64.ofNat byte) 0

def applySign (negative : Bool) (value : Int64) : Int64 := if negative then -value else value

theorem foldlM_digits (base : Nat) (text : List Char) (start : Nat) :
    text.foldlM (fun value c => (digit? base c).map (value * Int64.ofNat base + Int64.ofNat ·)) (Int64.ofNat start)
      = (digits? base text).map fun values =>
          Int64.ofNat (values.foldl (fun value d => value * base + d) start) := by
  induction text generalizing start with
  | nil => rfl
  | cons c rest ih =>
    rw [List.foldlM_cons, digits?, List.mapM_cons]
    cases hdigit : digit? base c with
    | none => rfl
    | some d =>
      have hstep : Int64.ofNat start * Int64.ofNat base + Int64.ofNat d = Int64.ofNat (start * base + d) := by
        rw [Int64.ofNat_add, Int64.ofNat_mul]
      simp only [Option.map_some, Option.bind_eq_bind, Option.bind_some, hstep, ih, digits?]
      cases List.mapM (digit? base) rest <;> rfl

theorem foldDigits?_eq (base : Nat) (text : List Char) :
    foldDigits? base text = (wholeNumber? base text).map Int64.ofNat := by
  rw [foldDigits?, wholeNumber?]
  split
  · rfl
  · rw [show (0 : Int64) = Int64.ofNat 0 from rfl, foldlM_digits]
    cases digits? base text <;> rfl

/-- The byte that is joined takes the place that the shift has cleared. -/
theorem shift_or_ofNat (value : Nat) {byte : Nat} (hbyte : byte < 256) :
    Int64.ofNat value <<< 8 ||| Int64.ofNat byte = Int64.ofNat (value * 256 + byte) := by
  refine Int64.toBitVec_inj.mp (BitVec.eq_of_toNat_eq ?_)
  have hjoin : (value % 2 ^ 64) <<< 8 ||| byte = value % 2 ^ 64 * 256 + byte := by
    rw [← Nat.shiftLeft_add_eq_or_of_lt hbyte, Nat.shiftLeft_eq]
  calc ((Int64.ofNat value <<< 8 ||| Int64.ofNat byte).toBitVec).toNat
      = (value % 2 ^ 64) <<< 8 % 2 ^ 64 ||| byte % 2 ^ 64 := rfl
    _ = (value % 2 ^ 64 * 256 + byte) % 2 ^ 64 := by rw [← Nat.or_mod_two_pow, hjoin]
    _ = (value * 256 + byte) % 2 ^ 64 := by omega

theorem foldl_bytes {bytes : List Nat} (hbytes : ∀ byte ∈ bytes, byte < 256) (start : Nat) :
    bytes.foldl (fun (value : Int64) byte => value <<< 8 ||| Int64.ofNat byte) (Int64.ofNat start)
      = Int64.ofNat (bytes.foldl (fun value d => value * 256 + d) start) := by
  induction bytes generalizing start with
  | nil => rfl
  | cons byte rest ih =>
    obtain ⟨hfirst, hrest⟩ := List.forall_mem_cons.mp hbytes
    rw [List.foldl_cons, List.foldl_cons, shift_or_ofNat start hfirst, ih hrest]

theorem foldBytes_eq {bytes : List Nat} (hbytes : ∀ byte ∈ bytes, byte < 256) :
    foldBytes bytes = Int64.ofNat (positional 256 bytes) :=
  foldl_bytes hbytes 0

theorem lt_of_mem_utf8Bytes {text : List Char} : ∀ byte ∈ utf8Bytes text, byte < 256 := by
  intro byte hbyte
  obtain ⟨c, -, hc⟩ := List.mem_flatMap.mp hbyte
  obtain ⟨unsigned, -, rfl⟩ := List.mem_map.mp hc
  exact unsigned.toNat_lt

/-- The sign may be applied in 64 bits, also where the word is the least one and stays what it is. -/
theorem applySign_ofNat (negative : Bool) (magnitude : Nat) :
    applySign negative (Int64.ofNat magnitude) = wrapped negative magnitude := by
  rw [applySign, wrapped, ← Int64.ofInt_eq_ofNat]
  cases negative with
  | true => exact Int64.neg_ofInt
  | false => rfl

/-! ### Words that see an overflow -/

/-- Digits folded in a word that ends before the limit, up to the first step that overflows. -/
def foldBelow? (limit base : Nat) (text : List Char) : Option Nat :=
  text.foldlM (fun value c => (digit? base c).bind fun d =>
    if value * base + d < limit then some (value * base + d) else none) 0

/-- A sum of digits that has become too large stays too large. -/
theorem le_foldl_digits {base : Nat} (hbase : 0 < base) (values : List Nat) (start : Nat) :
    start ≤ values.foldl (fun value d => value * base + d) start := by
  induction values generalizing start with
  | nil => exact Nat.le_refl start
  | cons d rest ih =>
    calc start ≤ start * base := Nat.le_mul_of_pos_right start hbase
      _ ≤ start * base + d := Nat.le_add_right _ d
      _ ≤ rest.foldl (fun value d => value * base + d) (start * base + d) := ih _

variable {limit base : Nat} {text : List Char}

theorem foldlM_below (hbase : 0 < base) {values : List Nat} (hvalues : digits? base text = some values) {start : Nat}
    (hstart : start < limit) :
    text.foldlM (fun value c => (digit? base c).bind fun d =>
        if value * base + d < limit then some (value * base + d) else none) start
      = if values.foldl (fun value d => value * base + d) start < limit
        then some (values.foldl (fun value d => value * base + d) start) else none := by
  induction text generalizing start values with
  | nil =>
    cases hvalues
    exact (if_pos hstart).symm
  | cons c rest ih =>
    rw [digits?, List.mapM_cons, Option.bind_eq_bind, Option.bind_eq_some_iff] at hvalues
    obtain ⟨d, hdigit, hrest⟩ := hvalues
    rw [Option.bind_eq_bind, Option.bind_eq_some_iff] at hrest
    obtain ⟨others, hothers, heq⟩ := hrest
    cases heq
    rw [List.foldlM_cons, hdigit, Option.bind_some, List.foldl_cons]
    by_cases hfits : start * base + d < limit
    · rw [if_pos hfits]
      exact ih hothers hfits
    · have hlarge : ¬others.foldl (fun value d => value * base + d) (start * base + d) < limit :=
        Nat.not_lt.mpr (Nat.le_trans (Nat.not_lt.mp hfits) (le_foldl_digits hbase others _))
      rw [if_neg hfits, if_neg hlarge]
      rfl

theorem foldBelow?_eq (hlimit : 0 < limit) (hbase : 0 < base) {number : Nat}
    (hnumber : wholeNumber? base text = some number) :
    foldBelow? limit base text = if number < limit then some number else none := by
  rw [wholeNumber?] at hnumber
  split at hnumber
  · cases hnumber
  · obtain ⟨values, hvalues, rfl⟩ := Option.map_eq_some_iff.mp hnumber
    exact foldlM_below hbase hvalues hlimit

theorem isSome_digits? (base : Nat) (text : List Char) : (digits? base text).isSome = text.all (isDigit base) := by
  induction text with
  | nil => rfl
  | cons c rest ih =>
    rw [digits?, List.mapM_cons, List.all_cons, ← ih, digits?, isDigit]
    cases digit? base c with
    | none => rfl
    | some d => cases List.mapM (digit? base) rest <;> rfl

theorem isSome_wholeNumber? (base : Nat) (text : List Char) :
    (wholeNumber? base text).isSome = (!text.isEmpty && text.all (isDigit base)) := by
  rw [wholeNumber?, ← isSome_digits?]
  cases text.isEmpty with
  | true => rfl
  | false => cases digits? base text <;> rfl

/-! ### The decoder -/

def splitMinus : List Char → Bool × List Char
  | '-' :: rest => (true, rest)
  | all => (false, all)

/-- Decodes what follows the sign of an integer. Decimals are folded in 128 bits, the others in 64. -/
def foldUnsigned (text : String) (negative : Bool) (digits : List Char) : Except LiteralError IntegerValue :=
  let folded (base : Nat) (radix : Radix) (body : List Char) : Except LiteralError IntegerValue :=
    match foldDigits? base body with
    | some value => .ok ⟨applySign negative value, radix⟩
    | none => .error (.malformed .integer)
  match quotedBody? digits with
  | some body =>
    if body.isEmpty then .error (.malformed .integer)
    else .ok ⟨applySign negative (foldBytes (utf8Bytes body)), .quoted⟩
  | none =>
    match hexBody? digits with
    | some body => folded 16 .hexadecimal body
    | none =>
      match octalBody? digits with
      | some body => folded 8 .octal body
      | none =>
        if digits.isEmpty || !digits.all (isDigit 10) then .error (.malformed .integer)
        else
          match foldBelow? (2 ^ 127) 10 digits with
          | none => .error (.integerOverflow text)
          | some magnitude =>
            let signed : Int := if negative then -magnitude else magnitude
            if Int64.minValue.toInt ≤ signed ∧ signed ≤ Int64.maxValue.toInt then .ok ⟨Int64.ofInt signed, .decimal⟩
            else .error (.integerOverflow text)

def foldInteger (text : String) : Except LiteralError IntegerValue :=
  let (negative, digits) := splitMinus text.toList
  foldUnsigned text negative digits

/-- What overflows 128 bits is far out of the range of 64, with either sign. -/
theorem not_fits_of_wide {negative : Bool} {magnitude : Nat} (hwide : ¬magnitude < 2 ^ 127) :
    ¬(Int64.minValue.toInt ≤ (if negative then -magnitude else magnitude : Int) ∧
      (if negative then -magnitude else magnitude : Int) ≤ Int64.maxValue.toInt) := by
  have hmin : Int64.minValue.toInt = -9223372036854775808 := by decide
  have hmax : Int64.maxValue.toInt = 9223372036854775807 := by decide
  rw [hmin, hmax]
  cases negative <;> simp only [Bool.false_eq_true, if_true, if_false] <;> omega

theorem foldInteger_eq (text : String) : foldInteger text = decodeInteger text := by
  rw [decodeInteger]
  split
  next negative digits hsign =>
  have hfold : foldInteger text = foldUnsigned text negative digits := by
    rw [foldInteger, show splitMinus text.toList = (negative, digits) from hsign]
  rw [hfold, foldUnsigned]
  simp only [foldDigits?_eq, foldBytes_eq lt_of_mem_utf8Bytes, applySign_ofNat]
  cases quotedBody? digits with
  | some body => rfl
  | none =>
    cases hexBody? digits with
    | some body =>
      dsimp only
      cases wholeNumber? 16 body with
      | none => rfl
      | some magnitude => simp only [Option.map_some, applySign_ofNat]
    | none =>
      cases octalBody? digits with
      | some body =>
        dsimp only
        cases wholeNumber? 8 body with
        | none => rfl
        | some magnitude => simp only [Option.map_some, applySign_ofNat]
      | none =>
        have hdecimal := isSome_wholeNumber? 10 digits
        cases hnumber : wholeNumber? 10 digits with
        | none =>
          rw [hnumber] at hdecimal
          have hother : (digits.isEmpty || !digits.all (isDigit 10)) = true := by
            rw [← Bool.not_eq_false', Bool.not_or, Bool.not_not, ← hdecimal]
            rfl
          exact if_pos hother
        | some magnitude =>
          rw [hnumber] at hdecimal
          have hdigits : ¬(digits.isEmpty || !digits.all (isDigit 10)) = true := by
            rw [Bool.not_eq_true, ← Bool.not_eq_true', Bool.not_or, Bool.not_not, ← hdecimal]
            rfl
          have hbelow : foldBelow? (2 ^ 127) 10 digits = if magnitude < 2 ^ 127 then some magnitude else none :=
            foldBelow?_eq (by decide) (by decide) hnumber
          simp only [if_neg hdigits, hbelow]
          by_cases hwide : magnitude < 2 ^ 127
          · rw [if_pos hwide]
          · rw [if_neg hwide, if_neg (not_fits_of_wide hwide)]

end Squirrel.Literal
