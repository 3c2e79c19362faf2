import Squirrel.Proofs.Grammar.Single
import Squirrel.Proofs.Literal.Decimal
import Squirrel.Proofs.Parse.Evaluation
import Squirrel.Proofs.Render.Literal
import Squirrel.Proofs.Render.RoundTrip

/-!
# Decimal numerals as scripts

The sign and the digits of a numeral are two tokens. The digits are checked when the source is cut into tokens, before
anything is known of a sign, so that they have to be in range by themselves; the parser then takes the sign in, and the
value is read off both. Only the least integer of 64 bits is in range with its sign and not without it.
-/

namespace Squirrel

namespace Lexeme

open Pattern

theorem isDecimal_of_isDigit {c : Char} (hdigit : c.isDigit = true) : isDecimal c = true := by
  obtain ⟨hlow, hhigh⟩ := Char.isDigit_iff_toNat.mp hdigit
  simp only [isDecimal, inRange, Bool.and_eq_true, decide_eq_true_eq, Char.le_def, UInt32.le_iff_toNat_le]
  exact ⟨hlow, hhigh⟩

theorem inRange_of_isDigit {c : Char} (hdigit : c.isDigit = true) (hne : c ≠ '0') : inRange '1' '9' c = true := by
  obtain ⟨hlow, hhigh⟩ := Char.isDigit_iff_toNat.mp hdigit
  have hpos : c.toNat ≠ '0'.toNat := fun heq => hne (Char.toNat_inj.mp heq)
  simp only [inRange, Bool.and_eq_true, decide_eq_true_eq, Char.le_def, UInt32.le_iff_toNat_le]
  exact ⟨Nat.lt_of_le_of_ne hlow hpos.symm, hhigh⟩

/-- The digits of a number are an integer literal. -/
theorem firstMatch_toDigits (n : Nat) : FirstMatch patterns (Nat.toDigits 10 n) .integerLit := by
  have hdigits := Literal.isDigit_of_mem_toDigits n
  obtain ⟨pattern, hmem, hmatches⟩ : ∃ pattern, (Kind.integerLit, pattern) ∈ patterns ∧ Matches pattern (Nat.toDigits 10 n) := by
    obtain rfl | hpos := Nat.eq_zero_or_pos n
    · exact ⟨one (· == '0'), by simp [patterns], .one rfl⟩
    · obtain ⟨c, rest, htext, hc⟩ := Literal.head?_toDigits hpos
      rw [htext] at hdigits ⊢
      obtain ⟨hfirst, hrest⟩ := List.forall_mem_cons.mp hdigits
      refine ⟨seq (one (inRange '1' '9')) (many (one isDecimal)), by simp [patterns], ?_⟩
      exact .seq (.one (inRange_of_isDigit hfirst hc)) (matches_many_one fun d hd => isDecimal_of_isDigit (hrest d hd))
  obtain ⟨kind, hfirst⟩ := exists_firstMatch hmem hmatches
  obtain ⟨c, rest, htext⟩ := List.exists_cons_of_ne_nil (@Nat.toDigits_ne_nil n 10)
  rw [htext] at hfirst hdigits ⊢
  obtain rfl | rfl := isNumber_of_firstMatch (isDecimal_of_isDigit (hdigits c List.mem_cons_self)) hfirst
  · exact hfirst
  · obtain ⟨whole, fraction, hpoint, -, -⟩ := exists_fraction_of_firstMatch hfirst
    exact absurd (hdigits '.' (by rw [hpoint]; simp)) (by decide)

end Lexeme

namespace Leaf

/-- The token of a number in decimal. -/
def decimal (n : Nat) : Leaf := ⟨.integerLit, n.repr⟩

/-- A number that fits stays a literal wherever an expression may stand. -/
theorem genuine_decimal {n : Nat} (hfits : (n : Int) ≤ Int64.maxValue.toInt) : (decimal n).Genuine := by
  have hsound : Lexeme.literalError? .integerLit n.repr = none := by
    have hnegative : Int64.minValue.toInt ≤ (n : Int) := Int.le_trans (by decide) (Int.natCast_nonneg n)
    have hdecode := @Literal.decodeInteger_toDigits n.repr false n Nat.toList_repr n rfl ⟨hnegative, hfits⟩
    simp only [Lexeme.literalError?, hdecode]
  have hlongest : Pattern.Longest Lexeme.patterns (Nat.toDigits 10 n ++ []) .integerLit (Nat.toDigits 10 n).length :=
    Lexeme.longest_append (Lexeme.firstMatch_toDigits n) nofun
  have hholds := Lexeme.holdsLiteral_number (.inl rfl) hlongest
  rw [List.append_nil] at hholds
  obtain ⟨-, hbegins, hfirst⟩ := hholds
  rw [List.take_length] at hbegins hfirst
  have htext : (decimal n).text.toList = Nat.toDigits 10 n := Nat.toList_repr
  refine ⟨nofun, nofun, fun _ _ => ⟨htext ▸ hbegins, fun after hafter => ⟨?_, ?_, hsound⟩⟩⟩
  · rw [htext]
    exact Nat.toDigits_ne_nil
  · rw [Leaf.isWhole, htext] at hafter
    rw [htext]
    exact hfirst after hafter

/-- A number other than zero can take in a minus sign. -/
theorem isFoldable_decimal {n : Nat} (hpos : 0 < n) (start : Nat) :
    State.isFoldable ⟨.integerLit, start, n.repr⟩ = true := by
  obtain ⟨c, rest, htext, hc⟩ := Literal.head?_toDigits hpos
  have hdigit := Literal.isDigit_of_mem_toDigits n c (by rw [htext]; exact List.mem_cons_self)
  rw [State.isFoldable]
  simp only [Nat.toList_repr, htext]
  exact Lexeme.inRange_of_isDigit hdigit hc

end Leaf

/-- A source that is written as the leaves of an expression has these as its tokens, and nothing is wrong with them. -/
theorem Lexed.ofSource_of_written {source : String} {leaves : List Leaf} {dotted : Prop}
    (hwritten : Leaf.Written leaves source.toList dotted) :
    (ofSource source).tokens.map Token.leaf = leaves ∧ (ofSource source).diagnostics = [] := by
  have hapart := hwritten.apart [] nofun
  have hchars := hwritten.chars.symm
  refine ⟨leaf_tokens hchars hapart, diagnostics_eq_nil fun word hmem => ?_⟩
  rw [Word.ofSource, Word.ofSource_eq_ofLeaves hchars hapart] at hmem
  exact hapart.isRejected_eq_false _ (Word.leaf_mem_of_mem_ofLeaves hmem)

theorem Limits.Allow.fewer {limits : Limits} {steps more : Nat} {depth? : Option Nat}
    (hallow : limits.Allow ⟨some more, depth?⟩) (hle : steps ≤ more) : limits.Allow ⟨some steps, depth?⟩ := by
  refine ⟨?_, hallow.depth⟩
  have hsteps := hallow.steps
  cases hlimit : limits.steps? with
  | none => trivial
  | some limit =>
    rw [hlimit] at hsteps
    exact Nat.le_trans hle hsteps

namespace Script

variable {limits : Limits} {n : Nat}

/-- The digits of a number that fits are one token. -/
theorem exists_parse_digits (hfits : (n : Int) ≤ Int64.maxValue.toInt) (hallow : limits.Allow ⟨some 1, some 2⟩) :
    ∃ script, parse n.repr limits = .ok script ∧ script.diagnostics = [] ∧
      script.root = .node .script [.node .expressionStatement [.node .integer [.token (Leaf.decimal n)]]] := by
  have hwritten := Leaf.Written.literal (Leaf.genuine_decimal hfits) rfl
  obtain ⟨htokens, hclean⟩ := Lexed.ofSource_of_written hwritten
  obtain ⟨⟨kind, start, text⟩, htokens, hleaf⟩ := List.map_eq_singleton_iff.mp htokens
  obtain ⟨rfl, rfl⟩ := Leaf.mk.inj hleaf
  exact exists_parse_of_isOperand htokens hclean (Grammar.isOperand_integer start n.repr) (.inl rfl) hallow

/-- With a sign in front there is one token more in the same node. -/
theorem exists_parse_negative (hpos : 0 < n) (hfits : (n : Int) ≤ Int64.maxValue.toInt)
    (hallow : limits.Allow ⟨some 2, some 2⟩) :
    ∃ script, parse ("-" ++ n.repr) limits = .ok script ∧ script.diagnostics = [] ∧
      script.root = .node .script [.node .expressionStatement
        [.node .integer [.token (Leaf.sign .minus), .token (Leaf.decimal n)]]] := by
  have hwritten := Leaf.Written.negative (Leaf.genuine_decimal hfits) (Leaf.isFoldable_decimal hpos 0) rfl
  rw [← String.toList_append] at hwritten
  obtain ⟨htokens, hclean⟩ := Lexed.ofSource_of_written hwritten
  obtain ⟨⟨kind, start, text⟩, others, htokens, hleaf, hothers⟩ := List.map_eq_cons_iff.mp htokens
  obtain ⟨⟨second, stop, digits⟩, rfl, hnumber⟩ := List.map_eq_singleton_iff.mp hothers
  obtain ⟨rfl, rfl⟩ := Leaf.mk.inj hleaf
  obtain ⟨rfl, rfl⟩ := Leaf.mk.inj hnumber
  exact exists_parse_of_isOperand htokens hclean (Grammar.isOperand_negative (Leaf.isFoldable_decimal hpos stop)) (.inr rfl)
    hallow

/-- The source is one expression statement of one integer, whose value is written in decimal. -/
def IsNumeral (script : Script) (value : Int64) : Prop :=
  ∃ expression, script.root = .node .script [.node .expressionStatement [expression]] ∧ expression.kind = .integer ∧
    expression.asExpression? = some (.integer (some ⟨value, .decimal⟩) (decide (value < 0)))

theorem isNumeral_of_text {script : Script} {value : Int64} {leaves : List Leaf}
    (hroot : script.root = .node .script [.node .expressionStatement [.node .integer (leaves.map Tree.token)]])
    (htext : (Tree.node .integer (leaves.map Tree.token)).text = toString value)
    (hsign : (Tree.node .integer (leaves.map Tree.token)).hasToken .minus = decide (value < 0)) : script.IsNumeral value := by
  refine ⟨_, hroot, rfl, ?_⟩
  have hdecode := Literal.decodeInteger_toString value
  rw [← htext] at hdecode
  show some (Expression.integer (Literal.decodeInteger _).toOption _) = _
  rw [hdecode, hsign]
  rfl

/-- The digits of the least integer do not fit without their sign. -/
theorem diagnostics_minValue : (Lexed.ofSource (toString Int64.minValue)).diagnostics ≠ [] := by
  rw [← Lexed.computed_eq]
  decide

/-- Every integer of 64 bits but the least one can be written in decimal: its digits, behind a minus sign if it is
negative, parse without a diagnostic to one statement of one literal with its value. -/
theorem parse_toString_iff (value : Int64) (hallow : limits.Allow ⟨some 2, some 2⟩) :
    (∃ script, parse (toString value) limits = .ok script ∧ script.diagnostics = [] ∧ script.IsNumeral value) ↔
      value ≠ Int64.minValue := by
  constructor
  · rintro ⟨script, hparse, hclean, -⟩ rfl
    obtain ⟨parsed, hparsed, rfl⟩ := parse_ok hparse
    exact diagnostics_minValue (exists_run_of_parseTokens hparsed hclean).1
  · intro hleast
    have hfits := Literal.natAbs_le_of_ne hleast
    rw [Literal.toString_eq]
    by_cases hnegative : value.toInt < 0
    · rw [if_pos hnegative]
      obtain ⟨script, hparse, hclean, hroot⟩ := exists_parse_negative (by omega) hfits hallow
      refine ⟨script, hparse, hclean, @isNumeral_of_text script value [_, _] hroot ?_ ?_⟩
      · rw [Tree.text, Tree.leaves_node_tokens, Literal.toString_eq, if_pos hnegative]
        simp [Leaf.decimal, Leaf.sign, Kind.spelling?]
      · exact (decide_eq_true (Int64.lt_iff_toInt_lt.mpr hnegative)).symm
    · have hfewer : limits.Allow ⟨some 1, some 2⟩ := hallow.fewer (by decide)
      rw [if_neg hnegative, String.empty_append]
      obtain ⟨script, hparse, hclean, hroot⟩ := exists_parse_digits hfits hfewer
      refine ⟨script, hparse, hclean, @isNumeral_of_text script value [_] hroot ?_ ?_⟩
      · rw [Tree.text, Tree.leaves_node_tokens, Literal.toString_eq, if_neg hnegative]
        simp [Leaf.decimal]
      · exact (decide_eq_false fun hless => hnegative (Int64.lt_iff_toInt_lt.mp hless)).symm

/-- The greatest integer with a sign in front is the least one that can be written, also under the limits of a script. -/
theorem parse_toString_neg_maxValue :
    Limits.standard.Allow ⟨some 2, some 2⟩ ∧ toString (-Int64.maxValue) = "-9223372036854775807" ∧
      ∃ script, parse (toString (-Int64.maxValue)) .standard = .ok script ∧ script.diagnostics = [] ∧
        script.IsNumeral (-Int64.maxValue) := by
  have hallow : Limits.standard.Allow ⟨some 2, some 2⟩ :=
    ⟨show 2 ≤ 1000000 by decide, show 2 ≤ 256 by decide⟩
  exact ⟨hallow, by decide, (parse_toString_iff (-Int64.maxValue) hallow).mpr (by decide)⟩

end Script

end Squirrel
