import Squirrel.Grammar.Collection
import Squirrel.Proofs.Token.Adjacent

/-!
# Literals next to other tokens

Where a literal ends depends on what it is: a number ends where no number goes on, a string at the quote that closes it.
Neither depends on what follows, if that is something that may stand right behind an expression; but behind a whole number
a dot makes it a float if the text goes on as one.
-/

namespace Squirrel

/-! ### Numbers -/

namespace Lexeme

open Pattern

theorem matches_many_one {allowed : Char → Bool} {text : List Char} (hall : ∀ c ∈ text, allowed c = true) :
    Matches (many (one allowed)) text := by
  induction text with
  | nil => exact .done
  | cons c rest ih =>
    obtain ⟨hallowed, hrest⟩ := List.forall_mem_cons.mp hall
    exact .again (.one hallowed) (ih hrest)

theorem forall_of_matches_some_one {allowed : Char → Bool} {text : List Char}
    (hmatches : Matches (Pattern.some (one allowed)) text) : text ≠ [] ∧ ∀ c ∈ text, allowed c = true := by
  obtain ⟨start, rest, rfl, hone, hmany⟩ := matches_seq_iff.mp hmatches
  obtain ⟨c, rfl, hallowed⟩ := matches_one_iff.mp hone
  exact ⟨List.cons_ne_nil c rest, List.forall_mem_cons.mpr ⟨hallowed, forall_of_matches_many_one hmany⟩⟩

/-- The characters of integers. -/
def isIntegerPart (c : Char) : Bool := isDigit 16 c || c == 'x' || c == 'X'

theorem isIntegerPart_of_isDigit {base : Nat} {c : Char} (hdigit : isDigit base c = true) (hbase : base ≤ 16) :
    isIntegerPart c = true := by
  obtain ⟨value, hvalue⟩ := Option.isSome_iff_exists.mp hdigit
  obtain ⟨hsome, hlt⟩ := Option.filter_eq_some_iff.mp hvalue
  have hsixteen : digit? 16 c = some value := by
    rw [digit?, hsome, Option.filter_some_pos]
    exact decide_eq_true (Nat.lt_of_lt_of_le (of_decide_eq_true hlt) hbase)
  rw [isIntegerPart, isDigit, hsixteen]
  rfl

theorem isIntegerPart_of_isDecimal {c : Char} (hdecimal : isDecimal c = true) : isIntegerPart c = true := by
  have hall : ∀ n < 128, (!isDecimal (Char.ofNat n) || isIntegerPart (Char.ofNat n)) = true := by decide
  have hpart : isNamePart c = true := by rw [isNamePart, hdecimal, Bool.or_true]
  have hchar := hall c.toNat (toNat_lt_of_isNamePart hpart)
  rwa [Char.ofNat_toNat, hdecimal, Bool.not_true, Bool.false_or] at hchar

theorem isDecimal_of_inRange {c : Char} (hrange : inRange '1' '9' c = true) : isDecimal c = true := by
  simp only [isDecimal, inRange, Bool.and_eq_true, decide_eq_true_eq, Char.le_def, UInt32.le_iff_toNat_le] at hrange ⊢
  exact ⟨Nat.le_trans (by decide) hrange.1, hrange.2⟩

theorem isIntegerPart_of_matches {pattern : Pattern} {text : List Char} (hmem : pattern ∈ patternsOf .integerLit)
    (hmatches : Matches pattern text) :
    (∃ c rest, text = c :: rest ∧ isDecimal c = true) ∧ ∀ c ∈ text, isIntegerPart c = true := by
  have hpatterns : patternsOf .integerLit = [_, _, _, _] := rfl
  rw [hpatterns] at hmem
  simp only [List.mem_cons, List.not_mem_nil, or_false] at hmem
  rcases hmem with rfl | rfl | rfl | rfl
  · obtain ⟨c, rfl, hzero⟩ := matches_one_iff.mp hmatches
    obtain rfl := beq_iff_eq.mp hzero
    exact ⟨⟨'0', [], rfl, rfl⟩, List.forall_mem_singleton.mpr rfl⟩
  · obtain ⟨start, rest, rfl, hone, hmany⟩ := matches_seq_iff.mp hmatches
    obtain ⟨c, rfl, hc⟩ := matches_one_iff.mp hone
    have hrest := forall_of_matches_many_one hmany
    have hdecimal := isDecimal_of_inRange hc
    exact ⟨⟨c, rest, rfl, hdecimal⟩, List.forall_mem_cons.mpr ⟨isIntegerPart_of_isDecimal hdecimal,
      fun d hmem => isIntegerPart_of_isDecimal (hrest d hmem)⟩⟩
  · obtain ⟨zero, others, rfl, hzero, hothers⟩ := matches_seq_iff.mp hmatches
    obtain ⟨mark, digits, rfl, hmark, hdigits⟩ := matches_seq_iff.mp hothers
    obtain ⟨c, rfl, hc⟩ := matches_one_iff.mp hzero
    obtain ⟨d, rfl, hd⟩ := matches_one_iff.mp hmark
    obtain rfl := beq_iff_eq.mp hc
    have hrest := (forall_of_matches_some_one hdigits).2
    refine ⟨⟨'0', _, rfl, rfl⟩, List.forall_mem_cons.mpr ⟨rfl, List.forall_mem_cons.mpr ⟨?_, fun e hmem => ?_⟩⟩⟩
    · rw [isIntegerPart, Bool.or_assoc, hd, Bool.or_true]
    · exact isIntegerPart_of_isDigit (hrest e hmem) (Nat.le_refl 16)
  · obtain ⟨zero, digits, rfl, hzero, hdigits⟩ := matches_seq_iff.mp hmatches
    obtain ⟨c, rfl, hc⟩ := matches_one_iff.mp hzero
    obtain rfl := beq_iff_eq.mp hc
    have hrest := (forall_of_matches_some_one hdigits).2
    exact ⟨⟨'0', digits, rfl, rfl⟩, List.forall_mem_cons.mpr
      ⟨rfl, fun e hmem => isIntegerPart_of_isDigit (hrest e hmem) (by decide)⟩⟩

theorem isIntegerPart_of_firstMatch {text : List Char} (hfirst : FirstMatch patterns text .integerLit) :
    (∃ c rest, text = c :: rest ∧ isDecimal c = true) ∧ ∀ c ∈ text, isIntegerPart c = true := by
  obtain ⟨pattern, hmem, hmatches⟩ := mem_patternsOf hfirst
  exact isIntegerPart_of_matches hmem hmatches

/-- The text starts with an exponent: its mark, maybe a sign, and a digit. -/
def startsExponent (text : List Char) : Bool :=
  text.head?.any (fun c => c == 'e' || c == 'E') &&
    (text.tail.head?.any isDecimal ||
      text.tail.head?.any (fun c => c == '+' || c == '-') && text.tail.tail.head?.any isDecimal)

/-- Behind a point, the text goes on as a float does. -/
def startsFraction (text : List Char) : Bool := text.head?.any isDecimal || startsExponent text

theorem startsFraction_append {text : List Char} (hstarts : startsFraction text = true) (more : List Char) :
    startsFraction (text ++ more) = true := by
  match text with
  | [] => cases hstarts
  | [c] => simp_all [startsFraction, startsExponent]
  | [c, d] =>
    have hcases : isDecimal c = true ∨ (c = 'e' ∨ c = 'E') ∧ isDecimal d = true := by
      simpa [startsFraction, startsExponent] using hstarts
    obtain hdigit | ⟨hmark, hdigit⟩ := hcases
    · simp [startsFraction, hdigit]
    · simp [startsFraction, startsExponent, hmark, hdigit]
  | c :: d :: e :: rest => simpa [startsFraction, startsExponent] using hstarts

/-- What stands behind the point of a float: digits, or an exponent with a mark and maybe a sign. -/
structure IsFraction (fraction : List Char) : Prop where
  starts : startsFraction fraction = true
  ends : ∃ front last, fraction = front ++ [last] ∧ isDecimal last = true
  plain : ∀ c rest, fraction = c :: rest → isDecimal c = true → ∀ d ∈ rest, isDecimal d = true
  late : ∀ c d rest, fraction = c :: d :: rest → ∀ e ∈ rest, isDecimal e = true

/-- A fraction goes on with digits only. -/
theorem IsFraction.isDecimal_of_append {fraction more : List Char} {c : Char} (hfraction : IsFraction fraction)
    (hlonger : IsFraction (fraction ++ c :: more)) : isDecimal c = true := by
  obtain ⟨front, last, hends, hlast⟩ := hfraction.ends
  match fraction with
  | [] => simp at hends
  | [d] =>
    obtain ⟨rfl, hd⟩ : front = [] ∧ d = last := by cases front <;> simp_all
    exact hlonger.plain d (c :: more) rfl (hd ▸ hlast) c List.mem_cons_self
  | d :: e :: rest => exact hlonger.late d e (rest ++ c :: more) rfl c (by simp)

theorem isFraction_of_digits {digits : List Char} (hmatches : Matches (Pattern.some (one isDecimal)) digits) :
    IsFraction digits := by
  obtain ⟨hne, hdigits⟩ := forall_of_matches_some_one hmatches
  refine ⟨?_, ⟨digits.dropLast, digits.getLast hne, (List.dropLast_concat_getLast hne).symm, hdigits _ (List.getLast_mem hne)⟩, ?_, ?_⟩
  · obtain ⟨c, rest, rfl⟩ := List.exists_cons_of_ne_nil hne
    simp [startsFraction, hdigits c List.mem_cons_self]
  · rintro c rest rfl - d hmem
    exact hdigits d (List.mem_cons_of_mem c hmem)
  · rintro c d rest rfl e hmem
    exact hdigits e (List.mem_cons_of_mem c (List.mem_cons_of_mem d hmem))

theorem exists_fraction_of_firstMatch {text : List Char} (hfirst : FirstMatch patterns text .floatLit) :
    ∃ whole fraction, text = whole ++ '.' :: fraction ∧ (∀ c ∈ whole, isDecimal c = true) ∧ IsFraction fraction := by
  obtain ⟨pattern, hmem, hmatches⟩ := mem_patternsOf hfirst
  have hpatterns : patternsOf .floatLit = [_, _] := rfl
  rw [hpatterns] at hmem
  simp only [List.mem_cons, List.not_mem_nil, or_false] at hmem
  rcases hmem with rfl | rfl
  · obtain ⟨whole, others, rfl, hwhole, hothers⟩ := matches_seq_iff.mp hmatches
    obtain ⟨point, digits, rfl, hpoint, hdigits⟩ := matches_seq_iff.mp hothers
    obtain ⟨c, rfl, hc⟩ := matches_one_iff.mp hpoint
    obtain rfl := beq_iff_eq.mp hc
    exact ⟨whole, digits, rfl, (forall_of_matches_some_one hwhole).2, isFraction_of_digits hdigits⟩
  · obtain ⟨whole, others, rfl, hwhole, hothers⟩ := matches_seq_iff.mp hmatches
    obtain ⟨point, exponent, rfl, hpoint, hexponent⟩ := matches_seq_iff.mp hothers
    obtain ⟨mark, signed, rfl, hmark, hsigned⟩ := matches_seq_iff.mp hexponent
    obtain ⟨sign, digits, rfl, hsign, hdigits⟩ := matches_seq_iff.mp hsigned
    obtain ⟨c, rfl, hc⟩ := matches_one_iff.mp hpoint
    obtain ⟨d, rfl, hd⟩ := matches_one_iff.mp hmark
    obtain rfl := beq_iff_eq.mp hc
    refine ⟨whole, [d] ++ (sign ++ digits), rfl, (forall_of_matches_some_one hwhole).2, ?_⟩
    obtain ⟨front, last, hends, hlast⟩ := (isFraction_of_digits hdigits).ends
    have hall := (forall_of_matches_some_one hdigits).2
    refine ⟨?_, ⟨d :: (sign ++ front), last, by simp [hends], hlast⟩, ?_, ?_⟩
    · obtain ⟨digit, others, rfl⟩ := List.exists_cons_of_ne_nil (forall_of_matches_some_one hdigits).1
      have hdigit := hall digit List.mem_cons_self
      have hexponent : startsExponent ([d] ++ (sign ++ digit :: others)) = true := by
        rcases matches_alt_iff.mp hsign with hone | hempty
        · obtain ⟨s, rfl, hs⟩ := matches_one_iff.mp hone
          simp [startsExponent, hd, hs, hdigit]
        · obtain rfl := matches_empty_iff.mp hempty
          simp [startsExponent, hd, hdigit]
      rw [startsFraction, hexponent, Bool.or_true]
    · intro c rest heq hdecimal
      obtain ⟨rfl, -⟩ := List.cons.inj heq
      have hmark : d = 'e' ∨ d = 'E' := by simpa using hd
      rcases hmark with rfl | rfl
      · cases hdecimal
      · cases hdecimal
    · intro c second rest heq e hmem
      obtain ⟨-, htail⟩ := List.cons.inj heq
      rcases matches_alt_iff.mp hsign with hone | hempty
      · obtain ⟨s, rfl, -⟩ := matches_one_iff.mp hone
        obtain ⟨-, rfl⟩ := List.cons.inj htail
        exact hall e hmem
      · obtain rfl := matches_empty_iff.mp hempty
        exact hall e (by rw [show digits = second :: rest from htail]; exact List.mem_cons_of_mem _ hmem)

/-- What starts with a digit is a number. -/
theorem isNumber_of_firstMatch {c : Char} {rest : List Char} {kind : Kind} (hdecimal : isDecimal c = true)
    (hfirst : FirstMatch patterns (c :: rest) kind) : kind = .integerLit ∨ kind = .floatLit := by
  have hrules : ∀ rule ∈ openPatterns, (rule.1 = .integerLit ∨ rule.1 = .floatLit) ∨
      ∀ n < 128, (!isDecimal (Char.ofNat n) || (rule.2.derivative (Char.ofNat n)).isNever) = true := by
    decide
  have hspellings : ∀ kind ∈ Kind.all, kind.spelling?.all (fun spelling =>
      !(spelling.toList.head?.any isDecimal)) = true := by
    decide +kernel
  obtain ⟨pattern, hmem, hmatches⟩ := hfirst.exists_mem
  cases hspelling : kind.spelling? with
  | some spelling =>
    have hhead := hspellings kind (mem_all kind)
    rw [hspelling, Option.all_some, ← matches_of_spelling hspelling hfirst, List.head?_cons, Option.any_some,
      hdecimal] at hhead
    exact nomatch hhead
  | none =>
    obtain hkind | hnever := hrules _ (mem_openPatterns hmem hspelling)
    · exact hkind
    · have hpart : isNamePart c = true := by rw [isNamePart, hdecimal, Bool.or_true]
      have hnot := hnever c.toNat (toNat_lt_of_isNamePart hpart)
      rw [Char.ofNat_toNat, hdecimal, Bool.not_true, Bool.false_or] at hnot
      exact absurd hmatches (not_matches_of_isNever hnot rest)

/-- A whole number: with a point and a fraction behind it, its digits are those of a float. -/
def isWhole (kind : Kind) (text : List Char) : Bool := kind == .integerLit && text.all isDecimal

/-- What stands right behind a literal; behind a whole number no dot that a fraction follows. -/
def FollowsLiteral (whole : Bool) (after : List Char) : Prop :=
  ∀ c ∈ after.head?, followsExpression c = true ∧ (c = '.' → whole = false ∨ startsFraction after.tail = false)

/-- A float that goes on behind a text with no digit goes on there with its point, or its point stands in the text. -/
theorem exists_split_of_float {text more : List Char} {c : Char}
    (hfirst : FirstMatch patterns (text ++ c :: more) .floatLit) (hplain : isDecimal c = false) :
    c = '.' ∧ (∀ d ∈ text, isDecimal d = true) ∧ IsFraction more ∨
      ∃ whole fraction, text = whole ++ '.' :: fraction ∧ (∀ d ∈ whole, isDecimal d = true) ∧
        IsFraction (fraction ++ c :: more) := by
  obtain ⟨whole, fraction, heq, hwhole, hfraction⟩ := exists_fraction_of_firstMatch hfirst
  rcases List.append_eq_append_iff.mp heq with ⟨between, rfl, htail⟩ | ⟨between, rfl, htail⟩
  · cases between with
    | nil =>
      obtain ⟨rfl, rfl⟩ := List.cons.inj htail
      exact .inl ⟨rfl, by simpa using hwhole, hfraction⟩
    | cons d between =>
      obtain ⟨rfl, -⟩ := List.cons.inj htail
      exact absurd (hplain.symm.trans (hwhole c (by simp))) Bool.false_ne_true
  · cases between with
    | nil =>
      obtain ⟨rfl, rfl⟩ := List.cons.inj htail
      exact .inl ⟨rfl, by simpa using hwhole, hfraction⟩
    | cons d between =>
      obtain ⟨rfl, rfl⟩ := List.cons.inj htail
      exact .inr ⟨whole, between, rfl, hwhole, hfraction⟩

/-- A float has one point. -/
theorem eq_of_point {whole front fraction more : List Char} (hwhole : ∀ c ∈ whole, isDecimal c = true)
    (hfront : ∀ c ∈ front, isDecimal c = true) (heq : whole ++ '.' :: fraction = front ++ '.' :: more) :
    whole = front ∧ fraction = more := by
  have hpoint : isDecimal '.' = false := by decide
  have hsame := congrArg (List.takeWhile isDecimal) heq
  rw [List.takeWhile_append_of_pos hwhole, List.takeWhile_append_of_pos hfront,
    List.takeWhile_cons_of_neg (by simp [hpoint]), List.takeWhile_cons_of_neg (by simp [hpoint]), List.append_nil,
    List.append_nil] at hsame
  subst hsame
  exact ⟨rfl, (List.cons.inj (List.append_cancel_left heq)).2⟩

/-- A number ends in front of what may stand right behind it. -/
theorem not_firstMatch_number {text after more : List Char} {kind : Kind} {c : Char}
    (hkind : kind = .integerLit ∨ kind = .floatLit) (hfirst : FirstMatch patterns text kind)
    (hafter : FollowsLiteral (isWhole kind text) after) (hstarts : c :: more <+: after) (other : Kind) :
    ¬FirstMatch patterns (text ++ c :: more) other := by
  obtain ⟨later, rfl⟩ := hstarts
  obtain ⟨hfollows, hdot⟩ := hafter c rfl
  have hall : ([' ', '(', ')', '[', ']', '.', ',', '+', '-'].all fun c => !isIntegerPart c) = true := by decide
  have hpart : isIntegerPart c = false := by simpa using List.all_eq_true.mp hall c (of_decide_eq_true hfollows)
  have hplain : isDecimal c = false := by
    cases hdecimal : isDecimal c with
    | false => rfl
    | true => exact absurd (hpart.symm.trans (isIntegerPart_of_isDecimal hdecimal)) Bool.false_ne_true
  obtain ⟨d, rest, rfl, hd⟩ : ∃ d rest, text = d :: rest ∧ isDecimal d = true := by
    rcases hkind with rfl | rfl
    · exact (isIntegerPart_of_firstMatch hfirst).1
    · exact head_of_floatLit hfirst
  intro hother
  rcases isNumber_of_firstMatch hd hother with rfl | rfl
  · have hinteger := (isIntegerPart_of_firstMatch hother).2 c (by simp)
    exact Bool.false_ne_true (hpart.symm.trans hinteger)
  obtain ⟨rfl, hdigits, hfraction⟩ | ⟨whole, fraction, htext, hwhole, hfraction⟩ := exists_split_of_float hother hplain
  · rcases hkind with rfl | rfl
    · have hwholes : isWhole .integerLit (d :: rest) = true := by simpa [isWhole] using hdigits
      obtain hplain | hplain := hdot rfl
      · exact Bool.false_ne_true (hplain.symm.trans hwholes)
      · exact Bool.false_ne_true (hplain.symm.trans (startsFraction_append hfraction.starts later))
    · obtain ⟨front, shorter, hshorter, -⟩ := exists_fraction_of_firstMatch hfirst
      have hpoint := hdigits '.' (by rw [hshorter]; simp)
      cases hpoint
  · rcases hkind with rfl | rfl
    · have hpoint := (isIntegerPart_of_firstMatch hfirst).2 '.' (by rw [htext]; simp)
      cases hpoint
    · obtain ⟨front, shorter, hshorter, hfront, hends⟩ := exists_fraction_of_firstMatch hfirst
      obtain ⟨-, rfl⟩ := eq_of_point hfront hwhole (hshorter.symm.trans htext)
      exact Bool.false_ne_true (hplain.symm.trans (hends.isDecimal_of_append hfraction))

/-! ### Literals -/

/-- A token that its first characters decide on ends where its own rule says. -/
theorem first_opener {kind : Kind} {opener : List Char} (hresidue : residue patterns opener = [(kind, .empty)])
    (rest : List Char) : first (opener ++ rest) = resolve kind opener.length (opener ++ rest) := by
  have hopener : FirstMatch patterns opener kind := by
    rw [← List.append_nil opener, ← firstMatch_residue, hresidue]
    exact .inl ⟨.empty, rfl⟩
  have hends : ∀ c, EndsAt opener c := by
    intro c more other hother
    rw [← firstMatch_residue, hresidue] at hother
    obtain ⟨pattern, hmem, hmatches⟩ := hother.exists_mem
    obtain ⟨-, rfl⟩ := Prod.mk.inj (List.mem_singleton.mp hmem)
    cases matches_empty_iff.mp hmatches
  rw [first, match?, longest?_eq_some_iff.mpr (longest_append hopener fun c _ => hends c)]

theorem closed_of_extended {opened matched kind : Kind} {extent : Extent} {length : Nat}
    (heq : ((if extent.closed = true then LexemeForm.token opened else .unterminated matched), extent.length)
      = (.token kind, length)) : kind = opened ∧ extent = ⟨length, true⟩ := by
  obtain ⟨hform, rfl⟩ := Prod.mk.inj heq
  split at hform
  · next hclosed => exact ⟨(LexemeForm.token.inj hform).symm, by rw [← hclosed]⟩
  · cases hform

/-- A text starts with the opener that its first match is. -/
theorem exists_of_opener {text : List Char} {count : Nat} {kind : Kind} {opener : String}
    (hpatterns : patternsOf kind = [ofString opener]) (hmatch : FirstMatch patterns (text.take count) kind) :
    ∃ rest, text = opener.toList ++ rest := by
  obtain ⟨pattern, hmem, hmatches⟩ := mem_patternsOf hmatch
  rw [hpatterns] at hmem
  obtain rfl := List.mem_singleton.mp hmem
  refine ⟨text.drop count, ?_⟩
  rw [← matches_ofString_iff.mp hmatches, List.take_append_drop]

/-- A text starts as a literal of a kind may. -/
def BeginsLiteral (kind : Kind) (text : List Char) : Prop :=
  ∃ c rest, text = c :: rest ∧ opensExpression c = true ∧
    (State.isFoldable ⟨kind, 0, String.ofList text⟩ = true → isDecimal c = true)

theorem beginsLiteral_of_isDecimal {kind : Kind} {c : Char} {rest : List Char} (hdecimal : isDecimal c = true) :
    BeginsLiteral kind (c :: rest) :=
  ⟨c, rest, rfl, by rw [opensExpression, isNamePart, hdecimal, Bool.or_true, Bool.true_or], fun _ => hdecimal⟩

/-- A text starts with a literal of a kind, and does so in front of whatever may follow an expression. -/
structure HoldsLiteral (text : List Char) (kind : Kind) (length : Nat) : Prop where
  length_le : length ≤ text.length
  begins : BeginsLiteral kind (text.take length)
  first : ∀ after, FollowsLiteral (isWhole kind (text.take length)) after →
    first (text.take length ++ after) = (.token kind, length)

theorem holdsLiteral_string {rest : List Char} {length : Nat} (hclosed : Extent.string ('"' :: rest) = ⟨length, true⟩) :
    HoldsLiteral ('"' :: rest) .stringLit length := by
  obtain ⟨found, rfl, -⟩ := Extent.past_eq_iff.mp (show (Extent.toQuote rest).past 1 = _ from hclosed)
  refine ⟨(Extent.string_take hclosed []).1, ⟨'"', rest.take found, rfl, rfl, by simp [State.isFoldable]⟩, fun after _ => ?_⟩
  have htake := (Extent.string_take hclosed after).2
  have hopener : first ('"' :: (rest.take found ++ after)) = _ :=
    first_opener (show residue patterns ['"'] = [(.stringStart, .empty)] from rfl) (rest.take found ++ after)
  rw [List.take_succ_cons, List.cons_append] at htake ⊢
  rw [hopener]
  simp [resolve, htake]

theorem holdsLiteral_verbatim {rest : List Char} {length : Nat}
    (hclosed : Extent.verbatimString ('@' :: '"' :: rest) = ⟨length, true⟩) :
    HoldsLiteral ('@' :: '"' :: rest) .verbatimStringLit length := by
  obtain ⟨found, rfl, -⟩ := Extent.past_eq_iff.mp (show (Extent.toSingleQuote rest).past 2 = _ from hclosed)
  have htext : ('@' :: '"' :: rest).take (found + 2) = '@' :: '"' :: rest.take found := rfl
  have hnothing : ∀ c ∈ ([] : List Char).head?, c ≠ '"' := by simp
  refine ⟨(Extent.verbatimString_take hclosed hnothing).1, ⟨'@', '"' :: rest.take found, rfl, rfl,
    by simp [State.isFoldable]⟩, fun after hafter => ?_⟩
  have hquote : ∀ c ∈ after.head?, c ≠ '"' := by
    rintro c hmem rfl
    cases (hafter _ hmem).1
  have htake := (Extent.verbatimString_take hclosed hquote).2
  have hopener : first ('@' :: '"' :: (rest.take found ++ after)) = _ :=
    first_opener (show residue patterns ['@', '"'] = [(.verbatimStart, .empty)] from rfl) (rest.take found ++ after)
  rw [htext, List.cons_append, List.cons_append] at htake ⊢
  rw [hopener]
  simp [resolve, htake]

/-- An integer between three quotes on each side. -/
theorem holdsLiteral_quotedInteger {rest : List Char} {length : Nat}
    (hfound : Extent.quotedInteger? ('\'' :: rest) = Option.some length) :
    HoldsLiteral ('\'' :: rest) .integerLit length := by
  have hpos : ∃ count, length = count + 1 := by
    rw [Extent.quotedInteger?.eq_def] at hfound
    split at hfound
    · split at hfound
      · next count _ =>
        split at hfound
        · cases hfound
        · exact ⟨count + 5, (Option.some.inj hfound).symm⟩
      · cases hfound
    · cases hfound
  obtain ⟨count, rfl⟩ := hpos
  refine ⟨(Extent.quotedInteger?_take hfound []).1, ⟨'\'', rest.take count, rfl, rfl, by simp [State.isFoldable]⟩, fun after _ => ?_⟩
  have htake := (Extent.quotedInteger?_take hfound after).2
  have hopener : first ('\'' :: (rest.take count ++ after)) = _ :=
    first_opener (show residue patterns ['\''] = [(.charStart, .empty)] from rfl) (rest.take count ++ after)
  rw [List.take_succ_cons, List.cons_append] at htake ⊢
  rw [hopener]
  simp [resolve, htake]

/-- A char literal with something between its quotes does not start an integer between three quotes on each side. -/
theorem quotedInteger?_of_charLiteral {rest : List Char} {length : Nat}
    (hclosed : Extent.charLiteral ('\'' :: rest) = ⟨length, true⟩)
    (hsound : literalError? .charLit (String.ofList (('\'' :: rest).take length)) = none) (after : List Char) :
    Extent.quotedInteger? (('\'' :: rest).take length ++ after) = none := by
  obtain ⟨count, rfl⟩ := Extent.exists_of_charLiteral hclosed
  cases rest with
  | nil => cases hclosed
  | cons d others =>
    have hquote : d ≠ '\'' := by
      -- nothing between the quotes is not a char
      rintro rfl
      have hempty : Extent.charLiteral ('\'' :: '\'' :: others) = ⟨2, true⟩ := rfl
      obtain rfl : count = 0 := by
        have hlength := congrArg Extent.length (hclosed.symm.trans hempty)
        exact Nat.succ.inj (Nat.succ.inj hlength)
      have hfault : (literalError? .charLit (String.ofList ['\'', '\''])).isSome = true := by decide
      have hnone : literalError? .charLit (String.ofList ['\'', '\'']) = none := hsound
      rw [hnone] at hfault
      cases hfault
    rw [List.take_succ_cons, List.take_succ_cons, List.cons_append, List.cons_append, Extent.quotedInteger?.eq_def]
    split
    · next heq => exact absurd (List.cons.inj (List.cons.inj heq).2).1 hquote
    · rfl

theorem holdsLiteral_char {rest : List Char} {length : Nat}
    (hclosed : Extent.charLiteral ('\'' :: rest) = ⟨length, true⟩)
    (hsound : literalError? .charLit (String.ofList (('\'' :: rest).take length)) = none) :
    HoldsLiteral ('\'' :: rest) .charLit length := by
  obtain ⟨count, rfl⟩ := Extent.exists_of_charLiteral hclosed
  refine ⟨(Extent.charLiteral_take hclosed []).1, ⟨'\'', rest.take (count + 1), rfl, rfl, by simp [State.isFoldable]⟩,
    fun after _ => ?_⟩
  have htake := (Extent.charLiteral_take hclosed after).2
  have hplain := quotedInteger?_of_charLiteral hclosed hsound after
  have hopener : first ('\'' :: (rest.take (count + 1) ++ after)) = _ :=
    first_opener (show residue patterns ['\''] = [(.charStart, .empty)] from rfl) (rest.take (count + 1) ++ after)
  rw [List.take_succ_cons, List.cons_append] at htake hplain ⊢
  rw [hopener]
  simp [resolve, htake, hplain]

theorem holdsLiteral_number {text : List Char} {kind : Kind} {length : Nat} (hkind : kind = .integerLit ∨ kind = .floatLit)
    (hlongest : Longest patterns text kind length) : HoldsLiteral text kind length := by
  have hplain : isPlain kind = true := by rcases hkind with rfl | rfl <;> rfl
  have hmatch := hlongest.firstMatch
  have hlength : (text.take length).length = length := by rw [List.length_take, Nat.min_eq_left hlongest.le_length]
  refine ⟨hlongest.le_length, ?_, fun after hafter => ?_⟩
  · obtain ⟨c, rest, htext, hdecimal⟩ : ∃ c rest, text.take length = c :: rest ∧ isDecimal c = true := by
      rcases hkind with rfl | rfl
      · exact (isIntegerPart_of_firstMatch hmatch).1
      · exact head_of_floatLit hmatch
    rw [htext]
    exact beginsLiteral_of_isDecimal hdecimal
  · have hlonger := longest_append_of_starts hmatch fun c more => not_firstMatch_number hkind hmatch hafter
    have hfirst := first_of_longest hlonger hplain
    rwa [hlength] at hfirst

/-- A literal at the start of a text is the same literal in front of whatever may follow an expression. -/
theorem holdsLiteral_of_first {text : List Char} {kind : Kind} {length : Nat} (hfirst : first text = (.token kind, length))
    (hliteral : (Grammar.literalNode? kind).isSome = true) (hspelled : kind.spelling? = none)
    (hsound : literalError? kind (String.ofList (text.take length)) = none) : HoldsLiteral text kind length := by
  obtain ⟨matched, count, hlongest, hresolve⟩ := exists_longest (congrArg Prod.fst hfirst)
  have hmatch := hlongest.firstMatch
  rw [hresolve, resolve.eq_def] at hfirst
  split at hfirst
  case h_1 =>
    obtain ⟨rfl, -⟩ := closed_of_extended hfirst
    cases hliteral
  case h_2 =>
    obtain ⟨hform, -⟩ := Prod.mk.inj hfirst
    obtain rfl := LexemeForm.token.inj hform
    cases hliteral
  case h_3 =>
    obtain ⟨rfl, hclosed⟩ := closed_of_extended hfirst
    obtain ⟨rest, rfl⟩ := exists_of_opener (show patternsOf .stringStart = [ofString "\""] from rfl) hmatch
    exact holdsLiteral_string hclosed
  case h_4 =>
    obtain ⟨rfl, hclosed⟩ := closed_of_extended hfirst
    obtain ⟨rest, rfl⟩ := exists_of_opener (show patternsOf .verbatimStart = [ofString "@\""] from rfl) hmatch
    exact holdsLiteral_verbatim hclosed
  case h_5 =>
    obtain ⟨rest, rfl⟩ := exists_of_opener (show patternsOf .charStart = [ofString "'"] from rfl) hmatch
    split at hfirst
    · next hfound =>
      obtain ⟨hform, rfl⟩ := Prod.mk.inj hfirst
      obtain rfl := LexemeForm.token.inj hform
      exact holdsLiteral_quotedInteger hfound
    · obtain ⟨rfl, hclosed⟩ := closed_of_extended hfirst
      exact holdsLiteral_char hclosed hsound
  case h_6 =>
    obtain ⟨hform, rfl⟩ := Prod.mk.inj hfirst
    obtain rfl := LexemeForm.token.inj hform
    have hall : ∀ kind ∈ Kind.all, (Grammar.literalNode? kind).isSome = true → kind.spelling? = none →
        (patternsOf kind).isEmpty = true ∨ kind = .integerLit ∨ kind = .floatLit := by decide +kernel
    rcases hall matched (mem_all matched) hliteral hspelled with hnone | hkind
    · obtain ⟨pattern, hmem, -⟩ := mem_patternsOf hmatch
      rw [List.isEmpty_iff.mp hnone] at hmem
      cases hmem
    · exact holdsLiteral_number hkind hlongest

end Lexeme

/-! ### Tokens of sources without errors -/

namespace Leaf

open Lexeme

/-- A whole number: with a point and a fraction behind it, it is a float. -/
def isWhole (leaf : Leaf) : Bool := Lexeme.isWhole leaf.kind leaf.text.toList

/-- A literal that stays one in front of whatever may follow an expression. -/
structure IsLiteral (leaf : Leaf) : Prop where
  begins : BeginsLiteral leaf.kind leaf.text.toList
  standsBefore : ∀ after, FollowsLiteral leaf.isWhole after → leaf.StandsBefore after

/-- A token whose text makes it that token: a sign is spelled as signs of its kind are, and a name or a literal stays one
where another token follows. -/
structure Genuine (leaf : Leaf) : Prop where
  sign : leaf.kind.spelling?.isSome = true → leaf = Leaf.sign leaf.kind
  name : leaf.kind = .id → leaf.IsName
  literal : (Grammar.literalNode? leaf.kind).isSome = true → leaf.kind.spelling? = none → leaf.IsLiteral

end Leaf

namespace Lexeme

open Pattern

theorem genuine_of_mem_cut {source : List Char} {lexeme : Lexeme} (hmem : lexeme ∈ cut source)
    (hfault : lexeme.fault? = none) : Leaf.Genuine ⟨lexeme.kind, String.ofList lexeme.text⟩ := by
  have hwritten := wellWritten_of_mem_cut hmem hfault
  obtain ⟨text, length, hfirst, htext, hsound⟩ := exists_first_of_fault? hmem hfault
  refine ⟨fun hspelled => ?_, fun hid => ⟨hid, ?_⟩, fun hliteral hspelled => ⟨?_, fun after hafter => ?_⟩⟩
  · obtain ⟨spelling, hspelling⟩ := Option.isSome_iff_exists.mp hspelled
    have hsame : String.ofList lexeme.text = spelling := hwritten.spelled spelling hspelling
    have hsome : lexeme.kind.spelling? = Option.some spelling := hspelling
    rw [Leaf.sign, hsame, hsome, Option.getD_some]
  · have hkind : lexeme.kind = .id := hid
    rw [hkind] at hfirst
    rw [String.toList_ofList, htext]
    rcases token_of_first (congrArg Prod.fst hfirst) with hlongest | ⟨hother, -⟩ | hother
    · rw [hfirst] at hlongest
      exact hlongest.firstMatch
    · cases hother
    · simp at hother
  · rw [String.toList_ofList, htext]
    exact (holdsLiteral_of_first hfirst hliteral hspelled (htext ▸ hsound)).begins
  · have hholds := holdsLiteral_of_first hfirst hliteral hspelled (htext ▸ hsound)
    have hlength : lexeme.text.length = length := by rw [htext, List.length_take, Nat.min_eq_left hholds.length_le]
    refine ⟨?_, ?_, hsound⟩
    · obtain ⟨c, rest, hcons, -⟩ := hholds.begins
      rw [String.toList_ofList, htext, hcons]
      exact List.cons_ne_nil c rest
    · rw [String.toList_ofList, hlength, htext]
      rw [Leaf.isWhole, String.toList_ofList, htext] at hafter
      exact hholds.first after hafter

end Lexeme

/-- The tokens of a source with nothing wrong about them are genuine. -/
theorem Lexed.genuine_of_mem_tokens {source : String} (hnone : (ofSource source).diagnostics = []) {token : Token}
    (hmem : token ∈ (ofSource source).tokens) : token.leaf.Genuine := by
  obtain ⟨lexeme, hlexeme, hfault, hleaf⟩ := exists_lexeme_of_mem_tokens hnone hmem
  rw [show token.leaf = ⟨token.kind, token.text⟩ from rfl, hleaf]
  exact Lexeme.genuine_of_mem_cut hlexeme hfault

end Squirrel
