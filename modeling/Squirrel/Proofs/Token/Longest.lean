import Squirrel.Proofs.Token.Literal
import Squirrel.Proofs.Token.Tiling

/-!
# The lexer takes the longest match

`Reads` says which lexemes a source has with nothing but the table of patterns: at each point the longest start that some
pattern matches, or a run of characters at which no pattern matches anything. It says so without derivatives and without
the order of the table, so it has to be shown that the order decides between keywords and names only. The lexer finds
these lexemes and there are no others.
-/

namespace Squirrel

namespace Lexeme

open Pattern

/-! ### What the patterns ask for -/

/-- Some pattern matches the whole text. -/
def IsMatched (text : List Char) : Prop := ∃ rule ∈ patterns, Matches rule.2 text

/-- Some pattern matches a start of the text that is not empty. -/
def StartsToken (text : List Char) : Prop := ∃ count, 0 < count ∧ count ≤ text.length ∧ IsMatched (text.take count)

/-- At none of the characters of the run a pattern matches anything. At the character in front of it one does, and so it
does at the character behind it, if there are such. -/
structure IsMaximalRun (before run after : List Char) : Prop where
  ne_nil : run ≠ []
  silent : ∀ position < run.length, ¬StartsToken ((run ++ after).drop position)
  starts : ∀ c ∈ before.getLast?, StartsToken (c :: (run ++ after))
  ends : after ≠ [] → StartsToken after

/-! ### The order of the patterns -/

theorem isMatched_iff {text : List Char} : IsMatched text ↔ ∃ kind, FirstMatch patterns text kind := by
  constructor
  · rintro ⟨rule, hmem, hmatches⟩
    exact exists_firstMatch hmem hmatches
  · rintro ⟨kind, hfirst⟩
    obtain ⟨pattern, hmem, hmatches⟩ := hfirst.exists_mem
    exact ⟨(kind, pattern), hmem, hmatches⟩

/-- The rules that match a text are the ones of which something that may be empty remains behind it. -/
theorem exists_mem_residue {rules : List (Kind × Pattern)} {rule : Kind × Pattern} {text : List Char} (hmem : rule ∈ rules)
    (hmatches : Matches rule.2 text) : ∃ pattern, (rule.1, pattern) ∈ residue rules text ∧ pattern.nullable = true := by
  induction text generalizing rules rule with
  | nil => exact ⟨rule.2, hmem, nullable_iff.mpr hmatches⟩
  | cons c rest ih =>
    have hnext := matches_derivative_iff.mpr hmatches
    have hgoesOn : (rule.2.derivative c).isNever = false :=
      Bool.eq_false_iff.mpr fun hnever => not_matches_of_isNever hnever rest hmatches
    exact @ih _ (rule.1, rule.2.derivative c) (List.mem_filterMap.mpr ⟨rule, hmem, by simp [hgoesOn]⟩) hnext

/-- The texts that are the only ones of their kind, or one of the two line breaks. -/
def fixedTexts (kind : Kind) : List String :=
  match kind with
  | .newline => ["\n", "\r\n"]
  | _ => kind.spelling?.toList ++ (opening? kind).toList

/-- Any other pattern that matches the spelling of a kind is the pattern of names, and the kind is a keyword. -/
theorem kind_of_spelling {kind : Kind} {spelling : String} (hspelling : kind.spelling? = some spelling)
    {rule : Kind × Pattern} (hmem : rule ∈ patterns) (hmatches : Matches rule.2 spelling.toList) :
    rule.1 = kind ∨ (rule.1 = .id ∧ kind.isKeyword = true) := by
  cases hother : rule.1.spelling? with
  | some other =>
    rw [(mem_patterns hmem).2 other hother] at hmatches
    obtain rfl := String.toList_inj.mp (matches_ofString_iff.mp hmatches)
    exact .inl (eq_of_spelling? hother hspelling)
  | none =>
    have hall : ∀ kind ∈ Kind.all, kind.spelling?.all (fun spelling => (residue openPatterns spelling.toList).all
        fun rule => !rule.2.nullable || (rule.1 == .id && kind.isKeyword)) = true := by
      decide +kernel
    obtain ⟨pattern, hleft, hnullable⟩ := exists_mem_residue (mem_openPatterns hmem hother) hmatches
    have hkind := hall kind (mem_all kind)
    rw [hspelling, Option.all_some] at hkind
    have hrule := List.all_eq_true.mp hkind _ hleft
    exact .inr (by simpa [hnullable] using hrule)

theorem kind_of_fixedText {kind : Kind} {text : String} (hfixed : text ∈ fixedTexts kind) {rule : Kind × Pattern}
    (hmem : rule ∈ patterns) (hmatches : Matches rule.2 text.toList) :
    rule.1 = kind ∨ (rule.1 = .id ∧ kind.isKeyword = true) := by
  cases hspelling : kind.spelling? with
  | some spelling =>
    have hsingle : ∀ kind ∈ Kind.all, kind.spelling?.isSome = true → fixedTexts kind = kind.spelling?.toList := by
      decide +kernel
    rw [hsingle kind (mem_all kind) (by rw [hspelling]; rfl), hspelling] at hfixed
    obtain rfl := List.mem_singleton.mp hfixed
    exact kind_of_spelling hspelling hmem hmatches
  | none =>
    have hall : ∀ kind ∈ Kind.all, kind.spelling? = none → ∀ text ∈ fixedTexts kind,
        (residue patterns text.toList).all (fun rule => !rule.2.nullable || rule.1 == kind) = true := by
      decide +kernel
    obtain ⟨pattern, hleft, hnullable⟩ := exists_mem_residue hmem hmatches
    have hrule := List.all_eq_true.mp (hall kind (mem_all kind) hspelling text hfixed) _ hleft
    exact .inl (by simpa [hnullable] using hrule)

theorem mem_patternsOf_of_mem {rule : Kind × Pattern} (hmem : rule ∈ patterns) : rule.2 ∈ patternsOf rule.1 :=
  List.mem_map_of_mem (List.mem_filter.mpr ⟨hmem, beq_self_eq_true rule.1⟩)

theorem eq_fixedText {rule : Kind × Pattern} {text : List Char} (hfixed : fixedTexts rule.1 ≠ []) (hmem : rule ∈ patterns)
    (hmatches : Matches rule.2 text) : ∃ fixed ∈ fixedTexts rule.1, text = fixed.toList := by
  obtain ⟨kind, pattern⟩ := rule
  have hpattern := mem_patternsOf_of_mem hmem
  cases hspelling : kind.spelling? with
  | some spelling =>
    have hmatches : Matches pattern text := hmatches
    rw [(mem_patterns hmem).2 spelling hspelling] at hmatches
    refine ⟨spelling, ?_, matches_ofString_iff.mp hmatches⟩
    cases kind with
    | newline => exact nomatch hspelling
    | _ => exact List.mem_append_left _ (by rw [hspelling]; exact List.mem_singleton.mpr rfl)
  | none =>
    cases kind with
    | newline =>
      obtain rfl | hmem := List.mem_cons.mp hpattern
      · exact ⟨"\n", by decide, matches_ofString_iff.mp hmatches⟩
      · obtain rfl := List.mem_singleton.mp hmem
        exact ⟨"\r\n", by decide, matches_ofString_iff.mp hmatches⟩
    | blockCommentStart | lineCommentStart | stringStart | verbatimStart | charStart =>
      obtain rfl := List.mem_singleton.mp hpattern
      exact ⟨_, List.mem_singleton.mpr rfl, matches_ofString_iff.mp hmatches⟩
    | _ => first | exact absurd rfl hfixed | exact nomatch hspelling

/-! ### Kinds with many texts -/

/-- The kinds with many texts that start with the character. -/
def openKinds (c : Char) : List Kind :=
  if isNameStart c then [.id] else if isDecimal c then [.integerLit, .floatLit] else if isBlank c then [.whitespace] else
  if c == '#' then [.lineComment] else []

theorem openKinds_of_isDecimal {c : Char} (hdecimal : isDecimal c = true) : openKinds c = [.integerLit, .floatLit] := by
  have hall : ∀ n < 128, (!isDecimal (Char.ofNat n) || !isNameStart (Char.ofNat n)) = true := by decide
  have hname := @of_forall_ascii (fun c => !isDecimal c || !isNameStart c) hall c
    (toNat_lt_of_isNamePart (by rw [isNamePart, hdecimal, Bool.or_true]))
  have hnot : isNameStart c = false := by simpa [hdecimal] using hname
  simp [openKinds, hnot, hdecimal]

theorem openKinds_of_isBlank {c : Char} (hblank : isBlank c = true) : openKinds c = [.whitespace] := by
  have hall : [' ', '\t', '\r', '\x0b', '\x0c'].all (openKinds · == [.whitespace]) = true := by decide
  exact eq_of_beq (List.all_eq_true.mp hall c (of_decide_eq_true hblank))

theorem exists_head_of_seq_one {allowed : Char → Bool} {more : Pattern} {text : List Char}
    (hmatches : Matches (seq (one allowed) more) text) : ∃ c rest, text = c :: rest ∧ allowed c = true := by
  obtain ⟨start, rest, rfl, hone, -⟩ := matches_seq_iff.mp hmatches
  obtain ⟨c, rfl, hallowed⟩ := matches_one_iff.mp hone
  exact ⟨c, rest, rfl, hallowed⟩

theorem kind_of_open {rule : Kind × Pattern} (hopen : fixedTexts rule.1 = []) (hmem : rule ∈ patterns) :
    rule.1 = .id ∨ rule.1 = .integerLit ∨ rule.1 = .floatLit ∨ rule.1 = .whitespace ∨ rule.1 = .lineComment := by
  have hkinds : ∀ rule ∈ patterns, fixedTexts rule.1 = [] →
      rule.1 ∈ [.id, .integerLit, .floatLit, .whitespace, .lineComment] := by
    decide
  simpa using hkinds rule hmem hopen

/-- A float starts with digits and a point. -/
theorem exists_seq_of_mem_floatLit {pattern : Pattern} (hmem : pattern ∈ patternsOf .floatLit) :
    ∃ more, pattern = seq (Pattern.some (one isDecimal)) (seq (one (· == '.')) more) := by
  obtain rfl | hmem := List.mem_cons.mp hmem
  · exact ⟨_, rfl⟩
  · obtain rfl := List.mem_singleton.mp hmem
    exact ⟨_, rfl⟩

theorem exists_openKinds {rule : Kind × Pattern} {text : List Char} (hopen : fixedTexts rule.1 = [])
    (hmem : rule ∈ patterns) (hmatches : Matches rule.2 text) : ∃ c rest, text = c :: rest ∧ rule.1 ∈ openKinds c := by
  obtain ⟨kind, pattern⟩ := rule
  have hpattern := mem_patternsOf_of_mem hmem
  obtain rfl | rfl | rfl | rfl | rfl : kind = _ ∨ kind = _ ∨ kind = _ ∨ kind = _ ∨ kind = _ := kind_of_open hopen hmem
  · obtain rfl := List.mem_singleton.mp hpattern
    obtain ⟨c, rest, rfl, hstart⟩ := exists_head_of_seq_one hmatches
    exact ⟨c, rest, rfl, by simp [openKinds, hstart]⟩
  · obtain ⟨c, rest, htext, hdecimal⟩ := (isIntegerPart_of_matches hpattern hmatches).1
    exact ⟨c, rest, htext, by simp [openKinds_of_isDecimal hdecimal]⟩
  · obtain ⟨more, rfl⟩ := exists_seq_of_mem_floatLit hpattern
    obtain ⟨whole, others, rfl, hwhole, -⟩ := matches_seq_iff.mp hmatches
    obtain ⟨c, rest, rfl, hdecimal⟩ := exists_head_of_seq_one hwhole
    exact ⟨c, rest ++ others, rfl, by simp [openKinds_of_isDecimal hdecimal]⟩
  · obtain rfl := List.mem_singleton.mp hpattern
    obtain ⟨c, rest, rfl, hblank⟩ := exists_head_of_seq_one hmatches
    exact ⟨c, rest, rfl, by simp [openKinds_of_isBlank hblank]⟩
  · obtain rfl := List.mem_singleton.mp hpattern
    obtain ⟨c, rest, rfl, hmark⟩ := exists_head_of_seq_one hmatches
    obtain rfl := beq_iff_eq.mp hmark
    exact ⟨'#', rest, rfl, by decide⟩

theorem point_of_floatLit {pattern : Pattern} {text : List Char} (hmem : pattern ∈ patternsOf .floatLit)
    (hmatches : Matches pattern text) : '.' ∈ text := by
  obtain ⟨more, rfl⟩ := exists_seq_of_mem_floatLit hmem
  obtain ⟨whole, others, rfl, -, hothers⟩ := matches_seq_iff.mp hmatches
  obtain ⟨c, rest, rfl, hpoint⟩ := exists_head_of_seq_one hothers
  obtain rfl := beq_iff_eq.mp hpoint
  simp

/-- No text is an integer and a float. -/
theorem not_isMatched_both_numbers {left right : Pattern} {text : List Char} (hleft : left ∈ patternsOf .integerLit)
    (hright : right ∈ patternsOf .floatLit) (hinteger : Matches left text) : ¬Matches right text := by
  intro hfloat
  have hpart := (isIntegerPart_of_matches hleft hinteger).2 '.' (point_of_floatLit hright hfloat)
  exact nomatch hpart

/-- Two patterns of kinds with many texts that match the same text are of one kind. -/
theorem eq_of_mem_openKinds {c : Char} {text : List Char} {left right : Kind × Pattern} (hleft : left.1 ∈ openKinds c)
    (hright : right.1 ∈ openKinds c) (hleftMem : left ∈ patterns) (hrightMem : right ∈ patterns)
    (hleftMatches : Matches left.2 text) (hrightMatches : Matches right.2 text) : left.1 = right.1 := by
  obtain ⟨leftKind, leftPattern⟩ := left
  obtain ⟨rightKind, rightPattern⟩ := right
  have hleftOf := mem_patternsOf_of_mem hleftMem
  have hrightOf := mem_patternsOf_of_mem hrightMem
  by_cases hdecimal : isDecimal c = true
  · simp only [openKinds_of_isDecimal hdecimal, List.mem_cons, List.not_mem_nil, or_false] at hleft hright
    obtain rfl | rfl := hleft
    · obtain rfl | rfl := hright
      · rfl
      · exact absurd hrightMatches (not_isMatched_both_numbers hleftOf hrightOf hleftMatches)
    · obtain rfl | rfl := hright
      · exact absurd hleftMatches (not_isMatched_both_numbers hrightOf hleftOf hrightMatches)
      · rfl
  · have hone : ∃ only, ∀ kind ∈ openKinds c, kind = only := by
      rw [openKinds, if_neg hdecimal]
      split
      · exact ⟨.id, fun kind hmem => List.mem_singleton.mp hmem⟩
      · split
        · exact ⟨.whitespace, fun kind hmem => List.mem_singleton.mp hmem⟩
        · split
          · exact ⟨.lineComment, fun kind hmem => List.mem_singleton.mp hmem⟩
          · exact ⟨.id, fun kind hmem => absurd hmem List.not_mem_nil⟩
    obtain ⟨only, hall⟩ := hone
    exact (hall _ hleft).trans (hall _ hright).symm

/-- The first kind that matches a keyword is that keyword. -/
theorem eq_of_isKeyword {text : List Char} {kind : Kind} (hfirst : FirstMatch patterns text kind) {rule : Kind × Pattern}
    (hmem : rule ∈ patterns) (hkeyword : rule.1.isKeyword = true) (hmatches : Matches rule.2 text) : rule.1 = kind := by
  have hall : ∀ kind ∈ Kind.all, kind.isKeyword = true → kind.spelling?.isSome = true := by decide +kernel
  obtain ⟨spelling, hspelling⟩ := Option.isSome_iff_exists.mp (hall rule.1 (mem_all rule.1) hkeyword)
  rw [(mem_patterns hmem).2 spelling hspelling] at hmatches
  obtain rfl := matches_ofString_iff.mp hmatches
  exact (firstMatch_spelling hspelling).unique hfirst

/-- A kind that the order of the patterns prefers to another is the kind of keywords. -/
theorem preferred_of_firstMatch {text : List Char} {kind : Kind} (hfirst : FirstMatch patterns text kind)
    {rule : Kind × Pattern} (hmem : rule ∈ patterns) (hmatches : Matches rule.2 text) :
    rule.1 = kind ∨ (rule.1 = .id ∧ kind.isKeyword = true) := by
  obtain ⟨pattern, hown, hownMatches⟩ := hfirst.exists_mem
  by_cases hfixed : fixedTexts kind = []
  · by_cases hother : fixedTexts rule.1 = []
    · obtain ⟨c, rest, rfl, hopen⟩ := @exists_openKinds (kind, pattern) _ hfixed hown hownMatches
      obtain ⟨d, others, htext, hotherOpen⟩ := exists_openKinds hother hmem hmatches
      obtain ⟨rfl, rfl⟩ := List.cons.inj htext
      exact .inl (eq_of_mem_openKinds hotherOpen hopen hmem hown hmatches hownMatches)
    · obtain ⟨fixed, hfixedMem, rfl⟩ := eq_fixedText hother hmem hmatches
      obtain hkind | ⟨hid, hkeyword⟩ := kind_of_fixedText hfixedMem hown hownMatches
      · exact .inl hkind.symm
      · exact .inl (eq_of_isKeyword hfirst hmem hkeyword hmatches)
  · obtain ⟨fixed, hfixedMem, rfl⟩ := @eq_fixedText (kind, pattern) _ hfixed hown hownMatches
    exact kind_of_fixedText hfixedMem hmem hmatches

/-! ### The longest match -/

/-- A pattern of the kind matches so many characters at the start of the text and no pattern matches more of them. If a
pattern of another kind matches as many, that kind is the one of names and the text is a keyword. -/
structure IsLongest (text : List Char) (kind : Kind) (length : Nat) : Prop where
  le_length : length ≤ text.length
  matched : ∃ pattern, (kind, pattern) ∈ patterns ∧ Matches pattern (text.take length)
  longest : ∀ longer ≤ text.length, IsMatched (text.take longer) → longer ≤ length
  preferred : ∀ rule ∈ patterns, Matches rule.2 (text.take length) →
    rule.1 = kind ∨ (rule.1 = .id ∧ kind.isKeyword = true)

theorem isLongest_iff {text : List Char} {kind : Kind} {length : Nat} :
    IsLongest text kind length ↔ Longest patterns text kind length := by
  constructor
  · rintro ⟨hle, ⟨pattern, hmem, hmatches⟩, hlongest, hpreferred⟩
    refine ⟨hle, ?_, fun longer hlt hlonger other hother => ?_⟩
    · obtain ⟨name, hname⟩ := exists_firstMatch hmem hmatches
      obtain ⟨own, hown, hownMatches⟩ := hname.exists_mem
      obtain hkind | ⟨-, hkeyword⟩ := hpreferred _ hown hownMatches
      · exact hkind ▸ hname
      · obtain rfl : kind = name := eq_of_isKeyword hname hmem hkeyword hmatches
        exact hname
    · exact absurd (hlongest longer hlonger (isMatched_iff.mpr ⟨other, hother⟩)) (Nat.not_le.mpr hlt)
  · intro hlongest
    refine ⟨hlongest.le_length, ?_, fun longer hle hmatched => ?_, fun rule => preferred_of_firstMatch hlongest.firstMatch⟩
    · exact hlongest.firstMatch.exists_mem
    · obtain ⟨other, hother⟩ := isMatched_iff.mp hmatched
      exact Nat.le_of_not_lt fun hlt => hlongest.not_longer longer hlt hle other hother

theorem pos_of_longest {text : List Char} {kind : Kind} {length : Nat} (hlongest : Longest patterns text kind length) :
    0 < length := by
  refine Nat.pos_of_ne_zero fun hzero => not_firstMatch_nil kind ?_
  have hfirst := hlongest.firstMatch
  rwa [hzero, List.take_zero] at hfirst

theorem startsToken_iff {text : List Char} : StartsToken text ↔ (match? text).isSome = true := by
  cases hmatch : match? text with
  | none =>
    refine iff_of_false ?_ nofun
    rintro ⟨count, -, hle, hmatched⟩
    obtain ⟨kind, hfirst⟩ := isMatched_iff.mp hmatched
    exact longest?_eq_none_iff.mp hmatch count hle kind hfirst
  | some found =>
    have hlongest := longest?_eq_some_iff.mp hmatch
    exact iff_of_true ⟨found.2, pos_of_longest hlongest, hlongest.le_length,
      isMatched_iff.mpr ⟨found.1, hlongest.firstMatch⟩⟩ rfl

theorem StartsToken.append {text : List Char} (hstarts : StartsToken text) (more : List Char) :
    StartsToken (text ++ more) := by
  obtain ⟨count, hpos, hle, hmatched⟩ := hstarts
  exact ⟨count, hpos, by rw [List.length_append]; omega, by rwa [List.take_append_of_le_length hle]⟩

/-! ### In front of a run -/

/-- The characters end with what closes a comment, string or char literal, or nothing more of the line is left. -/
def IsClosed (taken rest : List Char) : Prop :=
  (∃ inner, ∃ c ∈ ['/', '"', '\''], taken = inner ++ [c]) ∨ ∀ c ∈ rest.head?, c = '\n'

theorem IsClosed.cons {taken rest : List Char} (hclosed : IsClosed taken rest) (c : Char) : IsClosed (c :: taken) rest := by
  obtain ⟨inner, closer, hcloser, rfl⟩ | hline := hclosed
  · exact .inl ⟨c :: inner, closer, hcloser, rfl⟩
  · exact .inr hline

theorem isClosed_closer {c : Char} (hcloser : c ∈ ['/', '"', '\'']) (rest : List Char) : IsClosed [c] rest :=
  .inl ⟨[], c, hcloser, rfl⟩

theorem isClosed_nil (taken : List Char) : IsClosed taken [] := .inr (by simp)

theorem isClosed_toCommentCloser (text : List Char) :
    IsClosed (text.take (Extent.toCommentCloser text).length) (text.drop (Extent.toCommentCloser text).length) := by
  fun_induction Extent.toCommentCloser text with
  | case1 rest => exact (isClosed_closer (by decide) rest).cons '*'
  | case2 c rest hother ih => exact ih.cons c
  | case3 => exact isClosed_nil _

theorem isClosed_toLineEnd (text : List Char) :
    IsClosed (text.take (Extent.toLineEnd text)) (text.drop (Extent.toLineEnd text)) := by
  fun_induction Extent.toLineEnd text with
  | case1 rest ih => exact ((ih.cons '\n').cons '\r').cons '\\'
  | case2 c rest hother ih => exact (ih.cons c).cons '\\'
  | case3 rest => exact .inr fun c hmem => (Option.some.inj hmem).symm
  | case4 c rest _ _ _ ih => exact ih.cons c
  | case5 => exact isClosed_nil _

theorem isClosed_toQuote (text : List Char) :
    IsClosed (text.take (Extent.toQuote text).length) (text.drop (Extent.toQuote text).length) := by
  fun_induction Extent.toQuote text with
  | case1 c rest ih => exact (ih.cons c).cons '\\'
  | case2 rest => exact isClosed_closer (by decide) rest
  | case3 c rest _ _ ih => exact ih.cons c
  | case4 => exact isClosed_nil _

theorem isClosed_toSingleQuote (text : List Char) :
    IsClosed (text.take (Extent.toSingleQuote text).length) (text.drop (Extent.toSingleQuote text).length) := by
  fun_induction Extent.toSingleQuote text with
  | case1 rest ih => exact (ih.cons '"').cons '"'
  | case2 rest hother => exact isClosed_closer (by decide) rest
  | case3 c rest _ _ ih => exact ih.cons c
  | case4 => exact isClosed_nil _

theorem isClosed_toApostrophe (text : List Char) :
    IsClosed (text.take (Extent.toApostrophe text).length) (text.drop (Extent.toApostrophe text).length) := by
  fun_induction Extent.toApostrophe text with
  | case1 rest => exact isClosed_closer (by decide) rest
  | case2 rest => exact .inr fun c hmem => (Option.some.inj hmem).symm
  | case3 c rest _ _ ih => exact ih.cons c
  | case4 => exact isClosed_nil _

theorem isClosed_toTripleQuote? {text : List Char} {count : Nat} (hfound : Extent.toTripleQuote? text = some count) :
    IsClosed (text.take (count + 3)) (text.drop (count + 3)) := by
  fun_induction Extent.toTripleQuote? text generalizing count with
  | case1 rest =>
    obtain rfl := Option.some.inj hfound
    exact ((isClosed_closer (by decide) rest).cons '\'').cons '\''
  | case2 c rest hother ih =>
    obtain ⟨inner, hinner, rfl⟩ := Option.map_eq_some_iff.mp hfound
    exact (ih hinner).cons c
  | case3 => cases hfound

theorem isClosed_quotedInteger? {text : List Char} {length : Nat} (hfound : Extent.quotedInteger? text = some length) :
    IsClosed (text.take length) (text.drop length) := by
  rw [Extent.quotedInteger?.eq_def] at hfound
  split at hfound
  · next body =>
    split at hfound
    · next count hcount =>
      split at hfound
      · cases hfound
      · obtain rfl := Option.some.inj hfound
        exact (((isClosed_toTripleQuote? hcount).cons '\'').cons '\'').cons '\''
    · cases hfound
  · cases hfound

theorem isClosed_charLiteral (body : List Char) :
    IsClosed (('\'' :: body).take (Extent.charLiteral ('\'' :: body)).length)
      (('\'' :: body).drop (Extent.charLiteral ('\'' :: body)).length) := by
  rw [Extent.charLiteral.eq_def, List.drop_succ_cons, List.drop_zero]
  split
  · next c rest => exact (((isClosed_toApostrophe rest).cons c).cons '\\').cons '\''
  · exact (isClosed_toApostrophe body).cons '\''

/-- What an opener is extended to is closed. -/
theorem isClosed_resolve {matched : Kind} {length : Nat} {text : List Char} (hopener : matched.isOpener = true)
    (hlongest : Longest patterns text matched length) :
    IsClosed (text.take (resolve matched length text).2) (text.drop (resolve matched length text).2) := by
  have hmatch := hlongest.firstMatch
  cases matched with
  | blockCommentStart =>
    obtain ⟨rest, rfl⟩ := exists_of_opener (show patternsOf .blockCommentStart = [ofString "/*"] from rfl) hmatch
    exact ((isClosed_toCommentCloser rest).cons '*').cons '/'
  | lineCommentStart =>
    obtain ⟨rest, rfl⟩ := exists_of_opener (show patternsOf .lineCommentStart = [ofString "//"] from rfl) hmatch
    exact ((isClosed_toLineEnd rest).cons '/').cons '/'
  | stringStart =>
    obtain ⟨rest, rfl⟩ := exists_of_opener (show patternsOf .stringStart = [ofString "\""] from rfl) hmatch
    exact (isClosed_toQuote rest).cons '"'
  | verbatimStart =>
    obtain ⟨rest, rfl⟩ := exists_of_opener (show patternsOf .verbatimStart = [ofString "@\""] from rfl) hmatch
    exact ((isClosed_toSingleQuote rest).cons '"').cons '@'
  | charStart =>
    obtain ⟨rest, rfl⟩ := exists_of_opener (show patternsOf .charStart = [ofString "'"] from rfl) hmatch
    rw [resolve.eq_def]
    dsimp only
    split
    · next found hfound => exact isClosed_quotedInteger? hfound
    · exact isClosed_charLiteral rest
  | _ => cases hopener

theorem isNamePart_of_isIntegerPart {c : Char} (hpart : isIntegerPart c = true) : isNamePart c = true := by
  rw [isIntegerPart, Bool.or_eq_true, Bool.or_eq_true, beq_iff_eq, beq_iff_eq] at hpart
  have hrange {low high : Char} (hlow : low ≤ c) (hhigh : c ≤ high) {top : Char} (htop : high ≤ top) :
      inRange low top c = true := by
    rw [inRange, Bool.and_eq_true, decide_eq_true_eq, decide_eq_true_eq]
    exact ⟨hlow, Char.le_trans hhigh htop⟩
  rcases hpart with (hdigit | rfl) | rfl
  · obtain ⟨value, hvalue⟩ := Option.isSome_iff_exists.mp hdigit
    obtain ⟨hvalue, -⟩ := Option.filter_eq_some_iff.mp hvalue
    split at hvalue
    · next hdecimal => simp [isNamePart, isDecimal, hrange hdecimal.1 hdecimal.2 (Char.le_refl '9')]
    · split at hvalue
      · next hlower => simp [isNamePart, isNameStart, hrange hlower.1 hlower.2 (show 'f' ≤ 'z' by decide)]
      · split at hvalue
        · next hupper => simp [isNamePart, isNameStart, hrange hupper.1 hupper.2 (show 'F' ≤ 'Z' by decide)]
        · cases hvalue
  · decide
  · decide

/-- A character that one of the patterns matches is a token. -/
theorem startsToken_of_any {rules : List (Kind × Pattern)} (hrules : rules ⊆ patterns) {c : Char}
    (hany : (rules.any fun rule => (rule.2.derivative c).nullable) = true) : StartsToken [c] := by
  obtain ⟨rule, hmem, hnullable⟩ := List.any_eq_true.mp hany
  exact ⟨1, Nat.one_pos, Nat.le_refl 1, rule, hrules hmem, matches_derivative_iff.mp (nullable_iff.mp hnullable)⟩

theorem openPatterns_subset : openPatterns ⊆ patterns := List.filter_subset_self ..

theorem startsToken_of_isNamePart {c : Char} (hpart : isNamePart c = true) : StartsToken [c] := by
  have hall : ∀ n < 128, (!isNamePart (Char.ofNat n) ||
      openPatterns.any fun rule => (rule.2.derivative (Char.ofNat n)).nullable) = true := by
    decide
  have hchar := hall c.toNat (toNat_lt_of_isNamePart hpart)
  rw [Char.ofNat_toNat, hpart, Bool.not_true, Bool.false_or] at hchar
  exact startsToken_of_any openPatterns_subset hchar

/-- The last character of a token that is recognized by its pattern alone would be a token by itself, but in comments. -/
theorem startsToken_last {text : List Char} {kind : Kind} {c : Char} (hfirst : FirstMatch patterns text kind)
    (hcomment : kind ≠ .lineComment) (hlast : c ∈ text.getLast?) : StartsToken [c] := by
  have hmem := List.mem_of_getLast? hlast
  obtain ⟨pattern, hpattern, hmatches⟩ := hfirst.exists_mem
  by_cases hfixed : fixedTexts kind = []
  · obtain rfl | rfl | rfl | rfl | rfl : kind = _ ∨ kind = _ ∨ kind = _ ∨ kind = _ ∨ kind = _ :=
      @kind_of_open (kind, pattern) hfixed hpattern
    · obtain rfl := List.mem_singleton.mp (mem_patternsOf_of_mem hpattern)
      obtain ⟨d, rest, rfl, hstart⟩ := exists_head_of_seq_one hmatches
      exact startsToken_of_isNamePart (isNamePart_of_firstMatch hstart hfirst c hmem)
    · exact startsToken_of_isNamePart (isNamePart_of_isIntegerPart ((isIntegerPart_of_firstMatch hfirst).2 c hmem))
    · obtain ⟨whole, fraction, rfl, -, hfraction⟩ := exists_fraction_of_firstMatch hfirst
      obtain ⟨front, last, rfl, hdecimal⟩ := hfraction.ends
      rw [← List.cons_append, ← List.append_assoc, List.getLast?_concat] at hlast
      obtain rfl := Option.some.inj hlast
      exact startsToken_of_isNamePart (by rw [isNamePart, hdecimal, Bool.or_true])
    · have hall : ([' ', '\t', '\r', '\x0b', '\x0c'].all fun c =>
          openPatterns.any fun rule => (rule.2.derivative c).nullable) = true := by
        decide
      obtain rfl := List.mem_singleton.mp (mem_patternsOf_of_mem hpattern)
      have hblank := of_decide_eq_true ((forall_of_matches_some_one hmatches).2 c hmem)
      exact startsToken_of_any openPatterns_subset (List.all_eq_true.mp hall c hblank)
    · exact absurd rfl hcomment
  · have hall : ∀ kind ∈ Kind.all, ∀ fixed ∈ fixedTexts kind,
        fixed.toList.getLast?.all (fun c =>
          isNamePart c || patterns.any fun rule => (rule.2.derivative c).nullable) = true := by
      decide +kernel
    obtain ⟨fixed, hfixedMem, rfl⟩ := @eq_fixedText (kind, pattern) _ hfixed hpattern hmatches
    have hsome := hall kind (mem_all kind) fixed hfixedMem
    rw [hlast, Option.all_some, Bool.or_eq_true] at hsome
    exact hsome.elim startsToken_of_isNamePart (startsToken_of_any (List.Subset.refl _))

/-- A comment goes on with any other character of the line. -/
theorem firstMatch_lineComment_append {text : List Char} {c : Char} (hfirst : FirstMatch patterns text .lineComment)
    (hline : c ≠ '\n') : IsMatched (text ++ [c]) := by
  obtain ⟨pattern, hmem, hmatches⟩ := hfirst.exists_mem
  refine ⟨(.lineComment, pattern), hmem, ?_⟩
  obtain rfl := List.mem_singleton.mp (mem_patternsOf_of_mem hmem)
  obtain ⟨start, rest, rfl, hmark, hmany⟩ := matches_seq_iff.mp hmatches
  rw [List.append_assoc]
  refine .seq hmark (matches_many_one fun d hd => ?_)
  obtain hd | hd := List.mem_append.mp hd
  · exact forall_of_matches_many_one hmany d hd
  · rw [List.mem_singleton.mp hd]
    exact bne_iff_ne.mpr hline

theorem resolve_of_isOpener_eq_false {matched : Kind} {length : Nat} {text : List Char} (hplain : matched.isOpener = false) :
    resolve matched length text = (.token matched, length) := by
  cases matched with
  | blockCommentStart | lineCommentStart | stringStart | verbatimStart | charStart => exact nomatch hplain
  | _ => rfl

/-- A token that comes right before a run ends with a character that would be a token by itself. -/
theorem startsToken_getLast {text after : List Char} {form : LexemeForm}
    (hfirst : first (text ++ after) = (form, text.length)) (hform : form ≠ .unrecognized) (hne : after ≠ [])
    (hrun : ¬StartsToken after) {c : Char} (hlast : c ∈ text.getLast?) : StartsToken (c :: after) := by
  obtain ⟨d, more, rfl⟩ := List.exists_cons_of_ne_nil hne
  -- a line break would be a token
  have hline : d ≠ '\n' := by
    rintro rfl
    have hbreak : StartsToken ['\n'] := startsToken_of_any openPatterns_subset (by decide)
    exact hrun (hbreak.append more)
  suffices hsingle : StartsToken [c] from hsingle.append (d :: more)
  rw [first] at hfirst
  split at hfirst
  · next matched length hmatch =>
    have hlongest := longest?_eq_some_iff.mp hmatch
    cases hopener : matched.isOpener with
    | true =>
      have hclosed := isClosed_resolve hopener hlongest
      rw [hfirst, List.take_left, List.drop_left] at hclosed
      obtain ⟨inner, closer, hcloser, rfl⟩ | hbreak := hclosed
      · have hall : (['/', '"', '\''].all fun closer =>
            patterns.any fun rule => (rule.2.derivative closer).nullable) = true := by
          decide
        obtain rfl : closer = c := by simpa using hlast
        exact startsToken_of_any (List.Subset.refl _) (List.all_eq_true.mp hall closer hcloser)
      · exact absurd (hbreak d rfl) hline
    | false =>
      rw [resolve_of_isOpener_eq_false hopener] at hfirst
      obtain rfl : length = text.length := (Prod.mk.inj hfirst).2
      have hmatched := hlongest.firstMatch
      rw [List.take_left] at hmatched
      by_cases hcomment : matched = .lineComment
      · subst hcomment
        obtain ⟨other, hother⟩ := isMatched_iff.mp (firstMatch_lineComment_append hmatched hline)
        refine absurd hother ?_
        have hnot := hlongest.not_longer (text.length + 1) (Nat.lt_succ_self _) (by simp) other
        rwa [List.take_length_add_append] at hnot
      · exact startsToken_last hmatched hcomment hlast
  · exact absurd (Prod.mk.inj hfirst).1.symm hform

/-! ### The lexer -/

theorem cut_eq_cons {text after : List Char} {form : LexemeForm} (hne : text ≠ [])
    (hfirst : first (text ++ after) = (form, text.length)) : cut (text ++ after) = ⟨form, text⟩ :: cut after := by
  obtain ⟨lexeme, rest, hcut, hsplit, -, hlexeme⟩ := cut_eq_append (List.append_ne_nil_of_left_ne_nil hne after)
  rw [← hsplit, hfirst, Prod.mk.injEq] at hlexeme
  obtain ⟨htext, rfl⟩ := List.append_inj hsplit hlexeme.2
  rw [hcut, hlexeme.1, htext]

theorem unrecognizedLength_eq_length_iff {run after : List Char} : unrecognizedLength (run ++ after) = run.length ↔
    (∀ position < run.length, ¬StartsToken ((run ++ after).drop position)) ∧ (after ≠ [] → StartsToken after) := by
  induction run with
  | nil =>
    cases after with
    | nil => simp [unrecognizedLength]
    | cons c rest => simp [unrecognizedLength, startsToken_iff, Option.isSome_iff_ne_none]
  | cons c rest ih =>
    rw [List.cons_append, unrecognizedLength, List.length_cons]
    constructor
    · intro hlength
      split at hlength
      · exact absurd hlength.symm (Nat.succ_ne_zero _)
      · next hnone =>
        obtain ⟨hsilent, hends⟩ := ih.mp (Nat.succ.inj hlength)
        refine ⟨fun position hlt => ?_, hends⟩
        cases position with
        | zero => exact fun hstarts => hnone (startsToken_iff.mp hstarts)
        | succ position => exact hsilent position (Nat.lt_of_succ_lt_succ hlt)
    · rintro ⟨hsilent, hends⟩
      have hnone : ¬(match? (c :: (rest ++ after))).isSome = true :=
        fun hsome => hsilent 0 (Nat.succ_pos _) (startsToken_iff.mpr hsome)
      rw [if_neg hnone]
      exact congrArg (· + 1) (ih.mpr ⟨fun position hlt => hsilent (position + 1) (Nat.succ_lt_succ hlt), hends⟩)

theorem resolve_ne_unrecognized (matched : Kind) (length : Nat) (text : List Char) :
    (resolve matched length text).1 ≠ .unrecognized := by
  have hextended {opened : Kind} {closed : Bool} :
      (if closed = true then LexemeForm.token opened else .unterminated matched) ≠ .unrecognized := by
    cases closed <;> simp
  rw [resolve.eq_def]
  split
  · exact hextended
  · simp
  · exact hextended
  · exact hextended
  · split
    · simp
    · exact hextended
  · simp

theorem match?_of_unrecognized {text : List Char} (hfirst : (first text).1 = .unrecognized) : match? text = none := by
  rw [first] at hfirst
  split at hfirst
  · exact absurd hfirst (resolve_ne_unrecognized _ _ _)
  · next hnone => exact hnone

/-- The lexemes of a text with some text before it. What `resolve` adds to a match is the rest of a comment, string or
char literal behind its opener. -/
inductive Reads : List Char → List Char → List Lexeme → Prop
  | done {before : List Char} : Reads before [] []
  | token {before text after : List Char} {form : LexemeForm} {lexemes : List Lexeme} {kind : Kind} {length : Nat} :
      IsLongest (text ++ after) kind length → resolve kind length (text ++ after) = (form, text.length) →
      Reads (before ++ text) after lexemes → Reads before (text ++ after) (⟨form, text⟩ :: lexemes)
  | unrecognized {before run after : List Char} {lexemes : List Lexeme} :
      IsMaximalRun before run after → Reads (before ++ run) after lexemes →
      Reads before (run ++ after) (⟨.unrecognized, run⟩ :: lexemes)

/-- The lexer finds lexemes that the patterns ask for. -/
theorem reads_cut (before text : List Char)
    (hbefore : text ≠ [] → ¬StartsToken text → ∀ c ∈ before.getLast?, StartsToken (c :: text)) :
    Reads before text (cut text) := by
  induction hlength : text.length using Nat.strongRecOn generalizing before text with
  | ind length ih =>
    by_cases hnil : text = []
    · rw [hnil, cut]
      exact .done
    · obtain ⟨⟨form, start⟩, after, hcut, rfl, hne, hfirst⟩ := cut_eq_append hnil
      have hshorter : after.length < length := by
        have hpos := List.length_pos_iff.mpr hne
        rw [List.length_append] at hlength
        omega
      rw [hcut]
      by_cases hform : form = .unrecognized
      · subst hform
        have hnone := match?_of_unrecognized (congrArg Prod.fst hfirst)
        have hrun : unrecognizedLength (start ++ after) = start.length := by
          rw [first, hnone] at hfirst
          exact (Prod.mk.inj hfirst).2
        obtain ⟨hsilent, hends⟩ := unrecognizedLength_eq_length_iff.mp hrun
        have hquiet : ¬StartsToken (start ++ after) := by simp [startsToken_iff, hnone]
        refine .unrecognized ⟨hne, hsilent, hbefore hnil hquiet, hends⟩ (ih after.length hshorter _ after ?_ rfl)
        exact fun hmore hnot => absurd (hends hmore) hnot
      · have hrest : Reads (before ++ start) after (cut after) := by
          refine ih after.length hshorter _ after (fun hmore hnot c hmem => ?_) rfl
          rw [List.getLast?_append, List.getLast?_eq_some_getLast hne, Option.some_or] at hmem
          exact startsToken_getLast hfirst hform hmore hnot (List.getLast?_eq_some_getLast hne ▸ hmem)
        rw [first] at hfirst
        split at hfirst
        · next matched count hmatch =>
          exact .token (isLongest_iff.mpr (longest?_eq_some_iff.mp hmatch)) hfirst hrest
        · exact absurd (Prod.mk.inj hfirst).1.symm hform

/-- The patterns ask for no other lexemes. -/
theorem Reads.eq_cut {before text : List Char} {lexemes : List Lexeme} (hreads : Reads before text lexemes) :
    lexemes = cut text := by
  induction hreads with
  | done => rw [cut]
  | @token before text after form lexemes kind length hlongest hresolve _ ih =>
    have hmatch := longest?_eq_some_iff.mpr (isLongest_iff.mp hlongest)
    have hfirst : first (text ++ after) = (form, text.length) := by
      rw [first, match?, hmatch]
      exact hresolve
    have hne : text ≠ [] := by
      rintro rfl
      have hopened := (length_resolve (isLongest_iff.mp hlongest)).1
      rw [hresolve] at hopened
      exact absurd (pos_of_longest (isLongest_iff.mp hlongest)) (Nat.not_lt.mpr hopened)
    rw [cut_eq_cons hne hfirst, ih]
  | @unrecognized before run after lexemes hrun _ ih =>
    have hfirst : first (run ++ after) = (.unrecognized, run.length) := by
      have hquiet : ¬StartsToken (run ++ after) := hrun.silent 0 (List.length_pos_iff.mpr hrun.ne_nil)
      have hnone : match? (run ++ after) = none := by simpa [startsToken_iff] using hquiet
      rw [first, hnone, unrecognizedLength_eq_length_iff.mpr ⟨hrun.silent, hrun.ends⟩]
    rw [cut_eq_cons hrun.ne_nil hfirst, ih]

/-- No run of unrecognized characters is followed by another. -/
theorem Reads.apart {before text : List Char} {lexemes : List Lexeme} (hreads : Reads before text lexemes) :
    ∀ pair ∈ lexemes.zip lexemes.tail, pair.1.form = .unrecognized → pair.2.form ≠ .unrecognized := by
  induction hreads with
  | done => simp
  | @token before text after form lexemes kind length hlongest hresolve hrest ih =>
    have hform : form ≠ .unrecognized := fun heq =>
      resolve_ne_unrecognized kind length (text ++ after) (by rw [hresolve, heq])
    cases lexemes with
    | nil => simp
    | cons next others =>
      rw [List.tail_cons, List.zip_cons_cons, List.forall_mem_cons]
      exact ⟨fun heq => absurd heq hform, ih⟩
  | @unrecognized before run after lexemes hrun hrest ih =>
    cases lexemes with
    | nil => simp
    | cons next others =>
      rw [List.tail_cons, List.zip_cons_cons, List.forall_mem_cons]
      refine ⟨fun _ => ?_, ih⟩
      cases hrest with
      | token _ hresolve _ =>
        exact fun heq => resolve_ne_unrecognized _ _ _ (by rw [hresolve]; exact heq)
      | unrecognized hnext _ =>
        have hstarts := hrun.ends (List.append_ne_nil_of_left_ne_nil hnext.ne_nil _)
        exact absurd hstarts (hnext.silent 0 (List.length_pos_iff.mpr hnext.ne_nil))

end Lexeme

namespace Lexed

/-- The tokens of a source and the diagnostics about them are those of the lexemes that the patterns ask for: there is
one way to take the longest match at each point, a keyword rather than a name, and each run of characters at which no
pattern matches as a whole. -/
theorem eq_ofSource_iff (source : String) (lexed : Lexed) : lexed = ofSource source ↔
    ∃ lexemes, Lexeme.Reads [] source.toList lexemes ∧
      (∀ pair ∈ lexemes.zip lexemes.tail, pair.1.form = .unrecognized → pair.2.form ≠ .unrecognized) ∧
      lexed = ⟨(placed 0 lexemes).map (·.1), (placed 0 lexemes).filterMap (·.2)⟩ := by
  constructor
  · rintro rfl
    have hreads := Lexeme.reads_cut [] source.toList fun _ _ c hmem => nomatch hmem
    exact ⟨_, hreads, hreads.apart, rfl⟩
  · rintro ⟨lexemes, hreads, -, rfl⟩
    rw [hreads.eq_cut, ofSource]

end Lexed

end Squirrel
