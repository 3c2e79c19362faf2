import Squirrel.Proofs.Parse.Evaluation
import Squirrel.Proofs.Token.Extent
import Squirrel.Proofs.Token.Pattern

/-!
# What lexemes look like

A token that is recognized by its pattern alone has a text that the pattern matches; for a kind with a spelling that is
the spelling. Each token that is not garbage has a text that its decoder accepts.
-/

namespace Squirrel

namespace Lexeme

open Pattern

theorem mem_patterns {kind : Kind} {pattern : Pattern} (hmem : (kind, pattern) ∈ patterns) :
    kind.isRejected = false ∧ ∀ spelling, kind.spelling? = Option.some spelling → pattern = ofString spelling := by
  rw [patterns, List.mem_append] at hmem
  obtain hmem | hmem := hmem
  · obtain ⟨found, -, hfound⟩ := List.mem_filterMap.mp hmem
    obtain ⟨spelling, hspelling, hpair⟩ := Option.map_eq_some_iff.mp hfound
    obtain ⟨rfl, rfl⟩ := Prod.mk.inj hpair
    refine ⟨?_, fun other hother => ?_⟩
    · cases found with
      | garbage | error => exact nomatch hspelling
      | _ => rfl
    · rw [hspelling, Option.some.injEq] at hother
      rw [hother]
  · have hopen : ∀ kind ∈ [Kind.id, .integerLit, .floatLit, .whitespace, .newline, .lineComment, .blockCommentStart,
        .lineCommentStart, .stringStart, .verbatimStart, .charStart],
        kind.isRejected = false ∧ kind.spelling? = none := by decide
    have hkind := List.mem_map_of_mem (f := Prod.fst) hmem
    obtain ⟨haccepted, hnone⟩ := hopen kind (by simpa using hkind)
    exact ⟨haccepted, fun spelling hspelling => by simp [hnone] at hspelling⟩

theorem matches_of_spelling {kind : Kind} {spelling : String} {text : List Char}
    (hspelling : kind.spelling? = Option.some spelling) (hfirst : FirstMatch patterns text kind) :
    text = spelling.toList := by
  obtain ⟨pattern, hmem, hmatches⟩ := hfirst.exists_mem
  rw [(mem_patterns hmem).2 spelling hspelling] at hmatches
  exact matches_ofString_iff.mp hmatches

/-- The patterns of one kind. -/
def patternsOf (kind : Kind) : List Pattern := (patterns.filter (·.1 == kind)).map (·.2)

theorem mem_patternsOf {kind : Kind} {text : List Char} (hfirst : FirstMatch patterns text kind) :
    ∃ pattern ∈ patternsOf kind, Matches pattern text := by
  obtain ⟨pattern, hmem, hmatches⟩ := hfirst.exists_mem
  exact ⟨pattern, List.mem_map_of_mem (List.mem_filter.mpr ⟨hmem, beq_self_eq_true kind⟩), hmatches⟩

theorem head_of_floatLit {text : List Char} (hfirst : FirstMatch patterns text .floatLit) :
    ∃ c rest, text = c :: rest ∧ isDecimal c = true := by
  have hdigits : ∀ pattern ∈ patternsOf .floatLit, ∃ rest, pattern = seq (Pattern.some (one isDecimal)) rest := by
    intro pattern hmem
    obtain rfl | hmem := List.mem_cons.mp hmem
    · exact ⟨_, rfl⟩
    · obtain rfl := List.mem_singleton.mp hmem
      exact ⟨_, rfl⟩
  obtain ⟨pattern, hmem, hmatches⟩ := mem_patternsOf hfirst
  obtain ⟨tail, rfl⟩ := hdigits pattern hmem
  obtain ⟨digits, after, rfl, hdigits, -⟩ := matches_seq_iff.mp hmatches
  obtain ⟨first, others, rfl, hone, -⟩ := matches_seq_iff.mp hdigits
  obtain ⟨c, rfl, hc⟩ := matches_one_iff.mp hone
  exact ⟨c, others ++ after, rfl, hc⟩

theorem eq_of_verbatimStart {text : List Char} (hfirst : FirstMatch patterns text .verbatimStart) :
    text = ['@', '"'] := by
  obtain ⟨pattern, hmem, hmatches⟩ := mem_patternsOf hfirst
  obtain rfl := List.mem_singleton.mp hmem
  exact matches_ofString_iff.mp hmatches

/-! ### The first lexeme of a text -/

theorem not_firstMatch_nil (kind : Kind) : ¬FirstMatch patterns [] kind := by
  have hnone : (patterns.find? fun rule => rule.2.nullable).isNone = true := by decide
  rw [firstMatch_nil_iff, Option.isNone_iff_eq_none.mp hnone]
  nofun

/-- A token comes from the longest match, as it stands or as an opener. -/
theorem exists_longest {text : List Char} {kind : Kind} (hfirst : (first text).1 = .token kind) :
    ∃ matched length, Longest patterns text matched length ∧ first text = resolve matched length text := by
  rw [first] at hfirst ⊢
  split at hfirst
  · next matched length hmatch => exact ⟨matched, length, longest?_eq_some_iff.mp hmatch, rfl⟩
  · simp at hfirst

theorem resolve_token {matched kind : Kind} {length : Nat} {text : List Char}
    (hresolve : (resolve matched length text).1 = .token kind) :
    (kind = matched ∧ (resolve matched length text).2 = length) ∨
      (matched = .verbatimStart ∧ kind = .verbatimStringLit ∧ (Extent.verbatimString text).closed = true ∧
        (resolve matched length text).2 = (Extent.verbatimString text).length) ∨
      kind ∈ [.blockComment, .lineComment, .stringLit, .integerLit, .charLit] := by
  have hextended {opened : Kind} {extent : Extent} (hform : (if extent.closed = true then LexemeForm.token opened
      else .unterminated matched) = .token kind) : kind = opened ∧ extent.closed = true := by
    split at hform
    · next hclosed => exact ⟨(LexemeForm.token.inj hform).symm, hclosed⟩
    · simp at hform
  rw [resolve.eq_def] at hresolve ⊢
  split at hresolve
  · exact .inr (.inr (by simp [(hextended hresolve).1]))
  · exact .inr (.inr (by simp [(LexemeForm.token.inj hresolve).symm]))
  · exact .inr (.inr (by simp [(hextended hresolve).1]))
  · exact .inr (.inl ⟨rfl, (hextended hresolve).1, (hextended hresolve).2, rfl⟩)
  · split at hresolve
    · exact .inr (.inr (by simp [(LexemeForm.token.inj hresolve).symm]))
    · exact .inr (.inr (by simp [(hextended hresolve).1]))
  · exact .inl ⟨(LexemeForm.token.inj hresolve).symm, rfl⟩

/-- How a token is recognized: by its pattern alone, as a verbatim string, or as another token with an opener. -/
theorem token_of_first {text : List Char} {kind : Kind} (hfirst : (first text).1 = .token kind) :
    Longest patterns text kind (first text).2 ∨
      (kind = .verbatimStringLit ∧ ['@', '"'] <+: text ∧ (Extent.verbatimString text).closed = true ∧
        (first text).2 = (Extent.verbatimString text).length) ∨
      kind ∈ [.blockComment, .lineComment, .stringLit, .integerLit, .charLit] := by
  obtain ⟨matched, length, hlongest, hresolve⟩ := exists_longest hfirst
  rw [hresolve] at hfirst
  obtain ⟨rfl, hlength⟩ | ⟨rfl, hkind, hclosed, hlength⟩ | hother := resolve_token hfirst
  · exact .inl (by rwa [hresolve, hlength])
  · refine .inr (.inl ⟨hkind, ?_, hclosed, by rw [hresolve, hlength]⟩)
    have hopener := eq_of_verbatimStart hlongest.firstMatch
    exact hopener ▸ List.take_prefix length text
  · exact .inr (.inr hother)

theorem isRejected_of_first {text : List Char} {kind : Kind} (hfirst : (first text).1 = .token kind) :
    kind.isRejected = false := by
  obtain hlongest | ⟨rfl, -⟩ | hother := token_of_first hfirst
  · obtain ⟨pattern, hmem, -⟩ := hlongest.firstMatch.exists_mem
    exact (mem_patterns hmem).1
  · rfl
  · have haccepted : ∀ kind ∈ [Kind.blockComment, .lineComment, .stringLit, .integerLit, .charLit],
        kind.isRejected = false := by decide
    exact haccepted kind hother

/-- A token has at least one character. -/
theorem length_pos_of_first {text : List Char} {kind : Kind} (hfirst : (first text).1 = .token kind) :
    0 < (first text).2 := by
  obtain ⟨matched, length, hlongest, hresolve⟩ := exists_longest hfirst
  rw [hresolve, resolve.eq_def]
  split
  · exact Nat.succ_pos _
  · exact Nat.succ_pos _
  · exact Nat.succ_pos _
  · exact Nat.succ_pos _
  · split
    · next found hfound =>
      rw [Extent.quotedInteger?.eq_def] at hfound
      split at hfound
      · split at hfound
        · split at hfound
          · cases hfound
          · cases hfound
            exact Nat.succ_pos _
        · cases hfound
      · cases hfound
    · rw [Extent.charLiteral.eq_def]
      split
      · exact Nat.succ_pos _
      · exact Nat.succ_pos _
  · refine Nat.pos_of_ne_zero fun hzero => not_firstMatch_nil matched ?_
    have hmatch := hlongest.firstMatch
    rwa [show length = 0 from hzero] at hmatch

/-! ### The lexemes of a text -/

/-- A lexeme is the first one of some text. -/
theorem exists_first_of_mem_cut {text : List Char} {lexeme : Lexeme} (hmem : lexeme ∈ cut text) :
    ∃ c rest, lexeme = ⟨(first (c :: rest)).1, c :: rest.take ((first (c :: rest)).2 - 1)⟩ := by
  fun_induction cut text with
  | case1 => simp at hmem
  | case2 c rest form length hfirst ih =>
    obtain rfl | hmem := List.mem_cons.mp hmem
    · exact ⟨c, rest, by rw [hfirst]⟩
    · exact ih hmem

/-- A lexeme is the text that the first match takes. -/
theorem take_of_mem_cut {c : Char} {rest : List Char} {length : Nat} (hpos : 0 < length) :
    c :: rest.take (length - 1) = (c :: rest).take length := by
  obtain ⟨length, rfl⟩ := Nat.exists_eq_succ_of_ne_zero (Nat.ne_of_gt hpos)
  rfl

/-! ### Verbatim strings -/

theorem decodeVerbatim_of_closed {text : List Char} (hopener : ['@', '"'] <+: text)
    (hclosed : (Extent.verbatimString text).closed = true) :
    ∃ value, Literal.decodeVerbatim (String.ofList (text.take (Extent.verbatimString text).length)) = .ok value := by
  obtain ⟨body, rfl⟩ := hopener
  obtain ⟨inner, hinner⟩ := Extent.take_toSingleQuote (show (Extent.toSingleQuote body).closed = true from hclosed)
  have htake : (['@', '"'] ++ body).take (Extent.verbatimString (['@', '"'] ++ body)).length
      = '@' :: '"' :: (inner ++ ['"']) := by
    rw [← hinner]
    rfl
  rw [htake, Literal.decodeVerbatim, String.toList_ofList]
  simp

end Lexeme

/-! ### Well-written tokens -/

/-- A token whose text is what its kind asks for. -/
structure Leaf.WellWritten (leaf : Leaf) : Prop where
  accepted : leaf.kind.isRejected = false
  spelled : ∀ spelling, leaf.kind.spelling? = some spelling → leaf.text = spelling
  integer : leaf.kind = .integerLit → ∃ value, Literal.decodeInteger leaf.text = .ok value
  float : leaf.kind = .floatLit → ∃ value, Literal.decodeFloat leaf.text = .ok value
  unsigned : leaf.kind = .floatLit → ∃ c rest, leaf.text.toList = c :: rest ∧ Lexeme.isDecimal c = true
  string : leaf.kind = .stringLit → ∃ value, Literal.decodeString leaf.text = .ok value
  verbatim : leaf.kind = .verbatimStringLit → ∃ value, Literal.decodeVerbatim leaf.text = .ok value
  char : leaf.kind = .charLit → ∃ value, Literal.decodeChar leaf.text = .ok value

namespace Lexeme

open Pattern

theorem decodes {α : Type} {result : Except LiteralError α}
    (hnone : (match result with | .ok _ => none | .error error => some error) = none) :
    ∃ value, result = .ok value := by
  cases result with
  | ok value => exact ⟨value, rfl⟩
  | error error => simp at hnone

/-- What has a fault is garbage. -/
theorem fault?_of_kind_ne {lexeme : Lexeme} (hkind : lexeme.kind ≠ .garbage) : lexeme.fault? = none := by
  rw [Lexeme.kind] at hkind
  split at hkind
  · next hfault => exact hfault
  · exact absurd rfl hkind

/-- A lexeme without a fault is a token that its decoder accepts, and the first one of some text. -/
theorem exists_first_of_fault? {source : List Char} {lexeme : Lexeme} (hmem : lexeme ∈ cut source)
    (hfault : lexeme.fault? = none) : ∃ text length, first text = (.token lexeme.kind, length) ∧
      lexeme.text = text.take length ∧ literalError? lexeme.kind (String.ofList lexeme.text) = none := by
  obtain ⟨c, rest, hlexeme⟩ := exists_first_of_mem_cut hmem
  cases hform : lexeme.form with
  | unterminated opener => simp [fault?, hform] at hfault
  | unrecognized => simp [fault?, hform] at hfault
  | token kind =>
    have hkind : lexeme.kind = kind := by rw [Lexeme.kind, hfault, hform]
    have hfirst : (first (c :: rest)).1 = .token kind := by rw [← hform, hlexeme]
    have htake : c :: rest.take ((first (c :: rest)).2 - 1) = (c :: rest).take (first (c :: rest)).2 :=
      take_of_mem_cut (length_pos_of_first hfirst)
    refine ⟨c :: rest, (first (c :: rest)).2, Prod.ext (by rw [hfirst, hkind]) rfl, by rw [hlexeme, htake], ?_⟩
    rw [fault?, hform] at hfault
    rw [hkind]
    simpa using hfault

theorem wellWritten_of_mem_cut {source : List Char} {lexeme : Lexeme} (hmem : lexeme ∈ cut source)
    (hfault : lexeme.fault? = none) : Leaf.WellWritten ⟨lexeme.kind, String.ofList lexeme.text⟩ := by
  obtain ⟨text, length, hlexeme, htext, hnone⟩ := exists_first_of_fault? hmem hfault
  have hfirst := congrArg Prod.fst hlexeme
  have hlength := congrArg Prod.snd hlexeme
  generalize lexeme.kind = kind at *
  have hcases := token_of_first hfirst
  -- the text of a token that its pattern recognizes is what the pattern matches
  have hmatched (hlongest : Longest patterns text kind (first text).2) : FirstMatch patterns lexeme.text kind := by
    rw [htext, ← show (first text).2 = length from hlength]
    exact hlongest.firstMatch
  have hother : ∀ other ∈ [Kind.blockComment, .lineComment, .stringLit, .integerLit, .charLit],
      other.spelling? = none ∧ other ≠ .floatLit ∧ other ≠ .verbatimStringLit := by decide
  refine ⟨isRejected_of_first hfirst, fun spelling hspelling => ?_, ?_, ?_, ?_, ?_, ?_, ?_⟩
  · obtain hlongest | ⟨rfl, -⟩ | hmem := hcases
    · rw [matches_of_spelling hspelling (hmatched hlongest), String.ofList_toList]
    · exact nomatch hspelling
    · rw [(hother kind hmem).1] at hspelling
      exact nomatch hspelling
  · rintro rfl
    exact decodes hnone
  · rintro rfl
    exact decodes hnone
  · rintro rfl
    obtain hlongest | ⟨hkind, -⟩ | hmem := hcases
    · rw [String.toList_ofList]
      exact head_of_floatLit (hmatched hlongest)
    · exact nomatch hkind
    · exact absurd rfl (hother _ hmem).2.1
  · rintro rfl
    exact decodes hnone
  · rintro rfl
    obtain hlongest | ⟨-, hopener, hclosed, hextent⟩ | hmem := hcases
    · obtain ⟨pattern, hmem, -⟩ := mem_patternsOf hlongest.firstMatch
      exact nomatch hmem
    · rw [htext, show length = (Extent.verbatimString text).length from hlength.symm.trans hextent]
      exact decodeVerbatim_of_closed hopener hclosed
    · exact absurd rfl (hother _ hmem).2.2
  · rintro rfl
    exact decodes hnone

end Lexeme

namespace Lexed

theorem mem_placed {offset : Nat} {lexemes : List Lexeme} {piece : Token × Option Diagnostic}
    (hmem : piece ∈ placed offset lexemes) : ∃ lexeme ∈ lexemes, ∃ start, piece = place start lexeme := by
  induction lexemes generalizing offset with
  | nil => simp [placed] at hmem
  | cons lexeme rest ih =>
    obtain rfl | hmem := List.mem_cons.mp hmem
    · exact ⟨lexeme, List.mem_cons_self, offset, rfl⟩
    · obtain ⟨other, hother, hpiece⟩ := ih hmem
      exact ⟨other, List.mem_cons_of_mem _ hother, hpiece⟩

/-- Where nothing is wrong with the tokens of a source, each of them is a lexeme without a fault. -/
theorem exists_lexeme_of_mem_tokens {source : String} (hnone : (ofSource source).diagnostics = []) {token : Token}
    (hmem : token ∈ (ofSource source).tokens) : ∃ lexeme ∈ Lexeme.cut source.toList, lexeme.fault? = none ∧
      (⟨token.kind, token.text⟩ : Leaf) = ⟨lexeme.kind, String.ofList lexeme.text⟩ := by
  obtain ⟨piece, hpiece, rfl⟩ := List.mem_map.mp hmem
  obtain ⟨lexeme, hlexeme, start, rfl⟩ := mem_placed hpiece
  refine ⟨lexeme, hlexeme, ?_, rfl⟩
  have hquiet := List.filterMap_eq_nil_iff.mp hnone _ hpiece
  cases hfault : lexeme.fault? with
  | none => rfl
  | some fault => simp [place, hfault] at hquiet

theorem wellWritten_of_mem_tokens {source : String} (hnone : (ofSource source).diagnostics = []) {token : Token}
    (hmem : token ∈ (ofSource source).tokens) : Leaf.WellWritten ⟨token.kind, token.text⟩ := by
  obtain ⟨lexeme, hlexeme, hfault, hleaf⟩ := exists_lexeme_of_mem_tokens hnone hmem
  exact hleaf ▸ Lexeme.wellWritten_of_mem_cut hlexeme hfault

end Lexed

end Squirrel
