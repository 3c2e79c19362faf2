import Squirrel.Proofs.Token.Alone

/-!
# Tokens in front of a closer

A closing bracket or brace ends every lexeme in front of it: no lexeme that starts before it goes on behind it but a comment,
which would have taken in the closer in any case. So what stands in front of a closer is cut into the same tokens whatever
follows the closer, and likewise in front of any other text that ends the lexemes before it.
-/

namespace Squirrel

/-! ### Patterns without a character -/

/-- The character is in no text that the pattern matches, as far as the parts of the pattern tell. -/
def Pattern.avoids (c : Char) : Pattern → Bool
  | never | empty => true
  | one allowed => !allowed c
  | seq first second | alt first second => first.avoids c && second.avoids c
  | many inner => inner.avoids c

theorem Pattern.not_mem_of_avoids {pattern : Pattern} {c : Char} {text : List Char} (havoids : pattern.avoids c = true)
    (hmatches : Matches pattern text) : c ∉ text := by
  induction hmatches with
  | empty | done => exact List.not_mem_nil
  | one hallowed =>
    rintro hmem
    obtain rfl := List.mem_singleton.mp hmem
    rw [avoids, hallowed] at havoids
    cases havoids
  | seq _ _ ihfirst ihsecond =>
    obtain ⟨hfirst, hsecond⟩ := Bool.and_eq_true_iff.mp havoids
    exact fun hmem => (List.mem_append.mp hmem).elim (ihfirst hfirst) (ihsecond hsecond)
  | left _ ih => exact ih (Bool.and_eq_true_iff.mp havoids).1
  | right _ ih => exact ih (Bool.and_eq_true_iff.mp havoids).2
  | again _ _ ihfirst ihrest =>
    exact fun hmem => (List.mem_append.mp hmem).elim (ihfirst havoids) (ihrest havoids)

/-! ### Ends of comments and strings -/

namespace Extent

variable {text front rest : List Char} {length : Nat} {c : Char}

theorem two_le_of_toCommentCloser (hclosed : toCommentCloser text = ⟨length, true⟩) : 2 ≤ length := by
  fun_induction toCommentCloser text generalizing length with
  | case1 rest =>
    obtain ⟨rfl, -⟩ := Extent.mk.inj hclosed
    exact Nat.le_refl 2
  | case2 c rest _ ih =>
    obtain ⟨found, rfl, hrest⟩ := past_eq_iff.mp hclosed
    exact Nat.le_succ_of_le (ih hrest)
  | case3 => cases hclosed

/-- What closes a comment is found whatever stands behind it. -/
theorem toCommentCloser_take (hclosed : toCommentCloser text = ⟨length, true⟩) (more : List Char) :
    toCommentCloser (text.take length ++ more) = ⟨length, true⟩ := by
  fun_induction toCommentCloser text generalizing length with
  | case1 rest =>
    obtain ⟨rfl, -⟩ := Extent.mk.inj hclosed
    rfl
  | case2 c rest hother ih =>
    obtain ⟨found, rfl, hrest⟩ := past_eq_iff.mp hclosed
    rw [List.take_succ_cons, List.cons_append, toCommentCloser.eq_2, ih hrest]
    · rfl
    · rintro others rfl heq
      have hpos := two_le_of_toCommentCloser hrest
      obtain ⟨found, rfl⟩ := Nat.exists_eq_add_of_lt hpos
      cases rest with
      | nil => cases hrest
      | cons d tail =>
        rw [List.take_succ_cons, List.cons_append] at heq
        obtain ⟨rfl, -⟩ := List.cons.inj heq
        exact hother tail rfl rfl
  | case3 => cases hclosed

/-- A line that ends in front of some characters ends at a line break, whatever follows the break. -/
theorem toLineEnd_next (hends : toLineEnd (front ++ c :: rest) = front.length) :
    c = '\n' ∧ ∀ other, toLineEnd (front ++ c :: other) = front.length := by
  generalize htext : front ++ c :: rest = text at hends
  fun_induction toLineEnd text generalizing front with
  | case1 others ih =>
    obtain ⟨front, rfl⟩ : ∃ tail, front = '\\' :: '\r' :: '\n' :: tail := by
      obtain _ | ⟨_, _ | ⟨_, _ | ⟨_, tail⟩⟩⟩ := front
      · simp at hends
      · simp at hends
      · simp at hends
      · simp only [List.cons_append, List.cons.injEq] at htext
        obtain ⟨rfl, rfl, rfl, -⟩ := htext
        exact ⟨tail, rfl⟩
    simp only [List.cons_append, List.cons.injEq, true_and] at htext
    obtain ⟨rfl, hother⟩ := ih htext (by simpa using hends)
    exact ⟨rfl, fun other => congrArg (· + 3) (hother other)⟩
  | case2 d others hpair ih =>
    obtain ⟨front, rfl⟩ : ∃ tail, front = '\\' :: d :: tail := by
      obtain _ | ⟨_, _ | ⟨_, tail⟩⟩ := front
      · simp at hends
      · simp at hends
      · simp only [List.cons_append, List.cons.injEq] at htext
        obtain ⟨rfl, rfl, -⟩ := htext
        exact ⟨tail, rfl⟩
    simp only [List.cons_append, List.cons.injEq, true_and] at htext
    obtain ⟨rfl, hother⟩ := ih htext (by simpa using hends)
    refine ⟨rfl, fun other => ?_⟩
    rw [List.cons_append, List.cons_append, toLineEnd.eq_2, hother other]
    · rfl
    · intro more hreturn heq
      cases front with
      | nil => exact hpair rest hreturn htext.symm
      | cons e front =>
        obtain ⟨rfl, -⟩ := List.cons.inj heq
        exact hpair _ hreturn htext.symm
  | case3 others =>
    obtain rfl := List.eq_nil_of_length_eq_zero hends.symm
    obtain ⟨rfl, -⟩ := List.cons.inj htext
    exact ⟨rfl, fun _ => rfl⟩
  | case4 d others hpair hescape hline ih =>
    obtain ⟨front, rfl⟩ : ∃ tail, front = d :: tail := by
      obtain _ | ⟨_, tail⟩ := front
      · simp at hends
      · obtain ⟨rfl, -⟩ := List.cons.inj htext
        exact ⟨tail, rfl⟩
    simp only [List.cons_append, List.cons.injEq, true_and] at htext
    obtain ⟨rfl, hother⟩ := ih htext (by simpa using hends)
    refine ⟨rfl, fun other => ?_⟩
    have hslash : d ≠ '\\' := by
      rintro rfl
      obtain ⟨e, tail, rfl⟩ : ∃ e tail, others = e :: tail := by
        rw [← htext]
        cases front <;> exact ⟨_, _, rfl⟩
      exact hescape e tail rfl rfl
    rw [List.cons_append, toLineEnd.eq_4 _ _ (by simp [hslash]) (by simp [hslash]) hline, hother other]
    rfl
  | case5 => exact absurd htext.symm (by simp)

/-- A verbatim string does not end in front of another quote. -/
theorem ne_of_toSingleQuote (hends : toSingleQuote (front ++ c :: rest) = ⟨front.length, true⟩) : c ≠ '"' := by
  generalize htext : front ++ c :: rest = text at hends
  fun_induction toSingleQuote text generalizing front with
  | case1 others ih =>
    obtain ⟨found, hlength, hrest⟩ := past_eq_iff.mp hends
    obtain _ | ⟨_, _ | ⟨_, tail⟩⟩ := front
    · simp at hlength
    · simp at hlength
    · simp only [List.cons_append, List.cons.injEq] at htext
      obtain rfl : tail.length = found := by simpa using hlength
      exact ih htext.2.2 hrest
  | case2 others hpair =>
    obtain ⟨hlength, -⟩ := Extent.mk.inj hends
    obtain ⟨d, rfl⟩ := List.length_eq_one_iff.mp hlength.symm
    obtain ⟨-, rfl⟩ := List.cons.inj htext
    rintro rfl
    exact hpair rest rfl
  | case3 d others _ _ ih =>
    obtain ⟨found, hlength, hrest⟩ := past_eq_iff.mp hends
    obtain _ | ⟨_, tail⟩ := front
    · simp at hlength
    · obtain ⟨-, htext⟩ := List.cons.inj htext
      obtain rfl : tail.length = found := by simpa using hlength
      exact ih htext hrest
  | case4 => cases (Extent.mk.inj hends).2

end Extent

/-! ### The first token of a text -/

namespace Lexeme

open Pattern

variable {text more old new : List Char} {kind matched : Kind} {count : Nat} {c : Char}

/-- The characters that no lexeme goes on behind. -/
def closers : List Char := [']', '}']

/-- A part of a line comment that starts where the comment does is one. -/
theorem isMatched_of_lineComment {pattern : Pattern} (htext : text ≠ []) (hmem : pattern ∈ patternsOf .lineComment)
    (hmatches : Matches pattern (text ++ more)) : IsMatched text := by
  obtain rfl := List.mem_singleton.mp hmem
  obtain ⟨c, front, rfl⟩ := List.exists_cons_of_ne_nil htext
  obtain ⟨start, rest, heq, hmark, hmany⟩ := matches_seq_iff.mp hmatches
  obtain ⟨mark, rfl, -⟩ := matches_one_iff.mp hmark
  obtain ⟨rfl, rfl⟩ := List.cons.inj heq
  have hrule : (Kind.lineComment, seq (one (· == '#')) (many (one (· != '\n')))) ∈ patterns := by simp [patterns]
  exact ⟨_, hrule, .seq hmark (matches_many_one fun d hd =>
    forall_of_matches_many_one hmany d (List.mem_append_left more hd))⟩

/-- What a pattern matches past a closer that does not stand first is a comment, and one up to the closer as well. -/
theorem isMatched_of_past (hcloser : c ∈ closers) (htext : text ≠ []) (hmore : more ≠ [])
    (hmatched : IsMatched (text ++ c :: more)) : IsMatched (text ++ [c]) := by
  obtain ⟨⟨kind, pattern⟩, hmem, hmatches⟩ := hmatched
  have hpattern := mem_patternsOf_of_mem hmem
  by_cases hfixed : fixedTexts kind = []
  · have hall : ∀ kind ∈ [Kind.id, .integerLit, .floatLit, .whitespace], ∀ pattern ∈ patternsOf kind,
        closers.all (avoids · pattern) = true := by
      decide
    have hnot (hkind : kind ∈ [Kind.id, .integerLit, .floatLit, .whitespace]) : IsMatched (text ++ [c]) :=
      absurd (by simp) (not_mem_of_avoids (List.all_eq_true.mp (hall kind hkind pattern hpattern) c hcloser) hmatches)
    obtain rfl | rfl | rfl | rfl | rfl : kind = _ ∨ kind = _ ∨ kind = _ ∨ kind = _ ∨ kind = _ :=
      @kind_of_open (kind, pattern) hfixed hmem
    · exact hnot (by simp)
    · exact hnot (by simp)
    · exact hnot (by simp)
    · exact hnot (by simp)
    · rw [← List.singleton_append, ← List.append_assoc] at hmatches
      exact isMatched_of_lineComment (by simp) hpattern hmatches
  · have hall : ∀ kind ∈ Kind.all, ∀ fixed ∈ fixedTexts kind,
        closers.all (fun c => !fixed.toList.tail.dropLast.contains c) = true := by
      decide +kernel
    obtain ⟨fixed, hmemFixed, hfixedText⟩ := @eq_fixedText (kind, pattern) _ hfixed hmem hmatches
    have houtside := List.all_eq_true.mp (hall kind (mem_all kind) fixed hmemFixed) c hcloser
    rw [Bool.not_eq_true', List.contains_eq_mem, decide_eq_false_iff_not] at houtside
    refine absurd ?_ houtside
    obtain ⟨d, front, rfl⟩ := List.exists_cons_of_ne_nil htext
    obtain ⟨back, last, rfl⟩ := List.eq_nil_or_concat more |>.resolve_left hmore
    have hlast : (d :: front) ++ c :: (back.concat last) = d :: (front ++ c :: back ++ [last]) := by simp
    rw [← hfixedText, hlast, List.tail_cons, List.dropLast_concat]
    simp

/-- No lexeme that starts before the text goes on behind it, unless one ends with it as well. -/
def Shuts (text after : List Char) : Prop :=
  ∀ front more, front ≠ [] → more ≠ [] → more <+: after → IsMatched (front ++ text ++ more) → IsMatched (front ++ text)

theorem shuts_closer (hcloser : c ∈ closers) (after : List Char) : Shuts [c] after := by
  intro front more hfront hmore _ hmatched
  rw [List.append_assoc] at hmatched
  exact isMatched_of_past hcloser hfront hmore hmatched

/-- The longest match stays the longest one in front of other text if no longer one ends in that text alone. -/
theorem longest_past (hcount : count < text.length)
    (hpast : ∀ more, more ≠ [] → more <+: new → IsMatched (text ++ more) → IsMatched text)
    (hlongest : Longest patterns (text ++ old) matched count) : Longest patterns (text ++ new) matched count := by
  have htake {longer : Nat} (hle : longer ≤ text.length) (rest : List Char) :
      (text ++ rest).take longer = text.take longer := List.take_append_of_le_length hle
  refine ⟨?_, ?_, fun longer hlt hle other hother => ?_⟩
  · rw [List.length_append]
    omega
  · rw [htake (Nat.le_of_lt hcount), ← htake (Nat.le_of_lt hcount) old]
    exact hlongest.firstMatch
  · obtain hlong | hshort := Nat.lt_or_ge text.length longer
    · -- a match past the text leaves one of the text, which was longer in front of the old text as well
      obtain ⟨extra, rfl⟩ := Nat.exists_eq_add_of_lt hlong
      rw [Nat.add_assoc, List.take_length_add_append] at hother
      rw [List.length_append] at hle
      have hnew : new.take (extra + 1) ≠ [] := by
        rintro hnil
        rw [List.take_eq_nil_iff] at hnil
        obtain hzero | rfl := hnil
        · omega
        · rw [List.length_nil] at hle
          omega
      obtain ⟨found, hfound⟩ := isMatched_iff.mp
        (hpast _ hnew (List.take_prefix ..) (isMatched_iff.mpr ⟨other, hother⟩))
      refine hlongest.not_longer text.length hcount ?_ found (by rwa [List.take_left])
      rw [List.length_append]
      exact Nat.le_add_right ..
    · rw [htake hshort, ← htake hshort old] at hother
      refine hlongest.not_longer longer hlt ?_ other hother
      rw [List.length_append]
      omega

/-- A text that reaches past an opener starts with it. -/
theorem exists_body {opener rest tail : List Char} (heq : text ++ tail = opener ++ rest) (hle : opener.length ≤ text.length) :
    ∃ body, text = opener ++ body ∧ rest = body ++ tail := by
  obtain ⟨body, hbody⟩ : opener <+: text :=
    List.prefix_of_prefix_length_le (heq ▸ List.prefix_append opener rest) (List.prefix_append text tail) hle
  refine ⟨body, hbody.symm, ?_⟩
  rw [← hbody, List.append_assoc] at heq
  exact (List.append_cancel_left heq).symm

/-- What an opener is extended to in front of a character does not depend on what follows the character. -/
theorem resolve_next (hlongest : Longest patterns (text ++ c :: old) matched count)
    (hresolve : resolve matched count (text ++ c :: old) = (.token kind, text.length))
    (hsound : literalError? kind (String.ofList text) = none) :
    resolve matched count (text ++ c :: new) = (.token kind, text.length) := by
  have hmatch := hlongest.firstMatch
  -- the text starts with the opener, for the token is no shorter than the opener
  have hbody {opener : String} (hpatterns : patternsOf matched = [ofString opener]) :
      ∃ body, text = opener.toList ++ body := by
    obtain ⟨rest, hrest⟩ := exists_of_opener hpatterns hmatch
    obtain ⟨pattern, hmem, hmatches⟩ := mem_patternsOf hmatch
    rw [hpatterns] at hmem
    obtain rfl := List.mem_singleton.mp hmem
    have hopener := congrArg List.length (matches_ofString_iff.mp hmatches)
    have hle := (length_resolve hlongest).1
    rw [hresolve] at hle
    rw [List.length_take, Nat.min_eq_left hlongest.le_length] at hopener
    obtain ⟨body, hbody, -⟩ := exists_body hrest (hopener ▸ hle)
    exact ⟨body, hbody⟩
  cases hopener : matched.isOpener with
  | false =>
    rw [resolve_of_isOpener_eq_false hopener] at hresolve ⊢
    exact hresolve
  | true =>
    cases matched with
    | blockCommentStart =>
      obtain ⟨body, rfl⟩ := hbody (show patternsOf .blockCommentStart = [ofString "/*"] from rfl)
      obtain ⟨rfl, hclosed⟩ := closed_of_extended hresolve
      obtain ⟨found, hlength, hinner⟩ := Extent.past_eq_iff.mp hclosed
      obtain rfl : body.length = found := by simpa using hlength
      have hold : Extent.toCommentCloser (body ++ c :: old) = ⟨body.length, true⟩ := hinner
      have hnew := Extent.toCommentCloser_take hold (c :: new)
      rw [List.take_left] at hnew
      exact congrArg (fun extent : Extent => ((if extent.closed = true then LexemeForm.token .blockComment
        else .unterminated .blockCommentStart), extent.length + 2)) hnew
    | lineCommentStart =>
      obtain ⟨body, rfl⟩ := hbody (show patternsOf .lineCommentStart = [ofString "//"] from rfl)
      obtain ⟨hform, hlength⟩ := Prod.mk.inj hresolve
      obtain rfl := LexemeForm.token.inj hform
      have hold : Extent.toLineEnd (body ++ c :: old) = body.length := Nat.add_right_cancel hlength
      exact congrArg (fun count => (LexemeForm.token .lineComment, count + 2)) ((Extent.toLineEnd_next hold).2 new)
    | stringStart =>
      obtain ⟨body, rfl⟩ := hbody (show patternsOf .stringStart = [ofString "\""] from rfl)
      obtain ⟨rfl, hclosed⟩ := closed_of_extended hresolve
      obtain ⟨found, hlength, hinner⟩ := Extent.past_eq_iff.mp hclosed
      obtain rfl : body.length = found := by simpa using hlength
      have hold : Extent.toQuote (body ++ c :: old) = ⟨body.length, true⟩ := hinner
      have hnew := (Extent.toQuote_take hold (c :: new)).2
      rw [List.take_left] at hnew
      exact congrArg (fun extent : Extent => ((if extent.closed = true then LexemeForm.token .stringLit
        else .unterminated .stringStart), extent.length + 1)) hnew
    | verbatimStart =>
      obtain ⟨body, rfl⟩ := hbody (show patternsOf .verbatimStart = [ofString "@\""] from rfl)
      obtain ⟨rfl, hclosed⟩ := closed_of_extended hresolve
      obtain ⟨found, hlength, hinner⟩ := Extent.past_eq_iff.mp hclosed
      obtain rfl : body.length = found := by simpa using hlength
      have hold : Extent.toSingleQuote (body ++ c :: old) = ⟨body.length, true⟩ := hinner
      have hquote : ∀ d ∈ (c :: new).head?, d ≠ '"' := by
        rintro d ⟨rfl⟩
        exact Extent.ne_of_toSingleQuote hold
      have hnew := (Extent.toSingleQuote_take hold hquote).2
      rw [List.take_left] at hnew
      exact congrArg (fun extent : Extent => ((if extent.closed = true then LexemeForm.token .verbatimStringLit
        else .unterminated .verbatimStart), extent.length + 2)) hnew
    | charStart =>
      obtain ⟨body, rfl⟩ := hbody (show patternsOf .charStart = [ofString "'"] from rfl)
      rw [resolve.eq_def] at hresolve
      dsimp only at hresolve
      split at hresolve
      · next found hfound =>
        obtain ⟨hform, rfl⟩ := Prod.mk.inj hresolve
        have hnew := (Extent.quotedInteger?_take hfound (c :: new)).2
        rw [List.take_left] at hnew
        simp only [resolve, hnew, hform]
      · obtain ⟨rfl, hclosed⟩ := closed_of_extended hresolve
        have hchar : Extent.charLiteral ('\'' :: (body ++ c :: old)) = ⟨('\'' :: body).length, true⟩ := hclosed
        have htext : ('\'' :: (body ++ c :: old)).take ('\'' :: body).length = '\'' :: body := List.take_left
        have hnew := (Extent.charLiteral_take hchar (c :: new)).2
        have hplain := quotedInteger?_of_charLiteral hchar (by rw [htext]; exact hsound) (c :: new)
        rw [htext] at hnew hplain
        have hsplit : "'".toList ++ body ++ c :: new = '\'' :: body ++ c :: new := rfl
        simp only [hsplit, resolve, hplain, hnew]
        rfl
    | _ => cases hopener

end Lexeme

/-! ### Rows of tokens -/

namespace Leaf

open Lexeme

variable {leaf : Leaf} {leaves : List Leaf} {more old new : List Char} {c : Char}

theorem Apart.of_append {left right : List Leaf} {after : List Char} (hapart : Apart (left ++ right) after) :
    Apart left (chars right ++ after) ∧ Apart right after := by
  induction left with
  | nil => exact ⟨trivial, hapart⟩
  | cons leaf rest ih =>
    obtain ⟨hleaf, hrest⟩ : leaf.StandsBefore (chars (rest ++ right) ++ after) ∧ Apart (rest ++ right) after := hapart
    obtain ⟨hfirst, hlast⟩ := ih hrest
    rw [chars_append, List.append_assoc] at hleaf
    exact ⟨⟨hleaf, hfirst⟩, hlast⟩

/-- A token in front of a text that no lexeme goes on behind stays that token, whatever follows. -/
theorem StandsBefore.past {last : List Char} (hstands : leaf.StandsBefore (more ++ last ++ old)) (hlast : last ≠ [])
    (hshuts : Shuts last new) : leaf.StandsBefore (more ++ last ++ new) := by
  refine ⟨hstands.nonempty, ?_, hstands.sound⟩
  have hfirst := hstands.first
  obtain ⟨matched, count, hlongest, hresolve⟩ := exists_longest (congrArg Prod.fst hfirst)
  rw [hfirst] at hresolve
  have hcount : count ≤ leaf.text.toList.length := by
    have hle := (length_resolve hlongest).1
    rwa [← hresolve] at hle
  have hnew : Pattern.Longest patterns (leaf.text.toList ++ (more ++ last ++ new)) matched count := by
    rw [← List.append_assoc] at hlongest ⊢
    refine longest_past ?_ (fun behind hbehind hstarts hmatched => ?_) hlongest
    · have hpos := List.length_pos_iff.mpr hlast
      simp only [List.length_append]
      omega
    · rw [← List.append_assoc] at hmatched ⊢
      exact hshuts _ behind (by simp [hstands.nonempty]) hbehind hstarts hmatched
  have hsound : literalError? leaf.kind (String.ofList leaf.text.toList) = none := by
    rw [String.ofList_toList]
    exact hstands.sound
  have hextent :
      resolve matched count (leaf.text.toList ++ (more ++ last ++ new)) = (.token leaf.kind, leaf.text.toList.length) := by
    obtain ⟨c, rest, hcons⟩ := List.exists_cons_of_ne_nil (List.append_ne_nil_of_right_ne_nil more hlast)
    rw [hcons] at hlongest hresolve ⊢
    exact resolve_next hlongest hresolve.symm hsound
  rw [Lexeme.first, match?, Pattern.longest?_eq_some_iff.mpr hnew]
  exact hextent

/-- Tokens in front of such a text stay these tokens, whatever follows it. -/
theorem Apart.past {last : Leaf} (hapart : Apart (leaves ++ [last]) old) (hshuts : Shuts last.text.toList new)
    (hstands : last.StandsBefore new) : Apart (leaves ++ [last]) new := by
  induction leaves with
  | nil => exact ⟨by simpa using hstands, trivial⟩
  | cons leaf rest ih =>
    obtain ⟨hleaf, hrest⟩ : leaf.StandsBefore (chars (rest ++ [last]) ++ old) ∧ Apart (rest ++ [last]) old := hapart
    have hchars : chars (rest ++ [last]) = chars rest ++ last.text.toList := by simp
    rw [hchars] at hleaf
    refine ⟨?_, ih hrest⟩
    show leaf.StandsBefore (chars (rest ++ [last]) ++ new)
    rw [hchars]
    exact hleaf.past hstands.nonempty hshuts

end Leaf

/-- The leaf of a lexeme without a fault. -/
def Lexeme.leaf (lexeme : Lexeme) : Leaf := ⟨lexeme.kind, String.ofList lexeme.text⟩

theorem Lexeme.apart_of_cut {text : List Char} {lexemes : List Lexeme} (hcut : cut text = lexemes)
    (hsound : ∀ lexeme ∈ lexemes, lexeme.fault? = none) :
    Leaf.chars (lexemes.map leaf) = text ∧ Leaf.Apart (lexemes.map leaf) [] := by
  induction lexemes generalizing text with
  | nil =>
    by_cases hnil : text = []
    · exact ⟨hnil.symm, trivial⟩
    · obtain ⟨_, _, hcons, -⟩ := cut_eq_append hnil
      cases hcut.symm.trans hcons
  | cons lexeme rest ih =>
    by_cases hnil : text = []
    · rw [hnil, cut] at hcut
      cases hcut
    · obtain ⟨found, after, hcons, rfl, hnonempty, hfirst⟩ := cut_eq_append hnil
      obtain ⟨rfl, hrest⟩ := List.cons.inj (hcons.symm.trans hcut)
      obtain ⟨hfault, hsound⟩ := List.forall_mem_cons.mp hsound
      obtain ⟨htext, hapart⟩ := ih hrest hsound
      have hchars : found.leaf.text.toList = found.text := String.toList_ofList
      cases hform : found.form with
      | unterminated opener => simp [fault?, hform] at hfault
      | unrecognized => simp [fault?, hform] at hfault
      | token kind =>
        have hkind : found.leaf.kind = kind := by rw [leaf, Lexeme.kind, hfault, hform]
        refine ⟨by rw [List.map_cons, Leaf.chars_cons, htext, hchars], ⟨by rwa [hchars], ?_, ?_⟩, hapart⟩
        · rw [List.append_nil, htext, hchars, hkind, hfirst, hform]
        · rw [fault?, hform] at hfault
          rw [hkind]
          show literalError? kind (String.ofList found.text) = none
          simpa using hfault

namespace Lexed

theorem leaf_placed (offset : Nat) (lexemes : List Lexeme) :
    ((placed offset lexemes).map (·.1)).map Token.leaf = lexemes.map Lexeme.leaf := by
  induction lexemes generalizing offset with
  | nil => rfl
  | cons lexeme rest ih => exact congrArg (lexeme.leaf :: ·) (ih _)

theorem fault?_of_placed {offset : Nat} {lexemes : List Lexeme} (hnone : (placed offset lexemes).filterMap (·.2) = []) :
    ∀ lexeme ∈ lexemes, lexeme.fault? = none := by
  induction lexemes generalizing offset with
  | nil => exact List.forall_mem_nil _
  | cons lexeme rest ih =>
    obtain ⟨hlexeme, hrest⟩ := List.forall_mem_cons.mp (List.filterMap_eq_nil_iff.mp hnone)
    exact List.forall_mem_cons.mpr ⟨Option.map_eq_none_iff.mp hlexeme, ih (List.filterMap_eq_nil_iff.mpr hrest)⟩

/-- The tokens of a source with nothing wrong about them stand apart. -/
theorem apart_tokens {source : String} (hnone : (ofSource source).diagnostics = []) :
    Leaf.Apart ((ofSource source).tokens.map Token.leaf) [] := by
  rw [ofSource, leaf_placed]
  exact (Lexeme.apart_of_cut rfl (fault?_of_placed hnone)).2

end Lexed

end Squirrel
