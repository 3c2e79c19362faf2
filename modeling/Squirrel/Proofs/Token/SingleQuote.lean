import Squirrel.Proofs.Token.Garbage
import Squirrel.Proofs.Token.Literal

/-!
# Between single quotes

An integer between three single quotes on each side is found on one line only. The closer of a char literal is looked for
on its line as well, but the character behind a backslash is passed without a look at it, and the decoder lets it stand
for itself. So there is one char literal that goes on behind a line break, the one of a backslash and that line break.
-/

namespace Squirrel

namespace Extent

variable {text : List Char} {length : Nat}

theorem not_mem_take_toApostrophe (hclosed : toApostrophe text = ⟨length, true⟩) : '\n' ∉ text.take length := by
  fun_induction toApostrophe text generalizing length with
  | case1 rest =>
    obtain ⟨rfl, -⟩ := Extent.mk.inj hclosed
    simp
  | case2 | case4 => cases hclosed
  | case3 c rest hquote hbreak ih =>
    obtain ⟨found, rfl, hrest⟩ := past_eq_iff.mp hclosed
    rw [List.take_succ_cons, List.mem_cons, not_or]
    exact ⟨fun heq => hbreak heq.symm, ih hrest⟩

/-- A line break in a char literal stands behind the backslash that the literal starts with. -/
theorem eq_of_mem_take_charLiteral {body : List Char} (hclosed : charLiteral ('\'' :: body) = ⟨length, true⟩)
    (hbreak : '\n' ∈ ('\'' :: body).take length) : ∃ rest, body = '\\' :: '\n' :: rest := by
  rw [charLiteral.eq_def, List.drop_succ_cons, List.drop_zero] at hclosed
  split at hclosed
  · next escaped rest =>
    obtain ⟨found, rfl, hrest⟩ := past_eq_iff.mp hclosed
    have hnone := not_mem_take_toApostrophe hrest
    have htext : ('\'' :: '\\' :: escaped :: rest).take (found + 3) = '\'' :: '\\' :: escaped :: rest.take found := rfl
    obtain rfl : '\n' = escaped := by simpa [htext, hnone] using hbreak
    exact ⟨rest, rfl⟩
  · obtain ⟨found, rfl, hbody⟩ := past_eq_iff.mp hclosed
    have hnone := not_mem_take_toApostrophe hbody
    simp [hnone] at hbreak

theorem take_toTripleQuote? {count : Nat} (hfound : toTripleQuote? text = some count) :
    text.take (count + 3) = text.take count ++ ['\'', '\'', '\''] := by
  fun_induction toTripleQuote? text generalizing count with
  | case1 rest =>
    obtain rfl := Option.some.inj hfound
    rfl
  | case2 c rest _ ih =>
    obtain ⟨inner, hinner, rfl⟩ := Option.map_eq_some_iff.mp hfound
    rw [Nat.add_right_comm, List.take_succ_cons, ih hinner]
    rfl
  | case3 => cases hfound

theorem not_mem_take_quotedInteger? (hfound : quotedInteger? text = some length) : '\n' ∉ text.take length := by
  fun_cases quotedInteger? text with
  | case1 body count hcount hnone => simp [quotedInteger?, hcount, hnone] at hfound
  | case2 body count hcount hsome =>
    rw [quotedInteger?, hcount] at hfound
    simp only [if_neg hsome, Option.some.injEq] at hfound
    obtain rfl := hfound
    have htext : ('\'' :: '\'' :: '\'' :: body).take (count + 6) = '\'' :: '\'' :: '\'' :: body.take (count + 3) := rfl
    rw [htext, take_toTripleQuote? hcount]
    simp [(not_or.mp hsome).2]
  | case3 body hnone => simp [quotedInteger?, hnone] at hfound
  | case4 hother => simp [quotedInteger?] at hfound

end Extent

/-! ### The tokens that open with a single quote -/

namespace Lexeme

open Pattern

variable {text : List Char} {length : Nat}

theorem charLiteral_of_first (hfirst : first text = (.token .charLit, length)) :
    ∃ body, text = '\'' :: body ∧ Extent.charLiteral text = ⟨length, true⟩ := by
  obtain ⟨matched, count, hlongest, hresolve⟩ := exists_longest (congrArg Prod.fst hfirst)
  have hmatch := hlongest.firstMatch
  rw [hresolve, resolve.eq_def] at hfirst
  split at hfirst
  case h_1 | h_3 | h_4 =>
    obtain ⟨hkind, -⟩ := closed_of_extended hfirst
    cases hkind
  case h_2 =>
    obtain ⟨hform, -⟩ := Prod.mk.inj hfirst
    cases hform
  case h_5 =>
    obtain ⟨body, rfl⟩ := exists_of_opener (show patternsOf .charStart = [ofString "'"] from rfl) hmatch
    split at hfirst
    · obtain ⟨hform, -⟩ := Prod.mk.inj hfirst
      cases hform
    · exact ⟨body, rfl, (closed_of_extended hfirst).2⟩
  case h_6 =>
    obtain ⟨hform, -⟩ := Prod.mk.inj hfirst
    obtain rfl := LexemeForm.token.inj hform
    -- no pattern is that of a whole char literal
    obtain ⟨pattern, hmem, -⟩ := mem_patternsOf hmatch
    cases hmem

theorem quotedInteger?_or_firstMatch_of_first (hfirst : first text = (.token .integerLit, length)) :
    Extent.quotedInteger? text = Option.some length ∨ FirstMatch patterns (text.take length) .integerLit := by
  obtain ⟨matched, count, hlongest, hresolve⟩ := exists_longest (congrArg Prod.fst hfirst)
  rw [hresolve, resolve.eq_def] at hfirst
  split at hfirst
  case h_1 | h_3 | h_4 =>
    obtain ⟨hkind, -⟩ := closed_of_extended hfirst
    cases hkind
  case h_2 =>
    obtain ⟨hform, -⟩ := Prod.mk.inj hfirst
    cases hform
  case h_5 =>
    split at hfirst
    · next hfound =>
      obtain ⟨-, rfl⟩ := Prod.mk.inj hfirst
      exact .inl hfound
    · obtain ⟨hkind, -⟩ := closed_of_extended hfirst
      cases hkind
  case h_6 =>
    obtain ⟨hform, rfl⟩ := Prod.mk.inj hfirst
    obtain rfl := LexemeForm.token.inj hform
    exact .inr hlongest.firstMatch

theorem not_mem_of_integerLit (hfirst : first text = (.token .integerLit, length)) : '\n' ∉ text.take length := by
  obtain hfound | hmatch := quotedInteger?_or_firstMatch_of_first hfirst
  · exact Extent.not_mem_take_quotedInteger? hfound
  · intro hbreak
    have hpart := (isIntegerPart_of_firstMatch hmatch).2 '\n' hbreak
    cases hpart

end Lexeme

/-- The decoder takes a line break behind a backslash for itself, and nothing else may follow then. -/
theorem Literal.eq_of_decodeChar {text : String} {value : Char} {rest : List Char} (hdecode : decodeChar text = .ok value)
    (htext : text.toList = '\'' :: '\\' :: '\n' :: rest) : text = "'\\\n'" := by
  rw [decodeChar] at hdecode
  split at hdecode
  · cases hdecode
  · next after hbetween =>
    have hbody := htext.symm.trans (eq_of_between? hbetween)
    simp only [List.cons_append, List.cons.injEq, true_and] at hbody
    cases after with
    | nil => cases hbody
    | cons c more =>
      obtain ⟨rfl, -⟩ := List.cons.inj hbody
      have hread : Escape.read ('\n' :: more) = .denotes '\n' 1 := rfl
      simp only [hread] at hdecode
      split at hdecode
      · next hwhole =>
        obtain rfl := List.length_eq_zero_iff.mp (Nat.succ.inj hwhole).symm
        exact String.toList_injective (eq_of_between? hbetween)
      · cases hdecode
  · next c hbetween =>
    have hbody := htext.symm.trans (eq_of_between? hbetween)
    cases hbody
  · cases hdecode

namespace Lexed

/-- Of the literals between single quotes only one goes on behind a line break, the char literal of a backslash and that
line break; integers have none, whatever their form. -/
theorem single_quoted_newline (source : String) : ∀ token ∈ (ofSource source).tokens,
    (token.kind = .charLit → ('\n' ∈ token.text.toList ↔ token.text = "'\\\n'")) ∧
      (token.kind = .integerLit → '\n' ∉ token.text.toList) := by
  intro token hmem
  obtain ⟨piece, hpiece, rfl⟩ := List.mem_map.mp hmem
  obtain ⟨lexeme, hlexeme, start, rfl⟩ := mem_placed hpiece
  have hfirst {kind : Kind} (hkind : lexeme.kind = kind) (hliteral : kind ≠ .garbage) :
      ∃ text length, Lexeme.first text = (.token kind, length) ∧ lexeme.text = text.take length := by
    obtain ⟨text, length, hfirst, htext, -⟩ :=
      Lexeme.exists_first_of_fault? hlexeme (Lexeme.fault?_of_kind_ne (hkind ▸ hliteral))
    exact ⟨text, length, hkind ▸ hfirst, htext⟩
  have hwritten := wellWritten_of_kind_ne hmem
  simp only [place, String.toList_ofList] at hwritten ⊢
  refine ⟨fun hkind => ⟨fun hbreak => ?_, fun htext => ?_⟩, fun hkind => ?_⟩
  · obtain ⟨text, length, hfirst, htext⟩ := hfirst hkind (by decide)
    obtain ⟨body, rfl, hclosed⟩ := Lexeme.charLiteral_of_first hfirst
    obtain ⟨rest, rfl⟩ := Extent.eq_of_mem_take_charLiteral hclosed (htext ▸ hbreak)
    obtain ⟨value, hdecode⟩ := (hwritten (hkind ▸ by decide)).char hkind
    obtain ⟨count, rfl⟩ := Extent.exists_of_charLiteral hclosed
    rw [htext] at hbreak hdecode ⊢
    cases count with
    | zero => simp at hbreak
    | succ count => exact Literal.eq_of_decodeChar hdecode String.toList_ofList
  · have hlist := congrArg String.toList htext
    rw [String.toList_ofList] at hlist
    rw [hlist]
    decide
  · obtain ⟨text, length, hfirst, htext⟩ := hfirst hkind (by decide)
    rw [htext]
    exact Lexeme.not_mem_of_integerLit hfirst

/-- Both of them in one source: a char literal with a line break, and an integer, which has none. -/
theorem single_quoted_newline_sum :
    (⟨.charLit, 0, "'\\\n'"⟩ : Token) ∈ (ofSource "'\\\n'+'''b'''").tokens ∧ '\n' ∈ "'\\\n'".toList ∧
      (⟨.integerLit, 5, "'''b'''"⟩ : Token) ∈ (ofSource "'\\\n'+'''b'''").tokens ∧ '\n' ∉ "'''b'''".toList := by
  have htokens : (⟨.charLit, 0, "'\\\n'"⟩ : Token) ∈ (ofSource "'\\\n'+'''b'''").tokens ∧
      (⟨.integerLit, 5, "'''b'''"⟩ : Token) ∈ (ofSource "'\\\n'+'''b'''").tokens := by
    rw [← computed_eq]
    decide +kernel
  obtain ⟨hchar, hinteger⟩ := htokens
  exact ⟨hchar, ((single_quoted_newline _ _ hchar).1 rfl).mpr rfl, hinteger,
    (single_quoted_newline _ _ hinteger).2 rfl⟩

end Lexed

end Squirrel
