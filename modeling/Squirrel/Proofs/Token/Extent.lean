import Squirrel.Token.Extent

/-!
# Closed tokens

A token that is closed ends where its closer is found, whatever stands behind it; only a verbatim string would go on with
another quote.
-/

namespace Squirrel

namespace Extent

variable {text : List Char} {length : Nat}

theorem past_eq_iff {extent : Extent} {count : Nat} :
    extent.past count = ⟨length, true⟩ ↔ ∃ rest, length = rest + count ∧ extent = ⟨rest, true⟩ := by
  obtain ⟨found, closed⟩ := extent
  simp only [past, Extent.mk.injEq]
  constructor
  · rintro ⟨rfl, rfl⟩
    exact ⟨found, rfl, rfl, rfl⟩
  · rintro ⟨rest, rfl, rfl, rfl⟩
    exact ⟨rfl, rfl⟩

/-- What closes a string is found whatever stands behind it. -/
theorem toQuote_take (hclosed : toQuote text = ⟨length, true⟩) (more : List Char) :
    length ≤ text.length ∧ toQuote (text.take length ++ more) = ⟨length, true⟩ := by
  fun_induction toQuote text generalizing length with
  | case1 c rest ih =>
    obtain ⟨found, rfl, hrest⟩ := past_eq_iff.mp hclosed
    obtain ⟨hle, htake⟩ := ih hrest
    refine ⟨by simpa using hle, ?_⟩
    simp [toQuote, htake, past]
  | case2 rest =>
    obtain ⟨rfl, -⟩ := Extent.mk.inj hclosed
    exact ⟨by simp, rfl⟩
  | case3 c rest hescape hquote ih =>
    obtain ⟨found, rfl, hrest⟩ := past_eq_iff.mp hclosed
    obtain ⟨hle, htake⟩ := ih hrest
    refine ⟨by simpa using hle, ?_⟩
    have hplain : c ≠ '\\' := by
      rintro rfl
      cases rest with
      | nil => cases hrest
      | cons d others => exact hescape d others rfl rfl
    rw [List.take_succ_cons, List.cons_append, toQuote.eq_3 _ _ (by simp [hplain]) hquote, htake]
    rfl
  | case4 => cases hclosed

/-- What closes a verbatim string is found whatever stands behind it, but for another quote. -/
theorem toSingleQuote_take (hclosed : toSingleQuote text = ⟨length, true⟩) {more : List Char}
    (hmore : ∀ c ∈ more.head?, c ≠ '"') :
    length ≤ text.length ∧ toSingleQuote (text.take length ++ more) = ⟨length, true⟩ := by
  fun_induction toSingleQuote text generalizing length with
  | case1 rest ih =>
    obtain ⟨found, rfl, hrest⟩ := past_eq_iff.mp hclosed
    obtain ⟨hle, htake⟩ := ih hrest
    refine ⟨by simpa using hle, ?_⟩
    simp [toSingleQuote, htake, past]
  | case2 rest hpair =>
    obtain ⟨rfl, -⟩ := Extent.mk.inj hclosed
    refine ⟨by simp, ?_⟩
    have hrest : ∀ others, more = '"' :: others → False := fun others heq => hmore '"' (by rw [heq]; rfl) rfl
    exact toSingleQuote.eq_2 more hrest
  | case3 c rest hpair hquote ih =>
    obtain ⟨found, rfl, hrest⟩ := past_eq_iff.mp hclosed
    obtain ⟨hle, htake⟩ := ih hrest
    refine ⟨by simpa using hle, ?_⟩
    rw [List.take_succ_cons, List.cons_append, toSingleQuote.eq_3 _ _ (fun _ heq _ => hquote heq) hquote, htake]
    rfl
  | case4 => cases hclosed

/-- What runs up to the first quote ends with it. -/
theorem take_toSingleQuote (hclosed : (toSingleQuote text).closed = true) :
    ∃ inner, text.take (toSingleQuote text).length = inner ++ ['"'] := by
  fun_induction toSingleQuote text with
  | case1 rest ih =>
    obtain ⟨inner, hinner⟩ := ih hclosed
    exact ⟨'"' :: '"' :: inner, by simp only [past, List.take_succ_cons, hinner, List.cons_append]⟩
  | case2 rest _ => exact ⟨[], rfl⟩
  | case3 c rest _ _ ih =>
    obtain ⟨inner, hinner⟩ := ih hclosed
    exact ⟨c :: inner, by simp only [past, List.take_succ_cons, hinner, List.cons_append]⟩
  | case4 => simp at hclosed

theorem toApostrophe_take (hclosed : toApostrophe text = ⟨length, true⟩) (more : List Char) :
    length ≤ text.length ∧ toApostrophe (text.take length ++ more) = ⟨length, true⟩ := by
  fun_induction toApostrophe text generalizing length with
  | case1 rest =>
    obtain ⟨rfl, -⟩ := Extent.mk.inj hclosed
    exact ⟨by simp, rfl⟩
  | case2 | case4 => cases hclosed
  | case3 c rest hquote hbreak ih =>
    obtain ⟨found, rfl, hrest⟩ := past_eq_iff.mp hclosed
    obtain ⟨hle, htake⟩ := ih hrest
    refine ⟨by simpa using hle, ?_⟩
    rw [List.take_succ_cons, List.cons_append, toApostrophe.eq_3 _ _ hquote hbreak, htake]
    rfl

theorem toTripleQuote?_take {count : Nat} (hfound : toTripleQuote? text = some count) (more : List Char) :
    count + 3 ≤ text.length ∧ toTripleQuote? (text.take (count + 3) ++ more) = some count := by
  fun_induction toTripleQuote? text generalizing count with
  | case1 rest =>
    obtain rfl := Option.some.inj hfound
    exact ⟨by simp, rfl⟩
  | case2 c rest hquotes ih =>
    obtain ⟨found, hrest, rfl⟩ := Option.map_eq_some_iff.mp hfound
    obtain ⟨hle, htake⟩ := ih hrest
    refine ⟨by simp only [List.length_cons]; omega, ?_⟩
    have hplain : ∀ others, c = '\'' → rest.take (found + 3) ++ more = '\'' :: '\'' :: others → False := by
      rintro others rfl heq
      match rest, hle with
      | first :: second :: third, _ =>
        obtain ⟨rfl, hheq⟩ := List.cons.inj heq
        obtain ⟨rfl, -⟩ := List.cons.inj hheq
        exact hquotes third rfl rfl
    have htext : (c :: rest).take (found + 1 + 3) = c :: rest.take (found + 3) := List.take_succ_cons ..
    rw [htext, List.cons_append, toTripleQuote?.eq_2 _ _ hplain, htake]
    rfl
  | case3 => cases hfound

theorem string_take {c : Char} (hclosed : string (c :: text) = ⟨length, true⟩) (more : List Char) :
    length ≤ (c :: text).length ∧ string ((c :: text).take length ++ more) = ⟨length, true⟩ := by
  obtain ⟨found, rfl, hbody⟩ := past_eq_iff.mp (show (toQuote text).past 1 = _ from hclosed)
  obtain ⟨hle, htake⟩ := toQuote_take hbody more
  refine ⟨by simpa using hle, ?_⟩
  rw [List.take_succ_cons, List.cons_append, string, List.drop_one, List.tail_cons, htake]
  rfl

theorem verbatimString_take {c d : Char} (hclosed : verbatimString (c :: d :: text) = ⟨length, true⟩)
    {more : List Char} (hmore : ∀ e ∈ more.head?, e ≠ '"') :
    length ≤ (c :: d :: text).length ∧ verbatimString ((c :: d :: text).take length ++ more) = ⟨length, true⟩ := by
  obtain ⟨found, rfl, hbody⟩ := past_eq_iff.mp (show (toSingleQuote text).past 2 = _ from hclosed)
  obtain ⟨hle, htake⟩ := toSingleQuote_take hbody hmore
  refine ⟨by simpa using hle, ?_⟩
  have htext : (c :: d :: text).take (found + 2) = c :: d :: text.take found := rfl
  rw [htext, verbatimString, List.cons_append, List.cons_append, List.drop_succ_cons, List.drop_succ_cons, List.drop_zero,
    htake]
  rfl

theorem quotedInteger?_take (hfound : quotedInteger? text = some length) (more : List Char) :
    length ≤ text.length ∧ quotedInteger? (text.take length ++ more) = some length := by
  fun_cases quotedInteger? text with
  | case1 body count hcount hnone => simp [quotedInteger?, hcount, hnone] at hfound
  | case2 body count hcount hsome =>
    rw [quotedInteger?, hcount] at hfound
    simp only [if_neg hsome, Option.some.injEq] at hfound
    obtain rfl := hfound
    obtain ⟨hle, htake⟩ := toTripleQuote?_take hcount more
    refine ⟨by simp only [List.length_cons]; omega, ?_⟩
    have htext : ('\'' :: '\'' :: '\'' :: body).take (count + 6) = '\'' :: '\'' :: '\'' :: body.take (count + 3) := rfl
    have hcontent : (body.take (count + 3) ++ more).take count = body.take count := by
      rw [List.take_append_of_le_length (by rw [List.length_take]; omega), List.take_take, Nat.min_eq_left (by omega)]
    rw [htext, List.cons_append, List.cons_append, List.cons_append, quotedInteger?, htake]
    simp only [hcontent, if_neg hsome]
  | case3 body hnone => simp [quotedInteger?, hnone] at hfound
  | case4 hother => simp [quotedInteger?] at hfound

theorem exists_of_toApostrophe (hclosed : toApostrophe text = ⟨length, true⟩) : ∃ count, length = count + 1 := by
  fun_cases toApostrophe text with
  | case1 rest =>
    obtain ⟨rfl, -⟩ := Extent.mk.inj hclosed
    exact ⟨0, rfl⟩
  | case2 rest => cases hclosed
  | case3 c rest hquote hbreak =>
    rw [toApostrophe.eq_3 _ _ hquote hbreak] at hclosed
    obtain ⟨found, rfl, -⟩ := past_eq_iff.mp hclosed
    exact ⟨found, rfl⟩
  | case4 => cases hclosed

theorem exists_of_charLiteral (hclosed : charLiteral text = ⟨length, true⟩) : ∃ count, length = count + 2 := by
  rw [charLiteral.eq_def] at hclosed
  split at hclosed
  · obtain ⟨found, rfl, -⟩ := past_eq_iff.mp hclosed
    exact ⟨found + 1, rfl⟩
  · obtain ⟨found, rfl, hbody⟩ := past_eq_iff.mp hclosed
    obtain ⟨count, rfl⟩ := exists_of_toApostrophe hbody
    exact ⟨count, rfl⟩

/-- A char literal that is not empty is closed by the first quote behind its content. -/
theorem charLiteral_take {c : Char} (hclosed : charLiteral (c :: text) = ⟨length, true⟩) (more : List Char) :
    length ≤ (c :: text).length ∧ charLiteral ((c :: text).take length ++ more) = ⟨length, true⟩ := by
  rw [charLiteral.eq_def, List.drop_succ_cons, List.drop_zero] at hclosed
  split at hclosed
  · next escaped rest =>
    obtain ⟨found, rfl, hrest⟩ := past_eq_iff.mp hclosed
    obtain ⟨hle, htake⟩ := toApostrophe_take hrest more
    refine ⟨by simpa using hle, ?_⟩
    have htext : (c :: '\\' :: escaped :: rest).take (found + 3) = c :: '\\' :: escaped :: rest.take found := rfl
    rw [htext]
    exact congrArg (past · 3) htake
  · next hescape =>
    obtain ⟨found, rfl, hrest⟩ := past_eq_iff.mp hclosed
    obtain ⟨hle, htake⟩ := toApostrophe_take hrest more
    refine ⟨by simpa using hle, ?_⟩
    rw [List.take_succ_cons, List.cons_append, charLiteral.eq_def, List.drop_succ_cons, List.drop_zero]
    split
    · next escaped others heq =>
      -- a backslash takes the next character along, but here it would have to be the whole content
      rw [heq] at htake
      obtain ⟨found, rfl, -⟩ := past_eq_iff.mp htake
      cases text with
      | nil => cases hle
      | cons d rest =>
        obtain ⟨rfl, -⟩ := List.cons.inj heq
        cases rest with
        | nil => cases hrest
        | cons e rest => exact absurd rfl (hescape e rest)
    · exact congrArg (past · 1) htake

end Extent

end Squirrel
