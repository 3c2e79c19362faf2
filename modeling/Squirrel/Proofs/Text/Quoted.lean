import Squirrel.Text.Quoted

/-!
# Quoted texts are faithful

A quoted text stands on one line, and what stands behind its closing quote is told from it. So a text is told by its quoted
form: no way to write a character begins another one, and none begins like the closing quote.
-/

namespace Squirrel.Text

/-- A run of characters of one sort is told from what follows it, which begins with none of them. -/
theorem append_inj_of_run {p : Char → Prop} {left right more more' : List Char} (hleft : ∀ c ∈ left, p c)
    (hright : ∀ c ∈ right, p c) (hmore : ∀ c ∈ more.head?, ¬p c) (hmore' : ∀ c ∈ more'.head?, ¬p c)
    (heq : left ++ more = right ++ more') : left = right ∧ more = more' := by
  induction left generalizing right with
  | nil =>
    cases right with
    | nil => exact ⟨rfl, heq⟩
    | cons d right => exact absurd (hright d List.mem_cons_self) (hmore d (by rw [← List.nil_append more, heq]; rfl))
  | cons c left ih =>
    obtain ⟨hc, hleft⟩ := List.forall_mem_cons.mp hleft
    cases right with
    | nil => exact absurd hc (hmore' c (by rw [← List.nil_append more', ← heq]; rfl))
    | cons d right =>
      obtain ⟨rfl, hrest⟩ := List.cons.inj heq
      obtain ⟨rfl, hmore⟩ := ih hleft (List.forall_mem_cons.mp hright).2 hrest
      exact ⟨rfl, hmore⟩

/-! ### Code points -/

/-- The digits of numbers in hexadecimal. -/
def hexDigits : List Char := (List.range 16).map Nat.digitChar

theorem digitChar_inj {m n : Nat} (hm : m < 16) (hn : n < 16) (heq : m.digitChar = n.digitChar) : m = n := by
  have hall : ∀ m < 16, ∀ n < 16, m.digitChar = n.digitChar → m = n := by decide
  exact hall m hm n hn heq

theorem mem_hexDigits_of_toDigits {n : Nat} : ∀ c ∈ Nat.toDigits 16 n, c ∈ hexDigits := by
  induction n using Nat.strongRecOn with
  | ind n ih =>
    have hdigit {m : Nat} (hm : m < 16) : m.digitChar ∈ hexDigits :=
      List.mem_map_of_mem (List.mem_range.mpr hm)
    intro c hc
    by_cases hlt : n < 16
    · rw [Nat.toDigits_of_lt_base hlt, List.mem_singleton] at hc
      exact hc ▸ hdigit hlt
    · rw [Nat.toDigits_of_base_le (by decide) (Nat.not_lt.mp hlt), List.mem_append, List.mem_singleton] at hc
      obtain hc | rfl := hc
      · exact ih (n / 16) (by omega) c hc
      · exact hdigit (Nat.mod_lt _ (by decide))

/-- A number is told by its hexadecimal digits. -/
theorem toDigits_inj {m n : Nat} (heq : Nat.toDigits 16 m = Nat.toDigits 16 n) : m = n := by
  induction m using Nat.strongRecOn generalizing n with
  | ind m ih =>
    have hshort {k : Nat} (hk : k < 16) : (Nat.toDigits 16 k).length = 1 := by rw [Nat.toDigits_of_lt_base hk]; rfl
    have hlong {k : Nat} (hk : 16 ≤ k) : 1 < (Nat.toDigits 16 k).length := by
      rw [Nat.toDigits_of_base_le (by decide) hk, List.length_append]
      exact Nat.lt_add_of_pos_left (List.length_pos_iff.mpr Nat.toDigits_ne_nil)
    by_cases hm : m < 16
    · by_cases hn : n < 16
      · rw [Nat.toDigits_of_lt_base hm, Nat.toDigits_of_lt_base hn] at heq
        exact digitChar_inj hm hn (List.cons.inj heq).1
      · have := hlong (Nat.not_lt.mp hn)
        rw [← heq, hshort hm] at this
        omega
    · by_cases hn : n < 16
      · have := hlong (Nat.not_lt.mp hm)
        rw [heq, hshort hn] at this
        omega
      · rw [Nat.toDigits_of_base_le (by decide) (Nat.not_lt.mp hm),
          Nat.toDigits_of_base_le (by decide) (Nat.not_lt.mp hn)] at heq
        obtain ⟨hfront, hlast⟩ := List.append_inj' heq rfl
        have hquotient := ih (m / 16) (by omega) hfront
        have hrest := digitChar_inj (Nat.mod_lt m (by decide)) (Nat.mod_lt n (by decide)) (List.cons.inj hlast).1
        omega

/-! ### Characters -/

/-- The characters that are written as a backslash and one other character, with that character. -/
def shortEscapes : List (Char × Char) :=
  [('\\', '\\'), ('"', '"'), ('\n', 'n'), ('\r', 'r'), ('\t', 't'), ('\x00', '0')]

/-- A character is written in one of three ways. -/
theorem escapeChar_cases (c : Char) : (∃ letter, (c, letter) ∈ shortEscapes ∧ escapeChar c = ['\\', letter]) ∨
    (c ≠ '\\' ∧ c ≠ '"' ∧ c ≠ '\n' ∧ escapeChar c = [c]) ∨ escapeChar c = escapeCodePoint c := by
  by_cases hshort : ∃ letter, (c, letter) ∈ shortEscapes
  · obtain ⟨letter, hmem⟩ := hshort
    have hall : ∀ pair ∈ shortEscapes, escapeChar pair.1 = ['\\', pair.2] := by decide
    exact .inl ⟨letter, hmem, hall _ hmem⟩
  · have hne {d : Char} (letter : Char) (hmem : (d, letter) ∈ shortEscapes) : c ≠ d := by
      rintro rfl
      exact hshort ⟨letter, hmem⟩
    have hbackslash : c ≠ '\\' := hne '\\' (by decide)
    have hquote : c ≠ '"' := hne '"' (by decide)
    have hbreak : c ≠ '\n' := hne 'n' (by decide)
    have hreturn : c ≠ '\r' := hne 'r' (by decide)
    have htab : c ≠ '\t' := hne 't' (by decide)
    have hzero : c ≠ '\x00' := hne '0' (by decide)
    rw [escapeChar, if_neg hbackslash, if_neg hquote, if_neg hbreak, if_neg hreturn, if_neg htab, if_neg hzero]
    split
    · exact .inr (.inl ⟨hbackslash, hquote, hbreak, rfl⟩)
    · exact .inr (.inr rfl)

theorem ne_quote_of_escapeChar {c d : Char} {rest more : List Char} (heq : escapeChar c ++ rest = d :: more) :
    d ≠ '"' := by
  rintro rfl
  obtain ⟨letter, -, hc⟩ | ⟨-, hquote, -, hc⟩ | hc := escapeChar_cases c
  · rw [hc] at heq
    exact absurd (List.cons.inj heq).1 (by decide)
  · rw [hc] at heq
    exact hquote (List.cons.inj heq).1
  · rw [hc] at heq
    exact absurd (List.cons.inj heq).1 (by decide)

/-- Only a code point is written with the letter that stands behind its backslash. -/
theorem shortEscape_facts : (∀ pair ∈ shortEscapes, pair.2 ≠ 'u' ∧ pair.2 ≠ '\n') ∧
    ∀ pair ∈ shortEscapes, ∀ other ∈ shortEscapes, pair.2 = other.2 → pair.1 = other.1 := by
  decide

theorem escapeCodePoint_inj {c d : Char} {rest more : List Char}
    (heq : escapeCodePoint c ++ rest = escapeCodePoint d ++ more) : c = d ∧ rest = more := by
  have hdigits {k : Nat} : ∀ digit ∈ Nat.toDigits 16 k, digit ∈ hexDigits := mem_hexDigits_of_toDigits
  have hstop {others : List Char} : ∀ brace ∈ ('\x7d' :: others).head?, brace ∉ hexDigits := by
    rintro brace hbrace
    obtain rfl := Option.some.inj hbrace
    decide
  simp only [escapeCodePoint, List.cons_append, List.append_assoc, List.nil_append, List.cons.injEq, true_and] at heq
  obtain ⟨hnumber, hmore⟩ := append_inj_of_run hdigits hdigits hstop hstop heq
  exact ⟨Char.toNat_inj.mp (toDigits_inj hnumber), (List.cons.inj hmore).2⟩

/-- No way to write a character begins a way to write another one. -/
theorem escapeChar_inj {c d : Char} {rest more : List Char} (heq : escapeChar c ++ rest = escapeChar d ++ more) :
    c = d ∧ rest = more := by
  obtain ⟨letter, hletter, hc⟩ | ⟨hbackslash, -, -, hc⟩ | hc := escapeChar_cases c <;>
    obtain ⟨letter', hletter', hd⟩ | ⟨hbackslash', -, -, hd⟩ | hd := escapeChar_cases d <;>
    rw [hc, hd] at heq
  · obtain ⟨hsame, hmore⟩ := List.cons.inj (List.cons.inj heq).2
    exact ⟨shortEscape_facts.2 _ hletter _ hletter' hsame, hmore⟩
  · exact absurd (List.cons.inj heq).1.symm hbackslash'
  · exact absurd (List.cons.inj (List.cons.inj heq).2).1 (shortEscape_facts.1 _ hletter).1
  · exact absurd (List.cons.inj heq).1 hbackslash
  · exact List.cons.inj heq
  · exact absurd (List.cons.inj heq).1 hbackslash
  · exact absurd (List.cons.inj (List.cons.inj heq).2).1.symm (shortEscape_facts.1 _ hletter').1
  · exact absurd (List.cons.inj heq).1.symm hbackslash'
  · exact escapeCodePoint_inj heq

/-! ### Texts -/

/-- Escaped characters end where the closing quote stands. -/
theorem flatMap_escapeChar_inj {left right more more' : List Char}
    (heq : left.flatMap escapeChar ++ '"' :: more = right.flatMap escapeChar ++ '"' :: more') :
    left = right ∧ more = more' := by
  induction left generalizing right with
  | nil =>
    cases right with
    | nil => exact ⟨rfl, (List.cons.inj heq).2⟩
    | cons d right =>
      rw [List.flatMap_cons, List.append_assoc] at heq
      exact absurd rfl (ne_quote_of_escapeChar heq.symm)
  | cons c left ih =>
    rw [List.flatMap_cons, List.append_assoc] at heq
    cases right with
    | nil => exact absurd rfl (ne_quote_of_escapeChar heq)
    | cons d right =>
      rw [List.flatMap_cons, List.append_assoc] at heq
      obtain ⟨rfl, hrest⟩ := escapeChar_inj heq
      obtain ⟨rfl, hmore⟩ := ih hrest
      exact ⟨rfl, hmore⟩

theorem quote_inj {left right : String} (heq : quote left = quote right) : left = right := by
  have hquoted : '"' :: (left.toList.flatMap escapeChar ++ ['"']) = '"' :: (right.toList.flatMap escapeChar ++ ['"']) :=
    String.ofList_injective heq
  exact String.toList_inj.mp (flatMap_escapeChar_inj (List.cons.inj hquoted).2).1

theorem break_not_mem_quote (text : String) : '\n' ∉ (quote text).toList := by
  have hescape {c : Char} : '\n' ∉ escapeChar c := by
    obtain ⟨letter, hletter, hc⟩ | ⟨-, -, hbreak, hc⟩ | hc := escapeChar_cases c
    · rw [hc]
      simp [(shortEscape_facts.1 _ hletter).2.symm]
    · rw [hc]
      simpa using hbreak.symm
    · have hdigit : '\n' ∉ Nat.toDigits 16 c.toNat := fun hmem => absurd (mem_hexDigits_of_toDigits _ hmem) (by decide)
      rw [hc, escapeCodePoint]
      simp [hdigit]
  rw [quote, String.toList_ofList]
  simp [hescape]

end Squirrel.Text
