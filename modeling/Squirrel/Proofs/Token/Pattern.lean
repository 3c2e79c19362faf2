import Squirrel.Token.Pattern

/-!
# The longest match

Derivatives compute what a pattern matches, and following all rules at once finds the longest start of a text that one of
them matches, with the first rule that matches it.
-/

namespace Squirrel.Pattern

/-! ### What patterns match -/

@[simp] theorem not_matches_never (text : List Char) : ¬Matches never text := nofun

@[simp] theorem matches_empty_iff {text : List Char} : Matches empty text ↔ text = [] := by
  constructor
  · intro hmatches
    cases hmatches
    rfl
  · rintro rfl
    exact .empty

@[simp] theorem matches_one_iff {allowed : Char → Bool} {text : List Char} :
    Matches (one allowed) text ↔ ∃ c, text = [c] ∧ allowed c = true := by
  constructor
  · intro hmatches
    cases hmatches with
    | one hallowed => exact ⟨_, rfl, hallowed⟩
  · rintro ⟨c, rfl, hallowed⟩
    exact .one hallowed

theorem matches_seq_iff {first second : Pattern} {text : List Char} :
    Matches (seq first second) text ↔ ∃ start rest, text = start ++ rest ∧ Matches first start ∧ Matches second rest := by
  constructor
  · intro hmatches
    cases hmatches with
    | seq hfirst hsecond => exact ⟨_, _, rfl, hfirst, hsecond⟩
  · rintro ⟨start, rest, rfl, hfirst, hsecond⟩
    exact .seq hfirst hsecond

@[simp] theorem matches_alt_iff {left right : Pattern} {text : List Char} :
    Matches (alt left right) text ↔ Matches left text ∨ Matches right text := by
  constructor
  · intro hmatches
    cases hmatches with
    | left hleft => exact .inl hleft
    | right hright => exact .inr hright
  · rintro (hleft | hright)
    · exact .left hleft
    · exact .right hright

/-- A repetition that is not empty starts with a piece that is not empty. -/
theorem matches_many_cons_iff {inner : Pattern} {c : Char} {text : List Char} :
    Matches (many inner) (c :: text) ↔
      ∃ start rest, text = start ++ rest ∧ Matches inner (c :: start) ∧ Matches (many inner) rest := by
  constructor
  · intro hmatches
    generalize hpattern : many inner = pattern at hmatches
    generalize hwhole : c :: text = whole at hmatches
    induction hmatches with
    | empty | one | seq | left | right => simp at hpattern
    | done => simp at hwhole
    | @again piece start rest hpiece hrest _ ih =>
      obtain rfl := many.inj hpattern
      cases start with
      | nil => exact ih rfl hwhole
      | cons d start =>
        obtain ⟨rfl, rfl⟩ := List.cons.inj hwhole
        exact ⟨start, rest, rfl, hpiece, hrest⟩
  · rintro ⟨start, rest, rfl, hinner, hrest⟩
    exact .again hinner hrest

theorem matches_ofChars_iff {chars text : List Char} : Matches (ofChars chars) text ↔ text = chars := by
  induction chars generalizing text with
  | nil => exact matches_empty_iff
  | cons c rest ih =>
    rw [show ofChars (c :: rest) = seq (one (· == c)) (ofChars rest) from rfl, matches_seq_iff]
    constructor
    · rintro ⟨start, tail, rfl, hfirst, hsecond⟩
      obtain ⟨d, rfl, hd⟩ := matches_one_iff.mp hfirst
      rw [beq_iff_eq.mp hd, ih.mp hsecond]
      rfl
    · rintro rfl
      exact ⟨[c], rest, rfl, .one (beq_self_eq_true c), ih.mpr rfl⟩

theorem matches_ofString_iff {spelling : String} {text : List Char} :
    Matches (ofString spelling) text ↔ text = spelling.toList := matches_ofChars_iff

/-! ### Derivatives -/

theorem nullable_iff {pattern : Pattern} : pattern.nullable = true ↔ Matches pattern [] := by
  induction pattern with
  | never => simp [nullable]
  | empty => simp [nullable]
  | one allowed => simp [nullable]
  | seq first second ihfirst ihsecond =>
    rw [nullable, Bool.and_eq_true, ihfirst, ihsecond, matches_seq_iff]
    constructor
    · rintro ⟨hfirst, hsecond⟩
      exact ⟨[], [], rfl, hfirst, hsecond⟩
    · rintro ⟨start, rest, hnil, hfirst, hsecond⟩
      obtain ⟨rfl, rfl⟩ := List.append_eq_nil_iff.mp hnil.symm
      exact ⟨hfirst, hsecond⟩
  | alt left right ihleft ihright => rw [nullable, Bool.or_eq_true, ihleft, ihright, matches_alt_iff]
  | many inner _ => exact iff_of_true rfl .done

theorem matches_followedBy_iff {first second : Pattern} {text : List Char} :
    Matches (first.followedBy second) text ↔ Matches (seq first second) text := by
  rw [followedBy.eq_def]
  split
  · simp [matches_seq_iff]
  · next second =>
    rw [matches_seq_iff]
    constructor
    · intro hsecond
      exact ⟨[], text, rfl, .empty, hsecond⟩
    · rintro ⟨start, rest, rfl, hfirst, hsecond⟩
      rwa [matches_empty_iff.mp hfirst, List.nil_append]
  · rfl

theorem matches_orElse_iff {left right : Pattern} {text : List Char} :
    Matches (left.orElse right) text ↔ Matches left text ∨ Matches right text := by
  rw [orElse.eq_def]
  split
  · simp
  · simp
  · exact matches_alt_iff

theorem matches_derivative_iff {pattern : Pattern} {c : Char} {text : List Char} :
    Matches (pattern.derivative c) text ↔ Matches pattern (c :: text) := by
  induction pattern generalizing text with
  | never => simp [derivative]
  | empty => simp [derivative]
  | one allowed =>
    rw [derivative, matches_one_iff]
    split
    · next hallowed =>
      rw [matches_empty_iff]
      constructor
      · rintro rfl
        exact ⟨c, rfl, hallowed⟩
      · rintro ⟨d, htext, -⟩
        exact (List.cons.inj htext).2
    · next hallowed =>
      refine iff_of_false (not_matches_never text) ?_
      rintro ⟨d, htext, hd⟩
      exact hallowed ((List.cons.inj htext).1 ▸ hd)
  | seq first second ihfirst ihsecond =>
    have hwithin : Matches ((first.derivative c).followedBy second) text ↔
        ∃ start rest, text = start ++ rest ∧ Matches first (c :: start) ∧ Matches second rest := by
      simp only [matches_followedBy_iff, matches_seq_iff, ihfirst]
    have hsplit : Matches (seq first second) (c :: text) ↔ Matches ((first.derivative c).followedBy second) text ∨
        (Matches first [] ∧ Matches second (c :: text)) := by
      rw [hwithin, matches_seq_iff]
      constructor
      · rintro ⟨start, rest, htext, hfirst, hsecond⟩
        cases start with
        | nil => exact .inr ⟨hfirst, htext ▸ hsecond⟩
        | cons d start =>
          obtain ⟨rfl, rfl⟩ := List.cons.inj htext
          exact .inl ⟨start, rest, rfl, hfirst, hsecond⟩
      · rintro (⟨start, rest, rfl, hfirst, hsecond⟩ | ⟨hfirst, hsecond⟩)
        · exact ⟨c :: start, rest, rfl, hfirst, hsecond⟩
        · exact ⟨[], c :: text, rfl, hfirst, hsecond⟩
    rw [derivative, hsplit]
    cases hnullable : first.nullable with
    | true => rw [if_pos rfl, matches_orElse_iff, ihsecond, and_iff_right (nullable_iff.mp hnullable)]
    | false =>
      have hnot : ¬Matches first [] := fun hmatches => by simp [nullable_iff.mpr hmatches] at hnullable
      simp [hnot]
  | alt left right ihleft ihright => rw [derivative, matches_orElse_iff, ihleft, ihright, matches_alt_iff]
  | many inner ih =>
    rw [derivative, matches_followedBy_iff, matches_seq_iff, matches_many_cons_iff]
    simp only [ih]

/-! ### The longest match -/

variable {κ : Type}

/-- The first of some rules whose pattern matches the text. -/
def FirstMatch : List (κ × Pattern) → List Char → κ → Prop
  | [], _, _ => False
  | (name, pattern) :: rest, text, found =>
    (Matches pattern text ∧ name = found) ∨ (¬Matches pattern text ∧ FirstMatch rest text found)

theorem FirstMatch.unique {rules : List (κ × Pattern)} {text : List Char} {left right : κ}
    (hleft : FirstMatch rules text left) (hright : FirstMatch rules text right) : left = right := by
  induction rules with
  | nil => exact hleft.elim
  | cons rule rest ih =>
    obtain ⟨hmatches, rfl⟩ | ⟨hnot, hleft⟩ := hleft
    · obtain ⟨-, rfl⟩ | ⟨hnot, -⟩ := hright
      · rfl
      · exact absurd hmatches hnot
    · obtain ⟨hmatches, -⟩ | ⟨-, hright⟩ := hright
      · exact absurd hmatches hnot
      · exact ih hleft hright

theorem FirstMatch.exists_mem {rules : List (κ × Pattern)} {text : List Char} {name : κ}
    (hfirst : FirstMatch rules text name) : ∃ pattern, (name, pattern) ∈ rules ∧ Matches pattern text := by
  induction rules with
  | nil => exact hfirst.elim
  | cons rule rest ih =>
    obtain ⟨hmatches, rfl⟩ | ⟨-, hfirst⟩ := hfirst
    · exact ⟨rule.2, List.mem_cons_self, hmatches⟩
    · obtain ⟨pattern, hmem, hmatches⟩ := ih hfirst
      exact ⟨pattern, List.mem_cons_of_mem _ hmem, hmatches⟩

/-- The first match stays the first one with other rules behind. -/
theorem FirstMatch.append {rules : List (κ × Pattern)} {text : List Char} {name : κ} (hfirst : FirstMatch rules text name)
    (others : List (κ × Pattern)) : FirstMatch (rules ++ others) text name := by
  induction rules with
  | nil => exact hfirst.elim
  | cons rule rest ih => exact hfirst.imp_right fun ⟨hnot, hfirst⟩ => ⟨hnot, ih hfirst⟩

theorem exists_firstMatch {rules : List (κ × Pattern)} {text : List Char} {rule : κ × Pattern} (hmem : rule ∈ rules)
    (hmatches : Matches rule.2 text) : ∃ name, FirstMatch rules text name := by
  induction rules with
  | nil => simp at hmem
  | cons head rest ih =>
    by_cases hhead : Matches head.2 text
    · exact ⟨head.1, .inl ⟨hhead, rfl⟩⟩
    · obtain rfl | hmem := List.mem_cons.mp hmem
      · exact absurd hmatches hhead
      · obtain ⟨name, hfirst⟩ := ih hmem
        exact ⟨name, .inr ⟨hhead, hfirst⟩⟩

theorem firstMatch_nil_iff {rules : List (κ × Pattern)} {name : κ} :
    FirstMatch rules [] name ↔ (rules.find? fun rule => rule.2.nullable).map (·.1) = Option.some name := by
  induction rules with
  | nil => simp [FirstMatch]
  | cons rule rest ih =>
    rw [FirstMatch, ← nullable_iff, List.find?_cons]
    cases rule.2.nullable with
    | true => simp
    | false => simpa using ih

theorem firstMatch_derivative_iff {rules : List (κ × Pattern)} {c : Char} {text : List Char} {name : κ} :
    FirstMatch (rules.filterMap fun (name, pattern) =>
      let next := pattern.derivative c
      if next.isNever then none else Option.some (name, next)) text name ↔ FirstMatch rules (c :: text) name := by
  induction rules with
  | nil => rfl
  | cons rule rest ih =>
    rw [FirstMatch, ← matches_derivative_iff, ← ih, List.filterMap_cons]
    cases hnever : (rule.2.derivative c).isNever with
    | true =>
      have hnot : ¬Matches (rule.2.derivative c) text := by
        cases hnext : rule.2.derivative c with
        | never => exact not_matches_never text
        | _ => simp [hnext, isNever] at hnever
      simp [hnever, hnot]
    | false => simp [hnever, FirstMatch]

/-- A match of some characters at the start of the text, by the first rule that makes it, and none that is longer. -/
structure Longest (rules : List (κ × Pattern)) (text : List Char) (name : κ) (length : Nat) : Prop where
  le_length : length ≤ text.length
  firstMatch : FirstMatch rules (text.take length) name
  not_longer : ∀ longer, length < longer → longer ≤ text.length → ∀ other, ¬FirstMatch rules (text.take longer) other

theorem Longest.unique {rules : List (κ × Pattern)} {text : List Char} {left right : κ} {leftLength rightLength : Nat}
    (hleft : Longest rules text left leftLength) (hright : Longest rules text right rightLength) :
    left = right ∧ leftLength = rightLength := by
  obtain hlt | heq | hlt := Nat.lt_trichotomy leftLength rightLength
  · exact absurd hright.firstMatch (hleft.not_longer _ hlt hright.le_length _)
  · subst heq
    exact ⟨hleft.firstMatch.unique hright.firstMatch, rfl⟩
  · exact absurd hleft.firstMatch (hright.not_longer _ hlt hleft.le_length _)

/-- What is found where the text is about to go on is the best match so far, or the empty match here. -/
theorem here_eq (rules : List (κ × Pattern)) (passed : Nat) (best : Option (κ × Nat)) :
    (∃ name, FirstMatch rules [] name ∧ longestFrom.here rules passed best = Option.some (name, passed)) ∨
      ((∀ name, ¬FirstMatch rules [] name) ∧ longestFrom.here rules passed best = best) := by
  rw [longestFrom.here]
  split
  · next name pattern hfind => exact .inl ⟨name, firstMatch_nil_iff.mpr (by rw [hfind]; rfl), rfl⟩
  · next hfind => exact .inr ⟨fun name hfirst => by simp [firstMatch_nil_iff, hfind] at hfirst, rfl⟩

theorem longestFrom_eq (rules : List (κ × Pattern)) (passed : Nat) (best : Option (κ × Nat)) (text : List Char) :
    (∃ name length, Longest rules text name length ∧
      longestFrom rules passed best text = Option.some (name, passed + length)) ∨
    ((∀ length ≤ text.length, ∀ name, ¬FirstMatch rules (text.take length) name) ∧
      longestFrom rules passed best text = best) := by
  induction text generalizing rules passed best with
  | nil =>
    rw [longestFrom]
    obtain ⟨name, hfirst, hhere⟩ | ⟨hnone, hhere⟩ := here_eq rules passed best
    · refine .inl ⟨name, 0, ⟨Nat.le_refl 0, hfirst, fun longer hlt hle => ?_⟩, hhere⟩
      exact absurd (Nat.lt_of_lt_of_le hlt hle) (Nat.lt_irrefl 0)
    · exact .inr ⟨fun length _ name => by simpa using hnone name, hhere⟩
  | cons c rest ih =>
    rw [longestFrom]
    generalize hremaining : (rules.filterMap fun (name, pattern) =>
      let next := pattern.derivative c
      if next.isNever then none else Option.some (name, next)) = remaining
    -- a match of at least one character is a match of what remains of the rules
    have hderivative (length : Nat) (name : κ) :
        FirstMatch rules ((c :: rest).take (length + 1)) name ↔ FirstMatch remaining (rest.take length) name := by
      rw [List.take_succ_cons, ← firstMatch_derivative_iff, hremaining]
    -- without a longer match, what is found is found here
    have hhere (hnone : ∀ length ≤ rest.length, ∀ name, ¬FirstMatch remaining (rest.take length) name) :
        (∃ name length, Longest rules (c :: rest) name length ∧
          longestFrom.here rules passed best = Option.some (name, passed + length)) ∨
        ((∀ length ≤ (c :: rest).length, ∀ name, ¬FirstMatch rules ((c :: rest).take length) name) ∧
          longestFrom.here rules passed best = best) := by
      have hlonger (length : Nat) (hle : length + 1 ≤ (c :: rest).length) (name : κ) :
          ¬FirstMatch rules ((c :: rest).take (length + 1)) name := by
        rw [hderivative]
        exact hnone length (Nat.le_of_succ_le_succ hle) name
      obtain ⟨name, hfirst, hhere⟩ | ⟨hnot, hhere⟩ := here_eq rules passed best
      · refine .inl ⟨name, 0, ⟨Nat.zero_le _, hfirst, fun longer hlt hle => ?_⟩, hhere⟩
        obtain ⟨length, rfl⟩ := Nat.exists_eq_succ_of_ne_zero (Nat.ne_of_gt hlt)
        exact hlonger length hle
      · refine .inr ⟨fun length hle => ?_, hhere⟩
        cases length with
        | zero => exact hnot
        | succ length => exact hlonger length hle
    split
    · next hempty =>
      refine hhere fun length _ name hfirst => ?_
      rw [List.isEmpty_iff.mp hempty] at hfirst
      exact hfirst
    · obtain ⟨name, length, hlongest, hresult⟩ | ⟨hnone, hresult⟩ := ih remaining (passed + 1)
        (longestFrom.here rules passed best)
      · refine .inl ⟨name, length + 1, ⟨Nat.succ_le_succ hlongest.le_length, ?_, fun longer hlt hle other => ?_⟩, ?_⟩
        · exact (hderivative length name).mpr hlongest.firstMatch
        · obtain ⟨longer, rfl⟩ := Nat.exists_eq_succ_of_ne_zero (Nat.ne_of_gt (Nat.zero_lt_of_lt hlt))
          rw [hderivative]
          exact hlongest.not_longer longer (Nat.lt_of_succ_lt_succ hlt) (Nat.le_of_succ_le_succ hle) other
        · rw [hresult, Nat.add_assoc, Nat.add_comm 1]
      · rw [hresult]
        exact hhere hnone

theorem longest?_eq_some_iff {rules : List (κ × Pattern)} {text : List Char} {name : κ} {length : Nat} :
    longest? rules text = Option.some (name, length) ↔ Longest rules text name length := by
  rw [longest?]
  obtain ⟨found, count, hlongest, hresult⟩ | ⟨hnone, hresult⟩ := longestFrom_eq rules 0 none text
  · rw [hresult, Nat.zero_add, Option.some.injEq, Prod.mk.injEq]
    constructor
    · rintro ⟨rfl, rfl⟩
      exact hlongest
    · exact hlongest.unique
  · rw [hresult]
    refine iff_of_false nofun fun hlongest => ?_
    exact hnone length hlongest.le_length name hlongest.firstMatch

theorem longest?_eq_none_iff {rules : List (κ × Pattern)} {text : List Char} :
    longest? rules text = none ↔ ∀ length ≤ text.length, ∀ name, ¬FirstMatch rules (text.take length) name := by
  rw [longest?]
  obtain ⟨found, count, hlongest, hresult⟩ | ⟨hnone, hresult⟩ := longestFrom_eq rules 0 none text
  · rw [hresult]
    exact iff_of_false nofun fun hnone => hnone count hlongest.le_length found hlongest.firstMatch
  · rw [hresult]
    exact iff_of_true rfl hnone

end Squirrel.Pattern
