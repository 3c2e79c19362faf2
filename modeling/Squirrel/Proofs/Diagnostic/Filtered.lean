import Mathlib.Data.List.Nodup
import Mathlib.Logic.Relation
import Squirrel.Script

/-!
# What filtering leaves

Filtering goes through a list once, and what it leaves can be said without following it: some diagnostics still stand
when their turn comes, namely those that none of the standing ones before them hides, and a diagnostic stays if none of
all that stood hides it. One that stood may be taken out later, but only by one behind it, so the last one that stood
stays, and so does the end of every chain of diagnostics that hide one another.
-/

namespace Squirrel

namespace DiagnosticKind

theorem suppresses_self (kind : DiagnosticKind) : kind.suppresses kind = false :=
  decide_eq_false (Nat.lt_irrefl kind.number)

theorem suppresses_trans {first second third : DiagnosticKind} (hfirst : first.suppresses second = true)
    (hsecond : second.suppresses third = true) : first.suppresses third = true :=
  decide_eq_true (Nat.lt_trans (of_decide_eq_true hfirst) (of_decide_eq_true hsecond))

theorem isStructural_of_isRootCause {kind : DiagnosticKind} (hroot : kind.isRootCause = true) :
    kind.isStructural = false := by
  cases kind with
  | expectedExpression | expectedStatement | expectedIdentifier | expectedConstValue | expectedTerminator
  | expectedMember => rfl
  | _ => cases hroot

theorem number_lt_of_isStructural {kind : DiagnosticKind} (hstructural : kind.isStructural = true) : kind.number < 4 := by
  cases kind with
  | unclosedParen | unclosedBracket | unclosedBrace | unclosedAttribute => decide
  | _ => cases hstructural

theorem le_number_of_isRootCause {kind : DiagnosticKind} (hroot : kind.isRootCause = true) : 4 ≤ kind.number := by
  cases kind with
  | expectedExpression | expectedStatement | expectedIdentifier | expectedConstValue | expectedTerminator
  | expectedMember => decide
  | _ => cases hroot

/-- By priority alone an unclosed delimiter comes before every missing construct. -/
theorem suppresses_of_isStructural {delimiter rootCause : DiagnosticKind} (hstructural : delimiter.isStructural = true)
    (hroot : rootCause.isRootCause = true) : delimiter.suppresses rootCause = true :=
  decide_eq_true (Nat.lt_of_lt_of_le (number_lt_of_isStructural hstructural) (le_number_of_isRootCause hroot))

end DiagnosticKind

namespace Diagnostic

/-! ### Which diagnostics hide which -/

@[simp] theorem hides_self (diagnostic : Diagnostic) : diagnostic.hides diagnostic = false := by
  rw [hides, if_neg fun hinside => Nat.lt_irrefl _ hinside.1, if_neg fun hstart => hstart rfl,
    DiagnosticKind.suppresses_self, Bool.or_false, Bool.and_eq_false_imp]
  exact DiagnosticKind.isStructural_of_isRootCause

theorem hides_of_lt {outer inner : Diagnostic} (hstart : outer.span.start < inner.span.start) :
    outer.hides inner = true ↔ inner.span.stop ≤ outer.span.stop ∧ outer.kind.suppresses inner.kind = true := by
  rw [hides]
  split
  · next hinside => exact ⟨fun hsuppress => ⟨hinside.2, hsuppress⟩, And.right⟩
  · next houtside =>
    rw [if_pos (Nat.ne_of_lt hstart)]
    exact ⟨nofun, fun ⟨hstop, _⟩ => absurd ⟨hstart, hstop⟩ houtside⟩

theorem hides_of_eq {outer inner : Diagnostic} (hstart : outer.span.start = inner.span.start) :
    outer.hides inner =
      (outer.kind.isRootCause && inner.kind.isStructural || outer.kind.suppresses inner.kind) := by
  rw [hides, if_neg fun hinside => Nat.ne_of_lt hinside.1 hstart, if_neg fun hne => hne hstart]

theorem start_le_of_hides {outer inner : Diagnostic} (hhides : outer.hides inner = true) :
    outer.span.start ≤ inner.span.start := by
  rw [hides] at hhides
  split at hhides
  · next hinside => exact Nat.le_of_lt hinside.1
  · split at hhides
    · cases hhides
    · next heq => exact Nat.le_of_eq (Decidable.not_not.mp heq)

/-- Spans that lie inside each other are hidden from the outermost one on. -/
theorem hides_trans_of_lt {outer middle inner : Diagnostic} (houter : outer.span.start < middle.span.start)
    (hinner : middle.span.start < inner.span.start) (hfirst : outer.hides middle = true)
    (hsecond : middle.hides inner = true) : outer.hides inner = true := by
  obtain ⟨hmiddleStop, hmiddle⟩ := (hides_of_lt houter).mp hfirst
  obtain ⟨hinnerStop, hsuppress⟩ := (hides_of_lt hinner).mp hsecond
  exact (hides_of_lt (Nat.lt_trans houter hinner)).mpr
    ⟨Nat.le_trans hinnerStop hmiddleStop, DiagnosticKind.suppresses_trans hmiddle hsuppress⟩

/-! ### Taking turns -/

/-- A diagnostic still stands at its turn if none of those that stood before it hides it. -/
def takeTurn (stood : List Diagnostic) (current : Diagnostic) : List Diagnostic :=
  if stood.any (·.hides current) then stood else stood ++ [current]

/-- The diagnostics that still stand when their turn comes. -/
def standing (diagnostics : List Diagnostic) : List Diagnostic := diagnostics.foldl takeTurn []

/-- Those that none of the hiders hides. -/
def spared (hiders diagnostics : List Diagnostic) : List Diagnostic :=
  diagnostics.filter fun diagnostic => !hiders.any (·.hides diagnostic)

variable {diagnostics stood hiders front rest : List Diagnostic} {current diagnostic : Diagnostic}

attribute [local grind =] takeTurn standing spared

theorem takeTurn_of_hidden (hhidden : stood.any (·.hides current) = true) : takeTurn stood current = stood :=
  if_pos hhidden

theorem takeTurn_of_spared (hspared : stood.any (·.hides current) = false) :
    takeTurn stood current = stood ++ [current] := by
  rw [takeTurn, hspared, if_neg Bool.false_ne_true]

theorem mem_spared : diagnostic ∈ spared hiders diagnostics ↔
    diagnostic ∈ diagnostics ∧ ∀ hider ∈ hiders, hider.hides diagnostic = false := by
  rw [spared, List.mem_filter, Bool.not_eq_true', List.any_eq_false]
  simp only [Bool.not_eq_true]

theorem spared_cons_of_hidden (hhidden : stood.any (·.hides current) = true) :
    spared stood (current :: rest) = spared stood rest := by
  rw [spared, List.filter_cons_of_neg (by simpa using hhidden), spared]

theorem spared_cons_of_spared (hspared : stood.any (·.hides current) = false) :
    spared stood (current :: rest) = current :: spared stood rest := by
  rw [spared, List.filter_cons_of_pos (by rw [hspared]; rfl), spared]

@[simp] theorem spared_nil : spared hiders [] = [] := rfl

theorem spared_append (left right : List Diagnostic) :
    spared hiders (left ++ right) = spared hiders left ++ spared hiders right := List.filter_append left right

/-- One more hider takes out what it hides. -/
theorem spared_concat (hider : Diagnostic) :
    spared (hiders ++ [hider]) diagnostics = (spared hiders diagnostics).filter (!hider.hides ·) := by
  rw [spared, spared, List.filter_filter]
  refine List.filter_congr fun diagnostic _ => ?_
  rw [List.any_append, List.any_cons, List.any_nil, Bool.or_false, Bool.not_or, Bool.and_comm]

/-- A pass that has come to some place holds what is spared by all that stood up to there, on both sides of the place. -/
theorem filterFrom_spared (stood seen rest : List Diagnostic) :
    filterFrom (spared stood seen) (spared stood rest) = spared (rest.foldl takeTurn stood) (seen ++ rest) := by
  induction rest generalizing stood seen with
  | nil => rw [spared_nil, filterFrom, List.foldl_nil, List.append_nil]
  | cons current rest ih =>
    have hsplit : seen ++ current :: rest = seen ++ [current] ++ rest := by
      rw [List.append_assoc, List.singleton_append]
    rw [List.foldl_cons, hsplit]
    cases hturn : stood.any (·.hides current) with
    | true =>
      have hseen : spared stood (seen ++ [current]) = spared stood seen := by
        rw [spared_append, spared_cons_of_hidden hturn, spared_nil, List.append_nil]
      rw [takeTurn_of_hidden hturn, spared_cons_of_hidden hturn, ← hseen, ih]
    | false =>
      have hseen : (spared stood seen).filter (!current.hides ·) ++ [current]
          = spared (stood ++ [current]) (seen ++ [current]) := by
        rw [spared_concat, spared_append, spared_cons_of_spared hturn, spared, List.filter_append,
          List.filter_cons_of_pos (by rw [hides_self]; rfl)]
        rfl
      rw [takeTurn_of_spared hturn, spared_cons_of_spared hturn, filterFrom, hseen, ← spared_concat, ih]

/-- A diagnostic stays if none of those that stood at their turn hides it. -/
theorem filtered_eq (diagnostics : List Diagnostic) : filtered diagnostics = spared (standing diagnostics) diagnostics := by
  have hnone (all : List Diagnostic) : spared [] all = all := List.filter_eq_self.mpr fun _ _ => rfl
  have hpass := filterFrom_spared [] [] diagnostics
  rwa [hnone, hnone, List.nil_append] at hpass

theorem mem_filtered : diagnostic ∈ filtered diagnostics ↔
    diagnostic ∈ diagnostics ∧ ∀ hider ∈ standing diagnostics, hider.hides diagnostic = false := by
  rw [filtered_eq, mem_spared]

/-! ### Who stands -/

theorem subset_foldl_takeTurn : stood ⊆ rest.foldl takeTurn stood := by
  induction rest generalizing stood with
  | nil => exact List.Subset.refl stood
  | cons current rest ih =>
    refine List.Subset.trans ?_ ih
    rw [takeTurn]
    split
    · exact List.Subset.refl stood
    · exact List.subset_append_left stood [current]

theorem mem_of_mem_foldl_takeTurn (hmem : diagnostic ∈ rest.foldl takeTurn stood) :
    diagnostic ∈ stood ∨ diagnostic ∈ rest := by
  induction rest generalizing stood with
  | nil => exact .inl hmem
  | cons current rest ih =>
    obtain hturn | hrest := ih hmem
    · rw [takeTurn] at hturn
      split at hturn
      · exact .inl hturn
      · exact (List.mem_append.mp hturn).imp_right fun hlast => List.mem_cons.mpr (.inl (List.mem_singleton.mp hlast))
    · exact .inr (List.mem_cons_of_mem current hrest)

theorem mem_of_mem_standing (hmem : diagnostic ∈ standing diagnostics) : diagnostic ∈ diagnostics :=
  (mem_of_mem_foldl_takeTurn hmem).resolve_left List.not_mem_nil

/-- Up to a place in the list only what stands before it matters. -/
theorem standing_append (front rest : List Diagnostic) :
    standing (front ++ rest) = rest.foldl takeTurn (standing front) := by
  rw [standing, List.foldl_append, standing]

theorem mem_standing_append (hmem : diagnostic ∈ standing front) : diagnostic ∈ standing (front ++ rest) := by
  rw [standing_append]
  exact subset_foldl_takeTurn hmem

theorem mem_standing_of_spared (hspared : (standing front).any (·.hides current) = false) :
    current ∈ standing (front ++ current :: rest) := by
  rw [standing_append, List.foldl_cons, takeTurn_of_spared hspared]
  exact subset_foldl_takeTurn (List.mem_append_right _ List.mem_cons_self)

/-- What does not stand at its turn hides nothing. -/
theorem mem_of_mem_standing_of_hidden (hhidden : (standing front).any (·.hides current) = true)
    (hmem : diagnostic ∈ standing (front ++ current :: rest)) : diagnostic ∈ front ++ rest := by
  rw [standing_append, List.foldl_cons, takeTurn_of_hidden hhidden] at hmem
  exact List.mem_append.mpr ((mem_of_mem_foldl_takeTurn hmem).imp_left mem_of_mem_standing)

/-- Whatever does not stand at its turn is hidden by something that does. -/
theorem mem_standing_or_hidden (hmem : diagnostic ∈ diagnostics) :
    diagnostic ∈ standing diagnostics ∨ ∃ hider ∈ standing diagnostics, hider.hides diagnostic = true := by
  obtain ⟨front, rest, rfl⟩ := List.append_of_mem hmem
  cases hturn : (standing front).any (·.hides diagnostic) with
  | true =>
    obtain ⟨hider, hstood, hhides⟩ := List.any_eq_true.mp hturn
    exact .inr ⟨hider, mem_standing_append hstood, hhides⟩
  | false => exact .inl (mem_standing_of_spared hturn)

/-- What stays has stood at its turn. -/
theorem mem_standing_of_mem_filtered (hmem : diagnostic ∈ filtered diagnostics) : diagnostic ∈ standing diagnostics := by
  obtain ⟨hlist, hspared⟩ := mem_filtered.mp hmem
  exact (mem_standing_or_hidden hlist).resolve_right fun ⟨hider, hstands, hhides⟩ =>
    Bool.eq_false_iff.mp (hspared hider hstands) hhides

theorem pairwise_foldl_takeTurn (hstood : stood.Pairwise fun earlier later => earlier.hides later = false) :
    (rest.foldl takeTurn stood).Pairwise fun earlier later => earlier.hides later = false := by
  induction rest generalizing stood with
  | nil => exact hstood
  | cons current rest ih =>
    refine ih ?_
    cases hturn : stood.any (·.hides current) with
    | true => rwa [takeTurn_of_hidden hturn]
    | false =>
      rw [takeTurn_of_spared hturn, List.pairwise_append]
      refine ⟨hstood, List.pairwise_singleton _ _, fun earlier hearlier later hlater => ?_⟩
      obtain rfl := List.mem_singleton.mp hlater
      simpa using List.any_eq_false.mp hturn earlier hearlier

/-- Of those that stand, none hides one behind it. -/
theorem pairwise_standing (diagnostics : List Diagnostic) :
    (standing diagnostics).Pairwise fun earlier later => earlier.hides later = false :=
  pairwise_foldl_takeTurn .nil

/-! ### Chains of hiders -/

/-- The first diagnostic hides the second one, and both are in the list. -/
def HidesIn (diagnostics : List Diagnostic) (outer inner : Diagnostic) : Prop :=
  outer ∈ diagnostics ∧ inner ∈ diagnostics ∧ outer.hides inner = true

/-- Going from a diagnostic that stood to one that hides it, and on from there, one moves towards the end of the list and
comes to one that stays. -/
theorem exists_chain_of_standing {before after : List Diagnostic} (hstanding : standing diagnostics = before ++ after) :
    ∀ stood ∈ after, ∃ kept ∈ filtered diagnostics, Relation.ReflTransGen (HidesIn diagnostics) kept stood := by
  induction after generalizing before with
  | nil => exact nofun
  | cons current after ih =>
    have hlater := ih (show standing diagnostics = before ++ [current] ++ after by
      rw [hstanding, List.append_assoc, List.singleton_append])
    refine List.forall_mem_cons.mpr ⟨?_, hlater⟩
    have hordered := List.pairwise_append.mp (hstanding ▸ pairwise_standing diagnostics)
    have hcurrent : current ∈ standing diagnostics := hstanding ▸ List.mem_append_right _ List.mem_cons_self
    by_cases hhidden : ∃ hider ∈ standing diagnostics, hider.hides current = true
    · obtain ⟨hider, hstands, hhides⟩ := hhidden
      have hside := List.mem_append.mp (hstanding ▸ hstands)
      -- one in front would not have let it stand
      have hbehind : hider ∈ after := by
        obtain hbefore | hhere := hside
        · have hnot := hordered.2.2 hider hbefore current List.mem_cons_self
          exact absurd hhides (Bool.eq_false_iff.mp hnot)
        · refine (List.mem_cons.mp hhere).resolve_left ?_
          rintro rfl
          exact Bool.eq_false_iff.mp (hides_self hider) hhides
      obtain ⟨kept, hkept, hchain⟩ := hlater hider hbehind
      exact ⟨kept, hkept, hchain.tail ⟨mem_of_mem_standing hstands, mem_of_mem_standing hcurrent, hhides⟩⟩
    · refine ⟨current, mem_filtered.mpr ⟨mem_of_mem_standing hcurrent, fun hider hstands => ?_⟩, .refl⟩
      exact Bool.eq_false_iff.mpr fun hhides => hhidden ⟨hider, hstands, hhides⟩

/-- What is taken out is hidden by one that stood at its turn. -/
theorem not_mem_filtered_iff (hmem : diagnostic ∈ diagnostics) :
    diagnostic ∉ filtered diagnostics ↔ ∃ hider ∈ standing diagnostics, hider.hides diagnostic = true := by
  rw [mem_filtered, not_and]
  constructor
  · intro hremoved
    refine Decidable.byContradiction fun hnone => hremoved hmem fun hider hstands => ?_
    exact Bool.eq_false_iff.mpr fun hhides => hnone ⟨hider, hstands, hhides⟩
  · rintro ⟨hider, hstands, hhides⟩ - hspared
    exact Bool.eq_false_iff.mp (hspared hider hstands) hhides

/-- From what is taken out a chain of hiders leads to one that stays. -/
theorem exists_chain (hmem : diagnostic ∈ diagnostics) (hremoved : diagnostic ∉ filtered diagnostics) :
    ∃ kept ∈ filtered diagnostics, Relation.TransGen (HidesIn diagnostics) kept diagnostic := by
  obtain ⟨hider, hstands, hhides⟩ := (not_mem_filtered_iff hmem).mp hremoved
  obtain ⟨kept, hkept, hchain⟩ := exists_chain_of_standing (List.nil_append _).symm hider hstands
  exact ⟨kept, hkept, .tail' hchain ⟨mem_of_mem_standing hstands, hmem, hhides⟩⟩

/-- Where no two diagnostics start at the same place, the first of a chain hides the last. -/
theorem hides_of_chain (hstarts : (diagnostics.map (·.span.start)).Nodup) {outer inner : Diagnostic}
    (hchain : Relation.TransGen (HidesIn diagnostics) outer inner) :
    outer.span.start < inner.span.start ∧ outer.hides inner = true := by
  have hstep {outer inner : Diagnostic} (hhides : HidesIn diagnostics outer inner) :
      outer.span.start < inner.span.start := by
    refine Nat.lt_of_le_of_ne (start_le_of_hides hhides.2.2) fun heq => ?_
    obtain rfl := List.inj_on_of_nodup_map hstarts hhides.1 hhides.2.1 heq
    exact Bool.eq_false_iff.mp (hides_self outer) hhides.2.2
  induction hchain with
  | single hhides => exact ⟨hstep hhides, hhides.2.2⟩
  | tail _ hhides ih =>
    exact ⟨Nat.lt_trans ih.1 (hstep hhides), hides_trans_of_lt ih.1 (hstep hhides) ih.2 hhides.2.2⟩

/-! ### What filtering leaves -/

/-- A list of diagnostics without those that are noise: its order is kept, no diagnostic left hides another, each that no
other one hides is left in its place, and something is left of a list that is not empty. -/
structure IsSettled (diagnostics kept : List Diagnostic) : Prop where
  sublist : kept.Sublist diagnostics
  quiet : ∀ outer ∈ kept, ∀ inner ∈ kept, outer.hides inner = false
  unhidden : ∀ {before after : List Diagnostic} {diagnostic : Diagnostic}, diagnostics = before ++ diagnostic :: after →
    (∀ other ∈ before ++ after, other.hides diagnostic = false) →
      ∃ left right, kept = left ++ diagnostic :: right ∧ left.Sublist before ∧ right.Sublist after
  nonempty : diagnostics ≠ [] → kept ≠ []

theorem quiet_filtered : ∀ outer ∈ filtered diagnostics, ∀ inner ∈ filtered diagnostics, outer.hides inner = false :=
  fun outer houter _ hinner => (mem_filtered.mp hinner).2 outer (mem_standing_of_mem_filtered houter)

theorem filtered_of_quiet (hquiet : ∀ outer ∈ diagnostics, ∀ inner ∈ diagnostics, outer.hides inner = false) :
    filtered diagnostics = diagnostics := by
  rw [filtered_eq, spared, List.filter_eq_self]
  intro inner hinner
  rw [Bool.not_eq_true', List.any_eq_false]
  exact fun outer hstands => Bool.eq_false_iff.mp (hquiet outer (mem_of_mem_standing hstands) inner hinner)

theorem filtered_ne_nil (hnonempty : diagnostics ≠ []) : filtered diagnostics ≠ [] := by
  intro hnone
  obtain ⟨first, hfirst⟩ := List.exists_mem_of_ne_nil diagnostics hnonempty
  obtain ⟨kept, hkept, -⟩ := exists_chain hfirst (by rw [hnone]; exact List.not_mem_nil)
  rw [hnone] at hkept
  cases hkept

theorem exists_place_in_filtered {before after : List Diagnostic}
    (hothers : ∀ other ∈ before ++ after, other.hides diagnostic = false) :
    ∃ left right, filtered (before ++ diagnostic :: after) = left ++ diagnostic :: right ∧ left.Sublist before ∧
      right.Sublist after := by
  let stood := standing (before ++ diagnostic :: after)
  have hspared : stood.any (·.hides diagnostic) = false := by
    refine List.any_eq_false.mpr fun hider hstands => Bool.eq_false_iff.mp ?_
    obtain hbefore | hafter := List.mem_append.mp (mem_of_mem_standing hstands)
    · exact hothers hider (List.mem_append_left _ hbefore)
    · obtain rfl | hafter := List.mem_cons.mp hafter
      · exact hides_self hider
      · exact hothers hider (List.mem_append_right _ hafter)
  refine ⟨spared stood before, spared stood after, ?_, List.filter_sublist, List.filter_sublist⟩
  rw [filtered_eq, spared_append, spared_cons_of_spared hspared]

/-- Filtering settles every list at once, and so leaves an error of every script that is not valid. -/
theorem isSettled_filtered (diagnostics : List Diagnostic) :
    IsSettled diagnostics (filtered diagnostics) ∧ filtered (filtered diagnostics) = filtered diagnostics ∧
      ∀ script : Script, script.isValid = false → ∃ shown ∈ filtered script.diagnostics, shown.isError = true := by
  refine ⟨⟨?_, quiet_filtered, ?_, filtered_ne_nil⟩, filtered_of_quiet quiet_filtered, fun script hinvalid => ?_⟩
  · rw [filtered_eq]
    exact List.filter_sublist
  · rintro before after diagnostic rfl hothers
    exact exists_place_in_filtered hothers
  · have hreported : script.diagnostics ≠ [] := by
      intro hnone
      rw [Script.isValid, hnone] at hinvalid
      cases hinvalid
    obtain ⟨shown, hshown⟩ := List.exists_mem_of_ne_nil _ (filtered_ne_nil hreported)
    exact ⟨shown, hshown, rfl⟩

/-! ### Why diagnostics are taken out -/

/-- What is taken out is what is hidden by some diagnostic that still stood at its turn. Such a one may be taken out
itself by one behind it, but from each that is taken out a chain of hiders leads to one that stays; and that one hides
it directly where no two diagnostics start at the same place. -/
theorem not_mem_filtered (hmem : diagnostic ∈ diagnostics) :
    (diagnostic ∉ filtered diagnostics ↔ ∃ hider ∈ standing diagnostics, hider.hides diagnostic = true) ∧
      (diagnostic ∉ filtered diagnostics →
        ∃ kept ∈ filtered diagnostics, Relation.TransGen (HidesIn diagnostics) kept diagnostic ∧
          ((diagnostics.map (·.span.start)).Nodup → kept.hides diagnostic = true)) := by
  refine ⟨not_mem_filtered_iff hmem, fun hremoved => ?_⟩
  obtain ⟨kept, hkept, hchain⟩ := exists_chain hmem hremoved
  exact ⟨kept, hkept, hchain, fun hstarts => (hides_of_chain hstarts hchain).2⟩

/-- What is taken out need not be hidden by anything that stays: here the short diagnostic hides the long one at the same
start, and is then hidden by the wide one behind both, which ends before the long one does. -/
theorem removed_without_hider :
    let short := report .expectedStatement ⟨5, 6⟩ none
    let long := report .unexpectedToken ⟨5, 20⟩ none
    let diagnostics := [short, long, report .unclosedParen ⟨0, 10⟩ none]
    short ∉ filtered diagnostics ∧ long ∉ filtered diagnostics ∧ short.hides long = true ∧
      ∀ kept ∈ filtered diagnostics, kept.hides long = false := by
  intro short long diagnostics
  rw [filtered_eq]
  decide

theorem not_mem_filtered_nested :
    let diagnostics := [report .expectedStatement ⟨2, 8⟩ none, report .unexpectedToken ⟨3, 5⟩ none,
      report .unclosedParen ⟨0, 10⟩ none]
    let removed := report .unexpectedToken ⟨3, 5⟩ none
    removed ∈ diagnostics ∧ removed ∉ filtered diagnostics ∧ (diagnostics.map (·.span.start)).Nodup ∧
      ∃ kept ∈ filtered diagnostics, Relation.TransGen (HidesIn diagnostics) kept removed ∧ kept.hides removed = true := by
  intro diagnostics removed
  have hmem : removed ∈ diagnostics := by decide
  have hremoved : removed ∉ filtered diagnostics := by
    rw [filtered_eq]
    decide
  have hstarts : (diagnostics.map (·.span.start)).Nodup := by decide
  obtain ⟨kept, hkept, hchain, hhides⟩ := (not_mem_filtered hmem).2 hremoved
  exact ⟨hmem, hremoved, hstarts, kept, hkept, hchain, hhides hstarts⟩

/-! ### Missing constructs and unclosed delimiters -/

/-- A diagnostic that only another one hides stays if that one is gone before its turn. -/
theorem mem_filtered_of_hidden (hhidden : (standing front).any (·.hides current) = true)
    (hmem : diagnostic ∈ front ++ current :: rest) (hothers : ∀ other ∈ front ++ rest, other.hides diagnostic = false) :
    diagnostic ∈ filtered (front ++ current :: rest) ∧ current ∉ filtered (front ++ current :: rest) := by
  refine ⟨mem_filtered.mpr ⟨hmem, fun hider hstands => hothers hider (mem_of_mem_standing_of_hidden hhidden hstands)⟩, ?_⟩
  obtain ⟨hider, hstood, hhides⟩ := List.any_eq_true.mp hhidden
  refine (not_mem_filtered_iff (List.mem_append_right _ List.mem_cons_self)).mpr ⟨hider, mem_standing_append hstood, hhides⟩

/-- At one start a missing construct and an unclosed delimiter hide each other. -/
theorem hides_each_other {rootCause delimiter : Diagnostic} (hroot : rootCause.kind.isRootCause = true)
    (hstructural : delimiter.kind.isStructural = true) (hstart : rootCause.span.start = delimiter.span.start) :
    rootCause.hides delimiter = true ∧ delimiter.hides rootCause = true := by
  rw [hides_of_eq hstart, hides_of_eq hstart.symm, hroot, hstructural,
    DiagnosticKind.suppresses_of_isStructural hstructural hroot, Bool.or_true]
  exact ⟨rfl, rfl⟩

/-- Of a missing construct and an unclosed delimiter that start at the same place, the missing construct stays and the
delimiter goes if the missing construct was reported first. In the other order it stays only if the delimiter is hidden
before its turn. -/
theorem filtered_of_same_start {rootCause delimiter : Diagnostic} {before between after : List Diagnostic}
    (hroot : rootCause.kind.isRootCause = true) (hstructural : delimiter.kind.isStructural = true)
    (hstart : rootCause.span.start = delimiter.span.start)
    (hothers : ∀ other ∈ before ++ between ++ after, other.hides rootCause = false) :
    (rootCause ∈ filtered (before ++ rootCause :: between ++ delimiter :: after) ∧
        delimiter ∉ filtered (before ++ rootCause :: between ++ delimiter :: after)) ∧
      (rootCause ∈ filtered (before ++ delimiter :: between ++ rootCause :: after) ↔
        ∃ hider ∈ standing before, hider.hides delimiter = true) ∧
      (rootCause ∈ filtered (before ++ delimiter :: between ++ rootCause :: after) →
        delimiter ∉ filtered (before ++ delimiter :: between ++ rootCause :: after)) := by
  obtain ⟨hhides, hhidden⟩ := hides_each_other hroot hstructural hstart
  have hquiet : ∀ other ∈ rootCause :: (before ++ between ++ after), other.hides rootCause = false :=
    List.forall_mem_cons.mpr ⟨hides_self rootCause, hothers⟩
  have hfirst : rootCause ∈ standing (before ++ rootCause :: between) := by
    refine mem_standing_of_spared (List.any_eq_false.mpr fun other hstood => Bool.eq_false_iff.mp ?_)
    exact hothers other (List.mem_append_left _ (List.mem_append_left _ (mem_of_mem_standing hstood)))
  have hsplit : before ++ delimiter :: between ++ rootCause :: after
      = before ++ delimiter :: (between ++ rootCause :: after) := by rw [List.append_assoc, List.cons_append]
  have hgone (hturn : ∃ hider ∈ standing before, hider.hides delimiter = true) :
      rootCause ∈ filtered (before ++ delimiter :: (between ++ rootCause :: after)) ∧
        delimiter ∉ filtered (before ++ delimiter :: (between ++ rootCause :: after)) :=
    mem_filtered_of_hidden (List.any_eq_true.mpr hturn) (by simp) fun other hmem =>
      hquiet other (by simp only [List.mem_append, List.mem_cons] at hmem ⊢; tauto)
  have hturn (hkept : rootCause ∈ filtered (before ++ delimiter :: (between ++ rootCause :: after))) :
      ∃ hider ∈ standing before, hider.hides delimiter = true := by
    cases hstands : (standing before).any (·.hides delimiter) with
    | true => exact List.any_eq_true.mp hstands
    | false =>
      -- a delimiter that stands at its turn hides the missing construct
      have hnot := (mem_filtered.mp hkept).2 delimiter (mem_standing_of_spared hstands)
      exact absurd hhidden (Bool.eq_false_iff.mp hnot)
  rw [hsplit]
  refine ⟨?_, ⟨hturn, fun hhider => (hgone hhider).1⟩, fun hkept => (hgone (hturn hkept)).2⟩
  exact mem_filtered_of_hidden (List.any_eq_true.mpr ⟨rootCause, hfirst, hhides⟩) (by simp) fun other hmem =>
    hquiet other (by simp only [List.mem_append, List.mem_cons] at hmem ⊢; tauto)

/-- With no other diagnostic around, the one of the two that is reported first is the only one left. -/
theorem filtered_of_same_start_paren :
    let rootCause := report .expectedExpression ⟨3, 4⟩ none
    let delimiter := report .unclosedParen ⟨3, 10⟩ none
    (rootCause ∈ filtered [rootCause, delimiter] ∧ delimiter ∉ filtered [rootCause, delimiter]) ∧
      rootCause ∉ filtered [delimiter, rootCause] := by
  intro rootCause delimiter
  obtain ⟨hfirst, hsecond, -⟩ := @filtered_of_same_start rootCause delimiter [] [] [] rfl rfl rfl nofun
  refine ⟨hfirst, fun hkept => ?_⟩
  obtain ⟨hider, hstood, -⟩ := hsecond.mp hkept
  exact List.not_mem_nil hstood

end Diagnostic

end Squirrel
