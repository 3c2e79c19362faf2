import Squirrel.Diagnostic

/-!
# The order of diagnostics

Diagnostics are sorted by their starts, and those with the same start keep their order. So one more diagnostic at the head
of a list goes in front of those that start where it does or later, and one that starts before all others comes first.
-/

namespace Squirrel.Diagnostic

/-- The head of a list goes behind the diagnostics that start before it and in front of all others. -/
theorem sorted_cons (first : Diagnostic) (rest : List Diagnostic) :
    sorted (first :: rest) = (sorted rest).takeWhile (·.span.start < first.span.start) ++
      first :: (sorted rest).dropWhile (·.span.start < first.span.start) := by
  let le (left right : Diagnostic) : Bool := left.span.start ≤ right.span.start
  have htrans : ∀ a b c, le a b = true → le b c = true → le a c = true := by
    simp only [le, decide_eq_true_eq]
    exact fun _ _ _ => Nat.le_trans
  have htotal : ∀ a b, (le a b || le b a) = true := by
    simp only [le, Bool.or_eq_true, decide_eq_true_eq]
    exact fun _ _ => Nat.le_total _ _
  obtain ⟨before, after, hwhole, hrest, hbefore⟩ := List.mergeSort_cons htrans htotal first rest
  have hordered : (before ++ first :: after).Pairwise fun left right => le left right = true :=
    hwhole ▸ List.pairwise_mergeSort htrans htotal (first :: rest)
  have hafter : ∀ other ∈ after, first.span.start ≤ other.span.start := fun other hmem =>
    of_decide_eq_true ((List.pairwise_cons.mp (List.pairwise_append.mp hordered).2.1).1 other hmem)
  have hearlier : ∀ other ∈ before, decide (other.span.start < first.span.start) = true := by
    intro other hmem
    have hnot := hbefore other hmem
    simp only [le, Bool.not_eq_true', decide_eq_false_iff_not, Nat.not_le] at hnot
    exact decide_eq_true hnot
  have hstop : ∀ other ∈ after.head?, decide (other.span.start < first.span.start) = false := fun other hmem =>
    decide_eq_false (Nat.not_lt.mpr (hafter other (List.mem_of_head? hmem)))
  show List.mergeSort _ le = _
  rw [hwhole, sorted, show rest.mergeSort _ = before ++ after from hrest, List.takeWhile_append_of_pos hearlier,
    List.dropWhile_append_of_pos hearlier]
  cases after with
  | nil => simp
  | cons other others =>
    have hother := hstop other rfl
    rw [List.takeWhile_cons_of_neg (by simpa using hother), List.dropWhile_cons_of_neg (by simpa using hother),
      List.append_nil]

/-- A diagnostic that starts before all others comes first, wherever it stands in the list. -/
theorem sorted_of_least {first : Diagnostic} {left right : List Diagnostic}
    (hleast : ∀ other ∈ left ++ right, first.span.start < other.span.start) :
    sorted (left ++ first :: right) = first :: sorted (left ++ right) := by
  induction left with
  | nil =>
    have hnone : (sorted right).takeWhile (·.span.start < first.span.start) = [] := by
      cases hsorted : sorted right with
      | nil => rfl
      | cons other others =>
        have hmem : other ∈ right :=
          (List.mergeSort_perm right _).mem_iff.mp (show other ∈ sorted right by rw [hsorted]; exact List.mem_cons_self)
        have hlater := hleast other hmem
        rw [List.takeWhile_cons_of_neg]
        simpa using Nat.le_of_lt hlater
    have hall := List.takeWhile_append_dropWhile (p := (·.span.start < first.span.start)) (l := sorted right)
    rw [List.nil_append, List.nil_append, sorted_cons, hnone, List.nil_append]
    rw [hnone, List.nil_append] at hall
    rw [hall]
  | cons other others ih =>
    have hother := hleast other List.mem_cons_self
    rw [List.cons_append, List.cons_append, sorted_cons, ih fun next hmem => hleast next (List.mem_cons_of_mem _ hmem),
      List.takeWhile_cons_of_pos (by exact decide_eq_true hother),
      List.dropWhile_cons_of_pos (by exact decide_eq_true hother),
      sorted_cons other, List.cons_append]

end Squirrel.Diagnostic
