import Squirrel.Script

/-!
# Parses that can be computed

Cutting a text recurses on what is left of it, which no evaluation in the logic follows. Cutting with an allowance of
characters recurses on the allowance and gives the same lexemes; with it, whether a source parses is decided by a
computation.
-/

namespace Squirrel

namespace Lexeme

theorem cut_cons (c : Char) (rest : List Char) :
    cut (c :: rest) = ⟨(first (c :: rest)).1, c :: rest.take ((first (c :: rest)).2 - 1)⟩ ::
      cut (rest.drop ((first (c :: rest)).2 - 1)) := by
  rw [cut]

/-- Cuts a text of at most so many characters. -/
def cutWithin : Nat → List Char → List Lexeme
  | 0, _ => []
  | _ + 1, [] => []
  | allowance + 1, c :: rest =>
    let (form, length) := first (c :: rest)
    ⟨form, c :: rest.take (length - 1)⟩ :: cutWithin allowance (rest.drop (length - 1))

theorem cutWithin_eq_cut {allowance : Nat} {text : List Char} (henough : text.length ≤ allowance) :
    cutWithin allowance text = cut text := by
  induction allowance generalizing text with
  | zero =>
    rw [List.eq_nil_of_length_eq_zero (Nat.le_zero.mp henough), cutWithin, cut]
  | succ allowance ih =>
    cases text with
    | nil => rw [cutWithin, cut]
    | cons c rest =>
      have hrest : (rest.drop ((first (c :: rest)).2 - 1)).length ≤ allowance := by
        rw [List.length_drop]
        rw [List.length_cons] at henough
        omega
      rw [cut_cons, ← ih hrest]
      rfl

end Lexeme

/-- The tokens of a source, cut with an allowance for all of its characters. -/
def Lexed.computed (source : String) : Lexed :=
  let pieces := placed 0 (Lexeme.cutWithin source.toList.length source.toList)
  ⟨pieces.map (·.1), pieces.filterMap (·.2)⟩

theorem Lexed.computed_eq (source : String) : computed source = ofSource source := by
  rw [computed, Lexeme.cutWithin_eq_cut (Nat.le_refl _), ofSource]

namespace Script

/-- What the parse of a source comes to, if it has a result: its tree, and whether nothing is reported about it. -/
def outcome? (source : String) (limits : Limits) : Option (Tree × Bool) :=
  let lexed := Lexed.computed source
  match Nonterminal.run (nestingBound lexed.tokens.length) .script
      (State.initial limits lexed.tokens source.utf8ByteSize) with
  | .error _ => none
  | .ok state =>
    if state.exceeded?.isSome then none
    else
      let state := state.passTrivia.placePending
      some (.node .script state.placed.reverse, state.reports.isEmpty && lexed.diagnostics.isEmpty)

/-- A parse whose outcome passes a test. -/
theorem exists_of_outcome {source : String} {limits : Limits} {test : Tree × Bool → Bool}
    (houtcome : (outcome? source limits).any test = true) :
    ∃ script clean, parse source limits = .ok script ∧ (clean = true → script.diagnostics = []) ∧
      test (script.root, clean) = true := by
  simp only [outcome?, Lexed.computed_eq] at houtcome
  split at houtcome
  · simp at houtcome
  · next state hrun =>
    split at houtcome
    · simp at houtcome
    · next hwithin =>
      have hnone : state.exceeded? = none := by simpa using hwithin
      rw [Option.any_some] at houtcome
      refine ⟨_, _, by simp only [parse, parseTokens, hrun, hnone]; rfl, fun hclean => ?_, houtcome⟩
      simp only [Bool.and_eq_true, List.isEmpty_iff] at hclean
      rw [hclean.1, hclean.2]
      exact List.mergeSort_nil

/-- What is reported about a source, in no particular order, if its parse has a result. -/
def reports? (source : String) (limits : Limits) : Option (List Diagnostic) :=
  let lexed := Lexed.computed source
  match Nonterminal.run (nestingBound lexed.tokens.length) .script
      (State.initial limits lexed.tokens source.utf8ByteSize) with
  | .error _ => none
  | .ok state => if state.exceeded?.isSome then none else some (lexed.diagnostics ++ state.reports.reverse)

/-- A parse with a report that passes a test. -/
theorem exists_of_reports {source : String} {limits : Limits} {test : Diagnostic → Bool}
    (hreports : (reports? source limits).any (·.any test) = true) :
    ∃ script, parse source limits = .ok script ∧ ∃ diagnostic ∈ script.diagnostics, test diagnostic = true := by
  simp only [reports?, Lexed.computed_eq] at hreports
  split at hreports
  · simp at hreports
  · next state hrun =>
    split at hreports
    · simp at hreports
    · next hwithin =>
      have hnone : state.exceeded? = none := by simpa using hwithin
      obtain ⟨diagnostic, hmem, htest⟩ := List.any_eq_true.mp hreports
      refine ⟨_, by simp only [parse, parseTokens, hrun, hnone]; rfl, diagnostic, ?_, htest⟩
      exact List.mem_mergeSort.mpr hmem

end Script

end Squirrel
