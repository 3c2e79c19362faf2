import Squirrel.Proofs.Grammar.Sound.Statement
import Squirrel.Proofs.Parse.Lossless
import Squirrel.Proofs.Token.Lexeme

/-!
# Scripts without a diagnostic

A parse that reports nothing is a reading of the whole source, so the productions derive its words and its tree, and each
of its tokens is well written.
-/

namespace Squirrel

/-- The words of a source. -/
def Word.ofSource (source : String) : List Word := ofTokens false false (Lexed.ofSource source).tokens

theorem Diagnostic.eq_nil_of_sorted {diagnostics : List Diagnostic} (hsorted : sorted diagnostics = []) :
    diagnostics = [] := by
  have hperm := List.mergeSort_perm diagnostics fun left right => decide (left.span.start ≤ right.span.start)
  rw [show diagnostics.mergeSort _ = [] from hsorted] at hperm
  exact hperm.nil_eq.symm

/-- A clean parse: a state at the end that is reached without a report. -/
theorem exists_run_of_parseTokens {limits : Limits} {sourceLength : Nat} {lexed : Lexed} {parsed : Parsed}
    (hparse : parseTokens limits sourceLength lexed = .ok parsed) (hclean : parsed.diagnostics = []) :
    lexed.diagnostics = [] ∧ ∃ after, Nonterminal.run (nestingBound lexed.tokens.length) .script
        (State.initial limits lexed.tokens sourceLength) = .ok after ∧ after.Quiet ∧ after.ahead = [] ∧
      parsed.root = .node .script after.passTrivia.placePending.placed.reverse := by
  obtain ⟨after, hrun, hnone, rfl⟩ := parseTokens_ok hparse
  obtain ⟨hlexed, hreports⟩ := List.append_eq_nil_iff.mp (Diagnostic.eq_nil_of_sorted hclean)
  have hahead : after.ahead = [] := by
    have hstopped := Nonterminal.stopped_of_run_script hrun
    simpa [State.stopped, State.atEnd, hnone] using hstopped
  exact ⟨hlexed, after, hrun, ⟨List.reverse_eq_nil_iff.mp hreports, hnone⟩, hahead, rfl⟩

theorem derives_of_parseTokens {limits : Limits} {sourceLength : Nat} {lexed : Lexed} {parsed : Parsed}
    (hparse : parseTokens limits sourceLength lexed = .ok parsed) (hclean : parsed.diagnostics = [])
    (haccepted : lexed.diagnostics = [] → ∀ token ∈ lexed.tokens, token.kind.isRejected = false) :
    ∃ parts, Derives [.part .script] (Word.ofTokens false false lexed.tokens) [] parts ∧
      parsed.root.BuiltOf .script parts := by
  obtain ⟨hlexed, after, hrun, hquiet, hahead, hroot⟩ := exists_run_of_parseTokens hparse hclean
  have hsound : (State.initial limits lexed.tokens sourceLength).Sound :=
    ⟨haccepted hlexed, fun hlast => absurd rfl hlast⟩
  have hread := Nonterminal.read_of_run hrun hsound hquiet
  obtain ⟨parts, hderives, hplaces⟩ := (Nonterminal.soundCalls_read _).script hread
  have hwords : after.view.words = [] := by
    rw [View.words, show after.view.ahead = [] from hahead]
    rfl
  rw [hwords] at hderives
  obtain ⟨htidy, new, hnew, hparts⟩ := hplaces (by rintro token ⟨⟩)
  refine ⟨parts, hderives, after.passTrivia.placePending.placed.reverse, hroot, ?_⟩
  have hplaced : after.passTrivia.placePending.placed = after.pending.map State.leafOf ++ new := by
    have hbase : after.placed = new ++ [] := hnew
    simp [State.placePending, State.passTrivia, hahead, hbase]
  have hpending : Tree.items (after.pending.map State.leafOf).reverse = [] := htidy.items_leafOf
  rw [hplaced, List.reverse_append, Tree.items_append, hparts, hpending, List.append_nil]

theorem Word.exists_token_of_mem {tokens : List Token} {afterBreak joined : Bool} {word : Word}
    (hmem : word ∈ ofTokens afterBreak joined tokens) : ∃ token ∈ tokens, word.leaf = ⟨token.kind, token.text⟩ := by
  induction tokens generalizing afterBreak joined with
  | nil => exact nomatch hmem
  | cons token rest ih =>
    cases htrivia : token.kind.isTrivia with
    | true =>
      rw [ofTokens_trivia htrivia] at hmem
      obtain ⟨other, hother, hleaf⟩ := ih hmem
      exact ⟨other, List.mem_cons_of_mem _ hother, hleaf⟩
    | false =>
      rw [ofTokens_word htrivia] at hmem
      obtain rfl | hmem := List.mem_cons.mp hmem
      · exact ⟨token, List.mem_cons_self, rfl⟩
      · obtain ⟨other, hother, hleaf⟩ := ih hmem
        exact ⟨other, List.mem_cons_of_mem _ hother, hleaf⟩

/-- A script without a diagnostic is derived from its words, and all its tokens are well written. -/
theorem Script.derives_of_parse {source : String} {limits : Limits} {script : Script}
    (hparse : Script.parse source limits = .ok script) (hclean : script.diagnostics = []) :
    (∃ parts, Derives [.part .script] (Word.ofSource source) [] parts ∧ script.root.BuiltOf .script parts) ∧
      (∀ word ∈ Word.ofSource source, word.leaf.WellWritten) ∧ ∀ leaf ∈ script.root.leaves, leaf.WellWritten := by
  obtain ⟨parsed, hparsed, rfl⟩ := Script.parse_ok hparse
  have hquiet : parsed.diagnostics = [] := hclean
  have hlexed := (exists_run_of_parseTokens hparsed hquiet).1
  have hwritten : ∀ token ∈ (Lexed.ofSource source).tokens, Leaf.WellWritten ⟨token.kind, token.text⟩ :=
    fun token hmem => Lexed.wellWritten_of_mem_tokens hlexed hmem
  refine ⟨derives_of_parseTokens hparsed hquiet fun _ token hmem => (hwritten token hmem).accepted,
    fun word hmem => ?_, fun leaf hmem => ?_⟩
  · obtain ⟨token, htoken, hleaf⟩ := Word.exists_token_of_mem hmem
    exact hleaf ▸ hwritten token htoken
  · have hmem : leaf ∈ parsed.root.leaves := hmem
    rw [leaves_root_of_parseTokens hparsed] at hmem
    obtain ⟨token, htoken, rfl⟩ := List.mem_map.mp hmem
    exact hwritten token htoken

end Squirrel
