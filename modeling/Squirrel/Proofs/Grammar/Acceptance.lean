import Squirrel.Proofs.Grammar.Accept
import Squirrel.Proofs.Grammar.Allowance
import Squirrel.Proofs.Grammar.Valid

/-!
# Sources without a diagnostic

The productions describe exactly the sources that parse without a diagnostic: each such source has a derivation, and a
source with a derivation parses, within the allowances of the parser, to the tree of the derivation.
-/

namespace Squirrel

open Grammar

/-- The productions read a source with a derivation up to its end. -/
theorem Grammar.exists_gives_of_derives {tokens : List Token} {parts : List Tree} (sourceLength : Nat)
    (hderives : Derives [.part .script] (Word.ofTokens false false tokens) [] parts) :
    ∃ after, (call .script).Gives (State.initial .unbounded tokens sourceLength).view () after ∧
      ∃ placed, (State.initial .unbounded tokens sourceLength).view.Places placed after ∧
        placed.map Tree.trim = parts.map Tree.trim := by
  have haccepts : (call .script).Accepts false (Word.ofTokens false false tokens) () (parts.map Tree.trim) [] :=
    hderives.accepts rfl
  obtain ⟨after, hgives, -, hplaces⟩ :=
    haccepts (State.initial .unbounded tokens sourceLength).view rfl nofun
  exact ⟨after, hgives, hplaces⟩

theorem exists_parseTokens_of_derives {lexed : Lexed} {parts : List Tree} (sourceLength : Nat)
    (hlexed : lexed.diagnostics = [])
    (hderives : Derives [.part .script] (Word.ofTokens false false lexed.tokens) [] parts) :
    ∃ parsed, parseTokens .unbounded sourceLength lexed = .ok parsed ∧ parsed.diagnostics = [] ∧
      parsed.root.trim = .node .script (parts.map Tree.trim) := by
  obtain ⟨after, hgives, placed, hplaces, hplaced⟩ := exists_gives_of_derives sourceLength hderives
  obtain ⟨reached, hrun, rfl, hfree⟩ := exists_run_of_gives hgives
  obtain ⟨hreports, -, hwithin, -⟩ := hfree
  have hahead : reached.ahead = [] := by
    have hstopped := Nonterminal.stopped_of_run_script hrun
    simpa [State.stopped, State.atEnd, hwithin] using hstopped
  obtain ⟨htidy, new, hnew, hitems⟩ := hplaces (by rintro token ⟨⟩)
  have hroot : reached.passTrivia.placePending.placed = reached.pending.map State.leafOf ++ new := by
    have hbase : reached.placed = new ++ [] := hnew
    simp [State.placePending, State.passTrivia, hahead, hbase]
  have hpending : Tree.items (reached.pending.map State.leafOf).reverse = [] := htidy.items_leafOf
  have hkept : reached.passTrivia.placePending.reports = [] := hreports
  simp only [parseTokens, hrun, hwithin]
  refine ⟨_, rfl, ?_, ?_⟩
  · simp only [hlexed, hkept, List.reverse_nil, List.append_nil, Diagnostic.sorted, List.mergeSort_nil]
  · rw [hroot, Tree.trim_node, Tree.trimAll_eq, List.reverse_append, Tree.items_append, hitems, hpending,
      List.append_nil, hplaced]

theorem Word.mem_ofTokens {tokens : List Token} {token : Token} (hmem : token ∈ tokens)
    (hword : token.kind.isTrivia = false) (afterBreak joined : Bool) :
    ∃ word ∈ ofTokens afterBreak joined tokens, word.kind = token.kind := by
  induction tokens generalizing afterBreak joined with
  | nil => exact nomatch hmem
  | cons first rest ih =>
    obtain rfl | hmem := List.mem_cons.mp hmem
    · rw [ofTokens_word hword]
      exact ⟨_, List.mem_cons_self, rfl⟩
    · cases hfirst : first.kind.isTrivia with
      | true =>
        rw [ofTokens_trivia hfirst]
        exact ih hmem _ _
      | false =>
        obtain ⟨word, hword, hkind⟩ := ih hmem false true
        rw [ofTokens_word hfirst]
        exact ⟨word, List.mem_cons_of_mem _ hword, hkind⟩

/-- Where no word is rejected nothing is wrong with the tokens. -/
theorem Lexed.diagnostics_eq_nil {source : String}
    (haccepted : ∀ word ∈ Word.ofSource source, word.kind.isRejected = false) :
    (Lexed.ofSource source).diagnostics = [] := by
  have hplaced (offset : Nat) (lexemes : List Lexeme)
      (haccepted : ∀ piece ∈ placed offset lexemes, piece.1.kind ≠ .garbage) :
      (placed offset lexemes).filterMap (·.2) = [] := by
    induction lexemes generalizing offset with
    | nil => rfl
    | cons lexeme rest ih =>
      have hkind : lexeme.kind ≠ .garbage := haccepted (place offset lexeme) List.mem_cons_self
      have hfault : lexeme.fault? = none := by
        rw [Lexeme.kind] at hkind
        split at hkind
        · next hnone => exact hnone
        · exact absurd rfl hkind
      have hnone : (place offset lexeme).2 = none := by simp [place, hfault]
      rw [placed, List.filterMap_cons, hnone]
      exact ih _ fun piece hmem => haccepted piece (List.mem_cons_of_mem _ hmem)
  refine hplaced 0 _ fun piece hmem hgarbage => ?_
  have htoken : piece.1 ∈ (Lexed.ofSource source).tokens := List.mem_map_of_mem hmem
  obtain ⟨word, hword, hkind⟩ := Word.mem_ofTokens htoken (by rw [hgarbage]; rfl) false false
  have hnot := haccepted word hword
  rw [hkind, hgarbage] at hnot
  cases hnot

/-- A source whose words are not rejected and have a derivation parses without a diagnostic, to the tree of the
derivation. -/
theorem Script.exists_parse_of_derives {source : String} {parts : List Tree}
    (haccepted : ∀ word ∈ Word.ofSource source, word.kind.isRejected = false)
    (hderives : Derives [.part .script] (Word.ofSource source) [] parts) :
    ∃ script, Script.parse source .unbounded = .ok script ∧ script.diagnostics = [] ∧
      script.root.trim = .node .script (parts.map Tree.trim) := by
  obtain ⟨parsed, hparsed, hclean, hroot⟩ :=
    exists_parseTokens_of_derives source.utf8ByteSize (Lexed.diagnostics_eq_nil haccepted) hderives
  exact ⟨_, by rw [Script.parse, hparsed], hclean, hroot⟩

/-- Sources with the same words parse alike. -/
theorem Script.exists_parse_of_words {first second : String} {script : Script}
    (hwords : Word.ofSource first = Word.ofSource second) (hparse : Script.parse first .unbounded = .ok script)
    (hclean : script.diagnostics = []) :
    ∃ other, Script.parse second .unbounded = .ok other ∧ other.diagnostics = [] ∧
      other.root.trim = script.root.trim := by
  obtain ⟨⟨parts, hderives, hbuilt⟩, hwritten, -⟩ := Script.derives_of_parse hparse hclean
  rw [hwords] at hderives hwritten
  obtain ⟨other, hother, hcleanly, hroot⟩ :=
    Script.exists_parse_of_derives (fun word hmem => (hwritten word hmem).accepted) hderives
  exact ⟨other, hother, hcleanly, by rw [hroot, hbuilt.trim_eq]⟩

end Squirrel
