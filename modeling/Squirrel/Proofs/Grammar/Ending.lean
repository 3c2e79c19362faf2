import Squirrel.Proofs.Grammar.Orderly
import Squirrel.Proofs.Parse.Evaluation
import Squirrel.Proofs.Token.Fault

/-!
# Where the source ends too early

That the source ended too early is reported once, for a report about its end keeps all later ones back. Either nothing
but the end was in sight, or a delimiter was still open, and then the report is about one that is never closed in its
node. Rules give up the innermost delimiter first, so that the one reported is the innermost of those that are open where
no word is left.
-/

namespace Squirrel

/-- What is wrong with a token lies in it. -/
theorem Lexed.isLocal_of_mem {source : String} {diagnostic : Diagnostic}
    (hmem : diagnostic ∈ (Lexed.ofSource source).diagnostics) : diagnostic.IsLocal source.utf8ByteSize := by
  obtain ⟨piece, hpiece, hdiagnostic⟩ := Lexed.mem_diagnostics.mp hmem
  obtain ⟨-, hpos, hstop, hstage⟩ := Lexed.inside_of_placed hpiece hdiagnostic
  have htoken : piece.1 ∈ (Lexed.ofSource source).tokens := List.mem_map_of_mem hpiece
  have hinside := ((Lexed.tile_ofSource source).1.bounds.2 _ htoken).2
  refine ⟨?_, hpos, Nat.le_trans hstop hinside.2⟩
  revert hstage
  cases diagnostic.kind <;> decide

/-! ### Reports about the end -/

/-- At most one diagnostic is about the end of the source. It has an empty span, there, or goes from an opener that is
never closed in its node up to there, and is related to the opener. All other diagnostics are about some text. -/
theorem Script.ends_once_of_parse {source : String} {limits : Limits} {script : Script}
    (hparse : Script.parse source limits = .ok script) :
    (script.diagnostics.filter (·.kind.isEnd)).length ≤ 1 ∧
    ∀ diagnostic ∈ script.diagnostics,
      (diagnostic.span.isEmpty = true ↔ diagnostic.kind = .unexpectedEof) ∧
      (diagnostic.kind = .unexpectedEof → diagnostic.span = ⟨source.utf8ByteSize, source.utf8ByteSize⟩) ∧
      (diagnostic.kind.isStructural = true → ∃ opener : Opener, ∃ place ∈ script.root.places,
        opener.StandsOpen place.start place.tree.children ∧ diagnostic.Blames source.utf8ByteSize opener) ∧
      (diagnostic.kind ≠ .unexpectedEof → diagnostic.span.IsInside source.utf8ByteSize) := by
  obtain ⟨last, -, horder, hroot, hperm⟩ := Script.exists_last State.upheld_true trivial hparse
  constructor
  · have hlexed : (Lexed.ofSource source).diagnostics.filter (·.kind.isEnd) = [] :=
      List.filter_eq_nil_iff.mpr fun diagnostic hmem => by simp [(Lexed.isLocal_of_mem hmem).1]
    rw [(hperm.filter _).length_eq, List.filter_append, hlexed, List.nil_append]
    exact horder.once
  · intro diagnostic hmem
    have htold : (diagnostic.IsLocal source.utf8ByteSize ∨ diagnostic.IsEof source.utf8ByteSize ∨
        ∃ opener : Opener, diagnostic.Blames source.utf8ByteSize opener ∧ opener.OpenIn 0 last.placed.reverse) ∧
        (diagnostic.kind ≠ .unexpectedEof → diagnostic.span.IsInside source.utf8ByteSize) := by
      obtain hmem | hmem := List.mem_append.mp (hperm.mem_iff.mp hmem)
      · have hlocal := Lexed.isLocal_of_mem hmem
        exact ⟨.inl hlocal, fun _ => hlocal.2⟩
      · exact ⟨(horder.told diagnostic hmem).imp_right (Or.imp_right (Or.resolve_left · id)),
          horder.spans diagnostic hmem⟩
    obtain ⟨htold, hinside⟩ := htold
    have heof (hkind : diagnostic.kind = .unexpectedEof) : diagnostic.IsEof source.utf8ByteSize := by
      obtain hlocal | heof | ⟨opener, hblames, -⟩ := htold
      · have hend := hlocal.1
        rw [hkind] at hend
        cases hend
      · exact heof
      · have hstructural := hblames.isStructural
        rw [hkind] at hstructural
        cases hstructural
    refine ⟨⟨fun hempty => ?_, fun hkind => ?_⟩, fun hkind => (heof hkind).2, fun hkind => ?_, hinside⟩
    · exact Classical.byContradiction fun hkind => Nat.ne_of_lt (hinside hkind).1 (eq_of_beq hempty)
    · rw [(heof hkind).2]
      exact beq_self_eq_true _
    · obtain hlocal | heof | ⟨opener, hblames, hopen⟩ := htold
      · exact absurd hkind hlocal.not_structural
      · rw [heof.1] at hkind
        cases hkind
      · obtain ⟨place, hplace, hstands⟩ := (hroot ▸ Opener.openUnder_node.mpr hopen).exists_place
        exact ⟨opener, place, hplace, hstands, hblames⟩

/-- The argument list of a call in a block is never closed, and neither is the block. -/
theorem Script.ends_once_of_block : ∃ script, Script.parse "\x7b f(a" .unbounded = .ok script ∧
    (∃ diagnostic ∈ script.diagnostics, diagnostic.kind.isStructural = true) ∧
    (script.diagnostics.filter (·.kind.isEnd)).length ≤ 1 ∧
    ∀ diagnostic ∈ script.diagnostics, diagnostic.kind.isStructural = true → ∃ opener : Opener,
      ∃ place ∈ script.root.places, opener.StandsOpen place.start place.tree.children ∧ diagnostic.Blames 5 opener := by
  have hreports : (Script.reports? "\x7b f(a" .unbounded).any (·.any (·.kind.isStructural)) = true := by decide +kernel
  obtain ⟨script, hparse, hreported⟩ := Script.exists_of_reports hreports
  obtain ⟨honce, hall⟩ := Script.ends_once_of_parse hparse
  exact ⟨script, hparse, hreported, honce, fun diagnostic hmem => (hall diagnostic hmem).2.2.1⟩

/-- A delimiter that is reported as never closed is the innermost one of those that are open where no word is left. -/
theorem Script.innermost_of_parse {source : String} {limits : Limits} {script : Script}
    (hparse : Script.parse source limits = .ok script) {diagnostic : Diagnostic} (hmem : diagnostic ∈ script.diagnostics)
    (hkind : diagnostic.kind.isStructural = true) :
    ∃ first, Script.firstBlank source limits = some first ∧
      ∃ opener outer, first.openers = opener :: outer ∧ diagnostic.Blames source.utf8ByteSize opener := by
  obtain ⟨last, -, horder, -, hperm⟩ := Script.exists_last State.upheld_true trivial hparse
  have hreport : diagnostic ∈ last.reports := by
    obtain hlexed | hreport := List.mem_append.mp (hperm.mem_iff.mp hmem)
    · exact absurd hkind (Lexed.isLocal_of_mem hlexed).not_structural
    · exact hreport
  have hover : ¬last.IsFresh := fun hfresh => by
    have hend := hfresh diagnostic hreport
    rw [DiagnosticKind.isEnd, hkind] at hend
    cases hend
  have hblank := horder.blank
  rw [State.isBlank, horder.finished hover] at hblank
  obtain ⟨first, hfirst⟩ := Option.isSome_iff_exists.mp hblank
  obtain ⟨opener, hhead, hblames⟩ := horder.innermost first hfirst diagnostic hreport hkind
  obtain ⟨outer, houter⟩ := List.head?_eq_some_iff.mp hhead
  exact ⟨first, hfirst, opener, outer, houter, hblames⟩

/-- In the block that stays open the argument list is reported, which was opened last. -/
theorem Script.innermost_of_block : ∃ script, Script.parse "\x7b f(a" .unbounded = .ok script ∧
    ∃ first, Script.firstBlank "\x7b f(a" .unbounded = some first ∧
      first.openers = [⟨.parenOpen, 3, 4⟩, ⟨.braceOpen, 0, 1⟩] ∧
      ∃ diagnostic ∈ script.diagnostics, diagnostic.Blames 5 ⟨.parenOpen, 3, 4⟩ := by
  have hreports : (Script.reports? "\x7b f(a" .unbounded).any (·.any (·.kind.isStructural)) = true := by decide +kernel
  obtain ⟨script, hparse, diagnostic, hmem, hkind⟩ := Script.exists_of_reports hreports
  obtain ⟨first, hfirst, opener, outer, hopeners, hblames⟩ := Script.innermost_of_parse hparse hmem hkind
  have hopen : (Script.firstBlank "\x7b f(a" .unbounded).map State.openers =
      some [⟨.parenOpen, 3, 4⟩, ⟨.braceOpen, 0, 1⟩] := by
    rw [Script.firstBlank, ← Lexed.computed_eq]
    decide +kernel
  rw [hfirst] at hopen
  obtain ⟨rfl, -⟩ := List.cons_eq_cons.mp (hopeners.symm.trans (Option.some.inj hopen))
  exact ⟨script, hparse, first, hfirst, Option.some.inj hopen, diagnostic, hmem, hblames⟩

end Squirrel
