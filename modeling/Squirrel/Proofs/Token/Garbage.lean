import Squirrel.Proofs.Token.Fault

/-!
# Garbage and its diagnostics

The diagnostics of a source and its garbage tokens come in pairs, in the same order: each token that is garbage has one
diagnostic, about some whole characters of it, and no other token has any. So the literals among the other tokens are those
that their decoders accept. A verbatim string is not decoded to find that out, since the end that is found for it is where
the decoder wants its last quote.
-/

namespace Squirrel

namespace Lexeme

theorem isSome_fault?_iff {text : List Char} {lexeme : Lexeme} (hmem : lexeme ∈ cut text) :
    lexeme.fault?.isSome = true ↔ lexeme.kind = .garbage := by
  refine ⟨fun hfault => ?_, fault?_isSome_of_garbage hmem⟩
  by_contra hkind
  rw [fault?_of_kind_ne hkind] at hfault
  cases hfault

end Lexeme

/-- The diagnostic is about some characters of the token, and about whole ones only. -/
structure Token.HasFault (source : String) (token : Token) (diagnostic : Diagnostic) : Prop where
  start_le : token.start ≤ diagnostic.span.start
  start_lt_stop : diagnostic.span.start < diagnostic.span.stop
  stop_le : diagnostic.span.stop ≤ token.stop
  isValid_start : String.Pos.Raw.IsValid source ⟨diagnostic.span.start⟩
  isValid_stop : String.Pos.Raw.IsValid source ⟨diagnostic.span.stop⟩

namespace Lexed

/-- A stretch of a token lies in the source where the token does. -/
theorem isStretch_of_standsIn {token : Token} {text : List Char} {offset length : Nat} (hstands : token.StandsIn text)
    (hstretch : IsStretch token.text.toList offset length) : IsStretch text (token.start + offset) length := by
  obtain ⟨before, after, rfl, hstart, -⟩ := hstands
  rw [← hstart]
  exact hstretch.within before after

theorem hasFault_of_placed {source : String} {piece : Token × Option Diagnostic}
    (hpiece : piece ∈ placed 0 (Lexeme.cut source.toList)) {diagnostic : Diagnostic}
    (hdiagnostic : piece.2 = some diagnostic) : piece.1.HasFault source diagnostic := by
  obtain ⟨hstart, hpos, hstop, -⟩ := inside_of_placed hpiece hdiagnostic
  have hstands : piece.1.StandsIn source.toList := (tile_ofSource source).2 _ (List.mem_map_of_mem hpiece)
  obtain ⟨lexeme, hlexeme, start, rfl⟩ := mem_placed hpiece
  obtain ⟨fault, hfault, rfl⟩ := Option.map_eq_some_iff.mp hdiagnostic
  have htext : (place start lexeme).1.text.toList = lexeme.text := String.toList_ofList
  have hstretch := isStretch_of_standsIn hstands (htext ▸ Lexeme.isStretch_of_fault? hlexeme hfault)
  obtain ⟨hvalidStart, hvalidStop⟩ := hstretch.isValid rfl
  exact ⟨hstart, hpos, hstop, hvalidStart, hvalidStop⟩

/-- Pieces that have a diagnostic just where they are garbage have them in the order of their garbage. -/
theorem forall₂_of_pieces {related : Token → Diagnostic → Prop} {pieces : List (Token × Option Diagnostic)}
    (hgarbage : ∀ piece ∈ pieces, piece.2.isSome = true ↔ piece.1.kind = .garbage)
    (hrelated : ∀ piece ∈ pieces, ∀ diagnostic, piece.2 = some diagnostic → related piece.1 diagnostic) :
    List.Forall₂ related ((pieces.map (·.1)).filter (·.kind == .garbage)) (pieces.filterMap (·.2)) := by
  induction pieces with
  | nil => exact .nil
  | cons piece rest ih =>
    have hrest := ih (fun other hmem => hgarbage other (List.mem_cons_of_mem _ hmem))
      fun other hmem => hrelated other (List.mem_cons_of_mem _ hmem)
    have hkind := hgarbage piece List.mem_cons_self
    rw [List.map_cons, List.filter_cons]
    cases hdiagnostic : piece.2 with
    | none =>
      have hplain : ¬(piece.1.kind == .garbage) = true := fun hgarbage => by
        have hsome := hkind.mpr (beq_iff_eq.mp hgarbage)
        rw [hdiagnostic] at hsome
        cases hsome
      rwa [if_neg hplain, List.filterMap_cons_none hdiagnostic]
    | some diagnostic =>
      have hgarbage : (piece.1.kind == .garbage) = true := beq_iff_eq.mpr (hkind.mp (by rw [hdiagnostic]; rfl))
      rw [if_pos hgarbage, List.filterMap_cons_some hdiagnostic]
      exact .cons (hrelated piece List.mem_cons_self diagnostic hdiagnostic) hrest

/-- A token that is not garbage has a text that its kind asks for. -/
theorem wellWritten_of_kind_ne {source : String} {token : Token} (hmem : token ∈ (ofSource source).tokens)
    (hkind : token.kind ≠ .garbage) : Leaf.WellWritten ⟨token.kind, token.text⟩ := by
  obtain ⟨piece, hpiece, rfl⟩ := List.mem_map.mp hmem
  obtain ⟨lexeme, hlexeme, start, rfl⟩ := mem_placed hpiece
  exact Lexeme.wellWritten_of_mem_cut hlexeme (Lexeme.fault?_of_kind_ne hkind)

/-- Garbage tokens and diagnostics match one by one, and the decoders accept all literals that are not garbage. -/
theorem garbage_matches_diagnostics (source : String) :
    List.Forall₂ (Token.HasFault source) ((ofSource source).tokens.filter (·.kind == .garbage))
        (ofSource source).diagnostics ∧
      ∀ token ∈ (ofSource source).tokens,
        (token.kind = .integerLit → ∃ value, Literal.decodeInteger token.text = .ok value) ∧
        (token.kind = .floatLit → ∃ value, Literal.decodeFloat token.text = .ok value) ∧
        (token.kind = .stringLit → ∃ value, Literal.decodeString token.text = .ok value) ∧
        (token.kind = .verbatimStringLit → ∃ value, Literal.decodeVerbatim token.text = .ok value) ∧
        (token.kind = .charLit → ∃ value, Literal.decodeChar token.text = .ok value) := by
  constructor
  · refine forall₂_of_pieces (fun piece hpiece => ?_) fun piece hpiece diagnostic => hasFault_of_placed hpiece
    obtain ⟨lexeme, hlexeme, start, rfl⟩ := mem_placed hpiece
    rw [place, Option.isSome_map]
    exact Lexeme.isSome_fault?_iff hlexeme
  · intro token hmem
    have hwritten {kind : Kind} (hkind : token.kind = kind) (hliteral : kind ≠ .garbage) :
        Leaf.WellWritten ⟨token.kind, token.text⟩ := wellWritten_of_kind_ne hmem (hkind ▸ hliteral)
    exact ⟨fun hkind => (hwritten hkind (by decide)).integer hkind, fun hkind => (hwritten hkind (by decide)).float hkind,
      fun hkind => (hwritten hkind (by decide)).string hkind, fun hkind => (hwritten hkind (by decide)).verbatim hkind,
      fun hkind => (hwritten hkind (by decide)).char hkind⟩

end Lexed

end Squirrel
