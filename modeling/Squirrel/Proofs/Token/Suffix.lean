import Squirrel.Proofs.Parse.Front
import Squirrel.Proofs.Token.Tiling

/-!
# The end of a source

A lexeme is found by looking at the text from its start on, so a source is cut from any lexeme on as the rest of its text
would be by itself. The tokens of that rest and the diagnostics about them only lie further on.
-/

namespace Squirrel

namespace Lexeme

/-- What follows some lexemes of a text are the lexemes of the rest of the text. -/
theorem cut_of_cut_append {text : List Char} {left right : List Lexeme} (hcut : cut text = left ++ right) :
    cut (right.flatMap Lexeme.text) = right := by
  induction left generalizing text with
  | nil =>
    rw [List.nil_append] at hcut
    rw [← hcut, flatMap_text_cut]
  | cons lexeme rest ih =>
    by_cases hnil : text = []
    · rw [hnil, cut] at hcut
      cases hcut
    · obtain ⟨first, after, hfirst, -⟩ := cut_eq_append hnil
      rw [hfirst, List.cons_append] at hcut
      exact ih (List.cons.inj hcut).2

end Lexeme

namespace Lexed

theorem placed_append (offset : Nat) (left right : List Lexeme) :
    placed offset (left ++ right)
      = placed offset left ++ placed (offset + byteLength (left.flatMap Lexeme.text)) right := by
  induction left generalizing offset with
  | nil => rfl
  | cons lexeme rest ih =>
    rw [List.cons_append, placed, placed, ih, List.flatMap_cons, byteLength_append, ← Nat.add_assoc, List.cons_append]

theorem place_shift (offset start : Nat) (lexeme : Lexeme) :
    place (start + offset) lexeme
      = ((place start lexeme).1.shift offset, (place start lexeme).2.map (Diagnostic.shift offset)) := by
  rw [place, place]
  cases lexeme.fault? with
  | none => rfl
  | some fault =>
    simp only [Option.map_some, Diagnostic.shift_report, Span.shift, Token.shift, Prod.mk.injEq, Option.some.injEq,
      true_and]
    rw [Nat.add_right_comm start offset, Nat.add_right_comm (start + fault.offset) offset]

/-- Lexemes that are placed further on. -/
theorem placed_shift (offset start : Nat) (lexemes : List Lexeme) :
    placed (start + offset) lexemes
      = (placed start lexemes).map fun piece => (piece.1.shift offset, piece.2.map (Diagnostic.shift offset)) := by
  induction lexemes generalizing start with
  | nil => rfl
  | cons lexeme rest ih => rw [placed, placed, List.map_cons, place_shift, ← ih, Nat.add_right_comm]

/-- Each token of a row of lexemes belongs to a lexeme, and what stands before it and after it to those before and
after. -/
theorem exists_lexeme_of_placed {offset : Nat} {lexemes : List Lexeme} {before rest : List Token} {token : Token}
    (hplaced : (placed offset lexemes).map (·.1) = before ++ token :: rest) :
    ∃ left lexeme right, lexemes = left ++ lexeme :: right ∧ (placed offset left).map (·.1) = before ∧
      (place (offset + byteLength (left.flatMap Lexeme.text)) lexeme).1 = token ∧
      (placed token.stop right).map (·.1) = rest := by
  induction before generalizing offset lexemes with
  | nil =>
    cases lexemes with
    | nil => exact nomatch hplaced
    | cons lexeme right =>
      obtain ⟨htoken, hrest⟩ := List.cons.inj hplaced
      refine ⟨[], lexeme, right, rfl, rfl, htoken, ?_⟩
      rw [← hrest, ← htoken, stop_place]
  | cons first others ih =>
    cases lexemes with
    | nil => exact nomatch hplaced
    | cons lexeme more =>
      obtain ⟨hfirst, hmore⟩ := List.cons.inj hplaced
      obtain ⟨left, found, right, rfl, hleft, htoken, hright⟩ := ih hmore
      refine ⟨lexeme :: left, found, right, rfl, ?_, ?_, hright⟩
      · rw [placed, List.map_cons, hleft, show (place offset lexeme).1 = first from hfirst]
      · rw [List.flatMap_cons, byteLength_append, ← Nat.add_assoc, htoken]

/-- Lexemes whose tokens are those of a text make up that text. -/
theorem flatMap_text_of_leaf {offset : Nat} {lexemes : List Lexeme} {text : String}
    (hleaves : ((placed offset lexemes).map (·.1)).map Token.leaf = (ofSource text).tokens.map Token.leaf) :
    lexemes.flatMap Lexeme.text = text.toList := by
  have htexts := congrArg (List.map Leaf.text) hleaves
  have hleft : (((placed offset lexemes).map (·.1)).map Token.leaf).map Leaf.text
      = (lexemes.map Lexeme.text).map String.ofList := by
    rw [List.map_map, List.map_map, List.map_map]
    exact map_text_placed offset lexemes
  have hright : ((ofSource text).tokens.map Token.leaf).map Leaf.text
      = ((Lexeme.cut text.toList).map Lexeme.text).map String.ofList := by
    rw [ofSource, List.map_map, List.map_map, List.map_map]
    exact map_text_placed 0 _
  rw [hleft, hright] at htexts
  have hmap := (List.map_inj_right fun _ _ => String.ofList_inj.mp).mp htexts
  rw [List.flatMap_def, hmap, ← List.flatMap_def, Lexeme.flatMap_text_cut]

theorem filterMap_placed_eq_nil {offset : Nat} {lexemes : List Lexeme}
    (hsound : ∀ token ∈ (placed offset lexemes).map (·.1), token.kind ≠ .garbage) :
    (placed offset lexemes).filterMap (·.2) = [] := by
  apply List.filterMap_eq_nil_iff.mpr
  intro piece hmem
  have hkind := hsound piece.1 (List.mem_map_of_mem hmem)
  obtain ⟨lexeme, -, start, rfl⟩ := mem_placed hmem
  rw [place, Lexeme.fault?_of_kind_ne hkind]
  rfl

/-- The tokens and the diagnostics of a source that ends like another one, behind tokens with nothing wrong about them. -/
theorem ofSource_of_suffix {source text : String} {before rest : List Token} {token : Token}
    (htokens : (ofSource source).tokens = before ++ token :: rest)
    (hrest : rest.map Token.leaf = (ofSource text).tokens.map Token.leaf)
    (hsound : ∀ passed ∈ before ++ [token], passed.kind ≠ .garbage) :
    rest = (ofSource text).tokens.map (Token.shift token.stop) ∧
      (ofSource source).diagnostics = (ofSource text).diagnostics.map (Diagnostic.shift token.stop) ∧
      source.utf8ByteSize = text.utf8ByteSize + token.stop := by
  obtain ⟨left, lexeme, right, hcut, hleft, htoken, hright⟩ := exists_lexeme_of_placed htokens
  have hpassed : Lexeme.cut source.toList = (left ++ [lexeme]) ++ right := by rw [hcut, List.append_assoc]; rfl
  have htext : right.flatMap Lexeme.text = text.toList := flatMap_text_of_leaf (hright ▸ hrest)
  have hsuffix : right = Lexeme.cut text.toList := by rw [← htext, Lexeme.cut_of_cut_append hpassed]
  have hstop : token.stop = byteLength ((left ++ [lexeme]).flatMap Lexeme.text) := by
    rw [← htoken, stop_place, List.flatMap_append, byteLength_append, List.flatMap_singleton, Nat.zero_add]
  have hshift : placed token.stop right = (placed 0 (Lexeme.cut text.toList)).map fun piece =>
      (piece.1.shift token.stop, piece.2.map (Diagnostic.shift token.stop)) := by
    rw [hsuffix, ← placed_shift, Nat.zero_add]
  refine ⟨?_, ?_, ?_⟩
  · rw [← hright, hshift, ofSource, List.map_map, List.map_map]
    rfl
  · have hfront : (placed 0 (left ++ [lexeme])).filterMap (·.2) = [] := by
      apply filterMap_placed_eq_nil
      rw [placed_append, List.map_append, hleft, placed, placed, List.map_singleton, htoken]
      exact hsound
    rw [ofSource, hpassed, placed_append, List.filterMap_append, hfront, List.nil_append, ← hstop, Nat.zero_add, hshift,
      ofSource, List.filterMap_map, List.map_filterMap]
    rfl
  · rw [← byteLength_toList, ← byteLength_toList, ← Lexeme.flatMap_text_cut source.toList, hpassed, List.flatMap_append,
      byteLength_append, htext, ← hstop, Nat.add_comm]

end Lexed

end Squirrel
