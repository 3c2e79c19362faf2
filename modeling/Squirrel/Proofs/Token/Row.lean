import Squirrel.Proofs.Grammar.Word
import Squirrel.Proofs.Parse.Lossless

/-!
# Rows of tokens

A source that is put together from tokens has these tokens again, as long as each of them is the first lexeme of what is
left of the source. What a token is followed by matters here, for the longest match wins.
-/

namespace Squirrel

namespace Leaf

/-- The characters of a row of tokens. -/
def chars (leaves : List Leaf) : List Char := leaves.flatMap (·.text.toList)

@[simp] theorem chars_nil : chars [] = [] := rfl

@[simp] theorem chars_cons (leaf : Leaf) (rest : List Leaf) : chars (leaf :: rest) = leaf.text.toList ++ chars rest := rfl

@[simp] theorem chars_append (left right : List Leaf) : chars (left ++ right) = chars left ++ chars right :=
  List.flatMap_append

/-- In front of some text the leaf is the first lexeme, and there is nothing wrong with it. -/
structure StandsBefore (leaf : Leaf) (after : List Char) : Prop where
  nonempty : leaf.text.toList ≠ []
  first : Lexeme.first (leaf.text.toList ++ after) = (.token leaf.kind, leaf.text.toList.length)
  sound : Lexeme.literalError? leaf.kind leaf.text = none

/-- Each leaf of a row is the first lexeme of the row from there on and some text behind it. -/
def Apart : List Leaf → List Char → Prop
  | [], _ => True
  | leaf :: rest, after => leaf.StandsBefore (chars rest ++ after) ∧ Apart rest after

theorem Apart.append {left right : List Leaf} {after : List Char} (hleft : Apart left (chars right ++ after))
    (hright : Apart right after) : Apart (left ++ right) after := by
  induction left with
  | nil => exact hright
  | cons leaf rest ih =>
    obtain ⟨hleaf, hrest⟩ := hleft
    have hchars : chars (rest ++ right) ++ after = chars rest ++ (chars right ++ after) := by
      rw [chars_append, List.append_assoc]
    exact ⟨hchars ▸ hleaf, ih hrest⟩

end Leaf

/-- The lexeme of a leaf. -/
def Leaf.lexeme (leaf : Leaf) : Lexeme := ⟨.token leaf.kind, leaf.text.toList⟩

theorem Leaf.StandsBefore.fault? {leaf : Leaf} {after : List Char} (hstands : leaf.StandsBefore after) :
    leaf.lexeme.fault? = none := by
  have hsound := hstands.sound
  simp [Leaf.lexeme, Lexeme.fault?, hsound]

namespace Lexeme

theorem cut_append {leaf : Leaf} {after : List Char} (hstands : leaf.StandsBefore after) :
    cut (leaf.text.toList ++ after) = leaf.lexeme :: cut after := by
  obtain ⟨c, rest, htext⟩ := List.exists_cons_of_ne_nil hstands.nonempty
  have hfirst := hstands.first
  rw [htext, List.cons_append] at hfirst ⊢
  rw [cut_cons, hfirst, List.length_cons, Nat.add_sub_cancel, List.take_left, List.drop_left, Leaf.lexeme, htext]

theorem cut_chars {leaves : List Leaf} (hapart : Leaf.Apart leaves []) :
    cut (Leaf.chars leaves) = leaves.map Leaf.lexeme := by
  induction leaves with
  | nil => rw [Leaf.chars_nil, cut, List.map_nil]
  | cons leaf rest ih =>
    obtain ⟨hleaf, hrest⟩ := hapart
    rw [List.append_nil] at hleaf
    rw [Leaf.chars_cons, cut_append hleaf, ih hrest, List.map_cons]

end Lexeme

/-- The tokens of a source that is put together from leaves are these leaves. -/
theorem Lexed.leaf_tokens {source : String} {leaves : List Leaf} (hsource : source.toList = Leaf.chars leaves)
    (hapart : Leaf.Apart leaves []) : (ofSource source).tokens.map Token.leaf = leaves := by
  have hplaced (offset : Nat) (leaves : List Leaf) (hapart : Leaf.Apart leaves []) :
      (placed offset (leaves.map Leaf.lexeme)).map (fun piece => piece.1.leaf) = leaves := by
    induction leaves generalizing offset with
    | nil => rfl
    | cons leaf rest ih =>
      obtain ⟨hleaf, hrest⟩ := hapart
      have hkind : leaf.lexeme.kind = leaf.kind := by
        simp only [Lexeme.kind, hleaf.fault?]
        rfl
      have htoken : (place offset leaf.lexeme).1.leaf = leaf := by
        show (⟨leaf.lexeme.kind, String.ofList leaf.text.toList⟩ : Leaf) = leaf
        rw [hkind, String.ofList_toList]
      rw [List.map_cons, placed, List.map_cons, ih _ hrest, htoken]
  rw [ofSource, hsource, Lexeme.cut_chars hapart, List.map_map]
  exact hplaced 0 leaves hapart

/-! ### Words -/

namespace Word

/-- The words of a row of leaves. -/
def ofLeaves (afterBreak joined : Bool) (leaves : List Leaf) : List Word :=
  ofTokens afterBreak joined (leaves.map fun leaf => ⟨leaf.kind, 0, leaf.text⟩)

theorem ofTokens_eq_ofLeaves (tokens : List Token) (afterBreak joined : Bool) :
    ofTokens afterBreak joined tokens = ofLeaves afterBreak joined (tokens.map Token.leaf) := by
  induction tokens generalizing afterBreak joined with
  | nil => rfl
  | cons token rest ih =>
    have hkind : (⟨token.leaf.kind, 0, token.leaf.text⟩ : Token).kind = token.kind := rfl
    rw [ofLeaves, List.map_cons, List.map_cons]
    cases htrivia : token.kind.isTrivia with
    | true =>
      rw [ofTokens_trivia htrivia, ofTokens_trivia (hkind ▸ htrivia), ih]
      rfl
    | false =>
      rw [ofTokens_word htrivia, ofTokens_word (hkind ▸ htrivia), ih]
      rfl

theorem ofSource_eq_ofLeaves {source : String} {leaves : List Leaf} (hsource : source.toList = Leaf.chars leaves)
    (hapart : Leaf.Apart leaves []) : ofTokens false false (Lexed.ofSource source).tokens = ofLeaves false false leaves := by
  rw [ofTokens_eq_ofLeaves, Lexed.leaf_tokens hsource hapart]

theorem ofLeaves_word {leaf : Leaf} (hword : leaf.kind.isTrivia = false) (afterBreak joined : Bool) (rest : List Leaf) :
    ofLeaves afterBreak joined (leaf :: rest) = ⟨leaf, afterBreak, joined⟩ :: ofLeaves false true rest :=
  ofTokens_word hword afterBreak joined _

/-- A blank that does not break the line. -/
theorem ofLeaves_blank {leaf : Leaf} (hblank : leaf.kind = .whitespace) (afterBreak joined : Bool) (rest : List Leaf) :
    ofLeaves afterBreak joined (leaf :: rest) = ofLeaves afterBreak false rest := by
  have htrivia : leaf.kind.isTrivia = true := by rw [hblank]; rfl
  have hstays : Token.breaksLine ⟨leaf.kind, 0, leaf.text⟩ = false := by simp [Token.breaksLine, hblank]
  rw [ofLeaves, List.map_cons, ofTokens_trivia htrivia, hstays, Bool.false_or, ofLeaves]

/-- A row that ends in a word is followed by a row that joins it. -/
theorem ofLeaves_append {left : List Leaf} {last : Leaf} (hlast : last.kind.isTrivia = false) (afterBreak joined : Bool)
    (right : List Leaf) : ofLeaves afterBreak joined (left ++ [last] ++ right)
      = ofLeaves afterBreak joined (left ++ [last]) ++ ofLeaves false true right := by
  induction left generalizing afterBreak joined with
  | nil =>
    rw [List.nil_append, List.singleton_append, ofLeaves_word hlast, ofLeaves_word hlast]
    rfl
  | cons leaf rest ih =>
    cases htrivia : leaf.kind.isTrivia with
    | true =>
      simp only [ofLeaves, List.cons_append, List.map_cons] at ih ⊢
      rw [ofTokens_trivia htrivia, ofTokens_trivia htrivia, ih]
    | false =>
      rw [List.cons_append, List.cons_append, ofLeaves_word htrivia, ofLeaves_word htrivia, ih, List.cons_append]

end Word

end Squirrel
