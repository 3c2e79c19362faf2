import Squirrel.Proofs.Parse.Reading

/-!
# Words

The grammar looks through blanks and comments: of the trivia before a token it only sees whether a line breaks there and
whether there is any at all. A word is a token together with these two facts. The words ahead of a view decide every
answer that a step gives about the source, and passing trivia does not change them.
-/

namespace Squirrel

structure Word where
  leaf : Leaf
  /-- Whether it is on another line than the word before it. -/
  afterBreak : Bool
  /-- Whether nothing stands between the word before it and this one. -/
  joined : Bool

namespace Word

def kind (word : Word) : Kind := word.leaf.kind

def tree (word : Word) : Tree := .token word.leaf

/-- A number that a minus sign right before it belongs to. -/
def folds (word : Word) : Bool := word.joined && State.isFoldable ⟨word.leaf.kind, 0, word.leaf.text⟩

/-- The words of a row of tokens, where the first one follows a line break or joins the word before it as told. -/
def ofTokens (afterBreak joined : Bool) : List Token → List Word
  | [] => []
  | token :: rest =>
    if token.kind.isTrivia then ofTokens (token.breaksLine || afterBreak) false rest
    else ⟨⟨token.kind, token.text⟩, afterBreak, joined⟩ :: ofTokens false true rest

/-- The kind of the first word; past the last one, `Kind.error`. -/
def here (words : List Word) : Kind := (words.head?.map kind).getD .error

@[simp] theorem here_nil : here [] = .error := rfl

@[simp] theorem here_cons (word : Word) (rest : List Word) : here (word :: rest) = word.kind := rfl

theorem exists_cons_of_here {words : List Word} {kind : Kind} (hhere : here words = kind) (hkind : kind ≠ .error) :
    ∃ word rest, words = word :: rest ∧ word.kind = kind := by
  cases words with
  | nil => exact absurd hhere.symm hkind
  | cons word rest => exact ⟨word, rest, rfl, hhere⟩

theorem ofTokens_trivia {token : Token} (htrivia : token.kind.isTrivia = true) (afterBreak joined : Bool)
    (rest : List Token) :
    ofTokens afterBreak joined (token :: rest) = ofTokens (token.breaksLine || afterBreak) false rest := by
  rw [ofTokens, if_pos htrivia]

theorem ofTokens_word {token : Token} (hword : token.kind.isTrivia = false) (afterBreak joined : Bool)
    (rest : List Token) :
    ofTokens afterBreak joined (token :: rest)
      = ⟨⟨token.kind, token.text⟩, afterBreak, joined⟩ :: ofTokens false true rest := by
  rw [ofTokens, hword]
  rfl

/-- The words of some tokens are words. -/
theorem isTrivia_of_mem_ofTokens {tokens : List Token} {afterBreak joined : Bool} {word : Word}
    (hmem : word ∈ ofTokens afterBreak joined tokens) : word.kind.isTrivia = false := by
  induction tokens generalizing afterBreak joined with
  | nil => exact nomatch hmem
  | cons token rest ih =>
    cases htrivia : token.kind.isTrivia with
    | true =>
      rw [ofTokens_trivia htrivia] at hmem
      exact ih hmem
    | false =>
      rw [ofTokens_word htrivia] at hmem
      obtain rfl | hmem := List.mem_cons.mp hmem
      · exact htrivia
      · exact ih hmem

theorem kindOf_dropWhile (tokens : List Token) (afterBreak joined : Bool) :
    State.kindOf (tokens.dropWhile (·.kind.isTrivia)) = here (ofTokens afterBreak joined tokens) := by
  induction tokens generalizing afterBreak joined with
  | nil => rfl
  | cons token rest ih =>
    cases htrivia : token.kind.isTrivia with
    | true => rw [ofTokens_trivia htrivia, List.dropWhile_cons, if_pos htrivia, ih]
    | false =>
      rw [ofTokens_word htrivia, List.dropWhile_cons, if_neg (by simp [htrivia])]
      rfl

theorem isFoldable_eq_false {token : Token} (htrivia : token.kind.isTrivia = true) : State.isFoldable token = false := by
  rw [State.isFoldable]
  split
  · next hkind => simp [hkind, Kind.isTrivia] at htrivia
  · next hkind => simp [hkind, Kind.isTrivia] at htrivia
  · rfl

theorem head?_any_folds (tokens : List Token) (afterBreak : Bool) :
    (ofTokens afterBreak true tokens).head?.any folds = tokens.head?.any State.isFoldable := by
  have hapart (afterBreak : Bool) (tokens : List Token) :
      (ofTokens afterBreak false tokens).head?.any folds = false := by
    induction tokens generalizing afterBreak with
    | nil => rfl
    | cons token rest ih =>
      cases htrivia : token.kind.isTrivia with
      | true => rw [ofTokens_trivia htrivia, ih]
      | false => simp [ofTokens_word htrivia, folds]
  cases tokens with
  | nil => rfl
  | cons token rest =>
    cases htrivia : token.kind.isTrivia with
    | true => simp [ofTokens_trivia htrivia, hapart, isFoldable_eq_false htrivia]
    | false =>
      rw [ofTokens_word htrivia, List.head?_cons, List.head?_cons, Option.any_some, Option.any_some, folds,
        Bool.true_and]
      rfl

end Word

/-! ### The words ahead of a view -/

namespace View

/-- Nothing but a word is next. -/
def Settled (view : View) : Prop := view.passTrivia = view

/-- Whether the last token passed is a word. -/
def afterWord (view : View) : Bool := view.behind.head?.any (!·.kind.isTrivia)

def words (view : View) : List Word := Word.ofTokens view.afterLineBreak view.afterWord view.ahead

theorem passTrivia_eq_self {view : View} (hahead : ∀ token ∈ view.ahead.head?, token.kind.isTrivia = false) :
    view.passTrivia = view := by
  have htake : view.ahead.takeWhile (·.kind.isTrivia) = [] := by
    cases hcase : view.ahead with
    | nil => rfl
    | cons token rest => simp [hahead token (by simp [hcase])]
  have hdrop : view.ahead.dropWhile (·.kind.isTrivia) = view.ahead := by
    have hsplit := List.takeWhile_append_dropWhile (p := fun token : Token => token.kind.isTrivia) (l := view.ahead)
    rwa [htake, List.nil_append] at hsplit
  simp [passTrivia, htake, hdrop]

theorem isTrivia_of_head?_dropWhile {tokens : List Token} {token : Token}
    (hmem : token ∈ (tokens.dropWhile (·.kind.isTrivia)).head?) : token.kind.isTrivia = false := by
  have hnot := List.head?_dropWhile_not (fun token : Token => token.kind.isTrivia) tokens
  rw [Option.mem_def] at hmem
  rw [hmem] at hnot
  simpa using hnot

theorem settled_passTrivia (view : View) : view.passTrivia.Settled :=
  passTrivia_eq_self fun _ hmem => isTrivia_of_head?_dropWhile hmem

theorem Settled.isTrivia_eq_false {view : View} (hsettled : view.Settled) {token : Token} {rest : List Token}
    (hahead : view.ahead = token :: rest) : token.kind.isTrivia = false := by
  have hmem : token ∈ view.passTrivia.ahead.head? := by rw [hsettled, hahead]; rfl
  exact isTrivia_of_head?_dropWhile hmem

/-- Passes one token of trivia. -/
def passOne (view : View) (token : Token) (rest : List Token) : View :=
  { view with behind := token :: view.behind, ahead := rest, pending := token :: view.pending }

theorem words_passOne {view : View} {token : Token} {rest : List Token} (hahead : view.ahead = token :: rest)
    (htrivia : token.kind.isTrivia = true) : (view.passOne token rest).words = view.words := by
  rw [words, words, hahead, Word.ofTokens_trivia htrivia]
  simp [passOne, afterLineBreak, afterWord, htrivia]

theorem passTrivia_passOne {view : View} {token : Token} {rest : List Token} (hahead : view.ahead = token :: rest)
    (htrivia : token.kind.isTrivia = true) : (view.passOne token rest).passTrivia = view.passTrivia := by
  simp [passTrivia, passOne, hahead, htrivia]

@[simp] theorem words_passTrivia (view : View) : view.passTrivia.words = view.words := by
  generalize hlength : view.ahead.length = length
  induction length generalizing view with
  | zero =>
    rw [passTrivia_eq_self]
    intro token hmem
    rw [List.eq_nil_of_length_eq_zero hlength] at hmem
    simp at hmem
  | succ length ih =>
    obtain ⟨token, rest, hahead⟩ := List.exists_cons_of_length_eq_add_one hlength
    cases htrivia : token.kind.isTrivia with
    | true =>
      rw [← passTrivia_passOne hahead htrivia, ih, words_passOne hahead htrivia]
      simpa [passOne, hahead] using hlength
    | false =>
      rw [passTrivia_eq_self]
      intro other hmem
      rw [hahead, List.head?_cons, Option.mem_some_iff] at hmem
      exact hmem ▸ htrivia

theorem settled_placePending {view : View} (hsettled : view.Settled) : view.placePending.Settled := by
  refine passTrivia_eq_self fun token hmem => ?_
  obtain ⟨rest, hahead⟩ := List.head?_eq_some_iff.mp hmem
  exact hsettled.isTrivia_eq_false hahead

theorem kindOf_passTrivia (view : View) : State.kindOf view.passTrivia.ahead = Word.here view.words :=
  Word.kindOf_dropWhile view.ahead _ _

theorem words_of_settled {view : View} (hsettled : view.Settled) {token : Token} {rest : List Token}
    (hahead : view.ahead = token :: rest) :
    view.words = ⟨⟨token.kind, token.text⟩, view.afterLineBreak, view.afterWord⟩ :: Word.ofTokens false true rest := by
  rw [words, hahead, Word.ofTokens_word (hsettled.isTrivia_eq_false hahead)]

theorem ahead_eq_nil_iff {view : View} (hsettled : view.Settled) : view.ahead = [] ↔ view.words = [] := by
  cases hahead : view.ahead with
  | nil => simp [words, hahead, Word.ofTokens]
  | cons token rest => simp [words_of_settled hsettled hahead]

theorem kindOf_next (view : View) :
    State.kindOf (view.passTrivia.ahead.tail.dropWhile (·.kind.isTrivia)) = Word.here view.words.tail := by
  rw [← words_passTrivia view]
  cases hahead : view.passTrivia.ahead with
  | nil => simp [words, hahead, Word.ofTokens, State.kindOf]
  | cons token rest =>
    rw [words_of_settled view.settled_passTrivia hahead]
    exact Word.kindOf_dropWhile rest _ _

theorem numberFollows_eq (view : View) :
    view.passTrivia.ahead.tail.head?.any State.isFoldable = view.words.tail.head?.any Word.folds := by
  rw [← words_passTrivia view]
  cases hahead : view.passTrivia.ahead with
  | nil => simp [words, hahead, Word.ofTokens]
  | cons token rest =>
    rw [words_of_settled view.settled_passTrivia hahead]
    exact (Word.head?_any_folds rest false).symm

theorem afterLineBreak_eq {view : View} {word : Word} {rest : List Word} (hwords : view.words = word :: rest) :
    view.passTrivia.afterLineBreak = word.afterBreak := by
  rw [← words_passTrivia view] at hwords
  cases hahead : view.passTrivia.ahead with
  | nil => simp [words, hahead, Word.ofTokens] at hwords
  | cons token others =>
    rw [words_of_settled view.settled_passTrivia hahead] at hwords
    simp only [List.cons.injEq] at hwords
    rw [← hwords.1]

end View

end Squirrel
