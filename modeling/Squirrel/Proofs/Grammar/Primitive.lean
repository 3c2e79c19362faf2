import Squirrel.Proofs.Grammar.Word

/-!
# How the small rules read

What the building blocks of the grammar do in a reading, said of the words ahead and of the trees that are placed: a token
is taken, a node is built around what an inner rule places, and a rule that would report fails. The rules of the grammar
are read through these facts only.
-/

namespace Squirrel

namespace Tree

/-- The trees of a row without its blanks and comments. -/
def items (trees : List Tree) : List Tree := trees.filter (!·.isTrivia)

@[simp] theorem items_nil : items [] = [] := rfl

@[simp] theorem items_append (left right : List Tree) : items (left ++ right) = items left ++ items right :=
  List.filter_append ..

theorem items_cons_word {tree : Tree} (hword : tree.isTrivia = false) (rest : List Tree) :
    items (tree :: rest) = tree :: items rest :=
  List.filter_cons_of_pos (by simp [hword])

theorem items_eq_nil {trees : List Tree} (htrivia : ∀ tree ∈ trees, tree.isTrivia = true) : items trees = [] :=
  List.filter_eq_nil_iff.mpr fun tree hmem => by simp [htrivia tree hmem]

/-- A node of a kind whose children, blanks and comments left out, are the given parts. -/
def BuiltOf (tree : Tree) (kind : Kind) (parts : List Tree) : Prop :=
  ∃ children, tree = .node kind children ∧ items children = parts

end Tree

namespace View

/-- All that waits to be placed is trivia. -/
def Tidy (view : View) : Prop := ∀ token ∈ view.pending, token.kind.isTrivia = true

/-- Between two views the given trees have been placed, apart from blanks and comments. -/
def Places (view : View) (trees : List Tree) (after : View) : Prop :=
  view.Tidy → after.Tidy ∧ ∃ new, after.placed = new ++ view.placed ∧ Tree.items new.reverse = trees

/-- One word has been passed and placed. -/
structure Takes (view : View) (word : Word) (after : View) : Prop where
  words : view.words = word :: after.words
  places : view.Places [word.tree] after

theorem Places.refl (view : View) : view.Places [] view := fun htidy => ⟨htidy, [], rfl, rfl⟩

theorem Places.trans {first second third : View} {left right : List Tree} (hfirst : first.Places left second)
    (hsecond : second.Places right third) : first.Places (left ++ right) third := by
  intro htidy
  obtain ⟨htidy, new, hnew, hleft⟩ := hfirst htidy
  obtain ⟨htidy, newer, hnewer, hright⟩ := hsecond htidy
  exact ⟨htidy, newer ++ new, by rw [hnewer, hnew, List.append_assoc], by simp [hleft, hright]⟩

theorem places_passTrivia (view : View) : view.Places [] view.passTrivia := by
  intro htidy
  refine ⟨fun token hmem => ?_, [], rfl, rfl⟩
  simp only [passTrivia, List.mem_append, List.mem_reverse] at hmem
  obtain hmem | hmem := hmem
  · exact List.all_eq_true.mp List.all_takeWhile token hmem
  · exact htidy token hmem

theorem Tidy.items_leafOf {view : View} (htidy : view.Tidy) :
    Tree.items (view.pending.map State.leafOf).reverse = [] := by
  refine Tree.items_eq_nil fun tree hmem => ?_
  simp only [List.mem_reverse, List.mem_map] at hmem
  obtain ⟨token, hmem, rfl⟩ := hmem
  exact htidy token hmem

theorem tidy_placePending (view : View) : view.placePending.Tidy := by
  intro token hmem
  simp [placePending] at hmem

theorem Takes.passTrivia {view after : View} {word : Word} (htakes : view.passTrivia.Takes word after) :
    view.Takes word after :=
  ⟨by rw [← words_passTrivia, htakes.words], view.places_passTrivia.trans htakes.places⟩

/-! ### Passing a word -/

/-- Passes the trivia here and the word after it. -/
def shift (view : View) : Option View := view.passTrivia.advance

theorem shift_of_settled {view : View} (hsettled : view.Settled) : view.shift = view.advance := by
  rw [shift, hsettled]

theorem takes_of_advance {view after : View} (hsettled : view.Settled) (hadvance : view.advance = some after) :
    ∃ word, view.Takes word after ∧ word.kind.isRejected = false ∧ after.afterWord = true := by
  rw [advance] at hadvance
  split at hadvance
  · simp at hadvance
  · next token rest hahead =>
    have hword := hsettled.isTrivia_eq_false hahead
    split at hadvance
    · simp at hadvance
    · next haccepted =>
      simp only [Option.some.injEq] at hadvance
      subst hadvance
      refine ⟨⟨⟨token.kind, token.text⟩, view.afterLineBreak, view.afterWord⟩, ⟨?_, ?_⟩, ?_, ?_⟩
      · rw [words_of_settled hsettled hahead]
        simp [words, afterLineBreak, afterWord, hword]
      · intro htidy
        refine ⟨view.tidy_placePending, State.leafOf token :: view.pending.map State.leafOf, rfl, ?_⟩
        rw [List.reverse_cons, Tree.items_append, htidy.items_leafOf, List.nil_append,
          @Tree.items_cons_word (State.leafOf token) hword]
        rfl
      · simpa [Word.kind] using haccepted
      · simp [afterWord, hword]

theorem takes_of_shift {view after : View} (hshift : view.shift = some after) :
    ∃ word, view.Takes word after ∧ word.kind.isRejected = false ∧ after.afterWord = true := by
  obtain ⟨word, htakes, hrest⟩ := takes_of_advance view.settled_passTrivia hshift
  exact ⟨word, htakes.passTrivia, hrest⟩

theorem shift_of_words {view : View} {word : Word} {rest : List Word} (hwords : view.words = word :: rest)
    (haccepted : word.kind.isRejected = false) :
    ∃ after, view.shift = some after ∧ view.Takes word after ∧ after.words = rest := by
  have hsettled := view.settled_passTrivia
  rw [← words_passTrivia] at hwords
  cases hahead : view.passTrivia.ahead with
  | nil => simp [words, hahead, Word.ofTokens] at hwords
  | cons token others =>
    have hhead : token.kind.isRejected = false := by
      rw [words_of_settled hsettled hahead] at hwords
      simp only [List.cons.injEq] at hwords
      rw [← haccepted, ← hwords.1]
      rfl
    have hadvance : ∃ after, view.passTrivia.advance = some after := by simp [advance, hahead, hhead]
    obtain ⟨after, hadvance⟩ := hadvance
    obtain ⟨taken, htakes, -⟩ := takes_of_advance hsettled hadvance
    rw [htakes.words] at hwords
    simp only [List.cons.injEq] at hwords
    exact ⟨after, hadvance, hwords.1 ▸ htakes.passTrivia, hwords.2⟩

theorem shift_of_rejected {view : View} (hrejected : (Word.here view.words).isRejected = true) : view.shift = none := by
  cases hshift : view.shift with
  | none => rfl
  | some after =>
    obtain ⟨word, htakes, haccepted, -⟩ := takes_of_shift hshift
    rw [htakes.words, Word.here_cons, haccepted] at hrejected
    simp at hrejected

end View

/-! ### Rules in general -/

namespace Rule

variable {readCall : Nonterminal → View → Option View} {α β : Type}

theorem read_bind (rule : Rule α) (next : α → Rule β) (view : View) :
    (rule >>= next).read readCall view
      = (rule.read readCall view).bind fun found => (next found.1).read readCall found.2 := by
  rw [bind_eq]
  induction rule generalizing view with
  | done answer => rfl
  | step s rest ih =>
    simp only [bind, read]
    cases s.read view with
    | none => rfl
    | some found => exact ih found.1 next found.2
  | wrap kind start inner rest ihinner ih =>
    simp only [bind, read]
    split
    · rfl
    · exact ih next _
  | call nonterminal rest ih =>
    simp only [bind, read]
    cases readCall nonterminal view with
    | none => rfl
    | some after => exact ih next after

theorem read_bind_some {rule : Rule α} {next : α → Rule β} {view after : View} {answer : β}
    (hread : (rule >>= next).read readCall view = some (answer, after)) :
    ∃ first between, rule.read readCall view = some (first, between) ∧
      (next first).read readCall between = some (answer, after) := by
  rw [read_bind, Option.bind_eq_some_iff] at hread
  obtain ⟨⟨first, between⟩, hfirst, hnext⟩ := hread
  exact ⟨first, between, hfirst, hnext⟩

@[simp] theorem read_pure (answer : α) (view : View) :
    (pure answer : Rule α).read readCall view = some (answer, view) := rfl

theorem read_ofStep (step : Step α) (view : View) : (ofStep step).read readCall view = step.read view := by
  simp only [ofStep, read]
  cases step.read view <;> rfl

theorem read_map (f : α → β) (rule : Rule α) (view : View) :
    (f <$> rule).read readCall view = (rule.read readCall view).map fun found => (f found.1, found.2) := by
  have hmap : f <$> rule = rule >>= fun answer => pure (f answer) := rfl
  rw [hmap, read_bind]
  cases rule.read readCall view <;> rfl

end Rule

/-! ### Building blocks of the grammar -/

namespace Grammar

open Rule

variable {readCall : Nonterminal → View → Option View}

theorem read_call (nonterminal : Nonterminal) (view : View) :
    (call nonterminal).read readCall view = (readCall nonterminal view).map fun after => ((), after) := by
  simp only [call, Rule.read]
  cases readCall nonterminal view <;> rfl

theorem read_current (view : View) :
    current.read readCall view = some (Word.here view.words, view.passTrivia) := by
  rw [current, read_ofStep, Step.read, View.kindOf_passTrivia]

theorem read_currentIs (kind : Kind) (view : View) :
    (currentIs kind).read readCall view = some (Word.here view.words == kind, view.passTrivia) := by
  rw [currentIs, read_bind, read_current]
  rfl

theorem read_currentIn (set : TokenSet) (view : View) :
    (currentIn set).read readCall view = some (set.contains (Word.here view.words), view.passTrivia) := by
  rw [currentIn, read_bind, read_current]
  rfl

theorem read_atEnd (view : View) : atEnd.read readCall view = some (view.ahead.isEmpty, view) := by
  rw [atEnd, read_ofStep, Step.read]

theorem read_stopped (view : View) : stopped.read readCall view = some (view.ahead.isEmpty, view) := by
  rw [stopped, read_ofStep, Step.read]

theorem read_advance (view : View) :
    advance.read readCall view = view.advance.map fun after => ((), after) := by
  rw [advance, read_ofStep, Step.read]

theorem read_eat (kind : Kind) (view : View) :
    (eat kind).read readCall view
      = if Word.here view.words = kind then view.shift.map fun after => (true, after)
        else some (false, view.passTrivia) := by
  rw [eat, read_bind, read_currentIs, Option.bind_some]
  by_cases hhere : Word.here view.words = kind
  · rw [if_pos hhere, if_pos (by simp [hhere]), read_bind, read_advance, View.shift]
    cases view.passTrivia.advance <;> rfl
  · rw [if_neg hhere, if_neg (by simp [hhere])]
    rfl

theorem read_reportHere (kind : DiagnosticKind) (detail : Option String) (view : View) :
    (reportHere kind detail).read readCall view = none := by
  simp [reportHere, currentSpan, read_bind, read_ofStep, Step.read, read_atEnd]

theorem read_expect (kind : Kind) (what : String) (view : View) :
    (expect kind what).read readCall view
      = if Word.here view.words = kind then view.shift.map fun after => (true, after) else none := by
  rw [expect, read_bind, read_eat]
  by_cases hhere : Word.here view.words = kind
  · rw [if_pos hhere, if_pos hhere]
    cases view.shift <;> rfl
  · simp [hhere, currentSpan, read_bind, read_ofStep, Step.read, read_atEnd]

theorem read_recover (kind : DiagnosticKind) (detail : String) (recovery : TokenSet) (view : View) :
    (recover kind detail recovery).read readCall view = none := by
  rw [recover, read_bind, Option.bind_eq_none_iff]
  intro found _
  split
  · exact read_reportHere ..
  · simp [node, nodeFrom, read_bind, read_ofStep, Step.read, Rule.read, read_reportHere]

/-! ### Delimiters -/

theorem read_openDelimiter (kind : Kind) (view : View) :
    (openDelimiter kind).read readCall view
      = ({ view.passTrivia with openers := ⟨kind, view.passTrivia.spanHere⟩ :: view.openers } : View).advance.map
          fun after => ((), after) := by
  simp only [openDelimiter, currentSpan, read_bind, read_ofStep, Step.read, Option.bind_some, read_advance]
  rfl

theorem takes_of_openDelimiter {kind : Kind} {view after : View}
    (hread : (openDelimiter kind).read readCall view = some ((), after)) :
    ∃ word, view.Takes word after ∧ after.afterWord = true := by
  rw [read_openDelimiter, Option.map_eq_some_iff] at hread
  obtain ⟨found, hadvance, hfound⟩ := hread
  simp only [Prod.mk.injEq, true_and] at hfound
  subst hfound
  have hsettled : ({ view.passTrivia with openers := ⟨kind, view.passTrivia.spanHere⟩ :: view.openers } : View).Settled :=
    View.passTrivia_eq_self fun _ hmem => View.isTrivia_of_head?_dropWhile hmem
  obtain ⟨word, ⟨hwords, hplaces⟩, -, hafter⟩ := View.takes_of_advance hsettled hadvance
  exact ⟨word, View.Takes.passTrivia ⟨hwords, hplaces⟩, hafter⟩

theorem openDelimiter_of_words {kind : Kind} {view : View} {word : Word} {rest : List Word}
    (hwords : view.words = word :: rest) (haccepted : word.kind.isRejected = false) :
    ∃ after, (openDelimiter kind).read readCall view = some ((), after) ∧ view.Takes word after ∧
      after.words = rest := by
  obtain ⟨after, hshift, ⟨htakes, hplaces⟩, hrest⟩ := @View.shift_of_words
    { view.passTrivia with openers := ⟨kind, view.passTrivia.spanHere⟩ :: view.openers } word rest
    ((View.words_passTrivia view).trans hwords) haccepted
  rw [View.shift_of_settled (View.passTrivia_eq_self fun _ hmem => View.isTrivia_of_head?_dropWhile hmem)] at hshift
  exact ⟨after, by rw [read_openDelimiter, hshift]; rfl, View.Takes.passTrivia ⟨htakes, hplaces⟩, hrest⟩

theorem read_closeDelimiter (close : Kind) (construct : String) (view : View) :
    (closeDelimiter close construct).read readCall view
      = if Word.here view.words = close then
          ({ view with openers := view.openers.tail } : View).shift.map fun after => ((), after)
        else none := by
  rw [closeDelimiter, read_bind, read_ofStep, Step.read, Option.bind_some, read_bind, read_eat]
  by_cases hhere : Word.here view.words = close
  · have hhere' : Word.here ({ view with openers := view.openers.tail } : View).words = close := hhere
    rw [if_pos hhere, if_pos hhere']
    cases ({ view with openers := view.openers.tail } : View).shift <;> rfl
  · have hhere' : Word.here ({ view with openers := view.openers.tail } : View).words ≠ close := hhere
    have hexpect : (expect close close.displayName).read readCall
        ({ view with openers := view.openers.tail } : View).passTrivia = none := by
      rw [read_expect, View.words_passTrivia, if_neg hhere']
    rw [if_neg hhere, if_neg hhere', Option.bind_some, if_neg (by simp), read_bind, read_atEnd, Option.bind_some]
    split
    · simp [currentSpan, read_bind, read_ofStep, Step.read]
    · rw [read_bind]
      exact Option.bind_eq_none_iff.mpr fun found hfound => by simp [hexpect] at hfound

theorem takes_of_closeDelimiter {close : Kind} {construct : String} {view after : View}
    (hread : (closeDelimiter close construct).read readCall view = some ((), after)) :
    ∃ word, view.Takes word after ∧ word.kind = close ∧ after.afterWord = true := by
  rw [read_closeDelimiter] at hread
  split at hread
  · next hhere =>
    rw [Option.map_eq_some_iff] at hread
    obtain ⟨found, hshift, hfound⟩ := hread
    simp only [Prod.mk.injEq, true_and] at hfound
    subst hfound
    obtain ⟨word, ⟨hwords, hplaces⟩, -, hafter⟩ := View.takes_of_shift hshift
    have hwords' : view.words = word :: found.words := hwords
    rw [hwords'] at hhere
    exact ⟨word, ⟨hwords, hplaces⟩, hhere, hafter⟩
  · simp at hread

theorem closeDelimiter_of_words {close : Kind} {construct : String} {view : View} {word : Word} {rest : List Word}
    (hwords : view.words = word :: rest) (hkind : word.kind = close) (haccepted : close.isRejected = false) :
    ∃ after, (closeDelimiter close construct).read readCall view = some ((), after) ∧ view.Takes word after ∧
      after.words = rest := by
  obtain ⟨after, hshift, ⟨htakes, hplaces⟩, hrest⟩ := @View.shift_of_words
    { view with openers := view.openers.tail } word rest hwords (hkind ▸ haccepted)
  refine ⟨after, ?_, ⟨htakes, hplaces⟩, hrest⟩
  rw [read_closeDelimiter, if_pos (by rw [hwords, Word.here_cons, hkind]), hshift]
  rfl

/-! ### Nodes -/

/-- A node around what has been placed since a mark and what an inner rule places. -/
theorem read_nodeFrom {start : Nat} {kind : Kind} {inner : Rule Unit} {view : View} {since base : List Tree}
    (hplaced : view.placed = since ++ base) (hstart : base.length = start) :
    (nodeFrom start kind inner).read readCall view
      = (inner.read readCall { view with placed := since }).map fun found =>
          ((), { found.2 with placed := .node kind found.2.placed.reverse :: base }) := by
  have hlength : view.placed.length - start = since.length := by
    rw [hplaced, List.length_append, hstart, Nat.add_sub_cancel]
  have htake : view.placed.take (view.placed.length - start) = since := by rw [hlength, hplaced, List.take_left]
  have hdrop : view.placed.drop (view.placed.length - start) = base := by rw [hlength, hplaced, List.drop_left]
  simp only [nodeFrom, Rule.read, htake, hdrop]
  cases inner.read readCall { view with placed := since } <;> rfl

theorem read_node (kind : Kind) (inner : Rule Unit) (view : View) :
    (node kind inner).read readCall view
      = (inner.read readCall { view.placePending with placed := [] }).map fun found =>
          ((), { found.2 with placed := .node kind found.2.placed.reverse :: view.placePending.placed }) := by
  rw [node, read_bind, read_ofStep, Step.read, Option.bind_some,
    read_nodeFrom (List.nil_append view.placePending.placed).symm rfl]

/-- Reading a node comes down to reading its inner rule from a view with the same words. -/
theorem exists_inner_of_node {kind : Kind} {inner : Rule Unit} {view after : View}
    (hread : (node kind inner).read readCall view = some ((), after)) :
    ∃ start stop : View, start.words = view.words ∧ (view.Settled → start.Settled) ∧
      inner.read readCall start = some ((), stop) ∧ after.words = stop.words ∧ (after.afterWord = stop.afterWord) ∧
      ∀ parts, start.Places parts stop → ∃ tree : Tree, tree.BuiltOf kind parts ∧ view.Places [tree] after := by
  rw [read_node, Option.map_eq_some_iff] at hread
  obtain ⟨⟨⟨⟩, stop⟩, hinner, hafter⟩ := hread
  simp only [Prod.mk.injEq, true_and] at hafter
  subst hafter
  refine ⟨{ view.placePending with placed := [] }, stop, rfl, fun hsettled => ?_, hinner, rfl, rfl,
    fun parts hplaces => ?_⟩
  · exact View.passTrivia_eq_self fun token hmem => by
      obtain ⟨rest, hahead⟩ := List.head?_eq_some_iff.mp hmem
      exact hsettled.isTrivia_eq_false hahead
  obtain ⟨htidy, new, hnew, hparts⟩ := hplaces view.tidy_placePending
  rw [List.append_nil] at hnew
  refine ⟨.node kind stop.placed.reverse, ⟨_, rfl, by rw [hnew, hparts]⟩, fun hview => ⟨htidy, ?_⟩⟩
  refine ⟨.node kind stop.placed.reverse :: view.pending.map State.leafOf, rfl, ?_⟩
  rw [List.reverse_cons, Tree.items_append, hview.items_leafOf, List.nil_append]
  rfl

/-! ### Kinds of literals -/

/-- What holds of all kinds of literals holds of the node around a literal token. -/
theorem forall_literalNode? {P : Kind → Prop} {kind node : Kind} (hnode : literalNode? kind = some node)
    (hall : ∀ literal ∈ [Kind.integer, .float, .str, .verbatimStr, .char, .bool, .null], P literal) : P node := by
  refine hall node ?_
  revert hnode
  fun_cases literalNode? kind
  all_goals
    intro hnode
    cases hnode
  all_goals decide

end Grammar

end Squirrel
