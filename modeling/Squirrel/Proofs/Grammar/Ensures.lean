import Squirrel.Proofs.Grammar.Derivation

/-!
# What a rule ensures

A logic of readings. A rule ensures something of its answer and of the view after it if that holds whenever it reads
without a report; the building blocks of the grammar ensure that the items of a production have been read. Rules are
followed with these facts step by step, from the first one to the last.
-/

namespace Squirrel

/-! ### Reading items -/

/-- Between two views the words of the items have been passed and their trees placed. -/
def View.Reads (view : View) (items : List Item) (after : View) : Prop :=
  ∃ trees, Derives items view.words after.words trees ∧ view.Places trees after

namespace View.Reads

variable {view between after : View} {left right items : List Item}

theorem nil (view : View) : view.Reads [] view := ⟨[], .nil, .refl view⟩

theorem append (hleft : view.Reads left between) (hright : between.Reads right after) :
    view.Reads (left ++ right) after := by
  obtain ⟨first, hfirst, hplaces⟩ := hleft
  obtain ⟨second, hsecond, hplaces'⟩ := hright
  exact ⟨first ++ second, hfirst.append hsecond, hplaces.trans hplaces'⟩

theorem of_passTrivia (hreads : view.passTrivia.Reads items after) : view.Reads items after := by
  obtain ⟨trees, hderives, hplaces⟩ := hreads
  rw [words_passTrivia] at hderives
  exact ⟨trees, hderives, view.places_passTrivia.trans hplaces⟩

theorem check {condition : List Word → Prop} (hcondition : condition view.words) (hreads : view.Reads items after) :
    view.Reads (.check condition :: items) after := by
  obtain ⟨trees, hderives, hplaces⟩ := hreads
  exact ⟨trees, .check hcondition hderives, hplaces⟩

theorem word {word : Word} {kind : Kind} (htakes : view.Takes word after) (hkind : word.kind = kind) :
    view.Reads [.word kind] after :=
  ⟨[word.tree], htakes.words ▸ .word hkind .nil, htakes.places⟩

theorem wordIn {word : Word} {accepts : Kind → Bool} (htakes : view.Takes word after)
    (hkind : accepts word.kind = true) : view.Reads [.wordIn accepts] after :=
  ⟨[word.tree], htakes.words ▸ .wordIn hkind .nil, htakes.places⟩

theorem bare {phrase : Phrase} {body : List Item} (hproduction : Production phrase .bare body)
    (hbody : view.Reads body after) : view.Reads [.part phrase] after := by
  obtain ⟨trees, hderives, hplaces⟩ := hbody
  exact ⟨trees, .phrase hproduction hderives rfl, hplaces⟩

end View.Reads

/-! ### Readings only go forward -/

theorem Step.ahead_of_read {α : Type} (step : Step α) {view after : View} {answer : α}
    (hread : step.read view = some (answer, after)) : after.ahead <:+ view.ahead := by
  have hpass : view.passTrivia.ahead <:+ view.ahead := List.dropWhile_suffix _
  cases step <;> simp only [read, Option.some.injEq, Prod.mk.injEq, reduceCtorEq] at hread
  case current | adjacent | next | currentSpan | afterLineBreak | numberFollows => exact hread.2 ▸ hpass
  case placeTrivia => exact hread.2 ▸ hpass
  case previous | atEnd | stopped | mark | pushOpener | popOpener | descend | ascend =>
    exact hread.2 ▸ List.suffix_rfl
  case advance =>
    rw [Option.map_eq_some_iff] at hread
    obtain ⟨found, hadvance, hfound⟩ := hread
    simp only [Prod.mk.injEq, true_and] at hfound
    rw [View.advance] at hadvance
    split at hadvance
    · simp at hadvance
    · next token rest hahead =>
      split at hadvance
      · simp at hadvance
      · simp only [Option.some.injEq] at hadvance
        rw [← hfound, ← hadvance, hahead]
        exact List.suffix_cons token rest

theorem Rule.ahead_of_read {readCall : Nonterminal → View → Option View}
    (hcalls : ∀ nonterminal view after, readCall nonterminal view = some after → after.ahead <:+ view.ahead)
    {α : Type} {rule : Rule α} {view after : View} {answer : α}
    (hread : rule.read readCall view = some (answer, after)) : after.ahead <:+ view.ahead := by
  induction rule generalizing view after with
  | done found =>
    simp only [read, Option.some.injEq, Prod.mk.injEq] at hread
    exact hread.2 ▸ List.suffix_rfl
  | step s rest ih =>
    obtain ⟨found, between, hstep, hread⟩ := read_step_some hread
    exact (ih found hread).trans (s.ahead_of_read hstep)
  | wrap kind start inner rest ihinner ih =>
    obtain ⟨between, hinner, hread⟩ := read_wrap_some hread
    have hbetween := ihinner hinner
    have hrest := ih hread
    exact hrest.trans hbetween
  | call nonterminal rest ih =>
    obtain ⟨between, hcall, hread⟩ := read_call_some hread
    exact (ih hread).trans (hcalls nonterminal view between hcall)

theorem Nonterminal.ahead_of_read {bound : Nat} {nonterminal : Nonterminal} {view after : View}
    (hread : nonterminal.read bound view = some after) : after.ahead <:+ view.ahead := by
  induction bound generalizing nonterminal view after with
  | zero => simp [read] at hread
  | succ bound ih =>
    exact Rule.ahead_of_read (fun _ _ _ hcall => ih hcall) (Rule.read_of_nonterminal hread)

theorem Word.ofTokens_eq_nil_iff {afterBreak joined : Bool} {tokens : List Token} :
    ofTokens afterBreak joined tokens = [] ↔ ∀ token ∈ tokens, token.kind.isTrivia = true := by
  induction tokens generalizing afterBreak joined with
  | nil => simp [ofTokens]
  | cons token rest ih =>
    cases htrivia : token.kind.isTrivia with
    | true => simp [ofTokens_trivia htrivia, ih, htrivia]
    | false => simp [ofTokens_word htrivia, htrivia]

theorem View.words_eq_nil_of_suffix {view after : View} (hsuffix : after.ahead <:+ view.ahead)
    (hwords : view.words = []) : after.words = [] :=
  Word.ofTokens_eq_nil_iff.mpr fun token hmem =>
    Word.ofTokens_eq_nil_iff.mp hwords token (hsuffix.subset hmem)

/-! ### What a rule ensures -/

/-- Whenever the rule reads something from the view, its answer and the view after it are as told. -/
def Rule.Ensures (readCall : Nonterminal → View → Option View) {α : Type} (rule : Rule α) (view : View)
    (result : α → View → Prop) : Prop :=
  ∀ answer after, rule.read readCall view = some (answer, after) → result answer after

namespace Grammar

open Rule

variable {readCall : Nonterminal → View → Option View} {α β : Type} {view : View}

theorem ensures_bind {rule : Rule α} {next : α → Rule β} {result : β → View → Prop}
    (hrule : rule.Ensures readCall view fun answer between => (next answer).Ensures readCall between result) :
    (rule >>= next).Ensures readCall view result := by
  intro answer after hread
  obtain ⟨first, between, hfirst, hnext⟩ := read_bind_some hread
  exact hrule first between hfirst answer after hnext

/-- One rule after the other, where the first one ensures what the second one needs. -/
theorem ensures_then {rule : Rule α} {next : α → Rule β} {first : α → View → Prop} {result : β → View → Prop}
    (hrule : rule.Ensures readCall view first)
    (hnext : ∀ answer between, first answer between → (next answer).Ensures readCall between result) :
    (rule >>= next).Ensures readCall view result :=
  ensures_bind fun answer between hread => hnext answer between (hrule answer between hread)

theorem ensures_mono {rule : Rule α} {first result : α → View → Prop} (hrule : rule.Ensures readCall view first)
    (hresult : ∀ answer after, first answer after → result answer after) : rule.Ensures readCall view result :=
  fun answer after hread => hresult answer after (hrule answer after hread)

theorem ensures_pure {answer : α} {result : α → View → Prop} (hresult : result answer view) :
    (pure answer : Rule α).Ensures readCall view result := by
  intro found after hread
  simp only [read_pure, Option.some.injEq, Prod.mk.injEq] at hread
  exact hread.1 ▸ hread.2 ▸ hresult

theorem ensures_map {f : α → β} {rule : Rule α} {result : β → View → Prop}
    (hrule : rule.Ensures readCall view fun answer after => result (f answer) after) :
    (f <$> rule).Ensures readCall view result := by
  intro answer after hread
  rw [read_map, Option.map_eq_some_iff] at hread
  obtain ⟨found, hread, hfound⟩ := hread
  simp only [Prod.mk.injEq] at hfound
  exact hfound.1 ▸ hfound.2 ▸ hrule found.1 found.2 hread

theorem ensures_of_none {rule : Rule α} {result : α → View → Prop} (hnone : rule.read readCall view = none) :
    rule.Ensures readCall view result := by
  intro answer after hread
  simp [hnone] at hread

theorem ensures_of_none_bind {rule : Rule α} {next : α → Rule β} {result : β → View → Prop}
    (hnone : rule.read readCall view = none) : (rule >>= next).Ensures readCall view result :=
  ensures_bind (ensures_of_none hnone)

/-! ### Looking ahead -/

theorem ensures_current {result : Kind → View → Prop} (hresult : result (Word.here view.words) view.passTrivia) :
    current.Ensures readCall view result := by
  intro answer after hread
  simp only [read_current, Option.some.injEq, Prod.mk.injEq] at hread
  exact hread.1 ▸ hread.2 ▸ hresult

theorem ensures_currentIs {kind : Kind} {result : Bool → View → Prop}
    (hyes : Word.here view.words = kind → result true view.passTrivia)
    (hno : Word.here view.words ≠ kind → result false view.passTrivia) :
    (currentIs kind).Ensures readCall view result := by
  intro answer after hread
  simp only [read_currentIs, Option.some.injEq, Prod.mk.injEq] at hread
  obtain ⟨rfl, rfl⟩ := hread
  by_cases hhere : Word.here view.words = kind
  · rw [beq_iff_eq.mpr hhere]
    exact hyes hhere
  · rw [beq_eq_false_iff_ne.mpr hhere]
    exact hno hhere

theorem ensures_currentIn {set : TokenSet} {result : Bool → View → Prop}
    (hresult : result (set.contains (Word.here view.words)) view.passTrivia) :
    (currentIn set).Ensures readCall view result := by
  intro answer after hread
  simp only [read_currentIn, Option.some.injEq, Prod.mk.injEq] at hread
  exact hread.1 ▸ hread.2 ▸ hresult

theorem ensures_startsExpression {result : Bool → View → Prop}
    (hyes : Word.StartsExpression view.words → result true view.passTrivia)
    (hno : ¬Word.StartsExpression view.words → result false view.passTrivia) :
    startsExpression.Ensures readCall view result := by
  refine ensures_currentIn ?_
  by_cases hstarts : Word.StartsExpression view.words
  · rw [show TokenSet.expressionFirst.contains (Word.here view.words) = true from hstarts]
    exact hyes hstarts
  · rw [show TokenSet.expressionFirst.contains (Word.here view.words) = false from Bool.eq_false_iff.mpr hstarts]
    exact hno hstarts

theorem ensures_startsStatement {result : Bool → View → Prop}
    (hyes : Word.StartsStatement view.words → result true view.passTrivia)
    (hno : ¬Word.StartsStatement view.words → result false view.passTrivia) :
    startsStatement.Ensures readCall view result := by
  refine ensures_currentIn ?_
  by_cases hstarts : Word.StartsStatement view.words
  · rw [show TokenSet.statementFirst.contains (Word.here view.words) = true from hstarts]
    exact hyes hstarts
  · rw [show TokenSet.statementFirst.contains (Word.here view.words) = false from Bool.eq_false_iff.mpr hstarts]
    exact hno hstarts

theorem ensures_startsExpressionOrTable {result : Bool → View → Prop} (hyes : result true view.passTrivia)
    (hno : ¬Word.StartsExpression view.words ∧ Word.here view.words ≠ .braceOpen → result false view.passTrivia) :
    startsExpressionOrTable.Ensures readCall view result := by
  refine ensures_bind (ensures_startsExpression (fun _ => ensures_pure hyes) fun hstarts => ?_)
  refine ensures_currentIs (fun _ => ?_) fun hhere => ?_
  · rwa [view.settled_passTrivia]
  · rw [view.settled_passTrivia]
    exact hno ⟨hstarts, View.words_passTrivia view ▸ hhere⟩

/-- Where trivia has been passed, the end of the input is the end of its words. -/
theorem ensures_atEnd {result : Bool → View → Prop} (hsettled : view.Settled)
    (hyes : view.words = [] → result true view) (hno : view.words ≠ [] → result false view) :
    atEnd.Ensures readCall view result := by
  intro answer after hread
  rw [read_atEnd, Option.some.injEq, Prod.mk.injEq] at hread
  obtain ⟨rfl, rfl⟩ := hread
  by_cases hwords : view.words = []
  · rw [(View.ahead_eq_nil_iff hsettled).mpr hwords]
    exact hyes hwords
  · have hahead : view.ahead ≠ [] := fun hnil => hwords ((View.ahead_eq_nil_iff hsettled).mp hnil)
    rw [show view.ahead.isEmpty = false by simpa using hahead]
    exact hno hwords

theorem ensures_afterLineBreak {result : Bool → View → Prop} (hwords : view.words ≠ [])
    (hyes : Word.AfterBreak view.words → result true view.passTrivia)
    (hno : ¬Word.AfterBreak view.words → result false view.passTrivia) :
    (ofStep .afterLineBreak).Ensures readCall view result := by
  intro answer after hread
  rw [read_ofStep, Step.read, Option.some.injEq, Prod.mk.injEq] at hread
  obtain ⟨rfl, rfl⟩ := hread
  cases hcase : view.words with
  | nil => exact absurd hcase hwords
  | cons word rest =>
    rw [View.afterLineBreak_eq hcase]
    rw [hcase] at hyes hno
    cases hbreak : word.afterBreak with
    | true => exact hyes (by simp [Word.AfterBreak, hbreak])
    | false => exact hno (by simp [Word.AfterBreak, hbreak])

theorem ensures_stopped {result : Bool → View → Prop} (hyes : view.ahead = [] → result true view)
    (hno : view.ahead ≠ [] → result false view) : stopped.Ensures readCall view result := by
  intro answer after hread
  rw [read_stopped, Option.some.injEq, Prod.mk.injEq] at hread
  obtain ⟨rfl, rfl⟩ := hread
  by_cases hahead : view.ahead = []
  · rw [show view.ahead.isEmpty = true by simp [hahead]]
    exact hyes hahead
  · rw [show view.ahead.isEmpty = false by simpa using hahead]
    exact hno hahead

/-- A list ends at its closer or where nothing is left. -/
theorem ensures_ending {rule : Rule Bool} {result : Bool → View → Prop} (hend : view.ahead = [] → result true view)
    (hrule : rule.Ensures readCall view result) : (stopped <||> rule).Ensures readCall view result :=
  ensures_bind (ensures_stopped (fun hahead => ensures_pure (hend hahead)) fun _ => hrule)

/-! ### Nesting and marks -/

theorem ensures_descend {result : Bool → View → Prop} (hresult : result true view) :
    (ofStep .descend).Ensures readCall view result := by
  intro answer after hread
  rw [read_ofStep, Step.read, Option.some.injEq, Prod.mk.injEq] at hread
  exact hread.1 ▸ hread.2 ▸ hresult

theorem ensures_ascend {result : Unit → View → Prop} (hresult : result () view) :
    (ofStep .ascend).Ensures readCall view result := by
  intro answer after hread
  rw [read_ofStep, Step.read, Option.some.injEq, Prod.mk.injEq] at hread
  exact hread.2 ▸ hresult

theorem ensures_mark {result : Nat → View → Prop}
    (hresult : result view.placePending.placed.length view.placePending) :
    (ofStep .mark).Ensures readCall view result := by
  intro answer after hread
  rw [read_ofStep, Step.read, Option.some.injEq, Prod.mk.injEq] at hread
  exact hread.1 ▸ hread.2 ▸ hresult

/-! ### Passing words -/

theorem ensures_advance {result : Unit → View → Prop} (hsettled : view.Settled)
    (hresult : ∀ word after, view.Takes word after → after.afterWord = true → result () after) :
    advance.Ensures readCall view result := by
  intro answer after hread
  rw [read_advance, Option.map_eq_some_iff] at hread
  obtain ⟨found, hadvance, hfound⟩ := hread
  simp only [Prod.mk.injEq, true_and] at hfound
  obtain ⟨word, htakes, -, hafter⟩ := View.takes_of_advance hsettled hadvance
  exact hfound ▸ hresult word found htakes hafter

/-- Moves past the word here, whose kind is known. -/
theorem ensures_keyword {kind : Kind} {result : Unit → View → Prop} (hsettled : view.Settled)
    (hhere : Word.here view.words = kind)
    (hresult : ∀ after, view.Reads [.word kind] after → after.afterWord = true → result () after) :
    advance.Ensures readCall view result :=
  ensures_advance hsettled fun word after htakes hafter =>
    hresult after (.word htakes (by rw [← hhere, htakes.words]; rfl)) hafter

theorem ensures_wordIn {accepts : Kind → Bool} {result : Unit → View → Prop} (hsettled : view.Settled)
    (hhere : accepts (Word.here view.words) = true)
    (hresult : ∀ after, view.Reads [.wordIn accepts] after → result () after) :
    advance.Ensures readCall view result :=
  ensures_advance hsettled fun word after htakes _ =>
    hresult after (.wordIn htakes (by rwa [htakes.words] at hhere))

theorem ensures_eat {kind : Kind} {result : Bool → View → Prop}
    (hyes : ∀ after, view.Reads [.word kind] after → result true after)
    (hno : Word.here view.words ≠ kind → result false view.passTrivia) :
    (eat kind).Ensures readCall view result := by
  intro answer after hread
  rw [read_eat] at hread
  split at hread
  · next hhere =>
    rw [Option.map_eq_some_iff] at hread
    obtain ⟨found, hshift, hfound⟩ := hread
    simp only [Prod.mk.injEq] at hfound
    obtain ⟨word, htakes, -, -⟩ := View.takes_of_shift hshift
    rw [htakes.words] at hhere
    exact hfound.1 ▸ hfound.2 ▸ hyes found (.word htakes hhere)
  · next hhere =>
    simp only [Option.some.injEq, Prod.mk.injEq] at hread
    exact hread.1 ▸ hread.2 ▸ hno hhere

theorem ensures_optional {kind : Kind} {result : Bool → View → Prop}
    (hresult : ∀ answer after, view.Reads [.part (.optional kind)] after → result answer after) :
    (eat kind).Ensures readCall view result :=
  ensures_eat (fun after hword => hresult true after (.bare .someToken hword))
    fun hhere => hresult false view.passTrivia (.bare .noToken (.check hhere (.of_passTrivia (.nil _))))

theorem ensures_expect {kind : Kind} {what : String} {result : Bool → View → Prop}
    (hresult : ∀ after, view.Reads [.word kind] after → result true after) :
    (expect kind what).Ensures readCall view result := by
  intro answer after hread
  rw [read_expect] at hread
  split at hread
  · next hhere =>
    rw [Option.map_eq_some_iff] at hread
    obtain ⟨found, hshift, hfound⟩ := hread
    simp only [Prod.mk.injEq] at hfound
    obtain ⟨word, htakes, -, -⟩ := View.takes_of_shift hshift
    rw [htakes.words] at hhere
    exact hfound.1 ▸ hfound.2 ▸ hresult found (.word htakes hhere)
  · simp at hread

/-- Where something else stands, expecting a word reads nothing. -/
theorem read_expect_eq_none {kind : Kind} {what : String} (hhere : Word.here view.words ≠ kind) :
    (expect kind what).read readCall view = none := by
  rw [read_expect, if_neg hhere]

theorem ensures_open {kind : Kind} {result : Unit → View → Prop} (hhere : Word.here view.words = kind)
    (hresult : ∀ after, view.Reads [.word kind] after → result () after) :
    (openDelimiter kind).Ensures readCall view result := by
  intro answer after hread
  obtain ⟨word, htakes, -⟩ := takes_of_openDelimiter hread
  exact hresult after (.word htakes (by rw [← hhere, htakes.words]; rfl))

theorem ensures_close {close : Kind} {construct : String} {result : Unit → View → Prop}
    (hresult : ∀ after, Word.here view.words = close → view.Reads [.word close] after → result () after) :
    (closeDelimiter close construct).Ensures readCall view result := by
  intro answer after hread
  obtain ⟨word, htakes, hkind, -⟩ := takes_of_closeDelimiter hread
  exact hresult after (by rw [htakes.words, Word.here_cons, hkind]) (.word htakes hkind)

/-! ### Nonterminals and nodes -/

theorem ensures_call {nonterminal : Nonterminal} {result : Unit → View → Prop}
    (hresult : ∀ after, readCall nonterminal view = some after → result () after) :
    (call nonterminal).Ensures readCall view result := by
  intro answer after hread
  rw [read_call, Option.map_eq_some_iff] at hread
  obtain ⟨found, hcall, hfound⟩ := hread
  simp only [Prod.mk.injEq, true_and] at hfound
  exact hfound ▸ hresult found hcall

/-- A node stands for a phrase if its inner rule reads the parts of one of its productions. What is needed of the words
after it may be needed by the inner rule. -/
theorem ensures_nodeBefore {phrase : Phrase} {kind : Kind} {inner : Rule Unit} (needed : List Word → Prop)
    (hinner : ∀ start : View, start.words = view.words → (view.Settled → start.Settled) →
      inner.Ensures readCall start fun _ stop => needed stop.words →
        ∃ body, Production phrase (.node kind) body ∧ start.Reads body stop) :
    (node kind inner).Ensures readCall view fun _ after => needed after.words → view.Reads [.part phrase] after := by
  intro answer after hread hneeded
  obtain ⟨start, stop, hwords, hsettled, hread, hafter, -, hbuilt⟩ := exists_inner_of_node hread
  obtain ⟨body, hproduction, parts, hderives, hplaces⟩ :=
    hinner start hwords hsettled () stop hread (hafter ▸ hneeded)
  obtain ⟨tree, htree, hplaces⟩ := hbuilt parts hplaces
  rw [hwords, ← hafter] at hderives
  exact ⟨[tree], .phrase hproduction hderives ⟨tree, htree, rfl⟩, hplaces⟩

theorem ensures_anyNode {phrase : Phrase} {kind : Kind} {inner : Rule Unit}
    (hinner : ∀ start : View, start.words = view.words → (view.Settled → start.Settled) →
      inner.Ensures readCall start fun _ stop => ∃ body, Production phrase (.node kind) body ∧ start.Reads body stop) :
    (node kind inner).Ensures readCall view fun _ after => view.Reads [.part phrase] after :=
  ensures_mono (ensures_nodeBefore (fun _ => True) fun start hwords hsettled =>
    ensures_mono (hinner start hwords hsettled) fun _ _ hreads _ => hreads) fun _ _ hreads => hreads trivial

theorem ensures_node {phrase : Phrase} {kind : Kind} {inner : Rule Unit} {body : List Item}
    (hproduction : Production phrase (.node kind) body)
    (hinner : ∀ start : View, start.words = view.words → (view.Settled → start.Settled) →
      inner.Ensures readCall start fun _ stop => start.Reads body stop) :
    (node kind inner).Ensures readCall view fun _ after => view.Reads [.part phrase] after :=
  ensures_anyNode fun start hwords hsettled =>
    ensures_mono (hinner start hwords hsettled) fun _ _ hreads => ⟨body, hproduction, hreads⟩

/-- A node around what has been placed since a mark. -/
theorem ensures_nodeFrom {start : Nat} {kind : Kind} {inner : Rule Unit} {since base : List Tree}
    {result : Unit → View → Prop} (hplaced : view.placed = since ++ base) (hstart : base.length = start)
    (hinner : inner.Ensures readCall { view with placed := since } fun _ stop =>
      result () { stop with placed := .node kind stop.placed.reverse :: base }) :
    (nodeFrom start kind inner).Ensures readCall view result := by
  intro answer after hread
  rw [read_nodeFrom hplaced hstart, Option.map_eq_some_iff] at hread
  obtain ⟨⟨⟨⟩, stop⟩, hread, hafter⟩ := hread
  simp only [Prod.mk.injEq, true_and] at hafter
  exact hafter ▸ hinner () stop hread

/-- Rejected input is not read. -/
theorem read_advanceGarbage (hhere : Word.here view.words = .garbage) :
    advanceGarbage.read readCall view = none := by
  have hahead : view.passTrivia.ahead ≠ [] := by
    intro hnil
    rw [View.ahead_eq_nil_iff view.settled_passTrivia, View.words_passTrivia] at hnil
    simp [hnil] at hhere
  have hnode : (node .error advance).read readCall view.passTrivia = none := by
    rw [read_node, read_advance]
    have hshift : View.shift { view.passTrivia.placePending with placed := [] } = none :=
      View.shift_of_rejected (by
        have hsame : View.words { view.passTrivia.placePending with placed := [] } = view.words := view.words_passTrivia
        rw [hsame, hhere]
        rfl)
    rw [View.shift_of_settled (View.passTrivia_eq_self fun _ hmem => View.isTrivia_of_head?_dropWhile hmem)] at hshift
    rw [hshift]
    rfl
  rw [advanceGarbage, read_bind, read_current, Option.bind_some, advanceAsError, read_bind, read_atEnd,
    Option.bind_some]
  simp only [List.isEmpty_iff, hahead, if_false]
  exact hnode

/-! ### Nodes without blanks -/

theorem takes_exactly {view after : View} (hsettled : view.Settled) (hpending : view.pending = [])
    (hadvance : view.advance = some after) :
    ∃ word, view.Takes word after ∧ after.placed = word.tree :: view.placed ∧ after.pending = [] := by
  obtain ⟨word, htakes, -, -⟩ := View.takes_of_advance hsettled hadvance
  refine ⟨word, htakes, ?_⟩
  have hwords := htakes.words
  rw [View.advance] at hadvance
  split at hadvance
  · simp at hadvance
  · next token rest hahead =>
    split at hadvance
    · simp at hadvance
    · rw [View.words_of_settled hsettled hahead, List.cons.injEq] at hwords
      simp only [Option.some.injEq] at hadvance
      rw [← hadvance, ← hwords.1]
      simp [View.placePending, hpending, State.leafOf, Word.tree]

/-- A tight node stands for a phrase if its inner rule places nothing but the parts of a production. -/
theorem ensures_tight {phrase : Phrase} {kind : Kind} {inner : Rule Unit} {body : List Item}
    (hproduction : Production phrase (.tight kind) body)
    (hinner : ∀ start : View, start.words = view.words → start.ahead = view.ahead → (view.Settled → start.Settled) →
      start.pending = [] → start.placed = [] →
      inner.Ensures readCall start fun _ stop =>
        ∃ parts, Derives body start.words stop.words parts ∧ stop.placed = parts.reverse ∧ stop.pending = []) :
    (node kind inner).Ensures readCall view fun _ after => view.Reads [.part phrase] after := by
  intro answer after hread
  rw [read_node, Option.map_eq_some_iff] at hread
  obtain ⟨⟨⟨⟩, stop⟩, hread, hafter⟩ := hread
  simp only [Prod.mk.injEq, true_and] at hafter
  subst hafter
  have hsettled : view.Settled → ({ view.placePending with placed := [] } : View).Settled := fun hsettled =>
    View.passTrivia_eq_self fun token hmem => by
      obtain ⟨rest, hahead⟩ := List.head?_eq_some_iff.mp hmem
      exact hsettled.isTrivia_eq_false hahead
  obtain ⟨parts, hderives, hplaced, hpending⟩ :=
    hinner { view.placePending with placed := [] } rfl rfl hsettled rfl rfl () stop hread
  refine ⟨[.node kind parts], .phrase hproduction hderives rfl, fun htidy => ⟨?_, ?_⟩⟩
  · intro token hmem
    simp [hpending] at hmem
  · refine ⟨.node kind stop.placed.reverse :: view.pending.map State.leafOf, rfl, ?_⟩
    rw [List.reverse_cons, Tree.items_append, htidy.items_leafOf, List.nil_append, hplaced, List.reverse_reverse]
    rfl

end Grammar

end Squirrel
