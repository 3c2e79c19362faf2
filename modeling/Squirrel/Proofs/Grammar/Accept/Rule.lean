import Squirrel.Proofs.Grammar.Derivation
import Squirrel.Proofs.Tree.Trim

/-!
# What a rule accepts

A logic of readings that succeed. A rule accepts the words that are ahead if it reads some of them without a report,
whatever blanks and comments stand between them; it comes to an answer, places trees and leaves the last words ahead. How
many nonterminals are open at once is left out here, as every reading with fewer of them is one with more.
-/

namespace Squirrel

/-! ### Readings with enough nonterminals -/

theorem Rule.read_mono {fewer more : Nonterminal → View → Option View}
    (hcalls : ∀ nonterminal view after, fewer nonterminal view = some after → more nonterminal view = some after)
    {α : Type} {rule : Rule α} {view : View} {found : α × View} (hread : rule.read fewer view = some found) :
    rule.read more view = some found := by
  induction rule generalizing view with
  | done answer => exact hread
  | step s rest ih =>
    obtain ⟨answer, between, hstep, hread⟩ := read_step_some hread
    simp only [read, hstep]
    exact ih answer hread
  | wrap kind start inner rest ihinner ih =>
    obtain ⟨between, hinner, hread⟩ := read_wrap_some hread
    simp only [read, ihinner hinner]
    exact ih hread
  | call nonterminal rest ih =>
    obtain ⟨between, hcall, hread⟩ := read_call_some hread
    simp only [read, hcalls nonterminal view between hcall]
    exact ih hread

theorem Nonterminal.read_succ {bound : Nat} {nonterminal : Nonterminal} {view after : View}
    (hread : nonterminal.read bound view = some after) : nonterminal.read (bound + 1) view = some after := by
  induction bound generalizing nonterminal view after with
  | zero => exact nomatch hread
  | succ bound ih =>
    rw [read, Option.map_eq_some_iff] at hread ⊢
    obtain ⟨found, hread, hafter⟩ := hread
    exact ⟨found, Rule.read_mono (fun _ _ _ hcall => ih hcall) hread, hafter⟩

theorem Nonterminal.read_of_le {fewer more : Nat} (hle : fewer ≤ more) {nonterminal : Nonterminal}
    {view after : View} (hread : nonterminal.read fewer view = some after) :
    nonterminal.read more view = some after := by
  induction hle with
  | refl => exact hread
  | step _ ih => exact read_succ ih

/-- With enough nonterminals open at once the rule reads the answer and comes to the view after it. -/
def Rule.Gives {α : Type} (rule : Rule α) (view : View) (answer : α) (after : View) : Prop :=
  ∃ bound, rule.read (Nonterminal.read bound) view = some (answer, after)

namespace Rule.Gives

variable {α β : Type} {view between after : View}

theorem of_read {rule : Rule α} {answer : α}
    (hread : ∀ readCall, rule.read readCall view = some (answer, after)) : rule.Gives view answer after :=
  ⟨0, hread _⟩

theorem bind {rule : Rule α} {next : α → Rule β} {first : α} {answer : β} (hrule : rule.Gives view first between)
    (hnext : (next first).Gives between answer after) : (rule >>= next).Gives view answer after := by
  obtain ⟨left, hrule⟩ := hrule
  obtain ⟨right, hnext⟩ := hnext
  refine ⟨max left right, ?_⟩
  have hleft := fun nonterminal view after =>
    @Nonterminal.read_of_le left (max left right) (Nat.le_max_left ..) nonterminal view after
  have hright := fun nonterminal view after =>
    @Nonterminal.read_of_le right (max left right) (Nat.le_max_right ..) nonterminal view after
  rw [read_bind, read_mono hleft hrule, Option.bind_some]
  exact read_mono hright hnext

theorem pure (answer : α) (view : View) : (Pure.pure answer : Rule α).Gives view answer view := ⟨0, rfl⟩

/-- A nonterminal reads what its rule reads. -/
theorem call {nonterminal : Nonterminal} (hrule : (Grammar.ruleOf nonterminal).Gives view () after) :
    (Grammar.call nonterminal).Gives view () after := by
  obtain ⟨bound, hrule⟩ := hrule
  refine ⟨bound + 1, ?_⟩
  rw [Grammar.read_call, Nonterminal.read, hrule]
  rfl

end Rule.Gives

/-! ### Trees that have been placed -/

/-- Between two views the given trees have been placed, up to blanks and comments, and the last words are ahead. -/
def View.Lays (view : View) (trees : List Tree) (last : List Word) (after : View) : Prop :=
  after.words = last ∧ ∃ parts, view.Places parts after ∧ parts.map Tree.trim = trees

namespace View.Lays

variable {view between after : View} {left right : List Tree} {middle last : List Word}

theorem refl (view : View) : view.Lays [] view.words view := ⟨rfl, [], .refl view, rfl⟩

theorem trans (hfirst : view.Lays left middle between) (hsecond : between.Lays right last after) :
    view.Lays (left ++ right) last after := by
  obtain ⟨-, first, hplaces, rfl⟩ := hfirst
  obtain ⟨hlast, second, hplaces', rfl⟩ := hsecond
  exact ⟨hlast, first ++ second, hplaces.trans hplaces', List.map_append⟩

theorem of_passTrivia (hlays : view.passTrivia.Lays left last after) : view.Lays left last after := by
  obtain ⟨hlast, parts, hplaces, hparts⟩ := hlays
  exact ⟨hlast, parts, view.places_passTrivia.trans hplaces, hparts⟩

theorem passTrivia (view : View) : view.Lays [] view.words view.passTrivia :=
  ⟨view.words_passTrivia, [], view.places_passTrivia, rfl⟩

theorem of_takes {word : Word} (htakes : view.Takes word after) (hlast : after.words = last) :
    view.Lays [word.tree] last after :=
  ⟨hlast, [word.tree], htakes.places, by simp [Word.tree]⟩

end View.Lays

/-- The node around what has been placed since its start. -/
theorem View.exists_places_node {view stop : View} {kind : Kind} {parts : List Tree}
    (hplaces : ({ view.placePending with placed := [] } : View).Places parts stop) :
    ∃ tree : Tree, tree.BuiltOf kind parts ∧
      view.Places [tree] { stop with placed := .node kind stop.placed.reverse :: view.placePending.placed } := by
  obtain ⟨htidy, new, hnew, hparts⟩ := hplaces view.tidy_placePending
  rw [List.append_nil] at hnew
  refine ⟨.node kind stop.placed.reverse, ⟨_, rfl, by rw [hnew, hparts]⟩, fun hview => ⟨htidy, ?_⟩⟩
  refine ⟨.node kind stop.placed.reverse :: view.pending.map State.leafOf, rfl, ?_⟩
  rw [List.reverse_cons, Tree.items_append, hview.items_leafOf, List.nil_append]
  rfl

/-! ### Rules that accept words -/

/-- Wherever the words are ahead, the rule comes to the answer, places the trees and leaves the last words ahead. A rule
that starts at a word may ask for the blanks before it to be passed. -/
def Rule.Accepts {α : Type} (rule : Rule α) (settled : Bool) (words : List Word) (answer : α) (trees : List Tree)
    (last : List Word) : Prop :=
  ∀ view : View, view.words = words → (settled = true → view.Settled) →
    ∃ after, rule.Gives view answer after ∧ view.Lays trees last after

/-- Wherever the words are ahead, the rule comes to the answer and passes at most the blanks before them. -/
def Rule.Tests {α : Type} (rule : Rule α) (words : List Word) (answer : α) : Prop :=
  ∀ view : View, view.words = words → rule.Gives view answer view ∨ rule.Gives view answer view.passTrivia

/-- Wherever the words are ahead, the rule comes to the answer and passes the blanks before them. -/
def Rule.Looks {α : Type} (rule : Rule α) (words : List Word) (answer : α) : Prop :=
  ∀ view : View, view.words = words → rule.Gives view answer view.passTrivia

namespace Grammar

open Rule

variable {α β : Type} {settled : Bool} {words middle last : List Word} {left right trees : List Tree}

/-! ### Rules in general -/

theorem accepts_pure (answer : α) : (pure answer : Rule α).Accepts settled words answer [] words :=
  fun view hwords _ => ⟨view, .pure answer view, hwords ▸ .refl view⟩

theorem accepts_bind {rule : Rule α} {next : α → Rule β} {first : α} {answer : β}
    (hrule : rule.Accepts settled words first left middle) (hnext : (next first).Accepts false middle answer right last) :
    (rule >>= next).Accepts settled words answer (left ++ right) last := by
  intro view hwords hsettled
  obtain ⟨between, hfirst, hleft⟩ := hrule view hwords hsettled
  obtain ⟨after, hsecond, hright⟩ := hnext between hleft.1 nofun
  exact ⟨after, hfirst.bind hsecond, hleft.trans hright⟩

/-- What comes last places nothing. -/
theorem accepts_end {rule : Rule α} {next : α → Rule β} {first : α} {answer : β}
    (hrule : rule.Accepts settled words first trees middle) (hnext : (next first).Accepts false middle answer [] last) :
    (rule >>= next).Accepts settled words answer trees last := by
  have hboth := accepts_bind hrule hnext
  rwa [List.append_nil] at hboth

theorem Accepts.anywhere {rule : Rule α} {answer : α} (hrule : rule.Accepts false words answer trees last) :
    rule.Accepts settled words answer trees last :=
  fun view hwords _ => hrule view hwords nofun

/-- After a look the rule stands at a word. -/
theorem accepts_look {rule : Rule α} {next : α → Rule β} {first : α} {answer : β} (hrule : rule.Looks words first)
    (hnext : (next first).Accepts true words answer trees last) :
    (rule >>= next).Accepts settled words answer trees last := by
  intro view hwords _
  obtain ⟨after, hgives, hlays⟩ :=
    hnext view.passTrivia (view.words_passTrivia.trans hwords) fun _ => view.settled_passTrivia
  exact ⟨after, (hrule view hwords).bind hgives, .of_passTrivia hlays⟩

theorem accepts_test {rule : Rule α} {next : α → Rule β} {first : α} {answer : β} (hrule : rule.Tests words first)
    (hnext : (next first).Accepts settled words answer trees last) :
    (rule >>= next).Accepts settled words answer trees last := by
  intro view hwords hsettled
  obtain hsame | hpassed := hrule view hwords
  · obtain ⟨after, hgives, hlays⟩ := hnext view hwords hsettled
    exact ⟨after, hsame.bind hgives, hlays⟩
  · obtain ⟨after, hgives, hlays⟩ :=
      hnext view.passTrivia (view.words_passTrivia.trans hwords) fun _ => view.settled_passTrivia
    exact ⟨after, hpassed.bind hgives, .of_passTrivia hlays⟩

theorem Looks.tests {rule : Rule α} {answer : α} (hrule : rule.Looks words answer) : rule.Tests words answer :=
  fun view hwords => .inr (hrule view hwords)

theorem Looks.accepts {rule : Rule α} {answer : α} (hrule : rule.Looks words answer) :
    rule.Accepts settled words answer [] words :=
  fun view hwords _ => ⟨view.passTrivia, hrule view hwords, hwords ▸ .passTrivia view⟩

/-! ### Choices -/

theorem accepts_yes {condition : Rule Bool} {yes no : Rule α} {answer : α} (hcondition : condition.Looks words true)
    (hyes : yes.Accepts true words answer trees last) :
    (condition >>= fun found => if found = true then yes else no).Accepts settled words answer trees last :=
  accepts_look hcondition (by rwa [if_pos rfl])

theorem accepts_no {condition : Rule Bool} {yes no : Rule α} {answer : α} (hcondition : condition.Looks words false)
    (hno : no.Accepts true words answer trees last) :
    (condition >>= fun found => if found = true then yes else no).Accepts settled words answer trees last :=
  accepts_look hcondition (by rwa [if_neg Bool.false_ne_true])

/-- A condition that passes words where it holds. -/
theorem accepts_taken {condition : Rule Bool} {yes no : Rule α} {answer : α}
    (hcondition : condition.Accepts settled words true left middle) (hyes : yes.Accepts false middle answer right last) :
    (condition >>= fun found => if found = true then yes else no).Accepts settled words answer (left ++ right) last :=
  accepts_bind hcondition (by rwa [if_pos rfl])

/-- The rest of a rule may stand in both branches of a choice. -/
theorem accepts_branch {condition : Rule Bool} {yes no : Rule Unit} {next : Unit → Rule β} {answer : β}
    (hchoice : (condition >>= fun found => if found = true then yes else no).Accepts settled words () left middle)
    (hnext : (next ()).Accepts false middle answer right last) :
    (condition >>= fun found => if found = true then yes >>= next else no >>= next).Accepts settled words answer
      (left ++ right) last := by
  intro view hwords hsettled
  obtain ⟨between, ⟨bound, hread⟩, hleft⟩ := hchoice view hwords hsettled
  obtain ⟨after, hgives, hright⟩ := hnext between hleft.1 nofun
  obtain ⟨found, middle, hcondition, hbranch⟩ := read_bind_some hread
  refine ⟨after, ?_, hleft.trans hright⟩
  have hfound : condition.Gives view found middle := ⟨bound, hcondition⟩
  refine hfound.bind ?_
  cases found with
  | true => exact Gives.bind ⟨bound, hbranch⟩ hgives
  | false => exact Gives.bind ⟨bound, hbranch⟩ hgives

/-- A branch without a second way. -/
theorem accepts_option {condition : Rule Bool} {yes : Rule Unit} {next : Unit → Rule β} {answer : β}
    (hchoice : (condition >>= fun found => if found = true then yes else pure ()).Accepts settled words () left middle)
    (hnext : (next ()).Accepts false middle answer right last) :
    (condition >>= fun found => if found = true then yes >>= next else next ()).Accepts settled words answer
      (left ++ right) last :=
  accepts_branch hchoice hnext

/-- A branch that ends in a rule whose answer does not matter. -/
theorem accepts_optionOf {γ : Type} {condition : Rule Bool} {yes : Rule γ} {next : Rule β} {answer : β}
    (hchoice : (condition >>= fun found =>
      if found = true then yes >>= fun _ => pure () else pure ()).Accepts settled words () left middle)
    (hnext : next.Accepts false middle answer right last) :
    (condition >>= fun found => if found = true then yes >>= fun _ => next else next).Accepts settled words answer
      (left ++ right) last := by
  intro view hwords hsettled
  obtain ⟨between, ⟨bound, hread⟩, hleft⟩ := hchoice view hwords hsettled
  obtain ⟨after, hgives, hright⟩ := hnext between hleft.1 nofun
  obtain ⟨found, middle, hcondition, hbranch⟩ := read_bind_some hread
  refine ⟨after, ?_, hleft.trans hright⟩
  have hfound : condition.Gives view found middle := ⟨bound, hcondition⟩
  refine hfound.bind ?_
  cases found with
  | true =>
    obtain ⟨first, stop, hyes, hstop⟩ := read_bind_some hbranch
    obtain ⟨-, rfl⟩ := Prod.mk.inj (Option.some.inj hstop)
    have hyes : yes.Gives middle first stop := ⟨bound, hyes⟩
    exact hyes.bind hgives
  | false =>
    obtain ⟨-, rfl⟩ := Prod.mk.inj (Option.some.inj hbranch)
    exact hgives

/-- A rule whose answer does not matter. -/
theorem accepts_whole {rule : Rule α} {first : α} (answer : β) (hrule : rule.Accepts settled words first trees last) :
    (rule >>= fun _ => pure answer).Accepts settled words answer trees last :=
  accepts_end hrule (accepts_pure answer)

theorem looks_of_read {rule : Rule α} {answer : α}
    (hread : ∀ readCall (view : View), view.words = words →
      rule.read readCall view = some (answer, view.passTrivia)) : rule.Looks words answer :=
  fun view hwords => .of_read fun readCall => hread readCall view hwords

/-! ### Looking ahead -/

theorem looks_current : current.Looks words (Word.here words) :=
  looks_of_read fun _ view hwords => by rw [read_current, hwords]

theorem looks_currentIs {kind : Kind} (hhere : Word.here words = kind) : (currentIs kind).Looks words true :=
  looks_of_read fun _ view hwords => by rw [read_currentIs, hwords, beq_iff_eq.mpr hhere]

theorem looks_currentIs_other {kind : Kind} (hhere : Word.here words ≠ kind) : (currentIs kind).Looks words false :=
  looks_of_read fun _ view hwords => by rw [read_currentIs, hwords, beq_eq_false_iff_ne.mpr hhere]

theorem looks_currentIn {set : TokenSet} : (currentIn set).Looks words (set.contains (Word.here words)) :=
  looks_of_read fun _ view hwords => by rw [read_currentIn, hwords]

theorem looks_startsExpression (hstarts : Word.StartsExpression words) : startsExpression.Looks words true :=
  looks_of_read fun _ view hwords => by
    rw [startsExpression, read_currentIn, hwords, show TokenSet.contains _ _ = true from hstarts]

theorem looks_startsExpression_other (hstarts : ¬Word.StartsExpression words) : startsExpression.Looks words false :=
  looks_of_read fun _ view hwords => by
    rw [startsExpression, read_currentIn, hwords, show TokenSet.contains _ _ = false from Bool.eq_false_iff.mpr hstarts]

theorem looks_startsStatement (hstarts : Word.StartsStatement words) : startsStatement.Looks words true :=
  looks_of_read fun _ view hwords => by
    rw [startsStatement, read_currentIn, hwords, show TokenSet.contains _ _ = true from hstarts]

theorem looks_startsStatement_other (hstarts : ¬Word.StartsStatement words) : startsStatement.Looks words false :=
  looks_of_read fun _ view hwords => by
    rw [startsStatement, read_currentIn, hwords, show TokenSet.contains _ _ = false from Bool.eq_false_iff.mpr hstarts]

theorem looks_next : (ofStep .next).Looks words (Word.here words.tail) :=
  looks_of_read fun _ view hwords => by rw [read_ofStep, Step.read, View.kindOf_next, hwords]

/-- Where a word stands makes no difference to the words. -/
theorem accepts_span {next : Span → Rule β} {answer : β}
    (hnext : ∀ span, (next span).Accepts true words answer trees last) :
    (currentSpan >>= next).Accepts settled words answer trees last := by
  intro view hwords _
  have hspan : currentSpan.Gives view view.passTrivia.spanHere view.passTrivia :=
    .of_read fun _ => by rw [currentSpan, read_ofStep, Step.read]
  obtain ⟨after, hgives, hlays⟩ :=
    hnext _ view.passTrivia (view.words_passTrivia.trans hwords) fun _ => view.settled_passTrivia
  exact ⟨after, hspan.bind hgives, .of_passTrivia hlays⟩

theorem looks_numberFollows : (ofStep .numberFollows).Looks words (words.tail.head?.any Word.folds) :=
  looks_of_read fun _ view hwords => by rw [read_ofStep, Step.read, View.numberFollows_eq, hwords]

theorem looks_afterLineBreak {word : Word} {rest : List Word} :
    (ofStep .afterLineBreak).Looks (word :: rest) word.afterBreak :=
  looks_of_read fun _ view hwords => by rw [read_ofStep, Step.read, View.afterLineBreak_eq hwords]

/-- Where words are left, something is left. -/
theorem gives_stopped {view : View} (hwords : view.words ≠ []) : stopped.Gives view false view := by
  have hahead : view.ahead ≠ [] := by
    intro hnil
    refine hwords ?_
    rw [View.words, hnil]
    rfl
  refine .of_read fun _ => ?_
  rw [read_stopped, show view.ahead.isEmpty = false by simpa using hahead]

theorem tests_stopped (hwords : words ≠ []) : stopped.Tests words false :=
  fun _ hview => .inl (gives_stopped (hview ▸ hwords))

theorem tests_atEnd (hwords : words ≠ []) : atEnd.Tests words false := tests_stopped hwords

/-- Behind the blanks nothing is left where no words are. -/
theorem accepts_atEnd : atEnd.Accepts true [] true [] [] := by
  intro view hwords hsettled
  refine ⟨view, .of_read fun _ => ?_, hwords ▸ .refl view⟩
  rw [read_atEnd, (View.ahead_eq_nil_iff (hsettled rfl)).mpr hwords]
  rfl

theorem gives_orM_true {left right : Rule Bool} {view after : View} (hleft : left.Gives view true after) :
    (left <||> right).Gives view true after :=
  hleft.bind (.pure true after)

theorem gives_orM_false {left right : Rule Bool} {answer : Bool} {view between after : View}
    (hleft : left.Gives view false between) (hright : right.Gives between answer after) :
    (left <||> right).Gives view answer after :=
  hleft.bind hright

theorem looks_orM_true {left right : Rule Bool} (hleft : left.Looks words true) : (left <||> right).Looks words true :=
  fun view hwords => gives_orM_true (hleft view hwords)

theorem looks_orM {left right : Rule Bool} {answer : Bool} (hleft : left.Tests words false)
    (hright : right.Looks words answer) : (left <||> right).Looks words answer := by
  intro view hwords
  obtain hsame | hpassed := hleft view hwords
  · exact gives_orM_false hsame (hright view hwords)
  · have hgives := hright view.passTrivia (view.words_passTrivia.trans hwords)
    rw [view.settled_passTrivia] at hgives
    exact gives_orM_false hpassed hgives

theorem accepts_orM_taken {left right : Rule Bool} (hleft : left.Accepts settled words true trees last) :
    (left <||> right).Accepts settled words true trees last :=
  accepts_end hleft (accepts_pure true)

theorem accepts_orM {left right : Rule Bool} {answer : Bool} (hleft : left.Looks words false)
    (hright : right.Accepts true words answer trees last) : (left <||> right).Accepts settled words answer trees last :=
  accepts_look hleft hright

theorem looks_andM {left right : Rule Bool} {answer : Bool} (hleft : left.Looks words true)
    (hright : right.Looks words answer) : (left <&&> right).Looks words answer := by
  intro view hwords
  have hgives := hright view.passTrivia (view.words_passTrivia.trans hwords)
  rw [view.settled_passTrivia] at hgives
  exact (hleft view hwords).bind hgives

theorem looks_andM_false {left right : Rule Bool} (hleft : left.Looks words false) :
    (left <&&> right).Looks words false :=
  fun view hwords => (hleft view hwords).bind (.pure false view.passTrivia)

theorem looks_map {rule : Rule α} {answer : α} (f : α → β) (hrule : rule.Looks words answer) :
    (f <$> rule).Looks words (f answer) :=
  fun view hwords => (hrule view hwords).bind (.pure (f answer) view.passTrivia)

theorem looks_startsExpressionOrTable (hstarts : Word.StartsExpression words ∨ Word.here words = .braceOpen) :
    startsExpressionOrTable.Looks words true := by
  by_cases hexpression : Word.StartsExpression words
  · exact looks_orM_true (looks_startsExpression hexpression)
  · exact looks_orM (Looks.tests (looks_startsExpression_other hexpression))
      (looks_currentIs (hstarts.resolve_left hexpression))

theorem looks_startsExpressionOrTable_other (hstarts : ¬Word.StartsExpression words)
    (hhere : Word.here words ≠ .braceOpen) : startsExpressionOrTable.Looks words false :=
  looks_orM (Looks.tests (looks_startsExpression_other hstarts)) (looks_currentIs_other hhere)

theorem ne_nil_of_here {kind : Kind} (hhere : Word.here words = kind) (hkind : kind ≠ .error) : words ≠ [] := by
  rintro rfl
  exact hkind hhere.symm

/-- A list goes on as long as words are left. -/
theorem accepts_goOn {yes other : Rule α} {answer : α} (hwords : words ≠ [])
    (hother : other.Accepts settled words answer trees last) :
    (stopped >>= fun found => if found = true then yes else other).Accepts settled words answer trees last :=
  accepts_test (tests_stopped hwords) (by rwa [if_neg Bool.false_ne_true])

/-- The end of a list at its closer. -/
theorem looks_ending {kind : Kind} (hhere : Word.here words = kind) (hkind : kind ≠ .error) :
    (stopped <||> currentIs kind).Looks words true :=
  looks_orM (tests_stopped (ne_nil_of_here hhere hkind)) (looks_currentIs hhere)

theorem looks_going {kind : Kind} (hwords : words ≠ []) (hhere : Word.here words ≠ kind) :
    (stopped <||> currentIs kind).Looks words false :=
  looks_orM (tests_stopped hwords) (looks_currentIs_other hhere)

/-! ### Passing words -/

variable {word : Word}

theorem accepts_advance (haccepted : word.kind.isRejected = false) :
    advance.Accepts true (word :: last) () [word.tree] last := by
  intro view hwords hsettled
  obtain ⟨after, hshift, htakes, hrest⟩ := View.shift_of_words hwords haccepted
  rw [View.shift_of_settled (hsettled rfl)] at hshift
  exact ⟨after, .of_read fun _ => by rw [read_advance, hshift]; rfl, .of_takes htakes hrest⟩

theorem accepts_eat {kind : Kind} (hkind : word.kind = kind) (haccepted : kind.isRejected = false) :
    (eat kind).Accepts settled (word :: last) true [word.tree] last := by
  intro view hwords _
  obtain ⟨after, hshift, htakes, hrest⟩ := View.shift_of_words hwords (hkind ▸ haccepted)
  refine ⟨after, .of_read fun _ => ?_, .of_takes htakes hrest⟩
  rw [read_eat, hwords, if_pos (by rw [Word.here_cons, hkind]), hshift]
  rfl

theorem looks_eat_other {kind : Kind} (hhere : Word.here words ≠ kind) : (eat kind).Looks words false :=
  looks_of_read fun _ view hwords => by rw [read_eat, hwords, if_neg hhere]

theorem accepts_expect {kind : Kind} {what : String} (hkind : word.kind = kind) (haccepted : kind.isRejected = false) :
    (expect kind what).Accepts settled (word :: last) true [word.tree] last := by
  intro view hwords _
  obtain ⟨after, hshift, htakes, hrest⟩ := View.shift_of_words hwords (hkind ▸ haccepted)
  refine ⟨after, .of_read fun _ => ?_, .of_takes htakes hrest⟩
  rw [read_expect, hwords, if_pos (by rw [Word.here_cons, hkind]), hshift]
  rfl

theorem accepts_open {kind : Kind} (haccepted : word.kind.isRejected = false) :
    (openDelimiter kind).Accepts settled (word :: last) () [word.tree] last := by
  intro view hwords _
  obtain ⟨after, hread, htakes, hrest⟩ := openDelimiter_of_words hwords haccepted
  exact ⟨after, ⟨0, hread⟩, .of_takes htakes hrest⟩

theorem accepts_close {close : Kind} {construct : String} (hkind : word.kind = close)
    (haccepted : close.isRejected = false) :
    (closeDelimiter close construct).Accepts settled (word :: last) () [word.tree] last := by
  intro view hwords _
  obtain ⟨after, hread, htakes, hrest⟩ := closeDelimiter_of_words hwords hkind haccepted
  exact ⟨after, ⟨0, hread⟩, .of_takes htakes hrest⟩

/-- What stands between an opening delimiter and its closer. -/
theorem accepts_between {kind close : Kind} {construct : String} {inner : Rule Unit} {opener closer : Word}
    (hopener : opener.kind.isRejected = false) (hinner : inner.Accepts false words () trees (closer :: last))
    (hcloser : closer.kind = close) (haccepted : close.isRejected = false) :
    (openDelimiter kind >>= fun _ => inner >>= fun _ => closeDelimiter close construct).Accepts settled
      (opener :: words) () ([opener.tree] ++ (trees ++ [closer.tree])) last :=
  accepts_bind (accepts_open hopener) (accepts_bind hinner (accepts_close hcloser haccepted))

/-! ### Nodes and nonterminals -/

theorem accepts_node {kind : Kind} {inner : Rule Unit} (hinner : inner.Accepts settled words () trees last) :
    (node kind inner).Accepts settled words () [.node kind trees] last := by
  intro view hwords hsettled
  have hstart (htrue : settled = true) : ({ view.placePending with placed := [] } : View).Settled := by
    refine View.passTrivia_eq_self fun token hmem => ?_
    obtain ⟨rest, hahead⟩ := List.head?_eq_some_iff.mp hmem
    exact (hsettled htrue).isTrivia_eq_false hahead
  obtain ⟨stop, ⟨bound, hread⟩, hlast, parts, hplaces, hparts⟩ := hinner { view.placePending with placed := [] } hwords hstart
  obtain ⟨tree, hbuilt, htree⟩ := View.exists_places_node hplaces
  refine ⟨{ stop with placed := .node kind stop.placed.reverse :: view.placePending.placed }, ⟨bound, ?_⟩, hlast, [tree],
    htree, by rw [List.map_singleton, hbuilt.trim_eq, hparts]⟩
  rw [read_node, hread]
  rfl

theorem accepts_call {nonterminal : Nonterminal}
    (hrule : (ruleOf nonterminal).Accepts settled words () trees last) :
    (call nonterminal).Accepts settled words () trees last := by
  intro view hwords hsettled
  obtain ⟨after, hgives, hlays⟩ := hrule view hwords hsettled
  exact ⟨after, .call hgives, hlays⟩

end Grammar

end Squirrel
