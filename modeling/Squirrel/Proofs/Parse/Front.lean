import Squirrel.Proofs.Parse.Run

/-!
# Runs behind a front

What a parse does to a text does not depend on what it has passed before it gets there: with tokens behind it, trees
placed and reports made, it places the same trees on top of those and makes the same reports, only further on in the
source. Nothing but the place of the last report and the last token passed may tell it that the text is not a source of
its own, and both are in front of the text.
-/

namespace Squirrel

/-! ### Moving on in the source -/

def Span.shift (offset : Nat) (span : Span) : Span := ⟨span.start + offset, span.stop + offset⟩

def Token.shift (offset : Nat) (token : Token) : Token := { token with start := token.start + offset }

def Opener.shift (offset : Nat) (opener : Opener) : Opener := { opener with span := opener.span.shift offset }

def Related.shift (offset : Nat) (related : Related) : Related := { related with span := related.span.shift offset }

/-- The same diagnostic about a text that stands further on. -/
def Diagnostic.shift (offset : Nat) (diagnostic : Diagnostic) : Diagnostic :=
  { diagnostic with
    span := diagnostic.span.shift offset
    related := diagnostic.related.map (Related.shift offset) }

section

variable (offset : Nat)

@[simp] theorem Span.start_shift (span : Span) : (span.shift offset).start = span.start + offset := rfl

@[simp] theorem Token.start_shift (token : Token) : (token.shift offset).start = token.start + offset := rfl

@[simp] theorem Token.span_shift (token : Token) : (token.shift offset).span = token.span.shift offset :=
  congrArg (Span.mk _) (Nat.add_right_comm token.start offset token.text.utf8ByteSize)

@[simp] theorem Diagnostic.shift_report (kind : DiagnosticKind) (span : Span) (detail : Option String) :
    (Diagnostic.report kind span detail).shift offset = .report kind (span.shift offset) detail := rfl

@[simp] theorem Diagnostic.shift_withFix (diagnostic : Diagnostic) (fix : Fix) :
    (diagnostic.withFix fix).shift offset = (diagnostic.shift offset).withFix fix := rfl

@[simp] theorem Diagnostic.shift_withRelated (diagnostic : Diagnostic) (related : Related) :
    (diagnostic.withRelated related).shift offset = (diagnostic.shift offset).withRelated (related.shift offset) := by
  simp [Diagnostic.shift, Diagnostic.withRelated]

@[simp] theorem Diagnostic.span_shift (diagnostic : Diagnostic) :
    (diagnostic.shift offset).span = diagnostic.span.shift offset := rfl

theorem State.kindOf_shift (tokens : List Token) :
    State.kindOf (tokens.map (Token.shift offset)) = State.kindOf tokens := by
  cases tokens <;> rfl

theorem State.takeWhile_shift (tokens : List Token) :
    (tokens.map (Token.shift offset)).takeWhile (·.kind.isTrivia)
      = (tokens.takeWhile (·.kind.isTrivia)).map (Token.shift offset) :=
  List.takeWhile_map

theorem State.dropWhile_shift (tokens : List Token) :
    (tokens.map (Token.shift offset)).dropWhile (·.kind.isTrivia)
      = (tokens.dropWhile (·.kind.isTrivia)).map (Token.shift offset) :=
  List.dropWhile_map

theorem State.leafOf_shift (tokens : List Token) :
    (tokens.map (Token.shift offset)).map State.leafOf = tokens.map State.leafOf := by
  rw [List.map_map]
  rfl

end

/-! ### What lies in front -/

/-- What a parse has passed when it comes to a text: how many bytes, the tokens, the trees placed and the reports made,
the last one first. The last token is none of the trivia of the text, and the last report, if any, is in front of the
text. -/
structure Front where
  length : Nat
  behind : List Token
  placed : List Tree
  reports : List Diagnostic
  lastReport? : Option Nat
  lastReport_lt : ∀ last ∈ lastReport?, last < length
  takeWhile_behind : behind.takeWhile (·.kind.isTrivia) = []

namespace Front

/-- The state of a parse of the text alone, behind the front. -/
def state (front : Front) (state : State) : State :=
  { state with
    behind := state.behind.map (Token.shift front.length) ++ front.behind
    ahead := state.ahead.map (Token.shift front.length)
    pending := state.pending.map (Token.shift front.length)
    placed := state.placed ++ front.placed
    reports := state.reports.map (Diagnostic.shift front.length) ++ front.reports
    lastReport? := (state.lastReport?.map (· + front.length)).or front.lastReport?
    openers := state.openers.map (Opener.shift front.length)
    sourceLength := state.sourceLength + front.length }

/-- The front from inside a node that is still open. -/
def inside (front : Front) : Front := { front with placed := [] }

/-- What a nonterminal remembers, further on in the source and on top of what has been placed. -/
def nonterminal (front : Front) : Nonterminal → Nonterminal
  | .operators start power => .operators (start + front.placed.length) power
  | .parameterList variadics count =>
    .parameterList (variadics.map fun variadic => (variadic.1, variadic.2.shift front.length)) count
  | other => other

end Front

namespace State

variable (front : Front) (state : State)

theorem passTrivia_front : (front.state state).passTrivia = front.state state.passTrivia := by
  simp only [passTrivia, Front.state, takeWhile_shift, dropWhile_shift, List.map_append, List.map_reverse,
    List.append_assoc]

theorem placePending_front : (front.state state).placePending = front.state state.placePending := by
  simp only [placePending, Front.state, leafOf_shift, List.map_nil, List.append_assoc]

theorem spendLook_front : (front.state state).spendLook = state.spendLook.map front.state := by
  simp only [spendLook]
  have hlooks : (front.state state).looks = state.looks := rfl
  rw [hlooks]
  cases state.looks <;> rfl

theorem spanHere_front : (front.state state).spanHere = state.spanHere.shift front.length := by
  have hahead : (front.state state).ahead = state.ahead.map (Token.shift front.length) := rfl
  rw [spanHere, spanHere, hahead]
  cases state.ahead with
  | nil => rfl
  | cons token rest => exact Token.span_shift front.length token

theorem afterLineBreak_front : (front.state state).afterLineBreak = state.afterLineBreak := by
  have hbreaks : (Token.breaksLine ∘ Token.shift front.length) = Token.breaksLine := rfl
  have hbehind : (front.state state).behind = state.behind.map (Token.shift front.length) ++ front.behind := rfl
  rw [afterLineBreak, afterLineBreak, hbehind, List.takeWhile_append, takeWhile_shift, front.takeWhile_behind,
    List.append_nil, List.length_map, List.length_map]
  split
  · next heq =>
    have hall : state.behind.takeWhile (·.kind.isTrivia) = state.behind :=
      (List.takeWhile_prefix _).eq_of_length heq
    rw [hall, List.any_map, hbreaks]
  · rw [List.any_map, hbreaks]

theorem isFoldable_front : (front.state state).ahead.tail.head?.any isFoldable = state.ahead.tail.head?.any isFoldable := by
  have hahead : (front.state state).ahead = state.ahead.map (Token.shift front.length) := rfl
  rw [hahead, ← List.map_tail, List.head?_map, Option.any_map]
  rfl

theorem spendStep_front : (front.state state).spendStep = front.state state.spendStep := by
  have hsteps : (front.state state).stepsLeft? = state.stepsLeft? := rfl
  rw [spendStep, spendStep, hsteps]
  cases state.stepsLeft? with
  | none => rfl
  | some left => cases left <;> rfl

theorem advance_front : (front.state state).advance = state.advance.map front.state := by
  have hahead : (front.state state).ahead = state.ahead.map (Token.shift front.length) := rfl
  rw [advance, advance, hahead]
  cases state.ahead with
  | nil => rfl
  | cons token rest =>
    simp only [List.map_cons, spendStep_front, placePending_front]
    rfl

/-- Where the front keeps silent, so does the text alone. -/
theorem reportOnce_front (offset : Nat) (diagnostic : Diagnostic) :
    (front.state state).reportOnce (offset + front.length) (diagnostic.shift front.length)
      = front.state (state.reportOnce offset diagnostic) := by
  have hlast : (front.state state).lastReport? = some (offset + front.length) ↔ state.lastReport? = some offset := by
    rw [Front.state]
    cases state.lastReport? with
    | none =>
      rw [Option.map_none, Option.none_or]
      refine ⟨fun heq => ?_, nofun⟩
      have hbefore := front.lastReport_lt _ heq
      omega
    | some last =>
      rw [Option.map_some, Option.some_or, Option.some.injEq, Option.some.injEq]
      omega
  rw [reportOnce, reportOnce]
  by_cases hsame : state.lastReport? = some offset
  · rw [if_pos hsame, if_pos (hlast.mpr hsame)]
  · rw [if_neg hsame, if_neg fun hfront => hsame (hlast.mp hfront)]
    rfl

theorem descend_front :
    (front.state state).descend = (state.descend.1, front.state state.descend.2) := by
  have hlimit : (front.state state).depthLimit? = state.depthLimit? := rfl
  have hdepth : (front.state state).depth = state.depth := rfl
  rw [descend, descend, hlimit, hdepth]
  split <;> rfl

end State

/-! ### Steps -/

namespace Step

/-- The same step behind a front: it reports further on. -/
def shift (front : Front) : {α : Type} → Step α → Step α
  | _, .pushOpener opener => .pushOpener (opener.shift front.length)
  | _, .report diagnostic => .report (diagnostic.shift front.length)
  | _, .reportOnce offset diagnostic => .reportOnce (offset + front.length) (diagnostic.shift front.length)
  | _, step => step

/-- The answer that a step gives behind a front. -/
def answer (front : Front) : {α : Type} → Step α → α → α
  | _, .currentSpan => Span.shift front.length
  | _, .mark => (· + front.placed.length)
  | _, .popOpener => Option.map (Opener.shift front.length)
  | _, .previous => Option.map (Token.shift front.length)
  | _, _ => id

/-- The step that looks back into the front if the text has no token behind it. -/
def looksBack {α : Type} : Step α → Bool
  | .previous => true
  | _ => false

theorem run_shift {α : Type} (step : Step α) (front : Front) (state : State) (hback : step.looksBack = false) :
    (step.shift front).run (front.state state)
      = (step.run state).map fun found => (step.answer front found.1, front.state found.2) := by
  have hahead : (front.state state.passTrivia).ahead = state.passTrivia.ahead.map (Token.shift front.length) := rfl
  cases step with
  | current =>
    simp only [shift, answer, run, State.passTrivia_front, State.spendLook_front]
    cases state.passTrivia.spendLook with
    | error fault => rfl
    | ok looked =>
      show Except.ok (State.kindOf (looked.ahead.map (Token.shift front.length)), front.state looked) = _
      rw [State.kindOf_shift]
      rfl
  | adjacent =>
    simp only [shift, answer, run, State.passTrivia_front, State.spendLook_front]
    cases state.passTrivia.spendLook with
    | error fault => rfl
    | ok looked =>
      show Except.ok (State.kindOf (looked.ahead.map (Token.shift front.length)).tail, front.state looked) = _
      rw [← List.map_tail, State.kindOf_shift]
      rfl
  | next =>
    simp only [shift, answer, run, State.passTrivia_front, hahead, ← List.map_tail, State.dropWhile_shift,
      State.kindOf_shift]
    rfl
  | currentSpan =>
    simp only [shift, answer, run, State.passTrivia_front, State.spanHere_front]
    rfl
  | afterLineBreak =>
    simp only [shift, answer, run, State.passTrivia_front, State.afterLineBreak_front]
    rfl
  | numberFollows =>
    simp only [shift, answer, run, State.passTrivia_front, State.isFoldable_front]
    rfl
  | previous => exact nomatch hback
  | atEnd =>
    have hend : (front.state state).atEnd = state.atEnd := List.isEmpty_map
    simp only [shift, answer, run, hend]
    rfl
  | stopped =>
    have hend : (front.state state).atEnd = state.atEnd := List.isEmpty_map
    simp only [shift, answer, run, State.stopped, hend]
    rfl
  | advance =>
    simp only [shift, answer, run, State.advance_front]
    cases state.advance <;> rfl
  | mark =>
    simp only [shift, answer, run, State.placePending_front]
    show Except.ok ((state.placePending.placed ++ front.placed).length, front.state state.placePending) = _
    rw [List.length_append]
    rfl
  | placeTrivia =>
    simp only [shift, answer, run, State.passTrivia_front, State.placePending_front]
    rfl
  | pushOpener opener => rfl
  | popOpener =>
    show Except.ok ((state.openers.map (Opener.shift front.length)).head?, _) = _
    rw [List.head?_map]
    simp only [Front.state, ← List.map_tail]
    rfl
  | report diagnostic => rfl
  | reportOnce offset diagnostic =>
    simp only [shift, answer, run, State.reportOnce_front]
    rfl
  | descend =>
    simp only [shift, answer, run, State.descend_front]
    rfl
  | ascend => rfl

/-- A token of the text is the last one passed before any of the front. -/
theorem run_previous (front : Front) {state : State} (hword : ∃ token ∈ state.behind, token.kind.isTrivia = false) :
    Step.previous.run (front.state state)
      = (Step.previous.run state).map fun found => (found.1.map (Token.shift front.length), front.state found.2) := by
  obtain ⟨token, hmem, htrivia⟩ := hword
  have hsome : (state.behind.find? (!·.kind.isTrivia)).isSome = true := by
    rw [List.find?_isSome]
    exact ⟨token, hmem, by rw [htrivia]; rfl⟩
  show Except.ok ((state.behind.map (Token.shift front.length) ++ front.behind).find? (!·.kind.isTrivia), _) = _
  rw [List.find?_append, List.find?_map]
  obtain ⟨found, hfound⟩ := Option.isSome_iff_exists.mp hsome
  have hshifted : state.behind.find? ((!·.kind.isTrivia) ∘ Token.shift front.length) = some found := hfound
  rw [hshifted]
  show _ = Except.ok ((state.behind.find? (!·.kind.isTrivia)).map (Token.shift front.length), front.state state)
  rw [hfound]
  rfl

end Step

/-! ### Rules -/

namespace Rule

variable {α β : Type}

/-- From a state on, a rule behind a front does what another one does to the text alone. -/
def ShiftsAt (runCall : Nonterminal → State → Except Fault State) (front : Front) (onAnswer : α → α) (shifted rule : Rule α)
    (state : State) : Prop :=
  shifted.exec runCall (front.state state)
    = (rule.exec runCall state).map fun found => (onAnswer found.1, front.state found.2)

/-- A rule that does the same behind any front. -/
def Shifts (runCall : Nonterminal → State → Except Fault State) (rule : Rule α) : Prop :=
  ∀ front state, rule.ShiftsAt runCall front id rule state

section

variable {runCall : Nonterminal → State → Except Fault State} {front : Front} {state : State}

theorem ShiftsAt.bind {onFirst : α → α} {onAnswer : β → β} {shifted rule : Rule α} {shiftedNext next : α → Rule β}
    (hrule : shifted.ShiftsAt runCall front onFirst rule state)
    (hnext : ∀ answer after, rule.exec runCall state = .ok (answer, after) →
      (shiftedNext (onFirst answer)).ShiftsAt runCall front onAnswer (next answer) after) :
    (shifted >>= shiftedNext).ShiftsAt runCall front onAnswer (rule >>= next) state := by
  rw [ShiftsAt, exec_bind, exec_bind, hrule]
  cases hexec : rule.exec runCall state with
  | error fault => rfl
  | ok found => exact hnext found.1 found.2 hexec

theorem shifts_pure (answer : α) : (pure answer : Rule α).Shifts runCall := fun _ _ => rfl

theorem shiftsAt_ofStep (step : Step α) (hback : step.looksBack = false) :
    (ofStep (step.shift front)).ShiftsAt runCall front (step.answer front) (ofStep step) state := by
  rw [ShiftsAt]
  simp only [ofStep, exec, step.run_shift front state hback]
  cases step.run state <;> rfl

theorem shifts_bind {rule : Rule α} {next : α → Rule β} (hrule : rule.Shifts runCall)
    (hnext : ∀ answer, (next answer).Shifts runCall) : (rule >>= next).Shifts runCall :=
  fun front state => (hrule front state).bind fun answer after _ => hnext answer front after

theorem shifts_ite {condition : Prop} [Decidable condition] {left right : Rule α} (hleft : left.Shifts runCall)
    (hright : right.Shifts runCall) : (if condition then left else right).Shifts runCall := by
  split
  · exact hleft
  · exact hright

theorem shifts_orM {left right : Rule Bool} (hleft : left.Shifts runCall) (hright : right.Shifts runCall) :
    (left <||> right).Shifts runCall :=
  shifts_bind hleft fun answer => by
    cases answer
    · exact hright
    · exact shifts_pure _

theorem shifts_andM {left right : Rule Bool} (hleft : left.Shifts runCall) (hright : right.Shifts runCall) :
    (left <&&> right).Shifts runCall :=
  shifts_bind hleft fun answer => by
    cases answer
    · exact shifts_pure _
    · exact hright

theorem shifts_map {f : α → β} {rule : Rule α} (hrule : rule.Shifts runCall) : (f <$> rule).Shifts runCall :=
  shifts_bind hrule fun _ => shifts_pure _

/-! ### Nodes -/

/-- A node takes the same trees off those placed, whatever lies below the mark. -/
theorem shiftsAt_nodeFrom {start : Nat} {kind : Kind} {inner : Rule Unit}
    (hinner : ∀ placed, inner.ShiftsAt runCall front.inside id inner { state with placed }) :
    (Grammar.nodeFrom (start + front.placed.length) kind inner).ShiftsAt runCall front id
      (Grammar.nodeFrom start kind inner) state := by
  have hsince : (front.state state).placed.length - (start + front.placed.length) = state.placed.length - start := by
    show (state.placed ++ front.placed).length - _ = _
    rw [List.length_append, Nat.add_sub_add_right]
  have hwithin : state.placed.length - start ≤ state.placed.length := Nat.sub_le _ _
  have hdrop : (front.state state).placed.drop (state.placed.length - start)
      = state.placed.drop (state.placed.length - start) ++ front.placed := List.drop_append_of_le_length hwithin
  have hinside : { front.state state with
      placed := (front.state state).placed.take (state.placed.length - start) }
        = front.inside.state { state with placed := state.placed.take (state.placed.length - start) } := by
    simp only [Front.state, Front.inside, List.take_append_of_le_length hwithin, List.append_nil]
  have hrun := hinner (state.placed.take (state.placed.length - start))
  rw [ShiftsAt] at hrun
  simp only [ShiftsAt, Grammar.nodeFrom, exec, hsince, hinside, hdrop, hrun]
  cases inner.exec runCall { state with placed := state.placed.take (state.placed.length - start) } with
  | error fault => rfl
  | ok found =>
    simp only [Except.map, Front.state, Front.inside, List.append_nil, List.cons_append, id_eq]

theorem shiftsAt_node {kind : Kind} {inner : Rule Unit}
    (hinner : ∀ placed, inner.ShiftsAt runCall front.inside id inner { state.placePending with placed }) :
    (Grammar.node kind inner).ShiftsAt runCall front id (Grammar.node kind inner) state := by
  apply (shiftsAt_ofStep .mark rfl).bind
  intro start after hmark
  obtain ⟨-, rfl⟩ := Prod.mk.inj (Except.ok.inj hmark)
  exact shiftsAt_nodeFrom hinner

theorem shifts_node {kind : Kind} {inner : Rule Unit} (hinner : inner.Shifts runCall) :
    (Grammar.node kind inner).Shifts runCall :=
  fun front _ => shiftsAt_node fun _ => hinner front.inside _

end

end Rule

end Squirrel
