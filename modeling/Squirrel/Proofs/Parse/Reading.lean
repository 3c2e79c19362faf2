import Squirrel.Proofs.Parse.Run

/-!
# Reading without a report

What a rule does to a source in which it finds nothing wrong. A reading keeps of a state only what decides the tree: the
tokens behind and ahead, the trivia that waits, and the trees placed so far. It has no limits, and it fails where the
rule would report or move past rejected input. A run that ends without a report and within its limits is a reading, and
a reading is what an unlimited run does, unless that run looks at tokens too often between two moves.
-/

namespace Squirrel

/-- The part of a state that decides what a rule reads. -/
structure View where
  behind : List Token
  ahead : List Token
  pending : List Token
  placed : List Tree
  openers : List Opener
  sourceLength : Nat

namespace View

def passTrivia (view : View) : View :=
  let trivia := view.ahead.takeWhile (·.kind.isTrivia)
  { view with
    behind := trivia.reverse ++ view.behind
    ahead := view.ahead.dropWhile (·.kind.isTrivia)
    pending := trivia.reverse ++ view.pending }

def placePending (view : View) : View :=
  { view with pending := [], placed := view.pending.map State.leafOf ++ view.placed }

def spanHere (view : View) : Span :=
  match view.ahead with
  | [] => ⟨view.sourceLength, view.sourceLength⟩
  | token :: _ => token.span

def afterLineBreak (view : View) : Bool := (view.behind.takeWhile (·.kind.isTrivia)).any Token.breaksLine

/-- Moves past the token ahead, unless that is rejected input. -/
def advance (view : View) : Option View :=
  match view.ahead with
  | [] => none
  | token :: rest =>
    if token.kind.isRejected then none
    else some { view.placePending with
      behind := token :: view.behind
      ahead := rest
      placed := State.leafOf token :: view.placePending.placed }

end View

namespace Step

/-- What a step answers and changes in a reading. -/
def read {α : Type} (step : Step α) (view : View) : Option (α × View) :=
  match step with
  | .current => some (State.kindOf view.passTrivia.ahead, view.passTrivia)
  | .adjacent => some (State.kindOf view.passTrivia.ahead.tail, view.passTrivia)
  | .next => some (State.kindOf (view.passTrivia.ahead.tail.dropWhile (·.kind.isTrivia)), view.passTrivia)
  | .currentSpan => some (view.passTrivia.spanHere, view.passTrivia)
  | .afterLineBreak => some (view.passTrivia.afterLineBreak, view.passTrivia)
  | .numberFollows => some (view.passTrivia.ahead.tail.head?.any State.isFoldable, view.passTrivia)
  | .previous => some (view.behind.find? (!·.kind.isTrivia), view)
  | .atEnd | .stopped => some (view.ahead.isEmpty, view)
  | .advance => view.advance.map fun after => ((), after)
  | .mark => some (view.placePending.placed.length, view.placePending)
  | .placeTrivia => some ((), view.passTrivia.placePending)
  | .pushOpener opener => some ((), { view with openers := opener :: view.openers })
  | .popOpener => some (view.openers.head?, { view with openers := view.openers.tail })
  | .report _ | .reportOnce .. => none
  | .descend => some (true, view)
  | .ascend => some ((), view)

end Step

namespace Rule

/-- Runs a rule as a reading, given a way to read nonterminals. -/
def read (readCall : Nonterminal → View → Option View) {α : Type} : Rule α → View → Option (α × View)
  | done answer, view => some (answer, view)
  | step s rest, view =>
    match s.read view with
    | none => none
    | some (answer, view) => read readCall (rest answer) view
  | wrap kind start inner rest, view =>
    let since := view.placed.length - start
    match read readCall inner { view with placed := view.placed.take since } with
    | none => none
    | some ((), after) =>
      read readCall rest { after with placed := .node kind after.placed.reverse :: view.placed.drop since }
  | call nonterminal rest, view =>
    match readCall nonterminal view with
    | none => none
    | some view => read readCall rest view

end Rule

/-- Reads a nonterminal with at most `bound` nonterminals open at once. -/
def Nonterminal.read : Nat → Nonterminal → View → Option View
  | 0, _, _ => none
  | bound + 1, nonterminal, view => (Rule.read (read bound) (Grammar.ruleOf nonterminal) view).map (·.2)

attribute [local grind =] Step.read Step.run Rule.read State.advance View.advance State.descend Nonterminal.read Nonterminal.run Rule.exec

/-! ### What a reading has gone through -/

namespace Rule

variable {readCall : Nonterminal → View → Option View} {α β : Type}

theorem read_step_some {s : Step β} {rest : β → Rule α} {view : View} {result : α × View}
    (hread : read readCall (step s rest) view = some result) :
    ∃ found between, s.read view = some (found, between) ∧ read readCall (rest found) between = some result := by
  simp only [read] at hread
  split at hread
  · simp at hread
  · next found between hstep => exact ⟨found, between, hstep, hread⟩

theorem read_wrap_some {kind : Kind} {start : Nat} {inner : Rule Unit} {rest : Rule α} {view : View} {result : α × View}
    (hread : read readCall (wrap kind start inner rest) view = some result) :
    ∃ stop, read readCall inner { view with placed := view.placed.take (view.placed.length - start) } = some ((), stop) ∧
      read readCall rest { stop with
        placed := .node kind stop.placed.reverse :: view.placed.drop (view.placed.length - start) } = some result := by
  simp only [read] at hread
  split at hread
  · simp at hread
  · next stop hinner => exact ⟨stop, hinner, hread⟩

theorem read_call_some {nonterminal : Nonterminal} {rest : Rule α} {view : View} {result : α × View}
    (hread : read readCall (call nonterminal rest) view = some result) :
    ∃ between, readCall nonterminal view = some between ∧ read readCall rest between = some result := by
  simp only [read] at hread
  split at hread
  · simp at hread
  · next between hcall => exact ⟨between, hcall, hread⟩

theorem read_of_nonterminal {bound : Nat} {nonterminal : Nonterminal} {view after : View}
    (hread : nonterminal.read (bound + 1) view = some after) :
    read (Nonterminal.read bound) (Grammar.ruleOf nonterminal) view = some ((), after) := by
  rw [Nonterminal.read] at hread
  obtain ⟨⟨⟨⟩, found⟩, hfound, rfl⟩ := Option.map_eq_some_iff.mp hread
  exact hfound

end Rule

/-! ### States and their views -/

namespace State

def view (state : State) : View where
  behind := state.behind
  ahead := state.ahead
  pending := state.pending
  placed := state.placed
  openers := state.openers
  sourceLength := state.sourceLength

/-- Nothing has been reported and no limit exceeded. -/
def Quiet (state : State) : Prop := state.reports = [] ∧ state.exceeded? = none

/-- No rejected input is ahead, and where a report may be left out one has been made. -/
def Sound (state : State) : Prop :=
  (∀ token ∈ state.ahead, token.kind.isRejected = false) ∧ (state.lastReport? ≠ none → state.reports ≠ [])

/-- Nothing has been reported, and no limit can be exceeded. -/
def Free (state : State) : Prop :=
  state.reports = [] ∧ state.lastReport? = none ∧ state.exceeded? = none ∧ state.stepsLeft? = none ∧
    state.depthLimit? = none

theorem eq_of_spendLook {state after : State} (hlook : state.spendLook = .ok after) :
    after = { state with looks := after.looks } := by
  rw [spendLook] at hlook
  split at hlook
  · simp at hlook
  · simp only [Except.ok.injEq] at hlook
    rw [← hlook]

theorem spendLook_eq (state : State) :
    state.spendLook = .error .lookedTooOften ∨ ∃ left, state.spendLook = .ok { state with looks := left } := by
  rw [spendLook]
  split
  · exact .inl rfl
  · next left _ => exact .inr ⟨left, rfl⟩

theorem spendStep_eq (state : State) :
    ∃ left? exceeded?, state.spendStep = { state with stepsLeft? := left?, exceeded? := exceeded? } ∧
      (state.stepsLeft? = none → left? = none ∧ exceeded? = state.exceeded?) ∧
      (exceeded? = none → state.exceeded? = none) := by
  rw [spendStep]
  split
  · exact ⟨state.stepsLeft?, state.exceeded?, rfl, fun hnone => ⟨hnone, rfl⟩, id⟩
  · next hzero =>
    refine ⟨state.stepsLeft?, _, rfl, by simp [hzero], ?_⟩
    cases state.exceeded? <;> simp
  · next left hleft => exact ⟨some left, state.exceeded?, rfl, by simp [hleft], id⟩

theorem view_of_advance {state after : State} (hadvance : state.advance = .ok after) (hsound : state.Sound) :
    state.view.advance = some after.view := by
  rw [advance] at hadvance
  split at hadvance
  · simp at hadvance
  · next token rest hahead =>
    obtain ⟨left?, exceeded?, hspend, -, -⟩ := spendStep_eq state
    have haccepted : token.kind.isRejected = false := hsound.1 token (by rw [hahead]; exact List.mem_cons_self)
    simp only [Except.ok.injEq, hspend] at hadvance
    rw [← hadvance]
    simp [View.advance, view, hahead, haccepted, View.placePending, placePending]

theorem advance_of_view {state : State} {after : View} (hadvance : state.view.advance = some after)
    (hfree : state.Free) : ∃ advanced, state.advance = .ok advanced ∧ advanced.view = after ∧ advanced.Free := by
  obtain ⟨hreports, hlast, hexceeded, hsteps, hdepth⟩ := hfree
  obtain ⟨left?, exceeded?, hspend, hkeep, -⟩ := spendStep_eq state
  obtain ⟨rfl, rfl⟩ := hkeep hsteps
  rw [View.advance] at hadvance
  split at hadvance
  · simp at hadvance
  · next token rest hahead =>
    have hahead : state.ahead = token :: rest := hahead
    split at hadvance
    · simp at hadvance
    · simp only [Option.some.injEq] at hadvance
      simp only [advance, hahead, hspend]
      exact ⟨_, rfl, by rw [← hadvance]; rfl, hreports, hlast, hexceeded, rfl, hdepth⟩

/-! ### What the end of a run says about its beginning -/

theorem reportOnce_ne_nil (state : State) (offset : Nat) (diagnostic : Diagnostic) (hsound : state.Sound) :
    (state.reportOnce offset diagnostic).reports ≠ [] := by
  rw [reportOnce]
  split
  · next hlast => exact hsound.2 (by simp [hlast])
  · simp

end State

/-- Reports and exceeded limits stay, and so does the absence of rejected input. -/
theorem Rule.kept_sound :
    Rule.Kept fun state after => (after.Quiet → state.Quiet) ∧ (state.Sound → after.Sound) where
  refl _ := ⟨id, id⟩
  trans hfirst hsecond := ⟨hfirst.1 ∘ hsecond.1, hsecond.2 ∘ hfirst.2⟩
  wrap _ _ _ _ hinner := hinner
  step s state after answer hrun := by
    have hpass : (state.passTrivia.Quiet → state.Quiet) ∧ (state.Sound → state.passTrivia.Sound) :=
      ⟨id, fun hsound => ⟨fun token hmem => hsound.1 token (List.dropWhile_subset _ hmem), hsound.2⟩⟩
    cases s <;> simp only [Step.run, Bind.bind, Except.bind, pure, Except.pure, Except.ok.injEq, Prod.mk.injEq] at hrun
    case current | adjacent =>
      split at hrun
      · simp at hrun
      · next looked hlook =>
        simp only [Except.ok.injEq, Prod.mk.injEq] at hrun
        rw [← hrun.2, State.eq_of_spendLook hlook]
        exact hpass
    case next | currentSpan | afterLineBreak | numberFollows | placeTrivia =>
      rw [← hrun.2]
      exact hpass
    case previous | atEnd | stopped | pushOpener | popOpener | ascend | mark => exact hrun.2 ▸ ⟨id, id⟩
    case advance =>
      split at hrun
      · simp at hrun
      · next advanced hadvance =>
        simp only [Except.ok.injEq, Prod.mk.injEq] at hrun
        rw [State.advance] at hadvance
        split at hadvance
        · simp at hadvance
        · next token rest hahead =>
          obtain ⟨left?, exceeded?, hspend, -, hkeep⟩ := State.spendStep_eq state
          simp only [Except.ok.injEq, hspend] at hadvance
          rw [← hrun.2, ← hadvance]
          exact ⟨fun hquiet => ⟨hquiet.1, hkeep hquiet.2⟩, fun hsound =>
            ⟨fun other hmem => hsound.1 other (by rw [hahead]; exact List.mem_cons_of_mem _ hmem), hsound.2⟩⟩
    case report diagnostic =>
      rw [← hrun.2]
      exact ⟨fun hquiet => by simp [State.Quiet] at hquiet, fun hsound => ⟨hsound.1, fun _ => by simp⟩⟩
    case reportOnce offset diagnostic =>
      rw [← hrun.2, State.reportOnce]
      split
      · exact ⟨id, id⟩
      · exact ⟨fun hquiet => by simp [State.Quiet] at hquiet, fun hsound => ⟨hsound.1, fun _ => by simp⟩⟩
    case descend =>
      rw [State.descend] at hrun
      split at hrun
      · simp only [Prod.mk.injEq] at hrun
        rw [← hrun.2]
        refine ⟨fun hquiet => ⟨hquiet.1, ?_⟩, id⟩
        have hnone := hquiet.2
        cases hexceeded : state.exceeded? <;> simp [hexceeded] at hnone
      · simp only [Prod.mk.injEq] at hrun
        exact hrun.2 ▸ ⟨id, id⟩

/-! ### Runs without a report are readings -/

theorem Step.read_of_run {α : Type} (step : Step α) {state after : State} {answer : α}
    (hrun : step.run state = .ok (answer, after)) (hsound : state.Sound) (hquiet : after.Quiet) :
    step.read state.view = some (answer, after.view) := by
  cases step <;> simp only [Step.run, bind, Except.bind, pure, Except.pure, Except.ok.injEq, Prod.mk.injEq] at hrun
  case current | adjacent =>
    split at hrun
    · simp at hrun
    · next looked hlook =>
      simp only [Except.ok.injEq, Prod.mk.injEq] at hrun
      rw [← hrun.1, ← hrun.2, State.eq_of_spendLook hlook]
      rfl
  case next | currentSpan | afterLineBreak | numberFollows | previous | atEnd | popOpener | mark =>
    rw [← hrun.1, ← hrun.2]
    rfl
  case placeTrivia | pushOpener | ascend =>
    rw [← hrun.2]
    rfl
  case stopped =>
    rw [← hrun.1, ← hrun.2]
    have hnone : state.exceeded? = none := by rw [hrun.2]; exact hquiet.2
    simp [Step.read, State.stopped, hnone, State.atEnd, State.view]
  case advance =>
    split at hrun
    · simp at hrun
    · next advanced hadvance =>
      simp only [Except.ok.injEq, Prod.mk.injEq] at hrun
      rw [← hrun.2]
      simp [Step.read, State.view_of_advance hadvance hsound]
  case report diagnostic =>
    rw [← hrun.2] at hquiet
    simp [State.Quiet] at hquiet
  case reportOnce offset diagnostic =>
    rw [← hrun.2] at hquiet
    exact absurd hquiet.1 (State.reportOnce_ne_nil state offset diagnostic hsound)
  case descend =>
    rw [State.descend] at hrun
    split at hrun
    · simp only [Prod.mk.injEq] at hrun
      have hnone := hquiet.2
      rw [← hrun.2] at hnone
      cases hexceeded : state.exceeded? <;> simp [hexceeded] at hnone
    · simp only [Prod.mk.injEq] at hrun
      rw [← hrun.1, ← hrun.2]
      rfl

section

variable {runCall : Nonterminal → State → Except Fault State} {readCall : Nonterminal → View → Option View}

theorem Rule.read_of_exec
    (hkeep : ∀ nonterminal state after, runCall nonterminal state = .ok after →
      (after.Quiet → state.Quiet) ∧ (state.Sound → after.Sound))
    (hcalls : ∀ nonterminal state after, runCall nonterminal state = .ok after → state.Sound → after.Quiet →
      readCall nonterminal state.view = some after.view)
    {α : Type} {rule : Rule α} {state after : State} {answer : α}
    (hexec : rule.exec runCall state = .ok (answer, after)) (hsound : state.Sound) (hquiet : after.Quiet) :
    rule.read readCall state.view = some (answer, after.view) := by
  induction rule generalizing state after with
  | done found =>
    simp only [exec, Except.ok.injEq, Prod.mk.injEq] at hexec
    rw [← hexec.1, ← hexec.2]
    rfl
  | step s rest ih =>
    obtain ⟨found, between, hstep, hexec⟩ := exec_step_ok hexec
    have hbetween := kept_sound.exec hkeep hexec
    have hread := s.read_of_run hstep hsound (hbetween.1 hquiet)
    simp only [read, hread]
    exact ih found hexec ((kept_sound.step s hstep).2 hsound) hquiet
  | wrap kind start inner rest ihinner ih =>
    obtain ⟨between, hinner, hexec⟩ := exec_wrap_ok hexec
    have hbetween := kept_sound.exec hkeep hexec
    have hread := ihinner hinner hsound (hbetween.1 hquiet)
    have hsame : state.view.placed.length = state.placed.length := rfl
    simp only [read, hsame]
    have hread' : inner.read readCall
        { state.view with placed := state.view.placed.take (state.placed.length - start) }
          = some ((), between.view) := hread
    rw [hread']
    exact ih hexec ((kept_sound.exec hkeep hinner).2 hsound) hquiet
  | call nonterminal rest ih =>
    obtain ⟨between, hcall, hexec⟩ := exec_call_ok hexec
    have hbetween := kept_sound.exec hkeep hexec
    simp only [read, hcalls nonterminal state between hcall hsound (hbetween.1 hquiet)]
    exact ih hexec ((hkeep nonterminal state between hcall).2 hsound) hquiet

theorem Nonterminal.read_of_run {bound : Nat} {nonterminal : Nonterminal} {state after : State}
    (hrun : nonterminal.run bound state = .ok after) (hsound : state.Sound) (hquiet : after.Quiet) :
    nonterminal.read bound state.view = some after.view := by
  induction bound generalizing nonterminal state after with
  | zero => simp [run] at hrun
  | succ bound ih =>
    simp only [run] at hrun
    have hexec := Rule.exec_of_run hrun
    have hread := Rule.read_of_exec (Rule.kept_sound.run bound) (fun _ _ _ hcall => ih hcall) hexec hsound hquiet
    simp [read, hread]

/-! ### Readings are what unlimited runs do -/

theorem Step.run_of_read {α : Type} (step : Step α) {state : State} {after : View} {answer : α}
    (hread : step.read state.view = some (answer, after)) (hfree : state.Free) :
    step.run state = .error .lookedTooOften ∨
      ∃ reached, step.run state = .ok (answer, reached) ∧ reached.view = after ∧ reached.Free := by
  cases step <;> simp only [Step.read, Option.some.injEq, Prod.mk.injEq, reduceCtorEq] at hread
  case current | adjacent =>
    obtain hfailed | ⟨left, hlook⟩ := State.spendLook_eq state.passTrivia
    · exact .inl (by simp only [Step.run, bind, Except.bind, hfailed])
    · refine .inr ⟨{ state.passTrivia with looks := left }, ?_, hread.2, hfree⟩
      simp only [Step.run, bind, Except.bind, pure, Except.pure, hlook, Except.ok.injEq, Prod.mk.injEq, and_true]
      exact hread.1
  case next | currentSpan | afterLineBreak | numberFollows | previous | atEnd | popOpener | mark =>
    exact .inr ⟨_, congrArg (fun found => Except.ok (found, _)) hread.1, hread.2, hfree⟩
  case placeTrivia | pushOpener | ascend => exact .inr ⟨_, rfl, hread.2, hfree⟩
  case stopped =>
    refine .inr ⟨state, ?_, hread.2, hfree⟩
    simp only [Step.run, State.stopped, hfree.2.2.1, Option.isSome_none, Bool.or_false, Except.ok.injEq,
      Prod.mk.injEq, and_true]
    exact hread.1
  case advance =>
    rw [Option.map_eq_some_iff] at hread
    obtain ⟨found, hadvance, hfound⟩ := hread
    simp only [Prod.mk.injEq] at hfound
    obtain ⟨advanced, hrun, hview, hadvanced⟩ := State.advance_of_view hadvance hfree
    refine .inr ⟨advanced, ?_, hview.trans hfound.2, hadvanced⟩
    simp only [Step.run, bind, Except.bind, pure, Except.pure, hrun]
  case descend =>
    refine .inr ⟨{ state with depth := state.depth + 1, looks := State.lookLimit }, ?_, hread.2, hfree⟩
    simp [Step.run, State.descend, hfree.2.2.2.2, hread.1]

theorem Rule.exec_of_read
    (hcalls : ∀ nonterminal state after, readCall nonterminal state.view = some after → state.Free →
      runCall nonterminal state = .error .lookedTooOften ∨
        ∃ reached, runCall nonterminal state = .ok reached ∧ reached.view = after ∧ reached.Free)
    {α : Type} {rule : Rule α} {state : State} {after : View} {answer : α}
    (hread : rule.read readCall state.view = some (answer, after)) (hfree : state.Free) :
    rule.exec runCall state = .error .lookedTooOften ∨
      ∃ reached, rule.exec runCall state = .ok (answer, reached) ∧ reached.view = after ∧ reached.Free := by
  induction rule generalizing state after with
  | done found =>
    simp only [read, Option.some.injEq, Prod.mk.injEq] at hread
    exact .inr ⟨state, by rw [exec, hread.1], hread.2, hfree⟩
  | step s rest ih =>
    obtain ⟨found, between, hstep, hread⟩ := read_step_some hread
    obtain hfailed | ⟨reached, hrun, hview, hreached⟩ := s.run_of_read hstep hfree
    · exact .inl (by simp only [exec, hfailed])
    · simp only [exec, hrun]
      exact ih found (hview ▸ hread) hreached
  | wrap kind start inner rest ihinner ih =>
    obtain ⟨between, hinner, hread⟩ := read_wrap_some hread
    obtain hfailed | ⟨reached, hrun, hview, hreached⟩ := @ihinner
      { state with placed := state.placed.take (state.placed.length - start) } between () hinner hfree
    · exact .inl (by simp only [exec, hfailed])
    · simp only [exec, hrun]
      subst hview
      exact ih hread hreached
  | call nonterminal rest ih =>
    obtain ⟨between, hcall, hread⟩ := read_call_some hread
    obtain hfailed | ⟨reached, hrun, hview, hreached⟩ := hcalls nonterminal state between hcall hfree
    · exact .inl (by simp only [exec, hfailed])
    · simp only [exec, hrun]
      exact ih (hview ▸ hread) hreached

theorem Nonterminal.run_of_read {bound : Nat} {nonterminal : Nonterminal} {state : State} {after : View}
    (hread : nonterminal.read bound state.view = some after) (hfree : state.Free) :
    nonterminal.run bound state = .error .lookedTooOften ∨
      ∃ reached, nonterminal.run bound state = .ok reached ∧ reached.view = after ∧ reached.Free := by
  induction bound generalizing nonterminal state after with
  | zero => simp [read] at hread
  | succ bound ih =>
    simp only [read, Option.map_eq_some_iff] at hread
    obtain ⟨⟨answer, found⟩, hread, hfound⟩ := hread
    obtain hfailed | ⟨reached, hrun, hview, hreached⟩ := @Rule.exec_of_read (run bound) (read bound)
      (fun _ _ _ hcall hfree => ih hcall hfree) _ _ _ _ _ hread hfree
    · exact .inl (by simp only [run, hfailed])
    · exact .inr ⟨reached, by simp only [run, hrun], hview.trans hfound, hreached⟩

end

end Squirrel
