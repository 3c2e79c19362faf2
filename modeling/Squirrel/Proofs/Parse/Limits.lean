import Squirrel.Proofs.Grammar.Progress
import Squirrel.Proofs.Parse.Lossless

/-!
# Limits only cut off

No rule reads what is left of the limits, but through the flag that one of them is exceeded. So a run that ends within its
limits is the same run under any others that are enough for it. What is enough of the steps follows from the account of
progress: every token but trivia takes one.
-/

namespace Squirrel

/-- Whether a bound, or having none, is at most another one. -/
def Limits.boundLe : Option Nat → Option Nat → Prop
  | _, none => True
  | none, some _ => False
  | some own, some other => own ≤ other

/-- Limits that allow all that others allow. -/
structure Limits.Allow (limits others : Limits) : Prop where
  steps : boundLe others.steps? limits.steps?
  depth : boundLe others.depth? limits.depth?

namespace State

/-- The same state under other limits. -/
def under (state : State) (limits : Limits) : State :=
  { state with stepsLeft? := limits.steps?, depthLimit? := limits.depth? }

/-- The steps that a run may take from here on if some are to be left at its end. -/
def need (spare : Nat) (state : State) : Nat :=
  match state.stepsLeft? with
  | none => state.ahead.length
  | some left => left - spare

/-- No limit is exceeded, and so many steps are left. -/
def Spares (spare : Nat) (state : State) : Prop :=
  state.exceeded? = none ∧ ∀ left, state.stepsLeft? = some left → spare ≤ left

/-- Limits that a run from here can do with. -/
structure Suffice (spare : Nat) (state : State) (limits : Limits) : Prop where
  steps : ∀ steps, limits.steps? = some steps → state.need spare ≤ steps
  depth : Limits.boundLe state.depthLimit? limits.depth?

end State

/-- From the state before to the one after, limits that suffice still do, and nothing is exceeded that was not before. -/
structure State.Leaves (spare : Nat) (state after : State) (limits rest : Limits) : Prop where
  spares : state.Spares spare
  suffice : after.Suffice spare rest

namespace State

variable {state after looked : State} {limits : Limits} {spare : Nat}

/-- A change that is not about the limits. -/
theorem leaves_of_eq (hsteps : after.stepsLeft? = state.stepsLeft?) (hdepth : after.depthLimit? = state.depthLimit?)
    (hexceeded : after.exceeded? = state.exceeded?) (hahead : after.ahead.length ≤ state.ahead.length)
    (hspares : after.Spares spare) (hsuffice : state.Suffice spare limits) : state.Leaves spare after limits limits := by
  refine ⟨⟨hexceeded ▸ hspares.1, hsteps ▸ hspares.2⟩, fun steps hlimit => ?_, hdepth ▸ hsuffice.depth⟩
  refine Nat.le_trans ?_ (hsuffice.steps steps hlimit)
  rw [need, need, hsteps]
  split
  · exact hahead
  · exact Nat.le_refl _

theorem length_passTrivia_le (state : State) : state.passTrivia.ahead.length ≤ state.ahead.length :=
  (List.dropWhile_suffix _).length_le

theorem reportOnce_under (state : State) (limits : Limits) (offset : Nat) (diagnostic : Diagnostic) :
    (state.under limits).reportOnce offset diagnostic = (state.reportOnce offset diagnostic).under limits ∧
      (state.reportOnce offset diagnostic).stepsLeft? = state.stepsLeft? ∧
      (state.reportOnce offset diagnostic).depthLimit? = state.depthLimit? ∧
      (state.reportOnce offset diagnostic).exceeded? = state.exceeded? ∧
      (state.reportOnce offset diagnostic).ahead.length = state.ahead.length := by
  by_cases hlast : state.lastReport? = some offset
  · have hlast' : (state.under limits).lastReport? = some offset := hlast
    simp only [reportOnce, hlast, hlast', if_true]
    exact ⟨trivial, trivial, trivial, trivial, trivial⟩
  · have hlast' : (state.under limits).lastReport? ≠ some offset := hlast
    simp only [reportOnce, hlast, hlast', if_false]
    exact ⟨rfl, trivial, trivial, trivial, trivial⟩

theorem spendLook_under (limits : Limits) (hlook : state.spendLook = .ok looked) :
    (state.under limits).spendLook = .ok (looked.under limits) ∧ looked.ahead = state.ahead ∧
      looked.stepsLeft? = state.stepsLeft? ∧ looked.depthLimit? = state.depthLimit? ∧ looked.exceeded? = state.exceeded? := by
  rw [spendLook] at hlook
  split at hlook
  · simp at hlook
  · next left hleft =>
    obtain rfl := Except.ok.inj hlook
    refine ⟨?_, rfl, rfl, rfl, rfl⟩
    have hlooks : (state.under limits).looks = left + 1 := hleft
    simp only [spendLook, hlooks]
    rfl

/-- Moving on takes a step off what is needed. -/
theorem need_advance (hadvance : state.advance = .ok after) (hspares : after.Spares spare) :
    state.Spares spare ∧ after.need spare + 1 ≤ state.need spare ∧ after.depthLimit? = state.depthLimit? := by
  rw [advance] at hadvance
  split at hadvance
  · simp at hadvance
  · next token rest hahead =>
    obtain rfl := Except.ok.inj hadvance
    simp only [Spares, need, placePending, spendStep] at hspares ⊢
    cases hsteps : state.stepsLeft? with
    | none => simp [hsteps, hahead] at hspares ⊢; exact hspares
    | some left =>
      cases left with
      | zero => simp [hsteps] at hspares
      | succ left =>
        simp [hsteps] at hspares ⊢
        exact ⟨⟨hspares.1, by omega⟩, by omega⟩

/-- A step that exceeds nothing changes only how many are left. -/
theorem spendStep_within (hwithin : state.spendStep.exceeded? = none) :
    ∃ left?, state.spendStep = { state with stepsLeft? := left? } := by
  rw [spendStep] at hwithin ⊢
  split at hwithin
  · next hsteps => exact ⟨state.stepsLeft?, rfl⟩
  · simp at hwithin
  · next left hsteps => exact ⟨some left, rfl⟩

theorem advance_under (hadvance : state.advance = .ok after) (hspares : after.Spares spare)
    (hsuffice : state.Suffice spare limits) :
    ∃ rest, (state.under limits).advance = .ok (after.under rest) ∧ state.Leaves spare after limits rest := by
  obtain ⟨hbefore, hneed, hdepth⟩ := need_advance hadvance hspares
  have hexceeded : after.exceeded? = state.exceeded? := hspares.1.trans hbefore.1.symm
  rw [advance] at hadvance
  split at hadvance
  · simp at hadvance
  · next token rest hahead =>
    obtain rfl := Except.ok.inj hadvance
    obtain ⟨left?, hspend⟩ := spendStep_within hspares.1
    have hmoves {more : Limits} (hmore : (state.under limits).spendStep = state.under more) :
        (state.under limits).advance = .ok ({ state.spendStep.placePending with
          behind := token :: state.spendStep.placePending.behind
          ahead := rest
          placed := leafOf token :: state.spendStep.placePending.placed
          looks := lookLimit }.under more) := by
      have hunder : (state.under limits).ahead = token :: rest := hahead
      rw [advance, hunder, hspend]
      simp only [hmore]
      rfl
    cases hsteps : limits.steps? with
    | none =>
      refine ⟨limits, hmoves ?_, hbefore, fun steps hlimit => ?_, hdepth ▸ hsuffice.depth⟩
      · simp [spendStep, under, hsteps]
      · rw [hsteps] at hlimit
        cases hlimit
    | some steps =>
      have henough := hsuffice.steps steps hsteps
      obtain ⟨less, rfl⟩ : ∃ less, steps = less + 1 := ⟨steps - 1, by omega⟩
      refine ⟨⟨some less, limits.depth?⟩, hmoves ?_, hbefore, fun found hlimit => ?_, hdepth ▸ hsuffice.depth⟩
      · simp [spendStep, under, hsteps]
      · obtain rfl := Option.some.inj hlimit
        omega

theorem descend_of_room (hroom : state.depthLimit?.any (· ≤ state.depth) = false) :
    state.descend = (true, { state with depth := state.depth + 1, looks := lookLimit }) := by
  rw [descend, hroom]
  rfl

theorem any_eq_false_of_boundLe {own? limit? : Option Nat} {depth : Nat} (hown : own?.any (· ≤ depth) = false)
    (hbound : Limits.boundLe own? limit?) : limit?.any (· ≤ depth) = false := by
  cases limit? with
  | none => rfl
  | some limit =>
    cases own? with
    | none => exact hbound.elim
    | some own =>
      simp only [Option.any_some, decide_eq_false_iff_not, Limits.boundLe] at hown hbound ⊢
      omega

theorem descend_under (hspares : state.descend.2.Spares spare) (hsuffice : state.Suffice spare limits) :
    (state.under limits).descend = (state.descend.1, state.descend.2.under limits) ∧
      state.Leaves spare state.descend.2 limits limits := by
  cases hdeep : state.depthLimit?.any (· ≤ state.depth) with
  | true =>
    rw [descend, if_pos hdeep] at hspares
    simp [Spares] at hspares
  | false =>
    have hunder : (state.under limits).depthLimit?.any (· ≤ (state.under limits).depth) = false :=
      any_eq_false_of_boundLe hdeep hsuffice.depth
    rw [descend_of_room hdeep] at hspares ⊢
    rw [descend_of_room hunder]
    exact ⟨rfl, leaves_of_eq rfl rfl rfl (Nat.le_refl _) hspares hsuffice⟩

end State

namespace Step

variable {α : Type} {step : Step α} {state after : State} {answer : α} {limits : Limits} {spare : Nat}

/-- A step that ends within its limits does the same under limits that suffice, and leaves them sufficient. -/
theorem run_under (hrun : step.run state = .ok (answer, after)) (hspares : after.Spares spare)
    (hsuffice : state.Suffice spare limits) :
    ∃ rest, step.run (state.under limits) = .ok (answer, after.under rest) ∧ state.Leaves spare after limits rest := by
  cases step <;> simp only [Step.run, bind, Except.bind, pure, Except.pure, Except.ok.injEq, Prod.mk.injEq] at hrun
  case current | adjacent =>
    split at hrun
    · simp at hrun
    · next looked hlook =>
      obtain ⟨rfl, rfl⟩ := Prod.mk.inj (Except.ok.inj hrun)
      obtain ⟨hunder, hahead, hsteps, hdepth, hexceeded⟩ := State.spendLook_under limits hlook
      refine ⟨limits, ?_, State.leaves_of_eq hsteps hdepth hexceeded (hahead ▸ state.length_passTrivia_le) hspares hsuffice⟩
      have hpassed : (state.under limits).passTrivia = state.passTrivia.under limits := rfl
      simp only [Step.run, hpassed, hunder]
      rfl
  case next | currentSpan | afterLineBreak | numberFollows =>
    obtain ⟨rfl, rfl⟩ := hrun
    exact ⟨limits, rfl, State.leaves_of_eq rfl rfl rfl state.length_passTrivia_le hspares hsuffice⟩
  case previous | atEnd | stopped | mark | popOpener =>
    obtain ⟨rfl, rfl⟩ := hrun
    exact ⟨limits, rfl, State.leaves_of_eq rfl rfl rfl (Nat.le_refl _) hspares hsuffice⟩
  case pushOpener | report | ascend =>
    obtain ⟨-, rfl⟩ := hrun
    exact ⟨limits, rfl, State.leaves_of_eq rfl rfl rfl (Nat.le_refl _) hspares hsuffice⟩
  case placeTrivia =>
    obtain ⟨-, rfl⟩ := hrun
    exact ⟨limits, rfl, State.leaves_of_eq rfl rfl rfl state.length_passTrivia_le hspares hsuffice⟩
  case advance =>
    split at hrun
    · simp at hrun
    · next advanced hadvance =>
      obtain ⟨-, rfl⟩ := Prod.mk.inj (Except.ok.inj hrun)
      obtain ⟨rest, hunder, hleaves⟩ := State.advance_under hadvance hspares hsuffice
      refine ⟨rest, ?_, hleaves⟩
      simp only [Step.run, hunder]
      rfl
  case reportOnce offset diagnostic =>
    obtain ⟨-, rfl⟩ := hrun
    obtain ⟨hunder, heq⟩ := state.reportOnce_under limits offset diagnostic
    refine ⟨limits, ?_, State.leaves_of_eq heq.1 heq.2.1 heq.2.2.1 (Nat.le_of_eq heq.2.2.2) hspares hsuffice⟩
    simp only [Step.run, hunder]
  case descend =>
    have hafter : after = state.descend.2 := (congrArg Prod.snd hrun).symm
    have hanswer : answer = state.descend.1 := (congrArg Prod.fst hrun).symm
    obtain ⟨hunder, hleaves⟩ := State.descend_under (hafter ▸ hspares) hsuffice
    refine ⟨limits, ?_, hafter ▸ hleaves⟩
    rw [Step.run, hunder, hanswer, hafter]

end Step

/-! ### Runs -/

theorem State.suffice_unbounded (spare : Nat) (state : State) : state.Suffice spare .unbounded where
  steps _ hsteps := nomatch hsteps
  depth := by
    cases state.depthLimit? <;> trivial

/-- What is left at the end was left before. -/
theorem Rule.kept_spares (spare : Nat) : Rule.Kept fun state after => after.Spares spare → state.Spares spare where
  refl _ := id
  trans hfirst hsecond := hfirst ∘ hsecond
  step s state _ _ hrun hspares :=
    let ⟨_, _, hleaves⟩ := s.run_under hrun hspares (state.suffice_unbounded spare)
    hleaves.spares
  wrap _ _ _ _ hinner := hinner

/-- Calls that do under limits that suffice what they do within others. -/
def UnderCalls (spare : Nat) (runCall : Nonterminal → State → Except Fault State) : Prop :=
  ∀ (nonterminal : Nonterminal) (state after : State) (limits : Limits), runCall nonterminal state = .ok after →
    after.Spares spare → state.Suffice spare limits →
      ∃ rest, runCall nonterminal (state.under limits) = .ok (after.under rest) ∧ state.Leaves spare after limits rest

theorem Rule.exec_under {α : Type} {runCall : Nonterminal → State → Except Fault State} {spare : Nat}
    (hcalls : UnderCalls spare runCall) {rule : Rule α} {state after : State} {answer : α} {limits : Limits}
    (hexec : rule.exec runCall state = .ok (answer, after)) (hspares : after.Spares spare)
    (hsuffice : state.Suffice spare limits) :
    ∃ rest, rule.exec runCall (state.under limits) = .ok (answer, after.under rest) ∧ state.Leaves spare after limits rest := by
  have hback {β : Type} {rest : Rule β} {before last : State} {found : β}
      (hrest : rest.exec runCall before = .ok (found, last)) (hlast : last.Spares spare) : before.Spares spare := by
    refine (Rule.kept_spares spare).exec (fun nonterminal state after hrun hafter => ?_) hrest hlast
    obtain ⟨_, _, hleaves⟩ := hcalls nonterminal state after .unbounded hrun hafter (state.suffice_unbounded spare)
    exact hleaves.spares
  induction rule generalizing state after limits with
  | done found =>
    obtain ⟨rfl, rfl⟩ := Prod.mk.inj (Except.ok.inj hexec)
    exact ⟨limits, rfl, hspares, hsuffice⟩
  | step s rest ih =>
    obtain ⟨found, between, hrun, hexec⟩ := exec_step_ok hexec
    obtain ⟨more, hunder, hleaves⟩ := s.run_under hrun (hback hexec hspares) hsuffice
    obtain ⟨last, hrest, hafter⟩ := ih found hexec hspares hleaves.suffice
    refine ⟨last, ?_, hleaves.spares, hafter.suffice⟩
    simp only [Rule.exec, hunder]
    exact hrest
  | wrap kind start inner rest ihinner ih =>
    obtain ⟨between, hinner, hexec⟩ := exec_wrap_ok hexec
    have hbetween := hback hexec hspares
    obtain ⟨more, hunder, hleaves⟩ := @ihinner { state with placed := state.placed.take (state.placed.length - start) }
      between () limits hinner hbetween ⟨hsuffice.steps, hsuffice.depth⟩
    obtain ⟨last, hrest, hafter⟩ := ih hexec hspares ⟨hleaves.suffice.steps, hleaves.suffice.depth⟩
    refine ⟨last, ?_, ⟨hleaves.spares.1, hleaves.spares.2⟩, hafter.suffice⟩
    have hunder' : inner.exec runCall { state.under limits with
        placed := (state.under limits).placed.take ((state.under limits).placed.length - start) } =
        .ok ((), between.under more) := hunder
    simp only [Rule.exec, hunder']
    exact hrest
  | call nonterminal rest ih =>
    obtain ⟨between, hcall, hexec⟩ := exec_call_ok hexec
    obtain ⟨more, hunder, hleaves⟩ := hcalls nonterminal state between limits hcall (hback hexec hspares) hsuffice
    obtain ⟨last, hrest, hafter⟩ := ih hexec hspares hleaves.suffice
    refine ⟨last, ?_, hleaves.spares, hafter.suffice⟩
    simp only [Rule.exec, hunder]
    exact hrest

theorem Nonterminal.run_under (spare bound : Nat) : UnderCalls spare (Nonterminal.run bound) := by
  induction bound with
  | zero =>
    intro nonterminal state after limits hrun
    simp [Nonterminal.run] at hrun
  | succ bound ih =>
    intro nonterminal state after limits hrun hspares hsuffice
    obtain ⟨rest, hunder, hleaves⟩ := Rule.exec_under ih (Rule.exec_of_run hrun) hspares hsuffice
    refine ⟨rest, ?_, hleaves⟩
    simp only [Nonterminal.run, hunder]

/-! ### Parses -/

/-- The tokens of a source that are not trivia. -/
def Script.wordCount (source : String) : Nat := State.words (Lexed.ofSource source).tokens

namespace Script

variable {source : String} {limits others : Limits} {script : Script}

/-- A parse with a result, as the run that it comes from. -/
structure Comes (source : String) (limits : Limits) (script : Script) (after : State) : Prop where
  run : Nonterminal.script.run (nestingBound (Lexed.ofSource source).tokens.length) (State.start source limits) = .ok after
  within : after.exceeded? = none
  script_eq : script = ⟨source, .node .script after.passTrivia.placePending.placed.reverse,
    Diagnostic.sorted ((Lexed.ofSource source).diagnostics ++ after.passTrivia.placePending.reports.reverse),
    limits.steps?.getD 0 - after.passTrivia.placePending.stepsLeft?.getD 0⟩

theorem exists_comes (hparse : parse source limits = .ok script) : ∃ after, Comes source limits script after := by
  obtain ⟨parsed, hparsed, rfl⟩ := parse_ok hparse
  obtain ⟨after, hrun, hwithin, rfl⟩ := parseTokens_ok hparsed
  exact ⟨after, hrun, hwithin, rfl⟩

theorem Comes.parse_eq {after : State} (hcomes : Comes source limits script after) : parse source limits = .ok script := by
  have hrun := hcomes.run
  rw [State.start] at hrun
  rw [hcomes.script_eq, parse, parseTokens]
  simp only [hrun, hcomes.within]

/-- Under limits that suffice for its run a parse has the same tree and diagnostics. -/
theorem Comes.under {after : State} {spare : Nat} (hcomes : Comes source limits script after) (hspares : after.Spares spare)
    (hsuffice : (State.start source limits).Suffice spare others) :
    ∃ other rest, Comes source others other (after.under rest) ∧ other.root = script.root ∧
      other.diagnostics = script.diagnostics := by
  obtain ⟨rest, hunder, -⟩ := Nonterminal.run_under spare _ .script _ _ others hcomes.run hspares hsuffice
  refine ⟨_, rest, ⟨hunder, hcomes.within, rfl⟩, ?_⟩
  rw [hcomes.script_eq]
  exact ⟨rfl, rfl⟩

/-- The steps that were allowed are those that are left and one for every word. -/
theorem Comes.steps_eq {after : State} (hcomes : Comes source limits script after) {fuel : Nat}
    (hfuel : limits.steps? = some fuel) :
    ∃ left, after.stepsLeft? = some left ∧ fuel = left + wordCount source ∧ script.stepsTaken = wordCount source := by
  have hkeeps := Nonterminal.keeps_start source limits (Nat.le_refl _)
  rw [Nonterminal.Keeps, hcomes.run] at hkeeps
  obtain ⟨-, haccounts⟩ := hkeeps.2 hcomes.within
  have hahead : after.ahead = [] := by
    have hstopped := Nonterminal.stopped_of_run_script hcomes.run
    simpa [State.stopped, State.atEnd, hcomes.within] using hstopped
  have hstart : (State.start source limits).stepsLeft? = some fuel := hfuel
  rw [hstart, hahead] at haccounts
  obtain ⟨left, hleft, hsum⟩ := Option.map_eq_some_iff.mp haccounts.symm
  have hcount : fuel = left + wordCount source := by
    rw [wordCount]
    exact hsum.symm
  refine ⟨left, hleft, hcount, ?_⟩
  have hpassed : after.passTrivia.placePending.stepsLeft? = some left := hleft
  rw [hcomes.script_eq]
  simp only [hfuel, hpassed, Option.getD_some]
  omega

/-- More room never steers a parse. -/
theorem exists_parse_of_allow (hparse : parse source limits = .ok script) (hallow : others.Allow limits) :
    ∃ other, parse source others = .ok other ∧ other.root = script.root ∧ other.diagnostics = script.diagnostics := by
  obtain ⟨after, hcomes⟩ := exists_comes hparse
  have hsuffice : (State.start source limits).Suffice 0 others := by
    refine ⟨fun steps hsteps => ?_, hallow.depth⟩
    have hbound := hallow.steps
    rw [hsteps] at hbound
    cases hown : limits.steps? with
    | none =>
      rw [hown] at hbound
      exact hbound.elim
    | some own =>
      rw [hown] at hbound
      have hstart : (State.start source limits).stepsLeft? = some own := hown
      rw [State.need, hstart]
      exact hbound
  obtain ⟨other, rest, hother, hroot, hdiagnostics⟩ := hcomes.under ⟨hcomes.within, fun _ _ => Nat.zero_le _⟩ hsuffice
  exact ⟨other, hother.parse_eq, hroot, hdiagnostics⟩

/-- With a step for every word a parse that needs no limit gets through. -/
theorem exists_parse_of_wordCount (hparse : parse source .unbounded = .ok script) {fuel : Nat}
    (henough : wordCount source ≤ fuel) : ∃ other, parse source ⟨some fuel, none⟩ = .ok other := by
  obtain ⟨after, hcomes⟩ := exists_comes hparse
  -- a step for every token is enough, as no move passes less than one
  have hplenty : (State.start source .unbounded).Suffice 0 ⟨some (Lexed.ofSource source).tokens.length, none⟩ := by
    refine ⟨fun steps hsteps => ?_, trivial⟩
    obtain rfl := Option.some.inj hsteps
    exact Nat.le_refl _
  obtain ⟨other, rest, hother, -, -⟩ := hcomes.under ⟨hcomes.within, fun _ _ => Nat.zero_le _⟩ hplenty
  -- and the steps that are left then were not needed
  obtain ⟨left, hleft, hcount, -⟩ := hother.steps_eq rfl
  have hspares : (after.under rest).Spares left := by
    refine ⟨hother.within, fun found hfound => ?_⟩
    rw [hleft] at hfound
    exact Nat.le_of_eq (Option.some.inj hfound)
  have hsuffice : (State.start source ⟨some (Lexed.ofSource source).tokens.length, none⟩).Suffice left
      ⟨some fuel, none⟩ := by
    refine ⟨fun steps hsteps => ?_, trivial⟩
    obtain rfl := Option.some.inj hsteps
    have hneed : (State.start source ⟨some (Lexed.ofSource source).tokens.length, none⟩).need left
        = (Lexed.ofSource source).tokens.length - left := rfl
    omega
  obtain ⟨final, _, hfinal, -, -⟩ := hother.under hspares hsuffice
  exact ⟨final, hfinal.parse_eq⟩

/-- Limits only cut a parse off. Under larger ones its tree and its diagnostics are the same; if its steps are limited, it
takes one for every token that is no trivia; and a parse that has a result without limits has one under a limit of its
steps if and only if that allows so many. -/
theorem parse_limits (source : String) :
    (∀ limits others script, parse source limits = .ok script → others.Allow limits →
      ∃ other, parse source others = .ok other ∧ other.root = script.root ∧ other.diagnostics = script.diagnostics) ∧
    (∀ limits fuel script, limits.steps? = some fuel → parse source limits = .ok script →
      script.stepsTaken = wordCount source) ∧
    (∀ script, parse source .unbounded = .ok script → ∀ fuel,
      (∃ other, parse source ⟨some fuel, none⟩ = .ok other) ↔ wordCount source ≤ fuel) := by
  refine ⟨fun limits others script hparse hallow => exists_parse_of_allow hparse hallow,
    fun limits fuel script hfuel hparse => ?_, fun script hparse fuel => ⟨fun ⟨other, hother⟩ => ?_, fun henough => ?_⟩⟩
  · obtain ⟨after, hcomes⟩ := exists_comes hparse
    obtain ⟨left, -, -, htaken⟩ := hcomes.steps_eq hfuel
    exact htaken
  · obtain ⟨after, hcomes⟩ := exists_comes hother
    obtain ⟨left, -, hcount, -⟩ := hcomes.steps_eq rfl
    omega
  · exact exists_parse_of_wordCount hparse henough

/-- A call has four words, and that many steps are what its parse takes. -/
theorem parse_limits_call :
    ∃ script, parse "f(a)" ⟨some 4, none⟩ = .ok script ∧ script.stepsTaken = wordCount "f(a)" ∧
      wordCount "f(a)" ≤ 4 ∧ ∃ other, parse "f(a)" .unbounded = .ok other ∧ other.root = script.root ∧
        other.diagnostics = script.diagnostics := by
  obtain ⟨hlarger, htaken, hiff⟩ := parse_limits "f(a)"
  have hlimited : (outcome? "f(a)" ⟨some 4, none⟩).any (fun _ => true) = true := by decide +kernel
  obtain ⟨script, -, hparse, -, -⟩ := exists_of_outcome hlimited
  obtain ⟨other, hother, hroot, hdiagnostics⟩ := hlarger _ .unbounded script hparse ⟨trivial, trivial⟩
  exact ⟨script, hparse, htaken _ 4 script rfl hparse, (hiff other hother 4).mp ⟨script, hparse⟩, other, hother, hroot,
    hdiagnostics⟩

end Script

end Squirrel
