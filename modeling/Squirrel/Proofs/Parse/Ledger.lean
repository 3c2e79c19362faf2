import Squirrel.Proofs.Parse.Orderly
import Squirrel.Proofs.Tree.Open

/-!
# What a run bears out

A run of an orderly rule bears out its record. Openers wait in the open node without a closer behind them, so whichever
of them is given up at the end of the source and reported stands open in the tree. The first such report is about the
opener that is the innermost one when no word is left, for nothing is opened or closed after that.
-/

namespace Squirrel

/-! ### The end of the words -/

namespace State

/-- No word is left. -/
def isBlank (state : State) : Bool := state.ahead.all (·.kind.isTrivia)

/-- The first state of a run without a word ahead, once the run gets to one more state. -/
def firstBlank (blank? : Option State) (state : State) : Option State :=
  blank?.or (if state.isBlank then some state else none)

end State

namespace Rule

/-- The first state without a word ahead that a run goes through, unless it has been found before. -/
def firstBlank (runCall : Nonterminal → State → Except Fault State)
    (blankCall : Nonterminal → Option State → State → Option State) {α : Type} :
    Rule α → Option State → State → Option State
  | done _, blank?, _ => blank?
  | step s rest, blank?, state =>
    match s.run state with
    | .error _ => blank?
    | .ok (answer, state) => firstBlank runCall blankCall (rest answer) (state.firstBlank blank?) state
  | wrap kind start inner rest, blank?, state =>
    let since := state.placed.length - start
    let opened := { state with placed := state.placed.take since }
    let blank? := firstBlank runCall blankCall inner blank? opened
    match exec runCall inner opened with
    | .error _ => blank?
    | .ok ((), after) =>
      let tree := Tree.node kind after.placed.reverse
      firstBlank runCall blankCall rest blank? { after with placed := tree :: state.placed.drop since }
  | call nonterminal rest, blank?, state =>
    let blank? := blankCall nonterminal blank? state
    match runCall nonterminal state with
    | .error _ => blank?
    | .ok state => firstBlank runCall blankCall rest blank? state

end Rule

/-- The same for a run of a nonterminal. -/
def Nonterminal.firstBlank : Nat → Nonterminal → Option State → State → Option State
  | 0, _, blank?, _ => blank?
  | bound + 1, nonterminal, blank?, state =>
    Rule.firstBlank (run bound) (firstBlank bound) (Grammar.ruleOf nonterminal) blank? state

/-! ### What the states of a run bear out -/

/-- What a rule finds and leaves as it is. -/
structure Frame where
  /-- The length of the source. -/
  length : Nat
  /-- Where the open node starts. -/
  origin : Nat
  /-- The openers that wait for others. -/
  outer : List Opener
  /-- The trees that others have placed in the open node. -/
  older : List Tree
  /-- The reports whose openers stand outside of the open node. -/
  earlier : Diagnostic → Prop

/-- An opener of the source waits in a row of the open node. -/
def Frame.Waits (frame : Frame) (opener : Opener) (row : List Tree) : Prop :=
  opener.span.start < frame.length ∧ opener.StandsOpen frame.origin row

theorem Frame.Waits.append {frame : Frame} {opener : Opener} {left right : List Tree} (hwaits : frame.Waits opener left)
    (hright : Tree.NoCloser right) : frame.Waits opener (left ++ right) :=
  ⟨hwaits.1, hwaits.2.append hright⟩

namespace State

/-- Nothing has been reported about the end of the source. -/
def IsFresh (state : State) : Prop := ∀ diagnostic ∈ state.reports, diagnostic.kind.isEnd = false

/-- The end of the source is reported at most once and only where nothing is left; every report is about some text, about
the end or about an opener that stands open; and an opener that is reported was the innermost one when no word was
left. -/
structure InOrder (state : State) (frame : Frame) (blank? : Option State) : Prop where
  tiled : state.Tiled frame.origin frame.length
  source : state.sourceLength = frame.length
  pending : ∀ token ∈ state.pending, token.kind.isTrivia = true
  behind : ∀ token ∈ state.behind, token.span.IsInside frame.length
  spans : ∀ diagnostic ∈ state.reports, diagnostic.kind ≠ .unexpectedEof → diagnostic.span.IsInside frame.length
  once : (state.reports.filter (·.kind.isEnd)).length ≤ 1
  last : state.lastReport? = some frame.length ↔ ¬state.IsFresh
  finished : ¬state.IsFresh → state.ahead = []
  told : ∀ diagnostic ∈ state.reports, diagnostic.IsLocal frame.length ∨ diagnostic.IsEof frame.length ∨
    frame.earlier diagnostic ∨
      ∃ opener : Opener, diagnostic.Blames frame.length opener ∧ opener.OpenIn frame.origin state.placed.reverse
  blank : blank?.isSome = state.isBlank
  innermost : ∀ first ∈ blank?, ∀ diagnostic ∈ state.reports, diagnostic.kind.isStructural = true →
    ∃ opener ∈ first.openers.head?, diagnostic.Blames frame.length opener

end State

/-- What is on record is so. -/
structure Ledger.Holds (ledger : Ledger) (frame : Frame) (blank? : Option State) (state : State) : Prop
    extends state.InOrder frame blank? where
  kind : ∀ kind, ledger.kind? = some kind → state.IsSettled ∧ State.kindOf state.ahead = kind
  span : ∀ span, ledger.span? = some span → state.IsSettled ∧ state.spanHere = span
  ended : ledger.ended → state.ahead = []
  fresh : ledger.fresh → state.IsFresh
  marked : ∀ count, ledger.marked? = some count → state.placed.length = count
  openers : ∃ raised mine, state.openers = raised ++ mine ++ frame.outer ∧
    raised.map Opener.kind = ledger.raised?.toList ∧ mine.map Opener.kind = ledger.own ∧
    (∀ opener ∈ raised, opener.kind.closer?.isSome = true ∧ state.IsSettled ∧
      State.kindOf state.ahead = opener.kind ∧ state.spanHere = opener.span) ∧
    ∀ opener ∈ mine, frame.Waits opener state.placed.reverse
  left : ∀ opener, ledger.left? = some opener → frame.Waits opener state.placed.reverse
  waiting : ∀ first ∈ blank?, state.IsFresh → ledger.left?.toList ++ state.openers = first.openers
  grown : ∃ laid, state.placed = laid ++ frame.older ∧ (ledger.bare → Tree.NoCloser laid)

namespace State

variable {frame : Frame} {blank? : Option State} {state after : State}

/-- A token of its own kind is here once it is no trivia that is still to be passed. -/
theorem IsSettled.ahead_eq (hsettled : state.IsSettled) (hblank : state.isBlank = true) : state.ahead = [] := by
  cases hahead : state.ahead with
  | nil => rfl
  | cons token rest =>
    rw [IsSettled, hahead, kindOf] at hsettled
    rw [isBlank, hahead, List.all_cons, hsettled] at hblank
    cases hblank

theorem isBlank_passTrivia (state : State) : state.passTrivia.isBlank = state.isBlank := by
  simp only [isBlank, passTrivia]
  conv => rhs; rw [← List.takeWhile_append_dropWhile (p := (·.kind.isTrivia)) (l := state.ahead), List.all_append]
  rw [List.all_takeWhile, Bool.true_and]

theorem isSome_firstBlank (hblank : blank?.isSome = true → state.isBlank = true) :
    (state.firstBlank blank?).isSome = state.isBlank := by
  rw [firstBlank]
  cases blank? with
  | some first => exact (hblank rfl).symm
  | none => cases hstate : state.isBlank <;> rfl

theorem mem_firstBlank {first : State} (hmem : first ∈ state.firstBlank blank?) :
    first ∈ blank? ∨ blank? = none ∧ first = state := by
  rw [firstBlank] at hmem
  cases blank? with
  | some found => exact .inl hmem
  | none =>
    refine .inr ⟨rfl, ?_⟩
    rw [Option.none_or] at hmem
    split at hmem
    · exact (Option.some.inj hmem).symm
    · cases hmem

theorem InOrder.isFresh_of_ahead (horder : state.InOrder frame blank?) {token : Token} {rest : List Token}
    (hahead : state.ahead = token :: rest) : state.IsFresh :=
  Classical.not_not.mp fun hover => by
    rw [horder.finished hover] at hahead
    cases hahead

/-- One more report, at most one of which is about the end. -/
theorem InOrder.report (horder : state.InOrder frame blank?) (diagnostic : Diagnostic) (last? : Option Nat)
    (hlast : last? = some frame.length ↔ diagnostic.kind.isEnd = true ∨ ¬state.IsFresh)
    (hend : diagnostic.kind.isEnd = true → state.IsFresh ∧ state.ahead = [])
    (hspan : diagnostic.kind ≠ .unexpectedEof → diagnostic.span.IsInside frame.length)
    (htold : diagnostic.IsLocal frame.length ∨ diagnostic.IsEof frame.length ∨
      ∃ opener : Opener, diagnostic.Blames frame.length opener ∧ opener.OpenIn frame.origin state.placed.reverse)
    (hinnermost : ∀ first ∈ blank?, diagnostic.kind.isStructural = true →
      ∃ opener ∈ first.openers.head?, diagnostic.Blames frame.length opener) :
    ({ state with reports := diagnostic :: state.reports, lastReport? := last? } : State).InOrder frame blank? := by
  have hfresh : ¬({ state with reports := diagnostic :: state.reports, lastReport? := last? } : State).IsFresh ↔
      diagnostic.kind.isEnd = true ∨ ¬state.IsFresh := by
    rw [IsFresh, List.forall_mem_cons, Classical.not_and_iff_not_or_not, Bool.not_eq_false]
    rfl
  refine
    { horder with
      spans := List.forall_mem_cons.mpr ⟨hspan, horder.spans⟩
      once := ?_
      last := hlast.trans hfresh.symm
      finished := fun hover => (hfresh.mp hover).elim (fun hkind => (hend hkind).2) horder.finished
      told := List.forall_mem_cons.mpr ⟨htold.imp_right (Or.imp_right .inr), horder.told⟩
      innermost := fun first hfirst =>
        List.forall_mem_cons.mpr ⟨hinnermost first hfirst, horder.innermost first hfirst⟩ }
  cases hkind : diagnostic.kind.isEnd with
  | false =>
    rw [List.filter_cons_of_neg (by simp [hkind])]
    exact horder.once
  | true =>
    have hnone : state.reports.filter (·.kind.isEnd) = [] :=
      List.filter_eq_nil_iff.mpr fun other hmem => by simp [(hend hkind).1 other hmem]
    rw [List.filter_cons_of_pos (by simpa using hkind), hnone]
    exact Nat.le_refl 1

/-- What has been found stays found, and a state with words ahead adds nothing. -/
theorem InOrder.firstBlank_eq (horder : state.InOrder frame blank?) : state.firstBlank blank? = blank? := by
  rw [firstBlank, ← horder.blank]
  cases blank? <;> rfl

end State

/-! ### Steps -/

namespace Ledger

variable {ledger : Ledger} {frame : Frame} {blank? : Option State} {state after : State}

/-- What is placed behind an opener and is no closer leaves it open. -/
theorem Holds.placed (hholds : ledger.Holds frame blank? state) {more : List Tree} (hmore : Tree.NoCloser more) :
    (∀ diagnostic ∈ state.reports, diagnostic.IsLocal frame.length ∨ diagnostic.IsEof frame.length ∨
      frame.earlier diagnostic ∨ ∃ opener : Opener, diagnostic.Blames frame.length opener ∧
        opener.OpenIn frame.origin (more ++ state.placed).reverse) ∧
    (∀ opener, ledger.left? = some opener → frame.Waits opener (more ++ state.placed).reverse) ∧
    ∃ laid, more ++ state.placed = laid ++ frame.older ∧ (ledger.bare → Tree.NoCloser laid) := by
  rw [List.reverse_append]
  refine ⟨fun diagnostic hmem => ?_, fun opener hleft => (hholds.left opener hleft).append hmore.reverse, ?_⟩
  · refine (hholds.told diagnostic hmem).imp_right (Or.imp_right (Or.imp_right ?_))
    exact fun ⟨opener, hblames, hopen⟩ => ⟨opener, hblames, hopen.append hmore.reverse⟩
  · obtain ⟨laid, hlaid, hbare⟩ := hholds.grown
    exact ⟨more ++ laid, by rw [hlaid, List.append_assoc], fun hledger => hmore.append (hbare hledger)⟩

theorem Holds.passTrivia (hholds : ledger.Holds frame blank? state) : ledger.Holds frame blank? state.passTrivia := by
  by_cases hsettled : state.IsSettled
  · rwa [State.passTrivia_of_isSettled hsettled]
  · have htrivia : ∀ token ∈ state.ahead.takeWhile (·.kind.isTrivia), token.kind.isTrivia = true :=
      List.all_eq_true.mp List.all_takeWhile
    have hinside : ∀ token ∈ state.ahead, token.span.IsInside frame.length := fun token hmem =>
      (hholds.tiled.bounds.2 token hmem).2
    obtain ⟨raised, mine, hopeners, hraised, hmine, hhere, hstand⟩ := hholds.openers
    refine ⟨⟨hholds.tiled.passTrivia, hholds.source, ?_, ?_, hholds.spans, hholds.once, hholds.last, fun hend => ?_,
      hholds.told, ?_, hholds.innermost⟩, fun kind hkind => absurd (hholds.kind kind hkind).1 hsettled,
      fun span hspan => absurd (hholds.span span hspan).1 hsettled, fun hended => ?_, hholds.fresh, hholds.marked,
      ⟨raised, mine, hopeners, hraised, hmine, fun opener hmem => absurd (hhere opener hmem).2.1 hsettled, hstand⟩,
      hholds.left, hholds.waiting, hholds.grown⟩
    · intro token hmem
      obtain hpassed | hwaits := List.mem_append.mp hmem
      · exact htrivia token (List.mem_reverse.mp hpassed)
      · exact hholds.pending token hwaits
    · intro token hmem
      obtain hpassed | hbehind := List.mem_append.mp hmem
      · exact hinside token ((List.takeWhile_prefix _).subset (List.mem_reverse.mp hpassed))
      · exact hholds.behind token hbehind
    · rw [State.passTrivia, hholds.finished hend]
      rfl
    · rw [State.isBlank_passTrivia, hholds.blank]
    · rw [State.passTrivia, hholds.ended hended]
      rfl

theorem Holds.placePending (hholds : ledger.Holds frame blank? state) :
    ({ ledger with marked? := none } : Ledger).Holds frame blank? state.placePending := by
  have hpending := Tree.noCloser_of_trivia hholds.pending
  obtain ⟨htold, hleft, hgrown⟩ := hholds.placed hpending
  obtain ⟨raised, mine, hopeners, hraised, hmine, hhere, hstand⟩ := hholds.openers
  refine ⟨⟨hholds.tiled.placePending, hholds.source, nofun, hholds.behind, hholds.spans, hholds.once, hholds.last,
    hholds.finished, htold, hholds.blank, hholds.innermost⟩, hholds.kind, hholds.span, hholds.ended, hholds.fresh, nofun,
    ⟨raised, mine, hopeners, hraised, hmine, hhere, fun opener hmem => ?_⟩, hleft, hholds.waiting, hgrown⟩
  rw [State.placePending, List.reverse_append]
  exact (hstand opener hmem).append hpending.reverse

theorem Holds.spendLook (hholds : ledger.Holds frame blank? state) (hlook : state.spendLook = .ok after) :
    ledger.Holds frame blank? after := by
  rw [State.eq_of_spendLook hlook]
  exact ⟨{ hholds.toInOrder with }, hholds.kind, hholds.span, hholds.ended, hholds.fresh, hholds.marked, hholds.openers,
    hholds.left, hholds.waiting, hholds.grown⟩

/-- A token that is known to be here has a span of some text. -/
theorem Holds.spanHere_isInside (hholds : ledger.Holds frame blank? state) {kind : Kind} (hkind : ledger.kind? = some kind)
    (hword : kind ≠ .error) : state.spanHere.IsInside frame.length := by
  obtain ⟨-, hhere⟩ := hholds.kind kind hkind
  cases hahead : state.ahead with
  | nil =>
    rw [hahead] at hhere
    exact absurd hhere.symm hword
  | cons token rest =>
    rw [State.spanHere, hahead]
    exact (hholds.tiled.start_eq hahead).2

theorem Holds.atEnd (hholds : ledger.Holds frame blank? state) :
    Step.atEnd.Answers frame.length frame.older.length ledger state.atEnd ∧
      (Step.atEnd.record ledger state.atEnd).Holds frame blank? state := by
  cases hahead : state.ahead with
  | nil =>
    have hend : state.atEnd = true := by rw [State.atEnd, hahead]; rfl
    rw [hend]
    refine ⟨⟨fun span hspan => ?_, fun kind hkind hword => ?_⟩, { hholds with ended := fun _ => hahead }⟩
    · rw [if_pos rfl, ← (hholds.span span hspan).2, State.spanHere, hahead, hholds.source]
    · have hhere := (hholds.kind kind hkind).2
      rw [hahead] at hhere
      exact absurd hhere.symm hword
  | cons token rest =>
    have hend : state.atEnd = false := by rw [State.atEnd, hahead]; rfl
    rw [hend]
    refine ⟨⟨fun span hspan => ?_, fun _ _ _ => rfl⟩, ?_⟩
    · rw [if_neg Bool.false_ne_true, ← (hholds.span span hspan).2, State.spanHere, hahead]
      exact (hholds.tiled.start_eq hahead).2
    · have hfresh := hholds.isFresh_of_ahead hahead
      cases hkind : ledger.kind? with
      | none => exact { hholds with fresh := fun _ => hfresh, left := by simpa [Step.record, hkind] using hholds.left,
                                    waiting := by simpa [Step.record, hkind] using hholds.waiting }
      | some kind =>
        -- a word is here, so that an opener that has been given up need not be reported
        refine { hholds with fresh := fun _ => hfresh, left := by simp [Step.record, hkind], waiting := ?_ }
        intro first hfirst
        have hblank := hholds.blank
        rw [hfirst] at hblank
        rw [(hholds.kind kind hkind).1.ahead_eq hblank.symm] at hahead
        cases hahead

/-- The token here has become the last one placed. An opener that was remembered waits from now on. -/
theorem Holds.advance (hholds : ledger.Holds frame blank? state) (hadvance : state.advance = .ok after)
    (hpermitted : Step.advance.Permitted frame.length ledger) :
    (Step.advance.record ledger ()).Holds frame (after.firstBlank blank?) after := by
  obtain ⟨htiled, -⟩ := hholds.tiled.advance hadvance
  obtain ⟨token, rest, left?, exceeded?, hahead, -, rfl⟩ := State.advance_ok hadvance
  obtain ⟨hstart, hinside⟩ := hholds.tiled.start_eq hahead
  have hfresh := hholds.isFresh_of_ahead hahead
  have hpending := hholds.placePending
  obtain ⟨raised, mine, hopeners, hraised, hmine, hhere, hstand⟩ := hpending.openers
  have hhead (kind : Kind) (hkind : ledger.kind? = some kind) : token.kind = kind := by
    have hknown := (hholds.kind kind hkind).2
    rwa [hahead] at hknown
  have hother (hknown : ∃ kind, ledger.kind? = some kind ∧ kind.isCloser = false) :
      Tree.NoCloser [State.leafOf token] := by
    obtain ⟨kind, hkind, hcloser⟩ := hknown
    intro leaf hmem
    obtain rfl : leaf = ⟨token.kind, token.text⟩ := Tree.token.inj (List.mem_singleton.mp hmem)
    exact hhead kind hkind ▸ hcloser
  have hreverse : (State.leafOf token :: (state.pending.map State.leafOf ++ state.placed)).reverse =
      state.placePending.placed.reverse ++ [State.leafOf token] := List.reverse_cons
  -- once no word was left, only trivia is passed
  have htrivia : blank?.isSome = true → rest.all (·.kind.isTrivia) = true ∧ ledger.left? = none := by
    intro hblank
    rw [hholds.blank, State.isBlank, hahead, List.all_cons, Bool.and_eq_true] at hblank
    refine ⟨hblank.2, hpermitted.1.resolve_right fun hknown => ?_⟩
    obtain ⟨kind, hkind⟩ := Option.isSome_iff_exists.mp hknown
    have hsettled := (hholds.kind kind hkind).1
    rw [State.IsSettled, hahead, State.kindOf, hblank.1] at hsettled
    cases hsettled
  refine
    { tiled := htiled
      source := hholds.source
      pending := fun _ hnone => by cases hnone
      behind := List.forall_mem_cons.mpr ⟨hinside, hholds.behind⟩
      spans := hholds.spans
      once := hholds.once
      last := hholds.last
      finished := fun hover => absurd hfresh hover
      told := fun diagnostic hmem => ?_
      blank := State.isSome_firstBlank fun hblank => (htrivia hblank).1
      innermost := fun first _ diagnostic hmem hkind => ?_
      kind := fun _ hnone => by cases hnone
      span := fun _ hnone => by cases hnone
      ended := False.elim
      fresh := fun _ => hfresh
      marked := fun _ hnone => by cases hnone
      openers := ⟨[], raised ++ mine, hopeners, rfl, ?_, List.forall_mem_nil _, fun opener hmem => ?_⟩
      left := fun _ hnone => by cases hnone
      waiting := fun first hfirst _ => ?_
      grown := ?_ }
  · refine (hholds.told diagnostic hmem).imp_right (Or.imp_right (Or.imp_right ?_))
    rintro ⟨opener, hblames, -⟩
    have hend := hfresh diagnostic hmem
    rw [hblames.isEnd] at hend
    cases hend
  · have hend := hfresh diagnostic hmem
    rw [DiagnosticKind.isEnd, hkind] at hend
    cases hend
  · rw [List.map_append, hraised, hmine]
    rfl
  · show frame.Waits opener (State.leafOf token :: (state.pending.map State.leafOf ++ state.placed)).reverse
    rw [hreverse]
    obtain hmem | hmem := List.mem_append.mp hmem
    · obtain ⟨hcloser, -, hkind, hspan⟩ := hhere opener hmem
      have hhere : opener.span = token.span := by
        rw [← hspan, State.spanHere, show state.placePending.ahead = token :: rest from hahead]
      refine ⟨?_, _, ⟨token.kind, token.text⟩, [], rfl, ?_, hcloser, ?_, Tree.noCloser_nil⟩
      · rw [hhere]
        exact Nat.lt_of_lt_of_le hinside.1 hinside.2
      · rwa [show state.placePending.ahead = token :: rest from hahead] at hkind
      · have hwidth : frame.origin + Tree.widthOf state.placePending.placed.reverse = token.start := by
          rw [Tree.widthOf_reverse, State.placePending, Tree.widthOf_append, ← hstart]
          omega
        rw [hwidth, hhere]
        rfl
    · refine (hstand opener hmem).append (hother (hpermitted.2.resolve_left fun hnone => ?_))
      rw [List.map_eq_nil_iff.mp (hmine.trans hnone.1)] at hmem
      cases hmem
  · obtain hfound | ⟨-, rfl⟩ := State.mem_firstBlank hfirst
    · rw [← hholds.waiting first hfound hfresh, (htrivia (by rw [hfound]; rfl)).2]
      rfl
    · rfl
  · obtain ⟨laid, hlaid, hbare⟩ := hpending.grown
    refine ⟨State.leafOf token :: laid, congrArg (State.leafOf token :: ·) hlaid, fun hknown => ?_⟩
    exact (hother hknown.2).append (hbare hknown.1)

theorem Holds.report (hholds : ledger.Holds frame blank? state) {diagnostic : Diagnostic}
    (hlocal : diagnostic.IsLocal frame.length) :
    ledger.Holds frame blank? { state with reports := diagnostic :: state.reports } := by
  have horder := hholds.toInOrder.report diagnostic state.lastReport?
    (hholds.last.trans (by simp [hlocal.1])) (by simp [hlocal.1]) (fun _ => hlocal.2) (.inl hlocal)
    fun _ _ hkind => absurd hkind hlocal.not_structural
  exact
    { hholds with
      toInOrder := horder
      fresh := fun hfresh => List.forall_mem_cons.mpr ⟨hlocal.1, hholds.fresh hfresh⟩
      waiting := fun first hfirst hfresh => hholds.waiting first hfirst (List.forall_mem_cons.mp hfresh).2 }

theorem Holds.reportOnce (hholds : ledger.Holds frame blank? state) {offset : Nat} {diagnostic : Diagnostic}
    (hpermitted : (Step.reportOnce offset diagnostic).Permitted frame.length ledger) :
    ((Step.reportOnce offset diagnostic).record ledger ()).Holds frame blank? (state.reportOnce offset diagnostic) := by
  rw [State.reportOnce]
  obtain ⟨hledger, hlocal, rfl⟩ | ⟨hended, rfl, habout⟩ := hpermitted
  · have hrecord : (Step.reportOnce diagnostic.span.start diagnostic).record ledger () = ledger := by
      simp [Step.record, hlocal.1]
    rw [hrecord]
    split
    · exact hholds
    · have hlast : some diagnostic.span.start = some frame.length ↔ diagnostic.kind.isEnd = true ∨ ¬state.IsFresh := by
        have hinside : diagnostic.span.start < frame.length := Nat.lt_of_lt_of_le hlocal.2.1 hlocal.2.2
        simp [hlocal.1, hholds.fresh hledger, Nat.ne_of_lt hinside]
      have horder := hholds.toInOrder.report diagnostic _ hlast (by simp [hlocal.1]) (fun _ => hlocal.2) (.inl hlocal)
        fun _ _ hkind => absurd hkind hlocal.not_structural
      exact
        { hholds with
          toInOrder := horder
          fresh := fun hfresh => List.forall_mem_cons.mpr ⟨hlocal.1, hholds.fresh hfresh⟩
          waiting := fun first hfirst hfresh => hholds.waiting first hfirst (List.forall_mem_cons.mp hfresh).2 }
  · have hend : diagnostic.kind.isEnd = true := by
      obtain heof | ⟨opener, -, hblames⟩ := habout
      · rw [heof.1]
        rfl
      · exact hblames.isEnd
    have hrecord : (Step.reportOnce frame.length diagnostic).record ledger ()
        = { ledger with fresh := False, left? := none } := by
      simp [Step.record, hend]
    rw [hrecord]
    split
    · next hlast =>
      have hover := hholds.last.mp hlast
      exact
        { hholds with
          fresh := False.elim
          left := fun _ hnone => by cases hnone
          waiting := fun _ _ hfresh => absurd hfresh hover }
    · next hlast =>
      have hfresh : state.IsFresh := Classical.not_not.mp fun hover => hlast (hholds.last.mpr hover)
      have horder := hholds.toInOrder.report diagnostic (some frame.length) (by simp [hend])
        (fun _ => ⟨hfresh, hholds.ended hended⟩)
        (fun hkind => by
          obtain ⟨opener, hleft, hblames⟩ := habout.resolve_left fun heof => hkind heof.1
          rw [hblames.2.1]
          exact ⟨(hholds.left opener hleft).1, Nat.le_refl _⟩)
        (.inr (habout.imp_right fun hblamed => by
          obtain ⟨opener, hleft, hblames⟩ := hblamed
          exact ⟨opener, hblames, .inl (hholds.left opener hleft).2⟩))
        fun first hfirst hkind => by
          obtain heof | ⟨opener, hleft, hblames⟩ := habout
          · rw [heof.1] at hkind
            cases hkind
          · refine ⟨opener, ?_, hblames⟩
            rw [← hholds.waiting first hfirst hfresh, hleft]
            rfl
      exact
        { hholds with
          toInOrder := horder
          fresh := False.elim
          left := fun _ hnone => by cases hnone
          waiting := fun first _ hstill => by
            have hnone := (List.forall_mem_cons.mp hstill).1
            rw [hend] at hnone
            cases hnone }

theorem Holds.pushOpener (hholds : ledger.Holds frame blank? state) {opener : Opener}
    (hpermitted : (Step.pushOpener opener).Permitted frame.length ledger) :
    ((Step.pushOpener opener).record ledger ()).Holds frame blank?
      { state with openers := opener :: state.openers } := by
  obtain ⟨hraised, hkind, hspan, hcloser⟩ := hpermitted
  obtain ⟨hsettled, hhere⟩ := hholds.kind _ hkind
  obtain ⟨raised, mine, hopeners, hnone, hmine, -, hstand⟩ := hholds.openers
  obtain rfl : raised = [] := by
    rw [hraised] at hnone
    exact List.map_eq_nil_iff.mp hnone
  have hblank : state.isBlank = false := Bool.eq_false_iff.mpr fun hblank => by
    rw [hsettled.ahead_eq hblank, State.kindOf] at hhere
    rw [← hhere] at hcloser
    cases hcloser
  refine
    { hholds with
      toInOrder := { hholds.toInOrder with }
      openers := ⟨[opener], mine, congrArg (opener :: ·) hopeners, rfl, hmine, ?_, hstand⟩
      waiting := fun first hfirst => by
        have hfound := hholds.blank
        rw [hfirst, hblank] at hfound
        cases hfound }
  rintro other hmem
  obtain rfl := List.mem_singleton.mp hmem
  exact ⟨hcloser, hsettled, hhere, (hholds.span _ hspan).2⟩

theorem Holds.popOpener (hholds : ledger.Holds frame blank? state) (hpermitted : Step.popOpener.Permitted frame.length ledger) :
    Step.popOpener.Answers frame.length frame.older.length ledger state.openers.head? ∧
      (Step.popOpener.record ledger state.openers.head?).Holds frame blank?
        { state with openers := state.openers.tail } := by
  obtain ⟨hrest, hown⟩ := hpermitted
  obtain ⟨raised, mine, hopeners, hnone, hmine, -, hstand⟩ := hholds.openers
  obtain rfl : raised = [] := by
    rw [hrest.raised] at hnone
    exact List.map_eq_nil_iff.mp hnone
  cases mine with
  | nil => exact absurd hmine.symm hown
  | cons opener mine =>
    have hhead : state.openers.head? = some opener := by
      rw [hopeners]
      rfl
    rw [hhead]
    refine ⟨⟨opener, rfl, by rw [← hmine]; rfl⟩, { hholds with
      toInOrder := { hholds.toInOrder with }
      openers := ⟨[], mine, by rw [hopeners]; rfl, hnone, congrArg List.tail hmine, nofun, ?_⟩
      left := ?_
      waiting := ?_ }⟩
    · exact (List.forall_mem_cons.mp hstand).2
    · rintro other hother
      obtain rfl := Option.some.inj hother
      exact (List.forall_mem_cons.mp hstand).1
    · intro first hfirst hfresh
      rw [← hholds.waiting first hfirst hfresh, hrest.left, hopeners]
      rfl

end Ledger

/-- A step answers in agreement with what is on record, and bears out what it records. -/
theorem Step.records_of_run {α : Type} (step : Step α) {ledger : Ledger} {frame : Frame} {blank? : Option State}
    {state after : State} {answer : α} (hpermitted : step.Permitted frame.length ledger)
    (hholds : ledger.Holds frame blank? state) (hrun : step.run state = .ok (answer, after)) :
    step.Answers frame.length frame.older.length ledger answer ∧
      (step.record ledger answer).Holds frame (after.firstBlank blank?) after := by
  have hpassed := hholds.passTrivia
  -- only an advance finds a new state without words
  have hsame {learned : Ledger} (hlearned : learned.Holds frame blank? after) :
      learned.Holds frame (after.firstBlank blank?) after := by
    rwa [hlearned.firstBlank_eq]
  cases step <;> simp only [Step.run, bind, Except.bind, pure, Except.pure, Except.ok.injEq, Prod.mk.injEq] at hrun
  case current =>
    split at hrun
    · cases hrun
    · next looked hlook =>
      obtain ⟨rfl, rfl⟩ := Prod.mk.inj (Except.ok.inj hrun)
      have hlooked := hpassed.spendLook hlook
      have hsettled : looked.IsSettled := by
        rw [State.eq_of_spendLook hlook]
        exact state.isSettled_passTrivia
      refine ⟨fun found hfound => (hlooked.kind found hfound).2, hsame { hlooked with
        kind := fun kind hkind => ⟨hsettled, Option.some.inj hkind⟩
        fresh := ?_ }⟩
      rintro (hfresh | hword)
      · exact hlooked.fresh hfresh
      · cases hahead : looked.ahead with
        | nil =>
          rw [hahead] at hword
          exact absurd rfl hword
        | cons token rest => exact hlooked.isFresh_of_ahead hahead
  case adjacent =>
    split at hrun
    · cases hrun
    · next looked hlook =>
      obtain ⟨-, rfl⟩ := Prod.mk.inj (Except.ok.inj hrun)
      exact ⟨trivial, hsame (hpassed.spendLook hlook)⟩
  case next | afterLineBreak | numberFollows =>
    obtain ⟨-, rfl⟩ := hrun
    exact ⟨trivial, hsame hpassed⟩
  case currentSpan =>
    obtain ⟨rfl, rfl⟩ := hrun
    refine ⟨⟨fun hended => ?_, fun kind hkind hword => ?_⟩, hsame { hpassed with
      span := fun span hspan => ⟨state.isSettled_passTrivia, Option.some.inj hspan⟩ }⟩
    · rw [State.spanHere, hpassed.ended hended, hpassed.source]
    · exact hpassed.spanHere_isInside hkind hword
  case previous =>
    obtain ⟨rfl, rfl⟩ := hrun
    exact ⟨fun token hmem => hholds.behind token (List.mem_of_find?_eq_some hmem), hsame hholds⟩
  case atEnd =>
    obtain ⟨rfl, rfl⟩ := hrun
    obtain ⟨hanswers, hlooked⟩ := hholds.atEnd
    exact ⟨hanswers, hsame hlooked⟩
  case stopped =>
    obtain ⟨-, rfl⟩ := hrun
    exact ⟨trivial, hsame hholds⟩
  case advance =>
    split at hrun
    · cases hrun
    · next advanced hadvance =>
      obtain ⟨-, rfl⟩ := Prod.mk.inj (Except.ok.inj hrun)
      exact ⟨trivial, hholds.advance hadvance hpermitted⟩
  case mark =>
    obtain ⟨rfl, rfl⟩ := hrun
    have hplaced := hholds.placePending
    refine ⟨?_, hsame { hplaced with marked := fun count hcount => Option.some.inj hcount }⟩
    obtain ⟨laid, hlaid, -⟩ := hplaced.grown
    rw [Step.Answers, hlaid, List.length_append]
    exact Nat.le_add_left _ _
  case placeTrivia =>
    obtain ⟨-, rfl⟩ := hrun
    exact ⟨trivial, hsame hpassed.placePending⟩
  case pushOpener opener =>
    obtain ⟨-, rfl⟩ := hrun
    exact ⟨trivial, hsame (hholds.pushOpener hpermitted)⟩
  case popOpener =>
    obtain ⟨rfl, rfl⟩ := hrun
    obtain ⟨hanswers, hpopped⟩ := hholds.popOpener hpermitted
    exact ⟨hanswers, hsame hpopped⟩
  case report diagnostic =>
    obtain ⟨-, rfl⟩ := hrun
    exact ⟨trivial, hsame (hholds.report hpermitted)⟩
  case reportOnce offset diagnostic =>
    obtain ⟨-, rfl⟩ := hrun
    exact ⟨trivial, hsame (hholds.reportOnce hpermitted)⟩
  case descend =>
    rw [State.descend] at hrun
    split at hrun
    · obtain ⟨-, rfl⟩ := Prod.mk.inj hrun
      exact ⟨trivial, hsame { hholds with toInOrder := { hholds.toInOrder with } }⟩
    · obtain ⟨-, rfl⟩ := Prod.mk.inj hrun
      exact ⟨trivial, hsame { hholds with toInOrder := { hholds.toInOrder with } }⟩
  case ascend =>
    obtain ⟨-, rfl⟩ := hrun
    exact ⟨trivial, hsame { hholds with toInOrder := { hholds.toInOrder with } }⟩

/-! ### Nodes and calls -/

namespace Frame

/-- The frame of the rule inside a node that is opened around the trees placed since a mark. -/
def inside (frame : Frame) (state : State) (since : Nat) : Frame where
  length := frame.length
  origin := frame.origin + Tree.widthOf (state.placed.drop since)
  outer := state.openers
  older := []
  earlier diagnostic := frame.earlier diagnostic ∨ ∃ opener : Opener, diagnostic.Blames frame.length opener ∧
    opener.OpenIn frame.origin (state.placed.drop since).reverse

/-- The frame of a nonterminal that is called here. -/
def beneath (frame : Frame) (state : State) : Frame :=
  { frame with outer := state.openers, older := state.placed }

end Frame

namespace Ledger

variable {ledger learned : Ledger} {frame : Frame} {blank? found? : Option State} {state after : State}

theorem Holds.openers_of_atRest (hholds : ledger.Holds frame blank? state) (hrest : ledger.AtRest) :
    ∃ mine, state.openers = mine ++ frame.outer ∧ mine.map Opener.kind = ledger.own ∧
      ∀ opener ∈ mine, frame.Waits opener state.placed.reverse := by
  obtain ⟨raised, mine, hopeners, hnone, hmine, -, hstand⟩ := hholds.openers
  rw [hrest.raised] at hnone
  rw [List.map_eq_nil_iff.mp hnone] at hopeners
  exact ⟨mine, hopeners, hmine, hstand⟩

/-- A rule that has closed all that it opened leaves the openers as they were. -/
theorem Holds.openers_eq (hholds : ledger.Holds frame blank? state) (hrest : ledger.AtRest) (hown : ledger.own = []) :
    state.openers = frame.outer := by
  obtain ⟨mine, hopeners, hmine, -⟩ := hholds.openers_of_atRest hrest
  rw [hown] at hmine
  rw [hopeners, List.map_eq_nil_iff.mp hmine, List.nil_append]

theorem Holds.opened (hholds : ledger.Holds frame blank? state) (hrest : ledger.AtRest) (since : Nat) :
    ledger.inside.Holds (frame.inside state since) blank? { state with placed := state.placed.take since } where
  tiled := hholds.tiled.opened since
  source := hholds.source
  pending := hholds.pending
  behind := hholds.behind
  spans := hholds.spans
  once := hholds.once
  last := hholds.last
  finished := hholds.finished
  told diagnostic hmem := by
    obtain hlocal | heof | hearlier | ⟨opener, hblames, hopen⟩ := hholds.told diagnostic hmem
    · exact .inl hlocal
    · exact .inr (.inl heof)
    · exact .inr (.inr (.inl (.inl hearlier)))
    · rw [← List.take_append_drop since state.placed, List.reverse_append] at hopen
      obtain hopen | hopen := hopen.of_append
      · exact .inr (.inr (.inl (.inr ⟨opener, hblames, hopen⟩)))
      · rw [Tree.widthOf_reverse] at hopen
        exact .inr (.inr (.inr ⟨opener, hblames, hopen⟩))
  blank := hholds.blank
  innermost := hholds.innermost
  kind := hholds.kind
  span := hholds.span
  ended := hholds.ended
  fresh := hholds.fresh
  marked := nofun
  openers := ⟨[], [], rfl, by rw [Ledger.inside, hrest.raised]; rfl, rfl, nofun, nofun⟩
  left opener hleft := by
    rw [Ledger.inside, hrest.left] at hleft
    cases hleft
  waiting := hholds.waiting
  grown := ⟨state.placed.take since, (List.append_nil _).symm, False.elim⟩

/-- A node that is closed takes no opener that waits. -/
theorem Holds.closed {start : Nat} (hholds : ledger.Holds frame blank? state) (hrest : ledger.AtRest)
    (htakes : ledger.marked? = some start ∨ ledger.own = [] ∧ frame.older.length ≤ start)
    (hclosed : learned.Holds (frame.inside state (state.placed.length - start)) found? after) (hlearned : learned.AtRest)
    (hown : learned.own = []) (kind : Kind) :
    (ledger.outside learned).Holds frame found? { after with
      placed := .node kind after.placed.reverse :: state.placed.drop (state.placed.length - start) } := by
  obtain ⟨mine, hopeners, hmine, hstand⟩ := hholds.openers_of_atRest hrest
  obtain ⟨laid, hlaid, hbare⟩ := hholds.grown
  generalize hsince : state.placed.length - start = since at hclosed ⊢
  have hreverse : (Tree.node kind after.placed.reverse :: state.placed.drop since).reverse =
      (state.placed.drop since).reverse ++ [Tree.node kind after.placed.reverse] := List.reverse_cons
  have hdropped : state.placed.drop since = laid.drop since ++ frame.older ∧ (since = 0 ∨ ledger.own = []) := by
    obtain hmarked | ⟨hnone, hbase⟩ := htakes
    · obtain rfl : since = 0 := by rw [← hsince, hholds.marked start hmarked, Nat.sub_self]
      exact ⟨hlaid, .inl rfl⟩
    · rw [hlaid, List.length_append] at hsince
      exact ⟨by rw [hlaid, List.drop_append_of_le_length (by omega)], .inr hnone⟩
  refine
    { tiled := hclosed.tiled.wrap
      source := hclosed.source
      pending := hclosed.pending
      behind := hclosed.behind
      spans := hclosed.spans
      once := hclosed.once
      last := hclosed.last
      finished := hclosed.finished
      told := fun diagnostic hmem => ?_
      blank := hclosed.blank
      innermost := hclosed.innermost
      kind := hclosed.kind
      span := hclosed.span
      ended := hclosed.ended
      fresh := hclosed.fresh
      marked := nofun
      openers := ⟨[], mine, ?_, ?_, hmine, nofun, fun opener hmem => ?_⟩
      left := fun opener hleft => ?_
      waiting := hclosed.waiting
      grown := ⟨.node kind after.placed.reverse :: laid.drop since, congrArg (_ :: ·) hdropped.1, fun hledger => ?_⟩ }
  · obtain hlocal | heof | (hearlier | ⟨opener, hblames, hopen⟩) | ⟨opener, hblames, hopen⟩ :=
      hclosed.told diagnostic hmem
    · exact .inl hlocal
    · exact .inr (.inl heof)
    · exact .inr (.inr (.inl hearlier))
    · refine .inr (.inr (.inr ⟨opener, hblames, ?_⟩))
      exact hreverse ▸ hopen.append (Tree.noCloser_node kind _)
    · refine .inr (.inr (.inr ⟨opener, hblames, ?_⟩))
      refine hreverse ▸ Opener.OpenIn.wrap ?_
      rwa [Tree.widthOf_reverse]
  · exact (hclosed.openers_eq hlearned hown).trans hopeners
  · rw [Ledger.outside, hlearned.raised]
    rfl
  · obtain rfl | hnone := hdropped.2
    · exact hreverse ▸ (hstand opener hmem).append (Tree.noCloser_node kind _)
    · rw [List.map_eq_nil_iff.mp (hmine.trans hnone)] at hmem
      cases hmem
  · rw [Ledger.outside, hlearned.left] at hleft
    cases hleft
  · exact ((hbare hledger).subset (List.drop_subset _ _)).cons_node kind _

theorem Holds.called (hholds : ledger.Holds frame blank? state) (hrest : ledger.AtRest) :
    ({ ledger with own := [], bare := True } : Ledger).Holds (frame.beneath state) blank? state :=
  { hholds with
    toInOrder := { hholds.toInOrder with }
    openers := ⟨[], [], rfl, by rw [hrest.raised]; rfl, rfl, nofun, nofun⟩
    grown := ⟨[], rfl, fun _ => Tree.noCloser_nil⟩ }

/-- What a nonterminal has on record when it ends tells its caller little about the place that it has come to. -/
theorem Holds.elsewhere (hholds : ledger.Holds frame blank? state) (hrest : ledger.AtRest) {caller : Ledger}
    (hown : caller.own = ledger.own) (nonterminal : Nonterminal)
    (hbare : nonterminal.isBare = true → caller.bare → ledger.bare) :
    (caller.beyond nonterminal).Holds frame blank? state := by
  obtain ⟨mine, hopeners, hmine, hstand⟩ := hholds.openers_of_atRest hrest
  obtain ⟨laid, hlaid, hnoCloser⟩ := hholds.grown
  refine
    { hholds with
      kind := nofun
      span := nofun
      ended := False.elim
      fresh := False.elim
      marked := nofun
      openers := ⟨[], mine, hopeners, rfl, hmine.trans hown.symm, nofun, hstand⟩
      left := nofun
      waiting := fun first hfirst hfresh => ?_
      grown := ⟨laid, hlaid, fun hcaller => hnoCloser (hbare hcaller.2 hcaller.1)⟩ }
  rw [← hholds.waiting first hfirst hfresh, hrest.left]
  rfl

/-- The openers of a caller still wait where the nonterminal has placed no closer. -/
theorem Holds.returned (hholds : ledger.Holds frame blank? state) (hrest : ledger.AtRest)
    (hreturned : learned.Holds (frame.beneath state) found? after) (hlearned : learned.AtRest) (hown : learned.own = [])
    (nonterminal : Nonterminal) (hbare : nonterminal.isBare = true → learned.bare)
    (hasks : nonterminal.isBare = false → ledger.own = []) :
    (ledger.beyond nonterminal).Holds frame found? after := by
  obtain ⟨mine, hopeners, hmine, hstand⟩ := hholds.openers_of_atRest hrest
  obtain ⟨laid, hlaid, hnoCloser⟩ := hholds.grown
  obtain ⟨more, hmore, hmoreBare⟩ := hreturned.grown
  have hplaced : after.placed = more ++ state.placed := hmore
  refine
    { hreturned with
      toInOrder := { hreturned.toInOrder with }
      kind := nofun
      span := nofun
      ended := False.elim
      fresh := False.elim
      marked := nofun
      openers := ⟨[], mine, (hreturned.openers_eq hlearned hown).trans hopeners, rfl, hmine, nofun, ?_⟩
      left := nofun
      waiting := fun first hfirst hfresh => ?_
      grown := ⟨more ++ laid, by rw [hplaced, hlaid, List.append_assoc], fun hcaller => ?_⟩ }
  · intro opener hmem
    rw [hplaced, List.reverse_append]
    cases hnonterminal : nonterminal.isBare with
    | true => exact (hstand opener hmem).append (hmoreBare (hbare hnonterminal)).reverse
    | false =>
      rw [List.map_eq_nil_iff.mp (hmine.trans (hasks hnonterminal))] at hmem
      cases hmem
  · rw [← hreturned.waiting first hfirst hfresh, hlearned.left]
    rfl
  · exact (hmoreBare (hbare hcaller.2)).append (hnoCloser hcaller.1)

end Ledger

/-! ### Runs -/

/-- A property of states that every step keeps and so does every node that is closed around what an inner rule has
placed. The node of an `if` is closed by the rule of the `if`, and takes nothing that was there before. -/
structure State.Upheld (upheld : State → Prop) : Prop where
  step : ∀ {α : Type} (s : Step α) {state after : State} {answer : α},
    s.run state = .ok (answer, after) → upheld state → upheld after
  opened : ∀ (since : Nat) {state : State}, upheld state → upheld { state with placed := state.placed.take since }
  wrap : ∀ (kind : Kind) (since : Nat) {bound : Nat} {inner : Rule Unit} {state after : State},
    (∀ token ∈ state.pending, token.kind.isTrivia = true) →
    (kind = .ifStatement → inner = Grammar.ifBody ∧ since = 0) →
    inner.exec (Nonterminal.run bound) { state with placed := state.placed.take since } = .ok ((), after) →
    upheld state → upheld after →
      upheld { after with placed := .node kind after.placed.reverse :: state.placed.drop since }

theorem State.upheld_true : State.Upheld fun _ => True where
  step _ _ _ _ _ _ := trivial
  opened _ _ _ := trivial
  wrap _ _ _ _ _ _ _ _ _ _ _ := trivial

/-- Nonterminals bear out what their callers have on record, and uphold a property. -/
def Nonterminal.Records (upheld : State → Prop) (length bound : Nat) : Prop :=
  ∀ (nonterminal : Nonterminal) (ledger : Ledger) (frame : Frame) (blank? : Option State) (state after : State),
    frame.length = length → ledger.AtRest → nonterminal.Asks length frame.older.length ledger →
      ledger.Holds frame blank? state → upheld state → nonterminal.run bound state = .ok after →
        (ledger.beyond nonterminal).Holds frame (nonterminal.firstBlank bound blank? state) after ∧ upheld after

/-- A run of an orderly rule bears out what is on record. -/
theorem Rule.Orderly.exec {α : Type} {upheld : State → Prop} {bound length : Nat} (hupheld : State.Upheld upheld)
    (hcalls : Nonterminal.Records upheld length bound) {rule : Rule α} {ledger : Ledger} {frame : Frame}
    {ended : α → Ledger → Prop} {blank? : Option State} {state after : State} {answer : α} (hlength : frame.length = length)
    (horderly : rule.Orderly length frame.older.length ledger ended) (hholds : ledger.Holds frame blank? state)
    (hstate : upheld state) (hexec : rule.exec (Nonterminal.run bound) state = .ok (answer, after)) :
    (∃ learned : Ledger,
      learned.Holds frame (rule.firstBlank (Nonterminal.run bound) (Nonterminal.firstBlank bound) blank? state) after ∧
        ended answer learned) ∧ upheld after := by
  induction rule generalizing ledger frame blank? state after with
  | done found =>
    obtain ⟨rfl, rfl⟩ := Prod.mk.inj (Except.ok.inj hexec)
    exact ⟨⟨ledger, hholds, horderly⟩, hstate⟩
  | step s rest ih =>
    obtain ⟨found, between, hrun, hexec⟩ := exec_step_ok hexec
    subst hlength
    obtain ⟨hanswers, hrecorded⟩ := s.records_of_run horderly.1 hholds hrun
    rw [firstBlank, hrun]
    exact ih found rfl (horderly.2 found hanswers) hrecorded (hupheld.step s hrun hstate) hexec
  | wrap kind start inner rest ihinner ih =>
    obtain ⟨between, hinner, hexec⟩ := exec_wrap_ok hexec
    obtain ⟨hrest, htakes, hif, hopens⟩ := horderly
    rw [firstBlank, hinner]
    obtain ⟨⟨learned, hclosed, hlearned, hown, hgoesOn⟩, hbetween⟩ :=
      ihinner (show (frame.inside state _).length = length from hlength) hopens (hholds.opened hrest _)
        (hupheld.opened _ hstate) hinner
    have hnothing (hkind : kind = .ifStatement) : inner = Grammar.ifBody ∧ state.placed.length - start = 0 := by
      obtain ⟨hbody, hmarked⟩ := hif hkind
      exact ⟨hbody, by rw [hholds.marked start hmarked, Nat.sub_self]⟩
    exact ih hlength hgoesOn (hholds.closed hrest htakes hclosed hlearned hown kind)
      (hupheld.wrap kind _ hholds.pending hnothing hinner hstate hbetween) hexec
  | call nonterminal rest ih =>
    obtain ⟨between, hcall, hexec⟩ := exec_call_ok hexec
    obtain ⟨hrest, hasks, hgoesOn⟩ := horderly
    rw [firstBlank, hcall]
    obtain ⟨hreturned, hbetween⟩ := hcalls _ _ _ _ _ _ hlength hrest hasks hholds hstate hcall
    exact ih hlength hgoesOn hreturned hbetween hexec

/-- A nonterminal that closes all that it opens. -/
def Nonterminal.IsOrderly (length : Nat) (nonterminal : Nonterminal) : Prop :=
  ∀ (base : Nat) (ledger : Ledger), ledger.AtRest → ledger.own = [] → nonterminal.Asks length base ledger →
    (Grammar.ruleOf nonterminal).Orderly length base ledger fun _ after => ledger.IsKept nonterminal.isBare after

/-- What the nonterminals ask for does not depend on what others have placed, the operators apart. -/
theorem Nonterminal.asks_beneath {nonterminal : Nonterminal} {length base : Nat} {ledger : Ledger} (other : Nat)
    (hasks : nonterminal.Asks length base ledger) :
    (∃ start power, nonterminal = .operators start power) ∨
      nonterminal.Asks length other { ledger with own := [], bare := True } := by
  cases nonterminal with
  | operators start power => exact .inl ⟨start, power, rfl⟩
  | skipUntil | skipToStatement => exact .inr rfl
  | _ => exact .inr hasks

theorem Nonterminal.own_of_asks {nonterminal : Nonterminal} {length base : Nat} {ledger : Ledger}
    (hasks : nonterminal.Asks length base ledger) (hbare : nonterminal.isBare = false) : ledger.own = [] := by
  cases nonterminal with
  | skipUntil | skipToStatement => exact hasks
  | _ => cases hbare

/-- If every nonterminal closes all that it opens, a run bears out what its caller has on record. -/
theorem Nonterminal.records_of_run {upheld : State → Prop} {length : Nat} (hupheld : State.Upheld upheld)
    (horderly : ∀ nonterminal : Nonterminal, nonterminal.IsOrderly length) (bound : Nat) :
    Nonterminal.Records upheld length bound := by
  induction bound with
  | zero =>
    intro nonterminal ledger frame blank? state after _ _ _ _ _ hrun
    cases hrun
  | succ bound ih =>
    intro nonterminal ledger frame blank? state after hlength hrest hasks hholds hstate hrun
    have hexec := Rule.exec_of_run hrun
    obtain ⟨start, power, rfl⟩ | hbeneath := Nonterminal.asks_beneath state.placed.length hasks
    · obtain ⟨hown, -⟩ := id hasks
      obtain ⟨⟨learned, hlearned, hkept⟩, hafter⟩ :=
        (horderly _ _ _ hrest hown hasks).exec hupheld ih hlength hholds hstate hexec
      exact ⟨hlearned.elsewhere hkept.rest hkept.own.symm _ hkept.bare, hafter⟩
    · obtain ⟨⟨learned, hlearned, hkept⟩, hafter⟩ :=
        (horderly nonterminal state.placed.length { ledger with own := [], bare := True } ⟨hrest.raised, hrest.left⟩ rfl
          hbeneath).exec hupheld ih (show (frame.beneath state).length = length from hlength) (hholds.called hrest)
            hstate hexec
      exact ⟨hholds.returned hrest hlearned hkept.rest hkept.own _ (fun hbare => hkept.bare hbare trivial)
        (Nonterminal.own_of_asks hasks), hafter⟩

end Squirrel
