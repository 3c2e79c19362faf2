import Squirrel.Proofs.Parse.Stance

/-!
# Neat rules place exact nodes

A neat rule is read from a view in the stance that is known. Each step keeps what is known true, and a node is opened with
nothing in it and nothing waiting: its first leaf is then the first leaf ahead, which is a word if the rule has looked.
-/

namespace Squirrel

open Squirrel.Tree

/-- The tree that has been placed last ends with a word. -/
def Capped (portion : List Tree) : Prop := ∀ tree ∈ portion.head?, tree.EndsWithWord

theorem capped_nil : Capped [] := nofun

namespace View

/-- Right behind a mark nothing waits, and the mark is the number of trees; elsewhere what has been placed is capped. -/
def StandsAt (view : View) (portion : List Tree) : Option Nat → Prop
  | none => Capped portion
  | some start => view.pending = [] ∧ view.placed.length = start

theorem Settled.of_ahead {view after : View} (hsettled : view.Settled) (hahead : after.ahead = view.ahead) :
    after.Settled := by
  refine passTrivia_eq_self fun token hmem => ?_
  obtain ⟨rest, hafter⟩ := List.head?_eq_some_iff.mp hmem
  exact hsettled.isTrivia_eq_false (hahead ▸ hafter)

end View

/-- What is known is so, and what has been placed on top of a base is exact. -/
structure Stance.Holds (known : Stance) (base portion : List Tree) (view : View) : Prop where
  placed : view.placed = portion ++ base
  row : ExactRow portion
  within : ∀ tree ∈ portion, tree.ExactWithin
  settled : known.settled → view.Settled
  joined : known.joined → view.Settled ∧ (State.kindOf view.ahead.tail).isTrivia = false
  here : ∀ kind, known.here? = some kind → view.Settled ∧ State.kindOf view.ahead = kind
  last : ∀ kind, known.last? = some kind →
    view.pending = [] ∧ ∃ leaf older, portion = token leaf :: older ∧ leaf.kind = kind

namespace Stance.Holds

variable {known : Stance} {base portion : List Tree} {view : View}

/-- Nothing is known of a new place but what has been placed there. -/
theorem anywhere (hplaced : view.placed = portion ++ base) (hrow : ExactRow portion)
    (hwithin : ∀ tree ∈ portion, tree.ExactWithin) : unknown.Holds base portion view :=
  ⟨hplaced, hrow, hwithin, nofun, nofun, nofun, nofun⟩

theorem start (view : View) : unknown.Holds view.placed [] view := anywhere rfl trivial (List.forall_mem_nil _)

/-- Nothing else of a view matters. -/
theorem of_eq (hholds : known.Holds base portion view) {after : View} (hahead : after.ahead = view.ahead)
    (hpending : after.pending = view.pending) (hplaced : after.placed = view.placed) :
    known.Holds base portion after where
  placed := hplaced.trans hholds.placed
  row := hholds.row
  within := hholds.within
  settled hsettled := (hholds.settled hsettled).of_ahead hahead
  joined hjoined := ⟨(hholds.joined hjoined).1.of_ahead hahead, hahead ▸ (hholds.joined hjoined).2⟩
  here kind hhere := ⟨(hholds.here kind hhere).1.of_ahead hahead, hahead ▸ (hholds.here kind hhere).2⟩
  last kind hlast := ⟨hpending ▸ (hholds.last kind hlast).1, (hholds.last kind hlast).2⟩

/-- All that is known after a nonterminal is whether it has looked. -/
theorem behind (hholds : known.Holds base portion view) {nonterminal : Nonterminal}
    (hlast : nonterminal.looksLast = true → view.Settled) : (Stance.behind nonterminal).Holds base portion view :=
  ⟨hholds.placed, hholds.row, hholds.within, hlast, nofun, nofun, nofun⟩

theorem looked (hholds : known.Holds base portion view) : known.looked.Holds base portion view.passTrivia where
  placed := hholds.placed
  row := hholds.row
  within := hholds.within
  settled _ := view.settled_passTrivia
  joined hjoined := by
    obtain ⟨hsettled, htail⟩ := hholds.joined hjoined
    rw [hsettled]
    exact ⟨hsettled, htail⟩
  here kind hhere := by
    obtain ⟨hsettled, hkind⟩ := hholds.here kind hhere
    rw [hsettled]
    exact ⟨hsettled, hkind⟩
  last := nofun

/-- Inside a node that is opened here nothing has been placed yet. -/
theorem inside (hholds : known.Holds base portion view) : known.inside.Holds [] [] { view with placed := [] } where
  placed := rfl
  row := trivial
  within := List.forall_mem_nil _
  settled hsettled := (hholds.settled hsettled).of_ahead rfl
  joined hjoined := ⟨(hholds.joined hjoined).1.of_ahead rfl, (hholds.joined hjoined).2⟩
  here kind hhere := ⟨(hholds.here kind hhere).1.of_ahead rfl, (hholds.here kind hhere).2⟩
  last := nofun

theorem seen (hholds : known.Holds base portion view) :
    (known.seen (State.kindOf view.passTrivia.ahead)).Holds base portion view.passTrivia :=
  { hholds.looked with here := fun _ hhere => ⟨view.settled_passTrivia, Option.some.inj hhere⟩ }

/-- A number follows its sign without anything in between. -/
theorem numberFollows (hholds : known.Holds base portion view) :
    Stance.Holds { known.looked with
      joined := known.joined ∨ view.passTrivia.ahead.tail.head?.any State.isFoldable = true } base portion
      view.passTrivia := by
  refine { hholds.looked with joined := ?_ }
  rintro (hjoined | hfollows)
  · exact hholds.looked.joined hjoined
  · refine ⟨view.settled_passTrivia, ?_⟩
    cases htail : view.passTrivia.ahead.tail with
    | nil => rfl
    | cons token rest =>
      rw [htail, List.head?_cons, Option.any_some] at hfollows
      cases htrivia : token.kind.isTrivia with
      | false => exact htrivia
      | true => rw [Word.isFoldable_eq_false htrivia] at hfollows; exact nomatch hfollows

theorem placePending (hholds : known.Holds base portion view) :
    known.Holds base (view.pending.map State.leafOf ++ portion) view.placePending where
  placed := by rw [View.placePending, hholds.placed, List.append_assoc]
  row := by
    refine ExactRow.append (exactRow_of_tokens fun tree hmem => ?_) hholds.row
    obtain ⟨token, -, rfl⟩ := List.mem_map.mp hmem
    rfl
  within := List.forall_mem_append.mpr ⟨State.throughout_map_leafOf, hholds.within⟩
  settled hsettled := View.settled_placePending (hholds.settled hsettled)
  joined hjoined := ⟨View.settled_placePending (hholds.joined hjoined).1, (hholds.joined hjoined).2⟩
  here kind hhere := ⟨View.settled_placePending (hholds.here kind hhere).1, (hholds.here kind hhere).2⟩
  last kind hlast := by
    obtain ⟨hpending, hportion⟩ := hholds.last kind hlast
    exact ⟨rfl, by rwa [hpending]⟩

/-- A rule moves past a word only. -/
theorem advance (hholds : known.Holds base portion view) (hsettled : known.settled) {after : View}
    (hadvance : view.advance = some after) :
    ∃ portion', known.moved.Holds base portion' after ∧ Capped portion' := by
  have hplaced := hholds.placePending
  rw [View.advance] at hadvance
  split at hadvance
  · cases hadvance
  · next token rest hahead =>
    split at hadvance
    · cases hadvance
    · obtain rfl := Option.some.inj hadvance
      have hword := (hholds.settled hsettled).isTrivia_eq_false hahead
      refine ⟨State.leafOf token :: (view.pending.map State.leafOf ++ portion),
        ⟨?_, hplaced.row.token _, ?_, fun hjoined => ?_, False.elim, by simp [moved], fun kind hlast => ⟨rfl, ?_⟩⟩, ?_⟩
      · rw [hplaced.placed, List.cons_append]
      · exact List.forall_mem_cons.mpr ⟨throughout_token _, hplaced.within⟩
      · refine View.passTrivia_eq_self fun next hmem => ?_
        have htail := (hholds.joined hjoined).2
        obtain ⟨others, hrest⟩ := List.head?_eq_some_iff.mp hmem
        have hrest : rest = next :: others := hrest
        rwa [hahead, List.tail_cons, hrest] at htail
      · have hkind := (hholds.here kind hlast).2
        rw [hahead] at hkind
        exact ⟨_, _, rfl, hkind⟩
      · rintro tree hmem
        obtain rfl := Option.some.inj hmem
        exact endsWithWord_leafOf hword

end Stance.Holds

/-- A step keeps what is known true, and a mark is what it says. -/
theorem Step.holds_of_read {α : Type} {step : Step α} {known : Stance} {base portion : List Tree} {view after : View}
    {answer : α} (hneeds : step.Needs known) (hholds : known.Holds base portion view) (hcapped : Capped portion)
    (hread : step.read view = some (answer, after)) :
    ∃ portion', (step.reach known answer).Holds base portion' after ∧ after.StandsAt portion' (step.mark? answer) := by
  cases step <;> simp only [Step.read, Option.some.injEq, Prod.mk.injEq, reduceCtorEq] at hread
  case current =>
    obtain ⟨rfl, rfl⟩ := hread
    exact ⟨portion, hholds.seen, hcapped⟩
  case adjacent | next | currentSpan | afterLineBreak => exact hread.2 ▸ ⟨portion, hholds.looked, hcapped⟩
  case numberFollows =>
    obtain ⟨rfl, rfl⟩ := hread
    exact ⟨portion, hholds.numberFollows, hcapped⟩
  case previous | atEnd | stopped | descend => exact hread.2 ▸ ⟨portion, hholds, hcapped⟩
  case pushOpener | popOpener | ascend => exact hread.2 ▸ ⟨portion, hholds.of_eq rfl rfl rfl, hcapped⟩
  case placeTrivia => exact hneeds.elim
  case mark =>
    obtain ⟨rfl, rfl⟩ := hread
    exact ⟨_, hholds.placePending, rfl, rfl⟩
  case advance =>
    obtain ⟨found, hadvance, hfound⟩ := Option.map_eq_some_iff.mp hread
    obtain ⟨-, rfl⟩ := Prod.mk.inj hfound
    exact hholds.advance hneeds hadvance

theorem Step.read_of_isReport {α : Type} {step : Step α} (hreport : step.isReport = true) (view : View) :
    step.read view = none := by
  cases step <;> first | rfl | simp at hreport

theorem Step.isReadable_of_read {α : Type} {step : Step α} {view after : View} {answer : α}
    (hread : step.read view = some (answer, after)) : step.isReadable answer = true := by
  cases step
  case descend => exact (Prod.mk.inj (Option.some.inj hread)).1.symm
  all_goals rfl

/-! ### Nodes -/

theorem Tree.leavesOf_ne_nil_of_capped {portion : List Tree} (hcapped : Capped portion) (hportion : portion ≠ []) :
    leavesOf portion.reverse ≠ [] := by
  cases portion with
  | nil => exact absurd rfl hportion
  | cons tree older =>
    have hleaves := (hcapped tree rfl).leaves_ne_nil
    rw [List.reverse_cons, leavesOf_append, leavesOf, leavesOf, List.append_nil]
    exact fun hnil => hleaves (List.append_eq_nil_iff.mp hnil).2

/-- Where a word is next and nothing waits, what is placed first starts with that word. -/
theorem View.starts_of_extends {view after : View} (hsettled : view.Settled) (hpending : view.pending = [])
    (hplaced : view.placed = []) (hgrow : view.Extends after) (hlaid : after.laid ≠ []) :
    ∃ leaf ∈ after.laid.head?, leaf.kind.isTrivia = false := by
  obtain ⟨leaf, rest, hfirst⟩ := List.exists_cons_of_ne_nil hlaid
  refine ⟨leaf, by rw [hfirst]; rfl, ?_⟩
  have hrow := hgrow.row
  rw [row, row, hfirst, laid, hplaced, hpending] at hrow
  cases hahead : view.ahead with
  | nil => simp [hahead, leavesOf] at hrow
  | cons token others =>
    rw [hahead] at hrow
    have hleaf : leaf = token.leaf := (List.cons.inj hrow).1
    exact hleaf ▸ hsettled.isTrivia_eq_false hahead

/-- A node that may be opened is exact once something has been placed in it. -/
theorem Stance.Holds.wrap {known learned : Stance} {base portion laid : List Tree} {view stop : View} {kind : Kind}
    (hholds : known.Holds base portion view) (hopens : known.Opens kind) (hpending : view.pending = [])
    (hgrow : View.Extends { view with placed := [] } stop) (hstop : learned.Holds [] laid stop)
    (hcapped : Capped laid) (hlaid : laid ≠ []) :
    unknown.Holds base (.node kind stop.placed.reverse :: portion)
      { stop with placed := .node kind stop.placed.reverse :: view.placed } ∧
    Capped (.node kind stop.placed.reverse :: portion) := by
  have hplaced : stop.placed = laid := by rw [hstop.placed, List.append_nil]
  have hends : (node kind stop.placed.reverse).EndsWithWord := by
    obtain ⟨tree, older, rfl⟩ := List.exists_cons_of_ne_nil hlaid
    rw [hplaced]
    exact (hcapped tree rfl).node kind older
  have hexact : (node kind stop.placed.reverse).Exact portion.head? := by
    refine ⟨hends, ?_⟩
    obtain hsettled | ⟨word, hlast, hleads⟩ := hopens
    · have hopen : View.Settled { view with placed := [] } := (hholds.settled hsettled).of_ahead rfl
      refine .inl (View.starts_of_extends hopen hpending rfl hgrow ?_)
      rw [View.laid, hplaced]
      exact leavesOf_ne_nil_of_capped hcapped hlaid
    · obtain ⟨-, leaf, older, hportion, rfl⟩ := hholds.last word hlast
      exact .inr (.inr ⟨leaf, by rw [hportion, List.head?_cons], hleads⟩)
  have hwithin : (node kind stop.placed.reverse).ExactWithin := by
    refine throughout_node ?_ fun child hmem => hstop.within child (hplaced ▸ List.mem_reverse.mp hmem)
    rw [children, List.reverse_reverse, hplaced]
    exact hstop.row
  refine ⟨.anywhere ?_ ⟨fun _ => hexact, hholds.row⟩ (List.forall_mem_cons.mpr ⟨hwithin, hholds.within⟩), ?_⟩
  · rw [hholds.placed, List.cons_append]
  · rintro tree hmem
    exact Option.some.inj hmem ▸ hends

/-- What a call places comes on top. -/
theorem Stance.Holds.join {known learned : Stance} {base portion newer : List Tree} {view after : View}
    (hholds : known.Holds base portion view) (hcapped : Capped portion) (hafter : learned.Holds view.placed newer after)
    (hnewer : Capped newer) (hlast : learned.last? = none) :
    learned.Holds base (newer ++ portion) after ∧ Capped (newer ++ portion) := by
  refine ⟨⟨?_, hafter.row.append hholds.row, List.forall_mem_append.mpr ⟨hafter.within, hholds.within⟩, hafter.settled,
    hafter.joined, hafter.here, fun kind hkind => nomatch hlast.symm.trans hkind⟩, ?_⟩
  · rw [hafter.placed, hholds.placed, List.append_assoc]
  · cases newer with
    | nil => exact hcapped
    | cons tree older => exact hnewer

/-! ### Rules -/

/-- Calls that are as their nonterminals promise. -/
structure NeatCalls (readCall : Nonterminal → View → Option View) : Prop where
  grow : ∀ nonterminal view after, readCall nonterminal view = some after → view.Extends after
  lay : ∀ nonterminal view after, nonterminal.looksFirst = true → readCall nonterminal view = some after →
    ∃ portion, (Stance.behind nonterminal).Holds view.placed portion after ∧ Capped portion ∧
      (nonterminal.fills = true → portion ≠ [])

namespace Rule

variable {readCall : Nonterminal → View → Option View} {α : Type}

/-- What a rule is said to place it places. -/
theorem Fills.laid_lt (hcalls : NeatCalls readCall) {rule : Rule α} {ended : α → Prop} (hfills : rule.Fills ended)
    {view after : View} {answer : α} (hread : rule.read readCall view = some (answer, after)) :
    view.laid.length < after.laid.length ∨ ended answer := by
  induction rule generalizing view after with
  | done found =>
    obtain ⟨rfl, rfl⟩ := Prod.mk.inj (Option.some.inj hread)
    exact .inr hfills
  | step s rest ih =>
    obtain ⟨found, between, hstep, hread⟩ := read_step_some hread
    have hrest := Rule.extends_of_read hcalls.grow hread
    obtain hreport | hmove | hall := hfills
    · rw [Step.read_of_isReport hreport] at hstep
      cases hstep
    · cases s <;> simp only [Step.isMove, Bool.false_eq_true] at hmove
      obtain ⟨advanced, hadvance, hfound⟩ := Option.map_eq_some_iff.mp hstep
      obtain ⟨-, rfl⟩ := Prod.mk.inj hfound
      exact .inl (Nat.lt_of_lt_of_le (View.Extends.advance hadvance).2 hrest.laid.length_le)
    · refine (ih found (hall found) hread).imp_left fun hlt => ?_
      exact Nat.lt_of_le_of_lt (Step.extends_of_read hstep).laid.length_le hlt
  | wrap kind start inner rest ihinner ih =>
    obtain ⟨between, hinner, hread⟩ := read_wrap_some hread
    obtain hlt | hfills := ihinner hfills hinner
    · refine .inl (Nat.lt_of_lt_of_le ?_ (Rule.extends_of_read hcalls.grow hread).laid.length_le)
      rw [view.laid_eq_drop_take (view.placed.length - start), View.laid_wrap, List.length_append, List.length_append]
      exact Nat.add_lt_add_left hlt _
    · have hwrap := View.Extends.wrap kind (Rule.extends_of_read hcalls.grow hinner)
      exact (ih hfills hread).imp_left fun hlt => Nat.lt_of_le_of_lt hwrap.laid.length_le hlt
  | call nonterminal rest ih =>
    obtain ⟨between, hcall, hread⟩ := read_call_some hread
    have hrest := Rule.extends_of_read hcalls.grow hread
    obtain hall | hall := hfills
    · have hlooks : nonterminal.looksFirst = true := by cases nonterminal <;> first | rfl | cases hall
      obtain ⟨portion, hholds, hcapped, hportion⟩ := hcalls.lay nonterminal view between hlooks hcall
      refine .inl (Nat.lt_of_lt_of_le ?_ hrest.laid.length_le)
      rw [View.laid, View.laid, hholds.placed, List.reverse_append, leavesOf_append, List.length_append]
      exact Nat.lt_add_of_pos_right (List.length_pos_iff.mpr (leavesOf_ne_nil_of_capped hcapped (hportion hall)))
    · refine (ih hall hread).imp_left fun hlt => ?_
      exact Nat.lt_of_le_of_lt (hcalls.grow nonterminal view between hcall).laid.length_le hlt

/-- A neat rule places exact nodes only, and ends as told. -/
theorem Neat.exact (hcalls : NeatCalls readCall) {rule : Rule α} {mark? : Option Nat} {known : Stance}
    {ended : α → Stance → Prop} {marked : α → Nat → Stance → Prop} (hneat : rule.Neat mark? known ended marked)
    {base portion : List Tree} {view after : View} {answer : α} (hholds : known.Holds base portion view)
    (hstands : view.StandsAt portion mark?) (hread : rule.read readCall view = some (answer, after)) :
    ∃ learned portion', Stance.Holds learned base portion' after ∧
      (Capped portion' ∧ ended answer learned ∨
        ∃ start, after.StandsAt portion' (some start) ∧ marked answer start learned) := by
  induction rule generalizing mark? known base portion view after with
  | done found =>
    obtain ⟨rfl, rfl⟩ := Prod.mk.inj (Option.some.inj hread)
    cases mark? with
    | none => exact ⟨known, portion, hholds, .inl ⟨hstands, hneat⟩⟩
    | some start => exact ⟨known, portion, hholds, .inr ⟨start, hstands, hneat⟩⟩
  | step s rest ih =>
    cases mark? with
    | some start => exact hneat.elim
    | none =>
      obtain ⟨found, between, hstep, hread⟩ := read_step_some hread
      have hquiet : s.isReport = false := by
        refine Bool.eq_false_iff.mpr fun hreport => ?_
        rw [Step.read_of_isReport hreport] at hstep
        cases hstep
      obtain ⟨hneeds, hrest⟩ := hneat hquiet
      obtain ⟨portion', hbetween, hmark⟩ := Step.holds_of_read hneeds hholds hstands hstep
      exact ih found (hrest found (Step.isReadable_of_read hstep)) hbetween hmark hread
  | wrap kind start inner rest ihinner ih =>
    cases mark? with
    | none => exact hneat.elim
    | some mark =>
      obtain ⟨rfl, hopens, hfills, hinnerNeat, hrest⟩ := hneat
      obtain ⟨hpending, rfl⟩ := hstands
      obtain ⟨stop, hinner, hread⟩ := read_wrap_some hread
      simp only [Nat.sub_self, List.take_zero, List.drop_zero] at hinner hread
      obtain ⟨learned, laid, hstop, ⟨hcapped, -⟩ | ⟨_, -, hnone⟩⟩ := ihinner hinnerNeat hholds.inside capped_nil hinner
      · have hlaid : laid ≠ [] := by
          rintro rfl
          have hlt := (hfills.laid_lt hcalls hinner).resolve_right id
          rw [View.laid, View.laid, hstop.placed] at hlt
          exact Nat.lt_irrefl _ hlt
        have hgrow := Rule.extends_of_read hcalls.grow hinner
        obtain ⟨hwrapped, htop⟩ := hholds.wrap hopens hpending hgrow hstop hcapped hlaid
        exact ih hrest hwrapped htop hread
      · exact hnone.elim
  | call nonterminal rest ih =>
    cases mark? with
    | some start => exact hneat.elim
    | none =>
      obtain ⟨between, hcall, hread⟩ := read_call_some hread
      obtain ⟨newer, hnewer, hcapped, -⟩ := hcalls.lay nonterminal view between hneat.1 hcall
      obtain ⟨hbetween, htop⟩ := hholds.join hstands hnewer hcapped rfl
      exact ih hneat.2 hbetween htop hread

/-- The same for a rule that is not left right behind a mark. -/
theorem Neat.lay (hcalls : NeatCalls readCall) {rule : Rule α} {known : Stance} {ended : α → Stance → Prop}
    (hneat : rule.Neat none known ended fun _ _ _ => False) {base portion : List Tree} {view after : View} {answer : α}
    (hholds : known.Holds base portion view) (hcapped : Capped portion)
    (hread : rule.read readCall view = some (answer, after)) :
    ∃ learned portion', Stance.Holds learned base portion' after ∧ Capped portion' ∧ ended answer learned := by
  obtain ⟨learned, portion', hafter, hended | ⟨_, -, hnone⟩⟩ := hneat.exact hcalls hholds hcapped hread
  · exact ⟨learned, portion', hafter, hended⟩
  · exact hnone.elim

end Rule

end Squirrel
