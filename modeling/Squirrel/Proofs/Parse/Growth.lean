import Squirrel.Proofs.Parse.Lossless
import Squirrel.Proofs.Parse.Reading

/-!
# Readings only add leaves

A reading goes through its tokens from left to right: it changes nothing of the row of what it has placed, what waits and
what is ahead, and the leaves that it has placed stay where they are. So the first leaf that a rule places is the first
of that row.
-/

namespace Squirrel

open Squirrel.Tree

namespace View

/-- The leaves of all that has been placed. -/
def laid (view : View) : List Leaf := leavesOf view.placed.reverse

/-- Everything in a view from left to right. -/
def row (view : View) : List Leaf :=
  view.laid ++ (view.pending.reverse.map Token.leaf ++ view.ahead.map Token.leaf)

theorem laid_eq_drop_take (view : View) (since : Nat) :
    view.laid = leavesOf (view.placed.drop since).reverse ++ leavesOf (view.placed.take since).reverse := by
  rw [laid, ← leavesOf_append, ← List.reverse_append, List.take_append_drop]

/-- A node has the leaves of the trees in it. -/
theorem laid_wrap (view : View) (kind : Kind) (older : List Tree) :
    laid { view with placed := .node kind view.placed.reverse :: older } = leavesOf older.reverse ++ view.laid := by
  rw [laid, List.reverse_cons, leavesOf_append, leavesOf, leavesOf, leaves, List.append_nil, laid]

/-- The row stays as it is, and leaves have been placed behind those that were there. -/
structure Extends (view after : View) : Prop where
  row : after.row = view.row
  laid : view.laid <+: after.laid

namespace Extends

variable {view between after : View}

theorem refl (view : View) : view.Extends view := ⟨rfl, List.prefix_rfl⟩

theorem trans (hfirst : view.Extends between) (hsecond : between.Extends after) : view.Extends after :=
  ⟨hsecond.row.trans hfirst.row, hfirst.laid.trans hsecond.laid⟩

theorem passTrivia (view : View) : view.Extends view.passTrivia where
  row := by
    have hahead : view.ahead.map Token.leaf = (view.ahead.takeWhile (·.kind.isTrivia)).map Token.leaf ++
        (view.ahead.dropWhile (·.kind.isTrivia)).map Token.leaf := by
      rw [← List.map_append, List.takeWhile_append_dropWhile]
    simp only [View.row, View.laid, View.passTrivia, List.reverse_append, List.reverse_reverse, List.map_append, hahead,
      List.append_assoc]
  laid := List.prefix_rfl

theorem placePending (view : View) : view.Extends view.placePending where
  row := by
    simp only [View.row, View.laid, View.placePending, List.reverse_append, leavesOf_append, ← List.map_reverse,
      leavesOf_map_leafOf, List.reverse_nil, List.map_nil, List.nil_append, List.append_assoc]
  laid := by
    rw [View.laid, View.laid, View.placePending, List.reverse_append, leavesOf_append]
    exact List.prefix_append ..

/-- Moving places one more leaf. -/
theorem advance (hadvance : view.advance = some after) :
    view.Extends after ∧ view.laid.length < after.laid.length := by
  rw [View.advance] at hadvance
  split at hadvance
  · cases hadvance
  · next token rest hahead =>
    split at hadvance
    · cases hadvance
    · obtain rfl := Option.some.inj hadvance
      obtain ⟨hrow, hlaid⟩ := placePending view
      have hleaf : View.laid { view.placePending with
          behind := token :: view.behind
          ahead := rest
          placed := State.leafOf token :: view.placePending.placed } = view.placePending.laid ++ [token.leaf] := by
        rw [View.laid, List.reverse_cons, leavesOf_append]
        rfl
      refine ⟨⟨?_, hlaid.trans ?_⟩, Nat.lt_of_le_of_lt hlaid.length_le ?_⟩
      · rw [← hrow, View.row, hleaf, View.row]
        simp [View.placePending, hahead]
      · exact hleaf ▸ List.prefix_append ..
      · rw [hleaf, List.length_append]
        exact Nat.lt_succ_self _

/-- A node takes trees that have been placed, and more are placed in it. -/
theorem wrap (kind : Kind) {since : Nat} (hinner : Extends { view with placed := view.placed.take since } after) :
    view.Extends { after with placed := .node kind after.placed.reverse :: view.placed.drop since } := by
  obtain ⟨hrow, hlaid⟩ := hinner
  constructor
  · rw [View.row, laid_wrap, View.row, view.laid_eq_drop_take since, List.append_assoc, List.append_assoc]
    exact congrArg _ hrow
  · rw [view.laid_eq_drop_take since, laid_wrap]
    exact (List.prefix_append_right_inj _).mpr hlaid

end Extends

end View

theorem Step.extends_of_read {α : Type} {step : Step α} {view after : View} {answer : α}
    (hread : step.read view = some (answer, after)) : view.Extends after := by
  cases step <;> simp only [Step.read, Option.some.injEq, Prod.mk.injEq, reduceCtorEq] at hread
  case current | adjacent | next | currentSpan | afterLineBreak | numberFollows => exact hread.2 ▸ .passTrivia view
  case placeTrivia => exact hread.2 ▸ (View.Extends.passTrivia view).trans (.placePending _)
  case previous | atEnd | stopped | pushOpener | popOpener | descend | ascend =>
    exact hread.2 ▸ ⟨rfl, List.prefix_rfl⟩
  case mark => exact hread.2 ▸ .placePending view
  case advance =>
    obtain ⟨found, hadvance, hfound⟩ := Option.map_eq_some_iff.mp hread
    obtain ⟨-, rfl⟩ := Prod.mk.inj hfound
    exact (View.Extends.advance hadvance).1

theorem Rule.extends_of_read {readCall : Nonterminal → View → Option View}
    (hcalls : ∀ nonterminal view after, readCall nonterminal view = some after → view.Extends after)
    {α : Type} {rule : Rule α} {view after : View} {answer : α}
    (hread : rule.read readCall view = some (answer, after)) : view.Extends after := by
  induction rule generalizing view after with
  | done found =>
    obtain ⟨-, rfl⟩ := Prod.mk.inj (Option.some.inj hread)
    exact .refl view
  | step s rest ih =>
    obtain ⟨found, between, hstep, hread⟩ := read_step_some hread
    exact (Step.extends_of_read hstep).trans (ih found hread)
  | wrap kind start inner rest ihinner ih =>
    obtain ⟨between, hinner, hread⟩ := read_wrap_some hread
    exact (View.Extends.wrap kind (ihinner hinner)).trans (ih hread)
  | call nonterminal rest ih =>
    obtain ⟨between, hcall, hread⟩ := read_call_some hread
    exact (hcalls nonterminal view between hcall).trans (ih hread)

theorem Nonterminal.extends_of_read {bound : Nat} {nonterminal : Nonterminal} {view after : View}
    (hread : nonterminal.read bound view = some after) : view.Extends after := by
  induction bound generalizing nonterminal view after with
  | zero => exact nomatch hread
  | succ bound ih =>
    exact Rule.extends_of_read (fun _ _ _ hcall => ih hcall) (Rule.read_of_nonterminal hread)

end Squirrel
