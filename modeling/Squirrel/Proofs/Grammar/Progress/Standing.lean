import Squirrel.Proofs.Token.Alone
import Mathlib.Data.List.TakeWhile
import Squirrel.Proofs.Parse.Run

/-!
# Where a run stands

A run makes progress when tokens pass or a limit is exceeded, and it must not look too often in between. For both only a
few numbers of a state matter: how many tokens are ahead, whether a limit has been exceeded, and how many looks have been
spent. Looks are counted together with a price that is set aside for every `function` ahead, because a default value that
is a table with a function is the one way to nest without a level that counts: what closing such a value may cost is
covered by the price of its function.
-/

namespace Squirrel

/-- What of a state bears on progress. -/
structure Standing where
  /-- How many tokens are ahead. -/
  raw : Nat
  /-- How many tokens are ahead once the trivia here is passed. -/
  left : Nat
  /-- One until a limit has been exceeded. -/
  slack : Nat
  /-- The looks that are set aside for the functions ahead. -/
  price : Nat
  /-- The looks since the last move, and the price. -/
  spent : Nat
  here : Kind
  /-- Whether a token follows the one here without trivia in between. -/
  paired : Bool
  left_le : left ≤ raw
  price_le : price ≤ spent
  slack_le : slack ≤ 1
  left_pos : here ≠ .error → 0 < left

/-- The looks that are set aside for one function. -/
def Token.price (token : Token) : Nat := if token.kind = .kwFunction then 12 else 0

namespace State

def prices : List Token → Nat
  | [] => 0
  | token :: rest => token.price + prices rest

theorem prices_dropWhile (tokens : List Token) : prices (tokens.dropWhile (·.kind.isTrivia)) = prices tokens := by
  induction tokens with
  | nil => rfl
  | cons token rest ih =>
    rw [List.dropWhile_cons]
    split
    · next htrivia =>
      have hprice : token.price = 0 := by
        rw [Token.price, if_neg]
        intro hkind
        rw [hkind] at htrivia
        exact absurd htrivia (by decide)
      rw [ih, prices, hprice, Nat.zero_add]
    · rfl

def isPaired (tokens : List Token) : Bool := tokens.tail.head?.any (!·.kind.isTrivia)

def standing (state : State) : Standing where
  raw := state.ahead.length
  left := state.passTrivia.ahead.length
  slack := if state.exceeded?.isSome then 0 else 1
  price := prices state.ahead
  spent := lookLimit - state.looks + prices state.ahead
  here := kindOf state.passTrivia.ahead
  paired := isPaired state.passTrivia.ahead
  left_le := (List.dropWhile_suffix _).length_le
  price_le := Nat.le_add_left _ _
  slack_le := by split <;> decide
  left_pos hhere := by
    refine List.length_pos_iff.mpr fun hnil => hhere ?_
    rw [hnil]
    rfl

theorem passTrivia_ahead_passTrivia (state : State) : state.passTrivia.passTrivia.ahead = state.passTrivia.ahead :=
  List.dropWhile_eq_self_iff.mpr fun hpos => List.dropWhile_get_zero_not _ state.ahead hpos

theorem prices_passTrivia (state : State) : prices state.passTrivia.ahead = prices state.ahead :=
  prices_dropWhile _

end State

namespace Standing

/-- At the token here, after some more looks. -/
abbrev Looked (looks : Nat) (before after : Standing) : Prop :=
  after.raw = before.left ∧ after.left = before.left ∧ after.slack = before.slack ∧ after.price = before.price ∧
    after.spent ≤ before.spent + looks ∧ after.price ≤ after.spent ∧ after.here = before.here ∧
    after.paired = before.paired

/-- Past the token here, with all looks. -/
abbrev Moved (before after : Standing) : Prop :=
  after.raw < before.left ∧ after.left ≤ after.raw ∧ after.slack ≤ before.slack ∧ after.price ≤ before.price ∧
    after.spent = after.price

/-- In the same place, whatever has become of the looks and the limits. -/
abbrev Stays (before after : Standing) : Prop :=
  after.raw = before.raw ∧ after.left = before.left ∧ after.price = before.price ∧ after.here = before.here ∧
    after.paired = before.paired

theorem Looked.here_eq {looks : Nat} {before after : Standing} (hlooked : before.Looked looks after) :
    after.here = before.here := hlooked.2.2.2.2.2.2.1

theorem Looked.trans {first second : Nat} {before between after : Standing} (hfirst : before.Looked first between)
    (hsecond : between.Looked second after) : before.Looked (first + second) after := by
  have hhere := hsecond.here_eq.trans hfirst.here_eq
  have hpaired : after.paired = before.paired := hsecond.2.2.2.2.2.2.2.trans hfirst.2.2.2.2.2.2.2
  exact ⟨by omega, by omega, by omega, by omega, by omega, by omega, hhere, hpaired⟩

end Standing

namespace Step

/-- What a step needs: a look that is left, or to stand at a token and not at trivia. -/
def Fits {α : Type} (room : Nat) : Step α → Standing → Prop
  | .current, standing | .adjacent, standing => standing.spent < room
  | .advance, standing => standing.raw = standing.left
  | _, _ => True

/-- What a step does to where a run stands. -/
def Stands {α : Type} (step : Step α) (before : Standing) (answer : α) (after : Standing) : Prop :=
  match step with
  | .current => answer = before.here ∧ before.Looked 1 after
  | .adjacent => before.Looked 1 after
  | .next | .currentSpan | .afterLineBreak | .placeTrivia => before.Looked 0 after
  | .numberFollows => before.Looked 0 after ∧ (answer = true → before.paired = true)
  | .atEnd => (answer = true ↔ before.raw = 0) ∧ after = before
  | .stopped => (answer = true ↔ before.raw = 0 ∨ before.slack = 0) ∧ after = before
  | .advance =>
    before.Moved after ∧ (before.here = .kwFunction → after.price + 12 ≤ before.price) ∧
      (before.paired = true → after.raw = after.left)
  | .descend =>
    before.Stays after ∧ (answer = true → after.slack = before.slack ∧ after.spent = before.price) ∧
      (answer = false → after.slack = 0 ∧ after.spent = before.spent)
  | .ascend => before.Stays after ∧ after.slack = before.slack ∧ after.spent = before.price
  | .previous | .mark | .pushOpener _ | .popOpener | .report _ | .reportOnce .. => after = before

end Step

/-! ### The steps of the machine -/

namespace State

theorem passTrivia_ahead_of_settled {state : State} (hsettled : state.standing.raw = state.standing.left) :
    state.passTrivia.ahead = state.ahead :=
  (List.dropWhile_suffix _).eq_of_length hsettled.symm

theorem isTrivia_of_passTrivia {state : State} {token : Token} {rest : List Token}
    (hahead : state.passTrivia.ahead = token :: rest) : token.kind.isTrivia = false := by
  have hnot := List.head?_dropWhile_not (fun token : Token => token.kind.isTrivia) state.ahead
  rw [show state.ahead.dropWhile (·.kind.isTrivia) = token :: rest from hahead] at hnot
  simpa using hnot

theorem looked_passTrivia (state : State) : state.standing.Looked 0 state.passTrivia.standing := by
  simp only [Standing.Looked, standing, passTrivia_ahead_passTrivia, prices_passTrivia]
  exact ⟨trivial, trivial, rfl, trivial, Nat.le_refl _, Nat.le_add_left _ _, trivial, trivial⟩

theorem looked_spendLook {state after : State} (hlook : state.passTrivia.spendLook = .ok after) :
    state.standing.Looked 1 after.standing := by
  rw [spendLook] at hlook
  split at hlook
  · simp at hlook
  · next left hleft =>
    obtain rfl := Except.ok.inj hlook
    have hspent : lookLimit - left + prices state.passTrivia.ahead ≤ lookLimit - state.looks + prices state.ahead + 1 := by
      have hlooks : state.looks = left + 1 := hleft
      rw [prices_passTrivia]
      omega
    obtain ⟨hraw, hleft, hslack, hprice, -, -, hhere, hpaired⟩ := state.looked_passTrivia
    exact ⟨hraw, hleft, hslack, hprice, hspent, Nat.le_add_left _ _, hhere, hpaired⟩

theorem kindOf_spendLook {state after : State} (hlook : state.passTrivia.spendLook = .ok after) :
    kindOf after.ahead = state.standing.here := by
  rw [spendLook] at hlook
  split at hlook
  · simp at hlook
  · exact Except.ok.inj hlook ▸ rfl

theorem spendLook_error {state : State} {fault : Fault} (hlook : state.passTrivia.spendLook = .error fault) :
    fault = .lookedTooOften ∧ lookLimit ≤ state.standing.spent := by
  rw [spendLook] at hlook
  split at hlook
  · next hnone =>
    have hlooks : state.looks = 0 := hnone
    refine ⟨(Except.error.inj hlook).symm, ?_⟩
    simp only [standing, hlooks]
    omega
  · simp at hlook

theorem isPaired_of_isFoldable {state : State}
    (hfoldable : state.passTrivia.ahead.tail.head?.any isFoldable = true) : state.standing.paired = true := by
  simp only [standing, isPaired]
  cases hhead : state.passTrivia.ahead.tail.head? with
  | none => simp [hhead] at hfoldable
  | some token =>
    rw [hhead, Option.any_some, isFoldable] at hfoldable
    rw [Option.any_some]
    split at hfoldable
    · next hkind => rw [hkind]; rfl
    · next hkind => rw [hkind]; rfl
    · simp at hfoldable

theorem stopped_iff (state : State) :
    state.stopped = true ↔ state.standing.raw = 0 ∨ state.standing.slack = 0 := by
  simp only [stopped, atEnd, standing, Bool.or_eq_true, List.isEmpty_iff_length_eq_zero]
  cases state.exceeded? <;> simp

theorem standing_reportOnce (state : State) (offset : Nat) (diagnostic : Diagnostic) :
    (state.reportOnce offset diagnostic).standing = state.standing := by
  rw [reportOnce]
  split <;> rfl

theorem stands_descend (state : State) : Step.descend.Stands state.standing state.descend.1 state.descend.2.standing := by
  rw [descend]
  split
  · refine ⟨⟨rfl, rfl, rfl, rfl, rfl⟩, by simp, fun _ => ⟨?_, rfl⟩⟩
    simp only [standing]
    cases state.exceeded? <;> rfl
  · exact ⟨⟨rfl, rfl, rfl, rfl, rfl⟩, fun _ => ⟨rfl, by simp [standing]⟩, by simp⟩

theorem slack_spendStep (state : State) : state.spendStep.standing.slack ≤ state.standing.slack := by
  rw [spendStep]
  split
  · exact Nat.le_refl _
  · simp only [standing]
    split <;> simp_all
  · exact Nat.le_refl _

theorem moved_advance {state after : State} (hadvance : state.advance = .ok after)
    (hsettled : state.standing.raw = state.standing.left) : Step.advance.Stands state.standing () after.standing := by
  rw [advance] at hadvance
  split at hadvance
  · simp at hadvance
  · next token rest hahead =>
    obtain rfl := Except.ok.inj hadvance
    have hleft : state.passTrivia.ahead = token :: rest := (passTrivia_ahead_of_settled hsettled).trans hahead
    have hprice : prices state.ahead = token.price + prices rest := by
      rw [hahead, prices]
    simp only [Step.Stands, Standing.Moved, standing, hleft, hprice, kindOf, isPaired, List.length_cons, List.tail_cons]
    refine ⟨⟨Nat.lt_succ_self _, (List.dropWhile_suffix _).length_le, state.slack_spendStep, Nat.le_add_left _ _, by simp⟩,
      fun hkind => ?_, fun hpaired => ?_⟩
    · rw [Token.price, if_pos hkind]
      omega
    · cases rest with
      | nil => rfl
      | cons follower rest =>
        have hfollower : follower.kind.isTrivia = false := by simpa using hpaired
        simp [passTrivia, hfollower]

end State

theorem Step.stands_of_run {α : Type} {step : Step α} {state after : State} {answer : α} {room : Nat}
    (hfits : step.Fits room state.standing) (hrun : step.run state = .ok (answer, after)) :
    step.Stands state.standing answer after.standing := by
  cases step <;> simp only [Step.run, bind, Except.bind, pure, Except.pure, Except.ok.injEq, Prod.mk.injEq] at hrun
  case current =>
    split at hrun
    · simp at hrun
    · next looked hlook =>
      obtain ⟨rfl, rfl⟩ := Prod.mk.inj (Except.ok.inj hrun)
      exact ⟨State.kindOf_spendLook hlook, State.looked_spendLook hlook⟩
  case adjacent =>
    split at hrun
    · simp at hrun
    · next looked hlook =>
      obtain ⟨rfl, rfl⟩ := Prod.mk.inj (Except.ok.inj hrun)
      exact State.looked_spendLook hlook
  case next | currentSpan | afterLineBreak => exact hrun.2 ▸ state.looked_passTrivia
  case numberFollows =>
    refine ⟨hrun.2 ▸ state.looked_passTrivia, fun hyes => State.isPaired_of_isFoldable ?_⟩
    rw [hrun.1, hyes]
  case previous | pushOpener | popOpener | report => exact hrun.2 ▸ rfl
  case atEnd =>
    refine ⟨?_, hrun.2 ▸ rfl⟩
    rw [← hrun.1]
    exact List.isEmpty_iff_length_eq_zero
  case stopped =>
    refine ⟨?_, hrun.2 ▸ rfl⟩
    rw [← hrun.1]
    exact state.stopped_iff
  case advance =>
    split at hrun
    · simp at hrun
    · next advanced hadvance =>
      obtain ⟨-, rfl⟩ := Prod.mk.inj (Except.ok.inj hrun)
      exact State.moved_advance hadvance hfits
  case mark => exact hrun.2 ▸ rfl
  case placeTrivia => exact hrun.2 ▸ state.looked_passTrivia
  case reportOnce offset diagnostic => exact hrun.2 ▸ state.standing_reportOnce offset diagnostic
  case descend =>
    obtain ⟨rfl, rfl⟩ := Prod.mk.inj hrun
    exact state.stands_descend
  case ascend => exact hrun.2 ▸ ⟨⟨rfl, rfl, rfl, rfl, rfl⟩, rfl, by simp [State.standing, State.ascend]⟩

/-! ### The account of the steps -/

namespace State

/-- How many of the tokens are not trivia. -/
def words (tokens : List Token) : Nat := tokens.countP (!·.kind.isTrivia)

/-- While no limit is exceeded, every token but trivia costs a step. -/
def Accounts (before after : State) : Prop :=
  after.exceeded? = none → before.exceeded? = none ∧
    before.stepsLeft?.map (· + words after.ahead) = after.stepsLeft?.map (· + words before.ahead)

theorem Accounts.refl (state : State) : state.Accounts state := fun hwithin => ⟨hwithin, rfl⟩

theorem Accounts.trans {first second third : State} (hfirst : first.Accounts second) (hsecond : second.Accounts third) :
    first.Accounts third := by
  intro hwithin
  obtain ⟨hbetween, hlast⟩ := hsecond hwithin
  obtain ⟨hbefore, hearly⟩ := hfirst hbetween
  refine ⟨hbefore, ?_⟩
  cases hone : first.stepsLeft? <;> cases htwo : second.stepsLeft? <;> cases hthree : third.stepsLeft? <;>
    simp_all
  omega

theorem words_passTrivia (state : State) : words state.passTrivia.ahead = words state.ahead := by
  have hsplit := List.takeWhile_append_dropWhile (p := fun token : Token => token.kind.isTrivia) (l := state.ahead)
  have hnone : words (state.ahead.takeWhile (·.kind.isTrivia)) = 0 := by
    refine List.countP_eq_zero.mpr fun token hmem => ?_
    simpa using List.mem_takeWhile_imp hmem
  calc words state.passTrivia.ahead
      = words (state.ahead.takeWhile (·.kind.isTrivia)) + words state.passTrivia.ahead := by rw [hnone, Nat.zero_add]
    _ = words (state.ahead.takeWhile (·.kind.isTrivia) ++ state.passTrivia.ahead) := List.countP_append.symm
    _ = words state.ahead := congrArg words hsplit

/-- A change that leaves the limits alone and passes nothing but trivia. -/
theorem accounts_of_eq {before after : State} (hexceeded : after.exceeded? = before.exceeded?)
    (hsteps : after.stepsLeft? = before.stepsLeft?) (hwords : words after.ahead = words before.ahead) :
    before.Accounts after :=
  fun hwithin => ⟨hexceeded ▸ hwithin, by rw [hsteps, hwords]⟩

theorem accounts_passTrivia (state : State) : state.Accounts state.passTrivia :=
  accounts_of_eq rfl rfl state.words_passTrivia

theorem accounts_spendLook {state after : State} (hlook : state.passTrivia.spendLook = .ok after) :
    state.Accounts after := by
  rw [spendLook] at hlook
  split at hlook
  · simp at hlook
  · exact Except.ok.inj hlook ▸ accounts_of_eq rfl rfl state.words_passTrivia

theorem accounts_advance {state after : State} (hadvance : state.advance = .ok after)
    (hsettled : state.standing.raw = state.standing.left) : state.Accounts after := by
  rw [advance] at hadvance
  split at hadvance
  · simp at hadvance
  · next token rest hahead =>
    obtain rfl := Except.ok.inj hadvance
    have hword := isTrivia_of_passTrivia ((passTrivia_ahead_of_settled hsettled).trans hahead)
    have hwords : words state.ahead = words rest + 1 := by
      rw [hahead, words, List.countP_cons_of_pos (by simpa using hword), words]
    intro hwithin
    rw [hwords]
    simp only [placePending, spendStep] at hwithin ⊢
    split at hwithin
    · next hsteps => exact ⟨hwithin, by simp [hsteps]⟩
    · next hsteps => simp at hwithin
    · next left hsteps =>
      refine ⟨hwithin, ?_⟩
      simp [hsteps]
      omega

end State

theorem Step.accounts_of_run {α : Type} {step : Step α} {state after : State} {answer : α} {room : Nat}
    (hfits : step.Fits room state.standing) (hrun : step.run state = .ok (answer, after)) : state.Accounts after := by
  cases step <;> simp only [Step.run, bind, Except.bind, pure, Except.pure, Except.ok.injEq, Prod.mk.injEq] at hrun
  case current | adjacent =>
    split at hrun
    · simp at hrun
    · next looked hlook =>
      obtain ⟨-, rfl⟩ := Prod.mk.inj (Except.ok.inj hrun)
      exact State.accounts_spendLook hlook
  case next | currentSpan | afterLineBreak | numberFollows => exact hrun.2 ▸ state.accounts_passTrivia
  case previous | pushOpener | popOpener | report | atEnd | stopped | mark | ascend =>
    exact hrun.2 ▸ State.accounts_of_eq rfl rfl rfl
  case advance =>
    split at hrun
    · simp at hrun
    · next advanced hadvance =>
      obtain ⟨-, rfl⟩ := Prod.mk.inj (Except.ok.inj hrun)
      exact State.accounts_advance hadvance hfits
  case placeTrivia => exact hrun.2 ▸ State.accounts_of_eq rfl rfl state.words_passTrivia
  case reportOnce offset diagnostic =>
    rw [← hrun.2, State.reportOnce]
    split
    · exact State.Accounts.refl state
    · exact State.accounts_of_eq rfl rfl rfl
  case descend =>
    have hafter : after = state.descend.2 := (congrArg Prod.snd hrun).symm
    rw [hafter, State.descend]
    split
    · intro hwithin
      simp at hwithin
    · exact State.accounts_of_eq rfl rfl rfl

end Squirrel
