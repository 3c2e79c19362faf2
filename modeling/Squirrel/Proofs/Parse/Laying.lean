import Squirrel.Proofs.Grammar.Throughout

/-!
# What rules lay

Recovery may leave out any part of a construct, but it never puts one in the place of another. So the row that a rule
lays is known in every run, also where errors have been reported: it is followed from state to state, together with the
kind of the token that comes next, which decides what the next move lays. Blanks and comments are no part of a row.
-/

namespace Squirrel

open Squirrel.Tree

variable {holds : Tree → Prop}

/-- On top of older trees a state has laid a row, and in all of it a property holds of the nodes. What waits to be placed
is trivia. -/
structure State.Laid (holds : Tree → Prop) (older row : List Tree) (state : State) : Prop where
  clean : ∀ token ∈ state.pending, token.kind.isTrivia = true
  placed : ∃ laid, state.placed = laid ++ older ∧ items laid.reverse = row ∧ ∀ tree ∈ laid, tree.Throughout holds

namespace State

variable {older row : List Tree} {state after : State}

theorem items_map_leafOf {tokens : List Token} (htrivia : ∀ token ∈ tokens, token.kind.isTrivia = true) :
    items (tokens.map leafOf) = [] := by
  refine items_eq_nil fun tree hmem => ?_
  obtain ⟨token, htoken, rfl⟩ := List.mem_map.mp hmem
  exact htrivia token htoken

theorem throughout_map_leafOf {tokens : List Token} : ∀ tree ∈ tokens.map leafOf, tree.Throughout holds := by
  intro tree hmem
  obtain ⟨token, -, rfl⟩ := List.mem_map.mp hmem
  exact throughout_token _

namespace Laid

/-- Nothing has been laid yet on top of all that is there. -/
theorem fresh (hclean : ∀ token ∈ state.pending, token.kind.isTrivia = true) (hplaced : state.placed = older) :
    state.Laid holds older [] :=
  ⟨hclean, [], hplaced, rfl, List.forall_mem_nil _⟩

/-- Nothing else of a state matters. -/
theorem of_eq (hlaid : state.Laid holds older row) (hpending : after.pending = state.pending)
    (hplaced : after.placed = state.placed) : after.Laid holds older row :=
  ⟨hpending ▸ hlaid.clean, hplaced ▸ hlaid.placed⟩

theorem passTrivia (hlaid : state.Laid holds older row) : state.passTrivia.Laid holds older row := by
  refine ⟨fun token hmem => ?_, hlaid.placed⟩
  obtain hmem | hmem := List.mem_append.mp hmem
  · exact List.all_eq_true.mp List.all_takeWhile token (List.mem_reverse.mp hmem)
  · exact hlaid.clean token hmem

theorem placePending (hlaid : state.Laid holds older row) : state.placePending.Laid holds older row := by
  obtain ⟨laid, hplaced, hrow, hthroughout⟩ := hlaid.placed
  refine ⟨List.forall_mem_nil _, state.pending.map leafOf ++ laid, ?_, ?_, ?_⟩
  · rw [State.placePending, hplaced, List.append_assoc]
  · rw [List.reverse_append, items_append, hrow, ← List.map_reverse, items_map_leafOf, List.append_nil]
    exact fun token hmem => hlaid.clean token (List.mem_reverse.mp hmem)
  · exact List.forall_mem_append.mpr ⟨throughout_map_leafOf, hthroughout⟩

theorem cons (hlaid : state.Laid holds older row) {tree : Tree} (htree : tree.Throughout holds)
    (hafter : after.placed = tree :: state.placed) (hpending : after.pending = state.pending) :
    after.Laid holds older (row ++ items [tree]) := by
  obtain ⟨laid, hplaced, rfl, hthroughout⟩ := hlaid.placed
  refine ⟨hpending ▸ hlaid.clean, tree :: laid, by rw [hafter, hplaced, List.cons_append], ?_, ?_⟩
  · rw [List.reverse_cons, items_append]
  · exact List.forall_mem_cons.mpr ⟨htree, hthroughout⟩

end Laid

/-- Moving lays the token that was next. -/
theorem Laid.advance (hlaid : state.Laid holds older row) (hadvance : state.advance = .ok after) :
    ∃ leaf : Leaf, leaf.kind = kindOf state.ahead ∧ after.Laid holds older (row ++ items [token leaf]) := by
  rw [State.advance] at hadvance
  split at hadvance
  · cases hadvance
  · next first rest hahead =>
    obtain ⟨left?, exceeded?, hspent, -, -⟩ := spendStep_eq state
    obtain rfl := Except.ok.inj hadvance
    have hspentLaid : state.spendStep.Laid holds older row := by
      rw [hspent]
      exact hlaid.of_eq rfl rfl
    refine ⟨⟨first.kind, first.text⟩, by rw [hahead]; rfl, ?_⟩
    exact hspentLaid.placePending.cons (throughout_token _) rfl rfl

end State

/-! ### Steps -/

/-- The step that moves past a token. -/
def Step.isMove {α : Type} : Step α → Bool
  | advance => true
  | _ => false

/-- A step that does not move lays nothing, and does not leave a word that is next. -/
theorem Step.laid_run {α : Type} (step : Step α) (hmove : step.isMove = false) {state after : State} {answer : α}
    (hrun : step.run state = .ok (answer, after)) {older row : List Tree} (hlaid : state.Laid holds older row) :
    after.Laid holds older row ∧ (after.ahead = state.ahead ∨ after.ahead = state.passTrivia.ahead) := by
  cases step <;> simp only [run, bind, Except.bind, pure, Except.pure, Except.ok.injEq, Prod.mk.injEq] at hrun
  case advance => cases hmove
  case current | adjacent =>
    split at hrun
    · cases hrun
    · next looked hlook =>
      obtain ⟨-, rfl⟩ := Prod.mk.inj (Except.ok.inj hrun)
      have hlooked := State.eq_of_spendLook hlook
      rw [hlooked]
      exact ⟨hlaid.passTrivia.of_eq rfl rfl, .inr rfl⟩
  case next | currentSpan | afterLineBreak | numberFollows => exact hrun.2 ▸ ⟨hlaid.passTrivia, .inr rfl⟩
  case previous | atEnd | stopped | pushOpener | popOpener | report | ascend =>
    exact hrun.2 ▸ ⟨hlaid.of_eq rfl rfl, .inl rfl⟩
  case mark => exact hrun.2 ▸ ⟨hlaid.placePending, .inl rfl⟩
  case placeTrivia => exact hrun.2 ▸ ⟨hlaid.passTrivia.placePending, .inr rfl⟩
  case reportOnce offset diagnostic =>
    rw [← hrun.2, State.reportOnce]
    split
    · exact ⟨hlaid, .inl rfl⟩
    · exact ⟨hlaid.of_eq rfl rfl, .inl rfl⟩
  case descend =>
    have hafter : after = state.descend.2 := by rw [hrun]
    rw [hafter, State.descend]
    split
    · exact ⟨hlaid.of_eq rfl rfl, .inl rfl⟩
    · exact ⟨hlaid.of_eq rfl rfl, .inl rfl⟩

theorem State.kindOf_passTrivia_of_word {state : State} (hword : (kindOf state.ahead).isTrivia = false) :
    kindOf state.passTrivia.ahead = kindOf state.ahead := by
  rw [passTrivia]
  cases hahead : state.ahead with
  | nil => rfl
  | cons token rest =>
    rw [hahead] at hword
    rw [List.dropWhile_cons_of_neg (by simpa [kindOf] using hword)]

theorem State.isTrivia_kindOf_passTrivia (state : State) : (kindOf state.passTrivia.ahead).isTrivia = false := by
  have hnot := List.head?_dropWhile_not (fun token : Token => token.kind.isTrivia) state.ahead
  rw [passTrivia]
  cases hahead : state.ahead.dropWhile (·.kind.isTrivia) with
  | nil => rfl
  | cons token rest =>
    rw [hahead] at hnot
    simpa [kindOf] using hnot

/-! ### Rules -/

namespace Rule

variable {runCall : Nonterminal → State → Except Fault State} {α β : Type} {here : Kind}
  {result : α → List Tree → Kind → Prop}

/-- Every run of a rule from a token of the given kind on lays a row on top of what has been laid. The result tells of its
answer, of the row, and of the kind of the token that is next. -/
def Lays (runCall : Nonterminal → State → Except Fault State) (holds : Tree → Prop) (here : Kind) (rule : Rule α)
    (result : α → List Tree → Kind → Prop) : Prop :=
  ∀ older row state answer after, State.Laid holds older row state → State.kindOf state.ahead = here →
    rule.exec runCall state = .ok (answer, after) →
    ∃ more, after.Laid holds older (row ++ more) ∧ result answer more (State.kindOf after.ahead)

/-- A rule that lays whatever it lays on top. -/
def Grows (runCall : Nonterminal → State → Except Fault State) (holds : Tree → Prop) (rule : Rule α) : Prop :=
  ∀ here, rule.Lays runCall holds here fun _ _ _ => True

theorem Lays.mono {rule : Rule α} (hrule : rule.Lays runCall holds here result) {weaker : α → List Tree → Kind → Prop}
    (hweaker : ∀ answer more last, result answer more last → weaker answer more last) :
    rule.Lays runCall holds here weaker := by
  intro older row state answer after hlaid hhere hexec
  obtain ⟨more, hafter, hresult⟩ := hrule older row state answer after hlaid hhere hexec
  exact ⟨more, hafter, hweaker _ _ _ hresult⟩

theorem lays_pure {answer : α} (hresult : result answer [] here) :
    (pure answer : Rule α).Lays runCall holds here result := by
  intro older row state found after hlaid hhere hexec
  obtain ⟨rfl, rfl⟩ := Prod.mk.inj (Except.ok.inj hexec)
  exact ⟨[], by rwa [List.append_nil], hhere ▸ hresult⟩

theorem lays_bind {rule : Rule α} {next : α → Rule β} {ended : β → List Tree → Kind → Prop}
    (hrule : rule.Lays runCall holds here result)
    (hnext : ∀ answer more last, result answer more last →
      (next answer).Lays runCall holds last fun found others => ended found (more ++ others)) :
    (rule >>= next).Lays runCall holds here ended := by
  intro older row state answer after hlaid hhere hexec
  obtain ⟨first, between, hfirst, hrest⟩ := exec_bind_ok hexec
  obtain ⟨more, hbetween, hresult⟩ := hrule older row state first between hlaid hhere hfirst
  obtain ⟨others, hafter, hended⟩ := hnext first more _ hresult older _ between answer after hbetween rfl hrest
  exact ⟨more ++ others, by rwa [← List.append_assoc], hended⟩

theorem lays_ite {condition : Prop} [Decidable condition] {left right : Rule α}
    (hleft : condition → left.Lays runCall holds here result)
    (hright : ¬condition → right.Lays runCall holds here result) :
    (if condition then left else right).Lays runCall holds here result := by
  split
  · next htrue => exact hleft htrue
  · next hfalse => exact hright hfalse

/-- A step that does not move. -/
theorem lays_still (step : Step α) (hmove : step.isMove = false) :
    (ofStep step).Lays runCall holds here fun _ more last => more = [] ∧ (here.isTrivia = false → last = here) := by
  intro older row state answer after hlaid hhere hexec
  obtain ⟨hlaid, hahead⟩ := step.laid_run hmove (run_of_exec_ofStep hexec) hlaid
  refine ⟨[], by rwa [List.append_nil], rfl, fun hword => ?_⟩
  obtain hahead | hahead := hahead
  · rw [hahead, hhere]
  · rw [hahead, State.kindOf_passTrivia_of_word (hhere ▸ hword), hhere]

/-- A look at the token that is next passes the trivia before it. -/
theorem lays_current : Grammar.current.Lays runCall holds here fun kind more last =>
    more = [] ∧ last = kind ∧ kind.isTrivia = false ∧ (here.isTrivia = false → kind = here) := by
  intro older row state kind after hlaid hhere hexec
  obtain ⟨more, hafter, rfl, hlast⟩ := lays_still .current rfl older row state kind after hlaid hhere hexec
  simp only [Grammar.current, ofStep, exec, Step.run, Bind.bind, Except.bind, pure, Except.pure] at hexec
  cases hlook : state.passTrivia.spendLook with
  | error fault => simp [hlook] at hexec
  | ok looked =>
    simp only [hlook] at hexec
    obtain ⟨rfl, rfl⟩ := Prod.mk.inj (Except.ok.inj hexec)
    refine ⟨[], hafter, rfl, rfl, ?_, hlast⟩
    rw [State.eq_of_spendLook hlook]
    exact State.isTrivia_kindOf_passTrivia state

theorem lays_advance : Grammar.advance.Lays runCall holds here fun _ more _ =>
    ∃ leaf : Leaf, leaf.kind = here ∧ more = items [token leaf] := by
  intro older row state answer after hlaid hhere hexec
  simp only [Grammar.advance, ofStep, exec, Step.run, Bind.bind, Except.bind, pure, Except.pure] at hexec
  cases hadvance : state.advance with
  | error fault => simp [hadvance] at hexec
  | ok advanced =>
    simp only [hadvance] at hexec
    obtain ⟨-, rfl⟩ := Prod.mk.inj (Except.ok.inj hexec)
    obtain ⟨leaf, hkind, hafter⟩ := hlaid.advance hadvance
    exact ⟨_, hafter, leaf, hkind.trans hhere, rfl⟩

/-- A word that is known to be next. -/
theorem lays_advanceWord (hword : here.isTrivia = false) : Grammar.advance.Lays runCall holds here fun _ more _ =>
    ∃ leaf : Leaf, leaf.kind = here ∧ more = [token leaf] := by
  refine lays_advance.mono fun _ more last hmore => ?_
  obtain ⟨leaf, rfl, rfl⟩ := hmore
  exact ⟨leaf, rfl, items_cons_word (by simpa [Tree.isTrivia] using hword) []⟩

theorem grows_pure (answer : α) : (pure answer : Rule α).Grows runCall holds := fun _ => lays_pure trivial

theorem grows_bind {rule : Rule α} {next : α → Rule β} (hrule : rule.Grows runCall holds)
    (hnext : ∀ answer, (next answer).Grows runCall holds) : (rule >>= next).Grows runCall holds :=
  fun here => lays_bind (hrule here) fun answer _ last _ => hnext answer last

theorem grows_ite {condition : Prop} [Decidable condition] {left right : Rule α} (hleft : left.Grows runCall holds)
    (hright : right.Grows runCall holds) : (if condition then left else right).Grows runCall holds :=
  fun here => lays_ite (fun _ => hleft here) fun _ => hright here

theorem grows_ofStep (step : Step α) : (ofStep step).Grows runCall holds := by
  intro here
  cases hmove : step.isMove with
  | false => exact (lays_still step hmove).mono fun _ _ _ _ => trivial
  | true =>
    cases step with
    | advance => exact lays_advance.mono fun _ _ _ _ => trivial
    | _ => exact nomatch hmove

/-! ### Nodes -/

/-- A node takes the row that its inner rule lays. -/
theorem lays_node {kind : Kind} {inner : Rule Unit} {shape : List Tree → Prop}
    (hinner : inner.Lays runCall holds here fun _ more _ => shape more)
    (hholds : ∀ tree row, tree.BuiltOf kind row → shape row → holds tree) :
    (Grammar.node kind inner).Lays runCall holds here fun _ more _ => ∃ children, more = [node kind children] := by
  intro older row state answer after hlaid hhere hexec
  obtain ⟨stop, hstop, rfl⟩ := exec_node_ok hexec
  have hstart : ({ state.placePending with placed := [] } : State).Laid holds [] [] :=
    .fresh (List.forall_mem_nil _) rfl
  obtain ⟨more, hend, hshape⟩ := hinner [] [] _ _ stop hstart hhere hstop
  obtain ⟨laid, hplaced, hitems, hthroughout⟩ := hend.placed
  rw [List.append_nil] at hplaced
  rw [List.nil_append] at hitems
  have htree : (node kind stop.placed.reverse).Throughout holds := by
    refine throughout_node (hholds _ more ⟨_, rfl, hplaced ▸ hitems⟩ hshape) fun child hmem => ?_
    exact hthroughout child (hplaced ▸ List.mem_reverse.mp hmem)
  obtain ⟨before, hbefore, hrow, hold⟩ := hlaid.placePending.placed
  refine ⟨[node kind stop.placed.reverse], ⟨hend.clean, node kind stop.placed.reverse :: before, ?_, ?_, ?_⟩, _, rfl⟩
  · rw [hbefore, List.cons_append]
  · rw [List.reverse_cons, items_append, hrow]
    rfl
  · exact List.forall_mem_cons.mpr ⟨htree, hold⟩

end Rule

end Squirrel
