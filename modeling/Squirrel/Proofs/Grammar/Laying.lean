import Squirrel.Proofs.Grammar.Plain
import Squirrel.Proofs.Parse.Laying
import Squirrel.Proofs.View.Side

/-!
# What the rules of the grammar lay

The small rules lay what their names say, or nothing where that is missing. An expression is laid as one node or not at
all, and every other nonterminal lays something on top of what is there.
-/

namespace Squirrel

open Squirrel.Tree

/-- A node with at most one operand has no sides to keep. -/
theorem Tree.keepsSides_of_plain {kind : Kind} (hkind : kind.hasSides = false) (children : List Tree) :
    (node kind children).KeepsSides := by
  refine keepsSides_of_nil ?_
  rw [operands, asExpression?]
  cases kind <;> first | rfl | cases hkind

/-! ### Nodes around what has been laid -/

namespace State.Laid

variable {holds : Tree → Prop} {older row more : List Tree} {state after : State}

/-- What is laid from here on comes on top of all that is there. -/
theorem restart (hlaid : state.Laid holds older row) : state.Laid holds state.placed [] :=
  .fresh hlaid.clean rfl

theorem join (hlaid : state.Laid holds older row) (hafter : after.Laid holds state.placed more) :
    after.Laid holds older (row ++ more) := by
  obtain ⟨first, hfirst, rfl, hold⟩ := hlaid.placed
  obtain ⟨second, hsecond, rfl, hnew⟩ := hafter.placed
  refine ⟨hafter.clean, second ++ first, by rw [hsecond, hfirst, List.append_assoc], ?_, ?_⟩
  · rw [List.reverse_append, items_append]
  · exact List.forall_mem_append.mpr ⟨hnew, hold⟩

/-- A node takes the last part of the row, and its inner rule goes on with that. -/
theorem exec_nodeFrom {runCall : Nonterminal → State → Except Fault State} {kind : Kind} {start : Nat}
    {inner : Rule Unit}
    (hlaid : state.Laid holds older row) (hstart : older.length ≤ start)
    (hexec : (Grammar.nodeFrom start kind inner).exec runCall state = .ok ((), after)) :
    ∃ front back since stop, row = front ++ back ∧ (start = older.length → front = []) ∧ since.Laid holds [] back ∧
      State.kindOf since.ahead = State.kindOf state.ahead ∧ inner.exec runCall since = .ok ((), stop) ∧
      ∀ inside, stop.Laid holds [] inside → (∀ tree, tree.BuiltOf kind inside → holds tree) →
        ∃ children, after.Laid holds older (front ++ [node kind children]) := by
  obtain ⟨laid, hplaced, rfl, hthroughout⟩ := hlaid.placed
  obtain ⟨stop, hstop, rfl⟩ := Rule.exec_nodeFrom_ok hexec
  generalize hcount : state.placed.length - start = count at hstop
  have hcountLe : count ≤ laid.length := by
    rw [← hcount, hplaced, List.length_append]
    omega
  have htake : state.placed.take count = laid.take count := by rw [hplaced, List.take_append_of_le_length hcountLe]
  have hdrop : state.placed.drop count = laid.drop count ++ older := by
    rw [hplaced, List.drop_append_of_le_length hcountLe]
  have hsplit : items laid.reverse = items (laid.drop count).reverse ++ items (laid.take count).reverse := by
    rw [← items_append, ← List.reverse_append, List.take_append_drop]
  refine ⟨_, _, { state with placed := state.placed.take count }, stop, hsplit, fun hall => ?_,
    ⟨hlaid.clean, laid.take count, ?_, rfl, ?_⟩, rfl, hstop, ?_⟩
  · have hwhole : laid.length ≤ count := by
      rw [← hcount, hplaced, List.length_append, hall]
      omega
    rw [List.drop_eq_nil_of_le hwhole]
    rfl
  · rw [List.append_nil, htake]
  · exact fun tree hmem => hthroughout tree (List.mem_of_mem_take hmem)
  · intro inside hinside hholds
    obtain ⟨within, hwithin, rfl, hnew⟩ := hinside.placed
    rw [List.append_nil] at hwithin
    refine ⟨stop.placed.reverse, hinside.clean, node kind stop.placed.reverse :: laid.drop count, ?_, ?_, ?_⟩
    · rw [hdrop, List.cons_append]
    · rw [List.reverse_cons, items_append]
      rfl
    · refine List.forall_mem_cons.mpr ⟨?_, fun tree hmem => hthroughout tree (List.mem_of_mem_drop hmem)⟩
      refine throughout_node (hholds _ ⟨_, rfl, by rw [hwithin]⟩) fun child hmem => ?_
      exact hnew child (hwithin ▸ List.mem_reverse.mp hmem)

end State.Laid

/-! ### Calls -/

/-- Calls that lay what the grammar expects of them: at most one node for an expression, one in place of another for its
operators, and something for every other nonterminal. -/
structure LayingCalls (runCall : Nonterminal → State → Except Fault State) : Prop where
  expression : ∀ power tableAllowed older row state after, State.Laid Tree.KeepsSides older row state →
    runCall (.expression power tableAllowed) state = .ok after →
    ∃ more, after.Laid Tree.KeepsSides older (row ++ more) ∧ AtMostNode more
  operators : ∀ start power older row state after, older.length = start → AtMostNode row →
    State.Laid Tree.KeepsSides older row state → runCall (.operators start power) state = .ok after →
    ∃ operation, after.Laid Tree.KeepsSides older operation ∧ AtMostNode operation
  other : ∀ nonterminal older row state after, nonterminal.goesOn = false → State.Laid Tree.KeepsSides older row state →
    runCall nonterminal state = .ok after → ∃ more, after.Laid Tree.KeepsSides older (row ++ more)

namespace Rule

variable {runCall : Nonterminal → State → Except Fault State} {α : Type}

/-- What is plain lays trees that keep to their sides, whatever it lays. -/
theorem Plain.laid (hcalls : LayingCalls runCall) {rule : Rule α} {base : Nat} {ended : α → Prop}
    (hplain : rule.Plain base ended) {older row : List Tree} {state after : State} {answer : α}
    (hbase : older.length = base) (hlaid : state.Laid Tree.KeepsSides older row)
    (hexec : rule.exec runCall state = .ok (answer, after)) : ∃ others, after.Laid Tree.KeepsSides older others := by
  induction rule generalizing base older row state after with
  | done found =>
    obtain ⟨rfl, rfl⟩ := Prod.mk.inj (Except.ok.inj hexec)
    exact ⟨row, hlaid⟩
  | step s rest ih =>
    obtain ⟨found, between, hrun, hexec⟩ := exec_step_ok hexec
    have hmarks : s.Marks base found := by
      cases s <;> try trivial
      obtain rfl := (Prod.mk.inj (Except.ok.inj hrun)).1
      obtain ⟨laid, hplaced, -⟩ := hlaid.placePending.placed
      rw [Step.Marks, hplaced, List.length_append, hbase]
      exact Nat.le_add_left ..
    have hstep : (ofStep s).exec runCall state = .ok (found, between) := by simp only [ofStep, exec, hrun]
    obtain ⟨more, hbetween, -⟩ := grows_ofStep s _ older row state found between hlaid rfl hstep
    exact ih found (hplain found hmarks) hbase hbetween hexec
  | wrap kind start inner rest ihinner ih =>
    obtain ⟨hstart, hkind, hinner, hrest⟩ := hplain
    have hparts : wrap kind start inner rest = Grammar.nodeFrom start kind inner >>= fun _ => rest := rfl
    rw [hparts] at hexec
    obtain ⟨⟨⟩, between, hnode, hexec⟩ := exec_bind_ok hexec
    obtain ⟨front, back, since, stop, -, -, hsince, -, hexecInner, hbuild⟩ := hlaid.exec_nodeFrom (hbase ▸ hstart) hnode
    obtain ⟨inside, hinside⟩ := ihinner hinner rfl hsince hexecInner
    obtain ⟨children, hbetween⟩ := hbuild inside hinside fun tree hbuilt => by
      obtain ⟨children, rfl, -⟩ := hbuilt
      exact keepsSides_of_plain hkind children
    exact ih hrest hbase hbetween hexec
  | call nonterminal rest ih =>
    obtain ⟨between, hcall, hexec⟩ := exec_call_ok hexec
    obtain ⟨more, hbetween⟩ := hcalls.other nonterminal older row state between hplain.1 hlaid hcall
    exact ih hplain.2 hbase hbetween hexec

theorem Plain.grows (hcalls : LayingCalls runCall) {rule : Rule α} (hplain : ∀ base, rule.Plain base fun _ => True) :
    rule.Grows runCall Tree.KeepsSides := by
  intro here older row state answer after hlaid _ hexec
  obtain ⟨more, hafter⟩ := (hplain _).laid hcalls rfl hlaid.restart hexec
  exact ⟨more, hlaid.join hafter, trivial⟩

end Rule

namespace Grammar

open Rule

/-! ### Words -/

section

variable {runCall : Nonterminal → State → Except Fault State} {holds : Tree → Prop} {here kind : Kind}

/-- A word of a kind, or nothing if it was not there. -/
def Taken (kind : Kind) (found : Bool) (row : List Tree) : Prop :=
  if found then ∃ leaf : Leaf, leaf.kind = kind ∧ row = [token leaf] else row = []

theorem Taken.atMostWord {found : Bool} {row : List Tree} (htaken : Taken kind found row) : AtMostWord row := by
  cases found with
  | true =>
    obtain ⟨leaf, -, rfl⟩ := htaken
    exact .inr ⟨leaf, rfl⟩
  | false => exact .inl htaken

theorem lays_currentIs : (currentIs kind).Lays runCall holds here fun found more last =>
    more = [] ∧ found = (last == kind) ∧ last.isTrivia = false ∧ (here.isTrivia = false → last = here) := by
  refine lays_bind lays_current fun found more last hlooked => ?_
  obtain ⟨rfl, rfl, hword, hhere⟩ := hlooked
  exact lays_pure ⟨rfl, rfl, hword, hhere⟩

/-- A word that is next stays next unless it is taken. -/
theorem lays_eat : (eat kind).Lays runCall holds here fun found more last =>
    Taken kind found more ∧ (here.isTrivia = false → found = (here == kind) ∧ (found = false → last = here)) := by
  refine lays_bind lays_currentIs fun found more last hlooked => ?_
  obtain ⟨rfl, rfl, hword, hhere⟩ := hlooked
  refine lays_ite (fun hkind => ?_) fun hkind => lays_pure ⟨rfl, fun hword => ?_⟩
  · refine lays_bind (lays_advanceWord hword) fun _ more _ hmore => lays_pure ?_
    obtain ⟨leaf, hleaf, rfl⟩ := hmore
    refine ⟨⟨leaf, hleaf.trans (beq_iff_eq.mp hkind), rfl⟩, fun hnext => ⟨?_, nofun⟩⟩
    rw [← hhere hnext, hkind]
  · rw [← hhere hword]
    exact ⟨(Bool.eq_false_iff.mpr hkind).symm, fun _ => rfl⟩

theorem lays_expect {what : String} : (expect kind what).Lays runCall holds here fun found more _ =>
    Taken kind found more ∧ (here.isTrivia = false → found = (here == kind)) := by
  refine lays_bind lays_eat fun found more last heaten => ?_
  obtain ⟨htaken, hhere⟩ := heaten
  refine lays_ite (fun htrue => lays_pure ?_) fun hfalse => ?_
  · obtain rfl := htrue
    rw [List.append_nil]
    exact ⟨htaken, fun hword => (hhere hword).1⟩
  · obtain rfl := Bool.eq_false_iff.mpr hfalse
    obtain rfl : more = [] := htaken
    refine lays_bind (lays_still .currentSpan rfl) fun span first _ hfirst => ?_
    refine lays_bind (lays_still .atEnd rfl) fun ended second _ hsecond => ?_
    refine lays_bind (lays_still _ rfl) fun _ third _ hthird => lays_pure ?_
    rw [hfirst.1, hsecond.1, hthird.1]
    exact ⟨rfl, fun hword => (hhere hword).1⟩

theorem lays_reportHere {problem : DiagnosticKind} {detail : Option String} :
    (reportHere problem detail).Lays runCall holds here fun _ more _ => more = [] := by
  refine lays_bind (lays_still .currentSpan rfl) fun span first _ hfirst => ?_
  refine lays_bind (lays_still .atEnd rfl) fun ended second _ hsecond => ?_
  refine (lays_still _ rfl).mono fun _ third _ hthird => ?_
  rw [hfirst.1, hsecond.1, hthird.1]
  rfl

theorem lays_openDelimiter (hword : here.isTrivia = false) :
    (openDelimiter kind).Lays runCall holds here fun _ more _ => ∃ leaf : Leaf, leaf.kind = here ∧ more = [token leaf] := by
  refine lays_bind (lays_still .currentSpan rfl) fun span first next hfirst => ?_
  refine lays_bind (lays_still _ rfl) fun _ second last hsecond => ?_
  obtain ⟨rfl, hnext⟩ := hfirst
  obtain ⟨rfl, hlast⟩ := hsecond
  obtain rfl := hnext hword
  obtain rfl := hlast hword
  exact lays_advanceWord hword

theorem lays_closeDelimiter {construct : String} :
    (closeDelimiter kind construct).Lays runCall holds here fun _ more _ => AtMostWord more := by
  refine lays_bind (lays_still .popOpener rfl) fun opener? first _ hfirst => ?_
  obtain ⟨rfl, -⟩ := hfirst
  refine lays_bind lays_eat fun found more _ heaten => lays_ite (fun _ => lays_pure ?_) fun hfalse => ?_
  · rw [List.append_nil]
    exact heaten.1.atMostWord
  · obtain rfl := Bool.eq_false_iff.mpr hfalse
    obtain rfl : more = [] := heaten.1
    refine lays_bind (lays_still .atEnd rfl) fun ended second _ hsecond => ?_
    obtain ⟨rfl, -⟩ := hsecond
    split
    · refine lays_bind (lays_still .currentSpan rfl) fun span third _ hthird => ?_
      refine (lays_still _ rfl).mono fun _ fourth _ hfourth => ?_
      rw [hthird.1, hfourth.1]
      exact .inl rfl
    · refine lays_bind lays_expect fun found more _ hfound => lays_pure ?_
      rw [List.append_nil]
      exact hfound.1.atMostWord

/-- A sign, and what it announces. -/
theorem lays_announced {what : String} {value : Rule Unit}
    (hvalue : ∀ here, value.Lays runCall holds here fun _ more _ => AtMostNode more) :
    (do if ← expect kind what then value : Rule Unit).Lays runCall holds here fun _ more _ => Announced kind more := by
  refine lays_bind lays_expect fun found more last hfound => lays_ite (fun htrue => ?_) fun hfalse => lays_pure ?_
  · obtain rfl := htrue
    obtain ⟨sign, hsign, rfl⟩ := hfound.1
    exact (hvalue last).mono fun _ value _ hvalue => .inr ⟨sign, value, hsign, hvalue, rfl⟩
  · obtain rfl := Bool.eq_false_iff.mpr hfalse
    obtain rfl : more = [] := hfound.1
    exact .inl rfl

end

end Grammar

end Squirrel
