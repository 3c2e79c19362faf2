import Squirrel.Script

/-!
# Laws of runs

How the machine runs rules that are put together, and the one induction behind every fact that each step of a parse
keeps: a relation between the state before and the state after that holds of every step, and that closing a node does
not break, holds of every run of every nonterminal.
-/

namespace Squirrel

namespace Rule

variable {runCall : Nonterminal → State → Except Fault State} {α β : Type}

attribute [local grind =] exec

theorem bind_eq (rule : Rule α) (next : α → Rule β) : rule >>= next = rule.bind next := rfl

theorem exec_bind (rule : Rule α) (next : α → Rule β) (state : State) :
    exec runCall (rule >>= next) state
      = match exec runCall rule state with
        | .error fault => .error fault
        | .ok (answer, after) => exec runCall (next answer) after := by
  rw [bind_eq]
  induction rule generalizing state with
  | done answer => rfl
  | step s rest ih =>
    simp only [bind, exec]
    cases s.run state with
    | error fault => rfl
    | ok result => exact ih result.1 next result.2
  | wrap kind start inner rest ihinner ih =>
    simp only [bind, exec]
    split
    · rfl
    · exact ih next _
  | call nonterminal rest ih =>
    simp only [bind, exec]
    cases runCall nonterminal state with
    | error fault => rfl
    | ok after => exact ih next after

theorem exec_bind_ok {rule : Rule α} {next : α → Rule β} {state after : State} {answer : β}
    (hexec : exec runCall (rule >>= next) state = .ok (answer, after)) :
    ∃ first between, exec runCall rule state = .ok (first, between) ∧
      exec runCall (next first) between = .ok (answer, after) := by
  rw [exec_bind] at hexec
  split at hexec
  · simp at hexec
  · next first between hfirst => exact ⟨first, between, hfirst, hexec⟩

/-! ### What a run that ends has gone through -/

theorem exec_step_ok {s : Step β} {rest : β → Rule α} {state : State} {result : α × State}
    (hexec : exec runCall (step s rest) state = .ok result) :
    ∃ found between, s.run state = .ok (found, between) ∧ exec runCall (rest found) between = .ok result := by
  simp only [exec] at hexec
  split at hexec
  · simp at hexec
  · next found between hrun => exact ⟨found, between, hrun, hexec⟩

theorem exec_wrap_ok {kind : Kind} {start : Nat} {inner : Rule Unit} {rest : Rule α} {state : State} {result : α × State}
    (hexec : exec runCall (wrap kind start inner rest) state = .ok result) :
    ∃ stop, exec runCall inner { state with placed := state.placed.take (state.placed.length - start) } = .ok ((), stop) ∧
      exec runCall rest { stop with
        placed := .node kind stop.placed.reverse :: state.placed.drop (state.placed.length - start) } = .ok result := by
  simp only [exec] at hexec
  split at hexec
  · simp at hexec
  · next stop hinner => exact ⟨stop, hinner, hexec⟩

theorem exec_call_ok {nonterminal : Nonterminal} {rest : Rule α} {state : State} {result : α × State}
    (hexec : exec runCall (call nonterminal rest) state = .ok result) :
    ∃ between, runCall nonterminal state = .ok between ∧ exec runCall rest between = .ok result := by
  simp only [exec] at hexec
  split at hexec
  · simp at hexec
  · next between hcall => exact ⟨between, hcall, hexec⟩

theorem run_of_exec_ofStep {s : Step α} {state after : State} {answer : α}
    (hexec : exec runCall (ofStep s) state = .ok (answer, after)) : s.run state = .ok (answer, after) := by
  obtain ⟨found, between, hrun, hdone⟩ := exec_step_ok hexec
  exact hrun.trans hdone

theorem run_of_exec_call {nonterminal : Nonterminal} {state after : State}
    (hexec : exec runCall (Grammar.call nonterminal) state = .ok ((), after)) : runCall nonterminal state = .ok after := by
  obtain ⟨between, hcall, hdone⟩ := exec_call_ok hexec
  obtain ⟨-, rfl⟩ := Prod.mk.inj (Except.ok.inj hdone)
  exact hcall

theorem exec_nodeFrom_ok {kind : Kind} {start : Nat} {inner : Rule Unit} {state after : State} {answer : Unit}
    (hexec : exec runCall (Grammar.nodeFrom start kind inner) state = .ok (answer, after)) :
    ∃ stop, exec runCall inner { state with placed := state.placed.take (state.placed.length - start) } = .ok ((), stop) ∧
      after = { stop with
        placed := .node kind stop.placed.reverse :: state.placed.drop (state.placed.length - start) } := by
  obtain ⟨stop, hinner, hdone⟩ := exec_wrap_ok hexec
  exact ⟨stop, hinner, (Prod.mk.inj (Except.ok.inj hdone)).2.symm⟩

/-- A node takes all that its inner rule places. -/
theorem exec_node_ok {kind : Kind} {inner : Rule Unit} {state after : State} {answer : Unit}
    (hexec : exec runCall (Grammar.node kind inner) state = .ok (answer, after)) :
    ∃ stop, exec runCall inner { state.placePending with placed := [] } = .ok ((), stop) ∧
      after = { stop with placed := .node kind stop.placed.reverse :: state.placePending.placed } := by
  obtain ⟨start, marked, hmark, hnode⟩ := exec_bind_ok hexec
  obtain ⟨rfl, rfl⟩ := Prod.mk.inj (Except.ok.inj (run_of_exec_ofStep hmark))
  obtain ⟨stop, hinner, rfl⟩ := exec_nodeFrom_ok hnode
  simp only [Nat.sub_self, List.take_zero, List.drop_zero] at hinner ⊢
  exact ⟨stop, hinner, rfl⟩

theorem exec_of_run {bound : Nat} {nonterminal : Nonterminal} {state after : State}
    (hrun : nonterminal.run (bound + 1) state = .ok after) :
    exec (Nonterminal.run bound) (Grammar.ruleOf nonterminal) state = .ok ((), after) := by
  rw [Nonterminal.run] at hrun
  split at hrun
  · simp at hrun
  · next found hexec =>
    obtain rfl := Except.ok.inj hrun
    exact hexec

/-! ### What every run keeps -/

/-- A relation from the state before to the state after that every step keeps, also inside a node that is still open. -/
structure Kept (relation : State → State → Prop) : Prop where
  refl : ∀ state, relation state state
  trans : ∀ {first second third}, relation first second → relation second third → relation first third
  step : ∀ {γ : Type} (s : Step γ) {state after : State} {answer : γ},
    s.run state = .ok (answer, after) → relation state after
  wrap : ∀ (kind : Kind) (since : Nat) {state after : State},
    relation { state with placed := state.placed.take since } after →
      relation state { after with placed := .node kind after.placed.reverse :: state.placed.drop since }

theorem Kept.exec {relation : State → State → Prop} (hkept : Kept relation)
    (hcalls : ∀ nonterminal state after, runCall nonterminal state = .ok after → relation state after)
    {rule : Rule α} {state after : State} {answer : α}
    (hexec : Rule.exec runCall rule state = .ok (answer, after)) : relation state after := by
  induction rule generalizing state after with
  | done found =>
    simp only [Rule.exec, Except.ok.injEq, Prod.mk.injEq] at hexec
    exact hexec.2 ▸ hkept.refl state
  | step s rest ih =>
    obtain ⟨found, between, hstep, hexec⟩ := exec_step_ok hexec
    exact hkept.trans (hkept.step s hstep) (ih found hexec)
  | wrap kind start inner rest ihinner ih =>
    obtain ⟨between, hinner, hexec⟩ := exec_wrap_ok hexec
    exact hkept.trans (hkept.wrap kind _ (ihinner hinner)) (ih hexec)
  | call nonterminal rest ih =>
    obtain ⟨between, hcall, hexec⟩ := exec_call_ok hexec
    exact hkept.trans (hcalls nonterminal state between hcall) (ih hexec)

theorem Kept.run {relation : State → State → Prop} (hkept : Kept relation) (bound : Nat) :
    ∀ (nonterminal : Nonterminal) (state after : State),
      nonterminal.run bound state = .ok after → relation state after := by
  induction bound with
  | zero =>
    intro nonterminal state after hrun
    simp [Nonterminal.run] at hrun
  | succ bound ih =>
    intro nonterminal state after hrun
    exact hkept.exec ih (exec_of_run hrun)

/-! ### More nonterminals open at once -/

theorem exec_of_calls {fewer more : Nonterminal → State → Except Fault State}
    (hcalls : ∀ nonterminal state after, fewer nonterminal state = .ok after → more nonterminal state = .ok after)
    {rule : Rule α} {state : State} {found : α × State} (hexec : rule.exec fewer state = .ok found) :
    rule.exec more state = .ok found := by
  induction rule generalizing state with
  | done answer => exact hexec
  | step s rest ih =>
    obtain ⟨answer, between, hstep, hexec⟩ := exec_step_ok hexec
    simp only [exec, hstep]
    exact ih answer hexec
  | wrap kind start inner rest ihinner ih =>
    obtain ⟨between, hinner, hexec⟩ := exec_wrap_ok hexec
    simp only [exec, ihinner hinner]
    exact ih hexec
  | call nonterminal rest ih =>
    obtain ⟨between, hcall, hexec⟩ := exec_call_ok hexec
    simp only [exec, hcalls nonterminal state between hcall]
    exact ih hexec

end Rule

/-- A run that ends without a fault is the same run if more nonterminals may be open at once. -/
theorem Nonterminal.run_of_le {fewer more : Nat} (hle : fewer ≤ more) {nonterminal : Nonterminal} {state after : State}
    (hrun : nonterminal.run fewer state = .ok after) : nonterminal.run more state = .ok after := by
  induction fewer generalizing more nonterminal state after with
  | zero => exact nomatch hrun
  | succ fewer ih =>
    obtain ⟨more, rfl⟩ := Nat.exists_eq_add_of_le hle
    rw [Nat.add_right_comm, run,
      Rule.exec_of_calls (fun _ _ _ hcall => ih (Nat.le_add_right _ _) hcall) (Rule.exec_of_run hrun)]

/-! ### Whole parses -/

theorem parseTokens_ok {limits : Limits} {sourceLength : Nat} {lexed : Lexed} {parsed : Parsed}
    (hparse : parseTokens limits sourceLength lexed = .ok parsed) :
    ∃ after, Nonterminal.run (nestingBound lexed.tokens.length) .script (State.initial limits lexed.tokens sourceLength)
        = .ok after ∧ after.exceeded? = none ∧
      parsed = {
        root := .node .script after.passTrivia.placePending.placed.reverse
        diagnostics := Diagnostic.sorted (lexed.diagnostics ++ after.passTrivia.placePending.reports.reverse)
        stepsTaken := limits.steps?.getD 0 - after.passTrivia.placePending.stepsLeft?.getD 0 } := by
  rw [parseTokens] at hparse
  split at hparse
  · simp at hparse
  · next after hrun =>
    split at hparse
    · simp at hparse
    · next hwithin => exact ⟨after, hrun, hwithin, (Except.ok.inj hparse).symm⟩

theorem Script.parse_ok {source : String} {limits : Limits} {script : Script}
    (hparse : Script.parse source limits = .ok script) :
    ∃ parsed, parseTokens limits source.utf8ByteSize (Lexed.ofSource source) = .ok parsed ∧
      script = ⟨source, parsed.root, parsed.diagnostics, parsed.stepsTaken⟩ := by
  rw [Script.parse] at hparse
  split at hparse
  · simp at hparse
  · next parsed hparsed => exact ⟨parsed, hparsed, (Except.ok.inj hparse).symm⟩

end Squirrel
