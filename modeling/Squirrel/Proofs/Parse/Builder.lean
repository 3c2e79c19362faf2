import Squirrel.Build.Machine
import Squirrel.Proofs.Parse.Run

/-!
# Rules as routines

The machine holds an open node where it runs the rule inside of it, so that no rule gets to close the node of another. A
rule is made flat by opening and closing its nodes with steps of their own. What is built so is what the machine builds,
and it leaves the stack of open nodes as it was: a routine that is a flat rule has closed what it has opened.
-/

namespace Squirrel

/-! ### Routines that are put together -/

namespace Routine

variable {α β γ : Type}

theorem bind_eq (routine : Routine α) (next : α → Routine β) : routine >>= next = routine.bind next := rfl

theorem bind_done (routine : Routine α) : routine.bind done = routine := by
  induction routine with
  | done answer => rfl
  | step s rest ih => exact congrArg (step s) (funext ih)
  | start kind mark rest ih => exact congrArg (start kind mark) ih
  | finish rest ih => exact congrArg finish ih
  | call nonterminal rest ih => exact congrArg (call nonterminal) ih

theorem bind_bind (routine : Routine α) (next : α → Routine β) (last : β → Routine γ) :
    (routine.bind next).bind last = routine.bind fun answer => (next answer).bind last := by
  induction routine with
  | done answer => rfl
  | step s rest ih => exact congrArg (step s) (funext fun answer => ih answer)
  | start kind mark rest ih => exact congrArg (start kind mark) ih
  | finish rest ih => exact congrArg finish ih
  | call nonterminal rest ih => exact congrArg (call nonterminal) ih

instance : LawfulMonad Routine := LawfulMonad.mk' Routine bind_done (fun _ _ => rfl) bind_bind

theorem ofRule_bind (rule : Rule α) (next : α → Rule β) :
    ofRule (rule.bind next) = (ofRule rule).bind fun answer => ofRule (next answer) := by
  induction rule with
  | done answer => rfl
  | step s rest ih => exact congrArg (step s) (funext fun answer => ih answer next)
  | wrap kind start inner rest _ ih => exact ih next
  | call nonterminal rest ih => exact congrArg (call nonterminal) (ih next)

instance : LawfulMonadLift Rule Routine where
  monadLift_pure _ := rfl
  monadLift_bind := ofRule_bind

@[simp] theorem ite_bind (condition : Prop) [Decidable condition] (left right : Routine α) (next : α → Routine β) :
    (if condition then left else right) >>= next = if condition then left >>= next else right >>= next := by
  split <;> rfl

@[simp] theorem ite_eq_false (condition : Bool) (left right : Routine α) :
    (if condition = false then left else right) = if condition = true then right else left := by
  cases condition <;> rfl

@[simp] theorem lift_ite (condition : Prop) [Decidable condition] (left right : Rule α) :
    (liftM (if condition then left else right) : Routine α) = if condition then liftM left else liftM right := by
  split <;> rfl

@[simp] theorem lift_orM (left right : Rule Bool) :
    (liftM (left <||> right) : Routine Bool) = (liftM left <||> liftM right) := by
  refine (liftM_bind left _).trans (congrArg _ (funext fun answer => ?_))
  cases answer <;> rfl

theorem build_bind (buildCall : Nonterminal → Site → Except BuildError (Unit × Site)) (routine : Routine α)
    (next : α → Routine β) (site : Site) :
    (routine.bind next).build buildCall site
      = routine.build buildCall site >>= fun after => (next after.1).build buildCall after.2 := by
  induction routine generalizing site with
  | done answer => rfl
  | step s rest ih =>
    simp only [bind, build]
    cases s.run site.state with
    | error fault => rfl
    | ok found => exact ih found.1 ⟨found.2, site.nodes⟩
  | start kind mark rest ih =>
    simp only [bind, build]
    cases site.openAt kind mark with
    | error error => rfl
    | ok opened => exact ih opened
  | finish rest ih =>
    simp only [bind, build]
    cases site.close with
    | error error => rfl
    | ok closed => exact ih closed
  | call nonterminal rest ih =>
    simp only [bind, build]
    cases buildCall nonterminal site with
    | error error => rfl
    | ok after => exact ih after.2

end Routine

/-! ### Flat rules -/

namespace Rule

variable {α β : Type}

/-- The routine that opens and closes a node where a rule has one. -/
def flat {α : Type} : Rule α → Routine α
  | done answer => .done answer
  | step s rest => .step s fun answer => (rest answer).flat
  | wrap kind start inner rest => .start kind start (inner.flat.bind fun _ => .finish rest.flat)
  | call nonterminal rest => .call nonterminal rest.flat

@[simp] theorem flat_bind (rule : Rule α) (next : α → Rule β) :
    (rule >>= next).flat = rule.flat >>= fun answer => (next answer).flat := by
  show (rule.bind next).flat = rule.flat.bind fun answer => (next answer).flat
  induction rule with
  | done answer => rfl
  | step s rest ih => exact congrArg (Routine.step s) (funext fun answer => ih answer next)
  | wrap kind start inner rest _ ih => simp only [Rule.bind, flat, Routine.bind, Routine.bind_bind, ih]
  | call nonterminal rest ih => exact congrArg (Routine.call nonterminal) (ih next)

@[simp] theorem flat_pure (answer : α) : (pure answer : Rule α).flat = pure answer := rfl

@[simp] theorem flat_ofStep (s : Step α) : (ofStep s).flat = liftM (ofStep s) := rfl

@[simp] theorem flat_map (f : α → β) (rule : Rule α) : (f <$> rule).flat = f <$> rule.flat := flat_bind ..

@[simp] theorem flat_ite (condition : Prop) [Decidable condition] (left right : Rule α) :
    (if condition then left else right).flat = if condition then left.flat else right.flat := by
  split <;> rfl

@[simp] theorem flat_orM (left right : Rule Bool) : (left <||> right).flat = (left.flat <||> right.flat) := by
  refine (flat_bind ..).trans (congrArg _ (funext fun answer => ?_))
  cases answer <;> rfl

@[simp] theorem flat_andM (left right : Rule Bool) : (left <&&> right).flat = (left.flat <&&> right.flat) := by
  refine (flat_bind ..).trans (congrArg _ (funext fun answer => ?_))
  cases answer <;> rfl

end Rule

/-! ### The same trees -/

namespace Site

variable {site opened : Site} {kind : Kind} {start : Nat}

theorem openAt_ok (hopen : site.openAt kind start = .ok opened) :
    start ≤ site.state.placed.length ∧ opened = site.opened kind start := by
  rw [openAt] at hopen
  split at hopen
  · next hstart => exact ⟨hstart, (Except.ok.inj hopen).symm⟩
  · cases hopen

theorem openAt_error {error : BuildError} (hopen : site.openAt kind start = .error error) :
    site.state.placed.length < start ∧ error = .staleMark := by
  rw [openAt] at hopen
  split at hopen
  · cases hopen
  · next hstart => exact ⟨Nat.lt_of_not_le hstart, (Except.error.inj hopen).symm⟩

theorem close_of_nodes {node : OpenNode} {outer : List OpenNode} (hnodes : site.nodes = node :: outer) :
    site.close
      = .ok ⟨{ site.state with placed := .node node.kind site.state.placed.reverse :: node.older }, outer⟩ := by
  rw [close, hnodes]

end Site

/-- What is built agrees with what the machine comes to: it is the same, with the given nodes open, or the same fault. Only
a mark may be refused that the machine takes for the end of what has been placed. -/
def BuiltAs {α : Type} (nodes : List OpenNode) (ran : Except Fault (α × State)) : Except BuildError (α × Site) → Prop
  | .ok (answer, after) => ran = .ok (answer, after.state) ∧ after.nodes = nodes
  | .error (.fault fault) => ran = .error fault
  | .error .staleMark => True
  | .error _ => False

namespace Rule

variable {runCall : Nonterminal → State → Except Fault State}
  {buildCall : Nonterminal → Site → Except BuildError (Unit × Site)} {α : Type}

theorem exec_wrap_eq_bind (kind : Kind) (start : Nat) (inner : Rule Unit) (rest : Rule α) (state : State) :
    (wrap kind start inner rest).exec runCall state
      = inner.exec runCall { state with placed := state.placed.take (state.placed.length - start) } >>= fun stop =>
          rest.exec runCall { stop.2 with
            placed := .node kind stop.2.placed.reverse :: state.placed.drop (state.placed.length - start) } := by
  rw [exec]
  cases inner.exec runCall { state with placed := state.placed.take (state.placed.length - start) } <;> rfl

theorem exec_call_eq_bind (nonterminal : Nonterminal) (rest : Rule α) (state : State) :
    (call nonterminal rest).exec runCall state
      = (runCall nonterminal state).map ((), ·) >>= fun after => rest.exec runCall after.2 := by
  rw [exec]
  cases runCall nonterminal state <;> rfl

/-- A flat node is opened, and closed where its inner rule has come to. -/
theorem build_flat_wrap (kind : Kind) (start : Nat) (inner : Rule Unit) (rest : Rule α) (site : Site) :
    (wrap kind start inner rest).flat.build buildCall site
      = site.openAt kind start >>= fun opened => inner.flat.build buildCall opened >>= fun inside =>
          inside.2.close >>= fun closed => rest.flat.build buildCall closed := by
  simp only [flat, Routine.build, Routine.build_bind]

/-- Going on from what agrees, also with other nodes open. -/
theorem builtAs_bind {β γ : Type} {inside nodes : List OpenNode} {ran : Except Fault (γ × State)}
    {built : Except BuildError (γ × Site)} {run : γ × State → Except Fault (β × State)}
    {build : γ × Site → Except BuildError (β × Site)} (hbuilt : BuiltAs inside ran built)
    (hnext : ∀ answer (after : Site), after.nodes = inside →
      BuiltAs nodes (run (answer, after.state)) (build (answer, after))) :
    BuiltAs nodes (ran >>= run) (built >>= build) := by
  cases built with
  | ok found =>
    obtain ⟨rfl, hnodes⟩ := hbuilt
    exact hnext found.1 found.2 hnodes
  | error error =>
    cases error with
    | fault fault =>
      obtain rfl : ran = .error fault := hbuilt
      rfl
    | staleMark => trivial
    | limit | noneOpen | malformed => exact hbuilt.elim

/-- What a flat rule opens it closes, and nothing else. -/
theorem builtAs_flat (hcalls : ∀ (nonterminal : Nonterminal) (site : Site),
      BuiltAs site.nodes ((runCall nonterminal site.state).map ((), ·)) (buildCall nonterminal site))
    (rule : Rule α) (site : Site) :
    BuiltAs site.nodes (rule.exec runCall site.state) (rule.flat.build buildCall site) := by
  induction rule generalizing site with
  | done answer => exact ⟨rfl, rfl⟩
  | step s rest ih =>
    simp only [exec, flat, Routine.build]
    cases s.run site.state with
    | error fault => rfl
    | ok found => exact ih found.1 ⟨found.2, site.nodes⟩
  | wrap kind start inner rest ihinner ih =>
    rw [build_flat_wrap, exec_wrap_eq_bind]
    cases hopen : site.openAt kind start with
    | error error =>
      obtain ⟨-, rfl⟩ := Site.openAt_error hopen
      trivial
    | ok opened =>
      obtain ⟨-, rfl⟩ := Site.openAt_ok hopen
      refine builtAs_bind (ihinner _) fun _ inside hnodes => ?_
      rw [Site.close_of_nodes hnodes]
      exact ih ⟨_, site.nodes⟩
  | call nonterminal rest ih =>
    rw [exec_call_eq_bind]
    refine builtAs_bind (hcalls nonterminal site) fun _ after hnodes => ?_
    exact hnodes ▸ ih after

end Rule

end Squirrel
