import Squirrel.Proofs.Grammar.Progress.Definition
import Squirrel.Proofs.Grammar.Sound.Expression

/-!
# Where expressions lead

An operand that is found has passed a token, and so has every suffix; without an operand nothing here starts one.
-/

namespace Squirrel

namespace Grammar

open Rule

variable {room weight : Nat} {standing : Standing} {ended : Unit → Standing → Prop}

/-! ### Operands -/

/-- Whether an expression starts here; a table literal counts. -/
abbrev MeetsOperand (standing : Standing) : Prop :=
  TokenSet.expressionFirst.contains standing.here = true ∨ standing.here = .braceOpen

/-- What an operand may start with, if it is no literal. -/
def operandStarts : List Kind :=
  [.minus, .bang, .tilde, .kwTypeof, .plusPlus, .minusMinus, .parenOpen, .bracketOpen, .braceOpen, .id, .doubleColon,
    .atSign, .kwFunction, .kwClone, .kwDelete, .kwResume, .kwRawcall, .garbage]

theorem mem_operandStarts {kind : Kind} (hstarts : TokenSet.expressionFirst.contains kind = true ∨ kind = .braceOpen)
    (hnone : literalNode? kind = none) : kind ∈ operandStarts := by
  revert hstarts hnone
  cases kind <;> decide

theorem leads_prefixed (hready : standing.Ready room weight) (hsettled : standing.raw = standing.left)
    (hended : ∀ next, standing.Passes 0 next → ended () next) : prefixed.Leads room weight standing ended :=
  leads_node (.bind (leads_advance hsettled fun next _ => leads_callExpression (by omega) fun last _ _ _ =>
    hended last (by omega)))

theorem leads_keywordOperand {kind : Kind} (hready : standing.Ready room weight) (hsettled : standing.raw = standing.left)
    (hended : ∀ next, standing.Passes 0 next → ended () next) : (keywordOperand kind).Leads room weight standing ended :=
  leads_node (.bind (leads_advance hsettled fun next _ => leads_callExpression (by omega) fun last _ _ _ =>
    hended last (by omega)))

theorem leads_parenthesized (hready : standing.Ready room weight) (hended : ∀ next, standing.Passes 2 next → ended () next) :
    parenthesized.Leads room weight standing ended := by
  refine leads_node (.bind (leads_openDelimiter fun next _ => .bind (leads_callExpression (by omega) fun inner _ _ _ => ?_)))
  exact leads_closeDelimiter (by omega) (by omega) fun last _ _ => hended last (by omega)

theorem leads_lambda (hready : standing.Ready room weight) (hsettled : standing.raw = standing.left)
    (hended : ∀ next, standing.Passes 15 next → ended () next) : lambda.Leads room weight standing ended := by
  refine leads_node (.bind (leads_advance hsettled fun next _ => .bind ?_))
  refine leads_parameters (by omega) (by omega) fun inner _ => ?_
  exact leads_callExpression (by omega) fun last _ _ _ => hended last (by omega)

theorem leads_anonymousFunction (hready : standing.Ready room weight) (hsettled : standing.raw = standing.left)
    (hended : ∀ next, standing.Passes 16 next → ended () next) : anonymousFunction.Leads room weight standing ended := by
  refine leads_node (.bind (leads_advance hsettled fun next _ => .bind ?_))
  refine leads_parameters (by omega) (by omega) fun inner _ => ?_
  exact leads_body (by omega) (by omega) (by omega) fun last _ _ => hended last (by omega)

theorem leads_tableOperand {allowed : Bool} (hready : standing.Ready room weight)
    (hended : ∀ next, standing.Passes 12 next → ended () next) : (tableOperand allowed).Leads room weight standing ended := by
  refine leads_ite (fun _ => leads_table hready hended) fun _ => .bind (leads_reportHere fun next _ => leads_node ?_)
  exact leads_table (by omega) fun last _ => hended last (by omega)

theorem leads_operand {tableAllowed : Bool} {yes no : Standing → Prop} (hready : standing.Ready room weight)
    (hlooks : standing.spent + 2 ≤ room) (hyes : ∀ next, standing.Passes 16 next → yes next)
    (hno : ¬MeetsOperand standing → ∀ next, standing.Looked 1 next → no next) :
    (operand tableAllowed).Leads room weight standing (Answers yes no) := by
  have whole {rule : Rule Unit} {next : Standing} (hrule : rule.Leads room weight next fun _ => standing.Passes 16) :
      (rule >>= fun _ => (pure true : Rule Bool)).Leads room weight next (Answers yes no) :=
    leads_then _ hrule fun last hlast => leads_pure (hyes last hlast)
  refine .bind (leads_current (by omega) fun next hnext => ?_)
  split
  · refine .bind (leads_ofStep trivial fun answer last hlast => ?_)
    obtain ⟨hlooked, hpaired⟩ := hlast
    cases answer with
    | true =>
      refine whole (leads_negativeLiteral (by omega) ?_ fun there _ => by omega)
      exact hlooked.2.2.2.2.2.2.2.trans (hpaired rfl)
    | false => exact whole (leads_prefixed (by omega) (by omega) fun there _ => by omega)
  iterate 5 exact whole (leads_prefixed (by omega) (by omega) fun last _ => by omega)
  · exact whole (leads_parenthesized (by omega) fun last _ => by omega)
  · exact whole (leads_array (by omega) fun last _ => by omega)
  · exact whole (leads_tableOperand (by omega) fun last _ => by omega)
  · exact whole (leads_node (leads_advance (by omega) fun last _ => by omega))
  · refine whole (leads_node (.bind (leads_advance (by omega) fun last _ => leads_given ?_)))
    exact leads_expect (by omega) (fun _ there _ => leads_pure (by omega)) fun _ there _ => leads_pure (by omega)
  · exact whole (leads_lambda (by omega) (by omega) fun last _ => by omega)
  · exact whole (leads_anonymousFunction (by omega) (by omega) fun last _ => by omega)
  iterate 3 exact whole (leads_keywordOperand (by omega) (by omega) fun last _ => by omega)
  · refine whole (leads_node (.bind (leads_advance (by omega) fun last _ => ?_)))
    exact leads_callArguments (by omega) (by omega) (fun there _ => by omega) fun _ there _ _ => by omega
  · next hgarbage =>
    refine whole (leads_advanceGarbage (by omega) ?_ fun last _ => by omega)
    rw [hnext.here_eq, hgarbage]
    decide
  · refine leads_literal (by omega) (fun last _ => hyes last (by omega)) fun hnone => hno (fun hstarts => ?_) next hnext
    have hmem := mem_operandStarts hstarts hnone
    simp only [operandStarts, List.mem_cons, List.not_mem_nil, or_false] at hmem
    grind

/-! ### Suffixes -/

theorem leads_suffix {found : Suffix} (hready : standing.Ready room weight) (hsettled : standing.raw = standing.left)
    (hlooks : standing.spent + 2 ≤ room) (hcall : found = .call → standing.here = .parenOpen)
    (hended : ∀ next, standing.Passes 14 next → ended () next) : (suffix found).Leads room weight standing ended := by
  cases found with
  | member =>
    refine .bind (leads_advance hsettled fun next _ => leads_given (leads_expect (by omega) (fun _ last _ => ?_) fun _ last _ => ?_))
    · exact leads_pure (hended last (by omega))
    · exact leads_pure (hended last (by omega))
  | index =>
    refine .bind (leads_openDelimiter fun next _ => .bind (leads_callExpression (by omega) fun inner _ _ _ => ?_))
    exact leads_closeDelimiter (by omega) (by omega) fun last _ _ => hended last (by omega)
  | call => exact leads_callArguments hready hlooks hended fun hother => absurd (hcall rfl) hother
  | increment => exact leads_advance hsettled fun next _ => hended next (by omega)
  | ternary =>
    refine .bind (leads_advance hsettled fun next _ => .bind (leads_callExpression (by omega) fun inner _ _ _ => leads_if ?_))
    refine leads_expect (by omega) (fun _ last _ => ?_) fun _ last _ => leads_pure (hended last (by omega))
    exact leads_callExpression (by omega) fun there _ _ _ => hended there (by omega)
  | assignment | update | binary =>
    exact .bind (leads_advance hsettled fun next _ => leads_callExpression (by omega) fun last _ _ _ => hended last (by omega))

theorem leads_operators {start power : Nat} (hopens : standing.Opens room weight 0)
    (hlooks : standing.spent + 6 * min standing.slack standing.raw ≤ room) :
    (operators start power).Leads room weight standing fun _ =>
      standing.Costs (5 * min standing.slack standing.raw) 19 := by
  refine leads_if (leads_stopped (fun _ => leads_pure (by omega)) fun _ _ => ?_)
  refine .bind (leads_current (by omega) fun next hnext => .bind (leads_ofStep trivial fun afterLineBreak last hlast => ?_))
  have hlooked : next.Looked 0 last := hlast
  split
  · exact leads_pure (by omega)
  · next found hfound =>
    have hcall : found = .call → last.here = .parenOpen := fun hcall => by
      rw [hlooked.here_eq, hnext.here_eq]
      exact (hcall ▸ Suffix.starts_of_of? hfound : Suffix.call.Starts _)
    refine leads_then (last.Passes 14) ?_ fun there _ => leads_callList rfl 19 rfl (by omega) fun final _ => by omega
    exact leads_suffix (by omega) (by omega) (by omega) hcall fun there hthere => hthere

theorem leads_expressionOf {power : Nat} {tableAllowed : Bool} (hopens : standing.Opens room weight 1) :
    (expressionOf power tableAllowed).Leads room weight standing fun _ next =>
      standing.Later next ∧ (next.slack = 0 ∧ next.spent ≤ standing.spent ∨ next.spent ≤ standing.price) ∧
        (standing.slack = 1 → MeetsOperand standing → standing.Advanced next) := by
  refine leads_if (leads_descend (fun next hnext _ _ => .bind ?_) fun next _ _ _ => leads_abandon ?_)
  · refine leads_still trivial (fun _ _ hstill => hstill) fun start => leads_if ?_
    refine leads_operand (by omega) (by omega) (fun last _ => .bind ?_) fun hno last _ => .bind ?_
    · refine leads_callList rfl 19 rfl (by omega) fun there _ => leads_ascend fun final _ _ _ => ?_
      exact ⟨by omega, by omega, fun _ _ => by omega⟩
    · refine leads_reportHere fun there _ => leads_ascend fun final _ _ _ => ⟨by omega, by omega, fun _ hstarts => ?_⟩
      rw [MeetsOperand, ← hnext.2.2.2.1] at hstarts
      exact absurd hstarts hno
  · exact ⟨by omega, by omega, fun _ _ => by omega⟩

/-! ### Tables -/

theorem leads_slot (hready : standing.Ready room weight) (hsettled : standing.raw = standing.left)
    (hlooks : standing.spent + 3 ≤ room) (hweight : 4 * (standing.raw + standing.slack) + 1 < weight)
    (hslack : standing.slack = 1) (hstarts : TokenSet.expressionFirst.contains standing.here = true)
    (hended : ∀ next, standing.Later next → standing.Advanced next →
      next.slack = 0 ∧ next.spent ≤ standing.spent + 2 ∨ next.spent ≤ standing.price + 4 → ended () next) :
    slot.Leads room weight standing ended := by
  refine leads_node (.bind (leads_current (by omega) fun next hnext => .bind (leads_ofStep trivial fun follower last hlast => ?_)))
  have hlooked : next.Looked 0 last := hlast
  have hhere : last.here = standing.here := hlooked.here_eq.trans hnext.here_eq
  refine leads_ite (fun _ => ?_) fun _ => leads_ite (fun _ => ?_) fun _ => leads_ite (fun hfunction => ?_) fun _ => ?_
  · refine .bind (leads_advance (by omega) fun there _ => leads_then (there.Costs 1 0) ?_ fun sign _ => ?_)
    · exact leads_either (leads_expect (by omega) (fun _ sign _ => by omega) fun _ sign _ => by omega)
    · exact leads_callExpression (by omega) fun final _ _ _ => hended final (by omega) (by omega) (by omega)
  · refine .bind (leads_openDelimiter fun there _ => .bind (leads_callExpression (by omega) fun inner _ _ _ => .bind ?_))
    refine leads_closeDelimiter (by omega) (by omega) fun key _ _ => leads_if ?_
    refine leads_expect (by omega) (fun _ sign _ => ?_) fun _ sign _ => leads_pure (hended sign (by omega) (by omega) (by omega))
    exact leads_callExpression (by omega) fun final _ _ _ => hended final (by omega) (by omega) (by omega)
  · have hkeyword : last.here = .kwFunction := by
      rw [hhere]
      exact beq_iff_eq.mp (Bool.and_eq_true_iff.mp hfunction).1
    exact leads_functionDeclaration (by omega) hkeyword (by omega) fun there _ => hended there (by omega) (by omega) (by omega)
  · refine .bind (leads_callExpression (by omega) fun key _ _ hadvanced => leads_if ?_)
    have hmoved := hadvanced (by omega) (.inl (hhere ▸ hstarts))
    refine leads_expect (by omega) (fun _ sign _ => ?_) fun _ sign _ => leads_pure (hended sign (by omega) (by omega) (by omega))
    exact leads_callExpression (by omega) fun final _ _ _ => hended final (by omega) (by omega) (by omega)

theorem leads_slots (hopens : standing.Opens room weight 3)
    (hlooks : standing.spent + 6 * min standing.slack standing.raw ≤ room) :
    slots.Leads room weight standing fun _ => standing.Costs (5 * min standing.slack standing.raw) 10 := by
  refine leads_if (leads_orM (leads_stopped (fun _ => leads_pure (by omega)) fun _ _ => ?_))
  refine leads_currentIs (by omega) (fun _ next _ => leads_pure (by omega)) fun _ next hnext => leads_if ?_
  have hmore {last : Standing} (hlast : standing.Advanced last ∧ standing.Later last ∧
      (last.slack = 0 ∧ last.spent ≤ standing.spent + 5 ∨ last.spent ≤ standing.price + 5)) :
      (call .slots).Leads room weight last fun _ => standing.Costs (5 * min standing.slack standing.raw) 10 :=
    leads_callList rfl 10 rfl (by omega) fun there _ => by omega
  refine leads_currentIn (by omega) (fun hstarts last hlast => .bind ?_) fun hstarts last hlast => .bind ?_
  · have hhere : TokenSet.expressionFirst.contains last.here = true := hlast.here_eq ▸ hstarts
    refine leads_slot (by omega) (by omega) (by omega) (by omega) (by omega) hhere fun there _ _ _ => leads_given ?_
    exact leads_eat (by omega) (fun _ final _ => hmore (by omega)) fun _ final _ => hmore (by omega)
  · have hcomma {skipped : Standing} (hskipped : standing.Costs 4 2 skipped) :
        (eat .comma).Leads room weight skipped (Answers
          ((call .slots).Leads room weight · fun _ => standing.Costs (5 * min standing.slack standing.raw) 10)
          ((pure () : Rule Unit).Leads room weight · fun _ => standing.Costs (5 * min standing.slack standing.raw) 10)) :=
      leads_eat (by omega) (fun _ final _ => hmore (by omega)) fun _ final _ => leads_pure (by omega)
    refine leads_recover (by omega) (by omega) (by omega) (fun there hthere _ => ?_) fun there _ => ?_
    · refine leads_if (leads_orM (leads_currentIn (by omega) (fun hin => absurd hin ?_) fun _ final _ => hcomma (by omega)))
      rw [hthere.here_eq, hlast.here_eq, hstarts]
      exact Bool.false_ne_true
    · refine leads_if (leads_orM (leads_currentIn (by omega) (fun _ final _ => hmore (by omega)) fun _ final _ => ?_))
      exact hcomma (by omega)

end Grammar

end Squirrel
