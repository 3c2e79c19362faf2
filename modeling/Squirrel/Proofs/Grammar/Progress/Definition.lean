import Squirrel.Proofs.Grammar.Progress.Collection

/-!
# Where definitions lead

A function that stands at its keyword costs less than what is set aside for it: that is what lets tables hold functions
whose parameters default to tables.
-/

namespace Squirrel

namespace Grammar

open Rule

variable {room weight : Nat} {standing : Standing} {ended : Unit → Standing → Prop}

/-! ### Functions -/

theorem leads_body {owner : String} (hready : standing.Ready room weight) (hlooks : standing.spent < room)
    (hweight : 4 * (standing.raw + standing.slack) + 2 < weight)
    (hended : ∀ next, standing.Later next → next.spent ≤ standing.spent + 1 → ended () next) :
    (body owner).Leads room weight standing ended := by
  refine leads_if (leads_currentIn hlooks (fun _ next _ => ?_) fun _ next _ => ?_)
  · exact leads_callStatement (by omega) fun last _ _ _ => hended last (by omega) (by omega)
  · exact leads_reportHere fun last _ => hended last (by omega) (by omega)

theorem leads_callPath {separator : Kind} (hready : standing.Ready room weight) (hlooks : standing.spent < room)
    (hweight : 4 * (standing.raw + standing.slack) + 3 < weight) (hended : ∀ next, standing.Costs 1 1 next → ended () next) :
    (call (.path separator)).Leads room weight standing ended := by
  refine leads_call ⟨by omega, hlooks, by simp⟩ hweight fun next hnext => hended next ⟨hnext.1, ?_⟩
  exact hnext.2.1

theorem leads_path {separator : Kind} (hopens : standing.Opens room weight 3) (hlooks : standing.spent < room) :
    (path separator).Leads room weight standing fun _ => standing.Costs 1 1 := by
  refine leads_if (leads_eat hlooks (fun _ next _ => leads_if ?_) fun _ next _ => leads_pure (by omega))
  refine leads_expect (by omega) (fun _ last _ => ?_) fun _ last _ => leads_pure (by omega)
  exact leads_callPath (by omega) (by omega) (by omega) fun final _ => by omega

/-- The rest of a function after its keyword. -/
theorem leads_functionDeclaration (hready : standing.Ready room weight) (hhere : standing.here = .kwFunction)
    (hsettled : standing.raw = standing.left) (hended : ∀ next, standing.Passes 4 next → ended () next) :
    functionDeclaration.Leads room weight standing ended := by
  refine leads_node (.bind (leads_ofStep hsettled fun _ next hnext => ?_))
  have hmoved : standing.Moved next := hnext.1
  have hprice := hnext.2.1 hhere
  refine leads_ifSo (next.Costs 1 2) ?_ fun named _ => .bind ?_
  · refine leads_expect (by omega) (fun _ last _ => ?_) fun _ last _ => by omega
    exact leads_callPath (by omega) (by omega) (by omega) fun there _ => by omega
  · refine leads_parameters (by omega) (by omega) fun there _ => ?_
    exact leads_body (by omega) (by omega) (by omega) fun final _ _ => hended final (by omega)

/-! ### Attributes -/

theorem leads_optionalAttributes (hready : standing.Ready room weight) (hlooks : standing.spent < room)
    (hpasses : standing.here = .attributeOpen → ∀ next, standing.Passes 22 next → ended () next)
    (hstays : standing.here ≠ .attributeOpen → ∀ next, standing.Looked 1 next → ended () next) :
    optionalAttributes.Leads room weight standing ended := by
  refine leads_if (leads_currentIs hlooks (fun hopen next _ => ?_) fun hother next hnext => leads_pure (hstays hother next hnext))
  exact leads_node (leads_delimited rfl 20 rfl (by decide) (by decide) (by omega) fun last _ => hpasses hopen last (by omega))

theorem leads_attributeList (hopens : standing.Opens room weight 3) (hlooks : standing.spent + 6 * min standing.slack standing.raw ≤ room) :
    attributeList.Leads room weight standing fun _ => standing.Costs (5 * min standing.slack standing.raw) 20 := by
  have hgoesOn {last : Standing} (hlast : standing.Passes 13 last) :
      attributesGoOn.Leads room weight last fun _ => standing.Costs (5 * min standing.slack standing.raw) 20 := by
    have hnext {there : Standing} (hthere : standing.Passes 15 there) :
        (call .attributeList).Leads room weight there fun _ => standing.Costs (5 * min standing.slack standing.raw) 20 :=
      leads_callList rfl 20 rfl (by omega) fun final _ => by omega
    refine leads_if (leads_orM (leads_eat (by omega) (fun _ there _ => hnext (by omega)) fun _ there _ => ?_))
    exact leads_currentIs (by omega) (fun _ final _ => hnext (by omega)) fun _ final _ => leads_pure (by omega)
  refine leads_if (leads_orM (leads_stopped (fun _ => leads_pure (by omega)) fun _ hslack => ?_))
  refine leads_currentIs (by omega) (fun _ next _ => leads_pure (by omega)) fun _ next hnext => leads_if ?_
  refine leads_currentIs (by omega) (fun _ last _ => .bind (leads_node ?_)) fun hid last hlast => .bind ?_
  · refine .bind (leads_advance (by omega) fun name _ => leads_if ?_)
    refine leads_expect (by omega) (fun _ value _ => ?_) fun _ value _ => leads_pure (hgoesOn (by omega))
    exact leads_constValue (by omega) (by omega) (by omega) fun there _ => hgoesOn (by omega)
  · refine leads_recover (by omega) (by omega) (by omega) (fun there hthere _ => leads_if (leads_orM ?_)) fun there _ => ?_
    · have hnot : there.here ≠ .id := by rwa [hthere.here_eq, hlast.here_eq]
      refine leads_currentIs (by omega) (fun hcomma final hfinal => ?_) fun _ final hfinal => ?_
      · refine leads_if (leads_orM (leads_eat (by omega) (fun _ past _ => ?_) fun hother => absurd ?_ hother))
        · exact leads_callList rfl 20 rfl (by omega) fun done _ => by omega
        · rw [hfinal.here_eq, hcomma]
      · refine leads_currentIs (by omega) (fun hname => absurd ?_ hnot) fun _ past _ => leads_pure (by omega)
        rw [← hfinal.here_eq, hname]
    · refine leads_if (leads_orM (leads_currentIs (by omega) (fun _ final _ => hgoesOn (by omega)) fun _ final _ => ?_))
      exact leads_currentIs (by omega) (fun _ past _ => hgoesOn (by omega)) fun _ past _ => leads_pure (by omega)

/-! ### Classes -/

theorem leads_memberValue {isNamed : Bool} {what : String} (hready : standing.Ready room weight)
    (hlooks : standing.spent + 2 ≤ room) (hweight : 4 * (standing.raw + standing.slack) + 1 < weight)
    (hended : ∀ next, standing.Later next → next.spent ≤ standing.spent + 2 → ended () next) :
    (memberValue isNamed what).Leads room weight standing ended := by
  have hlast {next : Standing} (hnext : standing.Later next) (hspent : next.spent ≤ standing.spent + 1) :
      (eat .semicolon >>= fun _ => (pure () : Rule Unit)).Leads room weight next ended := by
    refine leads_given (leads_eat (by omega) (fun _ last _ => ?_) fun _ last _ => ?_)
    · exact leads_pure (hended last (by omega) (by omega))
    · exact leads_pure (hended last (by omega) (by omega))
  cases isNamed with
  | false => exact hlast (by omega) (by omega)
  | true =>
    refine leads_if (leads_expect (by omega) (fun _ next _ => .bind ?_) fun _ next _ => hlast (by omega) (by omega))
    exact leads_callExpression (by omega) fun there _ _ _ => hlast (by omega) (by omega)

/-- What a member may start with once its attributes are passed. -/
def memberStarts : List Kind := [.kwStatic, .id, .bracketOpen, .kwFunction, .kwConstructor]

theorem mem_memberStarts {kind : Kind} (hfirst : TokenSet.memberFirst.contains kind = true) (hother : kind ≠ .attributeOpen) :
    kind ∈ memberStarts := by
  revert hfirst hother
  cases kind <;> decide

theorem leads_field (hready : standing.Ready room weight) (hlooks : standing.spent + 2 ≤ room)
    (hhere : standing.here = .kwStatic ∨ standing.here = .id) (hended : ∀ next, standing.Passes 3 next → ended () next) :
    (do
      let _ ← eat .kwStatic
      let isNamed ← expect .id "field name"
      memberValue isNamed "`=` after field name" : Rule Unit).Leads room weight standing ended := by
  have hvalue {isNamed : Bool} {next : Standing} (hnext : standing.Passes 1 next) :
      (memberValue isNamed "`=` after field name").Leads room weight next ended :=
    leads_memberValue (by omega) (by omega) (by omega) fun last _ _ => hended last (by omega)
  refine leads_given (leads_eat (by omega) (fun _ next _ => leads_given ?_) fun hstatic next hnext => leads_given ?_)
  · exact leads_expect (by omega) (fun _ last _ => hvalue (by omega)) fun _ last _ => hvalue (by omega)
  · refine leads_expect (by omega) (fun _ last _ => hvalue (by omega)) fun hname => absurd ?_ hname
    rw [hnext.here_eq]
    exact hhere.resolve_left hstatic

theorem leads_member (hready : standing.Ready room weight) (hsettled : standing.raw = standing.left)
    (hlooks : standing.spent + 4 ≤ room) (hfirst : TokenSet.memberFirst.contains standing.here = true)
    (hended : ∀ next, standing.Passes 23 next → ended () next) : member.Leads room weight standing ended := by
  have hattributes : optionalAttributes.Leads room weight standing fun _ next =>
      standing.Passes 22 next ∨ standing.Looked 1 next ∧ next.here ∈ memberStarts :=
    leads_optionalAttributes hready (by omega) (fun _ next hnext => .inl hnext) fun hother next hnext =>
      .inr ⟨hnext, hnext.here_eq ▸ mem_memberStarts hfirst hother⟩
  refine leads_node (.bind (hattributes.mono fun _ next hnext => .bind (leads_current (by omega) fun last hlast => ?_)))
  split
  · next hstatic => exact leads_field (by omega) (by omega) (.inl (hlast.here_eq.trans hstatic)) fun there _ => hended there (by omega)
  · next hname => exact leads_field (by omega) (by omega) (.inr (hlast.here_eq.trans hname)) fun there _ => hended there (by omega)
  · refine .bind (leads_openDelimiter fun key _ => .bind (leads_callExpression (by omega) fun there _ _ _ => .bind ?_))
    refine leads_closeDelimiter (by omega) (by omega) fun closed _ _ => ?_
    exact leads_memberValue (by omega) (by omega) (by omega) fun final _ _ => hended final (by omega)
  · next hfunction =>
    exact leads_functionDeclaration (by omega) (hlast.here_eq.trans hfunction) (by omega) fun there _ => hended there (by omega)
  · refine .bind (leads_advance (by omega) fun there _ => .bind (leads_parameters (by omega) (by omega) fun inner _ => ?_))
    exact leads_body (by omega) (by omega) (by omega) fun final _ _ => hended final (by omega)
  · next hstatic hname hkey hfunction hconstructor =>
    refine leads_reportHere fun there _ => hended there ?_
    obtain hpassed | ⟨-, hstarts⟩ := hnext
    · omega
    · simp only [memberStarts, List.mem_cons, List.not_mem_nil, or_false] at hstarts
      grind

theorem not_contains_memberRecovery {kind : Kind} (hfirst : TokenSet.memberFirst.contains kind = false)
    (hclose : kind ≠ .braceClose) : TokenSet.memberRecovery.contains kind = false := by
  revert hfirst hclose
  cases kind <;> decide

theorem leads_members (hopens : standing.Opens room weight 3)
    (hlooks : standing.spent + 6 * min standing.slack standing.raw ≤ room) :
    members.Leads room weight standing fun _ => standing.Costs (5 * min standing.slack standing.raw) 28 := by
  refine leads_if (leads_orM (leads_stopped (fun _ => leads_pure (by omega)) fun _ _ => ?_))
  refine leads_currentIs (by omega) (fun _ next _ => leads_pure (by omega)) fun hclose next hnext => leads_if ?_
  have hrest {last : Standing} (hlast : standing.Passes 23 last ∨
      standing.Later last ∧ last.spent ≤ standing.spent + 3 ∧ (last.slack = 0 ∨ last.raw = 0)) :
      (call .members).Leads room weight last fun _ => standing.Costs (5 * min standing.slack standing.raw) 28 := by
    refine leads_callList rfl 28 rfl ?_ fun there _ => ?_
    · omega
    · omega
  refine leads_currentIn (by omega) (fun hfirst last hlast => .bind ?_) fun hfirst last hlast => .bind ?_
  · have hhere : TokenSet.memberFirst.contains last.here = true := hlast.here_eq ▸ hfirst
    exact leads_member (by omega) (by omega) (by omega) hhere fun there _ => hrest (by omega)
  · refine leads_recover (by omega) (by omega) (by omega) (fun there _ hends => hrest (.inr ?_)) fun there _ => hrest (by omega)
    have hout : TokenSet.memberRecovery.contains last.here = false := by
      rw [hlast.here_eq]
      exact not_contains_memberRecovery hfirst (hnext.here_eq ▸ hclose)
    simp only [hout, Bool.false_eq_true, false_or] at hends
    omega

theorem leads_classDeclaration (hready : standing.Ready room weight) (hsettled : standing.raw = standing.left)
    (hended : ∀ next, standing.Onward next → ended () next) : classDeclaration.Leads room weight standing ended := by
  refine leads_node (.bind (leads_advance hsettled fun next _ => leads_ifSo (next.Costs 1 2) ?_ fun named _ => ?_))
  · refine leads_expect (by omega) (fun _ last _ => ?_) fun _ last _ => by omega
    exact leads_callPath (by omega) (by omega) (by omega) fun there _ => by omega
  refine leads_ifSo (next.Costs 2 3) ?_ fun based _ => leads_then (next.Costs 3 24) ?_ fun last _ => leads_if ?_
  · refine leads_eat (by omega) (fun _ last _ => leads_either ?_) fun _ last _ => by omega
    exact leads_expect (by omega) (fun _ there _ => by omega) fun _ there _ => by omega
  · exact leads_optionalAttributes (by omega) (by omega) (fun _ there _ => by omega) fun _ there _ => by omega
  · refine leads_currentIs (by omega) (fun _ there _ => ?_) fun _ there _ => leads_given ?_
    · exact leads_delimited rfl 28 rfl (by decide) (by decide) (by omega) fun final _ => hended final (by omega)
    · refine leads_expect (by omega) (fun _ final _ => leads_pure ?_) fun _ final _ => leads_pure ?_
      · exact hended final (by omega)
      · exact hended final (by omega)

/-! ### Enums and constants -/

theorem leads_enumEntries (hopens : standing.Opens room weight 3)
    (hlooks : standing.spent + 6 * min standing.slack standing.raw ≤ room) :
    enumEntries.Leads room weight standing fun _ => standing.Costs (5 * min standing.slack standing.raw) 13 := by
  refine leads_if (leads_orM (leads_stopped (fun _ => leads_pure (by omega)) fun _ _ => ?_))
  refine leads_currentIs (by omega) (fun _ next _ => leads_pure (by omega)) fun _ next hnext => leads_if ?_
  have hmore {last : Standing} (hlast : standing.Passes 2 last) :
      (call .enumEntries).Leads room weight last fun _ => standing.Costs (5 * min standing.slack standing.raw) 13 :=
    leads_callList rfl 13 rfl (by omega) fun there _ => by omega
  have hcomma {last : Standing} (hlast : standing.Passes 12 last) :
      (eat .comma >>= fun found => if found = true then call .enumEntries else pure () : Rule Unit).Leads room weight last
        fun _ => standing.Costs (5 * min standing.slack standing.raw) 13 :=
    leads_if (leads_eat (by omega) (fun _ there _ => hmore (by omega)) fun _ there _ => leads_pure (by omega))
  refine leads_currentIs (by omega) (fun _ last _ => .bind (leads_node ?_)) fun hid last hlast => .bind ?_
  · refine .bind (leads_advance (by omega) fun name _ => leads_if ?_)
    refine leads_eat (by omega) (fun _ value _ => ?_) fun _ value _ => leads_pure (hcomma (by omega))
    exact leads_constValue (by omega) (by omega) (by omega) fun there _ => hcomma (by omega)
  · refine leads_recover (by omega) (by omega) (by omega) (fun there hthere _ => ?_) fun there _ => ?_
    · refine leads_if (leads_orM (leads_currentIs (by omega) (fun hname => absurd ?_ hid) fun _ final _ => ?_))
      · rw [← hlast.here_eq, ← hthere.here_eq, hname]
      · exact leads_eat (by omega) (fun _ past _ => hmore (by omega)) fun _ past _ => leads_pure (by omega)
    · refine leads_if (leads_orM (leads_currentIs (by omega) (fun _ final _ => hmore (by omega)) fun _ final _ => ?_))
      exact leads_eat (by omega) (fun _ past _ => hmore (by omega)) fun _ past _ => leads_pure (by omega)

theorem leads_enumDeclaration (hready : standing.Ready room weight) (hsettled : standing.raw = standing.left)
    (hended : ∀ next, standing.Onward next → ended () next) : enumDeclaration.Leads room weight standing ended := by
  refine leads_node (.bind (leads_advance hsettled fun next _ => leads_then (next.Costs 1 0) ?_ fun named _ => ?_))
  · exact leads_either (leads_expect (by omega) (fun _ last _ => by omega) fun _ last _ => by omega)
  refine leads_then (next.Costs 2 22) ?_ fun last _ => leads_if ?_
  · exact leads_optionalAttributes (by omega) (by omega) (fun _ there _ => by omega) fun _ there _ => by omega
  refine leads_currentIs (by omega) (fun _ there _ => ?_) fun _ there _ => leads_given ?_
  · refine .bind (leads_openDelimiter fun inner _ => .bind (leads_callList rfl 13 rfl (by omega) fun entries _ => .bind ?_))
    refine leads_closeDelimiter (by omega) (by omega) fun closed _ _ => leads_given ?_
    refine leads_eat (by omega) (fun _ final _ => leads_pure ?_) fun _ final _ => leads_pure ?_
    · exact hended final (by omega)
    · exact hended final (by omega)
  · refine leads_expect (by omega) (fun _ final _ => leads_pure ?_) fun _ final _ => leads_pure ?_
    · exact hended final (by omega)
    · exact hended final (by omega)

theorem leads_constDeclaration (hready : standing.Ready room weight) (hsettled : standing.raw = standing.left)
    (hended : ∀ next, standing.Onward next → ended () next) : constDeclaration.Leads room weight standing ended := by
  refine leads_node (.bind (leads_advance hsettled fun next _ => leads_if ?_))
  refine leads_expect (by omega) (fun _ last _ => leads_if ?_) fun _ last _ => leads_pure (hended last (by omega))
  refine leads_expect (by omega) (fun _ there _ => .bind ?_) fun _ there _ => leads_pure (hended there (by omega))
  refine leads_constValue (by omega) (by omega) (by omega) fun value _ => ?_
  exact leads_expectTerminator (by omega) (by omega) fun final _ => hended final (by omega)

end Grammar

end Squirrel
