import Squirrel.Proofs.Grammar.Progress.Leads

/-!
# Where recovery, collections and parameters lead

Each rule is followed to where it leads, with what it costs there. A rule that starts by moving may call everything, since
the token it passes pays for four nonterminals; others call only what ranks lower than they do.
-/

namespace Squirrel

namespace Standing

/-- At the same place or further on, after some looks, or with a margin above the price there was. -/
abbrev Costs (tries margin : Nat) (before after : Standing) : Prop :=
  before.Later after ∧ (after.spent ≤ before.spent + tries ∨ after.spent ≤ before.price + margin)

/-- Further on, with a margin above the price there was. -/
abbrev Passes (margin : Nat) (before after : Standing) : Prop :=
  before.Later after ∧ after.raw < before.left ∧ after.spent ≤ before.price + margin

/-- Further on. -/
abbrev Onward (before after : Standing) : Prop := before.Later after ∧ after.raw < before.left

/-- Room for the looks of a construct, and weight for what it may call once it has moved. -/
abbrev Ready (room weight : Nat) (standing : Standing) : Prop :=
  standing.left ≤ standing.raw ∧ standing.price ≤ standing.spent ∧ standing.slack ≤ 1 ∧ standing.price + 40 ≤ room ∧
    4 * (standing.raw + standing.slack) ≤ weight

/-- Looks and weight that are enough for a nonterminal with such needs and of such rank. -/
abbrev Affords (room weight needs rank : Nat) (standing : Standing) : Prop :=
  standing.price + 40 ≤ room ∧ standing.spent + needs ≤ room ∧ 4 * (standing.raw + standing.slack) + rank < weight

/-- Where the rule of a nonterminal of the given rank starts. -/
abbrev Opens (room weight rank : Nat) (standing : Standing) : Prop :=
  standing.left ≤ standing.raw ∧ standing.price ≤ standing.spent ∧ standing.slack ≤ 1 ∧ standing.price + 40 ≤ room ∧
    4 * (standing.raw + standing.slack) + rank = weight

end Standing

namespace Grammar

open Rule

section

variable {room weight : Nat} {standing : Standing} {α : Type} {result : α → Standing → Prop}
  {ended : Unit → Standing → Prop} {yes no : Standing → Prop}

/-! ### Steps and tests -/

theorem leads_pure {answer : α} (hresult : result answer standing) :
    (pure answer : Rule α).Leads room weight standing result := hresult

theorem leads_ofStep {s : Step α} (hfits : s.Fits room standing)
    (hresult : ∀ answer next, s.Stands standing answer next → result answer next) :
    (Rule.ofStep s).Leads room weight standing result :=
  ⟨hfits, hresult⟩

/-- A step that leaves a run where it stands. -/
theorem leads_still {s : Step α} (hfits : s.Fits room standing)
    (hstill : ∀ answer next, s.Stands standing answer next → next = standing) (hresult : ∀ answer, result answer standing) :
    (Rule.ofStep s).Leads room weight standing result :=
  leads_ofStep hfits fun answer next hstands => hstill answer next hstands ▸ hresult answer

theorem leads_node {kind : Kind} {inner : Rule Unit} (hinner : inner.Leads room weight standing ended) :
    (node kind inner).Leads room weight standing ended := by
  refine .bind (leads_still trivial (fun _ _ hstill => hstill) fun _ => ?_)
  exact hinner

theorem leads_current {result : Kind → Standing → Prop} (hlooks : standing.spent < room)
    (hresult : ∀ next, standing.Looked 1 next → result standing.here next) :
    current.Leads room weight standing result :=
  leads_ofStep hlooks fun _ next hstands => hstands.1 ▸ hresult next hstands.2

theorem leads_currentSpan {result : Span → Standing → Prop}
    (hresult : ∀ span next, standing.Looked 0 next → result span next) :
    currentSpan.Leads room weight standing result :=
  leads_ofStep trivial hresult

theorem leads_advance (hsettled : standing.raw = standing.left)
    (hended : ∀ next, standing.Moved next → ended () next) : advance.Leads room weight standing ended :=
  leads_ofStep hsettled fun _ next hstands => hended next hstands.1

/-- What follows on either answer to a question. -/
def Answers (yes no : Standing → Prop) (answer : Bool) (next : Standing) : Prop :=
  if answer then yes next else no next

theorem leads_ite {condition : Prop} [Decidable condition] {first second : Rule α}
    (hfirst : condition → first.Leads room weight standing result)
    (hsecond : ¬condition → second.Leads room weight standing result) :
    (if condition then first else second).Leads room weight standing result := by
  split
  · next htrue => exact hfirst htrue
  · next hfalse => exact hsecond hfalse

theorem leads_if {test : Rule Bool} {first second : Rule α}
    (htest : test.Leads room weight standing
      (Answers (first.Leads room weight · result) (second.Leads room weight · result))) :
    (test >>= fun answer => if answer = true then first else second).Leads room weight standing result := by
  refine .bind (htest.mono fun answer next hnext => ?_)
  cases answer with
  | true => exact hnext
  | false => exact hnext

theorem leads_given {test : Rule Bool} {rest : Bool → Rule α}
    (htest : test.Leads room weight standing
      (Answers ((rest true).Leads room weight · result) ((rest false).Leads room weight · result))) :
    (test >>= rest).Leads room weight standing result := by
  refine .bind (htest.mono fun answer next hnext => ?_)
  cases answer with
  | true => exact hnext
  | false => exact hnext

/-- The answer to a question does not matter. -/
theorem leads_either {test : Rule Bool} (htest : test.Leads room weight standing (Answers yes yes)) :
    test.Leads room weight standing fun _ => yes := by
  refine htest.mono fun answer next hnext => ?_
  cases answer with
  | true => exact hnext
  | false => exact hnext

/-- A rule and what follows, with what is known in between. -/
theorem leads_then {β : Type} {first : Rule β} {rest : Rule α} (between : Standing → Prop)
    (hfirst : first.Leads room weight standing fun _ => between)
    (hrest : ∀ next, between next → rest.Leads room weight next result) :
    (first >>= fun _ => rest).Leads room weight standing result :=
  .bind (hfirst.mono fun _ => hrest)

/-- A question and what follows, with what is known after either answer. -/
theorem leads_asked {test : Rule Bool} {rest : Bool → Rule α} (between : Standing → Prop)
    (htest : test.Leads room weight standing (Answers between between))
    (hrest : ∀ answer next, between next → (rest answer).Leads room weight next result) :
    (test >>= rest).Leads room weight standing result :=
  .bind ((leads_either htest).mono hrest)

/-- Something optional and what follows, with what is known in between. -/
theorem leads_ifSo {β : Type} {test : Rule Bool} {first : Rule β} {rest : Rule α} (between : Standing → Prop)
    (htest : test.Leads room weight standing (Answers (first.Leads room weight · fun _ => between) between))
    (hrest : ∀ next, between next → rest.Leads room weight next result) :
    (test >>= fun answer => if answer = true then first >>= fun _ => rest else rest).Leads room weight standing result := by
  refine leads_if (htest.mono fun answer next hnext => ?_)
  cases answer with
  | true => exact leads_then between hnext hrest
  | false => exact hrest next hnext

/-- One of two things and what follows, with what is known in between. -/
theorem leads_ifElse {β γ : Type} {test : Rule Bool} {first : Rule β} {second : Rule γ} {rest : Rule α}
    (between : Standing → Prop)
    (htest : test.Leads room weight standing
      (Answers (first.Leads room weight · fun _ => between) (second.Leads room weight · fun _ => between)))
    (hrest : ∀ next, between next → rest.Leads room weight next result) :
    (test >>= fun answer => if answer = true then first >>= fun _ => rest else second >>= fun _ => rest).Leads room weight
      standing result := by
  refine leads_if (htest.mono fun answer next hnext => ?_)
  cases answer with
  | true => exact leads_then between hnext hrest
  | false => exact leads_then between hnext hrest

theorem leads_orM {left right : Rule Bool}
    (hleft : left.Leads room weight standing (Answers yes (right.Leads room weight · (Answers yes no)))) :
    (left <||> right).Leads room weight standing (Answers yes no) := by
  refine .bind (hleft.mono fun answer next hnext => ?_)
  cases answer with
  | true => exact leads_pure hnext
  | false => exact hnext

theorem leads_andM {left right : Rule Bool}
    (hleft : left.Leads room weight standing (Answers (right.Leads room weight · (Answers yes no)) no)) :
    (left <&&> right).Leads room weight standing (Answers yes no) := by
  refine .bind (hleft.mono fun answer next hnext => ?_)
  cases answer with
  | true => exact hnext
  | false => exact leads_pure hnext

theorem leads_not {test : Rule Bool} (htest : test.Leads room weight standing (Answers no yes)) :
    (not <$> test).Leads room weight standing (Answers yes no) := by
  refine .bind (htest.mono fun answer next hnext => leads_pure ?_)
  cases answer with
  | true => exact hnext
  | false => exact hnext

theorem leads_currentIs {kind : Kind} (hlooks : standing.spent < room)
    (hyes : standing.here = kind → ∀ next, standing.Looked 1 next → yes next)
    (hno : standing.here ≠ kind → ∀ next, standing.Looked 1 next → no next) :
    (currentIs kind).Leads room weight standing (Answers yes no) := by
  refine .bind (leads_current hlooks fun next hnext => leads_pure ?_)
  by_cases hkind : standing.here = kind
  · rw [beq_iff_eq.mpr hkind]
    exact hyes hkind next hnext
  · rw [beq_eq_false_iff_ne.mpr hkind]
    exact hno hkind next hnext

theorem leads_currentIn {set : TokenSet} (hlooks : standing.spent < room)
    (hyes : set.contains standing.here = true → ∀ next, standing.Looked 1 next → yes next)
    (hno : set.contains standing.here = false → ∀ next, standing.Looked 1 next → no next) :
    (currentIn set).Leads room weight standing (Answers yes no) := by
  refine .bind (leads_current hlooks fun next hnext => leads_pure ?_)
  cases hcontains : set.contains standing.here with
  | true => exact hyes hcontains next hnext
  | false => exact hno hcontains next hnext

theorem leads_stopped (hyes : standing.raw = 0 ∨ standing.slack = 0 → yes standing)
    (hno : standing.raw ≠ 0 → standing.slack ≠ 0 → no standing) :
    stopped.Leads room weight standing (Answers yes no) := by
  refine leads_ofStep trivial fun answer next hstands => ?_
  rw [hstands.2]
  cases answer with
  | true => exact hyes (hstands.1.mp rfl)
  | false =>
    have hgoes : ¬(standing.raw = 0 ∨ standing.slack = 0) := fun hends => Bool.false_ne_true (hstands.1.mpr hends)
    exact hno (fun hraw => hgoes (.inl hraw)) fun hslack => hgoes (.inr hslack)

theorem leads_atEnd (hyes : standing.raw = 0 → yes standing) (hno : standing.raw ≠ 0 → no standing) :
    atEnd.Leads room weight standing (Answers yes no) := by
  refine leads_ofStep trivial fun answer next hstands => ?_
  rw [hstands.2]
  cases answer with
  | true => exact hyes (hstands.1.mp rfl)
  | false => exact hno fun hraw => Bool.false_ne_true (hstands.1.mpr hraw)

theorem leads_descend
    (hyes : ∀ next, standing.Stays next → next.slack = standing.slack → next.spent = standing.price → yes next)
    (hno : ∀ next, standing.Stays next → next.slack = 0 → next.spent = standing.spent → no next) :
    (Rule.ofStep .descend).Leads room weight standing (Answers yes no) := by
  refine leads_ofStep trivial fun answer next hstands => ?_
  obtain ⟨hstays, hdeeper, hexceeded⟩ := hstands
  cases answer with
  | true => exact hyes next hstays (hdeeper rfl).1 (hdeeper rfl).2
  | false => exact hno next hstays (hexceeded rfl).1 (hexceeded rfl).2

theorem leads_ascend
    (hended : ∀ next, standing.Stays next → next.slack = standing.slack → next.spent = standing.price → ended () next) :
    (Rule.ofStep .ascend).Leads room weight standing ended :=
  leads_ofStep trivial fun _ next hstands => hended next hstands.1 hstands.2.1 hstands.2.2

theorem leads_eat {kind : Kind} (hlooks : standing.spent < room)
    (hyes : standing.here = kind → ∀ next, standing.Moved next → yes next)
    (hno : standing.here ≠ kind → ∀ next, standing.Looked 1 next → no next) :
    (eat kind).Leads room weight standing (Answers yes no) := by
  refine leads_if (leads_currentIs hlooks (fun hkind next _ => ?_) fun hkind next hnext => leads_pure (hno hkind next hnext))
  exact .bind (leads_advance (by omega) fun last _ => leads_pure (hyes hkind last (by omega)))

/-! ### Reports and delimiters -/

theorem leads_reportHere {kind : DiagnosticKind} {detail : Option String}
    (hended : ∀ next, standing.Looked 0 next → ended () next) :
    (reportHere kind detail).Leads room weight standing ended := by
  refine .bind (leads_currentSpan fun _ next hnext => .bind (leads_still trivial (fun _ _ hstill => hstill.2) fun _ => ?_))
  exact leads_still trivial (fun _ _ hstill => hstill) fun _ => hended next hnext

theorem leads_expect {kind : Kind} {what : String} (hlooks : standing.spent < room)
    (hyes : standing.here = kind → ∀ next, standing.Moved next → yes next)
    (hno : standing.here ≠ kind → ∀ next, standing.Looked 1 next → no next) :
    (expect kind what).Leads room weight standing (Answers yes no) := by
  refine leads_if (leads_eat hlooks (fun hkind next hnext => leads_pure (hyes hkind next hnext)) fun hkind next hnext => ?_)
  refine .bind (leads_currentSpan fun _ last hlast => .bind (leads_still trivial (fun _ _ hstill => hstill.2) fun _ => ?_))
  exact .bind (leads_still trivial (fun _ _ hstill => hstill) fun _ => leads_pure (hno hkind last (hnext.trans hlast)))

theorem leads_abandon (hended : ended () standing) : abandon.Leads room weight standing ended := leads_node (leads_pure hended)

theorem leads_advanceAsError (hsettled : standing.raw = standing.left) (hend : standing.raw = 0 → ended () standing)
    (hended : ∀ next, standing.Moved next → ended () next) : advanceAsError.Leads room weight standing ended :=
  leads_if (leads_atEnd (fun hraw => leads_pure (hend hraw)) fun _ => leads_node (leads_advance hsettled hended))

theorem leads_advanceGarbage (hlooks : standing.spent < room) (hhere : standing.here ≠ .error)
    (hended : ∀ next, standing.Moved next → ended () next) : advanceGarbage.Leads room weight standing ended := by
  have hleft := standing.left_pos hhere
  refine .bind (leads_current hlooks fun next _ => leads_advanceAsError (by omega) (fun _ => by omega) fun last _ => ?_)
  exact hended last (by omega)

theorem leads_openDelimiter {kind : Kind} (hended : ∀ next, standing.Moved next → ended () next) :
    (openDelimiter kind).Leads room weight standing ended := by
  refine .bind (leads_currentSpan fun _ next _ => .bind (leads_still trivial (fun _ _ hstill => hstill) fun _ => ?_))
  exact leads_advance (by omega) fun last _ => hended last (by omega)

theorem leads_closeDelimiter {close : Kind} {construct : String} (hplaced : standing.left ≤ standing.raw)
    (hlooks : standing.spent + 2 ≤ room)
    (hended : ∀ next, standing.Later next → next.spent ≤ max standing.price standing.spent + 2 → ended () next) :
    (closeDelimiter close construct).Leads room weight standing ended := by
  refine .bind (leads_still trivial (fun _ _ hstill => hstill) fun opener? => leads_if ?_)
  refine leads_eat (by omega) (fun _ next _ => leads_pure (hended next (by omega) (by omega))) fun _ next _ => ?_
  refine .bind (leads_still trivial (fun _ _ hstill => hstill.2) fun ranOut => ?_)
  split
  · refine .bind (leads_currentSpan fun _ last _ => leads_still trivial (fun _ _ hstill => hstill) fun _ => ?_)
    exact hended last (by omega) (by omega)
  · refine leads_given (leads_expect (by omega) (fun _ last _ => ?_) fun _ last _ => ?_)
    · exact leads_pure (hended last (by omega) (by omega))
    · exact leads_pure (hended last (by omega) (by omega))

theorem leads_expectTerminator {what : String} (hplaced : standing.left ≤ standing.raw) (hlooks : standing.spent + 2 ≤ room)
    (hended : ∀ next, standing.Later next → ended () next) :
    (expectTerminator what).Leads room weight standing ended := by
  refine leads_if (leads_orM (leads_eat (by omega) (fun _ next _ => leads_pure (hended next (by omega))) fun _ next _ => ?_))
  refine leads_orM (leads_atEnd (fun _ => leads_pure (hended next (by omega))) fun _ => leads_orM ?_)
  refine leads_currentIs (by omega) (fun _ last _ => leads_pure (hended last (by omega))) fun _ last _ => ?_
  refine leads_ofStep trivial fun answer final (hfinal : last.Looked 0 final) => ?_
  cases answer with
  | true => exact leads_pure (hended final (by omega))
  | false => exact leads_reportHere fun there _ => hended there (by omega)

theorem leads_expectSemicolon {what : String} (hplaced : standing.left ≤ standing.raw) (hlooks : standing.spent < room)
    (hended : ∀ next, standing.Later next → ended () next) :
    (expectSemicolon what).Leads room weight standing ended := by
  refine leads_if (leads_eat hlooks (fun _ next _ => leads_pure (hended next (by omega))) fun _ next _ => ?_)
  refine .bind (leads_still trivial (fun _ _ hstill => hstill) fun token? => ?_)
  split
  · exact leads_pure (hended next (by omega))
  · exact leads_still trivial (fun _ _ hstill => hstill) fun _ => hended next (by omega)

/-! ### Calls -/

theorem leads_call {nonterminal : Nonterminal} (hcalled : nonterminal.Called room standing)
    (hweight : nonterminal.weight standing < weight) (hended : ∀ next, nonterminal.Exits standing next → ended () next) :
    (call nonterminal).Leads room weight standing ended :=
  ⟨⟨hcalled, hweight⟩, hended⟩

theorem leads_callStatement (hafford : standing.Affords room weight 0 2)
    (hended : ∀ next, standing.Later next → next.slack = 0 ∧ next.spent ≤ standing.spent ∨ next.spent ≤ standing.price →
      (0 < standing.left → standing.slack = 1 → standing.Advanced next) → ended () next) :
    (call .statement).Leads room weight standing ended := by
  refine leads_call ⟨hafford.1, hafford.2.1, by simp⟩ hafford.2.2 fun next hnext => ?_
  obtain ⟨hlater, hspent, hlimits, hadvanced⟩ := hnext
  simp only [Nonterminal.tries, Nonterminal.margin] at hspent
  exact hended next hlater (by have := standing.price_le; omega) hadvanced

theorem leads_callExpression {power : Nat} {tableAllowed : Bool} (hafford : standing.Affords room weight 0 1)
    (hended : ∀ next, standing.Later next → next.slack = 0 ∧ next.spent ≤ standing.spent ∨ next.spent ≤ standing.price →
      (standing.slack = 1 → TokenSet.expressionFirst.contains standing.here = true ∨ standing.here = .braceOpen →
        standing.Advanced next) → ended () next) :
    (call (.expression power tableAllowed)).Leads room weight standing ended := by
  refine leads_call ⟨hafford.1, hafford.2.1, by simp⟩ hafford.2.2 fun next hnext => ?_
  obtain ⟨hlater, hspent, hlimits, hadvanced⟩ := hnext
  simp only [Nonterminal.tries, Nonterminal.margin] at hspent
  exact hended next hlater (by have := standing.price_le; omega) hadvanced

theorem leads_callList {nonterminal : Nonterminal} (hlist : nonterminal.asksFirst = true) (margin : Nat)
    (hmargin : nonterminal.margin = margin) (hafford : standing.Affords room weight (6 * min standing.slack standing.raw) 3)
    (hended : ∀ next, standing.Costs (5 * min standing.slack standing.raw) margin next → ended () next) :
    (call nonterminal).Leads room weight standing ended := by
  have hrank := nonterminal.rank_le
  have htries : nonterminal.tries (min standing.slack standing.raw) = 5 * min standing.slack standing.raw := by
    cases nonterminal <;> first | rfl | exact absurd hlist Bool.false_ne_true
  have hneeds : nonterminal.needs (min standing.slack standing.raw) = 6 * min standing.slack standing.raw := by
    cases nonterminal <;> first | rfl | exact absurd hlist Bool.false_ne_true
  refine leads_call ⟨hafford.1, hneeds ▸ hafford.2.1, fun hskip => ?_⟩ ?_ fun next hnext => hended next ⟨hnext.1, ?_⟩
  · rw [hskip] at hlist
    exact absurd hlist Bool.false_ne_true
  · rw [Nonterminal.weight]
    omega
  · rw [← htries, ← hmargin]
    exact hnext.2.1

/-- A list between its delimiters. -/
theorem leads_delimited {nonterminal : Nonterminal} {opener close : Kind} {construct : String}
    (hlist : nonterminal.asksFirst = true) (margin : Nat) (hmargin : nonterminal.margin = margin) (hleast : 5 ≤ margin)
    (hmost : margin ≤ 33) (hready : standing.Ready room weight)
    (hended : ∀ next, standing.Passes (margin + 2) next → ended () next) :
    (do
      openDelimiter opener
      call nonterminal
      closeDelimiter close construct : Rule Unit).Leads room weight standing ended := by
  refine .bind (leads_openDelimiter fun next _ => .bind (leads_callList hlist margin hmargin (by omega) fun inner _ => ?_))
  exact leads_closeDelimiter (by omega) (by omega) fun last _ _ => hended last (by omega)

/-! ### Skipping -/

theorem leads_callSkipUntil {recovery : TokenSet} (hafford : standing.Affords room weight 1 0)
    (hended : ∀ next, standing.Later next → next.raw < standing.left ∧ next.spent ≤ standing.price + 1 ∨
      recovery.contains standing.here = true ∨ standing.left = 0 ∨ standing.slack = 0 → ended () next) :
    (call (.skipUntil recovery)).Leads room weight standing ended :=
  leads_call ⟨hafford.1, hafford.2.1, by simp⟩ hafford.2.2 fun next hnext => hended next hnext.1 hnext.2.2

/-- Recovery skips, unless it stands where it would stop. -/
theorem leads_recover {kind : DiagnosticKind} {detail : String} {recovery : TokenSet} (hready : standing.Ready room weight)
    (hlooks : standing.spent + 2 ≤ room) (hweight : 4 * (standing.raw + standing.slack) < weight)
    (hstays : ∀ next, standing.Looked 1 next →
      recovery.contains standing.here = true ∨ standing.left = 0 ∨ standing.slack = 0 → ended () next)
    (hpasses : ∀ next, standing.Passes 1 next → ended () next) :
    (recover kind detail recovery).Leads room weight standing ended := by
  refine leads_if (leads_orM (leads_currentIn (by omega) (fun hin next hnext => ?_) fun hout next hnext => ?_))
  · exact leads_reportHere fun last hlast => hstays last (hnext.trans hlast) (.inl hin)
  refine leads_stopped (fun hstopped => ?_) fun hraw hslack => ?_
  · exact leads_reportHere fun last hlast => hstays last (hnext.trans hlast) (.inr (by omega))
  refine leads_node (.bind (leads_reportHere fun last hlast => leads_callSkipUntil (by omega) fun final hlater hskips => ?_))
  have hout' : recovery.contains last.here = false := by
    rw [hlast.here_eq, hnext.here_eq]
    exact hout
  obtain hmoved | hin | hends := hskips
  · exact hpasses final (by omega)
  · rw [hout'] at hin
    exact absurd hin Bool.false_ne_true
  · omega

theorem leads_skipUntil {recovery : TokenSet} (hopens : standing.Opens room weight 0) (hlooks : standing.spent < room) :
    (skipUntil recovery).Leads room weight standing fun _ => Nonterminal.Exits (.skipUntil recovery) standing := by
  refine leads_if (leads_currentIn (by omega) (fun hin next _ => leads_pure ?_) fun hout next hnext => ?_)
  · exact ⟨by omega, .inl (by simp only [Nonterminal.tries]; omega), .inr (.inl hin)⟩
  refine leads_if (leads_stopped (fun hstopped => leads_pure ?_) fun hraw hslack => ?_)
  · exact ⟨by omega, .inl (by simp only [Nonterminal.tries]; omega), .inr (.inr (by omega))⟩
  refine .bind (leads_advance (by omega) fun last _ => leads_call ⟨by omega, ?_, by simp⟩ ?_ fun final hfinal => ?_)
  · simp only [Nonterminal.needs]
    omega
  · simp only [Nonterminal.weight, Nonterminal.rank]
    omega
  · obtain ⟨hlater, hspent, -⟩ := hfinal
    simp only [Nonterminal.tries, Nonterminal.margin] at hspent
    exact ⟨by omega, .inr (by simp only [Nonterminal.margin]; omega), .inl (by omega)⟩

theorem leads_skipToStatement (hopens : standing.Opens room weight 0) (hsettled : standing.raw = standing.left) :
    skipToStatement.Leads room weight standing fun _ => Nonterminal.Exits .skipToStatement standing := by
  refine .bind (leads_advance hsettled fun next _ => leads_if ?_)
  have hends {last : Standing} (hlast : standing.Passes 1 last) : Nonterminal.Exits .skipToStatement standing last :=
    ⟨hlast.1, .inr hlast.2.2, hlast.2.1⟩
  refine leads_stopped (fun _ => leads_pure (hends (by omega))) fun _ _ => leads_if ?_
  refine leads_currentIn (by omega) (fun _ last _ => leads_pure (hends (by omega))) fun _ last _ => ?_
  refine leads_call ⟨by omega, ?_, fun _ => by omega⟩ ?_ fun final hfinal => hends ?_
  · simp only [Nonterminal.needs]
    omega
  · simp only [Nonterminal.weight, Nonterminal.rank]
    omega
  · obtain ⟨hlater, hspent, hmoved⟩ := hfinal
    simp only [Nonterminal.tries, Nonterminal.margin] at hspent
    omega

/-! ### Values -/

theorem leads_startsExpressionOrTable (hlooks : standing.spent + 2 ≤ room)
    (hyes : TokenSet.expressionFirst.contains standing.here = true ∨ standing.here = .braceOpen →
      ∀ next, standing.Looked 2 next → yes next)
    (hno : ∀ next, standing.Looked 2 next → no next) :
    startsExpressionOrTable.Leads room weight standing (Answers yes no) := by
  have htwice {next : Standing} (hnext : standing.Looked 1 next) : standing.Looked 2 next :=
    ⟨by omega, by omega, by omega, by omega, by omega, by omega, hnext.2.2.2.2.2.2⟩
  refine leads_orM (leads_currentIn (by omega) (fun hin next hnext => hyes (.inl hin) next (htwice hnext)) ?_)
  intro _ next hnext
  refine leads_currentIs (by omega) (fun hbrace last hlast => hyes (.inr ?_) last (hnext.trans hlast)) fun _ last hlast => ?_
  · rw [← hnext.here_eq, hbrace]
  · exact hno last (hnext.trans hlast)

theorem leads_literal {kind : Kind} (hsettled : standing.raw = standing.left) (hyes : ∀ next, standing.Moved next → yes next)
    (hno : literalNode? kind = none → no standing) : (literal kind).Leads room weight standing (Answers yes no) := by
  rw [literal]
  split
  · next hnone => exact leads_pure (hno hnone)
  · exact .bind (leads_node (leads_advance hsettled fun next hnext => leads_pure (hyes next hnext)))

theorem leads_negativeLiteral (hlooks : standing.spent < room) (hpaired : standing.paired = true)
    (hended : ∀ next, standing.Moved next → ended () next) : negativeLiteral.Leads room weight standing ended := by
  refine .bind (leads_ofStep hlooks fun _ next (hnext : standing.Looked 1 next) => leads_node ?_)
  refine .bind (leads_ofStep (show next.raw = next.left by omega) fun _ last hlast => leads_advance ?_ fun final _ => ?_)
  · exact hlast.2.2 (hnext.2.2.2.2.2.2.2.trans hpaired)
  · have hmoved : next.Moved last := hlast.1
    exact hended final (by omega)

/-! ### Collections -/

theorem leads_array (hready : standing.Ready room weight) (hended : ∀ next, standing.Passes 12 next → ended () next) :
    array.Leads room weight standing ended :=
  leads_node (leads_delimited rfl 10 rfl (by decide) (by decide) hready hended)

theorem leads_table (hready : standing.Ready room weight) (hended : ∀ next, standing.Passes 12 next → ended () next) :
    table.Leads room weight standing ended :=
  leads_node (leads_delimited rfl 10 rfl (by decide) (by decide) hready hended)

theorem leads_elements (hopens : standing.Opens room weight 3)
    (hlooks : standing.spent + 6 * min standing.slack standing.raw ≤ room) :
    elements.Leads room weight standing fun _ => standing.Costs (5 * min standing.slack standing.raw) 10 := by
  refine leads_if (leads_orM (leads_stopped (fun _ => leads_pure (by omega)) fun _ _ => ?_))
  refine leads_currentIs (by omega) (fun _ next _ => leads_pure (by omega)) fun _ next hnext => leads_if ?_
  refine leads_startsExpressionOrTable (by omega) (fun hstarts last hlast => .bind ?_) fun last _ => ?_
  · refine leads_callExpression (by omega) fun value _ _ hadvanced => ?_
    have hmoved := hadvanced (by omega) (by rwa [hlast.here_eq])
    refine leads_given (leads_eat (by omega) (fun _ final _ => ?_) fun _ final _ => ?_)
    · exact leads_callList rfl 10 rfl (by omega) fun there _ => by omega
    · exact leads_callList rfl 10 rfl (by omega) fun there _ => by omega
  · refine leads_then (last.Costs 1 1) ?_ fun skipped _ => leads_if ?_
    · exact leads_recover (by omega) (by omega) (by omega) (fun skipped _ _ => by omega) fun skipped _ => by omega
    · refine leads_eat (by omega) (fun _ final _ => ?_) fun _ final _ => leads_pure (by omega)
      exact leads_callList rfl 10 rfl (by omega) fun there _ => by omega

theorem leads_constValue (hready : standing.Ready room weight) (hlooks : standing.spent + 2 ≤ room)
    (hweight : 4 * (standing.raw + standing.slack) + 1 < weight) (hended : ∀ next, standing.Costs 1 12 next → ended () next) :
    constValue.Leads room weight standing ended := by
  refine .bind (leads_current (by omega) fun next hnext => ?_)
  split
  · refine .bind (leads_ofStep trivial fun answer last hlast => ?_)
    obtain ⟨hlooked, hpaired⟩ := hlast
    cases answer with
    | true =>
      refine leads_negativeLiteral (by omega) ?_ fun final _ => hended final (by omega)
      exact hlooked.2.2.2.2.2.2.2.trans (hpaired rfl)
    | false => exact leads_reportHere fun final _ => hended final (by omega)
  · exact leads_array (by omega) fun last _ => hended last (by omega)
  · exact leads_table (by omega) fun last _ => hended last (by omega)
  · exact leads_callExpression (by omega) fun last _ _ _ => hended last (by omega)
  · exact leads_callExpression (by omega) fun last _ _ _ => hended last (by omega)
  · exact leads_callExpression (by omega) fun last _ _ _ => hended last (by omega)
  · next hgarbage =>
    refine leads_advanceGarbage (by omega) ?_ fun last _ => hended last (by omega)
    rw [hnext.here_eq, hgarbage]
    decide
  · refine leads_if (leads_literal (by omega) (fun last _ => leads_pure (hended last (by omega))) fun _ => ?_)
    exact leads_reportHere fun last _ => hended last (by omega)

theorem leads_callArguments (hready : standing.Ready room weight) (hlooks : standing.spent + 2 ≤ room)
    (hpasses : ∀ next, standing.Passes 14 next → ended () next)
    (hstays : standing.here ≠ .parenOpen → ∀ next, standing.Later next → next.spent ≤ standing.spent + 2 → ended () next) :
    callArguments.Leads room weight standing ended := by
  refine leads_node (leads_if (leads_currentIs (by omega) (fun _ next _ => ?_) fun hhere next _ => leads_given ?_))
  · exact leads_delimited rfl 12 rfl (by decide) (by decide) (by omega) fun last _ => hpasses last (by omega)
  · refine leads_expect (by omega) (fun _ last _ => leads_pure ?_) fun _ last _ => leads_pure ?_
    · exact hstays hhere last (by omega) (by omega)
    · exact hstays hhere last (by omega) (by omega)

theorem leads_arguments (hopens : standing.Opens room weight 3)
    (hlooks : standing.spent + 6 * min standing.slack standing.raw ≤ room) :
    arguments.Leads room weight standing fun _ => standing.Costs (5 * min standing.slack standing.raw) 12 := by
  refine leads_if (leads_orM (leads_stopped (fun _ => leads_pure (by omega)) fun _ _ => ?_))
  refine leads_currentIs (by omega) (fun _ next _ => leads_pure (by omega)) fun _ next hnext => ?_
  have hcomma {last : Standing} (hlast : standing.Costs 4 1 last) :
      (eat .comma >>= fun found => if found = true then call .arguments else pure () : Rule Unit).Leads room weight last
        fun _ => standing.Costs (5 * min standing.slack standing.raw) 12 := by
    refine leads_if (leads_eat (by omega) (fun _ final _ => ?_) fun _ final _ => leads_pure (by omega))
    exact leads_callList rfl 12 rfl (by omega) fun there _ => by omega
  refine leads_if (leads_startsExpressionOrTable (by omega) (fun _ last _ => .bind ?_) fun last _ => ?_)
  · exact leads_callExpression (by omega) fun value _ _ _ => hcomma (by omega)
  · refine leads_then (last.Costs 1 1) ?_ fun skipped _ => hcomma (by omega)
    exact leads_recover (by omega) (by omega) (by omega) (fun skipped _ _ => by omega) fun skipped _ => by omega

/-! ### Parameters -/

theorem leads_parameters (hready : standing.Ready room weight) (hlooks : standing.spent + 2 ≤ room)
    (hended : ∀ next, standing.Costs 2 15 next → ended () next) : parameters.Leads room weight standing ended := by
  refine leads_node (leads_if (leads_currentIs (by omega) (fun _ next _ => ?_) fun _ next _ => ?_))
  · exact leads_delimited rfl 13 rfl (by decide) (by decide) (by omega) fun last _ => hended last (by omega)
  · refine leads_given (leads_expect (by omega) (fun _ last _ => ?_) fun _ last _ => ?_)
    · exact leads_pure (hended last (by omega))
    · exact leads_pure (hended last (by omega))

theorem leads_checkVariadics {count : Nat} {variadics : List (Nat × Span)} (hended : ended () standing) :
    (checkVariadics count variadics).Leads room weight standing ended := by
  induction variadics with
  | nil => exact leads_pure hended
  | cons first rest ih =>
    rw [checkVariadics]
    split
    · exact .bind (leads_still trivial (fun _ _ hstill => hstill) fun _ => ih)
    · exact ih

theorem leads_parameterList {variadics : List (Nat × Span)} {count : Nat} (hopens : standing.Opens room weight 3)
    (hlooks : standing.spent + 6 * min standing.slack standing.raw ≤ room) :
    (parameterList variadics count).Leads room weight standing fun _ => standing.Costs (5 * min standing.slack standing.raw) 13 := by
  have hcomma {last : Standing} (hlast : standing.Costs 4 12 last)
      (hslack : standing.slack ≠ 0) (hraw : standing.raw ≠ 0) {more others : List (Nat × Span)} {next stop : Nat} :
      (eat .comma >>= fun found =>
        if found = true then call (.parameterList more next) else checkVariadics stop others : Rule Unit).Leads room weight
        last fun _ => standing.Costs (5 * min standing.slack standing.raw) 13 := by
    refine leads_if (leads_eat (by omega) (fun _ final _ => ?_) fun _ final _ => leads_checkVariadics (by omega))
    exact leads_callList rfl 13 rfl (by omega) fun there _ => by omega
  refine leads_if (leads_orM (leads_stopped (fun _ => leads_checkVariadics (by omega)) fun hraw hslack => ?_))
  refine leads_currentIs (by omega) (fun _ next _ => leads_checkVariadics (by omega)) fun _ next _ => ?_
  refine .bind (leads_current (by omega) fun last _ => ?_)
  split
  · refine .bind (leads_node (.bind (leads_advance (by omega) fun name _ => ?_)))
    refine leads_if (leads_eat (by omega) (fun _ value _ => ?_) fun _ value _ => leads_pure (hcomma (by omega) hslack hraw))
    exact leads_constValue (by omega) (by omega) (by omega) fun there _ => hcomma (by omega) hslack hraw
  · refine .bind (leads_currentSpan fun _ dots _ => .bind (leads_node (leads_advance (by omega) fun there _ => ?_)))
    exact hcomma (by omega) hslack hraw
  · refine leads_then (last.Costs 1 1) ?_ fun skipped _ => hcomma (by omega) hslack hraw
    exact leads_recover (by omega) (by omega) (by omega) (fun skipped _ _ => by omega) fun skipped _ => by omega

end

end Grammar

end Squirrel
