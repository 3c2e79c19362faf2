import Squirrel.Proofs.Grammar.Allowance.Rule

/-!
# What expressions and definitions take

Between two moves the rules of the grammar look at a token a dozen times, and they open at most three nonterminals.
-/

namespace Squirrel

/-- Nonterminals that repeat something and stand between delimiters, or before something else that passes a token. -/
def Nonterminal.isList : Nonterminal → Bool
  | expression .. | operators .. | statement | caseStatements | skipUntil _ | skipToStatement => false
  | _ => true

/-- Calls with enough nonterminals left. At most three are opened in a row before a token is passed: one that repeats
something, a statement and an expression. -/
structure AffordableCalls (fuel : Nat) : Prop where
  expression {power : Nat} {tableAllowed : Bool} {tokens looks : Nat} {result : Unit → Nat → Nat → Prop} :
    3 * tokens + 1 ≤ fuel → Grammar.Moved tokens (result ()) →
      (Grammar.call (.expression power tableAllowed)).Runs fuel tokens looks result
  operators {start power : Nat} {tokens looks : Nat} {result : Unit → Nat → Nat → Prop} :
    3 * tokens + 1 ≤ fuel → 20 ≤ looks → Grammar.Stayed tokens looks (result ()) →
      (Grammar.call (.operators start power)).Runs fuel tokens looks result
  statement {tokens looks : Nat} {result : Unit → Nat → Nat → Prop} :
    3 * tokens + 2 ≤ fuel → (∀ left more, left ≤ tokens - 1 ∧ 200 ≤ more → result () left more) →
      (Grammar.call .statement).Runs fuel tokens looks result
  -- the statements of a clause end where the list of clauses goes on
  caseStatements {tokens looks : Nat} {result : Unit → Nat → Nat → Prop} :
    3 * tokens + 3 ≤ fuel → 20 ≤ looks → (∀ left less, left ≤ tokens ∧ min looks 100 ≤ less + 5 → result () left less) →
      (Grammar.call .caseStatements).Runs fuel tokens looks result
  list {nonterminal : Nonterminal} {tokens looks : Nat} {result : Unit → Nat → Nat → Prop} :
    nonterminal.isList = true → 3 * tokens + 3 ≤ fuel → 20 ≤ looks → Grammar.Stayed tokens looks (result ()) →
      (Grammar.call nonterminal).Runs fuel tokens looks result

namespace Grammar

open Rule

variable {fuel tokens looks : Nat} {result : Unit → Nat → Nat → Prop}

/-! ### Building blocks -/

/-- The end of a list, which is the end of the source or its closer. -/
theorem runs_ending {closer : Rule Bool} {result : Bool → Nat → Nat → Prop} (hyes : result true 0 looks)
    (hcloser : 0 < tokens → closer.Runs fuel tokens looks result) :
    (stopped <||> closer).Runs fuel tokens looks result :=
  runs_bind (runs_stopped (runs_pure hyes) hcloser)

theorem runs_startsExpressionOrTable {result : Bool → Nat → Nat → Prop} (hlooks : 1 < looks)
    (hresult : ∀ answer less, looks - 2 ≤ less → result answer tokens less) :
    startsExpressionOrTable.Runs fuel tokens looks result := by
  refine runs_bind (runs_currentIn (Nat.zero_lt_of_lt hlooks) fun answer => ?_)
  cases answer with
  | true => exact runs_pure (hresult true _ (by omega))
  | false => exact runs_currentIs (Nat.sub_pos_of_lt hlooks) fun answer => hresult answer _ (by omega)

theorem runs_literal {kind : Kind} {result : Bool → Nat → Nat → Prop} (hyes : Moved tokens (result true))
    (hno : result false tokens looks) : (literal kind).Runs fuel tokens looks result := by
  rw [literal]
  split
  · exact runs_pure hno
  · exact runs_bind (runs_node (runs_advance fun _ _ hmoved => runs_pure (hyes _ _ hmoved)))

theorem runs_negativeLiteral (hlooks : 0 < looks) (hresult : Moved tokens (result ())) :
    negativeLiteral.Runs fuel tokens looks result := by
  refine runs_bind (runs_step hlooks fun number => runs_node (runs_bind (runs_advance fun _ _ hmoved => ?_)))
  exact runs_advance fun _ _ _ => hresult _ _ (by omega)

theorem runs_checkVariadics {count : Nat} {variadics : List (Nat × Span)} (hresult : result () tokens looks) :
    (checkVariadics count variadics).Runs fuel tokens looks result := by
  induction variadics with
  | nil => exact runs_pure hresult
  | cons variadic rest ih =>
    rw [checkVariadics]
    split
    · exact runs_deadBind fun _ _ => rfl
    · exact ih

theorem runs_reportHere {kind : DiagnosticKind} {detail : Option String} :
    (reportHere kind detail).Runs fuel tokens looks result :=
  runs_dead fun _ _ => read_reportHere ..

theorem runs_recover {kind : DiagnosticKind} {detail : String} {recovery : TokenSet} {next : Unit → Rule Unit} :
    (recover kind detail recovery >>= next).Runs fuel tokens looks result :=
  runs_deadBind fun _ _ => read_recover ..

theorem runs_terminator {what : String} (hlooks : 100 ≤ looks) (hresult : Kept tokens (result ())) :
    (expectTerminator what).Runs fuel tokens looks result := by
  have hend {answer : Bool} {left less : Nat} (hleft : left ≤ tokens ∧ 50 ≤ less) :
      (if answer = true then pure () else reportHere .expectedTerminator (some ("`;` or a line break after " ++ what)) :
        Rule Unit).Runs fuel left less result :=
    runs_ite (runs_pure (hresult _ _ hleft)) runs_reportHere
  refine runs_bind (runs_orM (runs_eat (by omega) (fun _ _ _ => ⟨fun _ => hend (by omega), nofun⟩) ⟨nofun, fun _ => ?_⟩))
  refine runs_orM (runs_glance rfl rfl fun _ => ⟨fun _ => hend (by omega), fun _ => ?_⟩)
  refine runs_orM (runs_currentIs (by omega) fun _ => ⟨fun _ => hend (by omega), fun _ => ?_⟩)
  exact runs_glance rfl rfl fun _ => hend (by omega)

theorem runs_advanceGarbage (hlooks : 20 ≤ looks) (hresult : ∀ left less, left ≤ tokens - 1 ∧ 10 ≤ less → result () left less) :
    advanceGarbage.Runs fuel tokens looks result := by
  refine runs_bind (runs_current (by omega) fun _ => runs_bind (runs_atEnd (runs_pure (hresult _ _ (by omega))) fun _ => ?_))
  exact runs_node (runs_advance fun _ _ _ => hresult _ _ (by omega))

theorem read_whole_garbage {readCall : Nonterminal → View → Option View} {view : View}
    (hhere : Word.here view.words = .garbage) :
    (advanceGarbage >>= fun _ => (pure true : Rule Bool)).read readCall view = none := by
  rw [read_bind, read_advanceGarbage hhere]
  rfl

section

variable (hcalls : AffordableCalls fuel)

include hcalls

/-- A list between its delimiters. -/
theorem runs_between {kind close : Kind} {construct : String} {nonterminal : Nonterminal}
    (hlist : nonterminal.isList = true) (hfuel : 3 * tokens ≤ fuel) (hresult : Moved tokens (result ())) :
    (openDelimiter kind >>= fun _ => call nonterminal >>= fun _ => closeDelimiter close construct).Runs fuel tokens looks
      result := by
  refine runs_bind (runs_open fun _ _ _ => runs_bind (hcalls.list hlist (by omega) (by omega) fun _ _ _ => ?_))
  exact runs_close (by omega) fun _ _ _ => hresult _ _ (by omega)

/-! ### Collections -/

theorem runs_array (hfuel : 3 * tokens ≤ fuel) (hresult : Moved tokens (result ())) :
    array.Runs fuel tokens looks result :=
  runs_node (runs_between hcalls rfl hfuel hresult)

theorem runs_elements (hfuel : 3 * tokens + 2 ≤ fuel) (hlooks : 20 ≤ looks) (hresult : Stayed tokens looks (result ())) :
    elements.Runs fuel tokens looks result := by
  refine runs_bind (runs_ending (runs_pure (hresult _ _ (by omega))) fun _ => runs_currentIs (by omega) fun _ => ?_)
  refine runs_ite (runs_pure (hresult _ _ (by omega))) ?_
  refine runs_bind (runs_startsExpressionOrTable (by omega) fun _ _ _ => runs_ite ?_ runs_recover)
  refine runs_bind (hcalls.expression (by omega) fun _ _ _ => runs_bind (runs_eat (by omega) (fun _ _ _ => ?_) ?_))
  all_goals exact hcalls.list rfl (by omega) (by omega) fun _ _ _ => hresult _ _ (by omega)

theorem runs_table (hfuel : 3 * tokens ≤ fuel) (hresult : Moved tokens (result ())) :
    table.Runs fuel tokens looks result :=
  runs_node (runs_between hcalls rfl hfuel hresult)

theorem runs_constValue (hfuel : 3 * tokens + 1 ≤ fuel) (hlooks : 2 ≤ looks) (hresult : Moved tokens (result ())) :
    constValue.Runs fuel tokens looks result := by
  refine runs_currentAccepted (by omega) (fun _ _ => read_advanceGarbage) fun kind hkind => ?_
  split
  · exact runs_bind (runs_glance rfl rfl fun _ => runs_ite (runs_negativeLiteral (by omega) hresult) runs_reportHere)
  · exact runs_array hcalls (by omega) hresult
  · exact runs_table hcalls (by omega) hresult
  · exact hcalls.expression hfuel hresult
  · exact hcalls.expression hfuel hresult
  · exact hcalls.expression hfuel hresult
  · exact absurd rfl hkind
  · refine runs_bind (runs_literal (fun _ _ hmoved => runs_pure (hresult _ _ hmoved)) ?_)
    exact runs_reportHere

theorem runs_callArguments (hfuel : 3 * tokens ≤ fuel) (hlooks : 2 ≤ looks) (hresult : Moved tokens (result ())) :
    callArguments.Runs fuel tokens looks result := by
  refine runs_node (runs_bind (runs_currentIs (by omega) fun _ => runs_ite (runs_between hcalls rfl hfuel hresult) ?_))
  exact runs_bind (runs_expect (by omega) fun _ _ hmoved => runs_pure (hresult _ _ hmoved))

theorem runs_arguments (hfuel : 3 * tokens + 2 ≤ fuel) (hlooks : 20 ≤ looks) (hresult : Stayed tokens looks (result ())) :
    arguments.Runs fuel tokens looks result := by
  refine runs_bind (runs_ending (runs_pure (hresult _ _ (by omega))) fun _ => runs_currentIs (by omega) fun _ => ?_)
  refine runs_ite (runs_pure (hresult _ _ (by omega))) ?_
  refine runs_bind (runs_startsExpressionOrTable (by omega) fun _ _ _ => runs_ite ?_ runs_recover)
  refine runs_bind (hcalls.expression (by omega) fun _ _ _ => runs_bind (runs_eat (by omega) (fun _ _ _ => ?_) ?_))
  · exact hcalls.list rfl (by omega) (by omega) fun _ _ _ => hresult _ _ (by omega)
  · exact runs_pure (hresult _ _ (by omega))

theorem runs_parameters (hfuel : 3 * tokens ≤ fuel) (hlooks : 2 ≤ looks) (hresult : Moved tokens (result ())) :
    parameters.Runs fuel tokens looks result := by
  refine runs_node (runs_bind (runs_currentIs (by omega) fun _ => runs_ite (runs_between hcalls rfl hfuel hresult) ?_))
  exact runs_bind (runs_expect (by omega) fun _ _ hmoved => runs_pure (hresult _ _ hmoved))

theorem runs_parameterList (variadics : List (Nat × Span)) (count : Nat) (hfuel : 3 * tokens + 2 ≤ fuel)
    (hlooks : 20 ≤ looks) (hresult : Stayed tokens looks (result ())) :
    (parameterList variadics count).Runs fuel tokens looks result := by
  refine runs_bind (runs_ending (runs_checkVariadics (hresult _ _ (by omega))) fun _ =>
    runs_currentIs (by omega) fun _ => runs_ite (runs_checkVariadics (hresult _ _ (by omega))) ?_)
  refine runs_bind (runs_current (by omega) fun kind => ?_)
  -- what follows a parameter
  have hnext {left less : Nat} {variadics : List (Nat × Span)} (hleft : left < tokens ∧ 150 ≤ less) :
      (eat .comma >>= fun found => if found = true then call (.parameterList variadics (count + 1))
        else checkVariadics (count + 1) variadics).Runs fuel left less result := by
    refine runs_bind (runs_eat (by omega) (fun _ _ _ => ?_) (runs_checkVariadics (hresult _ _ (by omega))))
    exact hcalls.list rfl (by omega) (by omega) fun _ _ _ => hresult _ _ (by omega)
  split
  · refine runs_bind (runs_node (runs_bind (runs_advance fun _ _ _ => ?_)))
    refine runs_bind (runs_eat (by omega) (fun _ _ _ => ?_) (runs_pure (hnext (by omega))))
    exact runs_constValue hcalls (by omega) (by omega) fun _ _ _ => hnext (by omega)
  · refine runs_bind (runs_step (Nat.zero_le _) fun _ => runs_bind (runs_node (runs_advance fun _ _ _ => ?_)))
    exact hnext (by omega)
  · exact runs_recover

/-! ### Definitions -/

theorem runs_body {owner : String} (hfuel : 3 * tokens + 2 ≤ fuel) (hlooks : 2 ≤ looks)
    (hresult : ∀ left more, left ≤ tokens ∧ 200 ≤ more → result () left more) :
    (body owner).Runs fuel tokens looks result := by
  refine runs_bind (runs_currentIn (by omega) fun _ => runs_ite ?_ runs_reportHere)
  exact hcalls.statement hfuel fun _ _ _ => hresult _ _ (by omega)

theorem runs_path (separator : Kind) (hfuel : 3 * tokens + 2 ≤ fuel) (hlooks : 20 ≤ looks)
    (hresult : Stayed tokens looks (result ())) : (path separator).Runs fuel tokens looks result := by
  refine runs_bind (runs_eat (by omega) (fun _ _ _ => ?_) (runs_pure (hresult _ _ (by omega))))
  refine runs_bind (runs_expect (by omega) fun _ _ _ => ?_)
  exact hcalls.list rfl (by omega) (by omega) fun _ _ _ => hresult _ _ (by omega)

theorem runs_functionDeclaration (hfuel : 3 * tokens ≤ fuel) (hresult : Passed tokens (result ())) :
    functionDeclaration.Runs fuel tokens looks result := by
  refine runs_node (runs_bind (runs_advance fun _ _ _ => runs_bind (runs_expect (by omega) fun _ _ _ => ?_)))
  refine runs_bind (hcalls.list rfl (by omega) (by omega) fun _ _ _ => ?_)
  refine runs_bind (runs_parameters hcalls (by omega) (by omega) fun _ _ _ => ?_)
  exact runs_body hcalls (by omega) (by omega) fun _ _ _ => hresult _ _ (by omega)

theorem runs_attributes (hfuel : 3 * tokens ≤ fuel) (hresult : Moved tokens (result ())) :
    attributes.Runs fuel tokens looks result :=
  runs_node (runs_between hcalls rfl hfuel hresult)

theorem runs_attributesGoOn (hfuel : 3 * tokens + 3 ≤ fuel) (hlooks : 100 ≤ looks)
    (hresult : Stayed tokens looks (result ())) : attributesGoOn.Runs fuel tokens looks result := by
  have hnext {answer : Bool} {left less : Nat} (hleft : left ≤ tokens ∧ 50 ≤ less) :
      (if answer = true then call .attributeList else pure ()).Runs fuel left less result :=
    runs_ite (hcalls.list rfl (by omega) (by omega) fun _ _ _ => hresult _ _ (by omega))
      (runs_pure (hresult _ _ (by omega)))
  refine runs_bind (runs_orM (runs_eat (by omega) (fun _ _ _ => ⟨fun _ => hnext (by omega), nofun⟩) ⟨nofun, fun _ => ?_⟩))
  exact runs_currentIs (by omega) fun _ => hnext (by omega)

theorem runs_attributeList (hfuel : 3 * tokens + 2 ≤ fuel) (hlooks : 20 ≤ looks)
    (hresult : Stayed tokens looks (result ())) : attributeList.Runs fuel tokens looks result := by
  refine runs_bind (runs_ending (runs_pure (hresult _ _ (by omega))) fun _ => runs_currentIs (by omega) fun _ => ?_)
  refine runs_ite (runs_pure (hresult _ _ (by omega))) (runs_bind (runs_currentIs (by omega) fun _ => ?_))
  refine runs_ite (runs_bind (runs_node (runs_bind (runs_advance fun _ _ _ => ?_)))) runs_recover
  refine runs_bind (runs_expect (by omega) fun _ _ _ => ?_)
  refine runs_constValue hcalls (by omega) (by omega) fun _ _ _ => ?_
  exact runs_attributesGoOn hcalls (by omega) (by omega) fun _ _ _ => hresult _ _ (by omega)

theorem runs_optionalAttributes (hfuel : 3 * tokens ≤ fuel) (hlooks : 1 ≤ looks) (hyes : Moved tokens (result ()))
    (hno : result () tokens (looks - 1)) : optionalAttributes.Runs fuel tokens looks result :=
  runs_bind (runs_currentIs (by omega) fun _ => runs_ite (runs_attributes hcalls hfuel hyes) (runs_pure hno))

theorem runs_memberValue {isNamed : Bool} {what : String} (hfuel : 3 * tokens + 1 ≤ fuel) (hlooks : 100 ≤ looks)
    (hresult : Kept tokens (result ())) : (memberValue isNamed what).Runs fuel tokens looks result := by
  have hend {left less : Nat} (hleft : left ≤ tokens ∧ 100 ≤ less) :
      (eat .semicolon >>= fun _ => (pure () : Rule Unit)).Runs fuel left less result :=
    runs_bind (runs_eat (by omega) (fun _ _ _ => runs_pure (hresult _ _ (by omega))) (runs_pure (hresult _ _ (by omega))))
  refine runs_ite (runs_bind (runs_expect (by omega) fun _ _ _ => runs_bind ?_)) (hend (by omega))
  exact hcalls.expression (by omega) fun _ _ _ => hend (by omega)

/-- What follows the attributes of a member. -/
theorem runs_memberBody {left less : Nat} (hfuel : 3 * tokens + 1 ≤ fuel) (hleft : left ≤ tokens ∧ 9 ≤ less)
    (hresult : Passed tokens (result ())) :
    (do
    let kind ← current
    match kind with
    | .kwStatic | .id =>
      let _ ← eat .kwStatic
      let isNamed ← expect .id "field name"
      memberValue isNamed "`=` after field name"
    | .bracketOpen =>
      openDelimiter .bracketOpen
      expression
      closeDelimiter .bracketClose "computed member name"
      memberValue true "`=` after computed member name"
    | .kwFunction => functionDeclaration
    | .kwConstructor =>
      advance
      parameters
      body "constructor body"
    | _ => reportHere .expectedMember (some "after attributes") : Rule Unit).Runs fuel left less result := by
  have hfield {left less : Nat} (hleft : left ≤ tokens ∧ 2 ≤ less) :
      (expect .id "field name" >>= fun isNamed => memberValue isNamed "`=` after field name").Runs fuel left less
        result := by
    refine runs_bind (runs_expect (by omega) fun _ _ _ => ?_)
    exact runs_memberValue hcalls (by omega) (by omega) fun _ _ _ => hresult _ _ (by omega)
  refine runs_bind (runs_current (by omega) fun kind => ?_)
  split
  · exact runs_bind (runs_eat (by omega) (fun _ _ _ => hfield (by omega)) (hfield (by omega)))
  · exact runs_bind (runs_eat (by omega) (fun _ _ _ => hfield (by omega)) (hfield (by omega)))
  · refine runs_bind (runs_open fun _ _ _ => runs_bind (hcalls.expression (by omega) fun _ _ _ => ?_))
    refine runs_bind (runs_close (by omega) fun _ _ _ => ?_)
    exact runs_memberValue hcalls (by omega) (by omega) fun _ _ _ => hresult _ _ (by omega)
  · exact runs_functionDeclaration hcalls (by omega) fun _ _ _ => hresult _ _ (by omega)
  · refine runs_bind (runs_advance fun _ _ _ => runs_bind (runs_parameters hcalls (by omega) (by omega) fun _ _ _ => ?_))
    exact runs_body hcalls (by omega) (by omega) fun _ _ _ => hresult _ _ (by omega)
  · exact runs_reportHere

theorem runs_member (hfuel : 3 * tokens + 1 ≤ fuel) (hlooks : 10 ≤ looks) (hresult : Passed tokens (result ())) :
    member.Runs fuel tokens looks result := by
  refine runs_node (runs_bind (runs_optionalAttributes hcalls (by omega) (by omega) (fun _ _ _ => ?_) ?_))
  · exact runs_memberBody hcalls hfuel (by omega) hresult
  · exact runs_memberBody hcalls hfuel (by omega) hresult

theorem runs_members (hfuel : 3 * tokens + 2 ≤ fuel) (hlooks : 20 ≤ looks) (hresult : Stayed tokens looks (result ())) :
    members.Runs fuel tokens looks result := by
  refine runs_bind (runs_ending (runs_pure (hresult _ _ (by omega))) fun _ => runs_currentIs (by omega) fun _ => ?_)
  refine runs_ite (runs_pure (hresult _ _ (by omega))) (runs_bind (runs_currentIn (by omega) fun _ => ?_))
  refine runs_ite (runs_bind (runs_member hcalls (by omega) (by omega) fun _ _ _ => ?_)) runs_recover
  exact hcalls.list rfl (by omega) (by omega) fun _ _ _ => hresult _ _ (by omega)

theorem runs_classDeclaration (hfuel : 3 * tokens ≤ fuel) (hresult : Passed tokens (result ())) :
    classDeclaration.Runs fuel tokens looks result := by
  -- what follows the attributes, and what follows the base
  have hbody {left less : Nat} (hleft : left < tokens ∧ 4 ≤ less) : (do
      if ← currentIs .braceOpen then
        openDelimiter .braceOpen
        call .members
        closeDelimiter .braceClose "class body"
      else
        let _ ← expect .braceOpen "`\x7b` to open class body" : Rule Unit).Runs fuel left less result := by
    refine runs_bind (runs_currentIs (by omega) fun _ => runs_ite ?_ ?_)
    · exact runs_between hcalls rfl (by omega) fun _ _ _ => hresult _ _ (by omega)
    · exact runs_bind (runs_expect (by omega) fun _ _ _ => runs_pure (hresult _ _ (by omega)))
  have hrest {left less : Nat} (hleft : left < tokens ∧ 6 ≤ less) : (do
      optionalAttributes
      if ← currentIs .braceOpen then
        openDelimiter .braceOpen
        call .members
        closeDelimiter .braceClose "class body"
      else
        let _ ← expect .braceOpen "`\x7b` to open class body" : Rule Unit).Runs fuel left less result := by
    refine runs_bind (runs_optionalAttributes hcalls (by omega) (by omega) (fun _ _ _ => hbody (by omega)) ?_)
    exact hbody (by omega)
  refine runs_node (runs_bind (runs_advance fun _ _ _ => runs_bind (runs_expect (by omega) fun _ _ _ => ?_)))
  refine runs_bind (hcalls.list rfl (by omega) (by omega) fun _ _ _ => ?_)
  refine runs_bind (runs_eat (by omega) (fun _ _ _ => ?_) (hrest (by omega)))
  exact runs_bind (runs_expect (by omega) fun _ _ _ => hrest (by omega))

theorem runs_enumEntries (hfuel : 3 * tokens + 2 ≤ fuel) (hlooks : 20 ≤ looks) (hresult : Stayed tokens looks (result ())) :
    enumEntries.Runs fuel tokens looks result := by
  refine runs_bind (runs_ending (runs_pure (hresult _ _ (by omega))) fun _ => runs_currentIs (by omega) fun _ => ?_)
  refine runs_ite (runs_pure (hresult _ _ (by omega))) (runs_bind (runs_currentIs (by omega) fun _ => ?_))
  have hnext {left less : Nat} (hleft : left < tokens ∧ 150 ≤ less) :
      (eat .comma >>= fun found => if found = true then call .enumEntries else pure ()).Runs fuel left less result := by
    refine runs_bind (runs_eat (by omega) (fun _ _ _ => ?_) (runs_pure (hresult _ _ (by omega))))
    exact hcalls.list rfl (by omega) (by omega) fun _ _ _ => hresult _ _ (by omega)
  refine runs_ite (runs_bind (runs_node (runs_bind (runs_advance fun _ _ _ => ?_)))) runs_recover
  refine runs_bind (runs_eat (by omega) (fun _ _ _ => ?_) (runs_pure (hnext (by omega))))
  exact runs_constValue hcalls (by omega) (by omega) fun _ _ _ => hnext (by omega)

theorem runs_enumDeclaration (hfuel : 3 * tokens ≤ fuel) (hresult : Passed tokens (result ())) :
    enumDeclaration.Runs fuel tokens looks result := by
  have hrest {left less : Nat} (hleft : left < tokens ∧ 4 ≤ less) : (do
      if ← currentIs .braceOpen then
        openDelimiter .braceOpen
        call .enumEntries
        closeDelimiter .braceClose "enum body"
        let _ ← eat .semicolon
      else
        let _ ← expect .braceOpen "`\x7b` to open enum body" : Rule Unit).Runs fuel left less result := by
    refine runs_bind (runs_currentIs (by omega) fun _ => runs_ite ?_ ?_)
    · refine runs_bind (runs_open fun _ _ _ => runs_bind (hcalls.list rfl (by omega) (by omega) fun _ _ _ => ?_))
      refine runs_bind (runs_close (by omega) fun _ _ _ => runs_bind (runs_eat (by omega) (fun _ _ _ => ?_) ?_))
      all_goals exact runs_pure (hresult _ _ (by omega))
    · exact runs_bind (runs_expect (by omega) fun _ _ _ => runs_pure (hresult _ _ (by omega)))
  refine runs_node (runs_bind (runs_advance fun _ _ _ => runs_bind (runs_expect (by omega) fun _ _ _ => runs_bind ?_)))
  exact runs_optionalAttributes hcalls (by omega) (by omega) (fun _ _ _ => hrest (by omega)) (hrest (by omega))

theorem runs_constDeclaration (hfuel : 3 * tokens ≤ fuel) (hresult : Passed tokens (result ())) :
    constDeclaration.Runs fuel tokens looks result := by
  refine runs_node (runs_bind (runs_advance fun _ _ _ => runs_bind (runs_expect (by omega) fun _ _ _ => ?_)))
  refine runs_bind (runs_expect (by omega) fun _ _ _ => ?_)
  refine runs_bind (runs_constValue hcalls (by omega) (by omega) fun _ _ _ => ?_)
  exact runs_terminator (by omega) fun _ _ _ => hresult _ _ (by omega)

/-! ### Expressions -/

theorem runs_operand (tableAllowed : Bool) {result : Bool → Nat → Nat → Prop} (hfuel : 3 * tokens ≤ fuel)
    (hlooks : 10 ≤ looks) (hyes : Passed tokens (result true)) (hno : result false tokens (looks - 1)) :
    (operand tableAllowed).Runs fuel tokens looks result := by
  have whole {rule : Rule Unit} (hrule : ∀ {result : Unit → Nat → Nat → Prop}, Passed tokens (result ()) →
      rule.Runs fuel tokens (looks - 1) result) :
      (rule >>= fun _ => (pure true : Rule Bool)).Runs fuel tokens (looks - 1) result :=
    runs_bind (hrule fun _ _ _ => runs_pure (hyes _ _ (by omega)))
  have hprefixed {result : Unit → Nat → Nat → Prop} (hresult : Passed tokens (result ())) :
      prefixed.Runs fuel tokens (looks - 1) result := by
    refine runs_node (runs_bind (runs_advance fun _ _ _ => ?_))
    exact hcalls.expression (by omega) fun _ _ _ => hresult _ _ (by omega)
  have hkeyword {kind : Kind} {result : Unit → Nat → Nat → Prop} (hresult : Passed tokens (result ())) :
      (keywordOperand kind).Runs fuel tokens (looks - 1) result := by
    refine runs_node (runs_bind (runs_advance fun _ _ _ => ?_))
    exact hcalls.expression (by omega) fun _ _ _ => hresult _ _ (by omega)
  refine runs_currentAccepted (by omega) (fun _ _ => read_whole_garbage) fun kind hkind => ?_
  split
  · refine runs_bind (runs_glance rfl rfl fun _ => runs_ite (whole fun hresult => ?_) (whole hprefixed))
    exact runs_negativeLiteral (by omega) fun _ _ _ => hresult _ _ (by omega)
  iterate 5 exact whole hprefixed
  · refine whole fun hresult => runs_node (runs_bind (runs_open fun _ _ _ => ?_))
    refine runs_bind (hcalls.expression (by omega) fun _ _ _ => ?_)
    exact runs_close (by omega) fun _ _ _ => hresult _ _ (by omega)
  · exact whole fun hresult => runs_array hcalls hfuel fun _ _ _ => hresult _ _ (by omega)
  · exact whole fun hresult => runs_ite (runs_table hcalls hfuel fun _ _ _ => hresult _ _ (by omega))
      (runs_deadBind fun _ _ => read_reportHere ..)
  · exact whole fun hresult => runs_node (runs_advance fun _ _ _ => hresult _ _ (by omega))
  · refine whole fun hresult => runs_node (runs_bind (runs_advance fun _ _ _ => ?_))
    exact runs_bind (runs_expect (by omega) fun _ _ _ => runs_pure (hresult _ _ (by omega)))
  · refine whole fun hresult => runs_node (runs_bind (runs_advance fun _ _ _ => ?_))
    refine runs_bind (runs_parameters hcalls (by omega) (by omega) fun _ _ _ => ?_)
    exact hcalls.expression (by omega) fun _ _ _ => hresult _ _ (by omega)
  · refine whole fun hresult => runs_node (runs_bind (runs_advance fun _ _ _ => ?_))
    refine runs_bind (runs_parameters hcalls (by omega) (by omega) fun _ _ _ => ?_)
    exact runs_body hcalls (by omega) (by omega) fun _ _ _ => hresult _ _ (by omega)
  iterate 3 exact whole hkeyword
  · refine whole fun hresult => runs_node (runs_bind (runs_advance fun _ _ _ => ?_))
    exact runs_callArguments hcalls (by omega) (by omega) fun _ _ _ => hresult _ _ (by omega)
  · exact absurd rfl hkind
  · exact runs_literal (fun _ _ _ => hyes _ _ (by omega)) hno

theorem runs_suffix (found : Suffix) (hfuel : 3 * tokens ≤ fuel) (hlooks : 2 ≤ looks)
    (hresult : Moved tokens (result ())) : (suffix found).Runs fuel tokens looks result := by
  cases found with
  | member =>
    refine runs_bind (runs_advance fun _ _ _ => runs_bind (runs_expect (by omega) fun _ _ _ => ?_))
    exact runs_pure (hresult _ _ (by omega))
  | index =>
    refine runs_bind (runs_open fun _ _ _ => runs_bind (hcalls.expression (by omega) fun _ _ _ => ?_))
    exact runs_close (by omega) fun _ _ _ => hresult _ _ (by omega)
  | call => exact runs_callArguments hcalls hfuel hlooks hresult
  | increment => exact runs_advance hresult
  | ternary =>
    refine runs_bind (runs_advance fun _ _ _ => runs_bind (hcalls.expression (by omega) fun _ _ _ => ?_))
    refine runs_bind (runs_expect (by omega) fun _ _ _ => ?_)
    exact hcalls.expression (by omega) fun _ _ _ => hresult _ _ (by omega)
  | assignment | update | binary =>
    refine runs_bind (runs_advance fun _ _ _ => ?_)
    exact hcalls.expression (by omega) fun _ _ _ => hresult _ _ (by omega)

theorem runs_operators (start power : Nat) (hfuel : 3 * tokens ≤ fuel) (hlooks : 20 ≤ looks)
    (hresult : Stayed tokens looks (result ())) : (operators start power).Runs fuel tokens looks result := by
  refine runs_bind (runs_stopped (runs_pure (hresult _ _ (by omega))) fun _ => ?_)
  refine runs_bind (runs_current (by omega) fun kind => runs_bind (runs_glance rfl rfl fun afterLineBreak => ?_))
  split
  · exact runs_pure (hresult _ _ (by omega))
  · refine runs_bind (runs_nodeFrom (runs_suffix hcalls _ hfuel (by omega) fun _ _ _ => ?_))
    exact hcalls.operators (by omega) (by omega) fun _ _ _ => hresult _ _ (by omega)

theorem runs_expressionOf (power : Nat) (tableAllowed : Bool) (hfuel : 3 * tokens ≤ fuel)
    (hresult : Moved tokens (result ())) : (expressionOf power tableAllowed).Runs fuel tokens looks result := by
  refine runs_bind (runs_descend fun _ _ => runs_bind (runs_glance rfl rfl fun start => ?_))
  refine runs_bind (runs_operand hcalls tableAllowed hfuel (by omega) (fun _ _ _ => ?_) (runs_deadBind fun _ _ => ?_))
  · refine runs_bind (hcalls.operators (by omega) (by omega) fun _ _ _ => ?_)
    exact runs_ascend fun _ _ => hresult _ _ (by omega)
  · exact read_reportHere ..

theorem runs_slot (hfuel : 3 * tokens + 1 ≤ fuel) (hlooks : 2 ≤ looks) (hresult : Passed tokens (result ())) :
    slot.Runs fuel tokens looks result := by
  refine runs_node (runs_bind (runs_current (by omega) fun kind => runs_bind (runs_glance rfl rfl fun next => ?_)))
  refine runs_ite ?_ (runs_ite ?_ (runs_ite ?_ ?_))
  · refine runs_bind (runs_advance fun _ _ _ => runs_bind (runs_expect (by omega) fun _ _ _ => ?_))
    exact hcalls.expression (by omega) fun _ _ _ => hresult _ _ (by omega)
  · refine runs_bind (runs_open fun _ _ _ => runs_bind (hcalls.expression (by omega) fun _ _ _ => ?_))
    refine runs_bind (runs_close (by omega) fun _ _ _ => runs_bind (runs_expect (by omega) fun _ _ _ => ?_))
    exact hcalls.expression (by omega) fun _ _ _ => hresult _ _ (by omega)
  · exact runs_functionDeclaration hcalls (by omega) hresult
  · refine runs_bind (hcalls.expression hfuel fun _ _ _ => runs_bind (runs_expect (by omega) fun _ _ _ => ?_))
    exact hcalls.expression (by omega) fun _ _ _ => hresult _ _ (by omega)

theorem runs_slots (hfuel : 3 * tokens + 2 ≤ fuel) (hlooks : 20 ≤ looks) (hresult : Stayed tokens looks (result ())) :
    slots.Runs fuel tokens looks result := by
  refine runs_bind (runs_ending (runs_pure (hresult _ _ (by omega))) fun _ => runs_currentIs (by omega) fun _ => ?_)
  refine runs_ite (runs_pure (hresult _ _ (by omega))) (runs_bind (runs_currentIn (by omega) fun _ => ?_))
  refine runs_ite (runs_bind (runs_slot hcalls (by omega) (by omega) fun _ _ _ => ?_)) runs_recover
  refine runs_bind (runs_eat (by omega) (fun _ _ _ => ?_) ?_)
  all_goals exact hcalls.list rfl (by omega) (by omega) fun _ _ _ => hresult _ _ (by omega)

end

end Grammar

end Squirrel
