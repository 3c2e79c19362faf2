import Squirrel.Proofs.Grammar.Accept.Definition
import Squirrel.Proofs.Grammar.Shape
import Squirrel.Proofs.Grammar.Sound.Expression

/-!
# Accepting expressions

An operand, and then what finishes the expression. The operator loop wraps what has been placed since the start of the
expression; what it does behind a chain of suffixes is told without the chain, and so a chain is accepted if the expression
is whenever the loop finishes behind it.
-/

namespace Squirrel.Grammar

open Word Rule

variable {settled tableAllowed : Bool} {words middle between inner last : List Word}
  {word left right name sign keyword : Word} {first second third rest lefts parts trees result : List Tree} {kind : Kind}
  {power : Nat}

/-! ### Operands -/

theorem accepts_parenthesized (hleft : left.kind = .parenOpen)
    (hinner : expression.Accepts false words () trees (right :: last)) (hright : right.kind = .parenClose) :
    parenthesized.Accepts settled (left :: words) ()
      [.node .parenthesizedExpression ([left.tree] ++ (trees ++ [right.tree]))] last :=
  accepts_node (accepts_between (by rw [hleft]; rfl) hinner hright rfl)

theorem accepts_operandNegative (hhere : here words = .minus) (hnumber : NumberFollows words)
    (hvalue : negativeLiteral.Accepts true words () trees last) :
    (operand tableAllowed).Accepts settled words true trees last := by
  refine accepts_look looks_current ?_
  rw [hhere]
  refine accepts_look looks_numberFollows ?_
  rw [show words.tail.head?.any folds = true from hnumber, if_pos rfl]
  exact accepts_whole true hvalue

theorem mem_of_prefixOperators (hmember : TokenSet.prefixOperators.contains kind = true) :
    kind ∈ [.minus, .bang, .tilde, .kwTypeof, .plusPlus, .minusMinus] := by
  cases kind
  all_goals first
    | decide
    | exact absurd hmember (by decide)

theorem accepts_prefixed (hnumber : ¬(sign.kind = .minus ∧ NumberFollows (sign :: words)))
    (hsign : TokenSet.prefixOperators.contains sign.kind = true)
    (hoperand : (call (.expression Power.accessor true)).Accepts false words () trees last) :
    (operand tableAllowed).Accepts settled (sign :: words) true [.node .unaryExpression ([sign.tree] ++ trees)] last := by
  have hmem := mem_of_prefixOperators hsign
  have haccepted : sign.kind.isRejected = false := by
    revert hmem
    generalize sign.kind = found
    simp only [List.mem_cons, List.not_mem_nil, or_false]
    rintro (rfl | rfl | rfl | rfl | rfl | rfl) <;> rfl
  have hprefixed : prefixed.Accepts true (sign :: words) () [.node .unaryExpression ([sign.tree] ++ trees)] last :=
    accepts_node (accepts_bind (accepts_advance haccepted) hoperand)
  refine accepts_look looks_current ?_
  rw [here_cons]
  simp only [List.mem_cons, List.not_mem_nil, or_false] at hmem
  obtain hkind | hkind | hkind | hkind | hkind | hkind := hmem
  · -- a minus sign that no number belongs to
    have hnone : (sign :: words).tail.head?.any folds = false := by
      simpa [NumberFollows, hkind] using hnumber
    rw [hkind]
    refine accepts_look looks_numberFollows ?_
    rw [hnone, if_neg Bool.false_ne_true]
    exact accepts_whole true hprefixed
  all_goals
    rw [hkind]
    exact accepts_whole true hprefixed

theorem accepts_operandParenthesized (hhere : here words = .parenOpen)
    (hinner : parenthesized.Accepts true words () trees last) :
    (operand tableAllowed).Accepts settled words true trees last := by
  refine accepts_look looks_current ?_
  rw [hhere]
  exact accepts_whole true hinner

theorem accepts_operandArray (hhere : here words = .bracketOpen) (harray : array.Accepts true words () trees last) :
    (operand tableAllowed).Accepts settled words true trees last := by
  refine accepts_look looks_current ?_
  rw [hhere]
  exact accepts_whole true harray

theorem accepts_operandTable (hhere : here words = .braceOpen) (htable : table.Accepts true words () trees last) :
    (operand true).Accepts settled words true trees last := by
  refine accepts_look looks_current ?_
  rw [hhere]
  exact accepts_whole true htable

theorem accepts_identifier (hname : name.kind = .id) :
    (operand tableAllowed).Accepts settled (name :: last) true [.node .identifier [name.tree]] last := by
  refine accepts_look looks_current ?_
  rw [here_cons, hname]
  exact accepts_whole true (accepts_node (accepts_advance (by rw [hname]; rfl)))

theorem accepts_globalVariable (hword : word.kind = .doubleColon) (hname : name.kind = .id) :
    (operand tableAllowed).Accepts settled (word :: name :: last) true
      [.node .globalVariable ([word.tree] ++ [name.tree])] last := by
  refine accepts_look looks_current ?_
  rw [here_cons, hword]
  refine accepts_whole true (accepts_node (accepts_bind (accepts_advance (by rw [hword]; rfl)) ?_))
  exact accepts_whole () (accepts_expect hname rfl)

theorem accepts_lambda (hword : word.kind = .atSign) (hparameters : parameters.Accepts false words () first middle)
    (hbody : expression.Accepts false middle () second last) :
    (operand tableAllowed).Accepts settled (word :: words) true
      [.node .lambdaExpression ([word.tree] ++ (first ++ second))] last := by
  refine accepts_look looks_current ?_
  rw [here_cons, hword]
  refine accepts_whole true (accepts_node (accepts_bind (accepts_advance (by rw [hword]; rfl)) ?_))
  exact accepts_bind hparameters hbody

theorem accepts_anonymousFunction (hkeyword : keyword.kind = .kwFunction)
    (hparameters : parameters.Accepts false words () first middle) (hstarts : StartsStatement middle)
    (hbody : (call .statement).Accepts true middle () second last) :
    (operand tableAllowed).Accepts settled (keyword :: words) true
      [.node .anonymousFunction ([keyword.tree] ++ (first ++ second))] last := by
  refine accepts_look looks_current ?_
  rw [here_cons, hkeyword]
  refine accepts_whole true (accepts_node (accepts_bind (accepts_advance (by rw [hkeyword]; rfl)) ?_))
  exact accepts_bind hparameters (accepts_body hstarts hbody)

theorem accepts_keyword {nodeKind : Kind} (hkeyword : keyword.kind = kind) (hnode : keywordNode? kind = some nodeKind)
    (hoperand : expression.Accepts false words () trees last) :
    (operand tableAllowed).Accepts settled (keyword :: words) true
      [.node nodeKind ([keyword.tree] ++ trees)] last := by
  refine accepts_look looks_current ?_
  rw [here_cons, hkeyword]
  revert hnode hkeyword
  fun_cases keywordNode? kind
  all_goals
    rintro hkeyword ⟨⟩
  all_goals
    exact accepts_whole true (accepts_node (accepts_bind (accepts_advance (by rw [hkeyword]; rfl)) hoperand))

theorem accepts_rawcall (hkeyword : keyword.kind = .kwRawcall)
    (harguments : callArguments.Accepts false words () trees last) :
    (operand tableAllowed).Accepts settled (keyword :: words) true
      [.node .callExpression ([keyword.tree] ++ trees)] last := by
  refine accepts_look looks_current ?_
  rw [here_cons, hkeyword]
  exact accepts_whole true (accepts_node (accepts_bind (accepts_advance (by rw [hkeyword]; rfl)) harguments))

theorem accepts_operandLiteral {nodeKind : Kind} (hhere : literalNode? (here words) = some nodeKind)
    (hvalue : (literal (here words)).Accepts true words true trees last) :
    (operand tableAllowed).Accepts settled words true trees last := by
  refine accepts_look looks_current ?_
  revert hhere hvalue
  generalize here words = found
  fun_cases literalNode? found
  all_goals
    intro hhere hvalue
    cases hhere
  all_goals exact hvalue

/-! ### Suffixes -/

theorem accepts_suffixMember (hword : word.kind = .dot) (hname : name.kind = .id) :
    (suffix .member).Accepts true (word :: name :: last) () ([word.tree] ++ [name.tree]) last :=
  accepts_bind (accepts_advance (by rw [hword]; rfl)) (accepts_whole () (accepts_expect hname rfl))

theorem accepts_suffixIndex (hleft : left.kind = .bracketOpen)
    (hindex : expression.Accepts false words () trees (right :: last)) (hright : right.kind = .bracketClose) :
    (suffix .index).Accepts true (left :: words) () ([left.tree] ++ (trees ++ [right.tree])) last :=
  accepts_between (by rw [hleft]; rfl) hindex hright rfl

theorem accepts_suffixIncrement (hword : isIncrement word.kind = true) :
    (suffix .increment).Accepts true (word :: last) () [word.tree] last := by
  refine accepts_advance ?_
  simp only [isIncrement, List.mem_cons, List.not_mem_nil, or_false, decide_eq_true_eq] at hword
  obtain hword | hword := hword <;> rw [hword] <;> rfl

theorem accepts_suffixTernary (hword : word.kind = .question)
    (hconsequence : expressionOrTable.Accepts false words () first (sign :: middle)) (hsign : sign.kind = .colon)
    (halternative : (call (.expression Power.ternary true)).Accepts false middle () second last) :
    (suffix .ternary).Accepts true (word :: words) () ([word.tree] ++ (first ++ ([sign.tree] ++ second))) last := by
  refine accepts_bind (accepts_advance (by rw [hword]; rfl)) (accepts_bind hconsequence ?_)
  exact accepts_taken (accepts_expect hsign rfl) halternative

theorem accepts_suffixAssignment (hword : word.kind = .equals)
    (hvalue : (call (.expression Power.assignment true)).Accepts false words () trees last) :
    (suffix .assignment).Accepts true (word :: words) () ([word.tree] ++ trees) last :=
  accepts_bind (accepts_advance (by rw [hword]; rfl)) hvalue

theorem accepts_suffixUpdate (hword : isUpdate word.kind = true)
    (hvalue : (call (.expression Power.assignment true)).Accepts false words () trees last) :
    (suffix .update).Accepts true (word :: words) () ([word.tree] ++ trees) last := by
  refine accepts_bind (accepts_advance ?_) hvalue
  simp only [isUpdate, List.mem_cons, List.not_mem_nil, or_false, decide_eq_true_eq] at hword
  obtain hword | hword | hword | hword | hword | hword := hword <;> rw [hword] <;> rfl

theorem isRejected_of_binary? (hbinary : Power.binary? kind = some power) : kind.isRejected = false := by
  cases kind with
  | garbage | error => exact nomatch hbinary
  | _ => rfl

theorem accepts_suffixBinary (hword : Power.binary? word.kind = some power)
    (hright : (call (.expression (power + 1) false)).Accepts false words () trees last) :
    (suffix (.binary power)).Accepts true (word :: words) () ([word.tree] ++ trees) last :=
  accepts_bind (accepts_advance (isRejected_of_binary? hword)) hright

/-! ### The operator loop -/

/-- Wherever the words are ahead and the trees on the left have been placed since the start of the expression, the operator
loop comes to its end with the resulting trees in their place. -/
def Finishes (power : Nat) (words : List Word) (lefts result : List Tree) (last : List Word) : Prop :=
  ∀ (view : View) (since base : List Tree), view.words = words → view.Tidy → view.placed = since ++ base →
    (Tree.items since.reverse).map Tree.trim = lefts →
    ∃ after, (operators base.length power).Gives view () after ∧ after.words = last ∧ after.Tidy ∧
      ∃ since', after.placed = since' ++ base ∧ (Tree.items since'.reverse).map Tree.trim = result

/-- The loop looks at the next word and at whether a line breaks before it. -/
theorem gives_looks (view : View) {next : Kind → Bool → Rule Unit} {after : View}
    (hnext : (next (here view.words) view.passTrivia.afterLineBreak).Gives view.passTrivia () after) :
    (current >>= fun kind => ofStep .afterLineBreak >>= fun afterLineBreak => next kind afterLineBreak).Gives view ()
      after := by
  have hcurrent : current.Gives view (here view.words) view.passTrivia := looks_current view rfl
  have hbreak : (ofStep .afterLineBreak).Gives view.passTrivia view.passTrivia.afterLineBreak view.passTrivia :=
    .of_read fun _ => by rw [read_ofStep, Step.read, view.settled_passTrivia]
  exact hcurrent.bind (hbreak.bind hnext)

theorem gives_operators_of_none (start : Nat) {view : View} (hnone : suffix? power view.words = none) :
    ∃ after, (operators start power).Gives view () after ∧ (after = view ∨ after = view.passTrivia) := by
  cases hahead : view.ahead.isEmpty with
  | true =>
    have hstopped : stopped.Gives view true view := .of_read fun _ => by rw [read_stopped, hahead]
    exact ⟨view, hstopped.bind (.pure () view), .inl rfl⟩
  | false =>
    have hstopped : stopped.Gives view false view := .of_read fun _ => by rw [read_stopped, hahead]
    refine ⟨view.passTrivia, hstopped.bind (gives_looks view ?_), .inr rfl⟩
    rw [suffix?_eq, hnone]
    exact .pure () view.passTrivia

theorem gives_operators_of_some {start : Nat} {view after : View} {found : Suffix}
    (hfound : suffix? power view.words = some found)
    (hrest : (nodeFrom start found.node (suffix found) >>= fun _ => call (.operators start power)).Gives view.passTrivia ()
      after) :
    (operators start power).Gives view () after := by
  have hwords : view.words ≠ [] := by
    intro hnil
    rw [hnil] at hfound
    exact nomatch hfound
  refine (gives_stopped hwords).bind (gives_looks view ?_)
  rw [suffix?_eq, hfound]
  exact hrest

/-- No suffix follows. -/
theorem finishes_here (hnone : suffix? power words = none) : Finishes power words lefts lefts words := by
  intro view since base hwords htidy hplaced hlefts
  obtain ⟨after, hgives, hafter⟩ := gives_operators_of_none base.length (hwords ▸ hnone)
  refine ⟨after, hgives, ?_⟩
  obtain rfl | rfl := hafter
  · exact ⟨hwords, htidy, since, hplaced, hlefts⟩
  · exact ⟨view.words_passTrivia.trans hwords, (view.places_passTrivia htidy).1, since, hplaced, hlefts⟩

theorem finishes_suffix {found : Suffix} (hfound : suffix? power words = some found)
    (hsuffix : (suffix found).Accepts true words () parts middle)
    (hrest : Finishes power middle [.node found.node (lefts ++ parts)] result last) :
    Finishes power words lefts result last := by
  intro view since base hwords htidy hplaced hlefts
  -- the suffix goes under the node with all that has been placed since the start
  have hstart : ({ view.passTrivia with placed := since } : View).Settled :=
    View.passTrivia_eq_self fun _ hmem => View.isTrivia_of_head?_dropWhile hmem
  obtain ⟨stop, ⟨bound, hread⟩, hmiddle, row, hplaces, hrow⟩ :=
    hsuffix { view.passTrivia with placed := since } (view.words_passTrivia.trans hwords) fun _ => hstart
  obtain ⟨hstop, new, hnew, hitems⟩ := hplaces (view.places_passTrivia htidy).1
  have hnode : (nodeFrom base.length found.node (suffix found)).Gives view.passTrivia ()
      { stop with placed := .node found.node stop.placed.reverse :: base } := by
    refine ⟨bound, ?_⟩
    rw [read_nodeFrom (show view.passTrivia.placed = since ++ base from hplaced) rfl, hread]
    rfl
  obtain ⟨after, hgives, hafter⟩ := hrest { stop with placed := .node found.node stop.placed.reverse :: base }
    [.node found.node stop.placed.reverse] base hmiddle hstop rfl (by
      rw [List.reverse_singleton, Tree.items_cons_word rfl, Tree.items_nil, List.map_singleton, Tree.trim_node,
        Tree.trimAll_eq, hnew, List.reverse_append, Tree.items_append, List.map_append, hlefts, hitems, hrow])
  exact ⟨after, gives_operators_of_some (hwords ▸ hfound) (hnode.bind (.call hgives)), hafter⟩

theorem accepts_expression (hoperand : (operand tableAllowed).Accepts false words true lefts middle)
    (hfinishes : Finishes power middle lefts result last) :
    (call (.expression power tableAllowed)).Accepts settled words () result last := by
  refine accepts_call fun view hwords _ => ?_
  obtain ⟨between, hgives, hmiddle, row, hplaces, hrow⟩ := hoperand view.placePending hwords nofun
  obtain ⟨htidy, new, hnew, hitems⟩ := hplaces view.tidy_placePending
  obtain ⟨after, hoperators, hlast, hafter, since, hplaced, hresult⟩ :=
    hfinishes between new view.placePending.placed hmiddle htidy hnew (by rw [hitems, hrow])
  have hdescend : (ofStep .descend).Gives view true view := .of_read fun _ => by rw [read_ofStep, Step.read]
  have hmark : (ofStep .mark).Gives view view.placePending.placed.length view.placePending :=
    .of_read fun _ => by rw [read_ofStep, Step.read]
  have hascend : (ofStep .ascend).Gives after () after := .of_read fun _ => by rw [read_ofStep, Step.read]
  refine ⟨after, hdescend.bind (hmark.bind (hgives.bind ?_)), hlast, Tree.items since.reverse, fun hview => ?_, hresult⟩
  · exact Gives.bind (.call hoperators) hascend
  · refine ⟨hafter, since ++ view.pending.map State.leafOf, ?_, ?_⟩
    · rw [hplaced, List.append_assoc]
      rfl
    · rw [List.reverse_append, Tree.items_append, hview.items_leafOf, List.nil_append]

/-! ### Table slots -/

theorem accepts_namedSlot (hname : name.kind = .id) (hsign : sign.kind = .equals)
    (hvalue : expressionOrTable.Accepts false words () trees last) :
    slot.Accepts settled (name :: sign :: words) () [.node .tableSlot ([name.tree] ++ ([sign.tree] ++ trees))] last := by
  refine accepts_node (accepts_look looks_current (accepts_look looks_next ?_))
  rw [if_pos (by simp [hname, hsign])]
  exact accepts_bind (accepts_advance (by rw [hname]; rfl)) (accepts_bind (accepts_expect hsign rfl) hvalue)

theorem accepts_computedSlot (hleft : left.kind = .bracketOpen)
    (hkey : expression.Accepts false words () first (right :: sign :: middle)) (hright : right.kind = .bracketClose)
    (hsign : sign.kind = .equals) (hvalue : expressionOrTable.Accepts false middle () second last) :
    slot.Accepts settled (left :: words) ()
      [.node .tableSlot ([left.tree] ++ (first ++ ([right.tree] ++ ([sign.tree] ++ second))))] last := by
  refine accepts_node (accepts_look looks_current (accepts_look looks_next ?_))
  rw [if_neg (by simp [hleft]), if_pos (by simp [hleft])]
  refine accepts_bind (accepts_open (by rw [hleft]; rfl)) (accepts_bind hkey (accepts_bind (accepts_close hright rfl) ?_))
  exact accepts_taken (accepts_expect hsign rfl) hvalue

theorem accepts_methodSlot (hhere : here words = .kwFunction) (hname : here words.tail = .id)
    (hfunction : functionDeclaration.Accepts true words () trees last) :
    slot.Accepts settled words () [.node .tableSlot trees] last := by
  refine accepts_node (accepts_look looks_current (accepts_look looks_next ?_))
  rwa [if_neg (by simp [hhere]), if_neg (by simp [hhere]), if_pos (by simp [hhere, hname])]

theorem accepts_keyedSlot (hkey : StartsKey words)
    (hname : (call (.expression (Power.ternary + 1) false)).Accepts true words () first (sign :: middle))
    (hsign : sign.kind = .colon) (hvalue : expressionOrTable.Accepts false middle () second last) :
    slot.Accepts settled words () [.node .tableSlot (first ++ ([sign.tree] ++ second))] last := by
  obtain ⟨hnamed, hcomputed, hmethod⟩ := hkey
  refine accepts_node (accepts_look looks_current (accepts_look looks_next ?_))
  rw [if_neg (by simpa using hnamed), if_neg (by simpa using hcomputed), if_neg (by simpa using hmethod)]
  exact accepts_bind hname (accepts_taken (accepts_expect hsign rfl) hvalue)

theorem accepts_slotsEnd (hhere : here words = .braceClose) : (call .slots).Accepts settled words () [] words :=
  accepts_call (accepts_yes (looks_ending hhere nofun) (accepts_pure ()))

theorem accepts_slotsMore (hstarts : StartsExpression words) (hslot : slot.Accepts true words () first middle)
    {answer : Bool} (hcomma : (eat .comma).Accepts false middle answer second between)
    (hrest : (call .slots).Accepts false between () rest last) :
    (call .slots).Accepts settled words () (first ++ (second ++ rest)) last := by
  refine accepts_call (accepts_no (looks_going hstarts.ne_nil (hstarts.here_ne (by decide))) ?_)
  refine accepts_yes (looks_startsExpression hstarts) (accepts_bind hslot ?_)
  exact accepts_bind hcomma hrest

end Squirrel.Grammar
