import Squirrel.Proofs.Grammar.Accept.Rule

/-!
# Accepting collections

Literals, arrays, tables, constants, arguments and parameters. Where a list goes on is told by its next word, and where it
ends by its closer.
-/

namespace Squirrel

namespace Word

theorem StartsExpression.here_ne {words : List Word} {kind : Kind} (hstarts : StartsExpression words)
    (hkind : TokenSet.expressionFirst.contains kind = false) : here words ≠ kind := by
  rintro rfl
  rw [StartsExpression, hkind] at hstarts
  exact nomatch hstarts

theorem StartsExpression.ne_nil {words : List Word} (hstarts : StartsExpression words) : words ≠ [] := by
  rintro rfl
  exact hstarts.here_ne (by decide) rfl

theorem startsExpression_of_here {words : List Word} {kind : Kind} (hhere : here words = kind)
    (hkind : TokenSet.expressionFirst.contains kind = true) : StartsExpression words := by
  rw [StartsExpression, hhere, hkind]

/-- Neither an expression nor a table starts with the kind. -/
theorem here_ne_of_starts {words : List Word} {kind : Kind} (hstarts : StartsExpression words ∨ here words = .braceOpen)
    (hkind : TokenSet.expressionFirst.contains kind = false) (hbrace : kind ≠ .braceOpen) : here words ≠ kind := by
  obtain hstarts | hhere := hstarts
  · exact hstarts.here_ne hkind
  · rw [hhere]
    exact hbrace.symm

theorem ne_nil_of_starts {words : List Word} (hstarts : StartsExpression words ∨ here words = .braceOpen) :
    words ≠ [] := by
  rintro rfl
  have hne : here [] ≠ .error := here_ne_of_starts hstarts (by decide) (by decide)
  exact hne rfl

theorem joined_ofTokens {tokens : List Token} {afterBreak joined : Bool} {word : Word} {rest : List Word}
    (hwords : ofTokens afterBreak joined tokens = word :: rest) (hjoined : word.joined = true) :
    ∀ token ∈ tokens.head?, token.kind.isTrivia = false ∧ token.kind = word.kind := by
  have hapart (afterBreak : Bool) (tokens : List Token) :
      ∀ word ∈ (ofTokens afterBreak false tokens).head?, word.joined = false := by
    induction tokens generalizing afterBreak with
    | nil => simp [ofTokens]
    | cons token rest ih =>
      cases htrivia : token.kind.isTrivia with
      | true => rw [ofTokens_trivia htrivia]; exact ih _
      | false => simp [ofTokens_word htrivia]
  cases tokens with
  | nil => simp
  | cons token others =>
    cases htrivia : token.kind.isTrivia with
    | true =>
      rw [ofTokens_trivia htrivia] at hwords
      have hnot := hapart _ others word (by rw [hwords]; rfl)
      rw [hjoined] at hnot
      cases hnot
    | false =>
      rw [ofTokens_word htrivia, List.cons.injEq] at hwords
      rw [List.head?_cons, ← hwords.1]
      rintro found ⟨⟩
      exact ⟨htrivia, rfl⟩

end Word

theorem View.settled_of_joined {view : View} {word : Word} {rest : List Word} (hwords : view.words = word :: rest)
    (hjoined : word.joined = true) : view.Settled :=
  View.passTrivia_eq_self fun token hmem => (Word.joined_ofTokens hwords hjoined token hmem).1

namespace Grammar

open Word Rule

variable {settled : Bool} {words middle between last : List Word} {word left right sign number : Word}
  {first second rest trees : List Tree} {kind found : Kind}

/-- A list goes on where an expression or a table starts. -/
theorem looks_goingOn (hstarts : StartsExpression words ∨ here words = .braceOpen)
    (hkind : TokenSet.expressionFirst.contains kind = false) (hbrace : kind ≠ .braceOpen) :
    (stopped <||> currentIs kind).Looks words false :=
  looks_going (ne_nil_of_starts hstarts) (here_ne_of_starts hstarts hkind hbrace)

/-! ### Literals -/

theorem isRejected_of_literalNode? (hliteral : literalNode? kind = some found) : kind.isRejected = false := by
  revert hliteral
  fun_cases literalNode? kind
  all_goals
    intro hliteral
    cases hliteral
  all_goals rfl

theorem isTrivia_of_literalNode? (hliteral : literalNode? kind = some found) : kind.isTrivia = false := by
  revert hliteral
  fun_cases literalNode? kind
  all_goals
    intro hliteral
    cases hliteral
  all_goals rfl

theorem accepts_literal (hliteral : literalNode? kind = some found) (hkind : word.kind = kind) :
    (literal kind).Accepts true (word :: last) true [.node found [word.tree]] last := by
  rw [literal, hliteral]
  exact accepts_whole true (accepts_node (accepts_advance (hkind ▸ isRejected_of_literalNode? hliteral)))

/-- A word that nothing stands before needs no look to be passed. -/
theorem accepts_advance_joined (haccepted : word.kind.isRejected = false) (hjoined : word.joined = true) :
    advance.Accepts false (word :: last) () [word.tree] last :=
  fun view hwords _ => accepts_advance haccepted view hwords fun _ => View.settled_of_joined hwords hjoined

theorem looks_adjacent (hjoined : number.joined = true) :
    (ofStep .adjacent).Looks (sign :: number :: last) number.kind := by
  refine looks_of_read fun _ view hwords => ?_
  rw [read_ofStep, Step.read]
  rw [← View.words_passTrivia] at hwords
  cases hahead : view.passTrivia.ahead with
  | nil => simp [View.words, hahead, ofTokens] at hwords
  | cons token others =>
    rw [View.words_of_settled view.settled_passTrivia hahead, List.cons.injEq] at hwords
    cases others with
    | nil => simp [ofTokens] at hwords
    | cons next others =>
      rw [List.tail_cons, State.kindOf, (joined_ofTokens hwords.2 hjoined next rfl).2]

theorem accepts_negativeLiteral (hminus : sign.kind = .minus) (hjoined : number.joined = true)
    (hnumber : number.kind = kind) (hkind : kind = .integerLit ∧ found = .integer ∨ kind = .floatLit ∧ found = .float) :
    negativeLiteral.Accepts settled (sign :: number :: last) () [.node found [sign.tree, number.tree]] last := by
  have haccepted : number.kind.isRejected = false := by
    rw [hnumber]
    obtain ⟨rfl, -⟩ | ⟨rfl, -⟩ := hkind <;> rfl
  have hfound : (if number.kind == .floatLit then Kind.float else .integer) = found := by
    rw [hnumber]
    obtain ⟨rfl, rfl⟩ | ⟨rfl, rfl⟩ := hkind <;> rfl
  refine accepts_look (looks_adjacent hjoined) ?_
  rw [hfound]
  exact accepts_node (accepts_bind (accepts_advance (by rw [hminus]; rfl)) (accepts_advance_joined haccepted hjoined))

/-! ### Arrays and tables -/

theorem accepts_array (hleft : left.kind = .bracketOpen)
    (helements : (call .elements).Accepts false words () trees (right :: last)) (hright : right.kind = .bracketClose) :
    array.Accepts settled (left :: words) () [.node .array ([left.tree] ++ (trees ++ [right.tree]))] last :=
  accepts_node (accepts_between (by rw [hleft]; rfl) helements hright rfl)

theorem accepts_elementsEnd (hhere : here words = .bracketClose) :
    (call .elements).Accepts settled words () [] words :=
  accepts_call (accepts_yes (looks_ending hhere nofun) (accepts_pure ()))

theorem accepts_elementsMore (hstarts : StartsExpression words ∨ here words = .braceOpen)
    (helement : expressionOrTable.Accepts false words () first middle) {answer : Bool}
    (hcomma : (eat .comma).Accepts false middle answer second between)
    (hrest : (call .elements).Accepts false between () rest last) :
    (call .elements).Accepts settled words () (first ++ (second ++ rest)) last := by
  refine accepts_call (accepts_no (looks_goingOn hstarts (by decide) (by decide)) (accepts_yes (looks_startsExpressionOrTable hstarts) ?_))
  exact accepts_bind (Accepts.anywhere helement) (accepts_bind hcomma hrest)

theorem accepts_table (hleft : left.kind = .braceOpen)
    (hslots : (call .slots).Accepts false words () trees (right :: last)) (hright : right.kind = .braceClose) :
    table.Accepts settled (left :: words) () [.node .table ([left.tree] ++ (trees ++ [right.tree]))] last :=
  accepts_node (accepts_between (by rw [hleft]; rfl) hslots hright rfl)

/-! ### Constants -/

theorem accepts_constNegative (hhere : here words = .minus) (hnumber : NumberFollows words)
    (hvalue : negativeLiteral.Accepts true words () trees last) : constValue.Accepts settled words () trees last := by
  refine accepts_look looks_current ?_
  rw [hhere]
  exact accepts_look looks_numberFollows (by rwa [show words.tail.head?.any folds = true from hnumber, if_pos rfl])

theorem accepts_constArray (hhere : here words = .bracketOpen) (hvalue : array.Accepts true words () trees last) :
    constValue.Accepts settled words () trees last := by
  refine accepts_look looks_current ?_
  rwa [hhere]

theorem accepts_constTable (hhere : here words = .braceOpen) (hvalue : table.Accepts true words () trees last) :
    constValue.Accepts settled words () trees last := by
  refine accepts_look looks_current ?_
  rwa [hhere]

theorem accepts_constName (hhere : here words ∈ [.id, .doubleColon, .kwRawcall])
    (hvalue : (call (.expression Power.accessor false)).Accepts true words () trees last) :
    constValue.Accepts settled words () trees last := by
  refine accepts_look looks_current ?_
  simp only [List.mem_cons, List.not_mem_nil, or_false] at hhere
  obtain hhere | hhere | hhere := hhere <;> rwa [hhere]

theorem accepts_constLiteral (hhere : literalNode? (here words) = some kind)
    (hvalue : (literal (here words)).Accepts true words true trees last) :
    constValue.Accepts settled words () trees last := by
  refine accepts_look looks_current ?_
  have htaken : (literal (here words) >>= fun found =>
      if found = true then pure () else reportHere .expectedConstValue none).Accepts true words () (trees ++ []) last :=
    accepts_taken hvalue (accepts_pure ())
  rw [List.append_nil] at htaken
  revert hhere htaken
  generalize here words = found
  fun_cases literalNode? found
  all_goals
    intro hhere htaken
    cases hhere
  all_goals exact htaken

/-! ### Arguments -/

theorem accepts_callArguments (hleft : left.kind = .parenOpen)
    (harguments : (call .arguments).Accepts false words () trees (right :: last)) (hright : right.kind = .parenClose) :
    callArguments.Accepts settled (left :: words) () [.node .callArgs ([left.tree] ++ (trees ++ [right.tree]))] last :=
  accepts_node (accepts_yes (looks_currentIs hleft)
    (accepts_between (by rw [hleft]; rfl) harguments hright rfl))

theorem accepts_argumentsEnd (hhere : here words = .parenClose) :
    (call .arguments).Accepts settled words () [] words :=
  accepts_call (accepts_yes (looks_ending hhere nofun) (accepts_pure ()))

theorem accepts_argumentsLast (hstarts : StartsExpression words ∨ here words = .braceOpen)
    (hargument : expressionOrTable.Accepts false words () trees last) (hhere : here last = .parenClose) :
    (call .arguments).Accepts settled words () trees last := by
  refine accepts_call (accepts_no (looks_goingOn hstarts (by decide) (by decide)) ?_)
  refine accepts_yes (looks_startsExpressionOrTable hstarts) (accepts_end (Accepts.anywhere hargument) ?_)
  exact accepts_no (looks_eat_other (by rw [hhere]; decide)) (accepts_pure ())

theorem accepts_argumentsMore (hstarts : StartsExpression words ∨ here words = .braceOpen)
    (hargument : expressionOrTable.Accepts false words () first (word :: middle)) (hcomma : word.kind = .comma)
    (hrest : (call .arguments).Accepts false middle () rest last) :
    (call .arguments).Accepts settled words () (first ++ ([word.tree] ++ rest)) last := by
  refine accepts_call (accepts_no (looks_goingOn hstarts (by decide) (by decide)) (accepts_yes (looks_startsExpressionOrTable hstarts) ?_))
  exact accepts_bind (Accepts.anywhere hargument) (accepts_taken (accepts_eat hcomma rfl) hrest)

/-! ### Parameters -/

theorem accepts_parameters (hleft : left.kind = .parenOpen)
    (hlist : (call (.parameterList [] 0)).Accepts false words () trees (right :: last))
    (hright : right.kind = .parenClose) :
    parameters.Accepts settled (left :: words) () [.node .parameters ([left.tree] ++ (trees ++ [right.tree]))] last :=
  accepts_node (accepts_yes (looks_currentIs hleft) (accepts_between (by rw [hleft]; rfl) hlist hright rfl))

theorem accepts_checkVariadics {variadics : List (Nat × Span)} {count : Nat}
    (hlast : ∀ variadic ∈ variadics, variadic.1 + 1 = count) :
    (checkVariadics count variadics).Accepts settled words () [] words := by
  induction variadics with
  | nil => exact accepts_pure ()
  | cons variadic rest ih =>
    obtain ⟨hfirst, hrest⟩ := List.forall_mem_cons.mp hlast
    rw [checkVariadics, if_neg (not_not_intro hfirst)]
    exact ih hrest

theorem accepts_parametersEnd {variadics : List (Nat × Span)} {count : Nat} (hhere : here words = .parenClose)
    (hlast : ∀ variadic ∈ variadics, variadic.1 + 1 = count) :
    (call (.parameterList variadics count)).Accepts settled words () [] words :=
  accepts_call (accepts_yes (looks_ending hhere nofun) (accepts_checkVariadics hlast))

/-- The value of a parameter or of an entry of an enum. -/
def initialConst : Rule Unit := do
  if ← eat .equals then constValue

theorem accepts_initialNone (hhere : here words ≠ .equals) : initialConst.Accepts settled words () [] words :=
  accepts_no (looks_eat_other hhere) (accepts_pure ())

theorem accepts_initialSome (hequals : word.kind = .equals) (hvalue : constValue.Accepts false words () trees last) :
    initialConst.Accepts settled (word :: words) () ([word.tree] ++ trees) last :=
  accepts_taken (accepts_eat hequals rfl) hvalue

theorem accepts_named {nodeKind : Kind} {rest : Rule Unit} (hname : word.kind = .id)
    (hrest : rest.Accepts false words () trees last) :
    (node nodeKind (advance >>= fun _ => rest)).Accepts true (word :: words) ()
      [.node nodeKind ([word.tree] ++ trees)] last :=
  accepts_node (accepts_bind (accepts_advance (by rw [hname]; rfl)) hrest)

theorem accepts_parametersLast {count : Nat} (hname : here words = .id)
    (hparameter : (node .parameter (advance >>= fun _ => initialConst)).Accepts true words () trees last)
    (hhere : here last = .parenClose) : (call (.parameterList [] count)).Accepts settled words () trees last := by
  refine accepts_call (accepts_no (looks_going (ne_nil_of_here hname nofun) (by rw [hname]; decide)) ?_)
  refine accepts_look looks_current ?_
  rw [hname]
  refine accepts_end hparameter (accepts_no (looks_eat_other (by rw [hhere]; decide)) ?_)
  exact accepts_checkVariadics nofun

theorem accepts_parametersMore {count : Nat} (hname : here words = .id)
    (hparameter : (node .parameter (advance >>= fun _ => initialConst)).Accepts true words () first (word :: middle))
    (hcomma : word.kind = .comma)
    (hrest : ∀ count, (call (.parameterList [] count)).Accepts false middle () rest last) :
    (call (.parameterList [] count)).Accepts settled words () (first ++ ([word.tree] ++ rest)) last := by
  refine accepts_call (accepts_no (looks_going (ne_nil_of_here hname nofun) (by rw [hname]; decide)) ?_)
  refine accepts_look looks_current ?_
  rw [hname]
  exact accepts_bind hparameter (accepts_taken (accepts_eat hcomma rfl) (hrest (count + 1)))

theorem accepts_variadic (hword : word.kind = .ellipsis) :
    (node .parameter advance).Accepts true (word :: last) () [.node .parameter [word.tree]] last :=
  accepts_node (accepts_advance (by rw [hword]; rfl))

/-- A variadic parameter at the end of its list. -/
theorem accepts_parametersVariadic {count : Nat} (hhere : here words = .ellipsis)
    (hparameter : (node .parameter advance).Accepts true words () first middle)
    {answer : Bool} (hcomma : (eat .comma).Accepts false middle answer second last)
    (hlast : here last = .parenClose) :
    (call (.parameterList [] count)).Accepts settled words () (first ++ second) last := by
  refine accepts_call (accepts_no (looks_going (ne_nil_of_here hhere nofun) (by rw [hhere]; decide)) ?_)
  refine accepts_look looks_current ?_
  rw [hhere]
  refine accepts_span fun span => accepts_bind hparameter ?_
  have hends : ∀ variadic ∈ [(count, span)], variadic.1 + 1 = count + 1 := by simp
  cases answer with
  | true => exact accepts_end hcomma (accepts_parametersEnd hlast hends)
  | false => exact accepts_end hcomma (accepts_checkVariadics hends)

end Grammar

end Squirrel
