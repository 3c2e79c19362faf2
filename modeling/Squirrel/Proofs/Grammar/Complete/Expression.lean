import Squirrel.Proofs.Grammar.Shape
import Squirrel.Proofs.Literal.Sign
import Squirrel.Proofs.Token.Lexeme
import Squirrel.Proofs.View.Complete

/-!
# Complete expressions

A node that is built around the right parts is complete. Here for the nodes of expressions; first what is common to all
nodes.
-/

namespace Squirrel

namespace Tree

variable {tree : Tree} {kind : Kind} {row : List Tree}

theorem BuiltOf.isComplete_expression (hbuilt : tree.BuiltOf kind row) (hkind : kind.isExpression = true)
    (hview : ∀ expression, tree.asExpression? = some expression → expression.IsComplete) : tree.IsComplete where
  expression := hview
  statement found hfound := by
    rw [asStatement?, hbuilt.isNode, hbuilt.kind_eq] at hfound
    cases kind
    all_goals first
      | (cases hkind; done)
      | cases hfound
  parts := by
    rw [PartsComplete, hbuilt.kind_eq]
    cases kind
    all_goals first
      | (cases hkind; done)
      | exact trivial

theorem BuiltOf.isComplete_statement (hbuilt : tree.BuiltOf kind row) (hkind : kind.isStatement = true)
    (hview : ∀ statement, tree.asStatement? = some statement → statement.IsComplete)
    (hparts : kind = .block ∨ kind = .classDeclaration → tree.PartsComplete) : tree.IsComplete where
  expression found hfound := by
    rw [asExpression?, hbuilt.isNode, hbuilt.kind_eq] at hfound
    cases kind
    all_goals first
      | (cases hkind; done)
      | cases hfound
  statement := hview
  parts := by
    by_cases hrest : kind = .block ∨ kind = .classDeclaration
    · exact hparts hrest
    · rw [PartsComplete, hbuilt.kind_eq]
      cases kind
      all_goals first
        | (cases hkind; done)
        | exact absurd (.inl rfl) hrest
        | exact absurd (.inr rfl) hrest
        | exact trivial

theorem BuiltOf.isComplete_part (hbuilt : tree.BuiltOf kind row) (hexpression : kind.isExpression = false)
    (hstatement : kind.isStatement = false) (hparts : tree.PartsComplete) : tree.IsComplete where
  expression found hfound := by
    rw [asExpression?, hbuilt.isNode, hbuilt.kind_eq] at hfound
    cases kind
    all_goals first
      | (cases hexpression; done)
      | cases hfound
  statement found hfound := by
    rw [asStatement?, hbuilt.isNode, hbuilt.kind_eq] at hfound
    cases kind
    all_goals first
      | (cases hstatement; done)
      | cases hfound
  parts := hparts

end Tree

open Squirrel.Tree

/-! ### Operator tokens -/

theorem isTrivia_of_binary? {kind : Kind} (hbinary : (Power.binary? kind).isSome = true) : kind.isTrivia = false := by
  cases kind
  all_goals first
    | rfl
    | cases hbinary

theorem isTrivia_of_contains {set : TokenSet} (hset : set = .prefixOperators ∨ set = .assignOperators) {kind : Kind}
    (hcontains : set.contains kind = true) : kind.isTrivia = false := by
  obtain rfl | rfl := hset
  all_goals
    cases kind
    all_goals first
      | rfl
      | exact absurd hcontains (by decide)

theorem contains_of_isIncrement {kind : Kind} (hincrement : Grammar.isIncrement kind = true) :
    TokenSet.prefixOperators.contains kind = true := by
  simp only [Grammar.isIncrement, List.mem_cons, List.not_mem_nil, or_false, decide_eq_true_eq] at hincrement
  obtain rfl | rfl := hincrement
  all_goals decide

theorem contains_of_isUpdate {kind : Kind} (hupdate : Grammar.isUpdate kind = true) :
    TokenSet.assignOperators.contains kind = true := by
  simp only [Grammar.isUpdate, List.mem_cons, List.not_mem_nil, or_false, decide_eq_true_eq] at hupdate
  obtain rfl | rfl | rfl | rfl | rfl | rfl := hupdate
  all_goals decide

/-! ### Expressions -/

section

variable {tree : Tree} {row : List Tree}

@[simp] theorem Tree.isExpression_token (leaf : Leaf) : (Tree.token leaf).isExpression = false := rfl

theorem isComplete_unary {operator : Leaf} {operand : Tree} (hbuilt : tree.BuiltOf .unaryExpression row)
    (hoperator : .token operator ∈ row) (hkind : TokenSet.prefixOperators.contains operator.kind = true)
    (hoperand : operand ∈ row) (hexpression : operand.isExpression = true) : tree.IsComplete := by
  refine hbuilt.isComplete_expression rfl fun found hfound => ?_
  rw [asExpression?, hbuilt.isNode, hbuilt.kind_eq] at hfound
  obtain rfl := Option.some.inj hfound
  exact ⟨hbuilt.operatorIn?_isSome (fun _ => isTrivia_of_contains (.inl rfl)) hoperator hkind,
    hbuilt.expression?_isSome (List.length_pos_of_mem (List.mem_filter.mpr ⟨hoperand, hexpression⟩))⟩

/-- An operator between two expressions. -/
theorem isComplete_infix {kind : Kind} {left right : Tree} {operator : Leaf}
    (hbuilt : tree.BuiltOf kind [left, .token operator, right])
    (hleft : left.isExpression = true) (hright : right.isExpression = true)
    (hkind : (kind = .binaryExpression ∧ ∃ power, Power.binary? operator.kind = some power) ∨
      ((kind = .assignmentExpression ∨ kind = .updateExpression) ∧
        TokenSet.assignOperators.contains operator.kind = true)) : tree.IsComplete := by
  have hfirst : (tree.expression? 0).isSome := hbuilt.expression?_isSome (by simp [hleft])
  have hsecond : (tree.expression? 1).isSome := hbuilt.expression?_isSome (by simp [hleft, hright])
  obtain ⟨rfl, power, hpower⟩ | ⟨hkind, hassign⟩ := hkind
  · refine hbuilt.isComplete_expression rfl fun found hfound => ?_
    rw [asExpression?, hbuilt.isNode, hbuilt.kind_eq] at hfound
    obtain rfl := Option.some.inj hfound
    have hmem : .token operator ∈ [left, .token operator, right] := List.mem_cons_of_mem _ List.mem_cons_self
    exact ⟨hfirst, hbuilt.operatorIn?_isSome (fun _ => isTrivia_of_binary?) hmem (by simp [hpower]), hsecond⟩
  · have hoperator : (tree.operatorIn? TokenSet.assignOperators.contains).isSome :=
      hbuilt.operatorIn?_isSome (fun _ => isTrivia_of_contains (.inr rfl)) (by simp) hassign
    obtain rfl | rfl := hkind
    all_goals
      refine hbuilt.isComplete_expression rfl fun found hfound => ?_
      rw [asExpression?, hbuilt.isNode, hbuilt.kind_eq] at hfound
      obtain rfl := Option.some.inj hfound
      exact ⟨hfirst, hoperator, hsecond⟩

theorem isComplete_suffix {found : Suffix} {left : Tree} {parts : List Tree}
    (hbuilt : tree.BuiltOf found.node (left :: parts)) (hleft : left.isExpression = true) (hparts : found.Fits parts) :
    tree.IsComplete := by
  have hfirst : (tree.expression? 0).isSome := hbuilt.expression?_isSome (by simp [hleft])
  cases found with
  | member =>
    obtain ⟨dot, name, rfl, -, hname⟩ := hparts
    refine hbuilt.isComplete_expression rfl fun found hfound => ?_
    rw [asExpression?, hbuilt.isNode, hbuilt.kind_eq] at hfound
    obtain rfl := Option.some.inj hfound
    exact ⟨hfirst, hbuilt.name_isSome (by simp) hname⟩
  | index =>
    obtain ⟨opener, key, closer, rfl, hkey⟩ := hparts
    refine hbuilt.isComplete_expression rfl fun found hfound => ?_
    rw [asExpression?, hbuilt.isNode, hbuilt.kind_eq] at hfound
    obtain rfl := Option.some.inj hfound
    exact ⟨hfirst, hbuilt.expression?_isSome (by simp [hleft, hkey])⟩
  | call =>
    obtain ⟨arguments, rfl, harguments⟩ := hparts
    refine hbuilt.isComplete_expression rfl fun found hfound => ?_
    rw [asExpression?, hbuilt.isNode, hbuilt.kind_eq] at hfound
    obtain rfl := Option.some.inj hfound
    exact ⟨fun _ => hfirst, hbuilt.nodeOf?_isSome (by simp) harguments⟩
  | increment =>
    obtain ⟨sign, rfl, hsign⟩ := hparts
    exact isComplete_unary hbuilt (by simp) (contains_of_isIncrement hsign) (by simp) hleft
  | ternary =>
    obtain ⟨question, first, colon, second, rfl, hsecond, hthird⟩ := hparts
    refine hbuilt.isComplete_expression rfl fun found hfound => ?_
    rw [asExpression?, hbuilt.isNode, hbuilt.kind_eq] at hfound
    obtain rfl := Option.some.inj hfound
    exact ⟨hfirst, hbuilt.expression?_isSome (by simp [hleft, hsecond]),
      hbuilt.expression?_isSome (by simp [hleft, hsecond, hthird])⟩
  | assignment =>
    obtain ⟨sign, value, rfl, hsign, hvalue⟩ := hparts
    exact isComplete_infix hbuilt hleft hvalue (.inr ⟨.inl rfl, by rw [hsign]; decide⟩)
  | update =>
    obtain ⟨sign, value, rfl, hsign, hvalue⟩ := hparts
    exact isComplete_infix hbuilt hleft hvalue (.inr ⟨.inr rfl, contains_of_isUpdate hsign⟩)
  | binary power =>
    obtain ⟨sign, value, rfl, hsign, hvalue⟩ := hparts
    exact isComplete_infix hbuilt hleft hvalue (.inl ⟨rfl, power, hsign⟩)

/-- Forms whose only mandatory part is one expression. -/
theorem isComplete_wrapper {kind : Kind} {inner : Tree}
    (hkind : kind = .parenthesizedExpression ∨ ∃ keyword, Grammar.keywordNode? keyword = some kind)
    (hbuilt : tree.BuiltOf kind row) (hmem : inner ∈ row) (hinner : inner.isExpression = true) : tree.IsComplete := by
  have hfirst : (tree.expression? 0).isSome :=
    hbuilt.expression?_isSome (List.length_pos_of_mem (List.mem_filter.mpr ⟨hmem, hinner⟩))
  have hkind : kind ∈ [.parenthesizedExpression, .cloneExpression, .deleteExpression, .resumeExpression] := by
    obtain rfl | ⟨keyword, hkeyword⟩ := hkind
    · simp
    · revert hkeyword
      fun_cases Grammar.keywordNode? keyword
      all_goals
        intro hkeyword
        cases hkeyword
      all_goals simp
  simp only [List.mem_cons, List.not_mem_nil, or_false] at hkind
  obtain rfl | rfl | rfl | rfl := hkind
  all_goals
    refine hbuilt.isComplete_expression rfl fun found hfound => ?_
    rw [asExpression?, hbuilt.isNode, hbuilt.kind_eq] at hfound
    obtain rfl := Option.some.inj hfound
    exact hfirst

/-- Forms whose only mandatory part is a name. -/
theorem isComplete_name {kind : Kind} {name : Leaf} (hkind : kind = .identifier ∨ kind = .globalVariable)
    (hbuilt : tree.BuiltOf kind row) (hmem : .token name ∈ row) (hname : name.kind = .id) : tree.IsComplete := by
  have hfirst : (tree.tokenOf? .id).isSome := hbuilt.name_isSome hmem hname
  obtain rfl | rfl := hkind
  all_goals
    refine hbuilt.isComplete_expression rfl fun found hfound => ?_
    rw [asExpression?, hbuilt.isNode, hbuilt.kind_eq] at hfound
    obtain rfl := Option.some.inj hfound
    exact hfirst

theorem isComplete_lambda {parameters body : Tree} (hbuilt : tree.BuiltOf .lambdaExpression row)
    (hparameters : parameters ∈ row) (hnode : isNodeOf .parameters parameters = true) (hbody : body ∈ row)
    (hexpression : body.isExpression = true) : tree.IsComplete := by
  refine hbuilt.isComplete_expression rfl fun found hfound => ?_
  rw [asExpression?, hbuilt.isNode, hbuilt.kind_eq] at hfound
  obtain rfl := Option.some.inj hfound
  exact ⟨hbuilt.nodeOf?_isSome hparameters hnode,
    hbuilt.expression?_isSome (List.length_pos_of_mem (List.mem_filter.mpr ⟨hbody, hexpression⟩))⟩

theorem isComplete_anonymousFunction {parameters body : Tree} (hbuilt : tree.BuiltOf .anonymousFunction row)
    (hparameters : parameters ∈ row) (hnode : isNodeOf .parameters parameters = true) (hbody : body ∈ row)
    (hstatement : body.isStatement = true) : tree.IsComplete := by
  refine hbuilt.isComplete_expression rfl fun found hfound => ?_
  rw [asExpression?, hbuilt.isNode, hbuilt.kind_eq] at hfound
  obtain rfl := Option.some.inj hfound
  exact ⟨hbuilt.nodeOf?_isSome hparameters hnode, hbuilt.statement?_isSome hbody hstatement⟩

theorem isComplete_rawcall {keyword : Leaf} {arguments : Tree}
    (hbuilt : tree.BuiltOf .callExpression [.token keyword, arguments]) (hkeyword : keyword.kind = .kwRawcall)
    (harguments : isNodeOf .callArgs arguments = true) : tree.IsComplete := by
  refine hbuilt.isComplete_expression rfl fun found hfound => ?_
  rw [asExpression?, hbuilt.isNode, hbuilt.kind_eq] at hfound
  obtain rfl := Option.some.inj hfound
  have hraw : tree.hasToken .kwRawcall = true := by
    rw [hbuilt.hasToken_eq rfl]
    simp [leavesIn, leaf?, hkeyword]
  exact ⟨fun hnot => by simp [hraw] at hnot, hbuilt.nodeOf?_isSome (by simp) harguments⟩

/-- Arrays and tables may hold anything. -/
theorem isComplete_collection {kind : Kind} (hkind : kind = .array ∨ kind = .table) (hbuilt : tree.BuiltOf kind row) :
    tree.IsComplete := by
  obtain rfl | rfl := hkind
  all_goals
    refine hbuilt.isComplete_expression rfl fun found hfound => ?_
    rw [asExpression?, hbuilt.isNode, hbuilt.kind_eq] at hfound
    obtain rfl := Option.some.inj hfound
    exact trivial

/-! ### Literals -/

theorem head_of_isFoldable {number : Leaf} (hkind : number.kind = .integerLit)
    (hfold : State.isFoldable ⟨number.kind, 0, number.text⟩ = true) : number.text.toList.head? ≠ some '-' := by
  intro hminus
  simp [State.isFoldable, hkind, hminus] at hfold

theorem isComplete_integer {children : List Tree}
    (hvalue : ∃ value, Literal.decodeInteger (Tree.node .integer children).text = .ok value) :
    (Tree.node .integer children).IsComplete := by
  obtain ⟨value, hvalue⟩ := hvalue
  refine BuiltOf.isComplete_expression ⟨_, rfl, rfl⟩ rfl fun found hfound => ?_
  simp only [asExpression?, Tree.isNode, Tree.kind, hvalue] at hfound
  obtain rfl := Option.some.inj hfound
  rfl

theorem isComplete_float {children : List Tree}
    (hvalue : ∃ value, Literal.decodeFloat (Tree.node .float children).text = .ok value) :
    (Tree.node .float children).IsComplete := by
  obtain ⟨value, hvalue⟩ := hvalue
  refine BuiltOf.isComplete_expression ⟨_, rfl, rfl⟩ rfl fun found hfound => ?_
  simp only [asExpression?, Tree.isNode, Tree.kind, hvalue] at hfound
  obtain rfl := Option.some.inj hfound
  rfl

/-- A number with a sign has a value, as its digits have one. -/
theorem isComplete_negative {kind : Kind} {minus number : Leaf} (hminus : minus.text = "-")
    (hwritten : number.WellWritten) (hfold : State.isFoldable ⟨number.kind, 0, number.text⟩ = true)
    (hkind : (kind = .integer ∧ number.kind = .integerLit) ∨ (kind = .float ∧ number.kind = .floatLit)) :
    (Tree.node kind [.token minus, .token number]).IsComplete := by
  have htext : (Tree.node kind [.token minus, .token number]).text = "-" ++ number.text := by
    simp [text, leaves, leavesOf, String.join, hminus]
  obtain ⟨rfl, hnumber⟩ | ⟨rfl, hnumber⟩ := hkind
  · obtain ⟨value, hvalue⟩ := hwritten.integer hnumber
    refine isComplete_integer ?_
    rw [htext]
    exact Literal.exists_decodeInteger_negative (head_of_isFoldable hnumber hfold) hvalue
  · obtain ⟨value, hvalue⟩ := hwritten.float hnumber
    obtain ⟨c, rest, hdigits, hdecimal⟩ := hwritten.unsigned hnumber
    refine isComplete_float ?_
    rw [htext]
    refine Literal.exists_decodeFloat_negative (c := c) (by rw [hdigits]; rfl) ?_ ?_ hvalue
    · rintro rfl
      exact absurd hdecimal (by decide)
    · rintro rfl
      exact absurd hdecimal (by decide)

theorem isComplete_literal {kind node : Kind} {leaf : Leaf} (hliteral : Grammar.literalNode? kind = some node)
    (hkind : leaf.kind = kind) (hwritten : leaf.WellWritten) : (Tree.node node [.token leaf]).IsComplete := by
  subst hkind
  have htext (node : Kind) : (Tree.node node [.token leaf]).text = leaf.text := by
    simp [text, leaves, leavesOf, String.join]
  have hrow {node : Kind} (hword : leaf.kind.isTrivia = false) :
      (Tree.node node [.token leaf]).BuiltOf node [.token leaf] :=
    ⟨_, rfl, by simp [items, Tree.isTrivia, hword]⟩
  have htoken {node kind : Kind} (hkind : leaf.kind = kind) (hword : kind.isTrivia = false) :
      (Tree.node node [.token leaf]).tokenOf? kind = some leaf := by
    rw [(hrow (hkind ▸ hword)).tokenOf?_eq hword]
    simp [leavesIn, leaf?, hkind]
  -- the view of the node by the kind of its token
  have hview {node : Kind} (hnode : node.isExpression = true)
      (hview : ∀ expression, (Tree.node node [.token leaf]).asExpression? = some expression → expression.IsComplete) :
      (Tree.node node [.token leaf]).IsComplete := by
    refine BuiltOf.isComplete_expression ⟨_, rfl, rfl⟩ hnode hview
  revert hliteral
  generalize hkind : leaf.kind = kind
  fun_cases Grammar.literalNode? kind
  all_goals
    intro hliteral
    cases hliteral
  · exact isComplete_integer (by rw [htext]; exact hwritten.integer hkind)
  · exact isComplete_float (by rw [htext]; exact hwritten.float hkind)
  · refine hview rfl fun found hfound => ?_
    rw [asExpression?] at hfound
    obtain rfl := Option.some.inj hfound
    obtain ⟨value, hvalue⟩ := hwritten.string hkind
    simp [Expression.IsComplete, htoken hkind rfl, Leaf.stringValue?, hvalue, Except.toOption]
  · refine hview rfl fun found hfound => ?_
    rw [asExpression?] at hfound
    obtain rfl := Option.some.inj hfound
    obtain ⟨value, hvalue⟩ := hwritten.verbatim hkind
    simp [Expression.IsComplete, htoken hkind rfl, Leaf.verbatimValue?, hvalue, Except.toOption]
  · refine hview rfl fun found hfound => ?_
    rw [asExpression?] at hfound
    obtain rfl := Option.some.inj hfound
    obtain ⟨value, hvalue⟩ := hwritten.char hkind
    simp [Expression.IsComplete, htoken hkind rfl, Leaf.charValue?, hvalue, Except.toOption]
  all_goals
    refine hview rfl fun found hfound => ?_
    rw [asExpression?] at hfound
    obtain rfl := Option.some.inj hfound
    exact trivial

end

end Squirrel
