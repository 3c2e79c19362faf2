import Squirrel.Proofs.Grammar.Grouping
import Squirrel.Proofs.Token.Adjacent
import Squirrel.View.Render

/-!
# What the renderer writes for a form

The text of an expression said of the row of its node: the texts of its parts, each in parentheses if it has to be, with
the operator between them.
-/

namespace Squirrel

open Squirrel.Tree

namespace Render

/-- The text of a part of an expression, in parentheses if it binds too loosely or is a table where none is allowed. -/
def place (part : Tree) (atLeast : Nat) (tableAllowed tail : Bool) : String :=
  if (part.precedence < atLeast && !(tail && part.isOpenEnded)) || (part.kind == .table && !tableAllowed) then
    "(" ++ expression part true ++ ")"
  else expression part tail

/-- The text of the operand of a prefix operator. -/
def placeAfterPrefix (part : Tree) (tail : Bool) : String :=
  if part.precedence < Power.accessor && !(part.isPrefixed || (tail && part.isOpenEnded)) then
    "(" ++ expression part true ++ ")"
  else expression part tail

variable {tree : Tree} {kind : Kind} {row : List Tree}

theorem operand_some (part : Child tree) (atLeast : Nat) (tableAllowed tail : Bool) :
    operand (some part) atLeast tableAllowed tail = place part.tree atLeast tableAllowed tail := by
  rw [operand, place]
  rfl

theorem operand_expression? (hbuilt : tree.BuiltOf kind row) (index : Nat) (part : Tree)
    (hpart : (row.filter isExpression)[index]? = some part) (atLeast : Nat) (tableAllowed tail : Bool) :
    operand (tree.expression? index) atLeast tableAllowed tail = place part atLeast tableAllowed tail := by
  obtain ⟨child, hchild, rfl⟩ := hbuilt.exists_expression? index part hpart
  rw [hchild, operand_some]

end Render

/-! ### Forms with an operator between expressions -/

section

variable {tree left middle right : Tree} {sign : Leaf} {power : Nat}

theorem Render.expression_binary (hbuilt : tree.BuiltOf .binaryExpression [left, .token sign, right])
    (hleft : left.isExpression = true) (hright : right.isExpression = true)
    (hsign : Power.binary? sign.kind = some power) :
    tree.precedence = power ∧ ∀ tail, expression tree tail
      = place left power false false ++ " " ++ sign.text ++ " " ++ place right (power + 1) false tail := by
  have hview : tree.asExpression? = some (.binary (tree.expression? 0) (some sign) (tree.expression? 1)) := by
    rw [asExpression?, hbuilt.isNode, hbuilt.kind_eq, ← (binaryPower?_eq hbuilt hleft hsign).1]
    rfl
  have hprecedence : tree.precedence = power := by
    rw [precedence, hview]
    simp [hsign]
  refine ⟨hprecedence, fun tail => ?_⟩
  have hfirst := operand_expression? hbuilt 0 left (by simp [hleft])
  have hsecond := operand_expression? hbuilt 1 right (by simp [hleft, hright])
  rw [expression, hview]
  simp only [hprecedence, hfirst, hsecond]
  rfl

theorem Render.expression_assignment (hbuilt : tree.BuiltOf .assignmentExpression [left, .token sign, right])
    (hleft : left.isExpression = true) (hright : right.isExpression = true) :
    tree.precedence = Power.assignment ∧ ∀ tail, expression tree tail
      = place left Power.ternary false false ++ " = " ++ place right Power.assignment true tail := by
  have hview : tree.asExpression? = some (.assignment (tree.expression? 0)
      (tree.operatorIn? TokenSet.assignOperators.contains) (tree.expression? 1)) := by
    rw [asExpression?, hbuilt.isNode, hbuilt.kind_eq]
    rfl
  refine ⟨by rw [precedence, hview], fun tail => ?_⟩
  have hfirst := operand_expression? hbuilt 0 left (by simp [hleft])
  have hsecond := operand_expression? hbuilt 1 right (by simp [hleft, hright])
  rw [expression, hview]
  simp only [hfirst, hsecond]

theorem Render.expression_update (hbuilt : tree.BuiltOf .updateExpression [left, .token sign, right])
    (hleft : left.isExpression = true) (hright : right.isExpression = true) (hsign : Grammar.isUpdate sign.kind = true) :
    tree.precedence = Power.assignment ∧ ∀ tail, expression tree tail
      = place left Power.ternary false false ++ " " ++ sign.text ++ " " ++ place right Power.assignment true tail := by
  have hoperator : tree.operatorIn? TokenSet.assignOperators.contains = some sign := by
    rw [hbuilt.operatorIn?_eq fun _ => isTrivia_of_contains (.inr rfl)]
    have hcontains := contains_of_isUpdate hsign
    simp [leavesIn, leaf?_of_isNode (Bool.and_eq_true_iff.mp hleft).1, hcontains]
  have hview : tree.asExpression? = some (.update (tree.expression? 0) (some sign) (tree.expression? 1)) := by
    rw [asExpression?, hbuilt.isNode, hbuilt.kind_eq, ← hoperator]
    rfl
  refine ⟨by rw [precedence, hview], fun tail => ?_⟩
  have hfirst := operand_expression? hbuilt 0 left (by simp [hleft])
  have hsecond := operand_expression? hbuilt 1 right (by simp [hleft, hright])
  rw [expression, hview]
  simp only [hfirst, hsecond]
  rfl

theorem Render.expression_ternary {question colon : Leaf}
    (hbuilt : tree.BuiltOf .ternaryExpression [left, .token question, middle, .token colon, right])
    (hleft : left.isExpression = true) (hmiddle : middle.isExpression = true) (hright : right.isExpression = true) :
    tree.precedence = Power.ternary ∧ ∀ tail, expression tree tail
      = place left (Power.ternary + 1) false false ++ " ? " ++ place middle 0 true true ++ " : " ++
        place right Power.ternary true tail := by
  have hview : tree.asExpression? =
      some (.ternary (tree.expression? 0) (tree.expression? 1) (tree.expression? 2)) := by
    rw [asExpression?, hbuilt.isNode, hbuilt.kind_eq]
    rfl
  refine ⟨by rw [precedence, hview], fun tail => ?_⟩
  have hfirst := operand_expression? hbuilt 0 left (by simp [hleft])
  have hsecond := operand_expression? hbuilt 1 middle (by simp [hleft, hmiddle])
  have hthird := operand_expression? hbuilt 2 right (by simp [hleft, hmiddle, hright])
  rw [expression, hview]
  simp only [hfirst, hsecond, hthird, Precedence.openEnded]

end

/-! ### Forms with an operator before or behind an expression -/

section

variable {tree inner : Tree} {sign : Leaf}

theorem Render.expression_prefixed (hbuilt : tree.BuiltOf .unaryExpression [.token sign, inner])
    (hinner : inner.isExpression = true) (hsign : TokenSet.prefixOperators.contains sign.kind = true) :
    (tree.precedence = Power.unary ∧ tree.isPrefixed = true) ∧ ∀ tail, expression tree tail
      = sign.text ++ (if needsSpace sign.kind (placeAfterPrefix inner tail) then " " else "") ++
        placeAfterPrefix inner tail := by
  have hoperator : tree.operatorIn? TokenSet.prefixOperators.contains = some sign := by
    rw [hbuilt.operatorIn?_eq fun _ => isTrivia_of_contains (.inl rfl)]
    simp [leavesIn, hsign]
  have hstarts : tree.startsWithNode = false := hbuilt.startsWithNode_eq
  obtain ⟨child, hchild, rfl⟩ := hbuilt.exists_expression? 0 inner (by simp [hinner])
  have hview : tree.asExpression? = some (.unary (some sign) false (some child)) := by
    rw [asExpression?, hbuilt.isNode, hbuilt.kind_eq, ← hoperator, ← hstarts, ← hchild]
    rfl
  refine ⟨⟨by rw [precedence, hview], by rw [isPrefixed, hview]; rfl⟩, fun tail => ?_⟩
  have hoperand : prefixOperand child tail = placeAfterPrefix child.tree tail := by
    rw [prefixOperand, placeAfterPrefix]
  rw [expression, hview]
  simp only [hoperand]

theorem Render.expression_increment (hbuilt : tree.BuiltOf .unaryExpression [inner, .token sign])
    (hinner : inner.isExpression = true) (hsign : Grammar.isIncrement sign.kind = true) :
    (tree.precedence = Power.unary ∧ tree.isPrefixed = false) ∧ ∀ tail, expression tree tail
      = place inner Power.unary false false ++ sign.text := by
  have hnode : inner.isNode = true := (Bool.and_eq_true_iff.mp hinner).1
  have hoperator : tree.operatorIn? TokenSet.prefixOperators.contains = some sign := by
    rw [hbuilt.operatorIn?_eq fun _ => isTrivia_of_contains (.inl rfl)]
    simp [leavesIn, leaf?_of_isNode hnode, contains_of_isIncrement hsign]
  have hstarts : tree.startsWithNode = true := hbuilt.startsWithNode_eq.trans hnode
  have hview : tree.asExpression? = some (.unary (some sign) true (tree.expression? 0)) := by
    rw [asExpression?, hbuilt.isNode, hbuilt.kind_eq]
    show some (Expression.unary _ _ _) = _
    rw [hoperator, hstarts]
  refine ⟨⟨by rw [precedence, hview], by rw [isPrefixed, hview]; rfl⟩, fun tail => ?_⟩
  have hfirst := operand_expression? hbuilt 0 inner (by simp [hinner])
  rw [expression, hview]
  simp only [hfirst]
  rfl

theorem Render.expression_keyword {node : Kind} (hbuilt : tree.BuiltOf node [.token sign, inner])
    (hinner : inner.isExpression = true) (hsign : Grammar.keywordNode? sign.kind = some node) :
    (tree.precedence = 0 ∧ tree.isOpenEnded = true ∧ tree.isPrefixed = false) ∧ ∀ tail, expression tree tail
      = (Leaf.sign sign.kind).text ++ " " ++ place inner 0 false tail := by
  have hfirst := operand_expression? hbuilt 0 inner (by simp [hinner])
  have hview : ∃ operator : KeywordOperator, operator.text = (Leaf.sign sign.kind).text ∧
      tree.asExpression? = some (.keyword operator (tree.expression? 0)) := by
    rw [asExpression?, hbuilt.isNode, hbuilt.kind_eq]
    revert hsign
    generalize sign.kind = keyword
    fun_cases Grammar.keywordNode? keyword
    all_goals rintro ⟨⟩
    all_goals exact ⟨_, rfl, rfl⟩
  obtain ⟨operator, htext, hview⟩ := hview
  refine ⟨⟨by rw [precedence, hview]; rfl, by rw [isOpenEnded, hview], by rw [isPrefixed, hview]⟩, fun tail => ?_⟩
  rw [expression, hview]
  simp only [hfirst, htext, Precedence.openEnded]

end

/-! ### Accessors and calls -/

section

variable {tree inner list : Tree} {left right : Leaf}

theorem Tree.BuiltOf.asExpression?_member {dot name : Leaf}
    (hbuilt : tree.BuiltOf .derefExpression [inner, .token dot, .token name]) (hinner : inner.isExpression = true)
    (hdot : dot.kind = .dot) (hname : name.kind = .id) :
    tree.asExpression? = some (.member (tree.expression? 0) (some name)) := by
  have hfound : tree.tokenOf? .id = some name := by
    rw [hbuilt.tokenOf?_eq rfl]
    simp [leavesIn, leaf?_of_isNode (Bool.and_eq_true_iff.mp hinner).1, hdot, hname]
  rw [asExpression?, hbuilt.isNode, hbuilt.kind_eq, ← hfound]
  rfl

theorem Render.expression_member {dot name : Leaf}
    (hbuilt : tree.BuiltOf .derefExpression [inner, .token dot, .token name]) (hinner : inner.isExpression = true)
    (hdot : dot.kind = .dot) (hname : name.kind = .id) :
    tree.precedence = Power.accessor ∧ ∀ tail, expression tree tail
      = place inner Power.accessor true false ++ "." ++ name.text := by
  have hview := hbuilt.asExpression?_member hinner hdot hname
  refine ⟨by rw [precedence, hview], fun tail => ?_⟩
  have hfirst := operand_expression? hbuilt 0 inner (by simp [hinner])
  rw [expression, hview]
  simp only [hfirst]
  rfl

theorem Render.expression_index {key : Tree}
    (hbuilt : tree.BuiltOf .indexExpression [inner, .token left, key, .token right]) (hinner : inner.isExpression = true)
    (hkey : key.isExpression = true) :
    tree.precedence = Power.accessor ∧ ∀ tail, expression tree tail
      = place inner Power.accessor false false ++ "[" ++ place key 0 false true ++ "]" := by
  have hview : tree.asExpression? = some (.index (tree.expression? 0) (tree.expression? 1)) := by
    rw [asExpression?, hbuilt.isNode, hbuilt.kind_eq]
    rfl
  refine ⟨by rw [precedence, hview], fun tail => ?_⟩
  have hfirst := operand_expression? hbuilt 0 inner (by simp [hinner])
  have hsecond := operand_expression? hbuilt 1 key (by simp [hinner, hkey])
  rw [expression, hview]
  simp only [hfirst, hsecond, Precedence.openEnded]

theorem Render.expression_parenthesized
    (hbuilt : tree.BuiltOf .parenthesizedExpression [.token left, inner, .token right])
    (hinner : inner.isExpression = true) :
    tree.precedence = Precedence.primary ∧ ∀ tail, expression tree tail = "(" ++ place inner 0 false true ++ ")" := by
  have hview : tree.asExpression? = some (.parenthesized (tree.expression? 0)) := by
    rw [asExpression?, hbuilt.isNode, hbuilt.kind_eq]
    rfl
  refine ⟨by rw [precedence, hview], fun tail => ?_⟩
  have hfirst := operand_expression? hbuilt 0 inner (by simp [hinner])
  rw [expression, hview]
  simp only [hfirst, Precedence.openEnded]

/-- Arguments with a comma between each two. -/
def Tree.separated : List Tree → List Tree
  | [] => []
  | [argument] => [argument]
  | argument :: next :: rest => argument :: .token (Leaf.sign .comma) :: separated (next :: rest)

theorem Tree.filter_separated {arguments : List Tree} (harguments : ∀ argument ∈ arguments, argument.isExpression = true) :
    (separated arguments).filter isExpression = arguments := by
  induction arguments using separated.induct with
  | case1 => rfl
  | case2 argument => simpa [separated] using harguments
  | case3 argument next rest ih =>
    have hrest := ih fun other hmem => harguments other (List.mem_cons_of_mem _ hmem)
    have hfirst := harguments argument List.mem_cons_self
    simp [separated, hfirst, hrest]

/-- The row of a list of arguments. -/
def Tree.argumentRow (arguments : List Tree) : List Tree :=
  .token (Leaf.sign .parenOpen) :: separated arguments ++ [.token (Leaf.sign .parenClose)]

theorem Render.argumentsOf_eq {child : Child tree} {arguments : List Tree}
    (hlist : child.tree.BuiltOf .callArgs (argumentRow arguments))
    (harguments : ∀ argument ∈ arguments, argument.isExpression = true) :
    argumentsOf child = arguments.map fun argument => place argument 0 true true := by
  have hexpressions : child.tree.expressions.map Child.tree = arguments := by
    rw [expressions, hlist.map_filter_nodes]
    have hfilter := filter_separated harguments
    have hrow : (argumentRow arguments).filter isExpression = arguments := by
      simp [argumentRow, hfilter]
    exact hrow
  have hmap : argumentsOf child = (child.tree.expressions.map Child.tree).map fun argument => place argument 0 true true := by
    rw [argumentsOf, List.map_map]
    exact List.map_congr_left fun argument _ => operand_some ..
  rw [hmap, hexpressions]

theorem Render.expression_call {arguments : List Tree} (hbuilt : tree.BuiltOf .callExpression [inner, list])
    (hinner : inner.isExpression = true) (hlist : list.BuiltOf .callArgs (argumentRow arguments))
    (harguments : ∀ argument ∈ arguments, argument.isExpression = true) :
    tree.precedence = Power.accessor ∧ ∀ tail, expression tree tail
      = place inner Power.accessor false false ++ "(" ++
        ", ".intercalate (arguments.map fun argument => place argument 0 true true) ++ ")" := by
  have hnode : inner.isNode = true := (Bool.and_eq_true_iff.mp hinner).1
  have hraw : tree.hasToken .kwRawcall = false := by
    rw [hbuilt.hasToken_eq rfl]
    simp [leavesIn, leaf?_of_isNode hnode, leaf?_of_isNode hlist.isNode]
  have hargs : isNodeOf .callArgs list = true := by simp [isNodeOf, hlist.isNode, hlist.kind_eq]
  have hkind : isNodeOf .callArgs inner = false := by
    obtain ⟨-, hkind⟩ := Bool.and_eq_true_iff.mp hinner
    rw [isNodeOf, hnode, Bool.true_and]
    exact beq_eq_false_iff_ne.mpr fun heq => by simp [heq, Kind.isExpression] at hkind
  have hfound : (tree.nodeOf? .callArgs).map Child.tree = some list := by
    rw [hbuilt.map_nodeOf?]
    simp [hkind, hargs]
  obtain ⟨child, hchild, rfl⟩ := Option.map_eq_some_iff.mp hfound
  have hview : tree.asExpression? = some (.call false (tree.expression? 0) (some child)) := by
    rw [asExpression?, hbuilt.isNode, hbuilt.kind_eq, ← hraw, ← hchild]
    rfl
  refine ⟨by rw [precedence, hview], fun tail => ?_⟩
  have hfirst := operand_expression? hbuilt 0 inner (by simp [hinner])
  rw [expression, hview]
  simp only [hfirst, argumentsOf_eq hlist harguments]
  rfl

theorem Render.expression_rawcall {arguments : List Tree}
    (hbuilt : tree.BuiltOf .callExpression [.token (Leaf.sign .kwRawcall), list])
    (hlist : list.BuiltOf .callArgs (argumentRow arguments))
    (harguments : ∀ argument ∈ arguments, argument.isExpression = true) :
    tree.precedence = Power.accessor ∧ ∀ tail, expression tree tail
      = "rawcall" ++ "(" ++ ", ".intercalate (arguments.map fun argument => place argument 0 true true) ++ ")" := by
  have hraw : tree.hasToken .kwRawcall = true := hbuilt.hasToken_eq rfl
  have hargs : isNodeOf .callArgs list = true := by simp [isNodeOf, hlist.isNode, hlist.kind_eq]
  have hfound : (tree.nodeOf? .callArgs).map Child.tree = some list := by
    have hword : isNodeOf .callArgs (.token (Leaf.sign .kwRawcall)) = false := rfl
    rw [hbuilt.map_nodeOf?]
    simp [hword, hargs]
  obtain ⟨child, hchild, rfl⟩ := Option.map_eq_some_iff.mp hfound
  have hview : tree.asExpression? = some (.call true (tree.expression? 0) (some child)) := by
    rw [asExpression?, hbuilt.isNode, hbuilt.kind_eq]
    show some (Expression.call _ _ _) = _
    rw [hraw, hchild]
  refine ⟨by rw [precedence, hview], fun tail => ?_⟩
  rw [expression, hview]
  simp only [argumentsOf_eq hlist harguments]
  rfl

end

/-! ### Names -/

section

variable {tree : Tree} {name : Leaf}

theorem Render.expression_identifier (hbuilt : tree.BuiltOf .identifier [.token name]) (hname : name.kind = .id) :
    tree.precedence = Precedence.primary ∧ ∀ tail, expression tree tail = name.text := by
  have hfound : tree.tokenOf? .id = some name := by
    rw [hbuilt.tokenOf?_eq rfl]
    simp [leavesIn, hname]
  have hview : tree.asExpression? = some (.identifier (some name)) := by
    rw [asExpression?, hbuilt.isNode, hbuilt.kind_eq, ← hfound]
    rfl
  refine ⟨by rw [precedence, hview], fun tail => ?_⟩
  rw [expression, hview]
  rfl

theorem Render.expression_globalVariable
    (hbuilt : tree.BuiltOf .globalVariable [.token (Leaf.sign .doubleColon), .token name]) (hname : name.kind = .id) :
    tree.precedence = Precedence.primary ∧ ∀ tail, expression tree tail = "::" ++ name.text := by
  have hfound : tree.tokenOf? .id = some name := by
    rw [hbuilt.tokenOf?_eq rfl]
    simp [leavesIn, hname, Leaf.sign]
  have hview : tree.asExpression? = some (.globalVariable (some name)) := by
    rw [asExpression?, hbuilt.isNode, hbuilt.kind_eq, ← hfound]
    rfl
  refine ⟨by rw [precedence, hview], fun tail => ?_⟩
  rw [expression, hview]
  rfl

end

end Squirrel
