import Squirrel.Proofs.Grammar.Derivation
import Squirrel.Proofs.View.Row

/-!
# The shape of a phrase

What the trees of each phrase are, as far as the node around them depends on it: a single expression or statement, a node
of one kind, or a row of a few of them. The shape of a phrase follows from the shapes of the parts of its productions.
-/

namespace Squirrel

namespace Tree

/-- Whether a tree is a token of a kind. -/
def isWordOf (kind : Kind) (tree : Tree) : Bool := tree.leaf?.any (·.kind == kind)

/-- A row of one tree that passes a test. -/
def One (test : Tree → Bool) (row : List Tree) : Prop := ∃ tree, row = [tree] ∧ test tree = true

/-- A row of trees that all pass a test. -/
def All (test : Tree → Bool) (row : List Tree) : Prop := ∀ tree ∈ row, test tree = true

/-- A sign and an expression, or nothing. -/
def SignedValue (accepts : Kind → Bool) (row : List Tree) : Prop :=
  row = [] ∨ ∃ sign value, row = [.token sign, value] ∧ accepts sign.kind = true ∧ value.isExpression = true

/-- Expressions with a comma between each two, and maybe one behind the last. -/
inductive IsArguments : List Tree → Prop where
  | nil : IsArguments []
  | last {argument : Tree} (hargument : argument.isExpression = true) : IsArguments [argument]
  | more {argument : Tree} {comma : Leaf} {rest : List Tree} (hargument : argument.isExpression = true)
      (hcomma : comma.kind = .comma) (hrest : IsArguments rest) : IsArguments (argument :: .token comma :: rest)

theorem All.nil {test : Tree → Bool} : All test [] := nofun

theorem One.all {test : Tree → Bool} {row : List Tree} (hone : One test row) : All test row := by
  obtain ⟨tree, rfl, htest⟩ := hone
  intro other hmem
  rw [List.mem_singleton.mp hmem]
  exact htest

theorem One.mono {test weaker : Tree → Bool} {row : List Tree} (hone : One test row)
    (himp : ∀ tree, test tree = true → weaker tree = true) : One weaker row := by
  obtain ⟨tree, rfl, htest⟩ := hone
  exact ⟨tree, rfl, himp tree htest⟩

theorem All.append {test : Tree → Bool} {left right : List Tree} (hleft : All test left) (hright : All test right) :
    All test (left ++ right) := by
  intro tree hmem
  obtain hmem | hmem := List.mem_append.mp hmem
  · exact hleft tree hmem
  · exact hright tree hmem

end Tree

open Squirrel.Tree

/-- What a suffix places after its left operand. -/
def Suffix.Fits (found : Suffix) (row : List Tree) : Prop :=
  match found with
  | member => ∃ dot name, row = [.token dot, .token name] ∧ dot.kind = .dot ∧ name.kind = .id
  | index => ∃ left key right, row = [.token left, key, .token right] ∧ key.isExpression = true
  | call => One (isNodeOf .callArgs) row
  | increment => ∃ sign, row = [.token sign] ∧ Grammar.isIncrement sign.kind = true
  | ternary => ∃ question first colon second, row = [.token question, first, .token colon, second] ∧
      first.isExpression = true ∧ second.isExpression = true
  | assignment => ∃ sign value, row = [.token sign, value] ∧ sign.kind = .equals ∧ value.isExpression = true
  | update => ∃ sign value, row = [.token sign, value] ∧ Grammar.isUpdate sign.kind = true ∧ value.isExpression = true
  | binary power => ∃ sign value, row = [.token sign, value] ∧ Power.binary? sign.kind = some power ∧
      value.isExpression = true

/-- What the trees of a phrase are. -/
def Phrase.Fits (phrase : Phrase) (row : List Tree) : Prop :=
  match phrase with
  | expression _ _ | chain _ _ | operand _ | negative | literal | array | table | constValue => One isExpression row
  | parenthesized => One (isNodeOf .parenthesizedExpression) row
  | suffix found => found.Fits row
  | optionalExpression => All isExpression row
  | callArguments => One (isNodeOf .callArgs) row
  | arguments => IsArguments row
  | statement | classDeclaration | constDeclaration | enumDeclaration => One isStatement row
  | functionDeclaration => One (isNodeOf .functionDeclaration) row
  | script | blockStatements | caseStatements => All isStatement row
  | header => ∃ left value right, row = [.token left, value, .token right] ∧ left.kind = .parenOpen ∧
      value.isExpression = true ∧ right.kind = .parenClose
  | elseClause => One (isNodeOf .elseStatement) row
  | forInitial => All (fun tree => isExpression tree || isNodeOf .localDeclaration tree) row
  | headerLocal => One (isNodeOf .localDeclaration) row
  | binding => One (isNodeOf .localBinding) row
  | bindings => ∃ first rest, row = first :: rest ∧ isNodeOf .localBinding first = true
  | bindingValue => SignedValue Grammar.isBindingOperator row
  | initialConst => SignedValue (· == .equals) row
  | loopVariables => All (fun tree => isWordOf .id tree || isWordOf .comma tree) row ∧
      ∃ name ∈ leavesIn row, name.kind = .id
  | catchClause => One (isNodeOf .catchStatement) row
  | base => row = [] ∨ ∃ sign name, row = [.token sign, .token name] ∧ sign.kind = .kwExtends ∧ name.kind = .id
  | member => One (isNodeOf .memberDeclaration) row
  | members => All isNode row
  | parameters => One (isNodeOf .parameters) row
  | attributes => One (isNodeOf .attributeDeclaration) row
  | optionalAttributes => All (isNodeOf .attributeDeclaration) row
  | path separator => All (fun tree => isWordOf separator tree || isWordOf .id tree) row
  | optional kind => All (isWordOf kind) row
  | _ => True

/-- What the trees of a row of items are. -/
def RowFits : List Item → List Tree → Prop
  | [], row => row = []
  | .word kind :: items, row => ∃ leaf rest, row = .token leaf :: rest ∧ leaf.kind = kind ∧ RowFits items rest
  | .wordIn accepts :: items, row =>
    ∃ leaf rest, row = .token leaf :: rest ∧ accepts leaf.kind = true ∧ RowFits items rest
  | .check _ :: items, row => RowFits items row
  | .part phrase :: items, row => ∃ placed rest, row = placed ++ rest ∧ phrase.Fits placed ∧ RowFits items rest

/-! ### The shapes of all phrases -/

theorem Form.Holds.one_node {kind : Kind} {parts placed : List Tree} (hform : (Form.node kind).Holds parts placed) :
    One (isNodeOf kind) placed := by
  obtain ⟨tree, ⟨children, rfl, -⟩, rfl⟩ := hform
  exact ⟨_, rfl, by simp [isNodeOf, isNode, Tree.kind]⟩

theorem Form.Holds.one_statement {kind : Kind} {parts placed : List Tree}
    (hform : (Form.node kind).Holds parts placed) (hkind : kind.isStatement = true) : One isStatement placed := by
  obtain ⟨tree, ⟨children, rfl, -⟩, rfl⟩ := hform
  exact ⟨_, rfl, by simp [isStatement, isNode, Tree.kind, hkind]⟩

theorem Form.Holds.one_expression {kind : Kind} {parts placed : List Tree}
    (hform : (Form.node kind).Holds parts placed) (hkind : kind.isExpression = true) : One isExpression placed := by
  obtain ⟨tree, ⟨children, rfl, -⟩, rfl⟩ := hform
  exact ⟨_, rfl, by simp [isExpression, isNode, Tree.kind, hkind]⟩

theorem Form.Holds.one_literal {kind : Kind} {parts placed : List Tree}
    (hform : (Form.tight kind).Holds parts placed) (hkind : kind.isExpression = true) : One isExpression placed :=
  ⟨_, hform, by simp [isExpression, isNode, Tree.kind, hkind]⟩

/-- A phrase that is one other phrase has its shape. -/
theorem RowFits.of_part {phrase : Phrase} {row : List Tree} (hrow : RowFits [.part phrase] row) : phrase.Fits row := by
  obtain ⟨placed, rest, rfl, hplaced, rfl⟩ := hrow
  rwa [List.append_nil]

theorem One.isStatement_of_isNodeOf {kind : Kind} {row : List Tree} (hone : One (isNodeOf kind) row)
    (hkind : kind.isStatement = true) : One isStatement row := by
  refine hone.mono fun tree hnode => ?_
  obtain ⟨hnode, heq⟩ := Bool.and_eq_true_iff.mp hnode
  rw [Tree.isStatement, hnode, beq_iff_eq.mp heq, hkind]
  rfl

theorem All.isNode {test : Tree → Bool} {row : List Tree} (hall : All test row)
    (himp : ∀ tree, test tree = true → tree.isNode = true) : All Tree.isNode row :=
  fun tree hmem => himp tree (hall tree hmem)

theorem Suffix.isExpression_node (found : Suffix) : found.node.isExpression = true := by
  cases found <;> rfl

theorem isExpression_of_literalNode? {kind node : Kind} (hnode : Grammar.literalNode? kind = some node) :
    node.isExpression = true := by
  revert hnode
  fun_cases Grammar.literalNode? kind
  all_goals
    intro hnode
    cases hnode
  all_goals rfl

theorem isExpression_of_keywordNode? {kind node : Kind} (hnode : Grammar.keywordNode? kind = some node) :
    node.isExpression = true := by
  revert hnode
  fun_cases Grammar.keywordNode? kind
  all_goals
    intro hnode
    cases hnode
  all_goals rfl

theorem isStatement_of_jumpNode? {kind node : Kind} (hnode : Grammar.jumpNode? kind = some node) :
    node.isStatement = true := by
  revert hnode
  fun_cases Grammar.jumpNode? kind
  all_goals
    intro hnode
    cases hnode
  all_goals rfl

/-- A row of trees that pass a test, one after the other. -/
theorem RowFits.all_cons {test : Tree → Bool} {first rest : Phrase} {row : List Tree}
    (hrow : RowFits [.part first, .part rest] row) (hfirst : ∀ row, first.Fits row → All test row)
    (hrest : ∀ row, rest.Fits row → All test row) : All test row := by
  obtain ⟨placed, others, rfl, hplaced, hothers⟩ := hrow
  exact (hfirst placed hplaced).append (hrest others hothers.of_part)

theorem Production.fits {phrase : Phrase} {form : Form} {body : List Item} {parts placed : List Tree}
    (hproduction : Production phrase form body) (hparts : RowFits body parts) (hform : form.Holds parts placed) :
    phrase.Fits placed := by
  cases hproduction
  all_goals try exact trivial
  all_goals try exact hform.one_node
  all_goals try exact hform.one_statement rfl
  all_goals try exact hform.one_expression rfl
  all_goals try exact hform.one_literal rfl
  case jump hjump => exact hform.one_statement (isStatement_of_jumpNode? hjump)
  case chainSuffix found => exact hform.one_expression found.isExpression_node
  case keyword hkeyword => exact hform.one_expression (isExpression_of_keywordNode? hkeyword)
  case literal hliteral => exact hform.one_literal (isExpression_of_literalNode? hliteral)
  -- all others are bare: what they place is what their parts place
  all_goals
    obtain rfl : placed = parts := hform
  case scriptEnd | blockEnd | caseEnd | membersEnd | noAttributes | noExpression | pathEnd | noToken =>
    rw [show placed = [] from hparts]
    exact .nil
  case scriptMore | blockMore | caseMore =>
    exact hparts.all_cons (fun _ hone => One.all hone) fun _ hall => hall
  case functionStatement => exact One.isStatement_of_isNodeOf hparts.of_part rfl
  case classStatement | constStatement | enumStatement => exact hparts.of_part
  case constNegative | constArray | constTable | constName | constLiteral | chainOperand | operandNegative
    | operandArray | operandTable | operandLiteral | suffixCall => exact hparts.of_part
  case operandParenthesized =>
    refine One.mono hparts.of_part fun tree hnode => ?_
    obtain ⟨hnode, hkind⟩ := Bool.and_eq_true_iff.mp hnode
    rw [Tree.isExpression, hnode, beq_iff_eq.mp hkind]
    rfl
  case header =>
    obtain ⟨left, _, rfl, hleft, placed, _, rfl, ⟨value, rfl, hvalue⟩, right, _, rfl, hright, rfl⟩ := hparts
    exact ⟨left, value, right, rfl, hleft, hvalue, hright⟩
  case forLocal =>
    exact One.all (hparts.of_part.mono fun tree hnode => Bool.or_eq_true_iff.mpr (.inr hnode))
  case forExpression =>
    have hall : All isExpression placed := RowFits.of_part hparts
    exact fun tree hmem => Bool.or_eq_true_iff.mpr (.inl (hall tree hmem))
  case loopValue =>
    obtain ⟨name, _, rfl, hname, rfl⟩ := hparts
    exact ⟨by simp [All, isWordOf, leaf?, hname], name, by simp [leavesIn, leaf?], hname⟩
  case loopIndexValue =>
    obtain ⟨index, _, rfl, hindex, comma, _, rfl, hcomma, name, _, rfl, hname, rfl⟩ := hparts
    exact ⟨by simp [All, isWordOf, leaf?, hindex, hcomma, hname], name, by simp [leavesIn, leaf?], hname⟩
  case lastBinding | moreBindings =>
    obtain ⟨_, rest, rfl, ⟨first, rfl, hfirst⟩, -⟩ := hparts
    exact ⟨first, rest, rfl, hfirst⟩
  case noBindingValue | noInitialConst => exact .inl hparts
  case someBindingValue | someInitialConst =>
    obtain ⟨sign, _, rfl, hsign, _, _, rfl, ⟨value, rfl, hvalue⟩, rfl⟩ := hparts
    exact .inr ⟨sign, value, rfl, by simpa using hsign, hvalue⟩
  case pathMore =>
    obtain ⟨dot, _, rfl, hdot, name, _, rfl, hname, hrest⟩ := hparts
    have hall := RowFits.of_part hrest
    intro tree hmem
    simp only [List.mem_cons] at hmem
    obtain rfl | rfl | hmem := hmem
    · simp [isWordOf, leaf?, hdot]
    · simp [isWordOf, leaf?, hname]
    · exact hall tree hmem
  case someAttributes => exact One.all hparts.of_part
  case noBase => exact .inl hparts
  case someBase =>
    obtain ⟨sign, _, rfl, hsign, name, _, rfl, hname, rfl⟩ := hparts
    exact .inr ⟨sign, name, rfl, hsign, hname⟩
  case membersMore =>
    refine hparts.all_cons (fun _ hone => ?_) fun _ hall => hall
    exact All.isNode (One.all hone) fun tree hnode => (Bool.and_eq_true_iff.mp hnode).1
  case someExpression => exact One.all hparts.of_part
  case argumentsEnd =>
    obtain rfl : placed = [] := hparts
    exact .nil
  case lastArgument =>
    obtain ⟨argument, rfl, hargument⟩ := hparts.of_part
    exact .last hargument
  case moreArguments =>
    obtain ⟨_, _, rfl, ⟨argument, rfl, hargument⟩, comma, _, rfl, hcomma, hrest⟩ := hparts
    exact .more hargument hcomma hrest.of_part
  case expression =>
    obtain ⟨placed, _, rfl, hplaced, rfl⟩ := hparts
    rwa [List.append_nil]
  case suffixMember =>
    obtain ⟨dot, _, rfl, hdot, name, _, rfl, hname, rfl⟩ := hparts
    exact ⟨dot, name, rfl, hdot, hname⟩
  case suffixIndex =>
    obtain ⟨left, _, rfl, -, _, _, rfl, ⟨key, rfl, hkey⟩, right, _, rfl, -, rfl⟩ := hparts
    exact ⟨left, key, right, rfl, hkey⟩
  case suffixIncrement =>
    obtain ⟨sign, _, rfl, hsign, rfl⟩ := hparts
    exact ⟨sign, rfl, hsign⟩
  case suffixTernary =>
    obtain ⟨question, _, rfl, -, _, _, rfl, ⟨first, rfl, hfirst⟩, colon, _, rfl, -, _, _, rfl,
      ⟨second, rfl, hsecond⟩, rfl⟩ := hparts
    exact ⟨question, first, colon, second, rfl, hfirst, hsecond⟩
  case suffixAssignment | suffixUpdate =>
    obtain ⟨sign, _, rfl, hsign, _, _, rfl, ⟨value, rfl, hvalue⟩, rfl⟩ := hparts
    exact ⟨sign, value, rfl, hsign, hvalue⟩
  case suffixBinary power =>
    obtain ⟨sign, _, rfl, hsign, _, _, rfl, ⟨value, rfl, hvalue⟩, rfl⟩ := hparts
    exact ⟨sign, value, rfl, beq_iff_eq.mp hsign, hvalue⟩
  case someToken =>
    obtain ⟨leaf, _, rfl, hleaf, rfl⟩ := hparts
    simp [Phrase.Fits, All, isWordOf, leaf?, hleaf]

/-- What items stand for has their shape. -/
theorem Derives.rowFits {items : List Item} {words last : List Word} {row : List Tree}
    (hderives : Derives items words last row) : RowFits items row := by
  induction hderives with
  | nil => rfl
  | word hkind _ ih => exact ⟨_, _, rfl, hkind, ih⟩
  | wordIn hkind _ ih => exact ⟨_, _, rfl, hkind, ih⟩
  | check _ _ ih => exact ih
  | part hproduction _ hform _ ihbody ih => exact ⟨_, _, rfl, hproduction.fits ihbody hform, ih⟩

end Squirrel
