import Squirrel.Proofs.Grammar.Acceptance
import Squirrel.Proofs.Render.Lambda
import Squirrel.Proofs.Tree.Behind

/-!
# Expressions that can be read once written

The renderer puts a dot right behind a whole number, where the lexer makes a float of it if the name behind looks like an
exponent, and puts parentheses around tables, where the grammar has none. A function that keeps its text may end with a
statement that needs what stood behind it. Here the expressions are told in which none of this happens. In a source an
expression starts with a table only where one is allowed, and there it binds as tightly as its place asks for.
-/

namespace Squirrel

/-- The forms that are written with the text they have. -/
def Kind.keepsText (kind : Kind) : Bool := kind ∈ [.array, .table, .lambdaExpression, .anonymousFunction]

namespace Tree

/-- The first word of the tree opens a table. -/
def startsWithTable (tree : Tree) : Bool := (Leaf.firstWord? tree.leaves).any (·.kind == .braceOpen)

/-- If the part starts with a table, it is written at its place without parentheses. -/
def LeadsAt (part : Tree) (atLeast : Nat) (tableAllowed : Bool) : Prop :=
  part.startsWithTable = true → atLeast ≤ part.precedence ∧ (part.kind = .table → tableAllowed = true)

/-- A comma stands behind the last argument. -/
def hasLastComma (list : Tree) : Bool := ((items list.children).dropLast.getLast?).any (·.kind == .comma)

/-- A part of an expression that is written anew with the expression: it stands in none of the forms that keep their text. -/
inductive WrittenIn (inner : Tree) : Tree → Prop where
  | self : WrittenIn inner inner
  | child {kind : Kind} {children : List Tree} {child : Tree} (hkind : kind.keepsText = false) (hmem : child ∈ children)
      (hwritten : WrittenIn inner child) : WrittenIn inner (node kind children)

end Tree

/-- The outermost form of an expression is read as that form once it is written. -/
def Expression.Legible {tree : Tree} : Expression tree → Prop
  | binary left _ _ => ∀ part ∈ left, part.tree.LeadsAt tree.precedence false
  | assignment left _ _ | update left _ _ => ∀ part ∈ left, part.tree.LeadsAt Power.ternary false
  | ternary condition _ _ => ∀ part ∈ condition, part.tree.LeadsAt (Power.ternary + 1) false
  | unary _ true operand => ∀ part ∈ operand, part.tree.LeadsAt Power.unary false
  | call _ function arguments =>
    (∀ part ∈ function, part.tree.LeadsAt Power.accessor false) ∧ ∀ list ∈ arguments, list.tree.hasLastComma = false
  | index object _ => ∀ part ∈ object, part.tree.LeadsAt Power.accessor false
  | member object name => ∀ part ∈ object, (part.tree.isWhole = true →
      ∀ leaf ∈ name, Lexeme.startsExponent leaf.text.toList = false) ∧ part.tree.LeadsAt Power.accessor true
  | lambda _ _ => tree.EndsInBlock
  | anonymousFunction _ body => ∀ statement ∈ body, statement.kind = .block
  | _ => True

/-- All that is written anew for an expression is read as it was. -/
def Tree.IsLegible (tree : Tree) : Prop :=
  ∀ part : Tree, part.WrittenIn tree → ∀ form, part.asExpression? = some form → form.Legible

/-! ### Testing whether an expression can be read -/

namespace Tree

mutual

/-- The parts that are written anew with a tree. -/
def writtenParts : Tree → List Tree
  | token leaf => [token leaf]
  | node kind children => node kind children :: if kind.keepsText then [] else writtenPartsOf children

def writtenPartsOf : List Tree → List Tree
  | [] => []
  | child :: rest => writtenParts child ++ writtenPartsOf rest

end

theorem self_mem_writtenParts (tree : Tree) : tree ∈ tree.writtenParts := by
  cases tree <;> simp [writtenParts]

theorem mem_writtenPartsOf {part tree : Tree} {trees : List Tree} (hmem : tree ∈ trees)
    (hpart : part ∈ tree.writtenParts) : part ∈ writtenPartsOf trees := by
  induction trees with
  | nil => cases hmem
  | cons first rest ih =>
    rw [writtenPartsOf]
    obtain rfl | hmem := List.mem_cons.mp hmem
    · exact List.mem_append_left _ hpart
    · exact List.mem_append_right _ (ih hmem)

theorem WrittenIn.mem_writtenParts {part tree : Tree} (hwritten : part.WrittenIn tree) : part ∈ tree.writtenParts := by
  induction hwritten with
  | self => exact self_mem_writtenParts part
  | child hkind hmem _ ih =>
    rw [writtenParts, hkind, if_neg Bool.false_ne_true]
    exact List.mem_cons_of_mem _ (mem_writtenPartsOf hmem ih)

mutual

theorem writtenIn_of_mem {part tree : Tree} (hmem : part ∈ tree.writtenParts) : part.WrittenIn tree := by
  cases tree with
  | token leaf =>
    rw [writtenParts] at hmem
    obtain rfl := List.mem_singleton.mp hmem
    exact .self
  | node kind children =>
    rw [writtenParts] at hmem
    obtain rfl | hmem := List.mem_cons.mp hmem
    · exact .self
    · cases hkind : kind.keepsText with
      | true => simp [hkind] at hmem
      | false =>
        rw [hkind, if_neg Bool.false_ne_true] at hmem
        obtain ⟨child, hchild, hwritten⟩ := exists_writtenIn_of_mem hmem
        exact .child hkind hchild hwritten

theorem exists_writtenIn_of_mem {part : Tree} {trees : List Tree} (hmem : part ∈ writtenPartsOf trees) :
    ∃ child ∈ trees, part.WrittenIn child := by
  cases trees with
  | nil => simp [writtenPartsOf] at hmem
  | cons tree rest =>
    rw [writtenPartsOf] at hmem
    obtain hmem | hmem := List.mem_append.mp hmem
    · exact ⟨tree, List.mem_cons_self, writtenIn_of_mem hmem⟩
    · obtain ⟨child, hchild, hwritten⟩ := exists_writtenIn_of_mem hmem
      exact ⟨child, List.mem_cons_of_mem _ hchild, hwritten⟩

end

instance (part : Tree) (atLeast : Nat) (tableAllowed : Bool) : Decidable (part.LeadsAt atLeast tableAllowed) :=
  inferInstanceAs (Decidable (_ → _ ∧ (_ → _)))

end Tree

instance {tree : Tree} (form : Expression tree) : Decidable form.Legible :=
  match form with
  | .binary left _ _ => inferInstanceAs (Decidable (∀ part ∈ left, part.tree.LeadsAt tree.precedence false))
  | .assignment left _ _ | .update left _ _ =>
    inferInstanceAs (Decidable (∀ part ∈ left, part.tree.LeadsAt Power.ternary false))
  | .ternary condition _ _ =>
    inferInstanceAs (Decidable (∀ part ∈ condition, part.tree.LeadsAt (Power.ternary + 1) false))
  | .unary _ true operand => inferInstanceAs (Decidable (∀ part ∈ operand, part.tree.LeadsAt Power.unary false))
  | .call _ function arguments =>
    inferInstanceAs (Decidable ((∀ part ∈ function, part.tree.LeadsAt Power.accessor false) ∧
      ∀ list ∈ arguments, list.tree.hasLastComma = false))
  | .index object _ => inferInstanceAs (Decidable (∀ part ∈ object, part.tree.LeadsAt Power.accessor false))
  | .member object name => inferInstanceAs (Decidable (∀ part ∈ object, (part.tree.isWhole = true →
      ∀ leaf ∈ name, Lexeme.startsExponent leaf.text.toList = false) ∧ part.tree.LeadsAt Power.accessor true))
  | .lambda _ _ => inferInstanceAs (Decidable tree.EndsInBlock)
  | .anonymousFunction _ body => inferInstanceAs (Decidable (∀ statement ∈ body, statement.kind = .block))
  | .unary _ false _ | .parenthesized _ | .keyword _ _ | .array _ | .table _ | .identifier _ | .globalVariable _
  | .integer _ _ | .float _ | .string _ | .verbatimString _ | .char _ | .bool _ | .null => inferInstanceAs (Decidable True)

instance (tree : Tree) : Decidable tree.IsLegible :=
  decidable_of_iff (∀ part ∈ tree.writtenParts, ∀ form ∈ part.asExpression?, form.Legible)
    ⟨fun hall part hwritten => hall part hwritten.mem_writtenParts,
      fun hlegible part hmem => hlegible part (Tree.writtenIn_of_mem hmem)⟩

-- `1.e5` is a float
example : ["e", "e5"].map (fun name => decide (Tree.node .derefExpression [.node .integer [Tree.token ⟨.integerLit, "1"⟩],
    Tree.token (Leaf.sign .dot), Tree.token ⟨.id, name⟩]).IsLegible) = [true, false] := by
  decide +kernel

/-! ### First words -/

namespace Tree

variable {tree left : Tree} {kind : Kind} {row : List Tree}

theorem startsWithTable_eq (tree : Tree) : tree.startsWithTable = (wordsIn tree.leaves).head?.any (·.kind == .braceOpen) := by
  rw [startsWithTable, Leaf.firstWord?, wordsIn, List.head?_filter]

/-- A node starts as its first part does. -/
theorem BuiltOf.startsWithTable_eq (hbuilt : tree.BuiltOf kind (left :: row)) (hword : wordsIn left.leaves ≠ []) :
    tree.startsWithTable = left.startsWithTable := by
  obtain ⟨leaf, others, hleft⟩ := List.exists_cons_of_ne_nil hword
  rw [Tree.startsWithTable_eq, Tree.startsWithTable_eq, hbuilt.wordsIn_leaves, leavesOf, wordsIn_append, hleft]
  rfl

theorem Genuine.wordsIn_ne_nil (hgenuine : tree.Genuine) : wordsIn tree.leaves ≠ [] := by
  obtain ⟨before?, ⟨leaf, hleaf, hword⟩, -⟩ := hgenuine.exact
  exact List.ne_nil_of_mem (List.mem_filter.mpr ⟨List.mem_of_mem_getLast? hleaf, by rw [hword]; rfl⟩)

end Tree

open Squirrel.Tree

namespace Derives

variable {words last : List Word} {tree : Tree} {power : Nat} {tableAllowed : Bool}

theorem here_of_startsWithTable {items : List Item} (hderives : Derives items words last [tree])
    (hwords : ∀ word ∈ words, word.kind.isTrivia = false) (htable : tree.startsWithTable = true) :
    Word.here words = .braceOpen := by
  obtain ⟨front, rfl, hfront⟩ := hderives.exists_words hwords
  rw [startsWithTable_eq, ← show leavesOf [tree] = tree.leaves by rw [leavesOf, leavesOf, List.append_nil], ← hfront] at htable
  cases front with
  | nil => cases htable
  | cons word others => exact beq_iff_eq.mp htable

theorem startsValue_of_expression (hderives : Derives [.part (.expression power tableAllowed)] words last [tree]) :
    Word.StartsValue tableAllowed words := hderives.accepts.1

/-- Where no table is allowed an expression does not start with one. -/
theorem startsWithTable_eq_false (hderives : Derives [.part (.expression power false)] words last [tree])
    (hwords : ∀ word ∈ words, word.kind.isTrivia = false) : tree.startsWithTable = false := by
  refine Bool.eq_false_iff.mpr fun htable => ?_
  have hstarts := (Grammar.StartsValue.startsOperand hderives.startsValue_of_expression).starts
  rw [Word.StartsExpression, hderives.here_of_startsWithTable hwords htable] at hstarts
  exact absurd hstarts (by decide)

/-- An operand that starts with a brace is a table. -/
theorem kind_of_operand (hderives : Derives [.part (.operand tableAllowed)] words last [tree])
    (hhere : Word.here words = .braceOpen) : tree.kind = .table := by
  obtain ⟨form, body, parts, hproduction, hbody, hform⟩ := hderives.exists_production
  have hother {kind : Kind} (hkind : Word.here words = kind) (hne : kind ≠ .braceOpen) : tree.kind = .table :=
    absurd (hkind.symm.trans hhere) hne
  cases hproduction with
  | operandTable =>
    obtain rfl : [tree] = parts := hform
    obtain ⟨form, body, parts, hproduction, hbody, hform⟩ := hbody.exists_production
    cases hproduction
    obtain ⟨table, hbuilt, hsingle⟩ := hform
    obtain rfl : tree = table := List.singleton_inj.mp hsingle
    exact hbuilt.kind_eq
  | operandNegative => exact hother hbody.accepts.1.1 (by decide)
  | operandParenthesized | operandArray => exact hother hbody.accepts.1 (by decide)
  | operandLiteral =>
    obtain ⟨node, hliteral⟩ := hbody.accepts.1
    rw [hhere] at hliteral
    cases hliteral
  | prefixed =>
    cases hbody with
    | check _ hbody =>
      cases hbody with
      | @wordIn _ _ word _ _ _ hsign _ =>
        rw [show word.kind = .braceOpen from hhere] at hsign
        exact absurd hsign (by decide)
  | keyword hkeyword =>
    cases hbody with
    | @word _ _ word _ _ _ hkind _ =>
      rw [← hkind, show word.kind = .braceOpen from hhere] at hkeyword
      cases hkeyword
  | _ =>
    cases hbody with
    | word hkind => exact hother hkind (by decide)

/-- An expression that starts with a table binds as tightly as its place asks for. -/
theorem le_precedence (hderives : Derives [.part (.expression power tableAllowed)] words last [tree])
    (hwords : ∀ word ∈ words, word.kind.isTrivia = false) (htable : tree.startsWithTable = true)
    (hpower : power ≤ Power.accessor) : power ≤ tree.precedence := by
  have hhere := hderives.here_of_startsWithTable hwords htable
  have hnode : tree.isNode = true := by
    obtain ⟨other, hsingle, hexpression⟩ := hderives.rowFits.of_part
    obtain rfl : tree = other := List.singleton_inj.mp hsingle
    exact (Bool.and_eq_true_iff.mp hexpression).1
  obtain ⟨form, body, parts, hproduction, hbody, hform⟩ := hderives.exists_production
  cases hproduction
  obtain rfl : [tree] = parts := hform
  obtain ⟨middle, first, _, hchain, hcheck, htrees⟩ := hbody.split [_]
  cases hcheck with | check _ hnil =>
  cases hnil
  rw [List.append_nil] at htrees
  subst htrees
  obtain ⟨form, body, parts, hproduction, hbody, hform⟩ := hchain.exists_production
  cases hproduction with
  | chainOperand =>
    obtain rfl : [tree] = parts := hform
    have hkind := hbody.kind_of_operand hhere
    have hprecedence : tree.precedence = Precedence.primary := by simp [precedence, asExpression?, hnode, hkind]
    rw [hprecedence]
    exact Nat.le_trans hpower (by decide)
  | chainSuffix found =>
    obtain ⟨between, _, row, hleft, hrest, rfl⟩ := hbody.split [_]
    obtain ⟨left, rfl, hread⟩ := hleft.readWith_of_chain
    cases hrest with | check hfound hsuffix =>
    obtain ⟨node, hbuilt, hsingle⟩ := hform
    obtain rfl : tree = node := List.singleton_inj.mp hsingle
    have hown := (powers_of_suffix hbuilt hread.isExpression hsuffix.rowFits.of_part).2.1
    cases hpowers : found.power? with
    | some own =>
      have hmem : own ∈ tree.ownPower? := hown.trans hpowers
      obtain ⟨rfl, -⟩ := precedence_of_ownPower? hnode hmem
      exact (Word.suffix?_eq_some_iff.mp hfound).2 _ hpowers
    | none =>
      have hprecedence : tree.precedence = Power.accessor := by
        cases found with
        | member | index | call => simp [precedence, asExpression?, hnode, hbuilt.kind_eq, Suffix.node]
        | _ => cases hpowers
      exact hprecedence ▸ hpower

end Derives

end Squirrel
