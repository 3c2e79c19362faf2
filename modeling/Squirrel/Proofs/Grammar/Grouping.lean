import Squirrel.Proofs.Grammar.Grouping.Power
import Squirrel.Proofs.Grammar.Throughout
import Squirrel.Proofs.Parse.Evaluation

/-!
# Grouped expressions

In a valid script every operator has operands that bind as tightly as it asks for. For an operand to the right that is what
it was read with; for the one to the left it is what was left of the source when the operator came up.
-/

namespace Squirrel

open Squirrel.Tree

/-! ### Operands -/

theorem Power.binary?_bounds {kind : Kind} {power : Nat} (hbinary : Power.binary? kind = some power) :
    Power.ternary < power ∧ power < Power.unary := by
  revert hbinary
  fun_cases Power.binary? kind
  all_goals
    intro hbinary
    cases hbinary
  all_goals decide

namespace Tree

/-- Whether an expression is a prefix operator with its operand. -/
def isPrefix (tree : Tree) : Bool := tree.kind == .unaryExpression && !tree.startsWithNode

/-- Whether an expression is an increment or decrement after its operand. -/
def isPostfix (tree : Tree) : Bool := tree.kind == .unaryExpression && tree.startsWithNode

/-- Neither a ternary nor an assignment or update. -/
def IsTight (tree : Tree) : Prop :=
  tree.kind ∉ [.ternaryExpression, .assignmentExpression, .updateExpression]

/-- Neither an assignment nor an update. -/
def IsValue (tree : Tree) : Prop := tree.kind ∉ [.assignmentExpression, .updateExpression]

/-- None of the forms that take in everything to their right. -/
def IsEnclosed (tree : Tree) : Prop :=
  tree.kind ∉ [.lambdaExpression, .cloneExpression, .deleteExpression, .resumeExpression]

variable {tree : Tree} {power bound : Nat} {last : List Word}

theorem binaryPower?_bounds (hpower : tree.binaryPower? = some power) :
    Power.ternary < power ∧ power < Power.unary := by
  rw [binaryPower?] at hpower
  split at hpower
  · obtain ⟨sign, -, hsign⟩ := Option.bind_eq_some_iff.mp hpower
    exact Power.binary?_bounds hsign
  · cases hpower

theorem kind_of_binaryPower? (hpower : power ∈ tree.binaryPower?) : tree.kind = .binaryExpression := by
  rw [binaryPower?] at hpower
  split at hpower
  · assumption
  · cases hpower

namespace ReadWith

variable (hread : tree.ReadWith power last)

include hread

theorem isValue_of_le (hpower : Power.ternary ≤ power) : tree.IsValue := by
  intro hmem
  have hown := hread.own
  simp only [List.mem_cons, List.not_mem_nil, or_false] at hmem
  obtain hkind | hkind := hmem
  all_goals
    simp [ownPower?, hkind, Power.assignment] at hown
    simp [Power.ternary] at hpower
    omega

theorem isTight_of_lt (hpower : Power.ternary < power) : tree.IsTight := by
  intro hmem
  obtain hkind | hmem := List.mem_cons.mp hmem
  · have hown := hread.own
    simp [ownPower?, hkind] at hown
    omega
  · exact hread.isValue_of_le (Nat.le_of_lt hpower) hmem

theorem binaryPower_le {own : Nat} (hown : own ∈ tree.binaryPower?) : power ≤ own := by
  refine hread.own own ?_
  have hkind := kind_of_binaryPower? hown
  rwa [ownPower?, hkind]

/-- Operators of a higher power than any binary one take no binary expression for an operand. -/
theorem not_binary_of_le (hpower : Power.unary ≤ power) : tree.kind ≠ .binaryExpression := by
  intro hkind
  obtain ⟨own, hown⟩ := Option.isSome_iff_exists.mp (hread.operator hkind)
  have hbounds := binaryPower?_bounds hown
  have hle := hread.binaryPower_le hown
  omega

theorem not_postfix_of_lt (hpower : Power.unary < power) : tree.isPostfix = false := by
  cases hcase : tree.isPostfix with
  | false => rfl
  | true =>
    obtain ⟨hkind, hstarts⟩ := Bool.and_eq_true_iff.mp hcase
    have hown := hread.own
    simp [ownPower?, beq_iff_eq.mp hkind, hstarts] at hown
    omega

end ReadWith

/-! ### Left operands -/

/-- An expression that is taken in by a suffix of a power. -/
def EndsAbove (tree : Tree) (bound : Nat) : Prop := ∀ needed ∈ tree.rightPower?, bound < needed

namespace EndsAbove

variable (hends : tree.EndsAbove bound)

include hends

theorem isEnclosed : tree.IsEnclosed := by
  intro hmem
  simp only [List.mem_cons, List.not_mem_nil, or_false] at hmem
  obtain hkind | hkind | hkind | hkind := hmem
  all_goals exact Nat.not_lt_zero _ (hends 0 (by simp [Tree.rightPower?, hkind]))

theorem isValue (hbound : Power.assignment ≤ bound) : tree.IsValue := by
  intro hmem
  simp only [List.mem_cons, List.not_mem_nil, or_false] at hmem
  obtain hkind | hkind := hmem
  all_goals
    have hlt := hends Power.assignment (by simp [Tree.rightPower?, hkind])
    omega

theorem isTight (hbound : Power.ternary ≤ bound) : tree.IsTight := by
  intro hmem
  obtain hkind | hmem := List.mem_cons.mp hmem
  · have hlt := hends Power.ternary (by simp [Tree.rightPower?, hkind])
    omega
  · exact hends.isValue (Nat.le_trans (by decide) hbound) hmem

theorem le_binaryPower {own : Nat} (hown : own ∈ tree.binaryPower?) : bound ≤ own := by
  have hkind := kind_of_binaryPower? hown
  have hlt := hends (own + 1) (by rw [Tree.rightPower?, hkind, Option.mem_def.mp hown]; rfl)
  omega

theorem not_binary (hread : tree.ReadWith power last) (hbound : Power.unary ≤ bound) :
    tree.kind ≠ .binaryExpression := by
  intro hkind
  obtain ⟨own, hown⟩ := Option.isSome_iff_exists.mp (hread.operator hkind)
  have hbounds := binaryPower?_bounds hown
  have hle := hends.le_binaryPower hown
  omega

theorem not_prefix (hbound : Power.accessor ≤ bound) : tree.isPrefix = false := by
  cases hcase : tree.isPrefix with
  | false => rfl
  | true =>
    obtain ⟨hkind, hstarts⟩ := Bool.and_eq_true_iff.mp hcase
    have hlt := hends Power.accessor (by simp_all [Tree.rightPower?])
    omega

end EndsAbove

/-- What a suffix takes in ends in an operand that the suffix does not belong to. -/
theorem ReadWith.endsAbove {found : Suffix} {words : List Word} (hread : tree.ReadWith power words)
    (hfound : Word.suffix? bound words = some found) : tree.EndsAbove (found.power?.getD Power.accessor) := by
  intro needed hneeded
  obtain ⟨own, hown, hlt⟩ := Word.exists_power_lt hfound (hread.right needed hneeded)
  rwa [hown]

end Tree

/-! ### Grouped expressions -/

/-- The operands of an expression bind as tightly as its operator asks for. -/
def Expression.Grouped {tree : Tree} : Expression tree → Prop
  | binary left operator right => ∃ first sign second power,
      left = some first ∧ operator = some sign ∧ right = some second ∧ Power.binary? sign.kind = some power ∧
      first.tree.IsTight ∧ first.tree.IsEnclosed ∧ (∀ own ∈ first.tree.binaryPower?, power ≤ own) ∧
      second.tree.IsTight ∧ ∀ own ∈ second.tree.binaryPower?, power < own
  | assignment left _ _ | update left _ _ => ∃ target, left = some target ∧ target.tree.IsValue
  | ternary condition _ alternative => ∃ first third,
      condition = some first ∧ alternative = some third ∧ first.tree.IsTight ∧ third.tree.IsValue
  | unary _ false operand => ∃ inner,
      operand = some inner ∧ inner.kind ≠ .binaryExpression ∧ inner.tree.IsTight ∧ inner.tree.isPostfix = false
  | unary _ true operand => ∃ inner, operand = some inner ∧ inner.kind ≠ .binaryExpression ∧ inner.tree.IsTight
  | call isRaw object _ => isRaw = false → ∃ inner,
      object = some inner ∧ inner.kind ≠ .binaryExpression ∧ inner.tree.IsTight ∧ inner.tree.isPrefix = false
  | index object _ | member object _ => ∃ inner,
      object = some inner ∧ inner.kind ≠ .binaryExpression ∧ inner.tree.IsTight ∧ inner.tree.isPrefix = false
  | _ => True

namespace Tree

/-- The view of a tree is grouped, if it is an expression. -/
def IsGrouped (tree : Tree) : Prop := ∀ expression, tree.asExpression? = some expression → expression.Grouped

variable {tree : Tree} {kind : Kind} {row : List Tree}

theorem BuiltOf.exists_expression? (hbuilt : tree.BuiltOf kind row) (place : Nat) (part : Tree)
    (hpart : (row.filter isExpression)[place]? = some part) :
    ∃ child, tree.expression? place = some child ∧ child.tree = part := by
  rw [← hbuilt.map_expression?, Option.map_eq_some_iff] at hpart
  exact hpart

/-- Forms whose operands are closed off have nothing to group. -/
theorem isGrouped_of_kind (hkind : tree.kind ∉ [.unaryExpression, .binaryExpression, .ternaryExpression,
    .assignmentExpression, .updateExpression, .callExpression, .indexExpression, .derefExpression]) :
    tree.IsGrouped := by
  intro found hfound
  rw [asExpression?] at hfound
  cases hnode : tree.isNode with
  | false => simp [hnode] at hfound
  | true =>
    rw [hnode] at hfound
    generalize tree.kind = kind at hkind hfound
    cases kind
    all_goals first
      | exact absurd hkind (by decide)
      | (cases hfound; done)
      | (obtain rfl := Option.some.inj hfound; exact trivial)

end Tree

/-- The last tree of a row that ends in an expression. -/
theorem Derives.readWith_of_last (items : List Item) (front : List Tree) {power : Nat} {tableAllowed : Bool}
    {words last : List Word} {tree : Tree}
    (hderives : Derives (items ++ [.part (.expression power tableAllowed)]) words last (front ++ [tree])) :
    tree.ReadWith power last := by
  obtain ⟨middle, first, second, -, hexpression, htrees⟩ := hderives.split items
  obtain ⟨other, rfl, hread⟩ := hexpression.readWith_of_expression
  obtain ⟨-, rfl⟩ := List.append_singleton_inj.mp htrees
  exact hread

/-- A suffix and the expression that it takes in are grouped. -/
theorem isGrouped_of_suffix {tree left : Tree} {found : Suffix} {power : Nat} {middle last : List Word}
    {parts : List Tree} (hbuilt : tree.BuiltOf found.node (left :: parts)) (hleft : left.ReadWith power middle)
    (hfound : Word.suffix? power middle = some found) (hsuffix : Derives [.part (.suffix found)] middle last parts) :
    tree.IsGrouped := by
  have hends := hleft.endsAbove hfound
  have hexpression := hleft.isExpression
  obtain ⟨child, hchild, rfl⟩ := hbuilt.exists_expression? 0 left (by simp [hexpression])
  have hparts := hsuffix.rowFits.of_part
  obtain ⟨form, body, row, hproduction, hbody, hform⟩ := hsuffix.exists_production
  intro view hview
  rw [asExpression?, hbuilt.isNode, hbuilt.kind_eq] at hview
  cases found with
  | member | index =>
    obtain rfl := Option.some.inj hview
    exact ⟨child, hchild, hends.not_binary hleft (by decide), hends.isTight (by decide), hends.not_prefix (by decide)⟩
  | call =>
    obtain rfl := Option.some.inj hview
    exact fun _ =>
      ⟨child, hchild, hends.not_binary hleft (by decide), hends.isTight (by decide), hends.not_prefix (by decide)⟩
  | increment =>
    have hstarts : tree.startsWithNode = true := by
      rw [hbuilt.startsWithNode_eq]
      exact (Bool.and_eq_true_iff.mp hexpression).1
    obtain rfl := Option.some.inj hview
    rw [hstarts]
    exact ⟨child, hchild, hends.not_binary hleft (by decide), hends.isTight (by decide)⟩
  | assignment | update =>
    obtain rfl := Option.some.inj hview
    exact ⟨child, hchild, hends.isValue (by decide)⟩
  | ternary =>
    obtain ⟨question, second, colon, third, rfl, hsecond, hthird⟩ := hparts
    cases hproduction
    obtain rfl : _ = row := hform
    have hread := hbody.readWith_of_last [_, _, _] [_, _, _]
    obtain ⟨last, hlast, rfl⟩ := hbuilt.exists_expression? 2 third
      (by simp [hexpression, hsecond, hthird])
    obtain rfl := Option.some.inj hview
    exact ⟨child, last, hchild, hlast, hends.isTight (by decide), hread.isValue_of_le (by decide)⟩
  | binary own =>
    obtain ⟨sign, value, rfl, hsign, hvalue⟩ := hparts
    cases hproduction
    obtain rfl : _ = row := hform
    have hread := hbody.readWith_of_last [_] [_]
    obtain ⟨hlower, -⟩ := Power.binary?_bounds hsign
    obtain ⟨last, hlast, rfl⟩ := hbuilt.exists_expression? 1 value (by simp [hexpression, hvalue])
    obtain rfl := Option.some.inj hview
    exact ⟨child, sign, last, own, hchild, (binaryPower?_eq hbuilt hexpression hsign).1, hlast, hsign,
      hends.isTight (Nat.le_of_lt hlower), hends.isEnclosed, fun _ => hends.le_binaryPower,
      hread.isTight_of_lt (Nat.lt_succ_of_lt hlower), fun _ => hread.binaryPower_le⟩

/-- A node that a production builds is grouped. -/
theorem Production.isGrouped {phrase : Phrase} {kind : Kind} {body : List Item} {words last : List Word}
    {row : List Tree} {tree : Tree} (hproduction : Production phrase (.node kind) body)
    (hbody : Derives body words last row) (hbuilt : tree.BuiltOf kind row) : tree.IsGrouped := by
  cases hproduction
  all_goals try exact isGrouped_of_kind (by rw [hbuilt.kind_eq]; decide)
  case jump keyword hjump =>
    revert hjump
    fun_cases Grammar.jumpNode? keyword
    all_goals
      intro hjump
      cases hjump
    all_goals exact isGrouped_of_kind (by rw [hbuilt.kind_eq]; decide)
  case keyword keyword hkeyword =>
    revert hkeyword
    fun_cases Grammar.keywordNode? keyword
    all_goals
      intro hkeyword
      cases hkeyword
    all_goals exact isGrouped_of_kind (by rw [hbuilt.kind_eq]; decide)
  case chainSuffix =>
    obtain ⟨middle, _, _, hchain, hrest, rfl⟩ := hbody.split [_]
    obtain ⟨left, rfl, hleft⟩ := hchain.readWith_of_chain
    cases hrest with | check hfound hsuffix =>
    exact isGrouped_of_suffix hbuilt hleft hfound hsuffix
  case prefixed =>
    obtain ⟨sign, _, rfl, hsign, _, _, rfl, ⟨operand, rfl, hoperand⟩, rfl⟩ := hbody.rowFits
    have hstarts : tree.startsWithNode = false := hbuilt.startsWithNode_eq
    have hread := hbody.readWith_of_last [_, _] [_]
    obtain ⟨inner, hinner, rfl⟩ := hbuilt.exists_expression? 0 operand (by simp [hoperand])
    intro found hfound
    rw [asExpression?, hbuilt.isNode, hbuilt.kind_eq] at hfound
    obtain rfl := Option.some.inj hfound
    rw [hstarts]
    exact ⟨inner, hinner, hread.not_binary_of_le (by decide), hread.isTight_of_lt (by decide),
      hread.not_postfix_of_lt (by decide)⟩
  case rawcall =>
    obtain ⟨keyword, _, rfl, hkeyword, -⟩ := hbody.rowFits
    have hraw : tree.hasToken .kwRawcall = true := by
      rw [hbuilt.hasToken_eq rfl]
      simp [leavesIn, hkeyword]
    intro found hfound
    rw [asExpression?, hbuilt.isNode, hbuilt.kind_eq] at hfound
    obtain rfl := Option.some.inj hfound
    rw [hraw]
    rintro ⟨⟩

/-! ### Scripts -/

/-- All nodes that a derivation places are grouped. -/
theorem Derives.isGrouped {items : List Item} {words last : List Word} {trees : List Tree}
    (hderives : Derives items words last trees) : ∀ tree ∈ trees, tree.Throughout IsGrouped := by
  intro tree hmem
  have hplain : ∀ word ∈ words, (fun _ : Word => True) word := fun _ _ => trivial
  refine ((hderives.throughout ?_ ?_ ?_ hplain).2 tree hmem).2
  · intro word _ found hfound
    cases hfound
  · intro _ _ _ _ _ _ _ hproduction hbody _ _ hbuilt
    exact hproduction.isGrouped hbody hbuilt
  · intro _ _ _ _ _ _ hproduction _ _ _
    refine isGrouped_of_kind ?_
    rw [Tree.kind]
    cases hproduction with
    | negativeInteger | negativeFloat => decide
    | literal hliteral =>
      refine Grammar.forall_literalNode? (P := (· ∉ _)) hliteral ?_
      decide

theorem Script.diagnostics_eq_nil {script : Script} (hvalid : script.isValid = true) : script.diagnostics = [] := by
  cases hdiagnostics : script.diagnostics with
  | nil => rfl
  | cons first rest =>
    rw [isValid, hdiagnostics, List.any_cons] at hvalid
    cases hvalid

/-- Every expression of a valid script is grouped by the powers of its operators. -/
theorem Script.isGrouped_of_parse {source : String} {limits : Limits} {script : Script}
    (hparse : Script.parse source limits = .ok script) (hvalid : script.isValid = true) :
    ∀ tree : Tree, tree.Within script.root → ∀ expression, tree.asExpression? = some expression →
      expression.Grouped := by
  obtain ⟨⟨parts, hderives, hroot⟩, -⟩ := Script.derives_of_parse hparse (diagnostics_eq_nil hvalid)
  intro tree hwithin expression hexpression
  have hroot := hroot.throughout (isGrouped_of_kind (by rw [hroot.kind_eq]; decide)) hderives.isGrouped
  cases hnode : tree.isNode with
  | true => exact hroot tree hwithin hnode expression hexpression
  | false =>
    rw [asExpression?, hnode] at hexpression
    cases hexpression

/-- In `a + b * -c` the sum is grouped. -/
theorem Script.isGrouped_of_sum :
    ∃ (script : Script) (tree : Tree) (expression : Expression tree),
      Script.parse "a + b * -c" .unbounded = .ok script ∧ script.isValid = true ∧ tree.Within script.root ∧
      tree.asExpression? = some expression ∧ tree.binaryPower? = some 11 ∧ expression.Grouped := by
  have houtcome : (Script.outcome? "a + b * -c" .unbounded).any (fun outcome => outcome.2 &&
      outcome.1.places.any fun place => place.tree.binaryPower? == some 11 && place.tree.asExpression?.isSome)
      = true := by decide +kernel
  obtain ⟨script, clean, hparse, hclean, htest⟩ := Script.exists_of_outcome houtcome
  obtain ⟨htrue, hany⟩ := Bool.and_eq_true_iff.mp htest
  obtain ⟨place, hplace, hfound⟩ := List.any_eq_true.mp hany
  obtain ⟨hpower, hview⟩ := Bool.and_eq_true_iff.mp hfound
  obtain ⟨expression, hexpression⟩ := Option.isSome_iff_exists.mp hview
  have hwithin := (within_of_mem_placesFrom hplace).1
  have hvalid : script.isValid = true := by rw [isValid, hclean htrue]; rfl
  exact ⟨script, place.tree, expression, hparse, hvalid, hwithin, hexpression, beq_iff_eq.mp hpower,
    Script.isGrouped_of_parse hparse hvalid place.tree hwithin expression hexpression⟩

end Squirrel
