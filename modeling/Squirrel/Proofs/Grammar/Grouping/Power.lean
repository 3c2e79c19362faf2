import Squirrel.Proofs.Grammar.Complete.Expression
import Squirrel.Proofs.Grammar.Valid

/-!
# How operators group

The powers of its operators say which of two neighbours takes the operand between them. Two facts about an expression that
was read carry all of it: its own operator binds at least as tightly as the place asks for, and after its last operand no
suffix follows that this operand could still take in. What takes such an expression in as a left operand therefore binds
more loosely than the expression's last operand was read.
-/

namespace Squirrel

open Squirrel.Tree

/-! ### The powers of suffixes -/

namespace Suffix

/-- The power of an operator. What is written right behind its operand has none and follows at every power. -/
def power? : Suffix → Option Nat
  | member | index | call => none
  | increment => some Power.unary
  | ternary => some Power.ternary
  | assignment | update => some Power.assignment
  | binary power => some power

/-- The power with which the last operand of a suffix is read, if it ends in one. -/
def rightPower? : Suffix → Option Nat
  | member | index | call | increment => none
  | ternary => some Power.ternary
  | assignment | update => some Power.assignment
  | binary power => some (power + 1)

/-- A suffix is found for the powers up to its own. -/
theorem of?_eq_some_iff {power : Nat} {afterLineBreak : Bool} {kind : Kind} {found : Suffix} :
    of? power afterLineBreak kind = some found ↔
      of? 0 afterLineBreak kind = some found ∧ ∀ own ∈ found.power?, power ≤ own := by
  cases kind
  all_goals simp [of?, Power.binary?]
  all_goals grind [power?]

end Suffix

theorem Word.suffix?_eq_some_iff {power : Nat} {words : List Word} {found : Suffix} :
    suffix? power words = some found ↔ suffix? 0 words = some found ∧ ∀ own ∈ found.power?, power ≤ own := by
  cases words with
  | nil => simp [suffix?]
  | cons word rest => exact Suffix.of?_eq_some_iff

theorem Word.suffix?_eq_none_of_le {power needed : Nat} {words : List Word} (hnone : suffix? power words = none) (hle : power ≤ needed) :
    suffix? needed words = none := by
  cases hfound : suffix? needed words with
  | none => rfl
  | some found =>
    obtain ⟨hzero, hown⟩ := suffix?_eq_some_iff.mp hfound
    have hsome := suffix?_eq_some_iff.mpr ⟨hzero, fun own hmem => Nat.le_trans hle (hown own hmem)⟩
    exact nomatch hnone.symm.trans hsome

/-- Where one power finds a suffix and another does not, the other one is above the power of the suffix. -/
theorem Word.exists_power_lt {power above : Nat} {words : List Word} {found : Suffix}
    (hfound : suffix? power words = some found) (hnone : suffix? above words = none) :
    ∃ own, found.power? = some own ∧ own < above := by
  by_cases hall : ∀ own ∈ found.power?, above ≤ own
  · rw [suffix?_eq_some_iff.mpr ⟨(suffix?_eq_some_iff.mp hfound).1, hall⟩] at hnone
    exact nomatch hnone
  · simpa using hall

/-! ### The powers of trees -/

/-- Nodes with an operator of their own, or with an operand that nothing closes. -/
def Kind.isOperation : Kind → Bool
  | unaryExpression | binaryExpression | ternaryExpression | assignmentExpression | updateExpression
  | lambdaExpression | cloneExpression | deleteExpression | resumeExpression => true
  | _ => false

namespace Tree

/-- The power of the operator of a binary expression. -/
def binaryPower? (tree : Tree) : Option Nat :=
  if tree.kind = .binaryExpression then
    (tree.operatorIn? (Power.binary? · |>.isSome)).bind (Power.binary? ·.kind)
  else none

/-- The power of the outermost operator of an expression that starts with an operand. -/
def ownPower? (tree : Tree) : Option Nat :=
  match tree.kind with
  | .assignmentExpression | .updateExpression => some Power.assignment
  | .ternaryExpression => some Power.ternary
  | .binaryExpression => tree.binaryPower?
  | .unaryExpression => if tree.startsWithNode then some Power.unary else none
  | _ => none

/-- The power with which the last operand of an expression is read, if it ends in one. -/
def rightPower? (tree : Tree) : Option Nat :=
  match tree.kind with
  | .lambdaExpression | .cloneExpression | .deleteExpression | .resumeExpression => some 0
  | .assignmentExpression | .updateExpression => some Power.assignment
  | .ternaryExpression => some Power.ternary
  | .binaryExpression => tree.binaryPower?.map (· + 1)
  | .unaryExpression => if tree.startsWithNode then none else some Power.accessor
  | _ => none

variable {tree : Tree}

theorem binaryPower?_eq {left value : Tree} {sign : Leaf} {power : Nat}
    (hbuilt : tree.BuiltOf .binaryExpression [left, token sign, value]) (hleft : left.isExpression = true)
    (hsign : Power.binary? sign.kind = some power) :
    tree.operatorIn? (Power.binary? · |>.isSome) = some sign ∧ tree.binaryPower? = some power := by
  have hfound : tree.operatorIn? (Power.binary? · |>.isSome) = some sign := by
    rw [hbuilt.operatorIn?_eq fun _ => isTrivia_of_binary?]
    simp [leavesIn, leaf?_of_isNode (Bool.and_eq_true_iff.mp hleft).1, hsign]
  exact ⟨hfound, by rw [binaryPower?, hbuilt.kind_eq, if_pos rfl, hfound]; exact hsign⟩

/-- A suffix gives its powers to the tree around it. -/
theorem powers_of_suffix {found : Suffix} {left : Tree} {parts : List Tree}
    (hbuilt : tree.BuiltOf found.node (left :: parts)) (hleft : left.isExpression = true)
    (hparts : found.Fits parts) : (tree.kind = .binaryExpression → tree.binaryPower?.isSome) ∧
      tree.ownPower? = found.power? ∧ tree.rightPower? = found.rightPower? := by
  rw [ownPower?, rightPower?, hbuilt.kind_eq]
  cases found with
  | binary power =>
    obtain ⟨sign, value, rfl, hsign, -⟩ := hparts
    have hpower := (binaryPower?_eq hbuilt hleft hsign).2
    exact ⟨fun _ => by rw [hpower]; rfl, hpower, congrArg (Option.map (· + 1)) hpower⟩
  | increment =>
    have hstarts : tree.startsWithNode = true := by
      rw [hbuilt.startsWithNode_eq]
      exact (Bool.and_eq_true_iff.mp hleft).1
    simp [Suffix.node, Suffix.power?, Suffix.rightPower?, hstarts]
  | _ => exact ⟨by simp [Suffix.node], rfl, rfl⟩

end Tree

/-! ### What was read with a power -/

namespace Derives

/-- Behind an expression no suffix follows that its power admits. -/
theorem suffix?_of_expression (items : List Item) {power : Nat} {tableAllowed : Bool} {words last : List Word}
    {trees : List Tree} (hderives : Derives (items ++ [.part (.expression power tableAllowed)]) words last trees) :
    Word.suffix? power last = none := by
  obtain ⟨middle, _, _, -, hexpression, -⟩ := hderives.split items
  obtain ⟨_, _, _, hproduction, hbody, -⟩ := hexpression.exists_production
  cases hproduction
  obtain ⟨between, _, _, -, hcheck, -⟩ := hbody.split [_]
  cases hcheck with | check hnone hend =>
  cases hend
  exact hnone

theorem suffix?_of_suffix {found : Suffix} {words last : List Word} {parts : List Tree}
    (hderives : Derives [.part (.suffix found)] words last parts) :
    ∀ needed ∈ found.rightPower?, Word.suffix? needed last = none := by
  intro needed hneeded
  obtain ⟨_, _, _, hproduction, hbody, -⟩ := hderives.exists_production
  cases hproduction with
  | suffixTernary =>
    obtain rfl := Option.some.inj hneeded
    exact suffix?_of_expression [_, _, _] hbody
  | suffixAssignment | suffixUpdate | suffixBinary =>
    obtain rfl := Option.some.inj hneeded
    exact suffix?_of_expression [_] hbody
  | _ => exact nomatch hneeded

end Derives

/-- An expression that was read with a power, in front of the last words. -/
structure Tree.ReadWith (tree : Tree) (power : Nat) (last : List Word) : Prop where
  isExpression : tree.isExpression = true
  operator : tree.kind = .binaryExpression → tree.binaryPower?.isSome
  own : ∀ own ∈ tree.ownPower?, power ≤ own
  right : ∀ needed ∈ tree.rightPower?, Word.suffix? needed last = none


/-- An expression without an operator of its own that ends in no operand. -/
theorem Tree.ReadWith.of_closed {tree : Tree} {power : Nat} {last : List Word} (hexpression : tree.isExpression = true)
    (hclosed : tree.kind.isOperation = false) : tree.ReadWith power last := by
  have hnone : tree.kind ≠ .binaryExpression ∧ tree.ownPower? = none ∧ tree.rightPower? = none := by
    rw [ownPower?, Tree.rightPower?]
    generalize tree.kind = kind at hclosed
    cases kind
    all_goals first
      | exact ⟨nofun, rfl, rfl⟩
      | exact nomatch hclosed
  obtain ⟨hkind, hown, hright⟩ := hnone
  exact ⟨hexpression, fun heq => absurd heq hkind, by rw [hown]; exact nofun, by rw [hright]; exact nofun⟩

/-- An expression that starts with a token and ends in an operand. -/
theorem Tree.ReadWith.of_open {tree : Tree} {power needed : Nat} {last : List Word}
    (hexpression : tree.isExpression = true) (hkind : tree.kind ≠ .binaryExpression) (hown : tree.ownPower? = none)
    (hright : tree.rightPower? = some needed) (hnone : Word.suffix? needed last = none) :
    tree.ReadWith power last where
  isExpression := hexpression
  operator heq := absurd heq hkind
  own := by
    rw [hown]
    exact nofun
  right := by
    rw [hright]
    rintro _ ⟨rfl⟩
    exact hnone

namespace Derives

/-- What a phrase for a literal, an array, a table or parentheses places. -/
theorem isOperation_of_closed {phrase : Phrase} {words last : List Word} {tree : Tree}
    (hderives : Derives [.part phrase] words last [tree])
    (hphrase : phrase ∈ [.negative, .literal, .parenthesized, .array, .table]) : tree.kind.isOperation = false := by
  obtain ⟨form, body, parts, hproduction, -, hform⟩ := hderives.exists_production
  simp only [List.mem_cons, List.not_mem_nil, or_false] at hphrase
  rcases hphrase with rfl | rfl | rfl | rfl | rfl
  · cases hproduction
    all_goals
      obtain rfl := List.singleton_inj.mp hform
      rfl
  · cases hproduction with | literal hliteral =>
    obtain rfl := List.singleton_inj.mp hform
    exact Grammar.forall_literalNode? (P := (·.isOperation = false)) hliteral (by decide)
  all_goals
    cases hproduction
    obtain ⟨other, hbuilt, hother⟩ := hform
    obtain rfl := List.singleton_inj.mp hother
    rw [hbuilt.kind_eq]
    rfl

theorem readWith_of_operand {power : Nat} {tableAllowed : Bool} {words last : List Word} {placed : List Tree}
    (hderives : Derives [.part (.operand tableAllowed)] words last placed) :
    ∃ tree, placed = [tree] ∧ tree.ReadWith power last := by
  obtain ⟨form, body, parts, hproduction, hbody, hform⟩ := hderives.exists_production
  have hparts := hproduction.fits hbody.rowFits hform
  obtain ⟨tree, rfl, hexpression⟩ := hparts
  refine ⟨tree, rfl, ?_⟩
  cases hproduction with
  | operandNegative | operandParenthesized | operandArray | operandTable | operandLiteral =>
    obtain rfl : [tree] = parts := hform
    exact .of_closed hexpression (hbody.isOperation_of_closed (by simp))
  | identifier | globalVariable | anonymousFunction | rawcall =>
    obtain ⟨other, hbuilt, hother⟩ := hform
    obtain rfl := List.singleton_inj.mp hother
    exact .of_closed hexpression (by rw [hbuilt.kind_eq]; rfl)
  | prefixed =>
    obtain ⟨other, hbuilt, hother⟩ := hform
    obtain rfl := List.singleton_inj.mp hother
    obtain ⟨sign, _, rfl, -, -⟩ := hbody.rowFits
    have hstarts : tree.startsWithNode = false := hbuilt.startsWithNode_eq
    have hkind := hbuilt.kind_eq
    exact .of_open hexpression (by simp [hkind]) (by simp [ownPower?, hkind, hstarts])
      (by simp [Tree.rightPower?, hkind, hstarts]) (suffix?_of_expression [_, _] hbody)
  | lambda =>
    obtain ⟨other, hbuilt, hother⟩ := hform
    obtain rfl := List.singleton_inj.mp hother
    have hkind := hbuilt.kind_eq
    exact .of_open hexpression (by simp [hkind]) (by simp [ownPower?, hkind]) (by simp [Tree.rightPower?, hkind])
      (suffix?_of_expression [_, _] hbody)
  | @keyword _ kind node hkeyword =>
    obtain ⟨other, hbuilt, hother⟩ := hform
    obtain rfl := List.singleton_inj.mp hother
    have hnone := suffix?_of_expression [_] hbody
    have hkind := hbuilt.kind_eq
    revert hkeyword
    fun_cases Grammar.keywordNode? kind
    all_goals
      intro hkeyword
      cases hkeyword
    all_goals
      exact .of_open hexpression (by simp [hkind]) (by simp [ownPower?, hkind]) (by simp [Tree.rightPower?, hkind]) hnone

theorem readWith_of_chain {power : Nat} {tableAllowed : Bool} {words last : List Word} {placed : List Tree}
    (hderives : Derives [.part (.chain power tableAllowed)] words last placed) :
    ∃ tree, placed = [tree] ∧ tree.ReadWith power last := by
  obtain ⟨form, body, parts, hproduction, hbody, hform⟩ := hderives.exists_production
  cases hproduction with
  | chainOperand =>
    obtain rfl : placed = parts := hform
    exact hbody.readWith_of_operand
  | chainSuffix found =>
    obtain ⟨tree, hbuilt, rfl⟩ := hform
    obtain ⟨_, _, rfl, ⟨left, rfl, hleft⟩, hsuffix⟩ := hbody.rowFits
    obtain ⟨hoperator, hown, hright⟩ := powers_of_suffix hbuilt hleft hsuffix.of_part
    obtain ⟨middle, _, _, -, hrest, -⟩ := hbody.split [_]
    cases hrest with | check hfound hrest =>
    refine ⟨tree, rfl, ?_, hoperator, ?_, ?_⟩
    · rw [Tree.isExpression, hbuilt.isNode, hbuilt.kind_eq, found.isExpression_node]
      rfl
    · rw [hown]
      exact (Word.suffix?_eq_some_iff.mp hfound).2
    · rw [hright]
      exact hrest.suffix?_of_suffix

theorem readWith_of_expression {power : Nat} {tableAllowed : Bool} {words last : List Word} {placed : List Tree}
    (hderives : Derives [.part (.expression power tableAllowed)] words last placed) :
    ∃ tree, placed = [tree] ∧ tree.ReadWith power last := by
  obtain ⟨form, body, parts, hproduction, hbody, hform⟩ := hderives.exists_production
  cases hproduction
  obtain rfl : placed = parts := hform
  obtain ⟨middle, first, second, hchain, hcheck, rfl⟩ := hbody.split [_]
  cases hcheck with | check hnone hend =>
  cases hend
  rw [List.append_nil]
  exact hchain.readWith_of_chain

end Derives

end Squirrel
