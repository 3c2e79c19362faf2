import Squirrel.Proofs.Grammar.Accept.Collection
import Squirrel.Proofs.Grammar.Sound.Collection
import Squirrel.Proofs.Render.Operand
import Squirrel.Proofs.Token.Literal

/-!
# Literals written again

A literal keeps its text, and stays the literal it is wherever an expression may stand. A minus sign that belongs to a
number stays right in front of it.
-/

namespace Squirrel

open Squirrel.Tree

namespace Leaf

open Lexeme

variable {leaf : Leaf} {node : Kind}

/-- A literal in front of whatever may follow an expression. -/
theorem Written.literal (hgenuine : leaf.Genuine) (hliteral : Grammar.literalNode? leaf.kind = some node) :
    Written [leaf] leaf.text.toList (leaf.isWhole = false) := by
  have hsome : (Grammar.literalNode? leaf.kind).isSome = true := by rw [hliteral]; rfl
  have hall : ∀ kind ∈ Kind.all, (Grammar.literalNode? kind).isSome = true → kind.isTrivia = false ∧
      (kind.spelling?.isSome = true → isOpener kind = true ∧ followers.all (stopsAt kind) = true) := by decide +kernel
  obtain ⟨hword, hsign⟩ := hall leaf.kind (mem_all leaf.kind) hsome
  cases hspelled : leaf.kind.spelling? with
  | none =>
    have hleaf := hgenuine.literal hsome hspelled
    obtain ⟨c, rest, htext, hopens, hfolds⟩ := hleaf.begins
    rw [String.ofList_toList] at hfolds
    exact ⟨.single hword fun after hafter => hleaf.standsBefore after fun d hmem => ⟨(hafter d hmem).1, (hafter d hmem).2.2⟩,
      leaf, [], c, rest, rfl, hword, htext, hopens, hfolds⟩
  | some spelling =>
    have hspelling : leaf.kind.spelling?.isSome = true := by rw [hspelled]; rfl
    obtain ⟨hopener, hstops⟩ := hsign hspelling
    rw [hgenuine.sign hspelling]
    refine ⟨.single hword fun after hafter => standsBefore_sign hspelling fun c hmem => ?_, ?_⟩
    · exact List.all_eq_true.mp hstops c (mem_followers (hafter c hmem).1)
    · have hbegins := begins_sign hopener [] []
      rwa [List.append_nil] at hbegins

/-- A number right behind the minus sign that belongs to it. -/
theorem Written.negative (hgenuine : leaf.Genuine) (hfolds : State.isFoldable ⟨leaf.kind, 0, leaf.text⟩ = true)
    (hliteral : Grammar.literalNode? leaf.kind = some node) :
    Written [sign .minus, leaf] ("-".toList ++ leaf.text.toList) (leaf.isWhole = false) := by
  have hnumber := Written.literal hgenuine hliteral
  obtain ⟨first, rest, c, more, hleaf, -, htext, -, hdecimal⟩ := hnumber.begins
  obtain ⟨rfl, -⟩ := List.cons.inj hleaf
  have hstops : ∀ n < 128, (!isNamePart (Char.ofNat n) || !isDecimal (Char.ofNat n) ||
      stopsAt .minus (Char.ofNat n)) = true := by decide
  have hopener : isOpener .minus = true := by decide
  refine hnumber.cons hopener fun after => standsBefore_sign rfl fun d hmem => ?_
  rw [htext] at hmem
  obtain rfl := Option.some.inj hmem
  have hpart : isNamePart c = true := by rw [isNamePart, hdecimal hfolds, Bool.or_true]
  have hchar := hstops c.toNat (toNat_lt_of_isNamePart hpart)
  rwa [Char.ofNat_toNat, hpart, hdecimal hfolds, Bool.not_true, Bool.false_or, Bool.false_or] at hchar

end Leaf

/-! ### Reading literals -/

theorem Tree.leaves_node_tokens (kind : Kind) (leaves : List Leaf) :
    (Tree.node kind (leaves.map Tree.token)).leaves = leaves := by
  rw [Tree.leaves]
  induction leaves with
  | nil => rfl
  | cons leaf rest ih => rw [List.map_cons, leavesOf, Tree.leaves, ih, List.singleton_append]

theorem Leaf.chars_eq_toList_join (leaves : List Leaf) : chars leaves = (String.join (leaves.map Leaf.text)).toList := by
  induction leaves with
  | nil => rfl
  | cons leaf rest ih => rw [chars_cons, ih, List.map_cons, String.join_cons, String.toList_append]

/-- A literal is written as it stands. -/
theorem Render.expression_literal {node : Kind} (leaves : List Leaf) {kind : Kind}
    (hliteral : Grammar.literalNode? kind = some node) (tail : Bool) :
    (expression (.node node (leaves.map Tree.token)) tail).toList = Leaf.chars leaves := by
  have htext : expression (.node node (leaves.map Tree.token)) tail = (Tree.node node (leaves.map Tree.token)).text := by
    refine Grammar.forall_literalNode? (P := fun node => expression (.node node (leaves.map Tree.token)) tail
      = (Tree.node node (leaves.map Tree.token)).text) hliteral ?_
    simp only [List.forall_mem_cons]
    refine ⟨?_, ?_, ?_, ?_, ?_, ?_, ?_, by simp⟩
    all_goals
      rw [expression]
      rfl
  rw [htext, Tree.text, Tree.leaves_node_tokens, Leaf.chars_eq_toList_join]

/-- A literal is a whole number if its last token is. -/
theorem Tree.isWhole_literal {leaf : Leaf} {node : Kind} (hliteral : Grammar.literalNode? leaf.kind = some node)
    (front : List Leaf) : (Tree.node node ((front ++ [leaf]).map Tree.token)).isWhole = leaf.isWhole := by
  rw [Tree.isWhole, Tree.leaves_node_tokens, List.getLast?_concat, Option.any_some, Tree.kind]
  cases hwhole : leaf.isWhole with
  | false => rw [Bool.and_false]
  | true =>
    rw [Leaf.isWhole, Lexeme.isWhole, Bool.and_eq_true, beq_iff_eq] at hwhole
    rw [hwhole.1] at hliteral
    obtain rfl := Option.some.inj hliteral
    rfl

namespace Tree.RoundTrips

variable {leaf : Leaf} {node : Kind}

/-- A literal of some tokens that a production builds around them. -/
theorem of_tokens {leaves : List Leaf} {kind : Kind} (hliteral : Grammar.literalNode? kind = some node)
    (hwritten : Leaf.Written leaves (Leaf.chars leaves) ((Tree.node node (leaves.map Tree.token)).isWhole = false))
    (hreads : ∀ tableAllowed joined last, Derives [.part (.operand tableAllowed)] (Word.ofLeaves false joined leaves ++ last) last
      [.node node (leaves.map Tree.token)]) : (Tree.node node (leaves.map Tree.token)).RoundTrips false := by
  have hexpression : (Tree.node node (leaves.map Tree.token)).isExpression = true :=
    isExpression_of_literalNode? hliteral
  refine of_operand hexpression fun tail => ⟨leaves, _, ?_, hexpression, rfl, fun joined phrase last hfits => ?_⟩
  · rw [Render.expression_literal leaves hliteral]
    exact hwritten.imp fun hdotted => hdotted.2
  · obtain ⟨allowed, rfl⟩ := hfits.phrase
    exact hreads allowed joined last

theorem literal (hgenuine : leaf.Genuine) (hliteral : Grammar.literalNode? leaf.kind = some node) :
    (Tree.node node [.token leaf]).RoundTrips false := by
  have hword : leaf.kind.isTrivia = false := Grammar.isTrivia_of_literalNode? hliteral
  have hchars : Leaf.chars [leaf] = leaf.text.toList := by simp
  refine @of_tokens node [leaf] leaf.kind hliteral ?_ fun tableAllowed joined last => ?_
  · have hwhole := Tree.isWhole_literal hliteral []
    rw [List.nil_append] at hwhole
    rw [hchars, hwhole]
    exact Leaf.Written.literal hgenuine hliteral
  · rw [Word.ofLeaves_word hword]
    exact .phrase .operandLiteral (.phrase (.literal hliteral) (.word rfl .nil) rfl) rfl

theorem negative (hgenuine : leaf.Genuine) (hfolds : State.isFoldable ⟨leaf.kind, 0, leaf.text⟩ = true)
    (hliteral : Grammar.literalNode? leaf.kind = some node) :
    (Tree.node node [.token (Leaf.sign .minus), .token leaf]).RoundTrips false := by
  have hword : leaf.kind.isTrivia = false := Grammar.isTrivia_of_literalNode? hliteral
  have hchars : Leaf.chars [Leaf.sign .minus, leaf] = "-".toList ++ leaf.text.toList := by
    simp [Leaf.sign, Kind.spelling?]
  refine @of_tokens node [Leaf.sign .minus, leaf] leaf.kind hliteral ?_ fun tableAllowed joined last => ?_
  · have hwhole := Tree.isWhole_literal hliteral [Leaf.sign .minus]
    rw [List.singleton_append] at hwhole
    rw [hchars, hwhole]
    exact Leaf.Written.negative hgenuine hfolds hliteral
  · rw [Word.ofLeaves_sign rfl, Word.ofLeaves_word hword]
    have hfollows : Word.NumberFollows (Word.sign .minus joined :: ⟨leaf, false, true⟩ :: last) := hfolds
    have hnegative : Production .negative (.tight node) [.check Word.NumberFollows, .word .minus, .word leaf.kind] := by
      rcases Grammar.kind_of_isFoldable hfolds with hkind | hkind
      · rw [show leaf.kind = .integerLit from hkind] at hliteral ⊢
        cases hliteral
        exact .negativeInteger
      · rw [show leaf.kind = .floatLit from hkind] at hliteral ⊢
        cases hliteral
        exact .negativeFloat
    exact .phrase .operandNegative (.phrase hnegative (.check hfollows (.word rfl (.word rfl .nil))) rfl) rfl

end Tree.RoundTrips

end Squirrel
