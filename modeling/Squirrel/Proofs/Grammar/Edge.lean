import Squirrel.Proofs.Grammar.Grouping.Power
import Squirrel.Proofs.Grammar.Lookahead
import Squirrel.Proofs.Grammar.Origin

/-!
# The right edge of an expression

What stands behind an expression matters only to the parts of it that end where it ends, and these ask for nothing but that
no suffix starts there. So an expression is the same one in front of any words that start no suffix, unless it ends with a
function whose body is no block: statements look further.
-/

namespace Squirrel

open Squirrel.Tree

/-! ### Items at the edge -/

/-- The words that an expression may end with. -/
def Kind.endsExpression (kind : Kind) : Bool :=
  kind ∈ [.id, .parenClose, .bracketClose, .braceClose, .plusPlus, .minusMinus] || (Grammar.literalNode? kind).isSome

/-- The phrases that an expression may end with. -/
def Phrase.endsExpression : Phrase → Bool
  | expression .. | chain .. | suffix _ | operand _ | parenthesized | negative | literal | array | table | callArguments
  | statement => true
  | _ => false

/-- Phrases that take a word at least. -/
def Phrase.takesWord : Phrase → Bool
  | functionDeclaration | classDeclaration | constDeclaration | enumDeclaration => true
  | phrase => phrase.endsExpression

/-- The words that an item takes at least. -/
def Item.width : Item → Nat
  | word _ | wordIn _ => 1
  | part phrase => if phrase.takesWord then 1 else 0
  | check _ => 0

def Item.widthOf : List Item → Nat
  | [] => 0
  | item :: items => item.width + widthOf items

/-- Items that an expression may end with: the last one is a word or a phrase that it may end with, and each condition looks
at words of these items only, or holds where no suffix starts. -/
def Item.AtEdge : List Item → Prop
  | [] => True
  | .word kind :: items => (widthOf items = 0 → kind.endsExpression = true) ∧ AtEdge items
  | .wordIn accepts :: items => (widthOf items = 0 → ∀ kind, accepts kind = true → kind.endsExpression = true) ∧ AtEdge items
  | .part phrase :: items => (widthOf items = 0 → phrase.endsExpression = true) ∧ AtEdge items
  | .check condition :: items =>
    (Word.LooksAtOne condition ∧ 1 ≤ widthOf items ∨ Word.LooksAtTwo condition ∧ 2 ≤ widthOf items ∨
      widthOf items = 0 ∧ ∀ words, Word.suffix? 0 words = none → condition words) ∧ AtEdge items

theorem Production.width_le {phrase : Phrase} {form : Form} {body : List Item} (hproduction : Production phrase form body) :
    (Item.part phrase).width ≤ Item.widthOf body := by
  cases hproduction
  all_goals simp [Item.widthOf, Item.width, Phrase.takesWord, Phrase.endsExpression]

theorem Production.atEdge {phrase : Phrase} {form : Form} {body : List Item} (hproduction : Production phrase form body)
    (hends : phrase.endsExpression = true) (hother : phrase ≠ .statement) : Item.AtEdge body := by
  cases hproduction
  all_goals try exact absurd hends Bool.false_ne_true
  all_goals try exact absurd rfl hother
  case expression =>
    exact ⟨fun _ => rfl, .inr (.inr ⟨rfl, fun _ hnone => Word.suffix?_eq_none_of_le hnone (Nat.zero_le _)⟩), trivial⟩
  case chainSuffix => exact ⟨fun _ => rfl, .inl ⟨fun _ _ _ hfound => hfound, Nat.le_refl 1⟩, fun _ => rfl, trivial⟩
  case suffixIncrement =>
    refine ⟨fun _ kind hkind => ?_, trivial⟩
    obtain rfl | rfl : kind = .plusPlus ∨ kind = .minusMinus := by simpa [Grammar.isIncrement] using hkind
    all_goals rfl
  case prefixed =>
    exact ⟨.inr (.inl ⟨fun _ _ _ _ hcondition => hcondition, Nat.le_refl 2⟩), fun hzero => absurd hzero (Nat.succ_ne_zero _),
      fun _ => rfl, trivial⟩
  case negativeInteger | negativeFloat =>
    exact ⟨.inr (.inl ⟨fun _ _ _ _ hcondition => hcondition, Nat.le_refl 2⟩), fun hzero => absurd hzero (Nat.succ_ne_zero _),
      fun _ => rfl, trivial⟩
  case literal hliteral => exact ⟨fun _ => by simp [Kind.endsExpression, hliteral], trivial⟩
  all_goals
    simp [Item.AtEdge, Item.widthOf, Item.width, Phrase.takesWord, Phrase.endsExpression, Kind.endsExpression]

/-- A condition of such items holds in front of other words, where no suffix starts. -/
theorem Item.AtEdge.condition {condition : List Word → Prop} {items : List Item} {front last other : List Word}
    (hedge : AtEdge (.check condition :: items)) (hwidth : widthOf items ≤ front.length)
    (hnothing : widthOf items = 0 → front = []) (hcondition : condition (front ++ last))
    (hnone : Word.suffix? 0 other = none) : condition (front ++ other) := by
  obtain ⟨hlooks, hone⟩ | ⟨hlooks, htwo⟩ | ⟨hzero, hholds⟩ := hedge.1
  · obtain _ | ⟨first, rest⟩ := front
    · exact absurd (Nat.le_trans hone hwidth) (by decide)
    · exact hlooks first _ _ hcondition
  · obtain _ | ⟨first, _ | ⟨second, rest⟩⟩ := front
    · exact absurd (Nat.le_trans htwo hwidth) (by decide)
    · exact absurd (Nat.le_trans htwo hwidth) (by simp)
    · exact hlooks first second _ _ hcondition
  · rw [hnothing hzero]
    exact hholds other hnone

/-! ### Trees at the edge -/

namespace Tree

mutual

/-- The tree and the parts of it that end where it ends. -/
def endings : Tree → List Tree
  | token leaf => [token leaf]
  | node kind children => node kind children :: endingsOf children

def endingsOf : List Tree → List Tree
  | [] => []
  | child :: rest => if (items rest).isEmpty then child.endings else endingsOf rest

end

/-- Each statement that ends where the tree ends is a block. -/
def EndsInBlock (tree : Tree) : Prop := ∀ inner ∈ tree.endings, inner.isStatement = true → inner.kind = .block

instance (tree : Tree) : Decidable tree.EndsInBlock :=
  inferInstanceAs (Decidable (∀ inner ∈ tree.endings, inner.isStatement = true → inner.kind = .block))

theorem self_mem_endings (tree : Tree) : tree ∈ tree.endings := by
  cases tree <;> simp [endings]

theorem endingsOf_eq {children : List Tree} {child : Tree} (hlast : child ∈ (items children).getLast?) :
    endingsOf children = child.endings := by
  induction children with
  | nil => simp at hlast
  | cons first rest ih =>
    rw [endingsOf]
    cases hrest : items rest with
    | nil =>
      have hfirst : items (first :: rest) = if first.isTrivia then [] else [first] := by
        rw [items, List.filter_cons, ← items, hrest]
        cases first.isTrivia <;> rfl
      rw [hfirst] at hlast
      split at hlast
      · simp at hlast
      · obtain rfl : first = child := by simpa using hlast
        rfl
    | cons next others =>
      have hsame : (items (first :: rest)).getLast? = (items rest).getLast? := by
        rw [items, List.filter_cons, ← items, hrest]
        split
        · rw [List.getLast?_cons_cons]
        · rfl
      exact ih (hsame ▸ hlast)

theorem endsInBlock_of_token {tree : Tree} (htoken : tree.isNode = false) : tree.EndsInBlock := by
  cases tree with
  | token leaf =>
    intro inner hinner hstatement
    obtain rfl : inner = token leaf := by simpa [endings] using hinner
    cases hstatement
  | node => cases htoken

theorem EndsInBlock.child {kind : Kind} {children : List Tree} {child : Tree} (hblock : (node kind children).EndsInBlock)
    (hlast : child ∈ (items children).getLast?) : child.EndsInBlock := by
  intro inner hinner
  refine hblock inner ?_
  rw [endings, endingsOf_eq hlast]
  exact List.mem_cons_of_mem _ hinner

end Tree

theorem Form.Holds.endsInBlock {form : Form} {parts placed : List Tree} (hform : form.Holds parts placed)
    (hplaced : ∀ tree ∈ placed.getLast?, tree.EndsInBlock) : ∀ tree ∈ parts.getLast?, tree.EndsInBlock := by
  cases form with
  | bare =>
    obtain rfl : placed = parts := hform
    exact hplaced
  | node kind =>
    obtain ⟨_, ⟨children, rfl, rfl⟩, rfl⟩ := hform
    exact fun tree => (hplaced _ rfl).child
  | tight kind =>
    obtain rfl : placed = [.node kind parts] := hform
    intro tree hlast
    cases hnode : tree.isNode with
    | false => exact endsInBlock_of_token hnode
    | true =>
      obtain ⟨front, rfl⟩ := List.getLast?_eq_some_iff.mp hlast
      refine (hplaced _ rfl).child ?_
      rw [items, List.filter_append, List.filter_cons_of_pos (by simp [isTrivia_of_isNode hnode])]
      simp

/-! ### Derivations at the edge -/

namespace Derives

variable {items : List Item} {words last front other : List Word} {trees : List Tree}

theorem width_le (hderives : Derives items words last trees) : last.length + Item.widthOf items ≤ words.length := by
  induction hderives with
  | nil => simp [Item.widthOf]
  | word _ _ ih | wordIn _ _ ih =>
    simp only [Item.widthOf, Item.width, List.length_cons] at ih ⊢
    omega
  | check _ _ ih =>
    simp only [Item.widthOf, Item.width] at ih ⊢
    omega
  | part hproduction _ _ _ ihbody ih =>
    have hwidth := hproduction.width_le
    simp only [Item.widthOf] at ihbody ih hwidth ⊢
    omega

/-- Items at the edge that take no word are conditions only. -/
theorem eq_nil_of_width (hderives : Derives items words last trees) (hedge : Item.AtEdge items)
    (hnone : Item.widthOf items = 0) : trees = [] ∧ words = last := by
  induction hderives with
  | nil => exact ⟨rfl, rfl⟩
  | word | wordIn => simp [Item.widthOf, Item.width] at hnone
  | check _ _ ih => exact ih hedge.2 (by simpa [Item.widthOf, Item.width] using hnone)
  | @part phrase _ _ items =>
    simp only [Item.widthOf, Nat.add_eq_zero_iff] at hnone
    have hends := hedge.1 hnone.2
    cases phrase <;> simp_all [Item.width, Phrase.takesWord, Phrase.endsExpression]

/-- A statement that is a block is read by the production of blocks. -/
theorem exists_block {statement : Tree} (hderives : Derives [.part .statement] words last [statement])
    (hkind : statement.kind = .block) :
    ∃ row, Derives [.word .braceOpen, .part .blockStatements, .word .braceClose] words last row ∧
      statement.BuiltOf .block row := by
  obtain ⟨form, body, row, hproduction, hbody, hform⟩ := hderives.exists_production
  have hnode {kind : Kind} {parts : List Tree} (hform : (Form.node kind).Holds parts [statement]) : kind = .block := by
    obtain ⟨tree, hbuilt, hsingle⟩ := hform
    obtain rfl : statement = tree := List.singleton_inj.mp hsingle
    exact hbuilt.kind_eq.symm.trans hkind
  cases hproduction with
  | block =>
    obtain ⟨tree, hbuilt, hsingle⟩ := hform
    obtain rfl : statement = tree := List.singleton_inj.mp hsingle
    exact ⟨row, hbody, hbuilt⟩
  | jump hjump => exact absurd (hnode hform) (Grammar.forall_jumpNode? (P := (· ≠ .block)) hjump (by decide))
  | functionStatement | classStatement | constStatement | enumStatement =>
    obtain rfl : [statement] = row := hform
    obtain ⟨form, body, parts, hproduction, -, hform⟩ := hbody.exists_production
    cases hproduction
    exact absurd (hnode hform) (by decide)
  | _ => exact absurd (hnode hform) (by decide)

/-- A block is the same block whatever follows it. -/
theorem block_before_any {statement : Tree} (hderives : Derives [.part .statement] (front ++ last) last [statement])
    (hkind : statement.kind = .block) (other : List Word) :
    Derives [.part .statement] (front ++ other) other [statement] ∧ ∀ word ∈ front.getLast?, word.kind = .braceClose := by
  obtain ⟨row, hblock, hbuilt⟩ := hderives.exists_block hkind
  have hblock : Derives ([.word .braceOpen, .part .blockStatements] ++ [.word .braceClose]) (front ++ last) last row :=
    hblock
  refine ⟨.phrase .block (hblock.before_any trivial other) ⟨statement, hbuilt, rfl⟩, fun word hword => ?_⟩
  obtain ⟨middle, _, _, hitems, hclosed, -⟩ := hblock.split [_, _]
  cases hclosed with
  | @word _ _ closer _ _ _ hkind hnil =>
    cases hnil
    obtain ⟨own, hown, -⟩ := hitems.exists_front
    rw [List.append_cons] at hown
    obtain rfl := List.append_cancel_right hown
    obtain rfl : closer = word := by simpa using hword
    exact hkind

/-- Items that an expression may end with are the same items in front of other words, as long as no suffix starts there. -/
theorem atEdge (hderives : Derives items words last trees) (hedge : Item.AtEdge items) (hwords : words = front ++ last)
    (hblock : ∀ tree ∈ trees.getLast?, tree.EndsInBlock) (hnone : Word.suffix? 0 other = none) :
    Derives items (front ++ other) other trees ∧ ∀ word ∈ front.getLast?, word.kind.endsExpression = true := by
  have hbehind {placed row : List Tree} (hblock : ∀ tree ∈ (placed ++ row).getLast?, tree.EndsInBlock) :
      ∀ tree ∈ row.getLast?, tree.EndsInBlock := by
    intro tree hlast
    exact hblock tree (by rw [List.getLast?_append, hlast]; rfl)
  induction hderives generalizing front with
  | nil =>
    obtain rfl : front = [] := List.self_eq_append_left.mp hwords
    exact ⟨.nil, by simp⟩
  | @word _ items first rest last row hkind hitems ih | @wordIn _ items first rest last row hkind hitems ih =>
    obtain ⟨others, rfl, -⟩ := hitems.exists_front
    rw [← List.cons_append] at hwords
    obtain rfl := List.append_cancel_right hwords
    obtain ⟨hderives, hends⟩ := ih hedge.2 rfl (@hbehind [_] _ hblock)
    refine ⟨?_, fun word hword => ?_⟩
    · first
        | exact .word hkind hderives
        | exact .wordIn hkind hderives
    · cases others with
      | nil =>
        have hwidth := hitems.width_le
        obtain rfl : first = word := by simpa using hword
        have hnarrow : Item.widthOf items = 0 := Nat.le_zero.mp (Nat.le_of_add_le_add_left hwidth)
        first
          | exact hkind ▸ hedge.1 hnarrow
          | exact hedge.1 hnarrow _ hkind
      | cons next others => exact hends word (by rwa [List.getLast?_cons_cons] at hword)
  | @check condition items _ last _ hcondition hitems ih =>
    subst hwords
    obtain ⟨hderives, hends⟩ := ih hedge.2 rfl hblock
    have hwidth : Item.widthOf items ≤ front.length := by
      have hle := hitems.width_le
      rw [List.length_append] at hle
      omega
    refine ⟨.check (hedge.condition hwidth (fun hzero => ?_) hcondition hnone) hderives, hends⟩
    exact List.self_eq_append_left.mp (hitems.eq_nil_of_width hedge.2 hzero).2.symm
  | @part phrase form body items _ middle last parts placed row hproduction hbody hform hitems ihbody ih =>
    obtain ⟨others, rfl, -⟩ := hitems.exists_front
    obtain ⟨own, rfl, -⟩ := hbody.exists_front
    rw [← List.append_assoc] at hwords
    obtain rfl := List.append_cancel_right hwords
    obtain ⟨hderives, hends⟩ := ih hedge.2 rfl (hbehind hblock)
    cases others with
    | nil =>
      -- the phrase is the last one to take a word
      have hwidth := hitems.width_le
      have hnarrow : Item.widthOf items = 0 := Nat.le_zero.mp (Nat.le_of_add_le_add_left hwidth)
      obtain ⟨rfl, -⟩ := hitems.eq_nil_of_width hedge.2 hnarrow
      rw [List.append_nil] at hblock ⊢
      by_cases hstatement : phrase = .statement
      · subst hstatement
        have hphrase : Derives [.part .statement] (own ++ last) last placed := .phrase hproduction hbody hform
        obtain ⟨statement, rfl, hkind⟩ := hphrase.rowFits.of_part
        obtain ⟨hother, hclosed⟩ := hphrase.block_before_any (hblock _ rfl _ (self_mem_endings _) hkind) other
        exact ⟨hother.append hderives, fun word hword => by rw [hclosed word hword]; rfl⟩
      · obtain ⟨hother, hown⟩ := ihbody (hproduction.atEdge (hedge.1 hnarrow) hstatement) rfl (hform.endsInBlock hblock)
        exact ⟨.part hproduction hother hform hderives, hown⟩
    | cons next others =>
      have hmiddle : next :: others ++ last = [] ++ next :: (others ++ last) := rfl
      have hother := hbody.unseen hproduction.looksNear rfl hmiddle (others ++ other)
      rw [List.append_assoc]
      refine ⟨.part hproduction hother hform hderives, fun word hword => hends word ?_⟩
      rwa [List.getLast?_append, List.getLast?_cons, Option.some_or, ← List.getLast?_cons] at hword

end Derives

end Squirrel
