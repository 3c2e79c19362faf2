import Squirrel.Proofs.Grammar.Edge
import Squirrel.Proofs.Grammar.Genuine
import Squirrel.Proofs.Render.Literal

/-!
# Forms that keep their text

An array, a table and a function with a block for a body are written with the text they have in the source, blanks and
comments included. They start and end with words of their own, so the text is the same form wherever it is written.
-/

namespace Squirrel

open Squirrel.Tree

/-! ### Text between brackets -/

/-- What stands between an opener and a closing bracket in some source can stand as an operand. -/
theorem Leaf.Written.of_enclosed {opener closer : Kind} {leaves inner : List Leaf} {after : List Char} (dotted : Prop)
    (hapart : Apart leaves after) (hleaves : leaves = sign opener :: (inner ++ [sign closer]))
    (hopener : isOpener opener = true) (hcloser : closer ∈ [.bracketClose, .braceClose]) :
    Written leaves (chars leaves) dotted := by
  have hall : ∀ kind ∈ [Kind.bracketClose, .braceClose], kind.isTrivia = false ∧ kind.spelling?.isSome = true ∧
      followers.all (Lexeme.stopsAt kind) = true := by decide
  obtain ⟨hword, hspelled, hstops⟩ := hall closer hcloser
  obtain ⟨c, hmem, htext⟩ : ∃ c ∈ Lexeme.closers, (sign closer).text.toList = [c] := by
    obtain rfl | rfl : closer = .bracketClose ∨ closer = .braceClose := by simpa using hcloser
    · exact ⟨']', by simp [Lexeme.closers], rfl⟩
    · exact ⟨'}', by simp [Lexeme.closers], rfl⟩
  have hsplit : leaves = (sign opener :: inner) ++ [sign closer] := hleaves
  refine ⟨⟨rfl, ⟨_, _, hsplit, hword⟩, fun follower hfollows => ?_⟩, ?_⟩
  · rw [hsplit] at hapart ⊢
    refine hapart.past (htext ▸ Lexeme.shuts_closer hmem follower) (standsBefore_sign hspelled fun d hd => ?_)
    exact List.all_eq_true.mp hstops d (mem_followers (hfollows d hd).1)
  · rw [hleaves, chars_cons]
    exact begins_sign hopener ..

namespace Tree

variable {tree : Tree} {opener closer : Kind} {row parts : List Tree} {rest : List Word}
  {afterBreak joined startsTable : Bool}

theorem toList_text (tree : Tree) : tree.text.toList = Leaf.chars tree.leaves := by
  rw [text, Leaf.chars_eq_toList_join]

theorem expression_of_keepsText (hnode : tree.isNode = true)
    (hkind : tree.kind ∈ [.array, .table, .lambdaExpression, .anonymousFunction]) (tail : Bool) :
    Render.expression tree tail = tree.text := by
  have hview : tree.asExpression? = some (.array tree.expressions) ∨
      tree.asExpression? = some (.table (tree.nodesOf .tableSlot)) ∨
      tree.asExpression? = some (.lambda (tree.nodeOf? .parameters) (tree.expression? 0)) ∨
      tree.asExpression? = some (.anonymousFunction (tree.nodeOf? .parameters) tree.statement?) := by
    simp only [List.mem_cons, List.not_mem_nil, or_false] at hkind
    obtain hkind | hkind | hkind | hkind := hkind
    all_goals simp [asExpression?, hnode, hkind]
  rw [Render.expression]
  obtain hview | hview | hview | hview := hview
  all_goals rw [hview]

/-- Nodes of these kinds neither take in an operand nor are opened right behind a word that leads to them. -/
theorem Exact.startsWithWord {before? : Option Tree} (hexact : tree.Exact before?)
    (hkind : tree.kind ∈ [.array, .table, .lambdaExpression, .anonymousFunction]) : tree.StartsWithWord := by
  obtain ⟨-, hstarts | ⟨⟨found, hfound⟩, -⟩ | ⟨leaf, -, hleads⟩⟩ := hexact
  · exact hstarts
  · exact absurd (hfound ▸ hkind) (Grammar.forall_suffixNode
      (P := (· ∉ [.array, .table, .lambdaExpression, .anonymousFunction])) found (by decide))
  · have hall : ∀ kind ∈ [Kind.array, .table, .lambdaExpression, .anonymousFunction], ∀ keyword ∈ Kind.all,
        keyword.leadsTo kind = false := by decide +kernel
    rw [hall _ hkind _ (Lexeme.mem_all _)] at hleads
    cases hleads

/-- A form that keeps its text is read as itself where its production may stand. -/
theorem RoundTrips.of_enclosed (items : List Item) (hgenuine : tree.Genuine) (hexpression : tree.isExpression = true)
    (hkind : tree.kind ∈ [.array, .table, .lambdaExpression, .anonymousFunction])
    (hderives : Derives (.word opener :: (items ++ [.word closer]))
      (Word.ofLeaves afterBreak joined tree.leaves ++ rest) rest parts)
    (hnear : Item.LookNear items) (hopener : opener ∈ [.bracketOpen, .braceOpen, .kwFunction])
    (hcloser : closer ∈ [.bracketClose, .braceClose])
    (hreads : ∀ (words last : List Word) (tableAllowed : Bool), (startsTable = true → tableAllowed = true) →
      Derives (.word opener :: (items ++ [.word closer])) words last parts →
      Derives [.part (.operand tableAllowed)] words last [tree]) : tree.RoundTrips startsTable := by
  have hall : ∀ opener ∈ [Kind.bracketOpen, .braceOpen, .kwFunction], ∀ closer ∈ [Kind.bracketClose, .braceClose],
      opener.isTrivia = false ∧ opener.spelling?.isSome = true ∧ closer.spelling?.isSome = true ∧ opener ≠ closer ∧
        Leaf.isOpener opener = true := by decide
  obtain ⟨hword, hopening, hclosing, hne, hopens⟩ := hall opener hopener closer hcloser
  obtain ⟨before?, hexact⟩ := hgenuine.exact
  obtain ⟨inner, hleaves⟩ := hgenuine.leaves_eq (hexact.startsWithWord hkind) hderives hopening hclosing hne
  obtain ⟨after, hapart⟩ := hgenuine.apart
  have hnode : tree.isNode = true := (Bool.and_eq_true_iff.mp hexpression).1
  refine ⟨hexpression, fun tail => ⟨tree.leaves, tree, ?_, hexpression, rfl, fun joined phrase last hfits => ?_⟩⟩
  · rw [expression_of_keepsText hnode hkind, toList_text]
    exact .of_enclosed _ hapart hleaves hopens hcloser
  · obtain ⟨lower, allowed, rfl, hallowed, -⟩ := hfits.phrase
    rw [hleaves] at hderives ⊢
    exact .phrase .chainOperand (hreads _ last allowed hallowed (hderives.anywhere hword hnear false joined last)) rfl

theorem RoundTrips.array (hgenuine : tree.Genuine) (hbuilt : tree.BuiltOf .array row)
    (hderives : Derives [.word .bracketOpen, .part .elements, .word .bracketClose]
      (Word.ofLeaves afterBreak joined tree.leaves ++ rest) rest row) : tree.RoundTrips false := by
  refine of_enclosed [.part .elements] hgenuine (hbuilt.isExpression rfl) (by rw [hbuilt.kind_eq]; decide) hderives trivial
    (by decide) (by decide) fun words last allowed _ hreads => ?_
  exact .phrase .operandArray (.phrase .array hreads ⟨tree, hbuilt, rfl⟩) rfl

theorem RoundTrips.table (hgenuine : tree.Genuine) (hbuilt : tree.BuiltOf .table row)
    (hderives : Derives [.word .braceOpen, .part .slots, .word .braceClose]
      (Word.ofLeaves afterBreak joined tree.leaves ++ rest) rest row) : tree.RoundTrips true := by
  refine of_enclosed [.part .slots] hgenuine (hbuilt.isExpression rfl) (by rw [hbuilt.kind_eq]; decide) hderives trivial
    (by decide) (by decide) fun words last allowed hallowed hreads => ?_
  rw [hallowed rfl]
  exact .phrase .operandTable (.phrase .table hreads ⟨tree, hbuilt, rfl⟩) rfl

end Tree

theorem Tree.RoundTrips.anonymousFunction {tree : Tree} {row : List Tree} {rest : List Word} {afterBreak joined : Bool}
    (hgenuine : tree.Genuine) (hbuilt : tree.BuiltOf .anonymousFunction row)
    (hderives : Derives [.word .kwFunction, .part .parameters, .part .statement]
      (Word.ofLeaves afterBreak joined tree.leaves ++ rest) rest row)
    (hblock : ∀ part ∈ row, part.isStatement = true → part.kind = .block) : tree.RoundTrips false := by
  have htwo {words last : List Word} {row : List Tree}
      (hfront : Derives [.word .kwFunction, .part .parameters] words last row) : row.length = 2 := by
    obtain ⟨_, _, rfl, -, _, _, rfl, ⟨_, rfl, -⟩, rfl⟩ := hfront.rowFits
    rfl
  obtain ⟨middle, front, _, hfront, hstatement, rfl⟩ := hderives.split [_, _]
  obtain ⟨body, rfl, hbody⟩ := hstatement.rowFits.of_part
  obtain ⟨inner, hblockBody, hbuiltBody⟩ := hstatement.exists_block (hblock body (by simp) hbody)
  -- the braces of the block are told apart by its production, not by that of the function
  have hflat := hfront.append hblockBody
  refine of_enclosed [.part .parameters, .word .braceOpen, .part .blockStatements] hgenuine (hbuilt.isExpression rfl)
    (by rw [hbuilt.kind_eq]; decide) hflat trivial (by decide) (by decide) fun words last allowed _ hreads => ?_
  obtain ⟨_, first, second, hstart, hend, htrees⟩ := hreads.split [_, _]
  obtain ⟨rfl, rfl⟩ := List.append_inj htrees ((htwo hfront).trans (htwo hstart).symm)
  exact .phrase .anonymousFunction (hstart.append (.phrase .block hend ⟨body, hbuiltBody, rfl⟩)) ⟨tree, hbuilt, rfl⟩

end Squirrel
