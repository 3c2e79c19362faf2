import Squirrel.Proofs.Render.Verbatim

/-!
# Functions that end with an expression

A lambda keeps its text as the forms between brackets do, but it ends with an expression of its own. No token of it goes on
into what may stand behind an expression, and its body takes in nothing that starts no suffix. So it is the same lambda
wherever it is written, unless it ends with a function whose body is no block.
-/

namespace Squirrel

open Squirrel.Tree

/-! ### The last token -/

namespace Lexeme

open Pattern

variable {c : Char} {front rest more after : List Char}

theorem isDecimal_of_followsExpression (hfollows : followsExpression c = true) : isDecimal c = false := by
  have hall : (Leaf.followers.all fun c => !isDecimal c) = true := by decide
  simpa using List.all_eq_true.mp hall c (Leaf.mem_followers hfollows)

/-- No float goes on with what stands behind an expression: a sign is there only with its like behind it. -/
theorem not_isFraction (hfollows : followsExpression c = true) (hsign : c ∈ ['+', '-'] → ∀ d ∈ more.head?, d = c) :
    ¬IsFraction (front ++ c :: more) := by
  intro hfraction
  have hdecimal := isDecimal_of_followsExpression hfollows
  obtain _ | ⟨d, _ | ⟨e, others⟩⟩ := front
  · have hmark : c ≠ 'e' ∧ c ≠ 'E' := by
      constructor
      all_goals
        rintro rfl
        cases hfollows
    have hstarts := hfraction.starts
    simp [startsFraction, startsExponent, hdecimal, hmark.1, hmark.2] at hstarts
  · cases hd : isDecimal d with
    | true => exact Bool.false_ne_true (hdecimal.symm.trans (hfraction.plain d (c :: more) rfl hd c List.mem_cons_self))
    | false =>
      have hstarts := hfraction.starts
      simp only [startsFraction, startsExponent, List.singleton_append, List.head?_cons, List.tail_cons, Option.any_some, hd,
        hdecimal, Bool.false_or, Bool.and_eq_true, Bool.or_eq_true, beq_iff_eq, Option.any_eq_true] at hstarts
      obtain ⟨-, hcase, digit, hdigit, hlast⟩ := hstarts
      obtain rfl := hsign (by simpa using hcase) digit hdigit
      exact Bool.false_ne_true (hdecimal.symm.trans hlast)
  · exact Bool.false_ne_true (hdecimal.symm.trans (hfraction.late d e _ rfl c (by simp)))

/-- A float that starts before a token does not go on behind it. -/
theorem not_firstMatch_float (hafter : Leaf.Follows False after) (hstarts : c :: more <+: after) :
    ¬FirstMatch patterns (front ++ c :: more) .floatLit := by
  intro hfirst
  obtain ⟨later, rfl⟩ := hstarts
  obtain ⟨hfollows, hsign, hdot⟩ := hafter c rfl
  obtain ⟨rfl, -, hfraction⟩ | ⟨-, fraction, -, -, hfraction⟩ :=
    exists_split_of_float hfirst (isDecimal_of_followsExpression hfollows)
  · have hplain := (hdot rfl).resolve_left id
    exact Bool.false_ne_true (hplain.symm.trans (startsFraction_append hfraction.starts later))
  · refine not_isFraction hfollows (fun hmem d hd => ?_) hfraction
    have hsame : (more ++ later).head? = some c := hsign hmem
    rw [List.head?_append, hd] at hsame
    exact Option.some.inj hsame

/-- A token that is neither blank nor starts with a dot ends all lexemes in front of what may stand behind an expression. -/
theorem shuts_of_follows (hblank : isBlank c = false) (hdot : c ≠ '.') (hafter : Leaf.Follows False after) :
    Shuts (c :: rest) after := by
  intro front more hfront hmore hstarts hmatched
  obtain ⟨d, others, rfl⟩ := List.exists_cons_of_ne_nil hmore
  have hfollows : d ∈ Leaf.followers := by
    obtain ⟨later, rfl⟩ := hstarts
    exact Leaf.mem_followers (hafter d rfl).1
  obtain ⟨kind, hfirst⟩ := isMatched_iff.mp hmatched
  obtain ⟨pattern, hmem, hmatches⟩ := hfirst.exists_mem
  have hpattern := mem_patternsOf_of_mem hmem
  by_cases hfixed : fixedTexts kind = []
  · have hall : ∀ kind ∈ [Kind.id, .integerLit], ∀ pattern ∈ patternsOf kind,
        Leaf.followers.all (avoids · pattern) = true := by
      decide
    have hnot (hkind : kind ∈ [Kind.id, .integerLit]) : IsMatched (front ++ c :: rest) :=
      absurd (by simp) (not_mem_of_avoids (List.all_eq_true.mp (hall kind hkind pattern hpattern) d hfollows) hmatches)
    obtain rfl | rfl | rfl | rfl | rfl : kind = _ ∨ kind = _ ∨ kind = _ ∨ kind = _ ∨ kind = _ :=
      @kind_of_open (kind, pattern) hfixed hmem
    · exact hnot (by simp)
    · exact hnot (by simp)
    · exact absurd hfirst (not_firstMatch_float hafter hstarts)
    · obtain rfl := List.mem_singleton.mp hpattern
      have hblanks := (forall_of_matches_some_one hmatches).2 c (by simp)
      exact absurd (hblank.symm.trans hblanks) Bool.false_ne_true
    · exact isMatched_of_lineComment (by simp) hpattern hmatches
  · have hall : ∀ kind ∈ Kind.all, ∀ fixed ∈ fixedTexts kind, (fixed.toList.all (· == '.') ||
        Leaf.followers.all (fun d => !(fixed.toList.drop 2).contains d)) = true := by
      decide +kernel
    obtain ⟨fixed, hmemFixed, hfixedText⟩ := @eq_fixedText (kind, pattern) _ hfixed hmem hmatches
    obtain hdots | houtside := Bool.or_eq_true_iff.mp (hall kind (mem_all kind) fixed hmemFixed)
    · exact absurd (beq_iff_eq.mp (List.all_eq_true.mp hdots c (by rw [← hfixedText]; simp))) hdot
    · have hnot := List.all_eq_true.mp houtside d hfollows
      rw [Bool.not_eq_true', List.contains_eq_mem, decide_eq_false_iff_not] at hnot
      obtain ⟨e, front, rfl⟩ := List.exists_cons_of_ne_nil hfront
      refine absurd ?_ hnot
      rw [← hfixedText]
      cases front <;> simp

end Lexeme

namespace Leaf

open Lexeme

variable {leaf : Leaf} {after : List Char}

/-- A word that an expression ends with, in front of what may stand behind an expression. -/
theorem Genuine.shuts (hgenuine : leaf.Genuine) (hends : leaf.kind.endsExpression = true) (hafter : Follows False after) :
    Shuts leaf.text.toList after ∧ leaf.StandsBefore after := by
  have hopening {c : Char} {rest : List Char} (htext : leaf.text.toList = c :: rest) (hopens : opensExpression c = true) :
      Shuts leaf.text.toList after := by
    rw [htext]
    refine shuts_of_follows (isBlank_of_opensExpression hopens) ?_ hafter
    rintro rfl
    cases hopens
  rw [Kind.endsExpression, Bool.or_eq_true, decide_eq_true_eq] at hends
  obtain hkind | hliteral := hends
  · obtain hname | hcloser := List.mem_cons.mp hkind
    · have hname := hgenuine.name hname
      obtain ⟨c, rest, htext, hstart⟩ := hname.exists_cons
      exact ⟨hopening htext (by simp [opensExpression, isNamePart, hstart]), hname.standsBefore_of_follows hafter⟩
    · have hall : ∀ kind ∈ [Kind.parenClose, .bracketClose, .braceClose, .plusPlus, .minusMinus],
          kind.spelling?.isSome = true ∧ followers.all (stopsAt kind) = true ∧
            ((Leaf.sign kind).text.toList.head?.all fun c => !isBlank c && c != '.') = true := by decide
      obtain ⟨hspelled, hstops, hplain⟩ := hall leaf.kind hcloser
      have hstands : leaf.StandsBefore after := by
        rw [hgenuine.sign hspelled]
        exact standsBefore_sign hspelled fun c hmem => List.all_eq_true.mp hstops c (mem_followers (hafter c hmem).1)
      obtain ⟨c, rest, htext⟩ := List.exists_cons_of_ne_nil hstands.nonempty
      rw [← hgenuine.sign hspelled, htext, List.head?_cons, Option.all_some, Bool.and_eq_true, Bool.not_eq_true',
        bne_iff_ne] at hplain
      exact ⟨htext ▸ shuts_of_follows hplain.1 hplain.2 hafter, hstands⟩
  · obtain ⟨node, hliteral⟩ := Option.isSome_iff_exists.mp hliteral
    have hwritten := Written.literal hgenuine hliteral
    obtain ⟨-, -, c, rest, -, -, htext, hopens, -⟩ := hwritten.begins
    exact ⟨hopening htext hopens, (hwritten.apart after (hafter.imp False.elim)).1⟩

/-- What starts with a sign and ends with a word that an expression may end with can stand as an operand. -/
theorem Written.of_edge {leaves : List Leaf} {opener : Kind} {last : Leaf} {found : List Char} {dotted : Prop}
    (hgenuine : ∀ leaf ∈ leaves, leaf.Genuine) (hapart : Apart leaves found) (hfirst : sign opener ∈ leaves.head?)
    (hopener : isOpener opener = true) (hlast : last ∈ leaves.getLast?) (hword : last.kind.isTrivia = false)
    (hends : last.kind.endsExpression = true) (hclosed : ¬dotted) : Written leaves (chars leaves) dotted := by
  have hlastGenuine := hgenuine last (List.mem_of_mem_getLast? hlast)
  obtain ⟨front, hfront⟩ := List.getLast?_eq_some_iff.mp hlast
  obtain ⟨others, hothers⟩ := List.head?_eq_some_iff.mp hfirst
  refine ⟨⟨rfl, ⟨front, last, hfront, hword⟩, fun after hafter => ?_⟩, ?_⟩
  · obtain ⟨hshuts, hstands⟩ := hlastGenuine.shuts hends (hafter.imp hclosed)
    rw [hfront] at hapart ⊢
    exact hapart.past hshuts hstands
  · rw [hothers, chars_cons]
    exact begins_sign hopener ..

end Leaf

/-! ### The body -/

section

variable {tree : Tree} {opener : Kind} {items : List Item} {row : List Tree} {first last : Leaf} {others front : List Leaf}
  {rest behind : List Word} {afterBreak joined : Bool}

/-- Items that an expression may end with stand for the same leaves wherever no suffix follows these. -/
theorem Derives.anywhere_atEdge (hword : first.kind.isTrivia = false)
    (hderives : Derives (.word opener :: items) (Word.ofLeaves afterBreak joined (first :: others) ++ rest) rest row)
    (hedge : Item.AtEdge (.word opener :: items)) (hblock : ∀ part ∈ row.getLast?, part.EndsInBlock)
    (hnone : Word.suffix? 0 behind = none) (laterBreak laterJoined : Bool) :
    Derives (.word opener :: items) (Word.ofLeaves laterBreak laterJoined (first :: others) ++ behind) behind row := by
  rw [Word.ofLeaves_word hword, List.cons_append] at hderives ⊢
  cases hderives with
  | word hkind hitems =>
    refine .word hkind (hitems.atEdge hedge.2 rfl (fun part hpart => hblock part ?_) hnone).1
    rw [List.getLast?_cons, hpart]
    rfl

/-- The last leaf of such items is a word that an expression may end with. -/
theorem Derives.endsExpression (hword : last.kind.isTrivia = false)
    (hderives : Derives items (Word.ofLeaves afterBreak joined (front ++ [last]) ++ rest) rest row)
    (hedge : Item.AtEdge items) (hblock : ∀ part ∈ row.getLast?, part.EndsInBlock) : last.kind.endsExpression = true := by
  obtain ⟨laterBreak, laterJoined, hsplit⟩ := Word.exists_ofLeaves_append front [last] afterBreak joined
  refine (hderives.atEdge hedge rfl hblock (show Word.suffix? 0 [] = none from rfl)).2 ⟨last, laterBreak, laterJoined⟩ ?_
  rw [hsplit, Word.ofLeaves_word hword]
  simp [Word.ofLeaves, Word.ofTokens]

/-- A lambda that ends with no statement but a block is read as itself. -/
theorem Tree.RoundTrips.lambda (hgenuine : tree.Genuine) (hbuilt : tree.BuiltOf .lambdaExpression row)
    (hderives : Derives [.word .atSign, .part .parameters, .part (.expression 0 false)]
      (Word.ofLeaves afterBreak joined tree.leaves ++ rest) rest row)
    (hblock : tree.EndsInBlock) : tree.RoundTrips false := by
  have hkind : tree.kind ∈ [.array, .table, .lambdaExpression, .anonymousFunction] := by
    rw [hbuilt.kind_eq]
    decide
  have hedge : Item.AtEdge [.word .atSign, .part .parameters, .part (.expression 0 false)] :=
    Production.atEdge (@Production.lambda false) rfl Phrase.noConfusion
  have hbody : ∀ part ∈ row.getLast?, part.EndsInBlock := by
    obtain ⟨children, rfl, rfl⟩ := hbuilt
    exact fun part => hblock.child
  have hview : tree.asExpression? = some (.lambda (tree.nodeOf? .parameters) (tree.expression? 0)) := by
    simp [asExpression?, hbuilt.isNode, hbuilt.kind_eq]
  have hclosed : ¬tree.Dotted := by
    rintro ⟨hle, -⟩
    simp only [precedence, hview] at hle
    exact absurd hle (by decide)
  have hexpression := hbuilt.isExpression rfl
  obtain ⟨before?, hexact⟩ := hgenuine.exact
  obtain ⟨last, hlast, hlastWord⟩ := hexact.1
  obtain ⟨front, hfront⟩ := List.getLast?_eq_some_iff.mp hlast
  have hends : last.kind.endsExpression = true := (hfront ▸ hderives).endsExpression hlastWord hedge hbody
  obtain ⟨first, hfirst, hfirstWord⟩ := hexact.startsWithWord hkind
  obtain ⟨others, hothers⟩ := List.head?_eq_some_iff.mp hfirst
  rw [hothers] at hderives
  have hsign : first = Leaf.sign .atSign := by
    have hopening : first.kind = .atSign := by
      rw [Word.ofLeaves_word hfirstWord, List.cons_append] at hderives
      cases hderives with
      | word hopening _ => exact hopening
    rw [(hgenuine.leaves first (List.mem_of_mem_head? hfirst)).sign (by rw [hopening]; rfl), hopening]
  obtain ⟨found, hapart⟩ := hgenuine.apart
  refine of_operand hexpression fun tail => ⟨tree.leaves, tree, ?_, hexpression, rfl, fun joined phrase behind hfits => ?_⟩
  · rw [expression_of_keepsText hbuilt.isNode hkind, toList_text]
    exact .of_edge hgenuine.leaves hapart (hsign ▸ hfirst) rfl hlast hlastWord hends hclosed
  · obtain ⟨allowed, rfl⟩ := hfits.phrase
    have hnone : Word.suffix? 0 behind = none := hfits.right 0 (by simp [rightPower?, hbuilt.kind_eq])
    rw [hothers]
    exact .phrase .lambda (hderives.anywhere_atEdge hfirstWord hedge hbody hnone false joined) ⟨tree, hbuilt, rfl⟩

end

end Squirrel
