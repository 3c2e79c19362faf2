import Squirrel.Proofs.Grammar.Behind
import Squirrel.Proofs.Grammar.Lookahead
import Squirrel.Proofs.Token.Enclosed

/-!
# Nodes as they stand in a source

A node of a script without a diagnostic is built from the words of its own tokens, which are told apart where they stand. A
node between brackets of its own is so wherever it stands: neither its tokens nor its production see past the closing
bracket.
-/

namespace Squirrel

open Squirrel.Tree

/-- A node as it stands in a source without a diagnostic. -/
structure Tree.Genuine (tree : Tree) : Prop where
  exact : ∃ before?, tree.Exact before?
  leaves : ∀ leaf ∈ tree.leaves, leaf.Genuine
  apart : ∃ after, Leaf.Apart tree.leaves after
  built : ∃ tokens afterBreak joined, tree.BuiltFrom
    (Word.ofLeaves afterBreak joined tree.leaves ++ Word.ofTokens false true tokens) (Word.ofTokens false true tokens)

/-- All nodes of a script without a diagnostic but the script itself are genuine. -/
theorem Script.genuine_of_parse {source : String} {limits : Limits} {script : Script}
    (hparse : Script.parse source limits = .ok script) (hclean : script.diagnostics = []) {inner : Tree}
    (hwithin : inner.Within script.root) (hnode : inner.isNode = true) : inner = script.root ∨ inner.Genuine := by
  obtain ⟨before, after, hbetween⟩ := hwithin.exists_between
  obtain hroot | ⟨hexact, tokens, -, hbuilt⟩ :=
    Script.builtBehind_of_parse hparse hclean hbetween hnode
  · exact .inl hroot
  · obtain ⟨parsed, hparsed, rfl⟩ := Script.parse_ok hparse
    have hlexed : (Lexed.ofSource source).diagnostics = [] := (exists_run_of_parseTokens hparsed hclean).1
    have hleaves : (Lexed.ofSource source).tokens.map Token.leaf = before ++ (inner.leaves ++ after) := by
      rw [← hbetween.leaves]
      exact (leaves_root_of_parseTokens hparsed).symm
    have hapart := Lexed.apart_tokens hlexed
    rw [hleaves] at hapart
    refine .inr ⟨hexact, fun leaf hmem => ?_, ⟨_, hapart.of_append.2.of_append.1⟩, tokens, hbuilt⟩
    have hfound : leaf ∈ (Lexed.ofSource source).tokens.map Token.leaf := by
      rw [hleaves]
      simp [hmem]
    obtain ⟨token, htoken, rfl⟩ := List.mem_map.mp hfound
    exact Lexed.genuine_of_mem_tokens hlexed htoken

/-! ### Nodes between brackets -/

/-- Items between two words stand for the same leaves wherever these stand. -/
theorem Derives.anywhere {opener closer : Kind} {items : List Item} {first : Leaf} {others : List Leaf} {rest : List Word}
    {row : List Tree} {afterBreak joined : Bool} (hword : first.kind.isTrivia = false)
    (hderives : Derives (.word opener :: (items ++ [.word closer]))
      (Word.ofLeaves afterBreak joined (first :: others) ++ rest) rest row)
    (hnear : Item.LookNear items) (laterBreak laterJoined : Bool) (last : List Word) :
    Derives (.word opener :: (items ++ [.word closer])) (Word.ofLeaves laterBreak laterJoined (first :: others) ++ last)
      last row := by
  rw [Word.ofLeaves_word hword, List.cons_append] at hderives ⊢
  cases hderives with
  | word hkind hitems => exact .word hkind (hitems.before_any hnear last)

/-- A node that is built between two signs starts and ends with these signs. -/
theorem Tree.Genuine.leaves_eq {tree : Tree} {opener closer : Kind} {items : List Item} {rest : List Word} {row : List Tree}
    {afterBreak joined : Bool} (hgenuine : tree.Genuine) (hstarts : tree.StartsWithWord)
    (hderives : Derives (.word opener :: (items ++ [.word closer]))
      (Word.ofLeaves afterBreak joined tree.leaves ++ rest) rest row)
    (hopener : opener.spelling?.isSome = true) (hcloser : closer.spelling?.isSome = true) (hne : opener ≠ closer) :
    ∃ inner, tree.leaves = Leaf.sign opener :: (inner ++ [Leaf.sign closer]) := by
  obtain ⟨first, hfirst, hfirstWord⟩ := hstarts
  obtain ⟨last, hlast, hlastWord⟩ := hgenuine.exact.choose_spec.1
  obtain ⟨others, hothers⟩ := List.head?_eq_some_iff.mp hfirst
  obtain ⟨front, hfront⟩ := List.getLast?_eq_some_iff.mp hlast
  have hsign {leaf : Leaf} {kind : Kind} (hmem : leaf ∈ tree.leaves) (hkind : leaf.kind = kind)
      (hspelled : kind.spelling?.isSome = true) : leaf = Leaf.sign kind :=
    hkind ▸ (hgenuine.leaves leaf hmem).sign (by rwa [hkind])
  have hopening : first.kind = opener := by
    rw [hothers, Word.ofLeaves_word hfirstWord, List.cons_append] at hderives
    cases hderives with
    | word hkind _ => exact hkind
  have hclosing : last.kind = closer := by
    obtain ⟨laterBreak, laterJoined, hsplit⟩ := Word.exists_ofLeaves_append front [last] afterBreak joined
    rw [← List.cons_append] at hderives
    obtain ⟨middle, _, _, hitems, hword, -⟩ := hderives.split
    cases hword with
    | word hkind hnil =>
      cases hnil
      obtain ⟨own, hown, -⟩ := hitems.exists_front
      rw [hfront, hsplit, Word.ofLeaves_word hlastWord, List.append_cons own] at hown
      have hsame := List.append_cancel_right hown
      obtain ⟨-, rfl⟩ := List.append_singleton_inj.mp hsame
      exact hkind
  have hfirstSign := hsign (List.mem_of_mem_head? hfirst) hopening hopener
  have hlastSign := hsign (List.mem_of_mem_getLast? hlast) hclosing hcloser
  cases front with
  | nil =>
    -- the two signs are not one
    rw [hfront] at hothers
    obtain ⟨rfl, -⟩ := List.cons.inj hothers
    exact absurd (hopening.symm.trans hclosing) hne
  | cons start inner =>
    rw [hfront] at hothers
    obtain ⟨rfl, -⟩ := List.cons.inj hothers
    exact ⟨inner, by rw [hfront, hfirstSign, hlastSign, List.cons_append]⟩

end Squirrel
