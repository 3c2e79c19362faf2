import Squirrel.Proofs.Grammar.Exact
import Squirrel.Proofs.Grammar.Origin
import Squirrel.Proofs.Token.Row

/-!
# What stands behind a node

In a script without a diagnostic a node ends with a word. So the words behind it are those of the leaves behind it, and a
line that breaks before the next of these words breaks behind the node and not in it.
-/

namespace Squirrel

open Squirrel.Tree

/-! ### Ends of nodes -/

/-- All nodes below the root of a tree with exact nodes are exact behind something. -/
theorem Tree.ExactWithin.exact {tree inner : Tree} (hexact : tree.ExactWithin) (hwithin : inner.Within tree)
    (hnode : inner.isNode = true) : inner = tree ∨ ∃ before?, inner.Exact before? := by
  induction hwithin with
  | self => exact .inl rfl
  | @child kind children child hmem hwithin ih =>
    have hbelow : child.ExactWithin := fun other hother => hexact other (.child hmem hother)
    obtain rfl | hinner := ih hbelow
    · obtain ⟨before, after, hchildren⟩ := List.append_of_mem hmem
      have hrow : ExactRow children.reverse := hexact _ .self rfl
      rw [hchildren, List.reverse_append, List.reverse_cons, List.append_assoc, List.singleton_append] at hrow
      exact .inr ⟨_, hrow.exact hnode⟩
    · exact .inr hinner

/-- The last part of a node that ends with a word is its last child. -/
theorem Tree.BuiltOf.getLast?_children {tree part : Tree} {kind : Kind} {row : List Tree} (hbuilt : tree.BuiltOf kind row)
    (hends : tree.EndsWithWord) (hlast : row.getLast? = some part) : tree.children.getLast? = some part := by
  obtain ⟨children, rfl, rfl⟩ := hbuilt
  obtain ⟨leaf, hleaf, hword⟩ := hends
  obtain rfl | ⟨front, last, rfl⟩ := children.eq_nil_or_concat
  · exact nomatch hlast
  · have hlastWord : last.isTrivia = false := by
      cases last with
      | node => rfl
      | token other =>
        rw [leaves, List.concat_eq_append, leavesOf_append, leavesOf, leaves, leavesOf, List.append_nil,
          List.getLast?_concat] at hleaf
        obtain rfl := Option.some.inj hleaf
        exact hword
    rw [List.concat_eq_append, items_append, items_cons_word hlastWord, items_nil, List.getLast?_concat] at hlast
    rw [children, List.concat_eq_append, List.getLast?_concat, hlast]

/-! ### Words behind a word -/

namespace Word

/-- The words of two stretches of tokens are those of each, if the first ends with a word. -/
theorem ofTokens_append {before after : List Token} (hlast : ∃ token ∈ before.getLast?, token.kind.isTrivia = false)
    (afterBreak joined : Bool) :
    ofTokens afterBreak joined (before ++ after) = ofTokens afterBreak joined before ++ ofTokens false true after := by
  obtain ⟨last, hlast, hword⟩ := hlast
  induction before generalizing afterBreak joined with
  | nil => exact nomatch hlast
  | cons token rest ih =>
    cases rest with
    | nil =>
      rw [← show token = last from Option.some.inj hlast] at hword
      rw [List.singleton_append, ofTokens_word hword, ofTokens_word hword]
      rfl
    | cons next others =>
      rw [List.getLast?_cons_cons] at hlast
      cases htrivia : token.kind.isTrivia with
      | true => rw [List.cons_append, ofTokens_trivia htrivia, ofTokens_trivia htrivia, ih _ _ hlast]
      | false => rw [List.cons_append, ofTokens_word htrivia, ofTokens_word htrivia, ih _ _ hlast, List.cons_append]

/-- The words of the second of two stretches of tokens are among those of both. -/
theorem exists_ofTokens_append (before after : List Token) (afterBreak joined : Bool) : ∃ laterBreak laterJoined,
    ofTokens afterBreak joined (before ++ after)
      = ofTokens afterBreak joined before ++ ofTokens laterBreak laterJoined after := by
  induction before generalizing afterBreak joined with
  | nil => exact ⟨afterBreak, joined, rfl⟩
  | cons token rest ih =>
    cases htrivia : token.kind.isTrivia with
    | true =>
      rw [List.cons_append, ofTokens_trivia htrivia, ofTokens_trivia htrivia]
      exact ih ..
    | false =>
      obtain ⟨laterBreak, laterJoined, hrest⟩ := ih false true
      refine ⟨laterBreak, laterJoined, ?_⟩
      rw [List.cons_append, ofTokens_word htrivia, ofTokens_word htrivia, hrest, List.cons_append]

theorem exists_ofLeaves_append (before after : List Leaf) (afterBreak joined : Bool) : ∃ laterBreak laterJoined,
    ofLeaves afterBreak joined (before ++ after)
      = ofLeaves afterBreak joined before ++ ofLeaves laterBreak laterJoined after := by
  simp only [ofLeaves, List.map_append]
  exact exists_ofTokens_append ..

theorem length_ofTokens (tokens : List Token) (afterBreak joined : Bool) :
    (ofTokens afterBreak joined tokens).length = wordsAmong (tokens.map Token.leaf) := by
  induction tokens generalizing afterBreak joined with
  | nil => rfl
  | cons token rest ih =>
    have hcons : wordsAmong ((token :: rest).map Token.leaf)
        = wordsAmong (rest.map Token.leaf) + if token.kind.isTrivia then 0 else 1 := by
      rw [wordsAmong, wordsAmong, List.map_cons, List.countP_cons]
      cases htrivia : token.kind.isTrivia <;> simp [Token.leaf, htrivia]
    cases htrivia : token.kind.isTrivia with
    | true => rw [ofTokens_trivia htrivia, ih, hcons, htrivia, if_pos rfl, Nat.add_zero]
    | false => rw [ofTokens_word htrivia, List.length_cons, ih, hcons, htrivia, if_neg Bool.false_ne_true]

end Word

/-- A leaf is a line break or a comment that goes on after one. -/
def Leaf.breaksLine (leaf : Leaf) : Bool := Token.breaksLine ⟨leaf.kind, 0, leaf.text⟩

/-- A statement may end before these leaves: a line breaks before the next word, or that word closes a block, or no word is
left. -/
def Leaf.MayEndBefore (leaves : List Leaf) : Prop :=
  (leaves.takeWhile (·.kind.isTrivia)).any Leaf.breaksLine = true ∨
    ∀ word ∈ (leaves.dropWhile (·.kind.isTrivia)).head?, word.kind = .braceClose

/-- A statement that may end before some words may end before their leaves. -/
theorem Word.MayEnd.mayEndBefore {tokens : List Token} {afterBreak joined : Bool}
    (hends : MayEnd (ofTokens afterBreak joined tokens)) :
    afterBreak = true ∨ Leaf.MayEndBefore (tokens.map Token.leaf) := by
  induction tokens generalizing afterBreak joined with
  | nil => exact .inr (.inr nofun)
  | cons token rest ih =>
    cases htrivia : token.kind.isTrivia with
    | true =>
      have htake : ((token :: rest).map Token.leaf).takeWhile (·.kind.isTrivia)
          = token.leaf :: (rest.map Token.leaf).takeWhile (·.kind.isTrivia) := List.takeWhile_cons_of_pos htrivia
      have hdrop : ((token :: rest).map Token.leaf).dropWhile (·.kind.isTrivia)
          = (rest.map Token.leaf).dropWhile (·.kind.isTrivia) := List.dropWhile_cons_of_pos htrivia
      rw [Leaf.MayEndBefore, htake, hdrop, List.any_cons, show token.leaf.breaksLine = token.breaksLine from rfl]
      rw [ofTokens_trivia htrivia] at hends
      obtain hbreak | hbreak | hclose := ih hends
      · obtain hbreak | hbreak := Bool.or_eq_true_iff.mp hbreak
        · exact .inr (.inl (by rw [hbreak, Bool.true_or]))
        · exact .inl hbreak
      · exact .inr (.inl (by rw [hbreak, Bool.or_true]))
      · exact .inr (.inr hclose)
    | false =>
      have hdrop : ((token :: rest).map Token.leaf).dropWhile (·.kind.isTrivia) = token.leaf :: rest.map Token.leaf :=
        List.dropWhile_cons_of_neg (Bool.eq_false_iff.mp htrivia)
      rw [ofTokens_word htrivia] at hends
      rw [Leaf.MayEndBefore, hdrop]
      obtain hnone | hclose | hbreak := hends
      · exact nomatch hnone
      · refine .inr (.inr fun word hmem => ?_)
        rw [← show token.leaf = word from Option.some.inj hmem]
        exact hclose
      · exact .inl hbreak

/-! ### Scripts -/

/-- In a script without a diagnostic a production builds every node but the script itself. The node is exact; it is built from
the words of its own tokens, and what the production leaves are the words of the tokens behind the node. -/
theorem Script.builtBehind_of_parse {source : String} {limits : Limits} {script : Script}
    (hparse : Script.parse source limits = .ok script) (hclean : script.diagnostics = []) {inner : Tree}
    {before after : List Leaf} (hbetween : inner.Between before after script.root) (hnode : inner.isNode = true) :
    inner = script.root ∨ ((∃ before?, inner.Exact before?) ∧ ∃ tokens : List Token,
      tokens.map Token.leaf = after ∧ ∃ afterBreak joined,
        inner.BuiltFrom (Word.ofLeaves afterBreak joined inner.leaves ++ Word.ofTokens false true tokens)
          (Word.ofTokens false true tokens)) := by
  obtain hroot | ⟨words, rest, hbuilt, hwords, hlength⟩ := Script.builtFrom_of_parse hparse hclean hbetween hnode
  · exact .inl hroot
  · obtain ⟨parsed, hparsed, rfl⟩ := Script.parse_ok hparse
    have hexact : parsed.root.ExactWithin := exactWithin_of_parseTokens hparsed hclean
      fun hlexed token hmem => (Lexed.wellWritten_of_mem_tokens hlexed hmem).accepted
    obtain hroot | ⟨before?, hinner⟩ := hexact.exact hbetween.within hnode
    · exact .inl hroot
    · have hleaves := hbetween.leaves
      rw [show (Script.mk source parsed.root parsed.diagnostics parsed.stepsTaken).root = parsed.root from rfl,
        leaves_root_of_parseTokens hparsed] at hleaves
      obtain ⟨front, others, htokens, -, hothers⟩ := List.map_eq_append_iff.mp hleaves
      obtain ⟨own, behind, rfl, hown, rfl⟩ := List.map_eq_append_iff.mp hothers
      have hlast : ∃ token ∈ own.getLast?, token.kind.isTrivia = false := by
        obtain ⟨leaf, hleaf, hword⟩ := hinner.1
        rw [← hown, List.getLast?_map, Option.mem_def, Option.map_eq_some_iff] at hleaf
        obtain ⟨token, htoken, rfl⟩ := hleaf
        exact ⟨token, htoken, hword⟩
      obtain ⟨afterBreak, joined, hsplit⟩ := Word.exists_ofTokens_append front (own ++ behind) false false
      have hsource : Word.ofSource source = Word.ofTokens false false front ++
          (Word.ofTokens afterBreak joined own ++ Word.ofTokens false true behind) := by
        rw [Word.ofSource, htokens, hsplit, Word.ofTokens_append hlast]
      have hnotTrivia : ∀ word ∈ words, word.kind.isTrivia = false := fun word hmem =>
        Word.isTrivia_of_mem_ofTokens (hwords.subset hmem)
      obtain ⟨hrest, hpassed⟩ := hbuilt.passed hnotTrivia
      rw [hsource] at hwords
      -- suffixes of one length are the same
      have hsame : words = Word.ofTokens afterBreak joined own ++ Word.ofTokens false true behind := by
        have hlen : words.length = (Word.ofTokens afterBreak joined own ++ Word.ofTokens false true behind).length := by
          rw [hpassed, hlength, List.length_append, Word.length_ofTokens, Word.length_ofTokens, hown]
        exact (List.suffix_of_suffix_length_le hwords (List.suffix_append _ _) (Nat.le_of_eq hlen)).eq_of_length hlen
      subst hsame
      have hbehind : rest = Word.ofTokens false true behind := by
        have hlen : rest.length = (Word.ofTokens false true behind).length := by rw [hlength, Word.length_ofTokens]
        exact (List.suffix_of_suffix_length_le hrest (List.suffix_append _ _) (Nat.le_of_eq hlen)).eq_of_length hlen
      rw [hbehind, Word.ofTokens_eq_ofLeaves own, hown] at hbuilt
      exact .inr ⟨⟨before?, hinner⟩, behind, rfl, afterBreak, joined, hbuilt⟩

end Squirrel
