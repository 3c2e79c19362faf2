import Squirrel.Proofs.Grammar.Shape
import Squirrel.Proofs.Grammar.Valid
import Squirrel.Proofs.Tree.Between

/-!
# The production behind a node

Every node in the trees of a derivation is built by a production, from words that are followed by the words of the leaves
after it. What holds of a node in a script without a diagnostic is then a matter of its production alone, and what has
to follow it is a matter of the words that its production leaves.
-/

namespace Squirrel

open Squirrel.Tree

/-! ### Kinds of nodes -/

namespace Grammar

theorem forall_jumpNode? {P : Kind → Prop} {keyword node : Kind} (hnode : jumpNode? keyword = some node)
    (hall : ∀ jump ∈ [Kind.breakStatement, .continueStatement], P jump) : P node := by
  refine hall node ?_
  revert hnode
  fun_cases jumpNode? keyword
  all_goals
    intro hnode
    cases hnode
  all_goals decide

theorem forall_keywordNode? {P : Kind → Prop} {keyword node : Kind} (hnode : keywordNode? keyword = some node)
    (hall : ∀ operator ∈ [Kind.cloneExpression, .deleteExpression, .resumeExpression], P operator) : P node := by
  refine hall node ?_
  revert hnode
  fun_cases keywordNode? keyword
  all_goals
    intro hnode
    cases hnode
  all_goals decide

theorem forall_suffixNode {P : Kind → Prop} (found : Suffix)
    (hall : ∀ node ∈ [Kind.derefExpression, .indexExpression, .callExpression, .unaryExpression, .ternaryExpression,
      .assignmentExpression, .updateExpression, .binaryExpression], P node) : P found.node := by
  cases found <;> exact hall _ (by simp [Suffix.node])

end Grammar

/-! ### Words and leaves -/

namespace Tree

/-- The words among some leaves. -/
def wordsIn (leaves : List Leaf) : List Leaf := leaves.filter (!·.kind.isTrivia)

/-- How many of some leaves are words. -/
def wordsAmong (leaves : List Leaf) : Nat := leaves.countP (!·.kind.isTrivia)

theorem wordsAmong_eq (leaves : List Leaf) : wordsAmong leaves = (wordsIn leaves).length := List.countP_eq_length_filter

@[simp] theorem wordsIn_append (left right : List Leaf) : wordsIn (left ++ right) = wordsIn left ++ wordsIn right :=
  List.filter_append _ _

@[simp] theorem wordsAmong_nil : wordsAmong [] = 0 := rfl

@[simp] theorem wordsAmong_append (left right : List Leaf) :
    wordsAmong (left ++ right) = wordsAmong left + wordsAmong right :=
  List.countP_append

/-- The blanks and comments of a row hold no words. -/
theorem wordsIn_leavesOf_items (trees : List Tree) : wordsIn (leavesOf (items trees)) = wordsIn (leavesOf trees) := by
  induction trees with
  | nil => rfl
  | cons tree rest ih =>
    cases htrivia : tree.isTrivia with
    | false => rw [items_cons_word htrivia, leavesOf, leavesOf, wordsIn_append, wordsIn_append, ih]
    | true =>
      have hitems : items (tree :: rest) = items rest := List.filter_cons_of_neg (by simp [htrivia])
      cases tree with
      | node => exact nomatch htrivia
      | token leaf =>
        have hleaf : wordsIn (token leaf).leaves = [] := by
          have hblank : leaf.kind.isTrivia = true := htrivia
          simp [wordsIn, leaves, hblank]
        rw [hitems, ih, leavesOf, wordsIn_append, hleaf, List.nil_append]

theorem wordsAmong_leavesOf_items (trees : List Tree) :
    wordsAmong (leavesOf (items trees)) = wordsAmong (leavesOf trees) := by
  rw [wordsAmong_eq, wordsAmong_eq, wordsIn_leavesOf_items]

theorem BuiltOf.wordsIn_leaves {tree : Tree} {kind : Kind} {row : List Tree} (hbuilt : tree.BuiltOf kind row) :
    wordsIn tree.leaves = wordsIn (leavesOf row) := by
  obtain ⟨children, rfl, rfl⟩ := hbuilt
  rw [leaves, wordsIn_leavesOf_items]

end Tree

/-- The words of a form are those of its parts. -/
theorem Form.Holds.wordsIn_leavesOf {form : Form} {parts placed : List Tree} (hform : form.Holds parts placed) :
    wordsIn (leavesOf placed) = wordsIn (leavesOf parts) := by
  cases form with
  | bare => rw [show placed = parts from hform]
  | node kind =>
    obtain ⟨tree, hbuilt, rfl⟩ := hform
    rw [leavesOf, leavesOf, List.append_nil, hbuilt.wordsIn_leaves]
  | tight kind =>
    obtain rfl : placed = [.node kind parts] := hform
    simp [leavesOf, leaves]

/-- A derivation goes from some words to the last ones of them, past those that are among the leaves of its trees. -/
theorem Derives.exists_words {items : List Item} {words last : List Word} {trees : List Tree}
    (hderives : Derives items words last trees) (hwords : ∀ word ∈ words, word.kind.isTrivia = false) :
    ∃ front, words = front ++ last ∧ front.map Word.leaf = wordsIn (leavesOf trees) := by
  induction hderives with
  | nil => exact ⟨[], rfl, rfl⟩
  | @word _ _ word rest _ _ _ _ ih | @wordIn _ _ word rest _ _ _ _ ih =>
    obtain ⟨hfirst, hrest⟩ := List.forall_mem_cons.mp hwords
    obtain ⟨front, rfl, hfront⟩ := ih hrest
    refine ⟨word :: front, rfl, ?_⟩
    have hone : wordsIn word.tree.leaves = [word.leaf] := by
      have hkind : word.leaf.kind.isTrivia = false := hfirst
      simp [Word.tree, leaves, wordsIn, hkind]
    rw [List.map_cons, hfront, leavesOf, wordsIn_append, hone, List.singleton_append]
  | check _ _ ih => exact ih hwords
  | part _ _ hform _ ihbody ih =>
    obtain ⟨front, rfl, hfront⟩ := ihbody hwords
    obtain ⟨others, rfl, hothers⟩ := ih fun word hmem => hwords word (List.mem_append_right front hmem)
    refine ⟨front ++ others, (List.append_assoc ..).symm, ?_⟩
    rw [List.map_append, hfront, hothers, leavesOf_append, wordsIn_append, hform.wordsIn_leavesOf]

theorem Derives.passed {items : List Item} {words last : List Word} {trees : List Tree}
    (hderives : Derives items words last trees) (hwords : ∀ word ∈ words, word.kind.isTrivia = false) :
    last <:+ words ∧ words.length = wordsAmong (leavesOf trees) + last.length := by
  obtain ⟨front, rfl, hfront⟩ := hderives.exists_words hwords
  refine ⟨List.suffix_append front last, ?_⟩
  rw [List.length_append, wordsAmong_eq, ← hfront, List.length_map]

/-! ### Nodes and productions -/

/-- A form builds a node around some parts. -/
def Form.Builds (form : Form) (parts : List Tree) (tree : Tree) : Prop :=
  match form with
  | .bare => False
  | .node kind => tree.BuiltOf kind parts
  | .tight kind => tree = .node kind parts

/-- A production builds a node from some words, and leaves the last ones of them. -/
def Tree.BuiltFrom (tree : Tree) (words last : List Word) : Prop :=
  ∃ phrase form body row, Production phrase form body ∧ Derives body words last row ∧ form.Builds row tree

theorem Form.Builds.wordsIn_leaves {form : Form} {parts : List Tree} {tree : Tree} (hbuilds : form.Builds parts tree) :
    wordsIn tree.leaves = wordsIn (leavesOf parts) := by
  cases form with
  | bare => exact hbuilds.elim
  | node kind => exact Tree.BuiltOf.wordsIn_leaves hbuilds
  | tight kind =>
    obtain rfl : tree = .node kind parts := hbuilds
    rw [leaves]

/-- A node is built from as many words as are among its leaves, and leaves the others. -/
theorem Tree.BuiltFrom.passed {tree : Tree} {words last : List Word} (hbuilt : tree.BuiltFrom words last)
    (hwords : ∀ word ∈ words, word.kind.isTrivia = false) :
    last <:+ words ∧ words.length = wordsAmong tree.leaves + last.length := by
  obtain ⟨phrase, form, body, row, -, hbody, hbuilds⟩ := hbuilt
  rw [wordsAmong_eq, hbuilds.wordsIn_leaves, ← wordsAmong_eq]
  exact hbody.passed hwords

/-- A production builds each node in the trees of a derivation, and leaves the words of the leaves after the node. -/
theorem Derives.builtFrom {items : List Item} {words last : List Word} {trees : List Tree}
    (hderives : Derives items words last trees) (hwords : ∀ word ∈ words, word.kind.isTrivia = false)
    {left right : List Tree} {tree inner : Tree} {before after : List Leaf} (htrees : trees = left ++ tree :: right)
    (hbetween : inner.Between before after tree) (hnode : inner.isNode = true) :
    ∃ own rest, inner.BuiltFrom own rest ∧ own <:+ words ∧
      rest.length = wordsAmong after + wordsAmong (leavesOf right) + last.length := by
  induction hderives generalizing left right tree before after with
  | nil => exact absurd htrees.symm (List.append_ne_nil_of_right_ne_nil _ (List.cons_ne_nil _ _))
  | @word _ _ word others _ _ _ _ ih | @wordIn _ _ word others _ _ _ _ ih =>
    cases left with
    | nil =>
      -- no node stands in a word
      obtain ⟨rfl, -⟩ := List.cons_eq_cons.mp htrees
      exact nomatch hbetween.isNode hnode
    | cons first left =>
      obtain ⟨-, htrees⟩ := List.cons_eq_cons.mp htrees
      obtain ⟨own, rest, hbuilt, hsuffix, hlength⟩ :=
        ih (fun word hmem => hwords word (List.mem_cons_of_mem _ hmem)) htrees hbetween
      exact ⟨own, rest, hbuilt, hsuffix.trans (List.suffix_cons word others), hlength⟩
  | check _ _ ih => exact ih hwords htrees hbetween
  | @part phrase form body items words middle last parts placed trees hproduction hbody hform hitems ihbody ih =>
    obtain ⟨hmiddle, -⟩ := hbody.passed hwords
    have hrestWords : ∀ word ∈ middle, word.kind.isTrivia = false := fun word hmem => hwords word (hmiddle.subset hmem)
    obtain ⟨-, hpassed⟩ := hitems.passed hrestWords
    obtain ⟨skipped, rfl, hbehind⟩ | ⟨skipped, rfl, rfl⟩ := append_eq_append_cons htrees
    · obtain ⟨own, rest, hbuilt, hsuffix, hlength⟩ := ih hrestWords hbehind hbetween
      exact ⟨own, rest, hbuilt, hsuffix.trans hmiddle, hlength⟩
    · -- the node is among what this phrase has placed: it is the node of the phrase, or stands in one of its parts
      have hown {kind : Kind} {children : List Tree} (hsingle : left ++ tree :: skipped = [.node kind children])
          (hbuilds : form.Builds parts (.node kind children))
          (hparts : ∀ first child others, children = first ++ child :: others → child.isNode = true →
            ∃ first' others', parts = first' ++ child :: others' ∧
              wordsAmong (leavesOf others') = wordsAmong (leavesOf others)) :
          ∃ own rest, inner.BuiltFrom own rest ∧ own <:+ words ∧
            rest.length = wordsAmong after + wordsAmong (leavesOf (skipped ++ trees)) + last.length := by
        obtain ⟨rfl, rfl, rfl⟩ : left = [] ∧ tree = .node kind children ∧ skipped = [] := by
          simpa [List.append_eq_cons_iff] using hsingle
        generalize hnodeOf : Tree.node kind children = node at hbetween
        cases hbetween with
        | self =>
          subst hnodeOf
          exact ⟨words, middle, ⟨phrase, form, body, parts, hproduction, hbody, hbuilds⟩, List.suffix_refl _,
            by simpa using hpassed⟩
        | @child _ first others child _ after hbetween =>
          obtain ⟨-, rfl⟩ := Tree.node.inj hnodeOf
          obtain ⟨first', others', rfl, hothers⟩ := hparts first child others rfl (hbetween.isNode hnode)
          obtain ⟨own, rest, hbuilt, hsuffix, hlength⟩ := ihbody hwords rfl hbetween
          refine ⟨own, rest, hbuilt, hsuffix, ?_⟩
          rw [hlength, hpassed, hothers, wordsAmong_append, List.nil_append]
          omega
      cases form with
      | bare =>
        obtain ⟨own, rest, hbuilt, hsuffix, hlength⟩ := ihbody hwords (Eq.symm hform) hbetween
        refine ⟨own, rest, hbuilt, hsuffix, ?_⟩
        rw [hlength, hpassed, leavesOf_append, wordsAmong_append]
        omega
      | node kind =>
        obtain ⟨_, ⟨children, rfl, rfl⟩, hsingle⟩ := hform
        refine hown hsingle ⟨children, rfl, rfl⟩ fun first child others hchildren hchild => ?_
        refine ⟨Tree.items first, Tree.items others, ?_, wordsAmong_leavesOf_items others⟩
        rw [hchildren, items_append, items_cons_word (isTrivia_of_isNode hchild)]
      | tight kind =>
        exact hown hform rfl fun first child others hchildren _ => ⟨first, others, hchildren, rfl⟩

/-! ### Scripts -/

/-- In a script without a diagnostic a production builds every node but the script itself from words of the source, and leaves
those that are among the leaves after the node. -/
theorem Script.builtFrom_of_parse {source : String} {limits : Limits} {script : Script}
    (hparse : Script.parse source limits = .ok script) (hclean : script.diagnostics = []) {inner : Tree}
    {before after : List Leaf} (hbetween : inner.Between before after script.root) (hnode : inner.isNode = true) :
    inner = script.root ∨ ∃ own rest, inner.BuiltFrom own rest ∧ own <:+ Word.ofSource source ∧
      rest.length = wordsAmong after := by
  obtain ⟨⟨parts, hderives, children, hroot, rfl⟩, -, -⟩ := Script.derives_of_parse hparse hclean
  rw [hroot] at hbetween ⊢
  generalize hown : Tree.node .script children = root at hbetween
  cases hbetween with
  | self => exact .inl rfl
  | @child _ left right child _ after hbetween =>
    obtain ⟨-, rfl⟩ := Tree.node.inj hown
    have hword : child.isTrivia = false := isTrivia_of_isNode (hbetween.isNode hnode)
    obtain ⟨own, rest, hbuilt, hsuffix, hlength⟩ := hderives.builtFrom (fun word => Word.isTrivia_of_mem_ofTokens)
      (by rw [items_append, items_cons_word hword]) hbetween hnode
    refine .inr ⟨own, rest, hbuilt, hsuffix, ?_⟩
    rw [hlength, wordsAmong_leavesOf_items, wordsAmong_append]
    rfl

/-- The kinds of nodes that productions build without blanks. -/
theorem Production.mem_of_tight {phrase : Phrase} {kind : Kind} {body : List Item}
    (hproduction : Production phrase (.tight kind) body) :
    kind ∈ [Kind.integer, .float, .str, .verbatimStr, .char, .bool, .null] := by
  cases hproduction with
  | negativeInteger | negativeFloat => decide
  | literal hliteral => exact Grammar.forall_literalNode? (P := (· ∈ _)) hliteral (by decide)

/-- What holds of scripts and of literals and of every node that a production builds around parts holds of all nodes of a
script without a diagnostic. -/
theorem Script.forall_nodes {source : String} {limits : Limits} {script : Script}
    (hparse : Script.parse source limits = .ok script) (hclean : script.diagnostics = []) {holds : Tree → Prop}
    (hplain : ∀ tree : Tree, tree.kind ∈ [.script, .integer, .float, .str, .verbatimStr, .char, .bool, .null] → holds tree)
    (hproduction : ∀ {phrase : Phrase} {kind : Kind} {body : List Item} {words last : List Word} {row : List Tree}
      {tree : Tree}, Production phrase (.node kind) body → Derives body words last row → tree.BuiltOf kind row → holds tree) :
    ∀ tree : Tree, tree.Within script.root → tree.isNode = true → holds tree := by
  intro tree hwithin hnode
  obtain ⟨before, after, hbetween⟩ := hwithin.exists_between
  obtain rfl | ⟨words, rest, ⟨phrase, form, body, row, hbuilds, hbody, hform⟩, -⟩ :=
    Script.builtFrom_of_parse hparse hclean hbetween hnode
  · obtain ⟨⟨parts, -, hroot⟩, -⟩ := Script.derives_of_parse hparse hclean
    exact hplain script.root (by rw [hroot.kind_eq]; decide)
  · cases form with
    | bare => exact hform.elim
    | node kind => exact hproduction hbuilds hbody hform
    | tight kind =>
      obtain rfl : tree = .node kind row := hform
      exact hplain _ (List.mem_cons_of_mem _ hbuilds.mem_of_tight)

end Squirrel
