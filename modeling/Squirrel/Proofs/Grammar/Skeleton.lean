import Squirrel.Proofs.Grammar.Acceptance

/-!
# The skeleton of a source

The productions see little of a source: the kinds of its words, which of them stand on a new line, and which minus signs
stand right before a number. Sources that agree in these have the same derivations, and so they parse to trees that differ
in blanks, comments and the texts of tokens only.
-/

namespace Squirrel

/-- What the grammar sees of a word. -/
structure Mark where
  kind : Kind
  /-- Whether a line breaks between the word before it and this one. -/
  afterBreak : Bool
  /-- Whether it is a minus sign with a number right after it that belongs to it. -/
  signsNumber : Bool
  deriving DecidableEq

/-- What the grammar sees of a row of tokens. -/
def Token.skeleton (afterBreak : Bool) : List Token → List Mark
  | [] => []
  | token :: rest =>
    if token.kind.isTrivia then skeleton (token.breaksLine || afterBreak) rest
    else ⟨token.kind, afterBreak, token.kind == .minus && rest.head?.any State.isFoldable⟩ :: skeleton false rest

/-- What the grammar sees of a source. -/
def Script.skeleton (source : String) : List Mark := Token.skeleton false (Lexed.ofSource source).tokens

mutual

/-- A tree with the texts of its tokens left out. -/
def Tree.forget : Tree → Tree
  | token leaf => token ⟨leaf.kind, ""⟩
  | node kind children => node kind (forgetAll children)

def Tree.forgetAll : List Tree → List Tree
  | [] => []
  | tree :: rest => tree.forget :: forgetAll rest

end

/-- What is left of a tree without blanks and comments when the texts of its tokens are forgotten. -/
def Tree.shape (tree : Tree) : Tree := tree.trim.forget

theorem Tree.forgetAll_eq (trees : List Tree) : forgetAll trees = trees.map forget := by
  induction trees with
  | nil => rw [forgetAll, List.map_nil]
  | cons tree rest ih => rw [forgetAll, ih, List.map_cons]

theorem Tree.shape_of_trim {tree : Tree} {kind : Kind} {parts : List Tree}
    (htrim : tree.trim = node kind (parts.map trim)) : tree.shape = node kind (parts.map shape) := by
  rw [shape, htrim, forget, forgetAll_eq, List.map_map]
  rfl

theorem Tree.map_shape (trees : List Tree) : trees.map shape = (trees.map trim).map forget := by
  rw [List.map_map]
  rfl

/-! ### Skeletons of words -/

namespace Word

def skeleton : List Word → List Mark
  | [] => []
  | word :: rest => ⟨word.kind, word.afterBreak, word.kind == .minus && rest.head?.any folds⟩ :: skeleton rest

theorem skeleton_ofTokens (tokens : List Token) (afterBreak joined : Bool) :
    skeleton (ofTokens afterBreak joined tokens) = Token.skeleton afterBreak tokens := by
  induction tokens generalizing afterBreak joined with
  | nil => rfl
  | cons token rest ih =>
    cases htrivia : token.kind.isTrivia with
    | true => rw [ofTokens_trivia htrivia, Token.skeleton, if_pos htrivia, ih]
    | false =>
      rw [ofTokens_word htrivia, Token.skeleton, htrivia, if_neg Bool.false_ne_true, skeleton, head?_any_folds, ih]
      rfl

variable {words others : List Word}

/-- Words with the same skeleton start alike and go on with the same skeleton. -/
theorem exists_cons_of_skeleton {word : Word} {rest : List Word} (hsame : skeleton (word :: rest) = skeleton others) :
    ∃ other after, others = other :: after ∧ other.kind = word.kind ∧ other.afterBreak = word.afterBreak ∧
      skeleton rest = skeleton after := by
  cases others with
  | nil => exact nomatch hsame
  | cons other after =>
    obtain ⟨hmark, hrest⟩ := List.cons.inj hsame
    obtain ⟨hkind, hbreak, -⟩ := Mark.mk.inj hmark
    exact ⟨other, after, rfl, hkind.symm, hbreak.symm, hrest⟩

theorem here_of_skeleton (hsame : skeleton words = skeleton others) : here words = here others := by
  cases words with
  | nil =>
    cases others with
    | nil => rfl
    | cons => exact nomatch hsame
  | cons word rest =>
    obtain ⟨other, after, rfl, hkind, -, -⟩ := exists_cons_of_skeleton hsame
    exact hkind.symm

theorem skeleton_tail (hsame : skeleton words = skeleton others) : skeleton words.tail = skeleton others.tail := by
  cases words with
  | nil =>
    cases others with
    | nil => rfl
    | cons => exact nomatch hsame
  | cons word rest =>
    obtain ⟨other, after, rfl, -, -, hrest⟩ := exists_cons_of_skeleton hsame
    exact hrest

theorem here_tail_of_skeleton (hsame : skeleton words = skeleton others) : here words.tail = here others.tail :=
  here_of_skeleton (skeleton_tail hsame)

theorem eq_nil_of_skeleton (hsame : skeleton words = skeleton others) : words = [] ↔ others = [] := by
  cases words with
  | nil =>
    cases others with
    | nil => rfl
    | cons => exact nomatch hsame
  | cons word rest =>
    obtain ⟨other, after, rfl, -⟩ := exists_cons_of_skeleton hsame
    simp

theorem afterBreak_of_skeleton (hsame : skeleton words = skeleton others) : AfterBreak words ↔ AfterBreak others := by
  cases words with
  | nil =>
    cases others with
    | nil => rfl
    | cons => exact nomatch hsame
  | cons word rest =>
    obtain ⟨other, after, rfl, -, hbreak, -⟩ := exists_cons_of_skeleton hsame
    simp [AfterBreak, hbreak]

theorem suffix?_of_skeleton (power : Nat) (hsame : skeleton words = skeleton others) :
    suffix? power words = suffix? power others := by
  cases words with
  | nil =>
    cases others with
    | nil => rfl
    | cons => exact nomatch hsame
  | cons word rest =>
    obtain ⟨other, after, rfl, hkind, hbreak, -⟩ := exists_cons_of_skeleton hsame
    simp [suffix?, hkind, hbreak]

/-- Whether a number follows is seen at a minus sign only. -/
theorem numberFollows_of_skeleton (hsame : skeleton words = skeleton others) (hminus : here words = .minus) :
    NumberFollows words ↔ NumberFollows others := by
  cases words with
  | nil => exact nomatch hminus
  | cons word rest =>
    obtain ⟨other, after, rfl, hkind, -, -⟩ := exists_cons_of_skeleton hsame
    obtain ⟨hmark, -⟩ := List.cons.inj hsame
    have hnumber := (Mark.mk.inj hmark).2.2
    have hhere : word.kind = .minus := hminus
    rw [hkind, hhere] at hnumber
    simpa [NumberFollows] using hnumber

end Word

/-! ### Derivations -/

namespace Grammar

open Word

/-- What the items ask of the words ahead can be answered by their skeleton. -/
def Sees : List Item → Prop
  | .check condition :: items =>
    (∀ words others last trees, skeleton words = skeleton others → Derives items words last trees → condition words →
      condition others) ∧ Sees items
  | _ :: items => Sees items
  | [] => True

/-- A condition that the skeleton alone answers. -/
theorem sees_check {condition : List Word → Prop} {items : List Item}
    (hcondition : ∀ words others, skeleton words = skeleton others → condition words → condition others)
    (hitems : Sees items) : Sees (.check condition :: items) :=
  ⟨fun words others _ _ hsame _ => hcondition words others hsame, hitems⟩

theorem sees_part {phrase : Phrase} {items : List Item} (hitems : Sees items) : Sees (.part phrase :: items) := hitems

theorem sees_production {phrase : Phrase} {form : Form} {body : List Item} (hproduction : Production phrase form body) :
    Sees body := by
  -- a test of the first word, with items after it that ask nothing
  have hhere (test : Kind → Prop) {items : List Item} (hitems : Sees items) :
      Sees (.check (fun words => test (here words)) :: items) :=
    sees_check (fun words others hsame => by rw [here_of_skeleton hsame]; exact id) hitems
  cases hproduction
  case noElse | noInitialConst | noAttributes | noBase | pathEnd | noToken => exact hhere (· ≠ _) trivial
  case lastBinding => exact hhere (· ≠ .comma) trivial
  case forExpression => exact hhere (· ≠ .kwLocal) trivial
  case noLoopBody => exact hhere (fun kind => ¬TokenSet.statementFirst.contains kind = true) trivial
  case noExpression => exact hhere (fun kind => ¬TokenSet.expressionFirst.contains kind = true) trivial
  case noReturnValue =>
    exact hhere (fun kind => ¬TokenSet.expressionFirst.contains kind = true ∧ kind ≠ .braceOpen) trivial
  case caseEnd => exact hhere (fun kind => TokenSet.caseBodyEnd.contains kind = true) trivial
  case noBindingValue => exact hhere (fun kind => isBindingOperator kind = false) trivial
  case constName => exact hhere (fun kind => kind ∈ [Kind.id, .doubleColon, .kwRawcall]) trivial
  case noYieldValue =>
    refine sees_check (fun words others hsame => ?_) trivial
    rw [StartsExpression, StartsExpression, here_of_skeleton hsame, afterBreak_of_skeleton hsame]
    exact id
  case someYieldValue =>
    refine sees_check (fun words others hsame => ?_) trivial
    rw [afterBreak_of_skeleton hsame]
    exact id
  case terminatorPlace =>
    refine sees_check (fun words others hsame => ?_) trivial
    rw [MayEnd, MayEnd, here_of_skeleton hsame, afterBreak_of_skeleton hsame, eq_nil_of_skeleton hsame]
    exact id
  case keyedSlot =>
    refine sees_check (fun words others hsame => ?_) trivial
    rw [StartsKey, StartsKey, here_of_skeleton hsame, here_tail_of_skeleton hsame]
    exact id
  case expression power tableAllowed | chainSuffix power tableAllowed found =>
    refine sees_part (sees_check (fun words others hsame => ?_) trivial)
    rw [suffix?_of_skeleton power hsame]
    exact id
  case prefixed =>
    refine sees_check (fun words others hsame hnot hminus => ?_) trivial
    obtain ⟨hhere, hnumber⟩ := hminus
    have hsign : here words = .minus := (here_of_skeleton hsame).trans hhere
    exact hnot ⟨hsign, (numberFollows_of_skeleton hsame hsign).mpr hnumber⟩
  -- the sign comes after the question whether a number follows it
  case negativeInteger | negativeFloat =>
    refine ⟨fun words others last trees hsame hitems hnumber => ?_, trivial⟩
    cases hitems with
    | word hkind _ => exact (numberFollows_of_skeleton hsame hkind).mp hnumber
  all_goals exact trivial

/-- The texts of tokens do not matter to the form of a phrase. -/
theorem map_forget_placedBy (parts : List Tree) (form : Form) :
    (placedBy parts form).map Tree.forget = placedBy (parts.map Tree.forget) form := by
  cases form with
  | bare => rfl
  | node kind | tight kind => rw [List.map_singleton, Tree.forget, Tree.forgetAll_eq]

theorem map_shape_of_holds {phrase : Phrase} {form : Form} {body : List Item} {words last : List Word}
    {parts placed : List Tree} (hproduction : Production phrase form body) (hbody : Derives body words last parts)
    (hform : form.Holds parts placed) : placed.map Tree.shape = placedBy (parts.map Tree.shape) form := by
  rw [Tree.map_shape, Tree.map_shape, map_trim_of_holds hproduction hbody hform, map_forget_placedBy]

/-- Parts without blanks and comments can be put together in any form. -/
theorem holds_placedBy {parts : List Tree} (form : Form) (hparts : Tree.items parts = parts) :
    form.Holds parts (placedBy parts form) ∧ Tree.items (placedBy parts form) = placedBy parts form := by
  cases form with
  | bare => exact ⟨rfl, hparts⟩
  | node kind => exact ⟨⟨.node kind parts, ⟨parts, rfl, hparts⟩, rfl⟩, rfl⟩
  | tight kind => exact ⟨rfl, rfl⟩

/-- A derivation goes over to other words with the same skeleton, and places trees of the same shape. -/
theorem exists_derives_of_skeleton {items : List Item} {words others last : List Word} {trees : List Tree}
    (hderives : Derives items words last trees) (hsees : Sees items) (hsame : skeleton words = skeleton others)
    (hothers : ∀ word ∈ others, word.kind.isTrivia = false) :
    ∃ rest placed, Derives items others rest placed ∧ skeleton last = skeleton rest ∧
      (∀ word ∈ rest, word.kind.isTrivia = false) ∧ Tree.items placed = placed ∧
      placed.map Tree.shape = trees.map Tree.shape := by
  -- the same word in front of both rows
  have hword {word other : Word} {first second : List Tree} (hkind : other.kind = word.kind)
      (hother : other.kind.isTrivia = false) (hitems : Tree.items second = second)
      (hshape : second.map Tree.shape = first.map Tree.shape) :
      Tree.items (other.tree :: second) = other.tree :: second ∧
        (other.tree :: second).map Tree.shape = (word.tree :: first).map Tree.shape := by
    have hleaf : other.tree.shape = word.tree.shape := by
      have hleaf : other.leaf.kind = word.leaf.kind := hkind
      simp only [Tree.shape, Word.tree, Tree.trim_token, Tree.forget, hleaf]
    have htree : other.tree.isTrivia = false := hother
    exact ⟨by rw [Tree.items_cons_word htree, hitems], by rw [List.map_cons, List.map_cons, hleaf, hshape]⟩
  induction hderives generalizing others with
  | nil => exact ⟨others, [], .nil, hsame, hothers, rfl, rfl⟩
  | word hkind _ ih =>
    obtain ⟨other, after, rfl, hother, -, hrest⟩ := exists_cons_of_skeleton hsame
    obtain ⟨rest, placed, hitems, hlast, hwords, htidy, hshape⟩ :=
      ih hsees hrest fun word hmem => hothers word (List.mem_cons_of_mem _ hmem)
    obtain ⟨htidy, hshape⟩ := hword hother (hothers other List.mem_cons_self) htidy hshape
    exact ⟨rest, _, .word (hother.trans hkind) hitems, hlast, hwords, htidy, hshape⟩
  | wordIn hkind _ ih =>
    obtain ⟨other, after, rfl, hother, -, hrest⟩ := exists_cons_of_skeleton hsame
    obtain ⟨rest, placed, hitems, hlast, hwords, htidy, hshape⟩ :=
      ih hsees hrest fun word hmem => hothers word (List.mem_cons_of_mem _ hmem)
    obtain ⟨htidy, hshape⟩ := hword hother (hothers other List.mem_cons_self) htidy hshape
    exact ⟨rest, _, .wordIn (by rwa [hother]) hitems, hlast, hwords, htidy, hshape⟩
  | check hcondition hitems ih =>
    obtain ⟨hcheck, hsees⟩ := hsees
    obtain ⟨rest, placed, hderives, hafter⟩ := ih hsees hsame hothers
    exact ⟨rest, placed, .check (hcheck _ _ _ _ hsame hitems hcondition) hderives, hafter⟩
  | part hproduction hbody hform _ ihbody ih =>
    obtain ⟨middle, parts, hparts, hmiddle, hwords, htidy, hshape⟩ := ihbody (sees_production hproduction) hsame hothers
    obtain ⟨rest, placed, hitems, hlast, hrest, htidy', hshape'⟩ := ih hsees hmiddle hwords
    obtain ⟨hholds, hplaced⟩ := holds_placedBy _ htidy
    refine ⟨rest, _, .part hproduction hparts hholds hitems, hlast, hrest, ?_, ?_⟩
    · rw [Tree.items_append, hplaced, htidy']
    · rw [List.map_append, List.map_append, hshape', map_shape_of_holds hproduction hparts hholds, hshape,
        map_shape_of_holds hproduction hbody hform]

end Grammar

/-! ### Sources -/

theorem Word.exists_mem_of_skeleton {words others : List Word} (hsame : skeleton words = skeleton others) {word : Word}
    (hmem : word ∈ words) : ∃ other ∈ others, other.kind = word.kind := by
  induction words generalizing others with
  | nil => exact nomatch hmem
  | cons first rest ih =>
    obtain ⟨other, after, rfl, hkind, -, hrest⟩ := exists_cons_of_skeleton hsame
    obtain rfl | hmem := List.mem_cons.mp hmem
    · exact ⟨other, List.mem_cons_self, hkind⟩
    · obtain ⟨found, hfound, hkind⟩ := ih hrest hmem
      exact ⟨found, List.mem_cons_of_mem _ hfound, hkind⟩

/-- Sources with the same skeleton parse alike: with one of them the other one parses without a diagnostic, to a tree of the
same shape. -/
theorem Script.shape_of_skeleton {first second : String} {script : Script}
    (hsame : Script.skeleton first = Script.skeleton second) (hparse : Script.parse first .unbounded = .ok script)
    (hclean : script.diagnostics = []) :
    ∃ other, Script.parse second .unbounded = .ok other ∧ other.diagnostics = [] ∧
      other.root.shape = script.root.shape := by
  have hwords : Word.skeleton (Word.ofSource first) = Word.skeleton (Word.ofSource second) := by
    rw [Word.ofSource, Word.ofSource, Word.skeleton_ofTokens, Word.skeleton_ofTokens]
    exact hsame
  obtain ⟨⟨parts, hderives, hbuilt⟩, hwritten, -⟩ := Script.derives_of_parse hparse hclean
  have haccepted : ∀ word ∈ Word.ofSource second, word.kind.isRejected = false := by
    intro word hmem
    obtain ⟨other, hother, hkind⟩ := Word.exists_mem_of_skeleton hwords.symm hmem
    exact hkind ▸ (hwritten other hother).accepted
  obtain ⟨rest, placed, hplaced, hlast, -, -, hshape⟩ :=
    Grammar.exists_derives_of_skeleton hderives trivial hwords fun word => Word.isTrivia_of_mem_ofTokens
  rw [(Word.eq_nil_of_skeleton hlast).mp rfl] at hplaced
  obtain ⟨other, hother, hcleanly, hroot⟩ := Script.exists_parse_of_derives haccepted hplaced
  refine ⟨other, hother, hcleanly, ?_⟩
  rw [Tree.shape_of_trim hroot, Tree.shape_of_trim hbuilt.trim_eq, hshape]

/-- Two names, spacing and a comment make no difference. -/
theorem Script.shape_of_skeleton_renamed :
    Script.skeleton "a = -1 // sign\nb" = Script.skeleton "c=-22 \n d" ∧
      ∃ script other, Script.parse "a = -1 // sign\nb" .unbounded = .ok script ∧ script.diagnostics = [] ∧
        Script.parse "c=-22 \n d" .unbounded = .ok other ∧ other.diagnostics = [] ∧
        other.root.shape = script.root.shape := by
  have hsame : Script.skeleton "a = -1 // sign\nb" = Script.skeleton "c=-22 \n d" := by
    rw [Script.skeleton, Script.skeleton, ← Lexed.computed_eq, ← Lexed.computed_eq]
    decide +kernel
  have houtcome : (Script.outcome? "a = -1 // sign\nb" .unbounded).any (fun found => found.2) = true := by
    decide +kernel
  obtain ⟨script, clean, hparse, hclean, htest⟩ := Script.exists_of_outcome houtcome
  obtain ⟨other, hother, hcleanly, hshape⟩ := Script.shape_of_skeleton hsame hparse (hclean htest)
  exact ⟨hsame, script, other, hparse, hclean htest, hother, hcleanly, hshape⟩

end Squirrel
