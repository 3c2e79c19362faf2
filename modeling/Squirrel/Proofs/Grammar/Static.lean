import Squirrel.Proofs.Grammar.Behind
import Squirrel.Proofs.Grammar.Lists

/-!
# Static rules

What a valid script keeps to beyond its grammar of words: a default is the last clause of its `switch`, a variadic
parameter the last of its list; `break` and `continue` have a semicolon, constants and `yield` have one or end with
their line or block; and a table stands only where one is allowed.
-/

namespace Squirrel

open Squirrel.Tree

/-! ### Tables -/

/-- Whether a table may stand among the trees of a phrase. -/
def Phrase.mayPlaceTable : Phrase → Bool
  | table | constValue | expression _ true | chain _ true | operand true => true
  | suffix .ternary | suffix .assignment | suffix .update => true
  | returnValue | bindingValue | initialConst | elements | arguments => true
  | _ => false

def Item.mayPlaceTable : Item → Bool
  | part phrase => phrase.mayPlaceTable
  | _ => false

/-- A production places no table: its node is none, or no part places one. -/
def Form.PlacesNoTable (form : Form) (body : List Item) : Prop :=
  match form with
  | .bare => body.any Item.mayPlaceTable = false
  | .node kind | .tight kind => kind ≠ .table

theorem Production.placesNoTable {phrase : Phrase} {form : Form} {body : List Item}
    (hproduction : Production phrase form body) (hphrase : phrase.mayPlaceTable = false) : form.PlacesNoTable body := by
  cases hproduction
  all_goals try first
    | (cases hphrase; done)
    | exact Eq.refl false
    | (intro hkind; cases hkind; done)
  case expression tableAllowed | chainOperand tableAllowed => cases tableAllowed <;> trivial
  case jump hjump => exact Grammar.forall_jumpNode? (P := (· ≠ _)) hjump (by decide)
  case chainSuffix found => exact Grammar.forall_suffixNode (P := (· ≠ _)) found (by decide)
  case keyword hkeyword => exact Grammar.forall_keywordNode? (P := (· ≠ _)) hkeyword (by decide)
  case literal hliteral => exact Grammar.forall_literalNode? (P := (· ≠ _)) hliteral (by decide)

/-- Items that place no table place none. -/
theorem Derives.noTable {items : List Item} {words last : List Word} {trees : List Tree}
    (hderives : Derives items words last trees) (hitems : items.any Item.mayPlaceTable = false) :
    ∀ tree ∈ trees, isNodeOf .table tree = false := by
  induction hderives with
  | nil => nofun
  | word _ _ ih | wordIn _ _ ih => exact List.forall_mem_cons.mpr ⟨rfl, ih hitems⟩
  | check _ _ ih => exact ih hitems
  | @part phrase form _ _ _ _ _ parts placed _ hproduction _ hform _ ihbody ih =>
    obtain ⟨hphrase, hitems⟩ := Bool.or_eq_false_iff.mp hitems
    refine List.forall_mem_append.mpr ⟨?_, ih hitems⟩
    have hnone := hproduction.placesNoTable hphrase
    cases form with
    | bare =>
      obtain rfl : placed = parts := hform
      exact ihbody hnone
    | node kind =>
      obtain ⟨tree, hbuilt, rfl⟩ := hform
      exact List.forall_mem_singleton.mpr (isNodeOf_eq_false hbuilt.isNodeOf_kind hnone)
    | tight kind =>
      obtain rfl : placed = [.node kind parts] := hform
      exact List.forall_mem_singleton.mpr (beq_eq_false_iff_ne.mpr hnone)

/-- Those of the expressions right under a node of a kind that may not be tables: all of them, those behind the left
operand, or those in front of the value of a slot. -/
def Kind.barred (kind : Kind) (expressions : List Tree) : List Tree :=
  match kind with
  | parenthesizedExpression | cloneExpression | deleteExpression | resumeExpression | lambdaExpression
  | whileStatement | doWhileStatement | switchStatement | caseStatement | forStatement | foreachStatement
  | throwStatement | yieldStatement | expressionStatement => expressions
  | binaryExpression | indexExpression => expressions.drop 1
  | tableSlot => expressions.dropLast
  | _ => []

/-- The expressions right under a node that may not be tables. -/
def Tree.barred (tree : Tree) : List Tree := tree.kind.barred (tree.children.filter isExpression)

theorem Tree.BuiltOf.expressions_eq {tree : Tree} {kind : Kind} {row : List Tree} (hbuilt : tree.BuiltOf kind row) :
    tree.children.filter Tree.isExpression = row.filter Tree.isExpression :=
  hbuilt.filter_eq Tree.isExpression fun _ hpart => isTrivia_of_isNode (Bool.and_eq_true_iff.mp hpart).1

theorem Kind.barred_subset (kind : Kind) (expressions : List Tree) : kind.barred expressions ⊆ expressions := by
  unfold barred
  split
  all_goals first
    | exact List.Subset.refl _
    | exact List.drop_subset 1 _
    | exact List.dropLast_subset _
    | exact List.nil_subset _

/-- An expression that is no table node is no table. -/
theorem Tree.kind_ne_table {tree : Tree} (hexpression : tree.isExpression = true) (hnone : isNodeOf .table tree = false) :
    tree.kind ≠ .table := by
  intro hkind
  obtain ⟨hnode, -⟩ := Bool.and_eq_true_iff.mp hexpression
  rw [isNodeOf, hnode, hkind] at hnone
  cases hnone

/-- Where a row has no table none is barred. -/
theorem Tree.BuiltOf.barred_of_row {tree : Tree} {kind : Kind} {row : List Tree} (hbuilt : tree.BuiltOf kind row)
    (hrow : ∀ part ∈ row, isNodeOf .table part = false) : ∀ part ∈ tree.barred, part.kind ≠ .table := by
  intro part hmem
  have hexpression := tree.kind.barred_subset _ hmem
  rw [hbuilt.expressions_eq] at hexpression
  obtain ⟨hmem, hpart⟩ := List.mem_filter.mp hexpression
  exact kind_ne_table hpart (hrow part hmem)

theorem Tree.barred_of_kind {tree : Tree} (hkind : tree.kind ∉ [.parenthesizedExpression, .cloneExpression,
    .deleteExpression, .resumeExpression, .lambdaExpression, .whileStatement, .doWhileStatement, .switchStatement,
    .caseStatement, .forStatement, .foreachStatement, .throwStatement, .yieldStatement, .expressionStatement,
    .binaryExpression, .indexExpression, .tableSlot]) : tree.barred = [] := by
  unfold barred Kind.barred
  generalize tree.kind = kind at hkind
  split
  all_goals first
    | rfl
    | exact absurd hkind (by decide)

/-- What an operator or an accessor places behind its operand has no table, where none is allowed. -/
theorem barred_of_suffix {tree left : Tree} {found : Suffix} {words last : List Word} {parts : List Tree}
    (hbuilt : tree.BuiltOf found.node (left :: parts)) (hleft : left.isExpression = true)
    (hsuffix : Derives [.part (.suffix found)] words last parts) : ∀ part ∈ tree.barred, part.kind ≠ .table := by
  have hbehind (hparts : ∀ part ∈ parts, isNodeOf .table part = false)
      (hbarred : tree.barred = (tree.children.filter isExpression).drop 1) : ∀ part ∈ tree.barred, part.kind ≠ .table := by
    rw [hbarred, hbuilt.expressions_eq, List.filter_cons_of_pos hleft, List.drop_one, List.tail_cons]
    intro part hmem
    obtain ⟨hmem, hpart⟩ := List.mem_filter.mp hmem
    exact kind_ne_table hpart (hparts part hmem)
  have hkind := hbuilt.kind_eq
  cases found with
  | index | binary =>
    refine hbehind (hsuffix.noTable rfl) ?_
    rw [barred, hkind]
    rfl
  | _ =>
    rw [barred_of_kind (by rw [hkind]; decide)]
    nofun

/-- The value of a slot stands last, and what stands in front of it is no table. -/
theorem barred_of_slot {tree : Tree} (front : List Item) {words last : List Word} {row : List Tree}
    (hbuilt : tree.BuiltOf .tableSlot row) (hbody : Derives (front ++ [.part (.expression 0 true)]) words last row)
    (hfront : front.any Item.mayPlaceTable = false) : ∀ part ∈ tree.barred, part.kind ≠ .table := by
  obtain ⟨middle, first, second, hfirst, hsecond, rfl⟩ := hbody.split front
  obtain ⟨value, rfl, hvalue⟩ : One isExpression second := hsecond.rowFits.of_part
  rw [barred, hbuilt.kind_eq]
  intro part hmem
  have hmem : part ∈ (tree.children.filter isExpression).dropLast := hmem
  rw [hbuilt.expressions_eq, List.filter_append, List.filter_cons_of_pos hvalue, List.filter_nil,
    List.dropLast_concat] at hmem
  obtain ⟨hmem, hpart⟩ := List.mem_filter.mp hmem
  exact kind_ne_table hpart (hfirst.noTable hfront part hmem)

theorem Production.barred {phrase : Phrase} {kind : Kind} {body : List Item} {words last : List Word} {row : List Tree}
    {tree : Tree} (hproduction : Production phrase (.node kind) body) (hbody : Derives body words last row)
    (hbuilt : tree.BuiltOf kind row) : ∀ part ∈ tree.barred, part.kind ≠ .table := by
  have hkind := hbuilt.kind_eq
  cases hproduction
  case chainSuffix =>
    obtain ⟨middle, _, _, hchain, hrest, rfl⟩ := hbody.split [_]
    obtain ⟨left, rfl, hleft⟩ : One isExpression _ := hchain.rowFits.of_part
    cases hrest with | check _ hsuffix =>
    exact barred_of_suffix hbuilt hleft hsuffix
  case namedSlot => exact barred_of_slot [_, _] hbuilt hbody rfl
  case computedSlot => exact barred_of_slot [_, _, _, _] hbuilt hbody rfl
  case keyedSlot => exact barred_of_slot [_, _, _] hbuilt hbody rfl
  all_goals first
    | exact hbuilt.barred_of_row (hbody.noTable rfl)
    | (rw [Tree.barred_of_kind (by rw [hkind]; decide)]; nofun)

/-! ### Clauses, parameters and ends of statements -/

/-- What the other nodes with a static rule consist of. -/
def Kind.ConsistsOf (kind : Kind) (body : List Item) : Prop :=
  match kind with
  | switchStatement => body =
      [.word .kwSwitch, .part .header, .word .braceOpen, .part .switchClauses, .word .braceClose]
  | parameters => body = [.word .parenOpen, .part .parameterList, .word .parenClose]
  | breakStatement | continueStatement => ∃ keyword, body = [.word keyword, .word .semicolon]
  | constDeclaration => body = [.word .kwConst, .word .id, .word .equals, .part .constValue] ++ [.part .terminator]
  | yieldStatement => body = [.word .kwYield, .part .yieldValue] ++ [.part .terminator]
  | _ => True

theorem Production.consistsOf {phrase : Phrase} {kind : Kind} {body : List Item}
    (hproduction : Production phrase (.node kind) body) : kind.ConsistsOf body := by
  cases hproduction
  case jump keyword hjump =>
    refine Grammar.forall_jumpNode? (P := (·.ConsistsOf _)) hjump (List.forall_mem_cons.mpr ⟨⟨keyword, rfl⟩, ?_⟩)
    exact List.forall_mem_singleton.mpr ⟨keyword, rfl⟩
  case chainSuffix found => exact Grammar.forall_suffixNode (P := (·.ConsistsOf _)) found (by simp [Kind.ConsistsOf])
  case keyword hkeyword => exact Grammar.forall_keywordNode? (P := (·.ConsistsOf _)) hkeyword (by simp [Kind.ConsistsOf])
  all_goals first
    | exact trivial
    | exact rfl

namespace Tree

/-- What stands in front and is ordered before everything leaves an order as it is. -/
theorem pairwise_of_front {α : Type} {ordered : α → α → Prop} {front rest : List α}
    (hfront : ∀ a ∈ front, ∀ other, ordered a other) (hrest : rest.Pairwise ordered) :
    (front ++ rest).Pairwise ordered := by
  induction front with
  | nil => exact hrest
  | cons a front ih =>
    obtain ⟨hfirst, hothers⟩ := List.forall_mem_cons.mp hfront
    exact List.pairwise_cons.mpr ⟨fun other _ => hfirst other, ih hothers⟩

variable {tree : Tree} {row : List Tree}

theorem BuiltOf.lastDefault (hbuilt : tree.BuiltOf .switchStatement row) (hrow : LastDefault row) :
    LastDefault tree.children := by
  refine hbuilt.pairwise hrow fun earlier later htrivia hdefault => ?_
  obtain htrivia | htrivia := htrivia
  · rw [isTrivia_of_isNode (Bool.and_eq_true_iff.mp hdefault).1] at htrivia
    exact nomatch htrivia
  · cases later with
    | token => rfl
    | node => exact nomatch htrivia

theorem BuiltOf.lastVariadic (hbuilt : tree.BuiltOf .parameters row) (hrow : LastVariadic row) :
    LastVariadic tree.children := by
  refine hbuilt.pairwise hrow fun earlier later htrivia hvariadic => ?_
  obtain htrivia | htrivia := htrivia
  · have hnode : isNodeOf .parameter earlier = true := (Bool.and_eq_true_iff.mp hvariadic).1
    rw [isTrivia_of_isNode (Bool.and_eq_true_iff.mp hnode).1] at htrivia
    exact nomatch htrivia
  · cases later with
    | token => rfl
    | node => exact nomatch htrivia

theorem lastDefault_of_switch {words last : List Word} (hbuilt : tree.BuiltOf .switchStatement row)
    (hbody : Derives [.word .kwSwitch, .part .header, .word .braceOpen, .part .switchClauses, .word .braceClose] words
      last row) : LastDefault tree.children := by
  obtain ⟨keyword, _, rfl, -, _, _, rfl, ⟨⟨left, value, right, rfl, -, hvalue, -⟩, -⟩, brace, _, rfl, -, clauses, _, rfl,
    ⟨-, hclauses⟩, close, _, rfl, -, rfl⟩ := hbody.rowOfLists
  refine hbuilt.lastDefault ?_
  show LastDefault ([token keyword, token left, value, token right, token brace] ++ (clauses ++ [token close]))
  refine pairwise_of_front ?_ ?_
  · have hexpression : isNodeOf .defaultStatement value = false := by
      obtain ⟨hnode, hkind⟩ := Bool.and_eq_true_iff.mp hvalue
      refine Bool.and_eq_false_iff.mpr (.inr (beq_eq_false_iff_ne.mpr fun hdefault => ?_))
      rw [hdefault] at hkind
      exact nomatch hkind
    intro part hmem other hdefault
    simp only [List.mem_cons, List.not_mem_nil, or_false] at hmem
    obtain rfl | rfl | rfl | rfl | rfl := hmem
    · exact nomatch hdefault
    · exact nomatch hdefault
    · rw [hexpression] at hdefault
      exact nomatch hdefault
    · exact nomatch hdefault
    · exact nomatch hdefault
  · refine List.pairwise_append.mpr ⟨hclauses.imp fun hplain hdefault => ?_, List.pairwise_singleton .., fun _ _ => ?_⟩
    · rw [hplain] at hdefault
      exact nomatch hdefault
    · exact List.forall_mem_singleton.mpr fun _ => rfl

theorem lastVariadic_of_parameters {words last : List Word} (hbuilt : tree.BuiltOf .parameters row)
    (hbody : Derives [.word .parenOpen, .part .parameterList, .word .parenClose] words last row) :
    LastVariadic tree.children := by
  obtain ⟨left, _, rfl, -, list, _, rfl, ⟨-, -, hlast⟩, right, _, rfl, -, rfl⟩ := hbody.rowOfLists
  refine hbuilt.lastVariadic (List.pairwise_cons.mpr ⟨fun _ _ => nofun, ?_⟩)
  refine List.pairwise_append.mpr ⟨hlast, List.pairwise_singleton .., fun _ _ => ?_⟩
  exact List.forall_mem_singleton.mpr fun _ => rfl

/-- The last child of a node is a token of a kind. -/
def EndsWith (kind : Kind) (tree : Tree) : Prop := ∃ leaf, tree.children.getLast? = some (.token leaf) ∧ leaf.kind = kind

end Tree

/-- What a terminator ends is followed by its semicolon, or may end where it does. -/
theorem Derives.terminated (front : List Item) {words last : List Word} {row : List Tree}
    (hderives : Derives (front ++ [.part .terminator]) words last row) :
    (∃ leaf, row.getLast? = some (.token leaf) ∧ leaf.kind = .semicolon) ∨ Word.MayEnd last := by
  obtain ⟨middle, first, second, -, hterminator, rfl⟩ := hderives.split front
  obtain ⟨form, body, parts, hproduction, hbody, hform⟩ := hterminator.exists_production
  cases hproduction with
  | terminatorWord =>
    obtain rfl : second = parts := hform
    obtain ⟨leaf, _, rfl, hleaf, rfl⟩ := hbody.rowFits
    exact .inl ⟨leaf, List.getLast?_concat, hleaf⟩
  | terminatorPlace =>
    cases hbody with | check hplace hrest =>
    cases hrest
    exact .inr hplace.2

/-- The static rules, said of a node with some leaves behind it. -/
structure Tree.KeepsRules (tree : Tree) (after : List Leaf) : Prop where
  /-- A `switch` has at most one default, and it is the last clause. -/
  lastDefault : tree.kind = .switchStatement → LastDefault tree.children
  /-- At most one parameter is variadic, and it is the last. -/
  lastVariadic : tree.kind = .parameters → LastVariadic tree.children
  /-- `break` and `continue` have a semicolon. -/
  closed : tree.kind ∈ [.breakStatement, .continueStatement] → tree.EndsWith .semicolon
  /-- Constants and `yield` have one, or end with their line, their block or the input. -/
  terminated : tree.kind ∈ [.constDeclaration, .yieldStatement] → tree.EndsWith .semicolon ∨ Leaf.MayEndBefore after
  /-- No table stands where none is allowed. -/
  barred : ∀ part ∈ tree.barred, part.kind ≠ .table

/-- Other nodes have no rule to keep. -/
theorem Tree.keepsRules_of_kind {tree : Tree} (after : List Leaf)
    (hkind : tree.kind ∈ [.script, .integer, .float, .str, .verbatimStr, .char, .bool, .null]) :
    tree.KeepsRules after := by
  have hother : ∀ kind ∈ [Kind.script, .integer, .float, .str, .verbatimStr, .char, .bool, .null],
      kind ≠ .switchStatement ∧ kind ≠ .parameters ∧ kind ∉ [Kind.breakStatement, .continueStatement] ∧
        kind ∉ [Kind.constDeclaration, .yieldStatement] ∧ ∀ expressions, kind.barred expressions = [] := by
    simp [Kind.barred]
  obtain ⟨hswitch, hparameters, hjump, hterminated, hbarred⟩ := hother tree.kind hkind
  refine ⟨fun h => absurd h hswitch, fun h => absurd h hparameters, fun h => absurd h hjump,
    fun h => absurd h hterminated, ?_⟩
  rw [barred, hbarred]
  nofun

/-- A node that a production builds keeps the rules, if it ends with a word in front of the words that are left. -/
theorem Production.keepsRules {phrase : Phrase} {kind : Kind} {body : List Item} {words : List Word}
    {tokens : List Token} {row : List Tree} {tree : Tree} (hproduction : Production phrase (.node kind) body)
    (hbody : Derives body words (Word.ofTokens false true tokens) row) (hbuilt : tree.BuiltOf kind row)
    (hends : tree.EndsWithWord) : tree.KeepsRules (tokens.map Token.leaf) := by
  have hconsists := hproduction.consistsOf
  have hbarred := hproduction.barred hbody hbuilt
  have hlast (hrow : ∃ leaf, row.getLast? = some (.token leaf) ∧ leaf.kind = .semicolon) : tree.EndsWith .semicolon := by
    obtain ⟨leaf, hleaf, hkind⟩ := hrow
    exact ⟨leaf, hbuilt.getLast?_children hends hleaf, hkind⟩
  have hterminated (front : List Item) (hterminator : body = front ++ [.part .terminator]) :
      tree.EndsWith .semicolon ∨ Leaf.MayEndBefore (tokens.map Token.leaf) := by
    rw [hterminator] at hbody
    obtain hrow | hplace := hbody.terminated front
    · exact .inl (hlast hrow)
    · obtain hfalse | hplace := hplace.mayEndBefore
      · exact nomatch hfalse
      · exact .inr hplace
  have hkind := hbuilt.kind_eq
  constructor
  case barred => exact hbarred
  all_goals
    intro hof
    rw [hkind] at hof
  case lastDefault =>
    subst hof
    obtain rfl := hconsists
    exact lastDefault_of_switch hbuilt hbody
  case lastVariadic =>
    subst hof
    obtain rfl := hconsists
    exact lastVariadic_of_parameters hbuilt hbody
  case closed =>
    obtain ⟨keyword, rfl⟩ : ∃ keyword, body = [.word keyword, .word .semicolon] := by
      obtain rfl | rfl : kind = .breakStatement ∨ kind = .continueStatement := by simpa using hof
      · exact hconsists
      · exact hconsists
    obtain ⟨_, _, rfl, -, leaf, _, rfl, hleaf, rfl⟩ := hbody.rowFits
    exact hlast ⟨leaf, rfl, hleaf⟩
  case terminated =>
    obtain rfl | rfl : kind = .constDeclaration ∨ kind = .yieldStatement := by simpa using hof
    · exact hterminated _ hconsists
    · exact hterminated _ hconsists

/-! ### Scripts -/

/-- All nodes of a valid script keep the static rules. -/
theorem Script.keepsRules_of_parse {source : String} {limits : Limits} {script : Script}
    (hparse : Script.parse source limits = .ok script) (hvalid : script.isValid = true) {tree : Tree}
    {before after : List Leaf} (hbetween : tree.Between before after script.root) (hnode : tree.isNode = true) :
    tree.KeepsRules after := by
  have hclean := diagnostics_eq_nil hvalid
  obtain rfl | ⟨⟨_, hends, -⟩, tokens, rfl, afterBreak, joined, phrase, form, body, row, hproduction, hbody, hform⟩ :=
    Script.builtBehind_of_parse hparse hclean hbetween hnode
  · obtain ⟨⟨parts, -, hroot⟩, -⟩ := Script.derives_of_parse hparse hclean
    exact keepsRules_of_kind after (by rw [hroot.kind_eq]; decide)
  · cases form with
    | bare => exact hform.elim
    | node kind => exact hproduction.keepsRules hbody hform hends
    | tight kind =>
      obtain rfl : tree = .node kind row := hform
      exact keepsRules_of_kind _ (List.mem_cons_of_mem _ hproduction.mem_of_tight)

/-- A `yield` without a semicolon ends with its block. -/
theorem Script.keepsRules_of_yield :
    ∃ (script : Script) (tree : Tree) (before after : List Leaf),
      Script.parse "switch (a) { default: yield a }" .unbounded = .ok script ∧
      script.isValid = true ∧ tree.Between before after script.root ∧ tree.isNode = true ∧
      tree.kind = .yieldStatement ∧ ¬tree.EndsWith .semicolon ∧ tree.KeepsRules after ∧ Leaf.MayEndBefore after := by
  have houtcome : (Script.outcome? "switch (a) { default: yield a }" .unbounded).any
      (fun outcome => outcome.2 && outcome.1.places.any fun place => place.tree.kind == .yieldStatement &&
        place.tree.children.getLast?.any Tree.isNode) = true := by decide +kernel
  obtain ⟨script, clean, hparse, hclean, htest⟩ := Script.exists_of_outcome houtcome
  simp only [Bool.and_eq_true, List.any_eq_true, beq_iff_eq] at htest
  obtain ⟨htrue, place, hplace, hkind, hlast⟩ := htest
  have hvalid : script.isValid = true := by rw [isValid, hclean htrue]; rfl
  obtain ⟨hwithin, hnode⟩ := within_of_mem_placesFrom hplace
  obtain ⟨before, after, hbetween⟩ := hwithin.exists_between
  have hopen : ¬place.tree.EndsWith .semicolon := by
    rintro ⟨leaf, hleaf, -⟩
    rw [hleaf] at hlast
    cases hlast
  have hrules := Script.keepsRules_of_parse hparse hvalid hbetween hnode
  exact ⟨script, place.tree, before, after, hparse, hvalid, hbetween, hnode, hkind, hopen, hrules,
    (hrules.terminated (by rw [hkind]; decide)).resolve_left hopen⟩

end Squirrel
