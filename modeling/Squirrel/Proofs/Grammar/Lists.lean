import Squirrel.Proofs.Grammar.Grouping
import Squirrel.Proofs.Grammar.Origin
import Squirrel.Proofs.Parse.Evaluation

/-!
# Lists

Arguments, parameters and the entries of an enum are separated by commas, and one more comma may stand behind the last.
Attributes are no such list: behind each of them a comma may stand or be missing. No list begins with a comma or has two
in a row.
-/

namespace Squirrel

open Squirrel.Tree

namespace Tree

/-- Items with one comma between each two, and maybe one behind the last. -/
inductive Separated (test : Tree → Bool) : List Tree → Prop where
  | nil : Separated test []
  | last {item : Tree} (hitem : test item = true) : Separated test [item]
  | more {item : Tree} {comma : Leaf} {rest : List Tree} (hitem : test item = true) (hcomma : comma.kind = .comma)
      (hrest : Separated test rest) : Separated test (item :: .token comma :: rest)

/-- Items with at most one comma behind each. -/
inductive Trailed (test : Tree → Bool) : List Tree → Prop where
  | nil : Trailed test []
  | bare {item : Tree} {rest : List Tree} (hitem : test item = true) (hrest : Trailed test rest) :
      Trailed test (item :: rest)
  | comma {item : Tree} {comma : Leaf} {rest : List Tree} (hitem : test item = true) (hcomma : comma.kind = .comma)
      (hrest : Trailed test rest) : Trailed test (item :: .token comma :: rest)

/-- A row between two delimiters. -/
def Enclosed (opening closing : Kind) (inside : List Tree → Prop) (row : List Tree) : Prop :=
  ∃ left list right, row = .token left :: (list ++ [.token right]) ∧ left.kind = opening ∧ right.kind = closing ∧
    inside list

theorem IsArguments.separated {row : List Tree} (harguments : IsArguments row) : Separated isExpression row := by
  induction harguments with
  | nil => exact .nil
  | last hargument => exact .last hargument
  | more hargument hcomma _ ih => exact .more hargument hcomma ih

/-- A parameter that takes all further arguments. -/
def isVariadic (tree : Tree) : Bool := isNodeOf .parameter tree && tree.hasToken .ellipsis

/-- Nothing but tokens follows a variadic parameter. -/
def LastVariadic (row : List Tree) : Prop := row.Pairwise fun earlier later => earlier.isVariadic = true → later.isNode = false

/-- A clause of a `switch`. -/
def isClause (tree : Tree) : Bool := isNodeOf .caseStatement tree || isNodeOf .defaultStatement tree

/-- No clause follows a default. -/
def LastDefault (row : List Tree) : Prop :=
  row.Pairwise fun earlier later => isNodeOf .defaultStatement earlier = true → later.isClause = false

theorem isNodeOf_eq_false {kind found : Kind} {tree : Tree} (hnode : isNodeOf kind tree = true) (hother : kind ≠ found) :
    isNodeOf found tree = false := by
  obtain ⟨-, hkind⟩ := Bool.and_eq_true_iff.mp hnode
  rw [isNodeOf, beq_iff_eq.mp hkind, beq_eq_false_iff_ne.mpr hother, Bool.and_false]

theorem BuiltOf.isNodeOf_kind {tree : Tree} {kind : Kind} {row : List Tree} (hbuilt : tree.BuiltOf kind row) :
    isNodeOf kind tree = true := by
  rw [Tree.isNodeOf, hbuilt.isNode, hbuilt.kind_eq, beq_self_eq_true]
  rfl

/-- An order of nodes that holds in the row of a node holds among all its children. -/
theorem BuiltOf.pairwise {tree : Tree} {kind : Kind} {row : List Tree} {ordered : Tree → Tree → Prop}
    (hbuilt : tree.BuiltOf kind row) (hrow : row.Pairwise ordered)
    (htrivia : ∀ earlier later : Tree, earlier.isTrivia = true ∨ later.isTrivia = true → ordered earlier later) :
    tree.children.Pairwise ordered := by
  rw [← hbuilt.filter_children, List.pairwise_filter] at hrow
  refine hrow.imp fun {earlier later} hordered => ?_
  cases hearlier : earlier.isTrivia with
  | true => exact htrivia earlier later (.inl hearlier)
  | false =>
    cases hlater : later.isTrivia with
    | true => exact htrivia earlier later (.inr hlater)
    | false => exact hordered (by simp [hearlier]) (by simp [hlater])

end Tree

/-! ### Rows of a grammar -/

/-- What the trees of a row of items are, by what those of each phrase are. -/
def RowOf (fits : Phrase → List Tree → Prop) : List Item → List Tree → Prop
  | [], row => row = []
  | .word kind :: items, row => ∃ leaf rest, row = .token leaf :: rest ∧ leaf.kind = kind ∧ RowOf fits items rest
  | .wordIn accepts :: items, row =>
    ∃ leaf rest, row = .token leaf :: rest ∧ accepts leaf.kind = true ∧ RowOf fits items rest
  | .check _ :: items, row => RowOf fits items row
  | .part phrase :: items, row => ∃ placed rest, row = placed ++ rest ∧ fits phrase placed ∧ RowOf fits items rest

/-- What holds of the trees of each phrase if it holds of those of its parts holds in every derivation. -/
theorem Derives.rowOf {fits : Phrase → List Tree → Prop}
    (hfits : ∀ {phrase : Phrase} {form : Form} {body : List Item} {parts placed : List Tree},
      Production phrase form body → RowOf fits body parts → form.Holds parts placed → fits phrase placed)
    {items : List Item} {words last : List Word} {row : List Tree} (hderives : Derives items words last row) :
    RowOf fits items row := by
  induction hderives with
  | nil => rfl
  | word hkind _ ih => exact ⟨_, _, rfl, hkind, ih⟩
  | wordIn hkind _ ih => exact ⟨_, _, rfl, hkind, ih⟩
  | check _ _ ih => exact ih
  | part hproduction _ hform _ ihbody ih => exact ⟨_, _, rfl, hfits hproduction ihbody hform, ih⟩

theorem RowOf.rowFits {fits : Phrase → List Tree → Prop} (hfits : ∀ phrase row, fits phrase row → phrase.Fits row)
    {items : List Item} {row : List Tree} (hrow : RowOf fits items row) : RowFits items row := by
  induction items generalizing row with
  | nil => exact hrow
  | cons item items ih =>
    cases item with
    | word | wordIn =>
      obtain ⟨leaf, rest, rfl, hleaf, hrest⟩ := hrow
      exact ⟨leaf, rest, rfl, hleaf, ih hrest⟩
    | check => exact ih (show RowOf fits items row from hrow)
    | part phrase =>
      obtain ⟨placed, rest, rfl, hplaced, hrest⟩ := hrow
      exact ⟨placed, rest, rfl, hfits phrase placed hplaced, ih hrest⟩

/-! ### Phrases that are lists -/

/-- What the lists of the grammar and their items are. -/
def Phrase.Lists (phrase : Phrase) (row : List Tree) : Prop :=
  match phrase with
  | optional kind => row = [] ∨ ∃ leaf, row = [.token leaf] ∧ leaf.kind = kind
  | parameter => One (fun tree => isNodeOf .parameter tree && !tree.isVariadic) row
  | variadic => One (isNodeOf .parameter) row
  | parameterList => Separated (isNodeOf .parameter) row ∧ LastVariadic row
  | attributeEntry => One (isNodeOf .attributeEntry) row
  | attributeList => Trailed (isNodeOf .attributeEntry) row
  | enumEntry => One (isNodeOf .enumEntry) row
  | enumEntries => Separated (isNodeOf .enumEntry) row
  | caseClause => One (isNodeOf .caseStatement) row
  | defaultClause => One (isNodeOf .defaultStatement) row
  | switchClauses => row.Pairwise fun earlier _ => isNodeOf .defaultStatement earlier = false
  | _ => True

/-- A phrase fits, as a list too. -/
def Phrase.FitsList (phrase : Phrase) (row : List Tree) : Prop := phrase.Fits row ∧ phrase.Lists row

/-- A parameter with a name, and maybe a value, is not variadic. -/
theorem not_isVariadic_of_named {tree : Tree} {name : Leaf} {rest : List Tree} (hbuilt : tree.BuiltOf .parameter (.token name :: rest))
    (hname : name.kind = .id) (hvalue : SignedValue (· == .equals) rest) : tree.isVariadic = false := by
  have hleaves : ∀ leaf ∈ leavesIn rest, leaf.kind = .equals := by
    obtain rfl | ⟨sign, value, rfl, hsign, hexpression⟩ := hvalue
    · nofun
    · intro leaf hmem
      simp only [leavesIn, List.filterMap_cons, leaf?_token,
        leaf?_of_isNode (Bool.and_eq_true_iff.mp hexpression).1, List.filterMap_nil, List.mem_singleton] at hmem
      rw [hmem]
      exact beq_iff_eq.mp hsign
  have hnone : tree.hasToken .ellipsis = false := by
    rw [hbuilt.hasToken_eq rfl, List.any_eq_false]
    intro leaf hmem
    obtain rfl | hmem := List.mem_cons.mp (show leaf ∈ name :: leavesIn rest from hmem)
    · simp [hname]
    · simp [hleaves leaf hmem]
  rw [isVariadic, hnone, Bool.and_false]

theorem Production.lists {phrase : Phrase} {form : Form} {body : List Item} {parts placed : List Tree}
    (hproduction : Production phrase form body) (hparts : RowOf Phrase.FitsList body parts)
    (hform : form.Holds parts placed) : phrase.Lists placed := by
  cases hproduction
  all_goals try exact trivial
  all_goals try exact hform.one_node
  case parameter =>
    obtain ⟨tree, hbuilt, rfl⟩ := hform
    obtain ⟨name, rest, rfl, hname, value, _, rfl, hvalue, rfl⟩ := hparts
    rw [List.append_nil] at hbuilt
    refine ⟨tree, rfl, ?_⟩
    show (isNodeOf .parameter tree && !tree.isVariadic) = true
    rw [hbuilt.isNodeOf_kind, not_isVariadic_of_named hbuilt hname hvalue.1]
    rfl
  -- all others are bare: what they place is what their parts place
  all_goals
    obtain rfl : placed = parts := hform
  case noToken => exact .inl hparts
  case someToken =>
    obtain ⟨leaf, _, rfl, hleaf, rfl⟩ := hparts
    exact .inr ⟨leaf, rfl, hleaf⟩
  case parametersEnd =>
    obtain rfl : placed = [] := hparts
    exact ⟨.nil, .nil⟩
  case lastParameter =>
    obtain ⟨_, _, rfl, ⟨-, parameter, rfl, hparameter⟩, rfl⟩ := hparts
    exact ⟨.last (Bool.and_eq_true_iff.mp hparameter).1, List.pairwise_singleton ..⟩
  case moreParameters =>
    obtain ⟨_, _, rfl, ⟨-, parameter, rfl, hparameter⟩, comma, _, rfl, hcomma, rest, _, rfl, ⟨-, hseparated, hlast⟩,
      rfl⟩ := hparts
    obtain ⟨hnode, hplain⟩ := Bool.and_eq_true_iff.mp hparameter
    have hplain : parameter.isVariadic = false := by simpa using hplain
    rw [List.append_nil]
    refine ⟨.more hnode hcomma hseparated, List.pairwise_cons.mpr ⟨fun _ _ hvariadic => ?_, ?_⟩⟩
    · rw [hplain] at hvariadic
      exact nomatch hvariadic
    · exact List.pairwise_cons.mpr ⟨nofun, hlast⟩
  case lastVariadic =>
    obtain ⟨_, _, rfl, ⟨-, parameter, rfl, hparameter⟩, _, _, rfl, ⟨-, hcomma⟩, rfl⟩ := hparts
    obtain rfl | ⟨comma, rfl, hcomma⟩ := hcomma
    · exact ⟨.last hparameter, List.pairwise_singleton ..⟩
    · exact ⟨.more hparameter hcomma .nil, List.pairwise_pair.mpr fun _ => rfl⟩
  case attributesEnd =>
    obtain rfl : placed = [] := hparts
    exact .nil
  case attributesMore =>
    obtain ⟨_, _, rfl, ⟨-, entry, rfl, hentry⟩, _, _, rfl, ⟨-, hcomma⟩, rest, _, rfl, ⟨-, hrest⟩, rfl⟩ := hparts
    rw [List.append_nil]
    obtain rfl | ⟨comma, rfl, hcomma⟩ := hcomma
    · exact .bare hentry hrest
    · exact .comma hentry hcomma hrest
  case enumEnd =>
    obtain rfl : placed = [] := hparts
    exact .nil
  case lastEntry =>
    obtain ⟨_, _, rfl, ⟨-, entry, rfl, hentry⟩, rfl⟩ := hparts
    exact .last hentry
  case moreEntries =>
    obtain ⟨_, _, rfl, ⟨-, entry, rfl, hentry⟩, comma, _, rfl, hcomma, rest, _, rfl, ⟨-, hrest⟩, rfl⟩ := hparts
    rw [List.append_nil]
    exact .more hentry hcomma hrest
  case switchEnd =>
    obtain rfl : placed = [] := hparts
    exact .nil
  case switchCase =>
    obtain ⟨_, _, rfl, ⟨-, clause, rfl, hclause⟩, rest, _, rfl, ⟨-, hrest⟩, rfl⟩ := hparts
    rw [List.append_nil]
    exact List.pairwise_cons.mpr ⟨fun _ _ => isNodeOf_eq_false hclause (by decide), hrest⟩
  case switchDefault =>
    obtain ⟨_, _, rfl, ⟨-, clause, rfl, hclause⟩, rfl⟩ := hparts
    exact List.pairwise_singleton ..

theorem Derives.rowOfLists {items : List Item} {words last : List Word} {row : List Tree}
    (hderives : Derives items words last row) : RowOf Phrase.FitsList items row :=
  hderives.rowOf fun hproduction hparts hform =>
    ⟨hproduction.fits (hparts.rowFits fun _ _ => And.left) hform, hproduction.lists hparts hform⟩

/-! ### Nodes around lists -/

namespace Tree

/-- The list between the delimiters of a node. The entries of an enum stand behind its name and its attributes. -/
def HoldsList (tree : Tree) : Prop :=
  match tree.kind with
  | .callArgs => Enclosed .parenOpen .parenClose (Separated isExpression) (items tree.children)
  | .parameters => Enclosed .parenOpen .parenClose (Separated (isNodeOf .parameter)) (items tree.children)
  | .attributeDeclaration =>
    Enclosed .attributeOpen .attributeClose (Trailed (isNodeOf .attributeEntry)) (items tree.children)
  | .enumDeclaration => ∃ before body after, items tree.children = before ++ (body ++ after) ∧
      (∀ part ∈ before ++ after, isNodeOf .enumEntry part = false) ∧
      Enclosed .braceOpen .braceClose (Separated (isNodeOf .enumEntry)) body
  | _ => True

/-- Nodes of other kinds hold no list. -/
theorem holdsList_of_kind {tree : Tree}
    (hkind : tree.kind ∉ [.callArgs, .parameters, .attributeDeclaration, .enumDeclaration]) : tree.HoldsList := by
  rw [HoldsList]
  generalize tree.kind = kind at hkind
  split
  all_goals trivial

end Tree

/-- An enum with its attributes, its entries and maybe a semicolon. -/
theorem holdsList_of_enum {tree : Tree} {keyword name left right : Leaf} {attributes entries semicolon : List Tree}
    (hbuilt : tree.BuiltOf .enumDeclaration (.token keyword :: .token name :: (attributes ++
      .token left :: (entries ++ .token right :: semicolon))))
    (hattributes : All (isNodeOf .attributeDeclaration) attributes) (hleft : left.kind = .braceOpen)
    (hentries : Separated (isNodeOf .enumEntry) entries) (hright : right.kind = .braceClose)
    (hsemicolon : All (isWordOf .semicolon) semicolon) : tree.HoldsList := by
  rw [HoldsList, hbuilt.kind_eq]
  refine ⟨.token keyword :: .token name :: attributes, .token left :: (entries ++ [.token right]), semicolon, ?_, ?_,
    left, entries, right, rfl, hleft, hright, hentries⟩
  · have hrow : items tree.children = _ := hbuilt.filter_children
    simpa using hrow
  · intro part hmem
    simp only [List.cons_append, List.mem_cons, List.mem_append] at hmem
    obtain rfl | rfl | hmem | hmem := hmem
    · rfl
    · rfl
    · exact isNodeOf_eq_false (hattributes part hmem) (by decide)
    · cases part with
      | token => rfl
      | node => exact nomatch hsemicolon _ hmem

theorem Production.holdsList {phrase : Phrase} {kind : Kind} {body : List Item} {row : List Tree} {tree : Tree}
    (hproduction : Production phrase (.node kind) body) (hparts : RowOf Phrase.FitsList body row)
    (hbuilt : tree.BuiltOf kind row) : tree.HoldsList := by
  have henclosed {opening closing : Kind} {inside : List Tree → Prop} {list : Phrase}
      (hbody : RowOf Phrase.FitsList [.word opening, .part list, .word closing] row)
      (hinside : ∀ placed, list.FitsList placed → inside placed) :
      Enclosed opening closing inside (items tree.children) := by
    obtain ⟨left, _, rfl, hleft, placed, _, rfl, hplaced, right, _, rfl, hright, rfl⟩ := hbody
    exact ⟨left, placed, right, hbuilt.filter_children, hleft, hright, hinside placed hplaced⟩
  have hkind := hbuilt.kind_eq
  by_cases hlist : tree.kind ∈ [.callArgs, .parameters, .attributeDeclaration, .enumDeclaration]
  · rw [hkind] at hlist
    cases hproduction
    case callArguments =>
      rw [HoldsList, hkind]
      exact henclosed hparts fun _ hplaced => IsArguments.separated hplaced.1
    case parameters =>
      rw [HoldsList, hkind]
      exact henclosed hparts fun _ hplaced => hplaced.2.1
    case attributes =>
      rw [HoldsList, hkind]
      exact henclosed hparts fun _ hplaced => hplaced.2
    case enumDeclaration =>
      obtain ⟨keyword, _, rfl, -, name, _, rfl, -, attributes, _, rfl, hattributes, left, _, rfl, hleft, entries, _,
        rfl, hentries, right, _, rfl, hright, semicolon, _, rfl, hsemicolon, rfl⟩ := hparts
      rw [List.append_nil] at hbuilt
      exact holdsList_of_enum hbuilt hattributes.1 hleft hentries.2 hright hsemicolon.1
    case chainSuffix found => exact absurd hlist (Grammar.forall_suffixNode (P := (· ∉ _)) found (by decide))
    case keyword hkeyword => exact absurd hlist (Grammar.forall_keywordNode? (P := (· ∉ _)) hkeyword (by decide))
    case jump hjump => exact absurd hlist (Grammar.forall_jumpNode? (P := (· ∉ _)) hjump (by decide))
    all_goals exact absurd hlist (by decide)
  · exact holdsList_of_kind hlist

/-! ### Scripts -/

/-- In every valid script arguments, parameters and the entries of an enum have one comma between each two and maybe one
behind the last, and attributes have at most one comma behind each. -/
theorem Script.holdsList_of_parse {source : String} {limits : Limits} {script : Script}
    (hparse : Script.parse source limits = .ok script) (hvalid : script.isValid = true) :
    ∀ tree : Tree, tree.Within script.root → tree.isNode = true → tree.HoldsList := by
  have hother : ∀ kind ∈ [Kind.script, .integer, .float, .str, .verbatimStr, .char, .bool, .null],
      kind ∉ [Kind.callArgs, .parameters, .attributeDeclaration, .enumDeclaration] := by decide
  exact Script.forall_nodes hparse (diagnostics_eq_nil hvalid) (fun tree hkind => holdsList_of_kind (hother _ hkind))
    fun hproduction hbody hbuilt => hproduction.holdsList hbody.rowOfLists hbuilt

/-- The arguments of `f(a,)` end with a comma, and the attributes `a = 1 b = 2` have none between them. -/
theorem Script.holdsList_of_trailing :
    ∃ (script : Script) (arguments attributes : Tree),
      Script.parse "f(a,); class A </ a = 1 b = 2 /> {}" .unbounded = .ok script ∧ script.isValid = true ∧
      (arguments.HoldsList ∧ (items arguments.children).map Tree.kind = [.parenOpen, .identifier, .comma, .parenClose]) ∧
      attributes.HoldsList ∧ (items attributes.children).map Tree.kind
        = [.attributeOpen, .attributeEntry, .attributeEntry, .attributeClose] := by
  have houtcome : (Script.outcome? "f(a,); class A </ a = 1 b = 2 /> {}" .unbounded).any (fun outcome => outcome.2 &&
      ((outcome.1.places.any fun place =>
        (items place.tree.children).map Tree.kind == [.parenOpen, .identifier, .comma, .parenClose]) &&
      outcome.1.places.any fun place => (items place.tree.children).map Tree.kind
        == [.attributeOpen, .attributeEntry, .attributeEntry, .attributeClose])) = true := by decide +kernel
  obtain ⟨script, clean, hparse, hclean, htest⟩ := Script.exists_of_outcome houtcome
  simp only [Bool.and_eq_true, List.any_eq_true, beq_iff_eq] at htest
  obtain ⟨htrue, ⟨first, hfirst, harguments⟩, second, hsecond, hattributes⟩ := htest
  have hvalid : script.isValid = true := by rw [isValid, hclean htrue]; rfl
  obtain ⟨hfirst, hfirstNode⟩ := within_of_mem_placesFrom hfirst
  obtain ⟨hsecond, hsecondNode⟩ := within_of_mem_placesFrom hsecond
  exact ⟨script, first.tree, second.tree, hparse, hvalid,
    ⟨Script.holdsList_of_parse hparse hvalid first.tree hfirst hfirstNode, harguments⟩,
    Script.holdsList_of_parse hparse hvalid second.tree hsecond hsecondNode, hattributes⟩

end Squirrel
