import Squirrel.Proofs.Grammar.Complete.Part
import Squirrel.Proofs.Grammar.Complete.Statement
import Squirrel.Proofs.Grammar.Throughout
import Squirrel.Proofs.Grammar.Valid

/-!
# Valid scripts are complete

Each production that builds a node puts the parts under it that the view of that node looks for. So in a script without
a diagnostic no view lacks a part that the grammar asks for, no literal lacks its value, and nothing has been skipped.
One production is an exception: a constructor may have any statement for its body, and the view takes a member with a
function in it for a method.
-/

namespace Squirrel

open Squirrel.Tree

/-- The view of a constructor that is mistaken for a method has no body. -/
theorem Tree.IsComplete.not_mistaken {tree : Tree} (hcomplete : tree.IsComplete) : ¬tree.IsMistakenConstructor := by
  rintro ⟨hkind, hconstructor, hfunction⟩
  have hmember : tree.HoldsMember := by
    have hparts := hcomplete.parts
    rwa [PartsComplete, hkind] at hparts
  obtain ⟨-, hbody⟩ := hmember.2 hconstructor
  have hmethod : tree.memberKind = .method := by rw [memberKind, if_pos hfunction]
  simp [asMember, hmethod] at hbody

/-! ### Productions -/

theorem jumpNode_mem {keyword kind : Kind} (hjump : Grammar.jumpNode? keyword = some kind) :
    kind ∈ [.emptyStatement, .breakStatement, .continueStatement, .returnStatement, .yieldStatement] := by
  revert hjump
  fun_cases Grammar.jumpNode? keyword
  all_goals
    intro hjump
    cases hjump
  all_goals simp

/-- No word in the header of a loop closes it. -/
theorem ne_parenClose_of_all {test : Tree → Bool} {row : List Tree} (hall : All test row)
    (htest : ∀ tree : Tree, tree.kind = .parenClose → test tree = false) : ∀ tree ∈ row, tree.kind ≠ .parenClose := by
  intro tree hmem hkind
  have hpass := hall tree hmem
  rw [htest tree hkind] at hpass
  exact nomatch hpass

theorem isExpression_of_parenClose {tree : Tree} (hkind : tree.kind = .parenClose) : tree.isExpression = false := by
  rw [isExpression, hkind]
  exact Bool.and_false _

/-- Every node that a production builds is complete, but for a constructor that is mistaken for a method. -/
theorem Production.isComplete {phrase : Phrase} {kind : Kind} {body : List Item} {parts : List Tree} {tree : Tree}
    (hproduction : Production phrase (.node kind) body) (hparts : RowFits body parts) (hbuilt : tree.BuiltOf kind parts)
    (hclear : ¬tree.IsMistakenConstructor) : tree.IsComplete := by
  cases hproduction
  -- statements
  case block =>
    obtain ⟨left, _, rfl, -, statements, _, rfl, hstatements, right, _, rfl, -, rfl⟩ := hparts
    exact isComplete_block hbuilt hstatements
  case emptyStatement => exact isComplete_jump (by simp) hbuilt
  case ifStatement =>
    obtain ⟨_, _, rfl, -, _, _, rfl, ⟨condition, rfl, hcondition⟩, _, _, rfl, ⟨body, rfl, hbody⟩, -⟩ := hparts
    exact isComplete_if hbuilt (by simp) hcondition (by simp) hbody
  case elseClause =>
    obtain ⟨_, _, rfl, -, _, _, rfl, ⟨body, rfl, hbody⟩, -⟩ := hparts
    exact isComplete_else hbuilt (by simp) hbody
  case whileStatement =>
    obtain ⟨_, _, rfl, -, _, _, rfl, ⟨left, value, right, rfl, -, hvalue, -⟩, -⟩ := hparts
    exact isComplete_value (by simp) hbuilt (by simp) hvalue
  case doWhileStatement =>
    obtain ⟨_, _, rfl, -, _, _, rfl, ⟨body, rfl, hbody⟩, _, _, rfl, -, _, _, rfl,
      ⟨left, value, right, rfl, -, hvalue, -⟩, -⟩ := hparts
    exact isComplete_doWhile hbuilt (by simp) hbody (by simp) hvalue
  case forStatement =>
    obtain ⟨keyword, _, rfl, hkeyword, left, _, rfl, hleft, initial, _, rfl, hinitial, first, _, rfl, hfirst,
      condition, _, rfl, hcondition, second, _, rfl, hsecond, increment, _, rfl, hincrement, right, _, rfl, hright,
      _, _, rfl, ⟨body, rfl, hbody⟩, rfl⟩ := hparts
    have hheader : ∀ part ∈ .token keyword :: .token left :: (initial ++ .token first :: (condition ++
        .token second :: increment)), part.kind ≠ .parenClose := by
      have hinitial := ne_parenClose_of_all hinitial fun tree hkind => by
        rw [isExpression_of_parenClose hkind, isNodeOf, hkind]
        exact Bool.and_false _
      have hcondition := ne_parenClose_of_all hcondition fun tree => isExpression_of_parenClose
      have hincrement := ne_parenClose_of_all hincrement fun tree => isExpression_of_parenClose
      intro part hmem
      simp only [List.mem_cons, List.mem_append] at hmem
      obtain rfl | rfl | hmem | rfl | hmem | rfl | hmem := hmem
      · intro hkind
        cases hkeyword.symm.trans hkind
      · intro hkind
        cases hleft.symm.trans hkind
      · exact hinitial part hmem
      · intro hkind
        cases hfirst.symm.trans hkind
      · exact hcondition part hmem
      · intro hkind
        cases hsecond.symm.trans hkind
      · exact hincrement part hmem
    refine @isComplete_for tree _ [body] right body ?_ hright hheader (by simp) hbody
    simpa using hbuilt
  case headerLocal =>
    obtain ⟨_, _, rfl, -, _, _, rfl, ⟨first, rest, rfl, hfirst⟩, -⟩ := hparts
    exact isComplete_local hbuilt (by simp) hfirst
  case foreachStatement =>
    obtain ⟨keyword, _, rfl, hkeyword, left, _, rfl, hleft, bound, _, rfl, ⟨hbound, name, hname, hid⟩, sign, _,
      rfl, hsign, _, _, rfl, ⟨collection, rfl, hcollection⟩, right, _, rfl, hright, _, _, rfl, ⟨body, rfl, hbody⟩,
      rfl⟩ := hparts
    obtain ⟨word, hword, hleaf⟩ := List.mem_filterMap.mp hname
    have hheader : ∀ part ∈ .token keyword :: .token left :: (bound ++ [.token sign, collection]),
        part.kind ≠ .parenClose := by
      have hbound := ne_parenClose_of_all hbound fun tree hkind => by
        cases tree with
        | token leaf => simp [isWordOf, leaf?, show leaf.kind = .parenClose from hkind]
        | node => rfl
      intro part hmem
      simp only [List.mem_cons, List.mem_append, List.not_mem_nil, or_false] at hmem
      obtain rfl | rfl | hmem | rfl | rfl := hmem
      · intro hkind
        cases hkeyword.symm.trans hkind
      · intro hkind
        cases hleft.symm.trans hkind
      · exact hbound part hmem
      · intro hkind
        cases hsign.symm.trans hkind
      · intro hkind
        cases hcollection.symm.trans (isExpression_of_parenClose hkind)
    have hmem : Tree.token name ∈ .token keyword :: .token left :: (bound ++ [.token sign, collection]) := by
      cases word with
      | token leaf =>
        obtain rfl := Option.some.inj hleaf
        simp [hword]
      | node => cases hleaf
    refine @isComplete_foreach tree _ [body] right name collection body ?_ hright hheader hmem hid (by simp) hcollection
      (by simp) hbody
    simpa using hbuilt
  case switchStatement =>
    obtain ⟨_, _, rfl, -, _, _, rfl, ⟨left, value, right, rfl, -, hvalue, -⟩, -⟩ := hparts
    exact isComplete_value (by simp) hbuilt (by simp) hvalue
  case caseClause =>
    obtain ⟨_, _, rfl, -, _, _, rfl, ⟨value, rfl, hvalue⟩, -⟩ := hparts
    exact isComplete_case hbuilt (by simp) hvalue
  case jump hjump => exact isComplete_jump (jumpNode_mem hjump) hbuilt
  case returnStatement | yieldStatement => exact isComplete_jump (by simp) hbuilt
  case throwStatement =>
    obtain ⟨_, _, rfl, -, _, _, rfl, ⟨value, rfl, hvalue⟩, -⟩ := hparts
    exact isComplete_value (by simp) hbuilt (by simp) hvalue
  case localStatement =>
    obtain ⟨_, _, rfl, -, _, _, rfl, ⟨first, rest, rfl, hfirst⟩, -⟩ := hparts
    exact isComplete_local hbuilt (by simp) hfirst
  case varStatement | constDeclaration =>
    obtain ⟨_, _, rfl, -, name, _, rfl, hname, _, _, rfl, -, _, _, rfl, ⟨value, rfl, hvalue⟩, -⟩ := hparts
    exact isComplete_definition (by simp) hbuilt (by simp) hname (by simp) hvalue
  case tryStatement =>
    obtain ⟨_, _, rfl, -, _, _, rfl, ⟨body, rfl, hbody⟩, _, _, rfl, ⟨handler, rfl, hhandler⟩, -⟩ := hparts
    exact isComplete_try hbuilt (by simp) hbody (by simp) hhandler
  case expressionStatement =>
    obtain ⟨_, _, rfl, ⟨value, rfl, hvalue⟩, -⟩ := hparts
    exact isComplete_value (by simp) hbuilt (by simp) hvalue
  case functionDeclaration =>
    obtain ⟨_, _, rfl, -, name, _, rfl, hname, _, _, rfl, -, _, _, rfl, ⟨parameters, rfl, hparameters⟩, _, _, rfl,
      ⟨body, rfl, hbody⟩, -⟩ := hparts
    exact isComplete_function hbuilt (by simp) hname (by simp) hparameters (by simp) hbody
  case classDeclaration =>
    obtain ⟨keyword, _, rfl, hkeyword, name, _, rfl, hname, path, _, rfl, hpath, base, _, rfl, hbase, attributes, _,
      rfl, hattributes, left, _, rfl, hleft, members, _, rfl, hmembers, right, _, rfl, hright, rfl⟩ := hparts
    have hnodes : leavesIn members = [] :=
      List.filterMap_eq_nil_iff.mpr fun part hmem => leaf?_of_isNode (hmembers part hmem)
    refine isComplete_class hbuilt (classPath_ne_nil hbuilt hkeyword hname) ?_
    refine @classBase?_isSome tree (.token keyword :: .token name :: path) base
      (attributes ++ .token left :: (members ++ [.token right])) (by simpa using hbuilt) hbase ?_ ?_
    · intro leaf hmem
      simp only [leavesIn, List.filterMap_cons, leaf?_token, List.mem_cons] at hmem
      obtain rfl | rfl | hmem := hmem
      · intro hkind
        cases hkeyword.symm.trans hkind
      · intro hkind
        cases hname.symm.trans hkind
      · obtain ⟨part, hpart, hleaf⟩ := List.mem_filterMap.mp hmem
        have hword := hpath part hpart
        intro hkind
        simp [isWordOf, hleaf, hkind] at hword
    · rw [leavesIn_of_attributes hattributes]
      intro leaf hmem
      rw [show leavesIn (.token left :: (members ++ [.token right])) = [left, right] by
        simpa [leavesIn] using hnodes] at hmem
      simp only [List.mem_cons, List.not_mem_nil, or_false] at hmem
      obtain rfl | rfl := hmem
      · intro hkind
        cases hleft.symm.trans hkind
      · intro hkind
        cases hright.symm.trans hkind
  case enumDeclaration =>
    obtain ⟨_, _, rfl, -, name, _, rfl, hname, -⟩ := hparts
    exact isComplete_enum hbuilt (by simp) hname
  -- parts of statements and definitions
  case defaultClause | parameters | attributes | callArguments => exact isComplete_inert hbuilt (by simp)
  case binding =>
    obtain ⟨name, _, rfl, hname, hvalue⟩ := hparts
    exact isComplete_binding hbuilt hname hvalue.of_part
  case catchClause =>
    obtain ⟨_, _, rfl, -, _, _, rfl, -, name, _, rfl, hname, _, _, rfl, -, _, _, rfl, ⟨body, rfl, hbody⟩, -⟩ := hparts
    exact isComplete_catch hbuilt (by simp) hname (by simp) hbody
  case parameter =>
    obtain ⟨name, _, rfl, hname, hvalue⟩ := hparts
    exact isComplete_parameter hbuilt hname hvalue.of_part
  case variadic =>
    obtain ⟨dots, _, rfl, hdots, rfl⟩ := hparts
    exact isComplete_variadic hbuilt hdots
  case attributeEntry =>
    obtain ⟨name, _, rfl, hname, _, _, rfl, -, _, _, rfl, ⟨value, rfl, hvalue⟩, -⟩ := hparts
    exact isComplete_attribute hbuilt (by simp) hname (by simp) hvalue
  case enumEntry =>
    obtain ⟨name, _, rfl, hname, hvalue⟩ := hparts
    exact isComplete_enumEntry hbuilt hname hvalue.of_part
  case field =>
    obtain ⟨attributes, _, rfl, hattributes, static, _, rfl, hstatic, name, _, rfl, hname, equals, _, rfl, hequals, _, _,
      rfl, ⟨value, rfl, hvalue⟩, hafter⟩ := hparts
    exact isComplete_field hbuilt hattributes hstatic hname hequals hvalue hafter.of_part
  case computed =>
    obtain ⟨attributes, _, rfl, hattributes, left, _, rfl, hleft, _, _, rfl, ⟨key, rfl, hkey⟩, right, _, rfl, hright,
      equals, _, rfl, hequals, _, _, rfl, ⟨value, rfl, hvalue⟩, hafter⟩ := hparts
    exact isComplete_computed hbuilt hattributes hleft hkey hright hequals hvalue hafter.of_part
  case method =>
    obtain ⟨attributes, _, rfl, hattributes, _, _, rfl, ⟨function, rfl, hfunction⟩, rfl⟩ := hparts
    exact isComplete_method hbuilt hattributes hfunction
  case constructor =>
    obtain ⟨attributes, _, rfl, hattributes, keyword, _, rfl, hkeyword, _, _, rfl, ⟨parameters, rfl, hparameters⟩, _, _,
      rfl, ⟨body, rfl, hbody⟩, rfl⟩ := hparts
    exact isComplete_constructor hbuilt hattributes hkeyword hparameters hbody hclear
  case namedSlot =>
    obtain ⟨name, _, rfl, hname, equals, _, rfl, -, _, _, rfl, ⟨value, rfl, hvalue⟩, rfl⟩ := hparts
    exact isComplete_namedSlot hbuilt hname hvalue
  case computedSlot =>
    obtain ⟨left, _, rfl, hleft, _, _, rfl, ⟨key, rfl, hkey⟩, right, _, rfl, -, equals, _, rfl, -, _, _, rfl,
      ⟨value, rfl, hvalue⟩, rfl⟩ := hparts
    exact isComplete_computedSlot hbuilt hleft hkey hvalue
  case methodSlot =>
    obtain ⟨_, _, rfl, ⟨function, rfl, hfunction⟩, rfl⟩ := hparts
    exact isComplete_methodSlot hbuilt hfunction
  case keyedSlot =>
    obtain ⟨_, _, rfl, ⟨key, rfl, hkey⟩, colon, _, rfl, hcolon, _, _, rfl, ⟨value, rfl, hvalue⟩, rfl⟩ := hparts
    exact isComplete_keyedSlot hbuilt hcolon hkey hvalue
  -- expressions
  case chainSuffix =>
    obtain ⟨_, _, rfl, ⟨left, rfl, hleft⟩, hsuffix⟩ := hparts
    exact isComplete_suffix hbuilt hleft (RowFits.of_part hsuffix)
  case prefixed =>
    obtain ⟨sign, _, rfl, hsign, _, _, rfl, ⟨operand, rfl, hoperand⟩, rfl⟩ := hparts
    exact isComplete_unary hbuilt (by simp) hsign (by simp) hoperand
  case identifier =>
    obtain ⟨name, _, rfl, hname, rfl⟩ := hparts
    exact isComplete_name (.inl rfl) hbuilt (by simp) hname
  case globalVariable =>
    obtain ⟨_, _, rfl, -, name, _, rfl, hname, rfl⟩ := hparts
    exact isComplete_name (.inr rfl) hbuilt (by simp) hname
  case lambda =>
    obtain ⟨_, _, rfl, -, _, _, rfl, ⟨parameters, rfl, hparameters⟩, _, _, rfl, ⟨body, rfl, hbody⟩, rfl⟩ := hparts
    exact isComplete_lambda hbuilt (by simp) hparameters (by simp) hbody
  case anonymousFunction =>
    obtain ⟨_, _, rfl, -, _, _, rfl, ⟨parameters, rfl, hparameters⟩, _, _, rfl, ⟨body, rfl, hbody⟩, rfl⟩ := hparts
    exact isComplete_anonymousFunction hbuilt (by simp) hparameters (by simp) hbody
  case keyword hkeyword =>
    obtain ⟨_, _, rfl, -, _, _, rfl, ⟨operand, rfl, hoperand⟩, rfl⟩ := hparts
    exact isComplete_wrapper (.inr ⟨_, hkeyword⟩) hbuilt (by simp) hoperand
  case rawcall =>
    obtain ⟨keyword, _, rfl, hkeyword, _, _, rfl, ⟨arguments, rfl, harguments⟩, rfl⟩ := hparts
    exact isComplete_rawcall hbuilt hkeyword harguments
  case parenthesized =>
    obtain ⟨_, _, rfl, -, _, _, rfl, ⟨inner, rfl, hinner⟩, _, _, rfl, -, rfl⟩ := hparts
    exact isComplete_wrapper (.inl rfl) hbuilt (by simp) hinner
  case array => exact isComplete_collection (.inl rfl) hbuilt
  case table => exact isComplete_collection (.inr rfl) hbuilt

/-! ### Derivations -/

theorem isComplete_of_negative {kind literal : Kind} {words last : List Word} {parts : List Tree}
    (hkind : (kind = .integer ∧ literal = .integerLit) ∨ (kind = .float ∧ literal = .floatLit))
    (hbody : Derives [.check Word.NumberFollows, .word .minus, .word literal] words last parts)
    (hwritten : ∀ word ∈ words, word.leaf.WellWritten) : (Tree.node kind parts).IsComplete := by
  cases hbody with | check hfollows hbody =>
  cases hbody with | @word _ _ minus rest _ _ hminus hbody =>
  cases hbody with | @word _ _ number _ _ _ hnumber hbody =>
  cases hbody
  have hfolds : number.folds = true := hfollows
  have hdash : minus.leaf.text = "-" := by
    refine (hwritten minus List.mem_cons_self).spelled "-" ?_
    rw [show minus.leaf.kind = .minus from hminus]
    rfl
  refine isComplete_negative hdash (hwritten number (by simp)) (Bool.and_eq_true_iff.mp hfolds).2 ?_
  rwa [← hnumber] at hkind

/-- A literal that is built around its tokens has its value. -/
theorem isComplete_of_tight {phrase : Phrase} {kind : Kind} {body : List Item} {words last : List Word}
    {parts : List Tree} (hproduction : Production phrase (.tight kind) body) (hbody : Derives body words last parts)
    (hwritten : ∀ word ∈ words, word.leaf.WellWritten) : (Tree.node kind parts).IsComplete := by
  cases hproduction with
  | negativeInteger => exact isComplete_of_negative (.inl ⟨rfl, rfl⟩) hbody hwritten
  | negativeFloat => exact isComplete_of_negative (.inr ⟨rfl, rfl⟩) hbody hwritten
  | literal hliteral =>
    cases hbody with | @word _ _ word _ _ _ hkind hbody =>
    cases hbody
    exact isComplete_literal hliteral hkind (hwritten word List.mem_cons_self)

/-- All nodes that a derivation places are complete, but for constructors that are mistaken for a method. -/
theorem Derives.isComplete {items : List Item} {words last : List Word} {trees : List Tree}
    (hderives : Derives items words last trees) (hwritten : ∀ word ∈ words, word.leaf.WellWritten) :
    ∀ tree ∈ trees, tree.Throughout fun inner => inner.isNode = true → ¬inner.IsMistakenConstructor → inner.IsComplete := by
  intro tree hmem
  refine ((hderives.throughout ?_ ?_ ?_ hwritten).2 tree hmem).2
  · intro word _ hnode
    cases hnode
  · intro _ _ _ _ _ _ _ hproduction hbody _ _ hbuilt _ hclear
    exact hproduction.isComplete hbody.rowFits hbuilt hclear
  · intro _ _ _ _ _ _ hproduction hbody hwritten _ _ _
    exact isComplete_of_tight hproduction hbody hwritten

/-! ### Scripts -/

/-- In a script without a diagnostic exactly those nodes lack a part that are constructors with a function for a body,
and no token is left out of the grammar. -/
theorem Script.isComplete_iff_of_parse {source : String} {limits : Limits} {script : Script}
    (hparse : Script.parse source limits = .ok script) (hclean : script.diagnostics = []) :
    (∀ tree : Tree, tree.Within script.root → tree.isNode = true →
        (tree.IsComplete ↔ ¬tree.IsMistakenConstructor)) ∧
      ∀ leaf ∈ script.root.leaves, leaf.kind.isRejected = false := by
  obtain ⟨⟨parts, hderives, hroot⟩, hwords, hleaves⟩ := Script.derives_of_parse hparse hclean
  refine ⟨fun tree hwithin hnode => ⟨Tree.IsComplete.not_mistaken, ?_⟩, fun leaf hmem => (hleaves leaf hmem).accepted⟩
  have hstatements : All isStatement parts := hderives.rowFits.of_part
  refine hroot.throughout (fun _ _ => hroot.isComplete_part rfl rfl ?_) (hderives.isComplete hwords) tree hwithin hnode hnode
  rw [PartsComplete, hroot.kind_eq]
  exact hroot.holdsStatements fun part hmem _ => hstatements part hmem

/-- It says of a constructor with a function for a body that the view lacks that body. -/
theorem Script.incomplete_of_function_body :
    ∃ (script : Script) (tree : Tree),
      Script.parse "class A { constructor() function f() {} }" .unbounded = .ok script ∧ script.diagnostics = [] ∧
      tree.Within script.root ∧ tree.isNode = true ∧ ¬tree.IsComplete := by
  have houtcome : (Script.outcome? "class A { constructor() function f() {} }" .unbounded).any
      (fun outcome => outcome.2 && outcome.1.places.any fun place => decide place.tree.IsMistakenConstructor)
      = true := by decide +kernel
  obtain ⟨script, clean, hparse, hclean, htest⟩ := Script.exists_of_outcome houtcome
  obtain ⟨htrue, hany⟩ := Bool.and_eq_true_iff.mp htest
  obtain ⟨place, hplace, hmistaken⟩ := List.any_eq_true.mp hany
  obtain ⟨hwithin, hnode⟩ := within_of_mem_placesFrom hplace
  have hcomplete := (Script.isComplete_iff_of_parse hparse (hclean htrue)).1 place.tree hwithin hnode
  exact ⟨script, place.tree, hparse, hclean htrue, hwithin, hnode,
    fun hall => hcomplete.mp hall (of_decide_eq_true hmistaken)⟩

end Squirrel
