import Squirrel.Proofs.Grammar.Complete.Expression

/-!
# Complete statements
-/

namespace Squirrel

open Squirrel.Tree

variable {tree : Tree} {row : List Tree}

/-- Statements with an expression, a statement behind it or neither. -/
theorem isComplete_value {kind : Kind} {value : Tree} (hkind : kind ∈ [.expressionStatement, .throwStatement,
      .whileStatement, .switchStatement]) (hbuilt : tree.BuiltOf kind row) (hmem : value ∈ row)
    (hvalue : value.isExpression = true) : tree.IsComplete := by
  have hfirst : (tree.expression? 0).isSome :=
    hbuilt.expression?_isSome (List.length_pos_of_mem (List.mem_filter.mpr ⟨hmem, hvalue⟩))
  simp only [List.mem_cons, List.not_mem_nil, or_false] at hkind
  obtain rfl | rfl | rfl | rfl := hkind
  all_goals
    refine hbuilt.isComplete_statement rfl (fun found hfound => ?_) (by simp)
    rw [asStatement?, hbuilt.isNode, hbuilt.kind_eq] at hfound
    obtain rfl := Option.some.inj hfound
    exact hfirst

/-- Statements that ask for nothing. -/
theorem isComplete_jump {kind : Kind} (hkind : kind ∈ [.emptyStatement, .breakStatement, .continueStatement,
      .returnStatement, .yieldStatement]) (hbuilt : tree.BuiltOf kind row) : tree.IsComplete := by
  simp only [List.mem_cons, List.not_mem_nil, or_false] at hkind
  obtain rfl | rfl | rfl | rfl | rfl := hkind
  all_goals
    refine hbuilt.isComplete_statement rfl (fun found hfound => ?_) (by simp)
    rw [asStatement?, hbuilt.isNode, hbuilt.kind_eq] at hfound
    obtain rfl := Option.some.inj hfound
    exact trivial

theorem asStatement?_isSome (hstatement : tree.isStatement = true) : tree.asStatement?.isSome := by
  obtain ⟨hnode, hkind⟩ := Bool.and_eq_true_iff.mp hstatement
  cases tree with
  | token => exact nomatch hnode
  | node kind children =>
    rw [asStatement?]
    cases kind
    all_goals first
      | rfl
      | cases hkind

theorem Tree.BuiltOf.holdsStatements {kind : Kind} (hbuilt : tree.BuiltOf kind row)
    (hrow : ∀ part ∈ row, part.isNode = true → part.isStatement = true) : tree.HoldsStatements := by
  intro child hchild
  have hmem : child.tree ∈ row.filter Tree.isNode := by
    rw [← hbuilt.map_nodes]
    exact List.mem_map_of_mem hchild
  obtain ⟨hmem, hnode⟩ := List.mem_filter.mp hmem
  exact asStatement?_isSome (hrow _ hmem hnode)

theorem isComplete_block {left right : Leaf} {statements : List Tree}
    (hbuilt : tree.BuiltOf .block (.token left :: (statements ++ [.token right])))
    (hstatements : All isStatement statements) : tree.IsComplete := by
  refine hbuilt.isComplete_statement rfl (fun found hfound => ?_) fun _ => ?_
  · rw [asStatement?, hbuilt.isNode, hbuilt.kind_eq] at hfound
    obtain rfl := Option.some.inj hfound
    exact trivial
  · rw [PartsComplete, hbuilt.kind_eq]
    refine hbuilt.holdsStatements fun part hmem hnode => ?_
    simp only [List.mem_cons, List.mem_append, List.not_mem_nil, or_false] at hmem
    obtain rfl | hmem | rfl := hmem
    · cases hnode
    · exact hstatements part hmem
    · cases hnode

theorem isComplete_if {condition body : Tree} (hbuilt : tree.BuiltOf .ifStatement row) (hcondition : condition ∈ row)
    (hparenthesized : isNodeOf .parenthesizedExpression condition = true) (hbody : body ∈ row)
    (hstatement : body.isStatement = true) : tree.IsComplete := by
  refine hbuilt.isComplete_statement rfl (fun found hfound => ?_) nofun
  rw [asStatement?, hbuilt.isNode, hbuilt.kind_eq] at hfound
  obtain rfl := Option.some.inj hfound
  exact ⟨hbuilt.nodeOf?_isSome hcondition hparenthesized, hbuilt.statement?_isSome hbody hstatement⟩

theorem isComplete_doWhile {body condition : Tree} (hbuilt : tree.BuiltOf .doWhileStatement row) (hbody : body ∈ row)
    (hstatement : body.isStatement = true) (hcondition : condition ∈ row)
    (hexpression : condition.isExpression = true) : tree.IsComplete := by
  refine hbuilt.isComplete_statement rfl (fun found hfound => ?_) nofun
  rw [asStatement?, hbuilt.isNode, hbuilt.kind_eq] at hfound
  obtain rfl := Option.some.inj hfound
  exact ⟨hbuilt.statement?_isSome hbody hstatement,
    hbuilt.expression?_isSome (List.length_pos_of_mem (List.mem_filter.mpr ⟨hcondition, hexpression⟩))⟩

theorem isComplete_for {before after : List Tree} {close : Leaf} {body : Tree}
    (hbuilt : tree.BuiltOf .forStatement (before ++ .token close :: after)) (hclose : close.kind = .parenClose)
    (hbefore : ∀ other ∈ before, other.kind ≠ .parenClose) (hbody : body ∈ after)
    (hstatement : body.isStatement = true) : tree.IsComplete := by
  refine hbuilt.isComplete_statement rfl (fun found hfound => ?_) nofun
  rw [asStatement?, hbuilt.isNode, hbuilt.kind_eq] at hfound
  obtain rfl := Option.some.inj hfound
  exact hbuilt.statementAfterHeader?_isSome rfl hclose hbefore hbody hstatement

theorem isComplete_foreach {before after : List Tree} {close name : Leaf} {collection body : Tree}
    (hbuilt : tree.BuiltOf .foreachStatement (before ++ .token close :: after)) (hclose : close.kind = .parenClose)
    (hbefore : ∀ other ∈ before, other.kind ≠ .parenClose) (hmem : .token name ∈ before) (hname : name.kind = .id)
    (hcollection : collection ∈ before) (hexpression : collection.isExpression = true) (hbody : body ∈ after)
    (hstatement : body.isStatement = true) : tree.IsComplete := by
  refine hbuilt.isComplete_statement rfl (fun found hfound => ?_) nofun
  rw [asStatement?, hbuilt.isNode, hbuilt.kind_eq] at hfound
  obtain rfl := Option.some.inj hfound
  have hcollection := List.mem_append_left (.token close :: after) hcollection
  refine ⟨?_, hbuilt.expression?_isSome (List.length_pos_of_mem (List.mem_filter.mpr ⟨hcollection, hexpression⟩)),
    hbuilt.statementAfterHeader?_isSome rfl hclose hbefore hbody hstatement⟩
  have hvalue : name ∈ tree.tokensOf .id := by
    rw [hbuilt.tokensOf_eq rfl]
    exact List.mem_filter.mpr ⟨List.mem_filterMap.mpr ⟨_, List.mem_append_left _ hmem, rfl⟩, by simp [hname]⟩
  rw [foreachValue?, Option.isSome_iff_ne_none, ne_eq, List.getLast?_eq_none_iff]
  cases hnames : tree.tokensOf .id with
  | nil => simp [hnames] at hvalue
  | cons => simp

theorem isComplete_local {binding : Tree} (hbuilt : tree.BuiltOf .localDeclaration row) (hmem : binding ∈ row)
    (hbinding : isNodeOf .localBinding binding = true) : tree.IsComplete := by
  refine hbuilt.isComplete_statement rfl (fun found hfound => ?_) nofun
  rw [asStatement?, hbuilt.isNode, hbuilt.kind_eq] at hfound
  obtain rfl := Option.some.inj hfound
  intro hnone
  have hmem : binding ∈ (tree.nodesOf .localBinding).map Child.tree := by
    rw [hbuilt.map_nodesOf]
    exact List.mem_filter.mpr ⟨hmem, hbinding⟩
  simp [hnone] at hmem

/-- A name and a value. -/
theorem isComplete_definition {kind : Kind} {name : Leaf} {value : Tree}
    (hkind : kind = .varStatement ∨ kind = .constDeclaration) (hbuilt : tree.BuiltOf kind row)
    (hmem : .token name ∈ row) (hname : name.kind = .id) (hvalue : value ∈ row)
    (hexpression : value.isExpression = true) : tree.IsComplete := by
  have hfirst : (tree.expression? 0).isSome :=
    hbuilt.expression?_isSome (List.length_pos_of_mem (List.mem_filter.mpr ⟨hvalue, hexpression⟩))
  have hnamed : (tree.tokenOf? .id).isSome := hbuilt.name_isSome hmem hname
  obtain rfl | rfl := hkind
  all_goals
    refine hbuilt.isComplete_statement rfl (fun found hfound => ?_) (by simp)
    rw [asStatement?, hbuilt.isNode, hbuilt.kind_eq] at hfound
    obtain rfl := Option.some.inj hfound
    exact ⟨hnamed, hfirst⟩

theorem isComplete_function {name : Leaf} {parameters body : Tree} (hbuilt : tree.BuiltOf .functionDeclaration row)
    (hmem : .token name ∈ row) (hname : name.kind = .id) (hparameters : parameters ∈ row)
    (hnode : isNodeOf .parameters parameters = true) (hbody : body ∈ row) (hstatement : body.isStatement = true) :
    tree.IsComplete := by
  refine hbuilt.isComplete_statement rfl (fun found hfound => ?_) (by simp)
  rw [asStatement?, hbuilt.isNode, hbuilt.kind_eq] at hfound
  obtain rfl := Option.some.inj hfound
  refine ⟨fun hnone => ?_, hbuilt.nodeOf?_isSome hparameters hnode, hbuilt.statement?_isSome hbody hstatement⟩
  have hpath : name ∈ tree.tokensOf .id := by
    rw [hbuilt.tokensOf_eq rfl]
    exact List.mem_filter.mpr ⟨List.mem_filterMap.mpr ⟨_, hmem, rfl⟩, by simp [hname]⟩
  rw [show tree.tokensOf .id = [] from hnone] at hpath
  cases hpath

theorem isComplete_try {body handler : Tree} (hbuilt : tree.BuiltOf .tryStatement row) (hbody : body ∈ row)
    (hstatement : body.isStatement = true) (hmem : handler ∈ row)
    (hhandler : isNodeOf .catchStatement handler = true) : tree.IsComplete := by
  refine hbuilt.isComplete_statement rfl (fun found hfound => ?_) nofun
  rw [asStatement?, hbuilt.isNode, hbuilt.kind_eq] at hfound
  obtain rfl := Option.some.inj hfound
  exact ⟨hbuilt.statement?_isSome hbody hstatement, hbuilt.nodeOf?_isSome hmem hhandler⟩

theorem isComplete_enum {name : Leaf} (hbuilt : tree.BuiltOf .enumDeclaration row) (hmem : .token name ∈ row)
    (hname : name.kind = .id) : tree.IsComplete := by
  refine hbuilt.isComplete_statement rfl (fun found hfound => ?_) nofun
  rw [asStatement?, hbuilt.isNode, hbuilt.kind_eq] at hfound
  obtain rfl := Option.some.inj hfound
  exact hbuilt.name_isSome hmem hname

/-- A class has a name in front of what it extends and of its body. -/
theorem classPath_ne_nil {keyword name : Leaf} {rest : List Tree}
    (hbuilt : tree.BuiltOf .classDeclaration (.token keyword :: .token name :: rest)) (hkeyword : keyword.kind = .kwClass)
    (hname : name.kind = .id) : tree.classPath ≠ [] := by
  rw [hbuilt.classPath_eq]
  simp [leavesIn, leaf?, hkeyword, hname]

/-- What a class extends is the name behind `extends`. -/
theorem classBase?_isSome {before base after : List Tree}
    (hbuilt : tree.BuiltOf .classDeclaration (before ++ base ++ after)) (hbase : Phrase.base.Fits base)
    (hbefore : ∀ leaf ∈ leavesIn before, leaf.kind ≠ .kwExtends)
    (hafter : ∀ leaf ∈ leavesIn after, leaf.kind ≠ .kwExtends) (hextends : tree.hasToken .kwExtends = true) :
    tree.classBase?.isSome := by
  obtain rfl | ⟨sign, name, rfl, hsign, hname⟩ := hbase
  · rw [hbuilt.hasToken_eq rfl, List.any_eq_true] at hextends
    obtain ⟨leaf, hmem, hkind⟩ := hextends
    rw [List.append_nil, leavesIn, List.filterMap_append] at hmem
    obtain hmem | hmem := List.mem_append.mp hmem
    · exact absurd (beq_iff_eq.mp hkind) (hbefore leaf hmem)
    · exact absurd (beq_iff_eq.mp hkind) (hafter leaf hmem)
  · have hleaves : leavesIn (before ++ [.token sign, .token name] ++ after)
        = leavesIn before ++ sign :: name :: leavesIn after := by
      simp [leavesIn, leaf?]
    rw [hbuilt.classBase?_eq, hleaves, List.dropWhile_append_of_pos (by simpa using hbefore), List.dropWhile_cons]
    simp [hsign, hname]

theorem isComplete_class (hbuilt : tree.BuiltOf .classDeclaration row) (hpath : tree.classPath ≠ [])
    (hbase : tree.hasToken .kwExtends = true → tree.classBase?.isSome) : tree.IsComplete := by
  refine hbuilt.isComplete_statement rfl (fun found hfound => ?_) fun _ => ?_
  · rw [asStatement?, hbuilt.isNode, hbuilt.kind_eq] at hfound
    obtain rfl := Option.some.inj hfound
    exact hpath
  · rw [PartsComplete, hbuilt.kind_eq]
    exact hbase

end Squirrel
