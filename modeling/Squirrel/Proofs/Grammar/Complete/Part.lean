import Squirrel.Proofs.Grammar.Complete.Expression

/-!
# Complete parts of statements and definitions
-/

namespace Squirrel

open Squirrel.Tree

variable {tree : Tree} {row : List Tree}

/-- Nodes that nothing is asked of. -/
theorem isComplete_inert {kind : Kind} (hbuilt : tree.BuiltOf kind row)
    (hkind : kind ∈ [.defaultStatement, .parameters, .attributeDeclaration, .callArgs]) : tree.IsComplete := by
  simp only [List.mem_cons, List.not_mem_nil, or_false] at hkind
  obtain rfl | rfl | rfl | rfl := hkind
  all_goals
    refine hbuilt.isComplete_part rfl rfl ?_
    rw [PartsComplete, hbuilt.kind_eq]
    exact trivial

theorem isComplete_else {body : Tree} (hbuilt : tree.BuiltOf .elseStatement row) (hbody : body ∈ row)
    (hstatement : body.isStatement = true) : tree.IsComplete := by
  refine hbuilt.isComplete_part rfl rfl ?_
  rw [PartsComplete, hbuilt.kind_eq]
  exact hbuilt.statement?_isSome hbody hstatement

theorem isComplete_case {value : Tree} (hbuilt : tree.BuiltOf .caseStatement row) (hvalue : value ∈ row)
    (hexpression : value.isExpression = true) : tree.IsComplete := by
  refine hbuilt.isComplete_part rfl rfl ?_
  rw [PartsComplete, hbuilt.kind_eq]
  exact hbuilt.expression?_isSome (List.length_pos_of_mem (List.mem_filter.mpr ⟨hvalue, hexpression⟩))

theorem isComplete_catch {name : Leaf} {body : Tree} (hbuilt : tree.BuiltOf .catchStatement row)
    (hmem : .token name ∈ row) (hname : name.kind = .id) (hbody : body ∈ row) (hstatement : body.isStatement = true) :
    tree.IsComplete := by
  refine hbuilt.isComplete_part rfl rfl ?_
  rw [PartsComplete, hbuilt.kind_eq]
  exact ⟨hbuilt.name_isSome hmem hname, hbuilt.statement?_isSome hbody hstatement⟩

/-! ### Names with values -/

/-- A name, and a value behind the sign that announces one. -/
theorem value_of_signedValue {kind : Kind} {accepts : Kind → Bool} {name : Leaf} {value : List Tree}
    (hbuilt : tree.BuiltOf kind (.token name :: value)) (hname : name.kind = .id)
    (hvalue : SignedValue accepts value) :
    (tree.tokenOf? .id).isSome ∧
      ((∃ leaf ∈ leavesIn (.token name :: value), leaf.kind ≠ .id) → (tree.expression? 0).isSome) := by
  refine ⟨hbuilt.name_isSome List.mem_cons_self hname, ?_⟩
  rintro ⟨leaf, hmem, hkind⟩
  obtain rfl | ⟨sign, inner, rfl, -, hinner⟩ := hvalue
  · simp only [leavesIn, List.filterMap_cons, leaf?, List.filterMap_nil, List.mem_singleton] at hmem
    exact absurd (hmem ▸ hname) hkind
  · exact hbuilt.expression?_isSome (by simp [hinner])

/-- A token that is there is among the leaves of the row. -/
theorem exists_leaf_of_tokenOf? {kind found : Kind} (hbuilt : tree.BuiltOf kind row)
    (hsome : (tree.tokenOf? found).isSome) (hword : found.isTrivia = false) (hid : found ≠ .id) :
    ∃ leaf ∈ leavesIn row, leaf.kind ≠ .id := by
  rw [hbuilt.tokenOf?_eq hword, List.find?_isSome] at hsome
  obtain ⟨leaf, hmem, hkind⟩ := hsome
  exact ⟨leaf, hmem, beq_iff_eq.mp hkind ▸ hid⟩

theorem isComplete_binding {name : Leaf} {value : List Tree}
    (hbuilt : tree.BuiltOf .localBinding (.token name :: value)) (hname : name.kind = .id)
    (hvalue : SignedValue Grammar.isBindingOperator value) : tree.IsComplete := by
  obtain ⟨hnamed, hvalued⟩ := value_of_signedValue hbuilt hname hvalue
  refine hbuilt.isComplete_part rfl rfl ?_
  rw [PartsComplete, hbuilt.kind_eq]
  refine ⟨hnamed, fun hoperator => hvalued ?_⟩
  have hsome : ((tree.tokenOf? .equals).or (tree.tokenOf? .newSlot)).isSome = true := hoperator
  rw [Option.isSome_or, Bool.or_eq_true] at hsome
  obtain hsome | hsome := hsome
  · exact exists_leaf_of_tokenOf? hbuilt hsome rfl (by simp)
  · exact exists_leaf_of_tokenOf? hbuilt hsome rfl (by simp)

theorem isComplete_parameter {name : Leaf} {value : List Tree}
    (hbuilt : tree.BuiltOf .parameter (.token name :: value)) (hname : name.kind = .id)
    (hvalue : SignedValue (· == .equals) value) : tree.IsComplete := by
  obtain ⟨hnamed, hvalued⟩ := value_of_signedValue hbuilt hname hvalue
  refine hbuilt.isComplete_part rfl rfl ?_
  rw [PartsComplete, hbuilt.kind_eq]
  exact ⟨.inl hnamed, fun hequals => hvalued (exists_leaf_of_tokenOf? hbuilt hequals rfl (by simp))⟩

theorem isComplete_variadic {dots : Leaf} (hbuilt : tree.BuiltOf .parameter [.token dots])
    (hdots : dots.kind = .ellipsis) : tree.IsComplete := by
  refine hbuilt.isComplete_part rfl rfl ?_
  rw [PartsComplete, hbuilt.kind_eq]
  refine ⟨.inr ?_, fun hequals => ?_⟩
  · exact (hbuilt.hasToken_eq rfl).trans (by simp [leavesIn, leaf?, hdots])
  · rw [hbuilt.hasToken_eq rfl] at hequals
    simp [leavesIn, leaf?, hdots] at hequals

theorem isComplete_enumEntry {name : Leaf} {value : List Tree}
    (hbuilt : tree.BuiltOf .enumEntry (.token name :: value)) (hname : name.kind = .id)
    (hvalue : SignedValue (· == .equals) value) : tree.IsComplete := by
  obtain ⟨hnamed, hvalued⟩ := value_of_signedValue hbuilt hname hvalue
  refine hbuilt.isComplete_part rfl rfl ?_
  rw [PartsComplete, hbuilt.kind_eq]
  exact ⟨hnamed, fun hequals => hvalued (exists_leaf_of_tokenOf? hbuilt hequals rfl (by simp))⟩

theorem isComplete_attribute {name : Leaf} {value : Tree} (hbuilt : tree.BuiltOf .attributeEntry row)
    (hmem : .token name ∈ row) (hname : name.kind = .id) (hvalue : value ∈ row)
    (hexpression : value.isExpression = true) : tree.IsComplete := by
  refine hbuilt.isComplete_part rfl rfl ?_
  rw [PartsComplete, hbuilt.kind_eq]
  exact ⟨hbuilt.name_isSome hmem hname,
    hbuilt.expression?_isSome (List.length_pos_of_mem (List.mem_filter.mpr ⟨hvalue, hexpression⟩))⟩

/-! ### Class members -/

theorem isNodeOf_of_isExpression {part : Tree} {kind : Kind} (hexpression : part.isExpression = true)
    (hkind : kind.isExpression = false) : isNodeOf kind part = false := by
  obtain ⟨-, hpart⟩ := Bool.and_eq_true_iff.mp hexpression
  rw [isNodeOf, Bool.and_eq_false_iff, beq_eq_false_iff_ne]
  refine .inr fun heq => ?_
  rw [heq, hkind] at hpart
  cases hpart

@[simp] theorem isNodeOf_token (kind : Kind) (leaf : Leaf) : isNodeOf kind (.token leaf) = false := rfl

/-- The leaves of a row that starts with attributes, which are nodes. -/
theorem leavesIn_of_attributes {attributes : List Tree} (hattributes : All (isNodeOf .attributeDeclaration) attributes)
    (rest : List Tree) : leavesIn (attributes ++ rest) = leavesIn rest := by
  have hnone : leavesIn attributes = [] := by
    refine List.filterMap_eq_nil_iff.mpr fun part hmem => ?_
    cases part with
    | token => exact nomatch hattributes _ hmem
    | node => rfl
  rw [leavesIn, List.filterMap_append]
  exact (congrArg (· ++ leavesIn rest) hnone).trans (List.nil_append _)

theorem any_of_attributes {attributes : List Tree} (hattributes : All (isNodeOf .attributeDeclaration) attributes)
    (rest : List Tree) :
    (attributes ++ rest).any (isNodeOf .functionDeclaration) = rest.any (isNodeOf .functionDeclaration) := by
  have hnone : attributes.any (isNodeOf .functionDeclaration) = false := by
    refine List.any_eq_false.mpr fun part hmem hfunction => ?_
    obtain ⟨-, hfound⟩ := Bool.and_eq_true_iff.mp hfunction
    obtain ⟨-, hkind⟩ := Bool.and_eq_true_iff.mp (hattributes part hmem)
    rw [beq_iff_eq.mp hkind] at hfound
    exact nomatch hfound
  rw [List.any_append, hnone, Bool.false_or]

theorem leavesIn_of_optional {kind : Kind} {placed : List Tree} (hplaced : All (isWordOf kind) placed) :
    ∀ leaf ∈ leavesIn placed, leaf.kind = kind := by
  intro leaf hmem
  obtain ⟨part, hpart, hleaf⟩ := List.mem_filterMap.mp hmem
  have hword := hplaced part hpart
  rw [isWordOf, hleaf] at hword
  exact beq_iff_eq.mp hword

theorem any_of_optional {kind found : Kind} {placed : List Tree} (hplaced : All (isWordOf kind) placed) :
    placed.any (isNodeOf found) = false := by
  refine List.any_eq_false.mpr fun part hmem hnode => ?_
  cases part with
  | token => exact nomatch hnode
  | node => exact nomatch hplaced _ hmem

section

variable {attributes rest : List Tree} (hbuilt : tree.BuiltOf .memberDeclaration (attributes ++ rest))
  (hattributes : All (isNodeOf .attributeDeclaration) attributes)

include hbuilt hattributes

/-- A member is a method as soon as a function with a name is part of it. -/
theorem memberKind_eq : tree.memberKind =
    if rest.any (isNodeOf .functionDeclaration) then .method
    else match (leavesIn rest).head?.map Leaf.kind with
      | some .kwConstructor => .constructor
      | some .bracketOpen => .computed
      | _ => .field := by
  have hfunction := hbuilt.nodeOf?_isSome_eq .functionDeclaration
  have hfirst := hbuilt.firstToken?_eq
  rw [any_of_attributes hattributes] at hfunction
  rw [leavesIn_of_attributes hattributes] at hfirst
  rw [← hfunction, ← hfirst]
  rfl

theorem hasToken_member {found : Kind} (hword : found.isTrivia = false) :
    tree.hasToken found = (leavesIn rest).any (·.kind == found) := by
  rw [hbuilt.hasToken_eq hword, leavesIn_of_attributes hattributes]

theorem isComplete_member (hmember : tree.asMember.IsComplete)
    (hplain : ∀ leaf ∈ leavesIn rest, leaf.kind ≠ .kwConstructor) : tree.IsComplete := by
  refine hbuilt.isComplete_part rfl rfl ?_
  rw [PartsComplete, hbuilt.kind_eq]
  refine ⟨hmember, fun hconstructor => ?_⟩
  rw [hasToken_member hbuilt hattributes rfl, List.any_eq_true] at hconstructor
  obtain ⟨leaf, hmem, hkind⟩ := hconstructor
  exact absurd (beq_iff_eq.mp hkind) (hplain leaf hmem)

end

theorem isComplete_field {attributes static after : List Tree} {name equals : Leaf} {value : Tree}
    (hbuilt : tree.BuiltOf .memberDeclaration
      (attributes ++ (static ++ .token name :: .token equals :: value :: after)))
    (hattributes : All (isNodeOf .attributeDeclaration) attributes) (hstatic : All (isWordOf .kwStatic) static)
    (hname : name.kind = .id) (hequals : equals.kind = .equals) (hvalue : value.isExpression = true)
    (hafter : All (isWordOf .semicolon) after) : tree.IsComplete := by
  have hleaves : ∀ leaf ∈ leavesIn (static ++ .token name :: .token equals :: value :: after),
      leaf.kind ∈ [.kwStatic, .id, .equals, .semicolon] := by
    obtain ⟨hnode, -⟩ := Bool.and_eq_true_iff.mp hvalue
    intro leaf hmem
    simp only [leavesIn, List.filterMap_append, List.filterMap_cons, leaf?_of_isNode hnode, leaf?_token, List.mem_append,
      List.mem_cons] at hmem
    obtain hmem | rfl | rfl | hmem := hmem
    · simp [leavesIn_of_optional hstatic leaf hmem]
    · simp [hname]
    · simp [hequals]
    · simp [leavesIn_of_optional hafter leaf hmem]
  have hfunction : isNodeOf .functionDeclaration value = false := isNodeOf_of_isExpression hvalue rfl
  have hkind : tree.memberKind = .field := by
    rw [memberKind_eq hbuilt hattributes, if_neg]
    · cases hhead : (leavesIn (static ++ .token name :: .token equals :: value :: after)).head? with
      | none => rfl
      | some leaf =>
        have hmem := hleaves leaf (List.mem_of_mem_head? hhead)
        simp only [List.mem_cons, List.not_mem_nil, or_false] at hmem
        obtain hmem | hmem | hmem | hmem := hmem
        all_goals rw [Option.map_some, hmem]
    · simp [any_of_optional hstatic, any_of_optional hafter, hfunction]
  refine isComplete_member hbuilt hattributes ?_ fun leaf hmem hconstructor => ?_
  · simp only [Member.IsComplete, asMember, hkind]
    exact ⟨hbuilt.name_isSome (by simp) hname,
      hbuilt.expression?_isSome (List.length_pos_of_mem (List.mem_filter.mpr ⟨by simp, hvalue⟩))⟩
  · exact absurd (hleaves leaf hmem) (by rw [hconstructor]; decide)

theorem isComplete_computed {attributes after : List Tree} {opener closer equals : Leaf} {key value : Tree}
    (hbuilt : tree.BuiltOf .memberDeclaration
      (attributes ++ (.token opener :: key :: .token closer :: .token equals :: value :: after)))
    (hattributes : All (isNodeOf .attributeDeclaration) attributes) (hopener : opener.kind = .bracketOpen)
    (hkey : key.isExpression = true) (hcloser : closer.kind = .bracketClose) (hequals : equals.kind = .equals)
    (hvalue : value.isExpression = true) (hafter : All (isWordOf .semicolon) after) : tree.IsComplete := by
  have hkeyed : isNodeOf .functionDeclaration key = false := isNodeOf_of_isExpression hkey rfl
  have hvalued : isNodeOf .functionDeclaration value = false := isNodeOf_of_isExpression hvalue rfl
  have hkind : tree.memberKind = .computed := by
    rw [memberKind_eq hbuilt hattributes, if_neg]
    · simp [leavesIn, hopener]
    · simp [any_of_optional hafter, hkeyed, hvalued]
  refine isComplete_member hbuilt hattributes ?_ fun leaf hmem hconstructor => ?_
  · have hsecond : 1 < (List.filter isExpression (attributes ++
        (.token opener :: key :: .token closer :: .token equals :: value :: after))).length := by
      simp only [List.filter_append, List.filter_cons, isExpression_token, hkey, hvalue, Bool.false_eq_true, if_true,
        if_false, List.length_append, List.length_cons]
      omega
    simp only [Member.IsComplete, asMember, hkind]
    exact ⟨hbuilt.expression?_isSome (Nat.lt_of_succ_lt hsecond), hbuilt.expression?_isSome hsecond⟩
  · obtain ⟨hnode, -⟩ := Bool.and_eq_true_iff.mp hkey
    obtain ⟨hnode', -⟩ := Bool.and_eq_true_iff.mp hvalue
    simp only [leavesIn, List.filterMap_cons, leaf?_of_isNode hnode, leaf?_of_isNode hnode', leaf?_token,
      List.mem_cons] at hmem
    obtain rfl | rfl | rfl | hmem := hmem
    · cases hopener.symm.trans hconstructor
    · cases hcloser.symm.trans hconstructor
    · cases hequals.symm.trans hconstructor
    · cases (leavesIn_of_optional hafter leaf hmem).symm.trans hconstructor

theorem isComplete_method {attributes : List Tree} {function : Tree}
    (hbuilt : tree.BuiltOf .memberDeclaration (attributes ++ [function]))
    (hattributes : All (isNodeOf .attributeDeclaration) attributes)
    (hfunction : isNodeOf .functionDeclaration function = true) : tree.IsComplete := by
  have hkind : tree.memberKind = .method := by
    rw [memberKind_eq hbuilt hattributes, if_pos (by simp [hfunction])]
  refine isComplete_member hbuilt hattributes ?_ fun leaf hmem => ?_
  · simp only [Member.IsComplete, asMember, hkind]
    exact hbuilt.nodeOf?_isSome (by simp) hfunction
  · obtain ⟨hnode, -⟩ := Bool.and_eq_true_iff.mp hfunction
    simp [leavesIn, leaf?_of_isNode hnode] at hmem

/-- The view of a constructor has its body if that is no function with a name. -/
theorem isComplete_constructor {attributes : List Tree} {keyword : Leaf} {parameters body : Tree}
    (hbuilt : tree.BuiltOf .memberDeclaration (attributes ++ [.token keyword, parameters, body]))
    (hattributes : All (isNodeOf .attributeDeclaration) attributes) (hkeyword : keyword.kind = .kwConstructor)
    (hparameters : isNodeOf .parameters parameters = true) (hbody : body.isStatement = true)
    (hclear : ¬tree.IsMistakenConstructor) : tree.IsComplete := by
  have hconstructor : tree.hasToken .kwConstructor = true := by
    rw [hasToken_member hbuilt hattributes rfl]
    simp [leavesIn, hkeyword]
  have hfirst : ([.token keyword, parameters, body] : List Tree).any (isNodeOf .functionDeclaration) = false := by
    rw [← any_of_attributes hattributes, ← hbuilt.nodeOf?_isSome_eq, Bool.eq_false_iff]
    exact fun hsome => hclear ⟨hbuilt.kind_eq, hconstructor, hsome⟩
  have hkind : tree.memberKind = .constructor := by
    rw [memberKind_eq hbuilt hattributes, hfirst]
    simp [leavesIn, hkeyword]
  have hboth : tree.asMember.parameters.isSome = true ∧ tree.asMember.body.isSome = true := by
    simp only [asMember, hkind]
    exact ⟨hbuilt.nodeOf?_isSome (by simp) hparameters, hbuilt.statement?_isSome (by simp) hbody⟩
  refine hbuilt.isComplete_part rfl rfl ?_
  rw [PartsComplete, hbuilt.kind_eq]
  refine ⟨?_, fun _ => hboth⟩
  rw [Member.IsComplete, show tree.asMember.kind = .constructor from hkind]
  exact hboth

/-! ### Table slots -/

theorem isComplete_slot (hbuilt : tree.BuiltOf .tableSlot row) (hslot : tree.asSlot.IsComplete) : tree.IsComplete := by
  refine hbuilt.isComplete_part rfl rfl ?_
  rw [PartsComplete, hbuilt.kind_eq]
  exact hslot

theorem isComplete_namedSlot {name equals : Leaf} {value : Tree}
    (hbuilt : tree.BuiltOf .tableSlot [.token name, .token equals, value]) (hname : name.kind = .id)
    (hvalue : value.isExpression = true) : tree.IsComplete := by
  have hvalued : isNodeOf .functionDeclaration value = false := isNodeOf_of_isExpression hvalue rfl
  have hkind : tree.slotKind = .named := by
    rw [slotKind, hbuilt.nodeOf?_isSome_eq, hbuilt.firstToken?_eq]
    simp [hvalued, leavesIn, hname]
  refine isComplete_slot hbuilt ?_
  simp only [Slot.IsComplete, asSlot, hkind]
  exact ⟨hbuilt.name_isSome (by simp) hname, hbuilt.expression?_isSome (by simp [hvalue])⟩

theorem isComplete_computedSlot {opener closer equals : Leaf} {key value : Tree}
    (hbuilt : tree.BuiltOf .tableSlot [.token opener, key, .token closer, .token equals, value])
    (hopener : opener.kind = .bracketOpen) (hkey : key.isExpression = true) (hvalue : value.isExpression = true) :
    tree.IsComplete := by
  have hkeyed : isNodeOf .functionDeclaration key = false := isNodeOf_of_isExpression hkey rfl
  have hvalued : isNodeOf .functionDeclaration value = false := isNodeOf_of_isExpression hvalue rfl
  have hkind : tree.slotKind = .computed := by
    rw [slotKind, hbuilt.nodeOf?_isSome_eq, hbuilt.firstToken?_eq]
    simp [hkeyed, hvalued, leavesIn, hopener]
  refine isComplete_slot hbuilt ?_
  simp only [Slot.IsComplete, asSlot, hkind]
  exact ⟨hbuilt.expression?_isSome (by simp [hkey]), hbuilt.expression?_isSome (by simp [hkey, hvalue])⟩

theorem isComplete_methodSlot {function : Tree} (hbuilt : tree.BuiltOf .tableSlot [function])
    (hfunction : isNodeOf .functionDeclaration function = true) : tree.IsComplete := by
  have hsome : (tree.nodeOf? .functionDeclaration).isSome := hbuilt.nodeOf?_isSome (by simp) hfunction
  have hkind : tree.slotKind = .method := by rw [slotKind, if_pos hsome]
  refine isComplete_slot hbuilt ?_
  simp only [Slot.IsComplete, asSlot, hkind]
  exact hsome

theorem isComplete_keyedSlot {colon : Leaf} {key value : Tree}
    (hbuilt : tree.BuiltOf .tableSlot [key, .token colon, value]) (hcolon : colon.kind = .colon)
    (hkey : key.isExpression = true) (hvalue : value.isExpression = true) : tree.IsComplete := by
  have hkeyed : isNodeOf .functionDeclaration key = false := isNodeOf_of_isExpression hkey rfl
  have hvalued : isNodeOf .functionDeclaration value = false := isNodeOf_of_isExpression hvalue rfl
  have hkind : tree.slotKind = .keyed := by
    obtain ⟨hnode, -⟩ := Bool.and_eq_true_iff.mp hkey
    rw [slotKind, hbuilt.nodeOf?_isSome_eq, hbuilt.firstToken?_eq]
    simp [hkeyed, hvalued, leavesIn, leaf?_of_isNode hnode, hcolon]
  refine isComplete_slot hbuilt ?_
  simp only [Slot.IsComplete, asSlot, hkind]
  exact ⟨hbuilt.expression?_isSome (by simp [hkey]), hbuilt.expression?_isSome (by simp [hkey, hvalue])⟩

end Squirrel
