import Mathlib.Data.List.Basic
import Squirrel.Proofs.View.Row

/-!
# The sides of a node

Operators and delimiters part what stands under a node into sides, and the grammar gives every operand a side of its
own. The views do not look at the sides: they count the expressions under a node from the left. So they give each side
its own expression only as long as no side before it is empty.
-/

namespace Squirrel

/-- A side of a node, told by the last word in front of it, or by there being none. -/
abbrev Side := Option Kind → Bool

namespace Side

/-- In front of every word. -/
def front : Side := Option.isNone

def behind (accepts : Kind → Bool) : Side := Option.any accepts

end Side

variable {tree : Tree}

/-- The kind of the last word in a row. -/
def Tree.lastWord? (row : List Tree) : Option Kind :=
  ((Tree.leavesIn row).filter (!·.kind.isTrivia)).getLast?.map Leaf.kind

/-- The last word in front of a child, among its siblings. -/
def Child.delimiter? (child : Child tree) : Option Kind := Tree.lastWord? (tree.children.take child.index)

/-- What an accessor gives, with the side that the grammar assigns to it. -/
structure Operand (tree : Tree) where
  value : Option (Child tree)
  side : Side

/-- The expression that stands on the side of an operand. -/
def Operand.standing? (operand : Operand tree) : Option (Child tree) :=
  tree.expressions.find? (operand.side ·.delimiter?)

namespace Tree

/-- The operands of a key in brackets and its value. -/
def computedOperands (key value : Option (Child tree)) : List (Operand tree) :=
  [⟨key, .behind (· == .bracketOpen)⟩, ⟨value, .behind (· == .equals)⟩]

/-- The operands that a node has more than one of, as its view gives them. -/
def operands (tree : Tree) : List (Operand tree) :=
  match tree.asExpression?, tree.kind with
  | some (.binary left _ right), _ => [⟨left, .front⟩, ⟨right, .behind (Power.binary? · |>.isSome)⟩]
  | some (.assignment left _ right), _ | some (.update left _ right), _ =>
    [⟨left, .front⟩, ⟨right, .behind TokenSet.assignOperators.contains⟩]
  | some (.ternary condition consequence alternative), _ =>
    [⟨condition, .front⟩, ⟨consequence, .behind (· == .question)⟩, ⟨alternative, .behind (· == .colon)⟩]
  | some (.index object index), _ => [⟨object, .front⟩, ⟨index, .behind (· == .bracketOpen)⟩]
  | none, .tableSlot =>
    match tree.asSlot.kind with
    | .computed => computedOperands tree.asSlot.key tree.asSlot.value
    | .keyed => [⟨tree.asSlot.key, .front⟩, ⟨tree.asSlot.value, .behind (· == .colon)⟩]
    | _ => []
  | none, .memberDeclaration =>
    match tree.asMember.kind with
    | .computed => computedOperands tree.asMember.key tree.asMember.value
    | _ => []
  | _, _ => []

/-- The accessors of a node give the expressions that stand on its sides, one after the other, and pass over the sides
where none stands. So what an accessor gives is on the side of the accessor just if that side and all before it are
filled. -/
def KeepsSides (tree : Tree) : Prop :=
  ∀ place operand, tree.operands[place]? = some operand →
    operand.value = (tree.operands.filterMap Operand.standing?)[place]? ∧
      ∀ child, operand.value = some child →
        (operand.side child.delimiter? = true ↔ ∀ other ∈ tree.operands.take (place + 1), other.standing?.isSome = true)

end Tree

/-! ### Expressions one to a side -/

namespace Side

/-- Every delimiter is that of a side of its own, in the order of the sides. -/
inductive Fits : List Side → List (Option Kind) → Prop where
  | nil : Fits [] []
  | filled {side : Side} {sides : List Side} {delimiter : Option Kind} {rest : List (Option Kind)}
      (hside : side delimiter = true) (hothers : ∀ other ∈ sides, other delimiter = false)
      (hrest : ∀ other ∈ rest, side other = false) (hfits : Fits sides rest) : Fits (side :: sides) (delimiter :: rest)
  | empty {side : Side} {sides : List Side} {delimiters : List (Option Kind)}
      (hnone : ∀ delimiter ∈ delimiters, side delimiter = false) (hfits : Fits sides delimiters) :
      Fits (side :: sides) delimiters

namespace Fits

variable {sides : List Side} {delimiters : List (Option Kind)} {side : Side} {delimiter : Option Kind} {place : Nat}

/-- Where nothing is missing, what comes at a place is on the side at that place, and else on a later one. -/
theorem le_of_side (hfits : Fits sides delimiters) {later : Nat} (hdelimiter : delimiters[place]? = some delimiter)
    (hlater : sides[later]? = some side) (hside : side delimiter = true) : place ≤ later := by
  induction hfits generalizing place later with
  | nil => cases hdelimiter
  | @filled first sides found rest _ hothers hrest _ ih =>
    cases place with
    | zero => exact Nat.zero_le later
    | succ place =>
      cases later with
      | zero =>
        obtain rfl := Option.some.inj hlater
        rw [hrest delimiter (List.mem_of_getElem? hdelimiter)] at hside
        exact nomatch hside
      | succ later => exact Nat.succ_le_succ (ih hdelimiter hlater)
  | @empty first sides delimiters hnone _ ih =>
    cases later with
    | zero =>
      obtain rfl := Option.some.inj hlater
      rw [hnone delimiter (List.mem_of_getElem? hdelimiter)] at hside
      exact nomatch hside
    | succ later => exact Nat.le_succ_of_le (ih hdelimiter hlater)

theorem side_iff (hfits : Fits sides delimiters) (hdelimiter : delimiters[place]? = some delimiter)
    (hplace : sides[place]? = some side) :
    side delimiter = true ↔ ∀ other ∈ sides.take (place + 1), ∃ found ∈ delimiters, other found = true := by
  induction hfits generalizing place with
  | nil => cases hdelimiter
  | @filled first sides found rest hfirst hothers _ _ ih =>
    rw [List.take_succ_cons, List.forall_mem_cons]
    cases place with
    | zero =>
      obtain rfl := Option.some.inj hdelimiter
      obtain rfl := Option.some.inj hplace
      simp [hfirst]
    | succ place =>
      rw [ih hdelimiter hplace]
      constructor
      · intro hall
        refine ⟨⟨found, List.mem_cons_self, hfirst⟩, fun other hmem => ?_⟩
        obtain ⟨there, hthere, hother⟩ := hall other hmem
        exact ⟨there, List.mem_cons_of_mem _ hthere, hother⟩
      · rintro ⟨-, hall⟩ other hmem
        obtain ⟨there, hthere, hother⟩ := hall other hmem
        obtain rfl | hthere := List.mem_cons.mp hthere
        · rw [hothers other (List.mem_of_mem_take hmem)] at hother
          exact nomatch hother
        · exact ⟨there, hthere, hother⟩
  | @empty first sides delimiters hnone hfits ih =>
    have hempty : ¬∃ found ∈ delimiters, first found = true := by
      rintro ⟨found, hfound, hfirst⟩
      rw [hnone found hfound] at hfirst
      exact nomatch hfirst
    refine ⟨fun hside => ?_, fun hall => absurd (hall first (by simp)) hempty⟩
    cases place with
    | zero =>
      obtain rfl := Option.some.inj hplace
      rw [hnone delimiter (List.mem_of_getElem? hdelimiter)] at hside
      exact nomatch hside
    | succ place => exact absurd (hfits.le_of_side hdelimiter hplace hside) (Nat.not_succ_le_self place)

/-- The sides, from the first one on, hold everything. -/
theorem filterMap_find? {α : Type} {delimiterOf : α → Option Kind} {found : List α}
    (hfits : Fits sides (found.map delimiterOf)) :
    sides.filterMap (fun side => found.find? fun item => side (delimiterOf item)) = found := by
  generalize hdelimiters : found.map delimiterOf = delimiters at hfits
  induction hfits generalizing found with
  | nil => exact (List.map_eq_nil_iff.mp hdelimiters).symm
  | @filled first sides delimiter rest hfirst hothers _ _ ih =>
    obtain ⟨item, others, rfl, rfl, rfl⟩ := List.map_eq_cons_iff.mp hdelimiters
    have hrest : sides.filterMap (fun side => (item :: others).find? fun item => side (delimiterOf item))
        = sides.filterMap fun side => others.find? fun item => side (delimiterOf item) :=
      List.filterMap_congr fun side hmem => List.find?_cons_of_neg (by simp [hothers side hmem])
    have hhead : (item :: others).find? (fun item => first (delimiterOf item)) = some item :=
      List.find?_cons_of_pos hfirst
    rw [List.filterMap_cons, hhead, hrest, ih rfl]
  | @empty first sides delimiters hnone _ ih =>
    have hfirst : found.find? (fun item => first (delimiterOf item)) = none := by
      refine List.find?_eq_none.mpr fun item hmem => ?_
      simp [hnone _ (hdelimiters ▸ List.mem_map_of_mem hmem)]
    rw [List.filterMap_cons, hfirst]
    exact ih hdelimiters

end Fits

end Side

/-! ### Delimiters in a row -/

namespace Tree

/-- The delimiters of the expressions in a row of parts that comes after a last word. -/
def delimiters (last : Option Kind) : List Tree → List (Option Kind)
  | [] => []
  | token leaf :: rest => delimiters (some leaf.kind) rest
  | node kind _ :: rest => if kind.isExpression then last :: delimiters last rest else delimiters last rest

attribute [local grind =] delimiters

theorem lastWord?_append_token (front : List Tree) (leaf : Leaf) :
    lastWord? (front ++ [token leaf]) = if leaf.kind.isTrivia then lastWord? front else some leaf.kind := by
  rw [lastWord?, lastWord?, leavesIn, List.filterMap_append, List.filter_append]
  cases htrivia : leaf.kind.isTrivia with
  | true => simp [leaf?, htrivia, leavesIn]
  | false => simp [leaf?, htrivia]

theorem lastWord?_append_node (front : List Tree) (kind : Kind) (children : List Tree) :
    lastWord? (front ++ [node kind children]) = lastWord? front := by
  have hleaves : leavesIn (front ++ [node kind children]) = leavesIn front := by
    rw [leavesIn, List.filterMap_append]
    exact List.append_nil _
  rw [lastWord?, hleaves, lastWord?]

/-- The words that a row of siblings has in front of each expression. -/
theorem map_lastWord?_take (front rest : List Tree) :
    ((rest.zipIdx front.length).filter (·.1.isExpression)).map (fun part => lastWord? ((front ++ rest).take part.2))
      = delimiters (lastWord? front) (rest.filter (!·.isTrivia)) := by
  induction rest generalizing front with
  | nil => rfl
  | cons part rest ih =>
    have hrest := ih (front ++ [part])
    rw [List.length_append, List.length_singleton, List.append_assoc, List.singleton_append] at hrest
    rw [List.zipIdx_cons]
    cases part with
    | token leaf =>
      rw [lastWord?_append_token] at hrest
      rw [List.filter_cons_of_neg (by simp [isExpression, isNode]), hrest]
      cases htrivia : leaf.kind.isTrivia with
      | true => rw [if_pos rfl, List.filter_cons_of_neg (by simpa [Tree.isTrivia] using htrivia)]
      | false =>
        rw [List.filter_cons_of_pos (by simpa [Tree.isTrivia] using htrivia)]
        rfl
    | node kind children =>
      rw [lastWord?_append_node] at hrest
      have hparts : (node kind children :: rest).filter (!·.isTrivia) = node kind children :: rest.filter (!·.isTrivia) := rfl
      rw [hparts, delimiters]
      cases hkind : kind.isExpression with
      | true =>
        rw [List.filter_cons_of_pos (by simpa [isExpression, isNode, Tree.kind] using hkind), List.map_cons, hrest,
          List.take_left, if_pos rfl]
      | false =>
        rw [List.filter_cons_of_neg (by simpa [isExpression, isNode, Tree.kind] using hkind), hrest]
        rfl

theorem map_pair_parts (tree : Tree) : tree.parts.map (fun part => (part.tree, part.index)) = tree.children.zipIdx := by
  rw [parts, List.map_map]
  exact List.attach_map_subtype_val _

theorem BuiltOf.map_delimiter? {kind : Kind} {row : List Tree} (hbuilt : tree.BuiltOf kind row) :
    tree.expressions.map Child.delimiter? = delimiters none row := by
  have hpairs : tree.expressions.map Child.delimiter?
      = ((tree.children.zipIdx).filter (·.1.isExpression)).map fun part => lastWord? (tree.children.take part.2) := by
    rw [← map_pair_parts, List.filter_map, List.map_map, expressions, nodes, List.filter_filter]
    congr 1
    congr 1
    funext part
    exact Bool.and_comm ..
  rw [hpairs, ← hbuilt.filter_children]
  exact map_lastWord?_take [] tree.children

theorem mem_delimiters {last delimiter : Option Kind} {row : List Tree} (hmem : delimiter ∈ delimiters last row) :
    delimiter = last ∨ ∃ leaf ∈ leavesIn row, delimiter = some leaf.kind := by
  induction row generalizing last with
  | nil => cases hmem
  | cons part rest ih =>
    cases part with
    | token leaf =>
      obtain rfl | ⟨other, hother, rfl⟩ := ih hmem
      · exact .inr ⟨leaf, List.mem_cons_self, rfl⟩
      · exact .inr ⟨other, List.mem_cons_of_mem _ hother, rfl⟩
    | node kind children =>
      have hrest : delimiter = last ∨ delimiter ∈ delimiters last rest := by
        rw [delimiters] at hmem
        split at hmem
        · exact List.mem_cons.mp hmem
        · exact .inr hmem
      obtain rfl | hrest := hrest
      · exact .inl rfl
      · exact ih hrest

/-- At most one node, and no words. -/
def AtMostNode (row : List Tree) : Prop := row = [] ∨ ∃ kind children, row = [node kind children]

end Tree

open Squirrel.Tree

namespace Side

variable {side : Side} {sides : List Side} {last : Option Kind} {segment rest : List Tree}

/-- What stands in front of the first word of a row is on the first side. -/
theorem fits_segment (hsegment : AtMostNode segment) (hside : side last = true)
    (hothers : ∀ other ∈ sides, other last = false)
    (hrest : ∀ delimiter ∈ delimiters last rest, side delimiter = false) (hfits : Fits sides (delimiters last rest)) :
    Fits (side :: sides) (delimiters last (segment ++ rest)) := by
  obtain rfl | ⟨kind, children, rfl⟩ := hsegment
  · exact .empty hrest hfits
  · rw [List.singleton_append, delimiters]
    split
    · exact .filled hside hothers hrest hfits
    · exact .empty hrest hfits

theorem fits_last (hsegment : AtMostNode segment) (hside : side last = true) : Fits [side] (delimiters last segment) := by
  have hfits : Fits [side] (delimiters last (segment ++ [])) :=
    fits_segment hsegment hside nofun (by simp [delimiters]) .nil
  rwa [List.append_nil] at hfits

end Side

/-! ### Nodes that keep to their sides -/

namespace Tree

/-- The accessors of a node that count its expressions, with their sides. -/
def countedOperands (tree : Tree) (sides : List Side) : List (Operand tree) :=
  sides.mapIdx fun place side => ⟨tree.expression? place, side⟩

theorem map_side_countedOperands (sides : List Side) : (tree.countedOperands sides).map Operand.side = sides := by
  refine List.ext_getElem? fun place => ?_
  rw [countedOperands, List.getElem?_map, List.getElem?_mapIdx, Option.map_map]
  exact Option.map_id' ..

theorem keepsSides_of_nil (hoperands : tree.operands = []) : tree.KeepsSides := by
  intro place operand hoperand
  rw [hoperands] at hoperand
  cases hoperand

theorem BuiltOf.keepsSides {kind : Kind} {row : List Tree} {sides : List Side} (hbuilt : tree.BuiltOf kind row)
    (hoperands : tree.operands = tree.countedOperands sides) (hfits : Side.Fits sides (delimiters none row)) :
    tree.KeepsSides := by
  intro place operand hoperand
  have hsides : tree.operands.map Operand.side = sides := by rw [hoperands, map_side_countedOperands]
  rw [← hbuilt.map_delimiter?] at hfits
  have hexpressions : tree.operands.filterMap Operand.standing? = tree.expressions := by
    rw [← hfits.filterMap_find?, ← hsides, List.filterMap_map]
    rfl
  obtain ⟨side, hside, rfl⟩ : ∃ side, sides[place]? = some side ∧
      (⟨tree.expression? place, side⟩ : Operand tree) = operand := by
    rw [hoperands, countedOperands, List.getElem?_mapIdx] at hoperand
    exact Option.map_eq_some_iff.mp hoperand
  refine ⟨congrArg (·[place]?) hexpressions.symm, fun child hchild => ?_⟩
  have hdelimiter : (tree.expressions.map Child.delimiter?)[place]? = some child.delimiter? := by
    rw [List.getElem?_map, show tree.expressions[place]? = some child from hchild]
    rfl
  have hstanding (operand : Operand tree) :
      operand.standing?.isSome = true ↔ ∃ found ∈ tree.expressions.map Child.delimiter?, operand.side found = true := by
    simp [Operand.standing?]
  rw [hfits.side_iff hdelimiter hside, ← hsides, ← List.map_take, List.forall_mem_map]
  exact forall₂_congr fun other _ => (hstanding other).symm

/-! ### Rows of operands -/

/-- At most one word. -/
def AtMostWord (row : List Tree) : Prop := row = [] ∨ ∃ leaf, row = [token leaf]

/-- Nothing, or a sign and what it announces. -/
def Announced (kind : Kind) (row : List Tree) : Prop :=
  row = [] ∨ ∃ sign value, sign.kind = kind ∧ AtMostNode value ∧ row = token sign :: value

theorem delimiters_append_word {last : Option Kind} {row ends : List Tree} (hends : AtMostWord ends) :
    delimiters last (row ++ ends) = delimiters last row := by
  induction row generalizing last with
  | nil => obtain rfl | ⟨leaf, rfl⟩ := hends <;> rfl
  | cons part rest ih => cases part <;> rw [List.cons_append, delimiters, delimiters, ih]

theorem mem_delimiters_segment {last delimiter : Option Kind} {segment : List Tree} (hsegment : AtMostNode segment)
    (hmem : delimiter ∈ delimiters last segment) : delimiter = last := by
  obtain rfl | ⟨leaf, hleaf, -⟩ := mem_delimiters hmem
  · rfl
  · obtain rfl | ⟨kind, children, rfl⟩ := hsegment <;> cases hleaf

variable {kind : Kind} {last : Option Kind} {row closer : List Tree}

theorem mem_delimiters_announced {delimiter : Option Kind} (hrow : Announced kind row)
    (hmem : delimiter ∈ delimiters last row) : delimiter = some kind := by
  obtain rfl | ⟨sign, value, rfl, hvalue, rfl⟩ := hrow
  · cases hmem
  · exact mem_delimiters_segment hvalue hmem

theorem fits_announced (hrow : Announced kind row) : Side.Fits [.behind (· == kind)] (delimiters last row) := by
  obtain rfl | ⟨sign, value, rfl, hvalue, rfl⟩ := hrow
  · exact .empty nofun .nil
  · rw [delimiters]
    exact Side.fits_last hvalue (beq_self_eq_true sign.kind)

/-! ### Nodes with more than one operand -/

section

variable {left right key value tail ends : List Tree} {sign opener : Leaf}

theorem keepsSides_infix {accepts : Kind → Bool} (hbuilt : tree.BuiltOf kind (left ++ token sign :: right))
    (hoperands : tree.operands = tree.countedOperands [.front, .behind accepts]) (hleft : AtMostNode left)
    (hright : AtMostNode right) (hsign : accepts sign.kind = true) : tree.KeepsSides := by
  refine hbuilt.keepsSides hoperands (Side.fits_segment hleft rfl ?_ ?_ ?_)
  · simp [Side.behind]
  all_goals rw [delimiters]
  · intro delimiter hmem
    obtain rfl := mem_delimiters_segment hright hmem
    rfl
  · exact Side.fits_last hright hsign

theorem keepsSides_index (hbuilt : tree.BuiltOf .indexExpression (left ++ token sign :: (right ++ closer)))
    (hleft : AtMostNode left) (hsign : sign.kind = .bracketOpen) (hright : AtMostNode right) (hcloser : AtMostWord closer) :
    tree.KeepsSides := by
  have hoperands : tree.operands = tree.countedOperands [.front, .behind (· == .bracketOpen)] := by
    rw [operands, asExpression?, hbuilt.isNode, hbuilt.kind_eq]
    rfl
  refine hbuilt.keepsSides hoperands (Side.fits_segment hleft rfl ?_ ?_ ?_)
  · simp [Side.behind]
  all_goals rw [delimiters, delimiters_append_word hcloser]
  · intro delimiter hmem
    obtain rfl := mem_delimiters_segment hright hmem
    rfl
  · exact Side.fits_last hright (beq_iff_eq.mpr hsign)

theorem keepsSides_ternary (hbuilt : tree.BuiltOf .ternaryExpression (left ++ token sign :: (right ++ tail)))
    (hleft : AtMostNode left) (hsign : sign.kind = .question) (hright : AtMostNode right) (htail : Announced .colon tail) :
    tree.KeepsSides := by
  have hoperands : tree.operands
      = tree.countedOperands [.front, .behind (· == .question), .behind (· == .colon)] := by
    rw [operands, asExpression?, hbuilt.isNode, hbuilt.kind_eq]
    rfl
  refine hbuilt.keepsSides hoperands (Side.fits_segment hleft rfl ?_ ?_ ?_)
  · simp [Side.behind]
  all_goals rw [delimiters, hsign]
  · intro delimiter hmem
    obtain rfl | ⟨leaf, -, rfl⟩ := mem_delimiters hmem <;> rfl
  · refine Side.fits_segment hright rfl ?_ ?_ (fits_announced htail)
    · simp [Side.behind]
    · intro delimiter hmem
      rw [mem_delimiters_announced htail hmem]
      rfl

/-- The sides of a key in brackets and of its value. -/
def computedSides : List Side := [.behind (· == .bracketOpen), .behind (· == .equals)]

theorem fits_computed (hopener : opener.kind = .bracketOpen) (hkey : AtMostNode key) (hcloser : AtMostWord closer)
    (hvalue : Announced .equals value) (hends : AtMostWord ends) :
    Side.Fits computedSides (delimiters last (token opener :: (key ++ (closer ++ (value ++ ends))))) := by
  have hrest (last : Option Kind) : ∃ behind, delimiters last (closer ++ (value ++ ends)) = delimiters behind value := by
    obtain rfl | ⟨leaf, rfl⟩ := hcloser
    · exact ⟨last, delimiters_append_word hends⟩
    · exact ⟨some leaf.kind, delimiters_append_word hends⟩
  obtain ⟨behind, hbehind⟩ := hrest (some opener.kind)
  rw [delimiters, computedSides]
  refine Side.fits_segment hkey (beq_iff_eq.mpr hopener) ?_ ?_ ?_
  · simp [Side.behind, hopener]
  · intro delimiter hmem
    rw [hbehind] at hmem
    rw [mem_delimiters_announced hvalue hmem]
    rfl
  · rw [hbehind]
    exact fits_announced hvalue

theorem operands_slot (hbuilt : tree.BuiltOf .tableSlot row) :
    tree.operands = match tree.slotKind with
      | .computed => tree.countedOperands computedSides
      | .keyed => tree.countedOperands [.front, .behind (· == .colon)]
      | _ => [] := by
  rw [operands, asExpression?, hbuilt.isNode, hbuilt.kind_eq]
  simp only [asSlot]
  cases tree.slotKind <;> rfl

theorem operands_member (hbuilt : tree.BuiltOf .memberDeclaration row) :
    tree.operands = match tree.memberKind with
      | .computed => tree.countedOperands computedSides
      | _ => [] := by
  rw [operands, asExpression?, hbuilt.isNode, hbuilt.kind_eq]
  simp only [asMember]
  cases tree.memberKind <;> rfl

theorem slotKind_of_first (hbuilt : tree.BuiltOf .tableSlot row) {expected : SlotKind}
    (hfirst : (match (leavesIn row).head?.map Leaf.kind with
      | some .id => SlotKind.named
      | some .bracketOpen => .computed
      | _ => .keyed) = expected) : tree.slotKind = .method ∨ tree.slotKind = expected := by
  rw [slotKind, hbuilt.firstToken?_eq]
  split
  · exact .inl rfl
  · exact .inr hfirst

theorem keepsSides_namedSlot (hbuilt : tree.BuiltOf .tableSlot (token sign :: row)) (hsign : sign.kind = .id) :
    tree.KeepsSides := by
  have hoperands := operands_slot hbuilt
  have hfirst : (leavesIn (token sign :: row)).head?.map Leaf.kind = some .id := congrArg some hsign
  refine keepsSides_of_nil ?_
  obtain hkind | hkind := slotKind_of_first hbuilt (by rw [hfirst]) <;> rw [hoperands, hkind]

theorem keepsSides_computedSlot
    (hbuilt : tree.BuiltOf .tableSlot (token opener :: (key ++ (closer ++ (value ++ ends)))))
    (hopener : opener.kind = .bracketOpen) (hkey : AtMostNode key) (hcloser : AtMostWord closer)
    (hvalue : Announced .equals value) (hends : AtMostWord ends) : tree.KeepsSides := by
  have hoperands := operands_slot hbuilt
  have hfirst : (leavesIn (token opener :: (key ++ (closer ++ (value ++ ends))))).head?.map Leaf.kind
      = some .bracketOpen := congrArg some hopener
  obtain hkind | hkind := slotKind_of_first hbuilt (by rw [hfirst])
  · exact keepsSides_of_nil (by rw [hoperands, hkind])
  · exact hbuilt.keepsSides (by rw [hoperands, hkind]) (fits_computed hopener hkey hcloser hvalue hends)

theorem keepsSides_keyedSlot (hbuilt : tree.BuiltOf .tableSlot (key ++ value)) (hkey : AtMostNode key)
    (hvalue : Announced .colon value) : tree.KeepsSides := by
  have hoperands := operands_slot hbuilt
  have hleaves : leavesIn (key ++ value) = leavesIn value := by
    obtain rfl | ⟨kind, children, rfl⟩ := hkey <;> rfl
  have hfirst : (leavesIn (key ++ value)).head?.map Leaf.kind = none ∨
      (leavesIn (key ++ value)).head?.map Leaf.kind = some .colon := by
    rw [hleaves]
    obtain rfl | ⟨sign, value, hsign, -, rfl⟩ := hvalue
    · exact .inl rfl
    · exact .inr (congrArg some hsign)
  obtain hkind | hkind : tree.slotKind = .method ∨ tree.slotKind = .keyed :=
    slotKind_of_first hbuilt (by obtain hfirst | hfirst := hfirst <;> rw [hfirst])
  · exact keepsSides_of_nil (by rw [hoperands, hkind])
  · refine hbuilt.keepsSides (by rw [hoperands, hkind]) (Side.fits_segment hkey rfl ?_ ?_ (fits_announced hvalue))
    · simp [Side.behind]
    · intro delimiter hmem
      rw [mem_delimiters_announced hvalue hmem]
      rfl

theorem keepsSides_computedMember {before : List Tree}
    (hbuilt : tree.BuiltOf .memberDeclaration (before ++ token opener :: (key ++ (closer ++ (value ++ ends)))))
    (hbefore : before = [] ∨ ∃ children, before = [node .attributeDeclaration children])
    (hopener : opener.kind = .bracketOpen) (hkey : AtMostNode key) (hcloser : AtMostWord closer) (hvalue : Announced .equals value) (hends : AtMostWord ends) :
    tree.KeepsSides := by
  have hoperands := operands_member hbuilt
  have hfits : Side.Fits computedSides
      (delimiters none (before ++ token opener :: (key ++ (closer ++ (value ++ ends))))) := by
    obtain rfl | ⟨children, rfl⟩ := hbefore
    · exact fits_computed hopener hkey hcloser hvalue hends
    · show Side.Fits computedSides (delimiters none (token opener :: (key ++ (closer ++ (value ++ ends)))))
      exact fits_computed hopener hkey hcloser hvalue hends
  cases hkind : tree.memberKind with
  | computed => exact hbuilt.keepsSides (by rw [hoperands, hkind]) hfits
  | _ => exact keepsSides_of_nil (by rw [hoperands, hkind])

/-- A member that does not start with a bracket is none with a computed name. -/
theorem keepsSides_otherMember (hbuilt : tree.BuiltOf .memberDeclaration row)
    (hfirst : (leavesIn row).head?.map Leaf.kind ≠ some .bracketOpen) : tree.KeepsSides := by
  have hoperands := operands_member hbuilt
  have hkind : tree.memberKind ≠ .computed := by
    rw [memberKind, hbuilt.firstToken?_eq]
    split
    · exact nofun
    · split
      · exact nofun
      · next hbracket => exact absurd hbracket hfirst
      · exact nofun
  refine keepsSides_of_nil ?_
  rw [hoperands]
  split
  · next hcomputed => exact absurd hcomputed hkind
  · rfl

end

end Tree

end Squirrel
