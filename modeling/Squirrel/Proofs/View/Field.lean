import Mathlib.Data.List.Nodup
import Squirrel.Proofs.Grammar.Static
import Squirrel.View.Field

/-!
# Fields and accessors

The field of a node is worked out from its place among its siblings; an accessor of a view looks for what stands in a
field. These are two ways over the same children, and they agree where no more than one part stands in each place that
an accessor looks for. In a valid script this is so.
-/

namespace Squirrel

variable {tree : Tree}

/-! ### Addresses -/

namespace Child

/-- Where a child stands under its parent. An address tells the index of every child on the way down. -/
def address (child : Child tree) : List Nat := [child.index]

theorem eq_of_index {first second : Child tree} (hindex : first.index = second.index) : first = second := by
  obtain ⟨index, found, hfound⟩ := first
  obtain ⟨_, other, hother⟩ := second
  obtain rfl : index = _ := hindex
  obtain rfl : found = other := Option.some.inj (hfound.symm.trans hother)
  rfl

theorem map_address_eq_some {found : Option (Child tree)} {child : Child tree} :
    found.map address = some child.address ↔ found = some child := by
  constructor
  · intro haddress
    obtain ⟨other, rfl, hother⟩ := Option.map_eq_some_iff.mp haddress
    rw [eq_of_index (List.singleton_inj.mp hother)]
  · rintro rfl
    rfl

end Child

/-! ### Accessors by field -/

/-- The address of what the accessor of a statement for a field gives. -/
def Statement.accessor? : Statement tree → Field → Option (List Nat)
  | .conditional condition _ _, .condition => condition.map Child.address
  | .conditional _ consequence _, .consequence => consequence.map Child.address
  -- the alternative of an `if` stands one level further down, under the `else`
  | .conditional _ _ otherwise, .alternative =>
    otherwise.bind fun branch => branch.tree.statement?.map fun child => branch.index :: child.address
  | .whileLoop condition _, .condition => condition.map Child.address
  | .doWhileLoop _ condition, .condition => condition.map Child.address
  | .forLoop initial _ _ _, .initial => initial.map Child.address
  | .forLoop _ condition _ _, .condition => condition.map Child.address
  | .forLoop _ _ increment _, .increment => increment.map Child.address
  | .foreachLoop _ _ collection _, .collection => collection.map Child.address
  | _, _ => none

/-- What the accessor of an expression for a field gives. -/
def Expression.accessor? : Expression tree → Field → Option (Child tree)
  | .unary _ _ operand, .operand | .keyword _ operand, .operand => operand
  | .binary left _ _, .left | .assignment left _ _, .left | .update left _ _, .left => left
  | .binary _ _ right, .right | .assignment _ _ right, .right | .update _ _ right, .right => right
  | .ternary condition _ _, .condition => condition
  | .ternary _ consequence _, .consequence => consequence
  | .ternary _ _ alternative, .alternative => alternative
  | .index object _, .object | .member object _, .object => object
  | .index _ key, .index => key
  | .call _ function _, .function => function
  | _, _ => none

namespace Tree

/-- The address of what the accessor of a node for a field gives. -/
def accessor? (tree : Tree) (field : Field) : Option (List Nat) :=
  match tree.asStatement?, tree.asExpression? with
  | some statement, _ => statement.accessor? field
  | none, some expression => (expression.accessor? field).map Child.address
  | none, none =>
    match tree.kind, field with
    | .elseStatement, .alternative => tree.statement?.map Child.address
    | .caseStatement, .case => tree.asCase.value.map Child.address
    | .attributeEntry, .right => tree.asAttribute.value.map Child.address
    | _, _ => none

/-- The kinds of the nodes whose children have fields. -/
def fieldParents : List Kind :=
  [.ifStatement, .elseStatement, .caseStatement, .forStatement, .foreachStatement, .attributeEntry, .unaryExpression,
    .binaryExpression, .assignmentExpression, .updateExpression, .ternaryExpression, .indexExpression, .callExpression]

/-- A child that is a node stands in a field just if the accessor for this field gives the child. -/
def FieldsAgree (tree : Tree) : Prop :=
  ∀ child : Child tree, child.tree.isNode = true →
    ∀ field, tree.fieldAt? child.index = some field ↔ tree.accessor? field = some child.address

/-! ### Picking out children -/

theorem map_index_parts (tree : Tree) : tree.parts.map Child.index = List.range tree.children.length := by
  have hpairs : tree.parts.map Child.index = (tree.children.zipIdx.attach.map Subtype.val).map Prod.snd := by
    simp only [parts, List.map_map]
    rfl
  rw [hpairs, List.attach_map_subtype_val, List.zipIdx_map_snd, List.range_eq_range']

theorem nodup_parts (tree : Tree) : tree.parts.Nodup :=
  List.Nodup.of_map Child.index (by rw [map_index_parts]; exact List.nodup_range)

theorem mem_parts (child : Child tree) : child ∈ tree.parts := by
  have hindex : child.index ∈ tree.parts.map Child.index := by
    rw [map_index_parts, List.mem_range]
    exact (List.getElem?_eq_some_iff.mp child.isAt).1
  obtain ⟨other, hmem, hother⟩ := List.mem_map.mp hindex
  exact Child.eq_of_index hother ▸ hmem

theorem mem_nodes (child : Child tree) : child ∈ tree.nodes ↔ child.tree.isNode = true := by
  rw [nodes, List.mem_filter]
  exact and_iff_right (mem_parts child)

theorem expressionPlace?_eq_some (child : Child tree) (place : Nat) :
    tree.expressionPlace? child.index = some place ↔ tree.expression? place = some child := by
  have hnodup : tree.expressions.Nodup := ((nodup_parts tree).filter _).filter _
  rw [expressionPlace?, expression?, List.findIdx?_eq_some_iff_getElem, List.getElem?_eq_some_iff]
  refine exists_congr fun hplace => ⟨fun hfound => Child.eq_of_index (beq_iff_eq.mp hfound.1), fun hchild => ?_⟩
  refine ⟨beq_iff_eq.mpr (congrArg Child.index hchild), fun earlier hearlier hindex => ?_⟩
  have hsame := (Child.eq_of_index (beq_iff_eq.mp hindex)).trans hchild.symm
  exact Nat.ne_of_lt hearlier ((hnodup.getElem_inj_iff).mp hsame)

/-- What is found first is the only one, if there is no more than one. -/
theorem head?_eq_some_iff_mem {α : Type} {list : List α} {item : α} (hone : list.length ≤ 1) :
    list.head? = some item ↔ item ∈ list := by
  match list, hone with
  | [], _ => simp
  | [only], _ => simp [eq_comm]

theorem nodeOf?_eq_some {kind : Kind} (hone : (tree.nodesOf kind).length ≤ 1) (child : Child tree) :
    tree.nodeOf? kind = some child ↔ child.tree.isNode = true ∧ child.kind = kind := by
  have hhead : tree.nodeOf? kind = (tree.nodesOf kind).head? := by rw [nodeOf?, nodesOf, List.head?_filter]
  rw [hhead, head?_eq_some_iff_mem hone, nodesOf, List.mem_filter, mem_nodes, beq_iff_eq]

theorem statement?_eq_some (hone : tree.statements.length ≤ 1) (child : Child tree) :
    tree.statement? = some child ↔ child.tree.isNode = true ∧ child.kind.isStatement = true := by
  rw [statement?, head?_eq_some_iff_mem hone, statements, List.mem_filter, mem_nodes]

/-! ### Fields by place -/

/-- The accessors of a node give the expressions under it in the order of some fields. -/
def AccessedInOrder (tree : Tree) (fields : List Field) : Prop :=
  ∀ field, tree.accessor? field = ((fields.idxOf? field).bind tree.expression?).map Child.address

theorem idxOf?_eq_some_of_nodup {fields : List Field} (hfields : fields.Nodup) (field : Field) (place : Nat) :
    fields.idxOf? field = some place ↔ fields[place]? = some field := by
  rw [List.idxOf?, List.findIdx?_eq_some_iff_getElem, List.getElem?_eq_some_iff]
  refine exists_congr fun hplace => ⟨fun ⟨hfield, _⟩ => beq_iff_eq.mp hfield, fun hfield => ?_⟩
  refine ⟨beq_iff_eq.mpr hfield, fun earlier hearlier hother => ?_⟩
  exact Nat.ne_of_lt hearlier (hfields.getElem_inj_iff.mp ((beq_iff_eq.mp hother).trans hfield.symm))

theorem fieldsAgree_of_among (fields : List Field) (hfields : fields.Nodup) (haccess : tree.AccessedInOrder fields)
    (hfield : ∀ index, tree.fieldAt? index = tree.fieldAmong? index fields) : tree.FieldsAgree := by
  intro child _ field
  rw [hfield, haccess, Child.map_address_eq_some, fieldAmong?, Option.bind_eq_some_iff, Option.bind_eq_some_iff]
  refine exists_congr fun place => ?_
  rw [expressionPlace?_eq_some, idxOf?_eq_some_of_nodup hfields, and_comm]

/-- Where no more than one expression stands under a node, it stands in the field of any. -/
theorem fieldOfAny?_eq_fieldAmong? (hone : tree.expressions.length ≤ 1) (index : Nat) (field : Field) :
    tree.fieldOfAny? index field = tree.fieldAmong? index [field] := by
  rw [fieldOfAny?, fieldAmong?]
  cases hplace : tree.expressionPlace? index with
  | none => rfl
  | some place =>
    have hlt : place < tree.expressions.length := (List.findIdx?_eq_some_iff_getElem.mp hplace).1
    obtain rfl : place = 0 := by omega
    rfl

/-! ### Clauses of a `for` -/

/-- What a search finds is the only hit, if there is no more than one. -/
theorem find?_eq_some_iff_mem {α : Type} {test : α → Bool} {list : List α} {item : α}
    (hone : ∀ first ∈ list, ∀ second ∈ list, test first = true → test second = true → first = second) :
    list.find? test = some item ↔ item ∈ list ∧ test item = true := by
  refine ⟨fun hfind => ⟨List.mem_of_find?_eq_some hfind, List.find?_some hfind⟩, fun ⟨hmem, htest⟩ => ?_⟩
  obtain ⟨other, hother⟩ := Option.isSome_iff_exists.mp (List.find?_isSome.mpr ⟨item, hmem, htest⟩)
  rw [hother, hone other (List.mem_of_find?_eq_some hother) item hmem (List.find?_some hother) htest]

theorem clausesFrom_sublist (semicolons : Nat) (list : List (Child tree)) :
    ((tree.clausesFrom semicolons list).map Prod.snd).Sublist list := by
  fun_induction clausesFrom tree semicolons list with
  | case1 => exact .slnil
  | case2 semicolons part rest _ ih => exact ih.cons part
  | case3 semicolons part rest _ _ ih => exact ih.cons_cons part
  | case4 semicolons part rest _ _ ih => exact ih.cons part

theorem exists_clause_iff (wanted : ForClause) {holds : ForClause → Prop} :
    (∃ clause, holds clause ∧ Field.ofClause clause = Field.ofClause wanted) ↔ holds wanted := by
  refine ⟨fun ⟨clause, hholds, hclause⟩ => ?_, fun hholds => ⟨wanted, hholds, rfl⟩⟩
  have hsame : clause = wanted := by cases clause <;> cases wanted <;> first | rfl | cases hclause
  exact hsame ▸ hholds

theorem clauseField_eq_some (field : Field) (child : Child tree) :
    (tree.forClauses.find? fun (_, part) => part.index == child.index).map (fun (clause, _) => Field.ofClause clause)
      = some field ↔ ∃ clause, (clause, child) ∈ tree.forClauses ∧ Field.ofClause clause = field := by
  have hnodup : (tree.forClauses.map Prod.snd).Nodup :=
    ((nodup_parts tree).sublist (List.takeWhile_sublist _)).sublist (clausesFrom_sublist 0 _)
  have hone : ∀ first ∈ tree.forClauses, ∀ second ∈ tree.forClauses,
      (first.2.index == child.index) = true → (second.2.index == child.index) = true → first = second :=
    fun first hfirst second hsecond hindex hother => List.inj_on_of_nodup_map hnodup hfirst hsecond
      (Child.eq_of_index ((beq_iff_eq.mp hindex).trans (beq_iff_eq.mp hother).symm))
  rw [Option.map_eq_some_iff]
  constructor
  · rintro ⟨⟨clause, part⟩, hfind, rfl⟩
    obtain ⟨hmem, hindex⟩ := (find?_eq_some_iff_mem hone).mp hfind
    obtain rfl : part = child := Child.eq_of_index (beq_iff_eq.mp hindex)
    exact ⟨clause, hmem, rfl⟩
  · rintro ⟨clause, hmem, rfl⟩
    exact ⟨(clause, child), (find?_eq_some_iff_mem hone).mpr ⟨hmem, beq_self_eq_true child.index⟩, rfl⟩

/-- Each clause has one node at most, an expression or, for the first one, a declaration. -/
structure ClausesSingle (tree : Tree) : Prop where
  nodup : (tree.forClauses.map Prod.fst).Nodup
  fits : ∀ clause part, (clause, part) ∈ tree.forClauses →
    part.kind.isExpression = true ∨ clause = .initial ∧ part.kind = .localDeclaration

namespace ClausesSingle

variable (hsingle : tree.ClausesSingle)

include hsingle

theorem forClause?_eq_some (clause : ForClause) (child : Child tree) :
    tree.forClause? clause = some child ↔ (clause, child) ∈ tree.forClauses := by
  have hone : ∀ first ∈ tree.forClauses, ∀ second ∈ tree.forClauses,
      (first.1 == clause) = true → (second.1 == clause) = true → first = second :=
    fun first hfirst second hsecond hclause hother => List.inj_on_of_nodup_map hsingle.nodup hfirst hsecond
      ((beq_iff_eq.mp hclause).trans (beq_iff_eq.mp hother).symm)
  rw [forClause?, Option.map_eq_some_iff]
  constructor
  · rintro ⟨⟨found, _⟩, hfind, rfl⟩
    obtain ⟨hmem, hfound⟩ := (find?_eq_some_iff_mem hone).mp hfind
    rwa [← beq_iff_eq.mp hfound]
  · exact fun hmem => ⟨(clause, child), (find?_eq_some_iff_mem hone).mpr ⟨hmem, beq_self_eq_true clause⟩, rfl⟩

theorem initial_eq_some (child : Child tree) :
    tree.forInitial? = some child ↔ (.initial, child) ∈ tree.forClauses := by
  rw [forInitial?, Option.filter_eq_some_iff, hsingle.forClause?_eq_some, and_iff_left_iff_imp]
  intro hmem
  obtain hexpression | ⟨-, hlocal⟩ := hsingle.fits _ _ hmem
  · rw [hexpression, Bool.or_true]
  · rw [hlocal]
    rfl

theorem expression_eq_some (clause : ForClause) (hclause : clause ≠ .initial) (child : Child tree) :
    tree.forExpression? clause = some child ↔ (clause, child) ∈ tree.forClauses := by
  rw [forExpression?, Option.filter_eq_some_iff, hsingle.forClause?_eq_some, and_iff_left_iff_imp]
  intro hmem
  exact (hsingle.fits _ _ hmem).resolve_right fun ⟨hinitial, _⟩ => hclause hinitial

end ClausesSingle

/-! ### Parents with one part in each place -/

/-- Where an accessor looks for the first of something, there is no second. -/
def PlacesSingle (tree : Tree) : Prop :=
  match tree.kind with
  | .forStatement => tree.ClausesSingle
  | .ifStatement => (tree.nodesOf .parenthesizedExpression).length ≤ 1 ∧ tree.statements.length ≤ 1
  | .elseStatement => tree.statements.length ≤ 1
  | .foreachStatement | .attributeEntry | .unaryExpression | .callExpression => tree.expressions.length ≤ 1
  | _ => True

theorem nodeKindAt?_index {child : Child tree} (hnode : child.tree.isNode = true) :
    tree.nodeKindAt? child.index = some child.kind := by
  rw [nodeKindAt?, child.isAt, Option.bind_some, if_pos hnode]
  rfl

theorem fieldsAgree_if {children : List Tree}
    (hcondition : ((node .ifStatement children).nodesOf .parenthesizedExpression).length ≤ 1)
    (hconsequence : (node .ifStatement children).statements.length ≤ 1) : (node .ifStatement children).FieldsAgree := by
  intro child hnode field
  have hfield : (node .ifStatement children).fieldAt? child.index
      = if child.kind = .parenthesizedExpression then some .condition
        else if child.kind.isStatement then some .consequence else none := by
    show (if (node .ifStatement children).nodeKindAt? child.index = some .parenthesizedExpression then _
      else if ((node .ifStatement children).nodeKindAt? child.index).any Kind.isStatement then _ else none) = _
    simp only [nodeKindAt?_index hnode, Option.some.injEq, Option.any_some]
  rw [hfield]
  cases field with
  | condition =>
    show _ ↔ ((node .ifStatement children).nodeOf? .parenthesizedExpression).map Child.address = some child.address
    rw [Child.map_address_eq_some, nodeOf?_eq_some hcondition, and_iff_right hnode]
    split <;> simp_all
  | consequence =>
    show _ ↔ (node .ifStatement children).statement?.map Child.address = some child.address
    rw [Child.map_address_eq_some, statement?_eq_some hconsequence, and_iff_right hnode]
    split
    · next hkind => simp [hkind, Kind.isStatement]
    · simp
  | alternative =>
    -- it is below a child, so it is none
    have hother : (node .ifStatement children).accessor? .alternative ≠ some child.address := by
      intro haddress
      obtain ⟨branch, -, hbelow⟩ := Option.bind_eq_some_iff.mp haddress
      obtain ⟨below, -, hlist⟩ := Option.map_eq_some_iff.mp hbelow
      exact nomatch congrArg List.length hlist
    simp only [hother, iff_false]
    split
    · simp
    · split <;> simp
  | _ =>
    refine iff_of_false ?_ nofun
    split
    · simp
    · split <;> simp

theorem fieldsAgree_else {children : List Tree} (hone : (node .elseStatement children).statements.length ≤ 1) :
    (node .elseStatement children).FieldsAgree := by
  intro child hnode field
  have hfield : (node .elseStatement children).fieldAt? child.index
      = if child.kind.isStatement then some .alternative else none := by
    show (if ((node .elseStatement children).nodeKindAt? child.index).any Kind.isStatement then _ else none) = _
    rw [nodeKindAt?_index hnode, Option.any_some]
  rw [hfield]
  cases field with
  | alternative =>
    show _ ↔ (node .elseStatement children).statement?.map Child.address = some child.address
    rw [Child.map_address_eq_some, statement?_eq_some hone, and_iff_right hnode]
    simp
  | _ =>
    refine iff_of_false ?_ nofun
    split <;> simp

theorem fieldsAgree_for {children : List Tree} (hsingle : (node .forStatement children).ClausesSingle) :
    (node .forStatement children).FieldsAgree := by
  intro child _ field
  refine (clauseField_eq_some field child).trans ?_
  cases field with
  | initial =>
    show _ ↔ (node .forStatement children).forInitial?.map Child.address = some child.address
    rw [Child.map_address_eq_some, hsingle.initial_eq_some]
    exact exists_clause_iff .initial
  | condition =>
    show _ ↔ ((node .forStatement children).forExpression? .condition).map Child.address = some child.address
    rw [Child.map_address_eq_some, hsingle.expression_eq_some .condition nofun]
    exact exists_clause_iff .condition
  | increment =>
    show _ ↔ ((node .forStatement children).forExpression? .increment).map Child.address = some child.address
    rw [Child.map_address_eq_some, hsingle.expression_eq_some .increment nofun]
    exact exists_clause_iff .increment
  | _ => exact iff_of_false (fun ⟨clause, _, hclause⟩ => by cases clause <;> cases hclause) nofun

theorem PlacesSingle.fieldsAgree (hsingle : tree.PlacesSingle) (hnode : tree.isNode = true)
    (hkind : tree.kind ∈ fieldParents) : tree.FieldsAgree := by
  cases tree with
  | token => exact nomatch hnode
  | node kind children =>
    rw [show (node kind children).kind = kind from rfl] at hkind
    simp only [fieldParents, List.mem_cons, List.not_mem_nil, or_false] at hkind
    obtain rfl | rfl | rfl | rfl | rfl | rfl | rfl | rfl | rfl | rfl | rfl | rfl | rfl := hkind
    · exact fieldsAgree_if hsingle.1 hsingle.2
    · exact fieldsAgree_else hsingle
    · exact fieldsAgree_of_among [.case] (by decide) (fun field => by cases field <;> rfl) fun _ => rfl
    · exact fieldsAgree_for hsingle
    · exact fieldsAgree_of_among [.collection] (by decide) (fun field => by cases field <;> rfl)
        fun index => fieldOfAny?_eq_fieldAmong? hsingle index .collection
    · exact fieldsAgree_of_among [.right] (by decide) (fun field => by cases field <;> rfl)
        fun index => fieldOfAny?_eq_fieldAmong? hsingle index .right
    · exact fieldsAgree_of_among [.operand] (by decide) (fun field => by cases field <;> rfl)
        fun index => fieldOfAny?_eq_fieldAmong? hsingle index .operand
    · exact fieldsAgree_of_among [.left, .right] (by decide) (fun field => by cases field <;> rfl) fun _ => rfl
    · exact fieldsAgree_of_among [.left, .right] (by decide) (fun field => by cases field <;> rfl) fun _ => rfl
    · exact fieldsAgree_of_among [.left, .right] (by decide) (fun field => by cases field <;> rfl) fun _ => rfl
    · exact fieldsAgree_of_among [.condition, .consequence, .alternative] (by decide)
        (fun field => by cases field <;> rfl) fun _ => rfl
    · exact fieldsAgree_of_among [.object, .index] (by decide) (fun field => by cases field <;> rfl)
        fun _ => rfl
    · exact fieldsAgree_of_among [.function] (by decide) (fun field => by cases field <;> rfl)
        fun index => fieldOfAny?_eq_fieldAmong? hsingle index .function

/-! ### Clauses of a row -/

theorem kind_ne_of_isTrivia {part : Tree} (htrivia : part.isTrivia = true) {kind : Kind}
    (hword : kind.isTrivia = false) : part.kind ≠ kind := by
  rintro rfl
  cases part with
  | token leaf => exact nomatch hword.symm.trans htrivia
  | node => exact nomatch htrivia

/-- The nodes in a row with their clauses, where some semicolons have been passed. -/
def clausesIn (semicolons : Nat) : List Tree → List (ForClause × Tree)
  | [] => []
  | part :: rest =>
    if part.kind == .semicolon then clausesIn (semicolons + 1) rest
    else if part.isNode then (clauseAfter semicolons, part) :: clausesIn semicolons rest
    else clausesIn semicolons rest

theorem map_clausesFrom (semicolons : Nat) (list : List (Child tree)) :
    (tree.clausesFrom semicolons list).map (fun (clause, part) => (clause, part.tree))
      = clausesIn semicolons (list.map Child.tree) := by
  fun_induction clausesFrom tree semicolons list with
  | case1 => rfl
  | case2 semicolons part rest hsemicolon ih =>
    rw [List.map_cons, clausesIn, show part.tree.kind = part.kind from rfl, if_pos hsemicolon]
    exact ih
  | case3 semicolons part rest hsemicolon hnode ih =>
    rw [List.map_cons, List.map_cons, clausesIn, show part.tree.kind = part.kind from rfl, if_neg hsemicolon,
      if_pos hnode, ih]
  | case4 semicolons part rest hsemicolon hnode ih =>
    rw [List.map_cons, clausesIn, show part.tree.kind = part.kind from rfl, if_neg hsemicolon, if_neg hnode]
    exact ih

/-- Blanks and comments make no clauses. -/
theorem clausesIn_filter (semicolons : Nat) (row : List Tree) :
    clausesIn semicolons (row.filter (!·.isTrivia)) = clausesIn semicolons row := by
  induction row generalizing semicolons with
  | nil => rfl
  | cons part rest ih =>
    cases htrivia : part.isTrivia with
    | true =>
      have hnode : part.isNode ≠ true := fun hnode => nomatch htrivia.symm.trans (isTrivia_of_isNode hnode)
      have hsemicolon : part.kind ≠ .semicolon := kind_ne_of_isTrivia htrivia rfl
      rw [List.filter_cons_of_neg (by simp [htrivia]), clausesIn, if_neg (by simpa using hsemicolon), if_neg hnode]
      exact ih semicolons
    | false =>
      rw [List.filter_cons_of_pos (by simp [htrivia]), clausesIn, clausesIn]
      simp only [ih]

theorem BuiltOf.map_forClauses {kind : Kind} {row : List Tree} (hbuilt : tree.BuiltOf kind row) :
    tree.forClauses.map (fun (clause, part) => (clause, part.tree))
      = clausesIn 0 (row.takeWhile (·.kind != .parenClose)) := by
  have hparts : (tree.parts.takeWhile (·.kind != .parenClose)).map Child.tree
      = tree.children.takeWhile (·.kind != .parenClose) := by
    rw [← map_tree_parts, List.takeWhile_map]
    rfl
  rw [forClauses, map_clausesFrom, hparts, ← hbuilt.filter_children, filter_takeWhile_filter, clausesIn_filter]
  exact fun part hpart => bne_iff_ne.mpr (kind_ne_of_isTrivia (by simpa using hpart) rfl)

end Tree

/-! ### Rows with one part in each place -/

open Squirrel.Tree

namespace Tree

theorem isExpression_eq_false_of_isStatement {tree : Tree} (hstatement : tree.isStatement = true) :
    tree.isExpression = false := by
  obtain ⟨hnode, hkind⟩ := Bool.and_eq_true_iff.mp hstatement
  rw [isExpression, hnode, Bool.true_and]
  revert hkind
  cases tree.kind <;> decide

theorem isNodeOf_eq_false_of_isStatement {tree : Tree} (hstatement : tree.isStatement = true) {kind : Kind}
    (hkind : kind.isStatement = false) : isNodeOf kind tree = false := by
  obtain ⟨hnode, hfound⟩ := Bool.and_eq_true_iff.mp hstatement
  rw [isNodeOf, hnode, Bool.true_and, beq_eq_false_iff_ne]
  rintro rfl
  rw [hfound] at hkind
  cases hkind

theorem isStatement_eq_false_of_isNodeOf {tree : Tree} {kind : Kind} (hnode : isNodeOf kind tree = true)
    (hkind : kind.isStatement = false) : tree.isStatement = false := by
  rw [isStatement, beq_iff_eq.mp (Bool.and_eq_true_iff.mp hnode).2, hkind, Bool.and_false]

theorem isExpression_eq_false_of_isNodeOf {tree : Tree} {kind : Kind} (hnode : isNodeOf kind tree = true)
    (hkind : kind.isExpression = false) : tree.isExpression = false := by
  rw [isExpression, beq_iff_eq.mp (Bool.and_eq_true_iff.mp hnode).2, hkind, Bool.and_false]

variable {kind : Kind} {row : List Tree} (hbuilt : tree.BuiltOf kind row)

namespace BuiltOf

include hbuilt

theorem length_expressions : tree.expressions.length = (row.filter Tree.isExpression).length := by
  rw [← List.length_map Child.tree, expressions, hbuilt.map_filter_nodes]
  rfl

theorem length_statements : tree.statements.length = (row.filter Tree.isStatement).length := by
  rw [← List.length_map Child.tree, statements, hbuilt.map_filter_nodes]
  rfl

theorem length_nodesOf (found : Kind) : (tree.nodesOf found).length = (row.filter (Tree.isNodeOf found)).length := by
  rw [← List.length_map Child.tree, hbuilt.map_nodesOf]

end BuiltOf

end Tree

/-- The parts of conditions and headers that may be missing. -/
def Phrase.Optional (phrase : Phrase) (row : List Tree) : Prop :=
  match phrase with
  | optionalExpression | forInitial => row.length ≤ 1
  | elseBranch => All (isNodeOf .elseStatement) row
  | _ => True

/-- A phrase fits, as an optional part too. -/
def Phrase.FitsOptional (phrase : Phrase) (row : List Tree) : Prop := phrase.Fits row ∧ phrase.Optional row

theorem Production.optional {phrase : Phrase} {form : Form} {body : List Item} {parts placed : List Tree}
    (hproduction : Production phrase form body) (hparts : RowOf Phrase.FitsOptional body parts)
    (hform : form.Holds parts placed) : phrase.Optional placed := by
  cases hproduction
  case noElse =>
    obtain rfl : placed = parts := hform
    obtain rfl : placed = [] := hparts
    exact .nil
  case someElse =>
    obtain rfl : placed = parts := hform
    obtain ⟨_, _, rfl, ⟨hbranch, -⟩, rfl⟩ := hparts
    rw [List.append_nil]
    exact One.all hbranch
  case noExpression =>
    obtain rfl : placed = parts := hform
    obtain rfl : placed = [] := hparts
    exact Nat.zero_le 1
  case someExpression | forLocal =>
    obtain rfl : placed = parts := hform
    obtain ⟨_, _, rfl, ⟨⟨tree, rfl, -⟩, -⟩, rfl⟩ := hparts
    exact Nat.le_refl 1
  case forExpression =>
    obtain rfl : placed = parts := hform
    obtain ⟨row, _, rfl, ⟨-, hone⟩, rfl⟩ := hparts
    rwa [List.append_nil]
  all_goals exact trivial

theorem Derives.rowOfOptional {items : List Item} {words last : List Word} {row : List Tree}
    (hderives : Derives items words last row) : RowOf Phrase.FitsOptional items row :=
  hderives.rowOf fun hproduction hparts hform =>
    ⟨hproduction.fits (hparts.rowFits fun _ _ => And.left) hform, hproduction.optional hparts hform⟩

namespace Tree

/-- A part of the header of a `for` that makes a clause. -/
def isClausePart (tree : Tree) : Bool := isExpression tree || isNodeOf .localDeclaration tree

theorem isNode_of_isClausePart {part : Tree} (hpart : part.isClausePart = true) : part.isNode = true := by
  obtain hpart | hpart := Bool.or_eq_true_iff.mp hpart
  · exact (Bool.and_eq_true_iff.mp hpart).1
  · exact (Bool.and_eq_true_iff.mp hpart).1

theorem kind_ne_of_isClausePart {part : Tree} (hpart : part.isClausePart = true) {kind : Kind}
    (hkind : (kind.isExpression || kind == .localDeclaration) = false) : part.kind ≠ kind := by
  rintro rfl
  rw [isClausePart, isExpression, isNodeOf, isNode_of_isClausePart hpart, Bool.true_and, Bool.true_and, hkind] at hpart
  cases hpart

theorem clausesIn_append {semicolons : Nat} {list : List Tree} (hlist : All isClausePart list) (rest : List Tree) :
    clausesIn semicolons (list ++ rest) = list.map (clauseAfter semicolons, ·) ++ clausesIn semicolons rest := by
  induction list with
  | nil => rfl
  | cons part list ih =>
    obtain ⟨hpart, hlist⟩ := List.forall_mem_cons.mp hlist
    have hsemicolon : part.kind ≠ .semicolon := kind_ne_of_isClausePart hpart rfl
    rw [List.cons_append, clausesIn, if_neg (by simpa using hsemicolon), if_pos (isNode_of_isClausePart hpart), ih hlist]
    rfl

/-- The clauses of a header with all its words. -/
theorem BuiltOf.forClauses_of_header {tree body : Tree} {keyword left first second right : Leaf}
    {initial condition increment : List Tree}
    (hbuilt : tree.BuiltOf .forStatement (.token keyword :: .token left :: (initial ++ .token first :: (condition ++
      .token second :: (increment ++ [.token right, body])))))
    (hkeyword : keyword.kind = .kwFor) (hleft : left.kind = .parenOpen) (hinitial : All isClausePart initial)
    (hfirst : first.kind = .semicolon) (hcondition : All isClausePart condition) (hsecond : second.kind = .semicolon)
    (hincrement : All isClausePart increment) (hright : right.kind = .parenClose) :
    tree.forClauses.map (fun (clause, part) => (clause, part.tree))
      = initial.map (.initial, ·) ++ (condition.map (.condition, ·) ++ increment.map (.increment, ·)) := by
  have hpass {list : List Tree} (hlist : All isClausePart list) :
      ∀ part ∈ list, (part.kind != .parenClose) = true :=
    fun part hmem => bne_iff_ne.mpr (kind_ne_of_isClausePart (hlist part hmem) rfl)
  have hheader : (.token keyword :: .token left :: (initial ++ .token first :: (condition ++ .token second ::
      (increment ++ [.token right, body]))) : List Tree).takeWhile (·.kind != .parenClose)
      = .token keyword :: .token left :: (initial ++ .token first :: (condition ++ .token second :: (increment ++ []))) := by
    have hword {leaf : Leaf} (hleaf : leaf.kind ≠ .parenClose) (rest : List Tree) :
        (.token leaf :: rest : List Tree).takeWhile (·.kind != .parenClose)
          = .token leaf :: rest.takeWhile (·.kind != .parenClose) :=
      List.takeWhile_cons_of_pos (bne_iff_ne.mpr hleaf)
    rw [hword (by rw [hkeyword]; decide), hword (by rw [hleft]; decide), List.takeWhile_append_of_pos (hpass hinitial),
      hword (by rw [hfirst]; decide), List.takeWhile_append_of_pos (hpass hcondition), hword (by rw [hsecond]; decide),
      List.takeWhile_append_of_pos (hpass hincrement), List.takeWhile_cons_of_neg (by simp [Tree.kind, hright])]
  have hpassed {semicolons : Nat} {leaf : Leaf} (hleaf : leaf.kind ≠ .semicolon) (rest : List Tree) :
      clausesIn semicolons (.token leaf :: rest) = clausesIn semicolons rest := by
    rw [clausesIn, if_neg (by simpa [Tree.kind] using hleaf)]
    rfl
  have hsemicolon {semicolons : Nat} {leaf : Leaf} (hleaf : leaf.kind = .semicolon) (rest : List Tree) :
      clausesIn semicolons (.token leaf :: rest) = clausesIn (semicolons + 1) rest := by
    rw [clausesIn, if_pos (by simpa [Tree.kind] using hleaf)]
  rw [hbuilt.map_forClauses, hheader, hpassed (by rw [hkeyword]; decide), hpassed (by rw [hleft]; decide),
    clausesIn_append hinitial, hsemicolon hfirst, clausesIn_append hcondition, hsemicolon hsecond,
    clausesIn_append hincrement]
  simp [clausesIn, clauseAfter]

theorem clausesSingle_of_forClauses {tree : Tree} {initial condition increment : List Tree}
    (hclauses : tree.forClauses.map (fun (clause, part) => (clause, part.tree))
      = initial.map (.initial, ·) ++ (condition.map (.condition, ·) ++ increment.map (.increment, ·)))
    (hinitial : initial.length ≤ 1) (hinitials : All isClausePart initial) (hcondition : condition.length ≤ 1)
    (hconditions : All isExpression condition) (hincrement : increment.length ≤ 1)
    (hincrements : All isExpression increment) : tree.ClausesSingle where
  nodup := by
    have hfst : tree.forClauses.map Prod.fst = (tree.forClauses.map fun (clause, part) => (clause, part.tree)).map Prod.fst := by
      rw [List.map_map]
      rfl
    rw [hfst, hclauses]
    match initial, condition, increment, hinitial, hcondition, hincrement with
    | [], [], [], _, _, _ | [], [], [_], _, _, _ | [], [_], [], _, _, _ | [], [_], [_], _, _, _ | [_], [], [], _, _, _
    | [_], [], [_], _, _, _ | [_], [_], [], _, _, _ | [_], [_], [_], _, _, _ => simp
  fits := by
    intro clause part hmem
    have hmem : (clause, part.tree) ∈ tree.forClauses.map fun (clause, part) => (clause, part.tree) :=
      List.mem_map.mpr ⟨_, hmem, rfl⟩
    rw [hclauses, List.mem_append, List.mem_append] at hmem
    obtain hmem | hmem | hmem := hmem
    · obtain ⟨found, hfound, heq⟩ := List.mem_map.mp hmem
      obtain ⟨rfl, rfl⟩ := Prod.mk.inj heq
      obtain hpart | hpart := Bool.or_eq_true_iff.mp (hinitials _ hfound)
      · exact .inl (Bool.and_eq_true_iff.mp hpart).2
      · exact .inr ⟨rfl, beq_iff_eq.mp (Bool.and_eq_true_iff.mp hpart).2⟩
    · obtain ⟨found, hfound, heq⟩ := List.mem_map.mp hmem
      obtain ⟨rfl, rfl⟩ := Prod.mk.inj heq
      exact .inl (Bool.and_eq_true_iff.mp (hconditions _ hfound)).2
    · obtain ⟨found, hfound, heq⟩ := List.mem_map.mp hmem
      obtain ⟨rfl, rfl⟩ := Prod.mk.inj heq
      exact .inl (Bool.and_eq_true_iff.mp (hincrements _ hfound)).2

end Tree

/-! ### Productions -/

/-- Nodes of other kinds have nothing to be single in. -/
theorem Tree.placesSingle_of_kind {tree : Tree} (hkind : tree.kind ∉ [.forStatement, .ifStatement, .elseStatement,
    .foreachStatement, .attributeEntry, .unaryExpression, .callExpression]) : tree.PlacesSingle := by
  rw [PlacesSingle]
  generalize tree.kind = kind at hkind
  split
  all_goals trivial

theorem placesSingle_of_for {tree : Tree} {row : List Tree} (hbuilt : tree.BuiltOf .forStatement row)
    (hparts : RowOf Phrase.FitsOptional [.word .kwFor, .word .parenOpen, .part .forInitial, .word .semicolon,
      .part .optionalExpression, .word .semicolon, .part .optionalExpression, .word .parenClose, .part .statement] row) :
    tree.PlacesSingle := by
  obtain ⟨keyword, _, rfl, hkeyword, left, _, rfl, hleft, initial, _, rfl, ⟨hinitials, hinitial⟩, first, _, rfl, hfirst,
    condition, _, rfl, ⟨hconditions, hcondition⟩, second, _, rfl, hsecond, increment, _, rfl, ⟨hincrements, hincrement⟩,
    right, _, rfl, hright, _, _, rfl, ⟨⟨body, rfl, hbody⟩, -⟩, rfl⟩ := hparts
  have hclause {list : List Tree} (hlist : All isExpression list) : All isClausePart list :=
    fun part hmem => Bool.or_eq_true_iff.mpr (.inl (hlist part hmem))
  rw [PlacesSingle, hbuilt.kind_eq]
  exact clausesSingle_of_forClauses (hbuilt.forClauses_of_header hkeyword hleft hinitials hfirst (hclause hconditions)
    hsecond (hclause hincrements) hright) hinitial hinitials hcondition hconditions hincrement hincrements

theorem placesSingle_of_if {tree : Tree} {row : List Tree} (hbuilt : tree.BuiltOf .ifStatement row)
    (hparts : RowOf Phrase.FitsOptional [.word .kwIf, .part .parenthesized, .part .statement, .part .elseBranch] row) :
    tree.PlacesSingle := by
  obtain ⟨keyword, _, rfl, -, _, _, rfl, ⟨⟨condition, rfl, hcondition⟩, -⟩, _, _, rfl, ⟨⟨body, rfl, hbody⟩, -⟩, branch, _,
    rfl, ⟨-, hbranch⟩, rfl⟩ := hparts
  have hothers (test : Tree → Bool) (htest : ∀ tree, isNodeOf .elseStatement tree = true → test tree = false) :
      branch.filter test = [] :=
    List.filter_eq_nil_iff.mpr fun part hmem => by simp [htest part (hbranch part hmem)]
  rw [PlacesSingle, hbuilt.kind_eq]
  constructor
  · rw [hbuilt.length_nodesOf]
    have helse := hothers (isNodeOf .parenthesizedExpression) fun _ hnode => isNodeOf_eq_false hnode (by decide)
    have hplain : isNodeOf .parenthesizedExpression body = false := isNodeOf_eq_false_of_isStatement hbody rfl
    simp [helse, hplain, hcondition, show isNodeOf .parenthesizedExpression (.token keyword) = false from rfl]
  · rw [hbuilt.length_statements]
    have helse := hothers isStatement fun _ hnode => isStatement_eq_false_of_isNodeOf hnode rfl
    simp [helse, isStatement_eq_false_of_isNodeOf hcondition rfl, hbody,
      show isStatement (.token keyword) = false from rfl]

theorem placesSingle_of_foreach {tree : Tree} {row : List Tree} (hbuilt : tree.BuiltOf .foreachStatement row)
    (hparts : RowOf Phrase.FitsOptional [.word .kwForeach, .word .parenOpen, .part .loopVariables, .word .kwIn,
      .part (.expression 0 false), .word .parenClose, .part .statement] row) : tree.PlacesSingle := by
  obtain ⟨keyword, _, rfl, -, left, _, rfl, -, bound, _, rfl, ⟨⟨hbound, -⟩, -⟩, sign, _, rfl, -, _, _, rfl,
    ⟨⟨collection, rfl, hcollection⟩, -⟩, right, _, rfl, -, _, _, rfl, ⟨⟨body, rfl, hbody⟩, -⟩, rfl⟩ := hparts
  have hnames : bound.filter isExpression = [] := by
    refine List.filter_eq_nil_iff.mpr fun part hmem => ?_
    cases part with
    | token => simp [isExpression, isNode]
    | node =>
      have hnever := hbound _ hmem
      cases hnever
  have hword (leaf : Leaf) : isExpression (.token leaf) = false := rfl
  rw [PlacesSingle, hbuilt.kind_eq]
  show tree.expressions.length ≤ 1
  rw [hbuilt.length_expressions]
  simp [hnames, hword, hcollection, isExpression_eq_false_of_isStatement hbody]

/-- A suffix that asks for no operand leaves the expression in front of it the only one. -/
theorem placesSingle_of_suffix {tree : Tree} {found : Suffix} {power : Nat} {tableAllowed : Bool}
    {condition : List Word → Prop} {row : List Tree} (hbuilt : tree.BuiltOf found.node row)
    (hparts : RowOf Phrase.FitsOptional
      [.part (.chain power tableAllowed), .check condition, .part (.suffix found)] row) : tree.PlacesSingle := by
  obtain ⟨_, _, rfl, ⟨⟨left, rfl, hleft⟩, -⟩, behind, _, rfl, ⟨hbehind, -⟩, rfl⟩ := hparts
  rw [List.append_nil] at hbuilt
  have hkind := hbuilt.kind_eq
  have hone (hbehind : behind.filter isExpression = []) : tree.expressions.length ≤ 1 := by
    rw [hbuilt.length_expressions, List.filter_append, hbehind, List.append_nil]
    exact List.length_filter_le ..
  cases found with
  | increment =>
    obtain ⟨sign, rfl, -⟩ := hbehind
    rw [PlacesSingle, hkind]
    exact hone rfl
  | call =>
    obtain ⟨arguments, rfl, harguments⟩ := hbehind
    rw [PlacesSingle, hkind]
    refine hone ?_
    rw [List.filter_cons_of_neg (by simp [isExpression_eq_false_of_isNodeOf harguments rfl]), List.filter_nil]
  | binary power => exact placesSingle_of_kind (by rw [hkind, Suffix.node]; decide)
  | _ => exact placesSingle_of_kind (by rw [hkind]; decide)

theorem Production.placesSingle {phrase : Phrase} {kind : Kind} {body : List Item} {row : List Tree} {tree : Tree}
    (hproduction : Production phrase (.node kind) body) (hparts : RowOf Phrase.FitsOptional body row)
    (hbuilt : tree.BuiltOf kind row) : tree.PlacesSingle := by
  have hkind := hbuilt.kind_eq
  have hword (leaf : Leaf) : isExpression (.token leaf) = false := rfl
  have hone (hrow : (row.filter isExpression).length ≤ 1) : tree.expressions.length ≤ 1 :=
    hbuilt.length_expressions ▸ hrow
  cases hproduction
  case forStatement => exact placesSingle_of_for hbuilt hparts
  case ifStatement => exact placesSingle_of_if hbuilt hparts
  case elseClause =>
    obtain ⟨keyword, _, rfl, -, _, _, rfl, ⟨⟨body, rfl, hbody⟩, -⟩, rfl⟩ := hparts
    rw [PlacesSingle, hkind]
    show tree.statements.length ≤ 1
    rw [hbuilt.length_statements]
    simp [show isStatement (.token keyword) = false from rfl, hbody]
  case foreachStatement => exact placesSingle_of_foreach hbuilt hparts
  case attributeEntry =>
    obtain ⟨name, _, rfl, -, sign, _, rfl, -, _, _, rfl, ⟨⟨value, rfl, hvalue⟩, -⟩, rfl⟩ := hparts
    rw [PlacesSingle, hkind]
    exact hone (by simp [hword, hvalue])
  case chainSuffix => exact placesSingle_of_suffix hbuilt hparts
  case prefixed =>
    obtain ⟨sign, _, rfl, -, _, _, rfl, ⟨⟨operand, rfl, hoperand⟩, -⟩, rfl⟩ := hparts
    rw [PlacesSingle, hkind]
    exact hone (by simp [hword, hoperand])
  case rawcall =>
    obtain ⟨keyword, _, rfl, -, _, _, rfl, ⟨⟨arguments, rfl, harguments⟩, -⟩, rfl⟩ := hparts
    rw [PlacesSingle, hkind]
    exact hone (by simp [hword, isExpression_eq_false_of_isNodeOf harguments rfl])
  case keyword hkeyword =>
    exact placesSingle_of_kind (hkind ▸ Grammar.forall_keywordNode? (P := (· ∉ _)) hkeyword (by decide))
  case jump hjump => exact placesSingle_of_kind (hkind ▸ Grammar.forall_jumpNode? (P := (· ∉ _)) hjump (by decide))
  all_goals exact placesSingle_of_kind (by rw [hkind]; decide)

/-! ### Scripts -/

/-- In a valid script each child of a node whose children have fields stands in a field just if the accessor of the node
for this field gives the child, and in none if no accessor does. -/
theorem Script.field_iff_accessor {source : String} {limits : Limits} {script : Script}
    (hparse : Script.parse source limits = .ok script) (hvalid : script.isValid = true) {parent : Tree}
    (hwithin : parent.Within script.root) (hnode : parent.isNode = true) (hkind : parent.kind ∈ Tree.fieldParents)
    (child : Child parent) (hchild : child.tree.isNode = true) :
    (∀ field, parent.fieldAt? child.index = some field ↔ parent.accessor? field = some child.address) ∧
      (parent.fieldAt? child.index = none ↔ ∀ field, parent.accessor? field ≠ some child.address) := by
  have hother : ∀ kind ∈ [Kind.script, .integer, .float, .str, .verbatimStr, .char, .bool, .null], kind ∉
      [Kind.forStatement, .ifStatement, .elseStatement, .foreachStatement, .attributeEntry, .unaryExpression,
        .callExpression] := by decide
  have hsingle : parent.PlacesSingle :=
    Script.forall_nodes hparse (diagnostics_eq_nil hvalid) (fun tree hkind => placesSingle_of_kind (hother _ hkind))
      (fun hproduction hbody hbuilt => hproduction.placesSingle hbody.rowOfOptional hbuilt) parent hwithin hnode
  have hagree := hsingle.fieldsAgree hnode hkind child hchild
  refine ⟨hagree, ?_⟩
  rw [Option.eq_none_iff_forall_ne_some]
  exact forall_congr' fun field => not_congr (hagree field)

/-- Of the header `(; a; )` only the condition is there, and the body of the loop stands in no field. -/
theorem Script.field_iff_accessor_condition :
    ∃ (script : Script) (parent : Tree) (condition body : Child parent),
      Script.parse "for (; a; ) b;" .unbounded = .ok script ∧ script.isValid = true ∧ parent.Within script.root ∧
      parent.kind = .forStatement ∧
      (condition.kind = .identifier ∧ parent.fieldAt? condition.index = some .condition ∧
        parent.accessor? .condition = some condition.address) ∧
      body.kind = .expressionStatement ∧ parent.fieldAt? body.index = none ∧
        ∀ field, parent.accessor? field ≠ some body.address := by
  have houtcome : (Script.outcome? "for (; a; ) b;" .unbounded).any (fun outcome => outcome.2 &&
      outcome.1.places.any fun place => place.tree.kind == .forStatement &&
        (place.tree.parts.any fun child => child.tree.isNode && child.kind == .identifier &&
          place.tree.fieldAt? child.index == some .condition) &&
        place.tree.parts.any fun child => child.tree.isNode && child.kind == .expressionStatement &&
          place.tree.fieldAt? child.index == none) = true := by decide +kernel
  obtain ⟨script, clean, hparse, hclean, htest⟩ := Script.exists_of_outcome houtcome
  simp only [Bool.and_eq_true, List.any_eq_true, beq_iff_eq] at htest
  obtain ⟨htrue, place, hplace, ⟨hkind, condition, -, ⟨hcondition, hname⟩, hfield⟩, body, -, ⟨hbody, hstatement⟩, hnone⟩ :=
    htest
  have hvalid : script.isValid = true := by rw [isValid, hclean htrue]; rfl
  obtain ⟨hwithin, hnode⟩ := within_of_mem_placesFrom hplace
  have hparent : place.tree.kind ∈ Tree.fieldParents := by
    rw [hkind]
    decide
  have hfirst := Script.field_iff_accessor hparse hvalid hwithin hnode hparent condition hcondition
  have hsecond := Script.field_iff_accessor hparse hvalid hwithin hnode hparent body hbody
  exact ⟨script, place.tree, condition, body, hparse, hvalid, hwithin, hkind,
    ⟨hname, hfield, (hfirst.1 .condition).mp hfield⟩, hstatement, hnone, hsecond.2.mp hnone⟩

end Squirrel
