import Squirrel.Proofs.Grammar.Orderly
import Squirrel.Proofs.Grammar.Sides
import Squirrel.Proofs.Tree.Behind

/-!
# An `else` belongs to the nearest `if`

Behind its branch an `if` looks at the next word and takes it if it is an `else`. So no `else` follows an `if` that has
none, and what follows the branch of an `if` with an `else` is that very `else`. Both speak of the leaves behind a node,
which stay what they are through the rest of the parse, whatever the node is put under. An `if` without an `else` that
ends where a branch ends would have the `else` behind the branch behind itself.
-/

namespace Squirrel

open Squirrel.Tree

/-- No `else` follows an `if` without one, and the `else` of an `if` that has one is what follows its branch. -/
def Tree.AttachesElse (tree : Tree) (behind : List Leaf) : Prop := tree.kind = .ifStatement →
  (tree.nodeOf? .elseStatement = none → ∀ word ∈ Leaf.firstWord? behind, word.kind ≠ .kwElse) ∧
  ((tree.nodeOf? .elseStatement).isSome → ∀ branch ∈ tree.statement?.map Child.tree, ∃ left right,
    tree.children = left ++ branch :: right ∧ ∃ word ∈ Leaf.firstWord? (leavesOf right ++ behind), word.kind = .kwElse)

/-! ### What an `if` consists of -/

namespace State.Laid

variable {holds : Tree → Prop} {older row : List Tree} {state : State}

/-- Trivia aside, the next word is the one that is looked at. -/
theorem firstWord?_rest (hlaid : state.Laid holds older row) (hword : (kindOf state.ahead).isTrivia = false) :
    Leaf.firstWord? (state.rest.map Token.leaf) = state.ahead.head?.map Token.leaf := by
  have hpending : ∀ leaf ∈ state.pending.reverse.map Token.leaf, leaf.kind.isTrivia = true := by
    intro leaf hmem
    obtain ⟨token, htoken, rfl⟩ := List.mem_map.mp hmem
    exact hlaid.clean token (List.mem_reverse.mp htoken)
  rw [rest, List.map_append, Leaf.firstWord?_append_of_trivia hpending]
  cases hahead : state.ahead with
  | nil => rfl
  | cons token others =>
    rw [hahead] at hword
    have hleaf : (!token.leaf.kind.isTrivia) = true := by rw [show token.leaf.kind.isTrivia = false from hword]; rfl
    exact List.find?_cons_of_pos hleaf

end State.Laid

namespace Grammar

open Rule

variable {runCall : Nonterminal → State → Except Fault State} {holds : Tree → Prop} {here : Kind} {bound : Nat}

/-- Nothing, or one statement, or an error in its place. -/
def AtMostStatement (row : List Tree) : Prop :=
  row = [] ∨ ∃ kind children, row = [.node kind children] ∧ (kind.isStatement = true ∨ kind = .error)

/-- Words, and a condition in parentheses as the only node. -/
def IsHeader (row : List Tree) : Prop := ∀ part ∈ row, part.isNode = true → part.kind = .parenthesizedExpression

theorem lays_startsStatement : startsStatement.Lays runCall holds here fun _ more _ => more = [] := by
  refine lays_bind lays_current fun kind more _ hfirst => lays_pure ?_
  rw [hfirst.1]
  rfl

theorem lays_knownStatement (hcalls : LayingCalls runCall) :
    knownStatement.Lays runCall Tree.KeepsSides here fun _ more _ => AtMostStatement more := by
  have hone {kind here : Kind} {inner : Rule Unit} (hsides : kind.hasSides = false)
      (hinner : ∀ base, inner.Plain base fun _ => True) (hkind : kind.isStatement = true) :
      (node kind inner).Lays runCall Tree.KeepsSides here fun _ more _ => AtMostStatement more :=
    (lays_plainNode hcalls hsides hinner).mono fun _ _ _ ⟨children, hmore⟩ => .inr ⟨kind, children, hmore, .inl hkind⟩
  refine lays_bind lays_current fun kind first _ hfirst => ?_
  rw [hfirst.1]
  split
  case h_15 =>
    refine lays_bind (lays_still .next rfl) fun next second _ hsecond => ?_
    rw [hsecond.1]
    exact lays_ite (fun _ => hone rfl (fun _ => by simp) rfl) fun _ => hone rfl (fun _ => by simp) rfl
  all_goals exact hone rfl (fun _ => by simp) rfl

theorem lays_statement (hcalls : LayingCalls runCall) :
    statement.Lays runCall Tree.KeepsSides here fun _ more _ => AtMostStatement more := by
  refine lays_bind (lays_still .descend rfl) fun descended first _ hfirst => ?_
  rw [hfirst.1]
  refine lays_ite (fun _ => ?_) fun _ => (lays_plainNode hcalls rfl fun _ => by simp).mono fun _ _ _ hmore =>
    .inr ⟨.error, _, hmore.choose_spec, .inr rfl⟩
  have ascends {next : Kind} {rule : Rule Unit}
      (hrule : rule.Lays runCall Tree.KeepsSides next fun _ more _ => AtMostStatement more) :
      (do rule; ofStep .ascend : Rule Unit).Lays runCall Tree.KeepsSides next fun _ more _ => AtMostStatement more := by
    refine lays_bind hrule fun _ more _ hmore => (lays_still .ascend rfl).mono fun _ last _ hlast => ?_
    rwa [hlast.1, List.append_nil]
  have herror {more : List Tree} (hmore : more = [] ∨ ∃ children, more = [.node .error children]) :
      AtMostStatement more :=
    hmore.imp_right fun ⟨children, hmore⟩ => ⟨.error, children, hmore, .inr rfl⟩
  refine lays_bind lays_currentIs fun garbage second _ hsecond => ?_
  rw [hsecond.1]
  refine lays_ite (fun _ => ascends ((lays_advanceGarbage hcalls).mono fun _ _ _ => herror)) fun _ => ?_
  refine lays_bind lays_startsStatement fun starts third _ hthird => ?_
  rw [hthird]
  refine lays_ite (fun _ => ascends (lays_knownStatement hcalls)) fun _ => ascends ?_
  refine lays_bind (lays_still .stopped rfl) fun halted fourth _ hfourth => ?_
  rw [hfourth.1]
  refine lays_ite (fun _ => lays_pure (.inl rfl)) fun _ => ?_
  exact (lays_plainNode hcalls rfl fun _ => by simp).mono fun _ _ _ hmore => herror (.inr hmore)

theorem lays_body (owner : String) :
    (body owner).Lays (Nonterminal.run bound) Tree.KeepsSides here fun _ more _ => AtMostStatement more := by
  refine lays_bind lays_startsStatement fun starts first _ hfirst => ?_
  rw [hfirst]
  refine lays_ite (fun _ => ?_) fun _ => lays_reportHere.mono fun _ _ _ hmore => .inl hmore
  intro older row state _ after hlaid hhere hexec
  have hrun := run_of_exec_call hexec
  cases bound with
  | zero => cases hrun
  | succ bound => exact lays_statement (layingCalls_run bound) older row state () after hlaid hhere (exec_of_run hrun)

/-- The end of an `if`, behind its condition. -/
def ifEnd : Rule Unit := do
  body "`if` branch"
  if ← currentIs .kwElse then
    node .elseStatement do
      advance
      body "`else` branch"

/-- The only statement among the parts of an `if` is its branch. -/
theorem branch_eq {front branch : List Tree} {elseNode tree : Tree}
    (hfront : IsHeader front) (hbranch : AtMostStatement branch) (helse : elseNode.kind = .elseStatement)
    (hfound : (front ++ branch ++ [elseNode]).find? isStatement = some tree) : branch = [tree] := by
  have hstatement : isStatement tree = true := List.find?_some hfound
  obtain ⟨hnode, hkind⟩ := Bool.and_eq_true_iff.mp hstatement
  obtain hmem | hmem := List.mem_append.mp (List.mem_of_find?_eq_some hfound)
  · obtain hmem | hmem := List.mem_append.mp hmem
    · rw [hfront tree hmem hnode] at hkind
      cases hkind
    · obtain rfl | ⟨kind, children, rfl, -⟩ := hbranch
      · cases hmem
      · rw [List.mem_singleton.mp hmem]
  · rw [List.mem_singleton.mp hmem, helse] at hkind
    cases hkind

/-- Behind the last part of a row there is only trivia. -/
theorem exists_split_of_items {trees front : List Tree} {last : Tree} (hitems : items trees = front ++ [last]) :
    ∃ left right, trees = left ++ last :: right ∧ ∀ tree ∈ right, tree.isTrivia = true := by
  obtain ⟨left, rest, rfl, -, hrest⟩ := List.filter_eq_append_iff.mp hitems
  obtain ⟨skipped, right, rfl, -, -, hright⟩ := List.filter_eq_cons_iff.mp hrest
  refine ⟨left ++ skipped, right, (List.append_assoc ..).symm, fun tree hmem => ?_⟩
  simpa using List.filter_eq_nil_iff.mp hright tree hmem

/-- The statement of an `if` is its branch, and what follows the branch is the `else` that the `if` takes. -/
theorem attachesElse_of_node {inner : Rule Unit} {front branch : List Tree} {looked after : State} {word : Leaf}
    (hlooked : looked.Laid Tree.KeepsSides [] (front ++ branch)) (hfront : IsHeader front)
    (hbranch : AtMostStatement branch) (hfirst : Leaf.firstWord? (looked.rest.map Token.leaf) = some word)
    (hword : word.kind = .kwElse)
    (hexec : (node .elseStatement inner).exec (Nonterminal.run bound) looked = .ok ((), after)) :
    (Tree.node .ifStatement after.placed.reverse).AttachesElse (after.rest.map Token.leaf) := by
  have hrow : after.row = looked.row := kept_row.exec (kept_row.run bound) hexec
  obtain ⟨stop, -, hafter⟩ := exec_node_ok hexec
  obtain ⟨laid, hplaced, hitems, -⟩ := hlooked.placed
  rw [List.append_nil] at hplaced
  subst hplaced
  have hpending : ∀ tree ∈ (looked.pending.map State.leafOf).reverse, tree.isTrivia = true := by
    intro tree hmem
    obtain ⟨token, htoken, rfl⟩ := List.mem_map.mp (List.mem_reverse.mp hmem)
    exact hlooked.clean token htoken
  have hchildren : after.placed.reverse = looked.placed.reverse ++
      ((looked.pending.map State.leafOf).reverse ++ [.node .elseStatement stop.placed.reverse]) := by
    rw [hafter, List.reverse_cons, State.placePending, List.reverse_append, List.append_assoc]
  have hbuilt : (Tree.node .ifStatement after.placed.reverse).BuiltOf .ifStatement
      (front ++ branch ++ [.node .elseStatement stop.placed.reverse]) := by
    refine ⟨_, rfl, ?_⟩
    rw [hchildren, items_append, items_append, hitems, items_eq_nil hpending]
    rfl
  refine fun _ => ⟨fun hnone => ?_, fun _ tree hmem => ?_⟩
  · have hmem : Tree.node .elseStatement stop.placed.reverse ∈ front ++ branch ++ [.node .elseStatement stop.placed.reverse] :=
      List.mem_append_right _ List.mem_cons_self
    have hsome : ((Tree.node .ifStatement after.placed.reverse).nodeOf? .elseStatement).isSome :=
      hbuilt.nodeOf?_isSome hmem rfl
    rw [hnone] at hsome
    cases hsome
  · rw [hbuilt.map_statement?] at hmem
    obtain rfl := branch_eq hfront hbranch rfl hmem
    obtain ⟨left, right, hsplit, hright⟩ := exists_split_of_items hitems
    rw [hsplit, List.append_assoc, List.cons_append] at hchildren
    refine ⟨left, _, hchildren, word, ?_, hword⟩
    -- the row shows what is behind the branch: it is what was there when the `if` looked at the next word
    rw [State.row_eq, State.row_eq, State.trees, State.trees, hchildren, hsplit] at hrow
    simp only [List.append_assoc, leavesOf_append, List.cons_append, leavesOf, Tree.leavesOf_map_leafOf,
      List.append_cancel_left_eq] at hrow
    rw [leavesOf_append, List.append_assoc, firstWord?_of_trivia hright, leavesOf_append, List.append_assoc, leavesOf,
      leavesOf, List.append_assoc, hrow]
    exact hfirst

/-- The word that follows the branch decides whether the `if` gets an `else`. -/
theorem attachesElse_of_ifEnd {front : List Tree} {state after : State} (hlaid : state.Laid Tree.KeepsSides [] front)
    (hfront : IsHeader front) (hexec : ifEnd.exec (Nonterminal.run bound) state = .ok ((), after)) :
    (Tree.node .ifStatement after.placed.reverse).AttachesElse (after.rest.map Token.leaf) := by
  obtain ⟨⟨⟩, behind, hbody, hexec⟩ := exec_bind_ok hexec
  obtain ⟨branch, hbehind, hbranch⟩ := lays_body _ [] front state () behind hlaid rfl hbody
  obtain ⟨found, looked, hcurrent, hexec⟩ := exec_bind_ok hexec
  obtain ⟨_, hlooked, rfl, hfound, hword, -⟩ := lays_currentIs [] _ behind found looked hbehind rfl hcurrent
  rw [List.append_nil] at hlooked
  have hfirst := hlooked.firstWord?_rest hword
  have hnone : ∀ tree ∈ front ++ branch, isNodeOf .elseStatement tree = false := by
    refine List.forall_mem_append.mpr ⟨fun tree hmem => ?_, ?_⟩
    · refine Bool.eq_false_iff.mpr fun helse => ?_
      obtain ⟨hnode, hkind⟩ := Bool.and_eq_true_iff.mp helse
      rw [hfront tree hmem hnode] at hkind
      cases hkind
    · obtain rfl | ⟨kind, children, rfl, hkind⟩ := hbranch
      · exact List.forall_mem_nil _
      · refine List.forall_mem_singleton.mpr (Bool.eq_false_iff.mpr fun helse => ?_)
        obtain rfl : kind = .elseStatement := eq_of_beq (Bool.and_eq_true_iff.mp helse).2
        obtain hkind | hkind := hkind <;> cases hkind
  intro _
  split at hexec
  · next hyes =>
    rw [hfound] at hyes
    cases hahead : looked.ahead with
    | nil =>
      rw [hahead] at hyes
      cases hyes
    | cons token others =>
      rw [hahead] at hyes hfirst
      exact attachesElse_of_node hlooked hfront hbranch hfirst (eq_of_beq hyes) hexec rfl
  · next hno =>
    -- the node ends here, in front of another word or of the end
    obtain ⟨-, rfl⟩ := Prod.mk.inj (Except.ok.inj hexec)
    have hbuilt : (Tree.node .ifStatement looked.placed.reverse).BuiltOf .ifStatement (front ++ branch) := by
      obtain ⟨laid, hplaced, hrow, -⟩ := hlooked.placed
      rw [List.append_nil] at hplaced
      exact ⟨_, rfl, by rw [hplaced, hrow]⟩
    refine ⟨fun _ word hmem hkind => hno ?_, fun helse => ?_⟩
    · rw [hfirst] at hmem
      obtain ⟨token, htoken, rfl⟩ := Option.map_eq_some_iff.mp hmem
      obtain ⟨others, hahead⟩ := List.head?_eq_some_iff.mp htoken
      rw [hfound, hahead]
      exact beq_iff_eq.mpr hkind
    · rw [hbuilt.nodeOf?_isSome_eq, List.any_eq_true] at helse
      obtain ⟨tree, hmem, htree⟩ := helse
      rw [hnone tree hmem] at htree
      cases htree

theorem attachesElse_of_ifBody {state after : State} (hclean : ∀ token ∈ state.pending, token.kind.isTrivia = true)
    (hplaced : state.placed = []) (hexec : ifBody.exec (Nonterminal.run bound) state = .ok ((), after)) :
    (Tree.node .ifStatement after.placed.reverse).AttachesElse (after.rest.map Token.leaf) := by
  obtain ⟨⟨⟩, first, hadvance, hexec⟩ := exec_bind_ok hexec
  have hstart : state.Laid Tree.KeepsSides [] [] := .fresh hclean hplaced
  obtain ⟨_, hfirst, leaf, -, rfl⟩ := lays_advance [] [] state () first hstart rfl hadvance
  obtain ⟨opens, second, hcurrent, hexec⟩ := exec_bind_ok hexec
  obtain ⟨_, hsecond, rfl, -⟩ := lays_currentIs [] _ first opens second hfirst rfl hcurrent
  have hword {word : Leaf} : IsHeader [token word] := by
    intro part hmem hnode
    rw [List.mem_singleton.mp hmem] at hnode
    cases hnode
  have hfront : IsHeader ([] ++ items [token leaf] ++ []) := by
    rw [List.nil_append, List.append_nil]
    exact fun part hmem => hword part (List.mem_of_mem_filter hmem)
  split at hexec
  · obtain ⟨⟨⟩, third, hparen, hend⟩ := exec_bind_ok hexec
    obtain ⟨_, hthird, children, rfl⟩ :=
      lays_plainNode (layingCalls_run bound) rfl (fun _ => by simp) [] _ second () third hsecond rfl hparen
    refine attachesElse_of_ifEnd hthird (List.forall_mem_append.mpr ⟨hfront, ?_⟩) hend
    exact List.forall_mem_singleton.mpr fun _ => rfl
  · obtain ⟨opened, third, hexpect, hend⟩ := exec_bind_ok hexec
    obtain ⟨more, hthird, htaken, -⟩ := lays_expect [] _ second opened third hsecond rfl hexpect
    refine attachesElse_of_ifEnd hthird (List.forall_mem_append.mpr ⟨hfront, ?_⟩) hend
    obtain rfl | ⟨word, rfl⟩ := htaken.atMostWord
    · exact List.forall_mem_nil _
    · exact hword

end Grammar

/-! ### Whole parses -/

/-- Closing a node keeps what holds of all nodes, if it holds of the new one. -/
theorem State.eachOfBefore_wrap {holds : Tree → List Leaf → Prop} {kind : Kind} {since : Nat} {state after : State}
    (hrow : after.row = { state with placed := state.placed.take since }.row)
    (hstate : EachOfBefore holds [] state.trees) (hafter : EachOfBefore holds [] after.trees)
    (hnode : holds (.node kind after.placed.reverse) (after.rest.map Token.leaf)) :
    EachOfBefore holds []
      { after with placed := .node kind after.placed.reverse :: state.placed.drop since }.trees := by
  obtain ⟨holder, -⟩ := eachOfBefore_append.mp (state.trees_opened since ▸ hstate)
  rw [← State.row_eq, ← hrow, State.row_eq] at holder
  obtain ⟨hinner, hrest⟩ := eachOfBefore_append.mp hafter
  rw [trees, List.reverse_cons, List.append_assoc]
  refine eachOfBefore_append.mpr ⟨?_, ⟨?_, hinner⟩, hrest⟩
  · rwa [trees, leavesOf_append] at holder
  · show holds _ (leavesOf (after.rest.map leafOf) ++ [])
    rwa [leavesOf_map_leafOf, List.append_nil]

theorem State.upheld_attachesElse : State.Upheld fun state => EachOfBefore Tree.AttachesElse [] state.trees where
  step s _ _ _ hrun hstate := s.trees_run hrun ▸ hstate
  opened since _ hstate := (eachOfBefore_append.mp (State.trees_opened _ since ▸ hstate)).2
  wrap kind since bound inner state after hclean hif hinner hstate hafter := by
    refine State.eachOfBefore_wrap (Rule.kept_row.exec (Rule.kept_row.run bound) hinner) hstate hafter fun hkind => ?_
    obtain ⟨rfl, rfl⟩ := hif hkind
    obtain rfl : kind = .ifStatement := hkind
    refine Grammar.attachesElse_of_ifBody ?_ ?_ hinner rfl
    · exact hclean
    · rfl

/-- In every node of a script the leaves behind tell what is attached to it. -/
theorem Script.attachesElse_of_parse {source : String} {limits : Limits} {script : Script}
    (hparse : Script.parse source limits = .ok script) : ∃ behind, EachBefore Tree.AttachesElse behind script.root := by
  have hinitial : EachOfBefore Tree.AttachesElse []
      (State.initial limits (Lexed.ofSource source).tokens source.utf8ByteSize).trees := by
    refine eachOfBefore_of_tokens fun tree hmem => ?_
    obtain ⟨token, -, rfl⟩ := List.mem_map.mp hmem
    rfl
  obtain ⟨last, hlast, -, hroot, -⟩ := Script.exists_last State.upheld_attachesElse hinitial hparse
  rw [hroot]
  exact ⟨_, nofun, (eachOfBefore_append.mp hlast).1⟩

/-- No leaf of a script is empty. -/
theorem Script.pos_of_mem_leaves {source : String} {limits : Limits} {script : Script}
    (hparse : Script.parse source limits = .ok script) : ∀ leaf ∈ script.root.leaves, 0 < leaf.text.utf8ByteSize := by
  rw [(Script.leaves_root hparse).1]
  intro leaf hmem
  obtain ⟨token, htoken, rfl⟩ := List.mem_map.mp hmem
  have hpos := ((Lexed.tile_ofSource source).1.bounds.2 token htoken).2.1
  exact Nat.lt_of_add_lt_add_left (n := token.start) hpos

/-- Within the branch of an `if` that has an `else`, wherever the branch starts, no `if` without an `else` ends where the
branch ends: the `else` behind the branch would be its own. -/
theorem Script.else_of_nearest {source : String} {limits : Limits} {script : Script}
    (hparse : Script.parse source limits = .ok script) {tree : Tree} (hwithin : tree.Within script.root)
    (hkind : tree.kind = .ifStatement) (helse : (tree.nodeOf? .elseStatement).isSome) {branch : Child tree}
    (hbranch : tree.statement? = some branch) {start : Nat} {field? : Option Field} {inner : Place}
    (hinner : inner ∈ branch.tree.placesFrom start field?) (hif : inner.tree.kind = .ifStatement)
    (hnone : inner.tree.nodeOf? .elseStatement = none) :
    inner.start + inner.tree.width ≠ start + branch.tree.width := by
  intro hstop
  obtain ⟨behind, heach⟩ := Script.attachesElse_of_parse hparse
  obtain ⟨before, after, hbetween⟩ := hwithin.exists_between
  cases tree with
  | token leaf => cases helse
  | node kind children =>
    have hmem : branch.tree ∈ (Tree.node kind children).statement?.map Child.tree := by
      rw [hbranch]
      rfl
    obtain ⟨left, right, hchildren, word, hword, hkwElse⟩ :=
      (heach.of_between hbetween rfl hkind).2 helse branch.tree hmem
    have hchild : branch.tree.Between (leavesOf left ++ []) ([] ++ leavesOf right)
        (.node kind (left ++ branch.tree :: right)) := .child .self
    rw [← hchildren] at hchild
    have hroot := hchild.trans hbetween
    have hpos : ∀ leaf ∈ branch.tree.leaves, 0 < leaf.text.utf8ByteSize := by
      intro leaf hleaf
      refine Script.pos_of_mem_leaves hparse leaf ?_
      rw [hroot.leaves]
      exact List.mem_append_right _ (List.mem_append_left _ hleaf)
    -- the leaves behind the inner `if` are those behind the branch
    obtain ⟨skipped, hlast⟩ := exists_between_of_stop_eq hpos hinner hstop
    have hfree := (heach.of_between (hlast.trans hroot) (within_of_mem_placesFrom hinner).2 hif).1 hnone word
    rw [List.nil_append, List.nil_append, List.append_assoc] at hfree
    exact hfree hword hkwElse

/-- In a block the inner `if` ends before the brace that ends the branch, so that the `else` belongs to the outer one. -/
theorem Script.else_of_nearest_block : ∃ (script : Script) (tree : Tree) (branch : Child tree) (inner : Place),
    Script.parse "if (a) \x7b if (b) c \x7d else d" .unbounded = .ok script ∧ tree.Within script.root ∧
      tree.kind = .ifStatement ∧ (tree.nodeOf? .elseStatement).isSome ∧ tree.statement? = some branch ∧
      inner ∈ branch.tree.places ∧ inner.tree.kind = .ifStatement ∧ inner.tree.nodeOf? .elseStatement = none ∧
      inner.start + inner.tree.width ≠ 0 + branch.tree.width := by
  have houtcome : (Script.outcome? "if (a) \x7b if (b) c \x7d else d" .unbounded).any (fun outcome =>
      outcome.1.places.any fun outer => outer.tree.kind == .ifStatement && (outer.tree.nodeOf? .elseStatement).isSome &&
        outer.tree.statement?.any fun branch => branch.tree.places.any fun inner =>
          inner.tree.kind == .ifStatement && (inner.tree.nodeOf? .elseStatement).isNone) = true := by decide +kernel
  obtain ⟨script, clean, hparse, -, htest⟩ := Script.exists_of_outcome houtcome
  obtain ⟨outer, houter, htest⟩ := List.any_eq_true.mp htest
  rw [Bool.and_eq_true, Bool.and_eq_true, Option.any_eq_true] at htest
  obtain ⟨⟨hkind, helse⟩, branch, hbranch, htest⟩ := htest
  obtain ⟨inner, hinner, htest⟩ := List.any_eq_true.mp htest
  obtain ⟨hif, hnone⟩ := Bool.and_eq_true_iff.mp htest
  have hwithin := (within_of_mem_placesFrom houter).1
  have hnothing := Option.isNone_iff_eq_none.mp hnone
  exact ⟨script, outer.tree, branch, inner, hparse, hwithin, eq_of_beq hkind, helse, hbranch, hinner, eq_of_beq hif,
    hnothing, Script.else_of_nearest hparse hwithin (eq_of_beq hkind) helse hbranch hinner (eq_of_beq hif) hnothing⟩

end Squirrel
