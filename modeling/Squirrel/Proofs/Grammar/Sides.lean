import Squirrel.Proofs.Grammar.Complete.Expression
import Squirrel.Proofs.Grammar.Laying
import Squirrel.Proofs.Grammar.Sound.Expression

/-!
# Operands keep to their sides

Where a parse leaves an operand out, what comes next keeps its own side: an operator's left operand is laid before it
and its right one behind it, and so it is with the brackets and signs of slots and members. So the views, which count,
give the expressions of a node in the order of its sides, whatever has been reported.
-/

namespace Squirrel

open Squirrel.Tree

/-- Nodes of a kind that are built of a row keep to their sides. -/
def Kind.KeepsSides (kind : Kind) (row : List Tree) : Prop := ∀ tree : Tree, tree.BuiltOf kind row → tree.KeepsSides

theorem Kind.keepsSides_of_plain {kind : Kind} (hkind : kind.hasSides = false) (row : List Tree) :
    kind.KeepsSides row := by
  rintro tree ⟨children, rfl, -⟩
  exact Tree.keepsSides_of_plain hkind children

/-- An operator between its operands. -/
theorem keepsSides_signed {found : Suffix} {sign : Leaf} (hstarts : found.Starts sign.kind) {left right : List Tree}
    (hsigned : found = .assignment ∨ found = .update ∨ ∃ power, found = .binary power) (hleft : AtMostNode left)
    (hright : AtMostNode right) : found.node.KeepsSides (left ++ token sign :: right) := by
  intro tree hbuilt
  have hsign : (found = .assignment ∨ found = .update) → TokenSet.assignOperators.contains sign.kind = true := by
    rintro (rfl | rfl)
    · rw [show sign.kind = .equals from hstarts]
      decide
    · exact contains_of_isUpdate hstarts
  obtain rfl | rfl | ⟨power, rfl⟩ := hsigned
  · refine keepsSides_infix hbuilt ?_ hleft hright (hsign (.inl rfl))
    rw [operands, asExpression?, hbuilt.isNode, hbuilt.kind_eq]
    rfl
  · refine keepsSides_infix hbuilt ?_ hleft hright (hsign (.inr rfl))
    rw [operands, asExpression?, hbuilt.isNode, hbuilt.kind_eq]
    rfl
  · have hpower : (Power.binary? sign.kind).isSome = true := by
      rw [show Power.binary? sign.kind = some power from hstarts]
      rfl
    have hoperands : tree.operands
        = tree.countedOperands [.front, .behind fun kind => (Power.binary? kind).isSome] := by
      rw [operands, asExpression?, hbuilt.isNode, hbuilt.kind_eq]
      rfl
    exact keepsSides_infix hbuilt hoperands hleft hright hpower

namespace Grammar

open Rule

variable {runCall : Nonterminal → State → Except Fault State} {here : Kind}

section

variable (hcalls : LayingCalls runCall)
include hcalls

/-! ### Operands -/

theorem lays_expressionCall (power : Nat) (tableAllowed : Bool) :
    (call (.expression power tableAllowed)).Lays runCall Tree.KeepsSides here fun _ more _ => AtMostNode more := by
  intro older row state _ after hlaid _ hexec
  exact hcalls.expression power tableAllowed older row state after hlaid (run_of_exec_call hexec)

theorem lays_plainNode {kind : Kind} {inner : Rule Unit} (hkind : kind.hasSides = false)
    (hinner : ∀ base, inner.Plain base fun _ => True) :
    (node kind inner).Lays runCall Tree.KeepsSides here fun _ more _ => ∃ children, more = [.node kind children] :=
  lays_node (Plain.grows hcalls hinner here) fun tree row hbuilt _ => Kind.keepsSides_of_plain hkind row tree hbuilt

theorem lays_atMostNode {kind : Kind} {inner : Rule Unit} (hkind : kind.hasSides = false)
    (hinner : ∀ base, inner.Plain base fun _ => True) :
    (node kind inner).Lays runCall Tree.KeepsSides here fun _ more _ => AtMostNode more :=
  (lays_plainNode hcalls hkind hinner).mono fun _ _ _ ⟨children, hmore⟩ => .inr ⟨kind, children, hmore⟩

theorem lays_tableOperand (allowed : Bool) :
    (tableOperand allowed).Lays runCall Tree.KeepsSides here fun _ more _ => AtMostNode more := by
  refine lays_ite (fun _ => lays_atMostNode hcalls rfl fun _ => by simp) fun _ => ?_
  refine lays_bind lays_reportHere fun _ more _ hreport => ?_
  obtain rfl := hreport
  exact lays_atMostNode hcalls rfl fun _ => by simp

theorem lays_advanceGarbage : advanceGarbage.Lays runCall Tree.KeepsSides here fun _ more _ =>
    more = [] ∨ ∃ children, more = [.node .error children] := by
  refine lays_bind lays_current fun _ first _ hfirst => ?_
  refine lays_bind (lays_still .atEnd rfl) fun ended second _ hsecond => ?_
  rw [hfirst.1, hsecond.1]
  refine lays_ite (fun _ => lays_pure (.inl rfl)) fun _ => ?_
  exact (lays_plainNode hcalls rfl fun _ => by simp).mono fun _ _ _ => .inr

theorem lays_literal (kind : Kind) :
    (literal kind).Lays runCall Tree.KeepsSides here fun _ more _ => AtMostNode more := by
  have hplain : ∀ nodeKind, literalNode? kind = some nodeKind → nodeKind.hasSides = false := by
    cases kind <;> rintro _ ⟨⟩ <;> rfl
  rw [literal]
  split
  · exact lays_pure (.inl rfl)
  · next nodeKind hnode =>
    refine lays_bind (lays_atMostNode hcalls (hplain nodeKind hnode) fun _ => by simp) fun _ more _ hmore => ?_
    refine lays_pure ?_
    rwa [List.append_nil]

theorem lays_negativeLiteral : negativeLiteral.Lays runCall Tree.KeepsSides here fun _ more _ => AtMostNode more := by
  refine lays_bind (lays_still .adjacent rfl) fun number first _ hfirst => ?_
  rw [hfirst.1]
  refine lays_atMostNode hcalls ?_ fun _ => by simp
  split <;> rfl

/-- A primary expression is one node. -/
theorem lays_operand (tableAllowed : Bool) :
    (operand tableAllowed).Lays runCall Tree.KeepsSides here fun _ more _ => AtMostNode more := by
  refine lays_bind lays_current fun kind first last hfirst => ?_
  obtain rfl := hfirst.1
  have whole {next : Kind} {rule : Rule Unit}
      (hrule : rule.Lays runCall Tree.KeepsSides next fun _ more _ => AtMostNode more) :
      (do rule; return true : Rule Bool).Lays runCall Tree.KeepsSides next fun _ more _ => AtMostNode more := by
    refine lays_bind hrule fun _ more _ hmore => lays_pure ?_
    rwa [List.append_nil]
  dsimp only
  split
  · refine lays_bind (lays_still .numberFollows rfl) fun folds second _ hsecond => ?_
    obtain rfl := hsecond.1
    refine lays_ite (fun _ => whole (lays_negativeLiteral hcalls)) fun _ => ?_
    exact whole (lays_atMostNode hcalls rfl fun _ => by simp)
  all_goals first
    | exact whole (lays_atMostNode hcalls rfl fun _ => by simp)
    | exact whole (lays_tableOperand hcalls tableAllowed)
    | exact whole ((lays_advanceGarbage hcalls).mono fun _ _ _ => Or.imp_right fun ⟨children, hmore⟩ => ⟨_, children, hmore⟩)
    | exact lays_literal hcalls kind

/-! ### Suffixes -/

theorem lays_suffix {found : Suffix} {kind : Kind} (hstarts : found.Starts kind) (hword : kind.isTrivia = false) :
    (suffix found).Lays runCall Tree.KeepsSides kind fun _ more _ =>
      ∀ left, AtMostNode left → found.node.KeepsSides (left ++ more) := by
  have plain (hkind : found.node.hasSides = false) (hplain : ∀ base, (suffix found).Plain base fun _ => True) :
      (suffix found).Lays runCall Tree.KeepsSides kind fun _ more _ =>
        ∀ left, AtMostNode left → found.node.KeepsSides (left ++ more) :=
    (Plain.grows hcalls hplain kind).mono fun _ _ _ _ _ _ => Kind.keepsSides_of_plain hkind _
  have signed {value : Rule Unit} (hsuffix : suffix found = do advance; value)
      (hvalue : ∀ here, value.Lays runCall Tree.KeepsSides here fun _ more _ => AtMostNode more)
      (hsigned : found = .assignment ∨ found = .update ∨ ∃ power, found = .binary power) :
      (suffix found).Lays runCall Tree.KeepsSides kind fun _ more _ =>
        ∀ left, AtMostNode left → found.node.KeepsSides (left ++ more) := by
    rw [hsuffix]
    refine lays_bind (lays_advanceWord hword) fun _ first last hfirst => (hvalue last).mono fun _ right _ hright => ?_
    obtain ⟨sign, rfl, rfl⟩ := hfirst
    exact fun left hleft => keepsSides_signed hstarts hsigned hleft hright
  cases found with
  | member | call | increment => exact plain rfl fun _ => by simp [suffix]
  | index =>
    refine lays_bind (lays_openDelimiter hword) fun _ first _ hfirst => ?_
    refine lays_bind (lays_expressionCall hcalls 0 false) fun _ index _ hindex => ?_
    refine lays_closeDelimiter.mono fun _ closer _ hcloser left hleft tree hbuilt => ?_
    obtain ⟨sign, rfl, rfl⟩ := hfirst
    have hbuilt : tree.BuiltOf .indexExpression (left ++ token sign :: (index ++ closer)) := hbuilt
    exact keepsSides_index hbuilt hleft hstarts hindex hcloser
  | ternary =>
    refine lays_bind (lays_advanceWord hword) fun _ first _ hfirst => ?_
    refine lays_bind (lays_expressionCall hcalls 0 true) fun _ consequence _ hconsequence => ?_
    refine (lays_announced fun _ => lays_expressionCall hcalls _ _).mono fun _ tail _ htail left hleft tree hbuilt => ?_
    obtain ⟨sign, rfl, rfl⟩ := hfirst
    have hbuilt : tree.BuiltOf .ternaryExpression (left ++ token sign :: (consequence ++ tail)) := hbuilt
    exact keepsSides_ternary hbuilt hleft hstarts hconsequence htail
  | assignment => exact signed rfl (fun _ => lays_expressionCall hcalls _ _) (.inl rfl)
  | update => exact signed rfl (fun _ => lays_expressionCall hcalls _ _) (.inr (.inl rfl))
  | binary power => exact signed rfl (fun _ => lays_expressionCall hcalls _ _) (.inr (.inr ⟨power, rfl⟩))

/-- Each suffix takes in what has been laid since the start of the expression. -/
theorem laid_operators {start power : Nat} {older row : List Tree} {state after : State} (hstart : older.length = start)
    (hrow : AtMostNode row) (hlaid : state.Laid Tree.KeepsSides older row)
    (hexec : (operators start power).exec runCall state = .ok ((), after)) :
    ∃ operation, after.Laid Tree.KeepsSides older operation ∧ AtMostNode operation := by
  obtain ⟨halted, first, hhalted, hexec⟩ := exec_bind_ok hexec
  obtain ⟨_, hlaid, rfl, -⟩ := lays_still .stopped rfl older row state halted first hlaid rfl hhalted
  split at hexec
  · obtain ⟨-, rfl⟩ := Prod.mk.inj (Except.ok.inj hexec)
    exact ⟨_, hlaid, by rwa [List.append_nil]⟩
  obtain ⟨kind, second, hcurrent, hexec⟩ := exec_bind_ok hexec
  obtain ⟨_, hlaid, rfl, hkind, hword, -⟩ := lays_current older _ first kind second hlaid rfl hcurrent
  obtain ⟨afterLineBreak, third, hbreak, hexec⟩ := exec_bind_ok hexec
  obtain ⟨_, hlaid, rfl, hnext⟩ := lays_still .afterLineBreak rfl older _ second afterLineBreak third hlaid rfl hbreak
  rw [List.append_nil, List.append_nil, List.append_nil] at hlaid
  replace hnext : State.kindOf third.ahead = kind := (hnext (by rwa [hkind])).trans hkind
  split at hexec
  · obtain ⟨-, rfl⟩ := Prod.mk.inj (Except.ok.inj hexec)
    exact ⟨row, hlaid, hrow⟩
  · next found hfound =>
    obtain ⟨⟨⟩, fourth, hnode, hcall⟩ := exec_bind_ok hexec
    obtain ⟨front, back, since, stop, hsplit, hfront, hsince, hhere, hsuffix, hbuild⟩ :=
      hlaid.exec_nodeFrom (Nat.le_of_eq hstart) hnode
    obtain rfl : front = [] := hfront hstart.symm
    obtain rfl : row = back := hsplit
    obtain ⟨more, hstop, hmore⟩ := lays_suffix hcalls (Suffix.starts_of_of? hfound) hword [] row since () stop hsince
      (hhere.trans hnext) hsuffix
    obtain ⟨children, hfourth⟩ := hbuild _ hstop (hmore row hrow)
    exact hcalls.operators start power older _ fourth after hstart (.inr ⟨_, _, rfl⟩) hfourth (run_of_exec_call hcall)

theorem laid_expressionOf {power : Nat} {tableAllowed : Bool} {older row : List Tree} {state after : State}
    (hlaid : state.Laid Tree.KeepsSides older row)
    (hexec : (expressionOf power tableAllowed).exec runCall state = .ok ((), after)) :
    ∃ more, after.Laid Tree.KeepsSides older (row ++ more) ∧ AtMostNode more := by
  obtain ⟨allowed, first, hdescend, hexec⟩ := exec_bind_ok hexec
  obtain ⟨_, hlaid, rfl, -⟩ := lays_still .descend rfl older row state allowed first hlaid rfl hdescend
  rw [List.append_nil] at hlaid
  split at hexec
  · obtain ⟨start, second, hmark, hexec⟩ := exec_bind_ok hexec
    obtain ⟨_, hlaid, rfl, -⟩ := lays_still .mark rfl older row first start second hlaid rfl hmark
    rw [List.append_nil] at hlaid
    obtain ⟨rfl, rfl⟩ := Prod.mk.inj (Except.ok.inj hmark)
    obtain ⟨known, third, hoperand, hexec⟩ := exec_bind_ok hexec
    obtain ⟨value, hvalue, hone⟩ := lays_operand hcalls tableAllowed _ [] _ known third hlaid.restart rfl hoperand
    have ascends {last : State} {operation : List Tree} (hone : AtMostNode operation)
        (hoperation : last.Laid Tree.KeepsSides first.placePending.placed operation)
        (hascend : (ofStep .ascend).exec runCall last = .ok ((), after)) :
        ∃ more, after.Laid Tree.KeepsSides older (row ++ more) ∧ AtMostNode more := by
      obtain ⟨_, hafter, rfl, -⟩ := lays_still .ascend rfl _ operation last () after hoperation rfl hascend
      rw [List.append_nil] at hafter
      exact ⟨operation, hlaid.join hafter, hone⟩
    split at hexec
    · obtain ⟨⟨⟩, fourth, hcall, hascend⟩ := exec_bind_ok hexec
      obtain ⟨operation, hoperation, hone⟩ :=
        hcalls.operators _ power _ value third fourth rfl hone hvalue (run_of_exec_call hcall)
      exact ascends hone hoperation hascend
    · obtain ⟨⟨⟩, fourth, hreport, hascend⟩ := exec_bind_ok hexec
      obtain ⟨_, hfourth, rfl⟩ := lays_reportHere _ value third () fourth hvalue rfl hreport
      exact ascends hone (by rwa [List.append_nil] at hfourth) hascend
  · exact lays_atMostNode hcalls rfl (fun _ => plain_pure () _ |>.mpr trivial) older row first () after hlaid rfl hexec

/-! ### Slots -/

theorem lays_slot : slot.Lays runCall Tree.KeepsSides here fun _ more _ =>
    ∃ children, more = [.node .tableSlot children] := by
  refine lays_node ?_ fun tree row hbuilt (hrow : Kind.tableSlot.KeepsSides row) => hrow tree hbuilt
  refine lays_bind lays_current fun kind first last hfirst => ?_
  obtain ⟨rfl, rfl, hword, -⟩ := hfirst
  refine lays_bind (lays_still .next rfl) fun next second third hsecond => ?_
  obtain ⟨rfl, hnext⟩ := hsecond
  obtain rfl := hnext hword
  refine lays_ite (fun hnamed => ?_) fun _ => lays_ite (fun hcomputed => ?_) fun _ => lays_ite (fun _ => ?_) fun _ => ?_
  · have hkind : third = .id := beq_iff_eq.mp (Bool.and_eq_true_iff.mp hnamed).1
    refine lays_bind (lays_advanceWord hword) fun _ first last hfirst => ?_
    refine (Plain.grows hcalls (fun _ => by simp) last).mono fun _ more _ _ tree hbuilt => ?_
    obtain ⟨sign, hsign, rfl⟩ := hfirst
    exact keepsSides_namedSlot hbuilt (hsign.trans hkind)
  · refine lays_bind (lays_openDelimiter hword) fun _ first _ hfirst => ?_
    refine lays_bind (lays_expressionCall hcalls 0 false) fun _ key _ hkey => ?_
    refine lays_bind lays_closeDelimiter fun _ closer _ hcloser => ?_
    refine (lays_announced fun _ => lays_expressionCall hcalls 0 true).mono fun _ value _ hvalue tree hbuilt => ?_
    obtain ⟨opener, hopener, rfl⟩ := hfirst
    have hbuilt : tree.BuiltOf .tableSlot (token opener :: (key ++ (closer ++ (value ++ [])))) := by
      rw [List.append_nil]
      exact hbuilt
    exact keepsSides_computedSlot hbuilt (hopener.trans (beq_iff_eq.mp hcomputed)) hkey hcloser hvalue (.inl rfl)
  · refine (lays_plainNode hcalls rfl fun _ => by simp).mono fun _ row _ hrow tree hbuilt => ?_
    obtain ⟨children, rfl⟩ := hrow
    have hbuilt : tree.BuiltOf .tableSlot ([.node .functionDeclaration children] ++ []) := hbuilt
    exact keepsSides_keyedSlot hbuilt (.inr ⟨_, _, rfl⟩) (.inl rfl)
  · refine lays_bind (lays_expressionCall hcalls _ false) fun _ key _ hkey => ?_
    refine (lays_announced fun _ => lays_expressionCall hcalls 0 true).mono fun _ value _ hvalue tree hbuilt => ?_
    have hbuilt : tree.BuiltOf .tableSlot (key ++ value) := hbuilt
    exact keepsSides_keyedSlot hbuilt hkey hvalue

theorem grows_slots : slots.Grows runCall Tree.KeepsSides := by
  have hrest : ∀ rule : Rule Unit, (∀ base, rule.Plain base fun _ => True) → rule.Grows runCall Tree.KeepsSides :=
    fun _ hplain => Plain.grows hcalls hplain
  refine grows_bind (Plain.grows hcalls fun _ => by simp) fun ends => grows_ite (grows_pure _) ?_
  refine grows_bind (Plain.grows hcalls fun _ => by simp) fun starts => grows_ite ?_ (hrest _ fun _ => by simp)
  refine grows_bind (fun _ => (lays_slot hcalls).mono fun _ _ _ _ => trivial) fun _ => hrest _ fun _ => by simp

/-! ### Members -/

/-- The value of a member, behind its sign, and its end. -/
theorem lays_memberValue {isNamed : Bool} {what : String} :
    (memberValue isNamed what).Lays runCall Tree.KeepsSides here fun _ more _ =>
      ∃ value ends, more = value ++ ends ∧ Announced .equals value ∧ AtMostWord ends := by
  have hend (here : Kind) : (eat .semicolon >>= fun _ => (pure () : Rule Unit)).Lays runCall Tree.KeepsSides here
      fun _ more _ => AtMostWord more := by
    refine lays_bind lays_eat fun _ more _ heaten => lays_pure ?_
    rw [List.append_nil]
    exact heaten.1.atMostWord
  refine lays_ite (fun _ => ?_) fun _ => (hend here).mono fun _ ends _ hends => ⟨[], ends, rfl, .inl rfl, hends⟩
  refine lays_bind lays_expect fun found first last hfound => lays_ite (fun htrue => ?_) fun hfalse => ?_
  · obtain rfl := htrue
    obtain ⟨sign, hsign, rfl⟩ := hfound.1
    refine lays_bind (lays_expressionCall hcalls 0 true) fun _ value _ hvalue => (hend _).mono fun _ ends _ hends => ?_
    exact ⟨token sign :: value, ends, rfl, .inr ⟨sign, value, hsign, hvalue, rfl⟩, hends⟩
  · obtain rfl := Bool.eq_false_iff.mpr hfalse
    obtain rfl : first = [] := hfound.1
    exact (hend last).mono fun _ ends _ hends => ⟨[], ends, rfl, .inl rfl, hends⟩

theorem lays_optionalAttributes : optionalAttributes.Lays runCall Tree.KeepsSides here fun _ more _ =>
    more = [] ∨ ∃ children, more = [.node .attributeDeclaration children] := by
  refine lays_bind lays_currentIs fun _ first last hfirst => ?_
  obtain rfl := hfirst.1
  refine lays_ite (fun _ => ?_) fun _ => lays_pure (.inl rfl)
  exact (lays_plainNode hcalls rfl fun _ => by simp).mono fun _ _ _ => .inr

theorem lays_member : member.Lays runCall Tree.KeepsSides here fun _ more _ =>
    ∃ children, more = [.node .memberDeclaration children] := by
  refine lays_node ?_ fun tree row hbuilt (hrow : Kind.memberDeclaration.KeepsSides row) => hrow tree hbuilt
  refine lays_bind (lays_optionalAttributes hcalls) fun _ before _ hbefore => ?_
  refine lays_bind lays_current fun kind _ next hcurrent => ?_
  obtain ⟨rfl, rfl, hword, -⟩ := hcurrent
  have starts {sign : Leaf} (hsign : sign.kind ≠ .bracketOpen) (more : List Tree) :
      Kind.memberDeclaration.KeepsSides (before ++ token sign :: more) := by
    refine fun tree hbuilt => keepsSides_otherMember hbuilt ?_
    obtain rfl | ⟨children, rfl⟩ := hbefore <;> exact fun hfirst => hsign (Option.some.inj hfirst)
  split
  · refine lays_bind lays_eat fun _ first last hfirst => ?_
    obtain ⟨hstatic, hfound⟩ := hfirst
    obtain ⟨rfl, -⟩ := hfound rfl
    obtain ⟨sign, hsign, rfl⟩ := hstatic
    refine (Plain.grows hcalls (fun _ => by simp) last).mono fun _ more _ _ => ?_
    exact starts (by rw [hsign]; exact nofun) more
  · refine lays_bind lays_eat fun _ first last hfirst => ?_
    obtain ⟨hstatic, hfound⟩ := hfirst
    obtain ⟨rfl, hnext⟩ := hfound rfl
    obtain rfl : first = [] := hstatic
    obtain rfl := hnext rfl
    refine lays_bind lays_expect fun _ first last hfirst => ?_
    obtain ⟨hname, hfound⟩ := hfirst
    obtain rfl := hfound rfl
    obtain ⟨sign, hsign, rfl⟩ := hname
    refine (Plain.grows hcalls (fun _ => by simp) last).mono fun _ more _ _ => ?_
    exact starts (by rw [hsign]; exact nofun) more
  · refine lays_bind (lays_openDelimiter hword) fun _ first _ hfirst => ?_
    refine lays_bind (lays_expressionCall hcalls 0 false) fun _ key _ hkey => ?_
    refine lays_bind lays_closeDelimiter fun _ closer _ hcloser => ?_
    refine (lays_memberValue hcalls).mono fun _ more _ hmore tree hbuilt => ?_
    obtain ⟨opener, hopener, rfl⟩ := hfirst
    obtain ⟨value, ends, rfl, hvalue, hends⟩ := hmore
    have hbuilt : tree.BuiltOf .memberDeclaration (before ++ token opener :: (key ++ (closer ++ (value ++ ends)))) :=
      hbuilt
    exact keepsSides_computedMember hbuilt hbefore hopener hkey hcloser hvalue hends
  · refine (lays_plainNode hcalls rfl fun _ => by simp).mono fun _ row _ hrow tree hbuilt => ?_
    obtain ⟨children, rfl⟩ := hrow
    refine keepsSides_otherMember hbuilt ?_
    obtain rfl | ⟨children, rfl⟩ := hbefore <;> exact nofun
  · refine lays_bind (lays_advanceWord rfl) fun _ first last hfirst => ?_
    refine (Plain.grows hcalls (fun _ => by simp) last).mono fun _ more _ _ => ?_
    obtain ⟨sign, hsign, rfl⟩ := hfirst
    exact starts (by rw [hsign]; exact nofun) more
  · refine lays_reportHere.mono fun _ row _ hrow tree hbuilt => ?_
    obtain rfl := hrow
    refine keepsSides_otherMember hbuilt ?_
    obtain rfl | ⟨children, rfl⟩ := hbefore <;> exact nofun

theorem grows_members : members.Grows runCall Tree.KeepsSides := by
  have hrest : (call .members).Grows runCall Tree.KeepsSides := Plain.grows hcalls fun _ => by simp
  refine grows_bind (Plain.grows hcalls fun _ => by simp) fun ends => grows_ite (grows_pure _) ?_
  refine grows_bind (Plain.grows hcalls fun _ => by simp) fun starts => grows_ite ?_ ?_
  · exact grows_bind (fun _ => (lays_member hcalls).mono fun _ _ _ _ => trivial) fun _ => hrest
  · exact grows_bind (Plain.grows hcalls fun _ => by simp) fun _ => hrest

/-! ### All nonterminals -/

theorem grows_ruleOf {nonterminal : Nonterminal} (hgoesOn : nonterminal.goesOn = false) :
    (ruleOf nonterminal).Grows runCall Tree.KeepsSides := by
  cases nonterminal with
  | operators start power => exact nomatch hgoesOn
  | slots => exact grows_slots hcalls
  | members => exact grows_members hcalls
  | expression power tableAllowed =>
    intro here older row state _ after hlaid _ hexec
    obtain ⟨more, hafter, -⟩ := laid_expressionOf hcalls hlaid hexec
    exact ⟨more, hafter, trivial⟩
  | _ => exact Plain.grows hcalls fun _ => by simp [ruleOf]

end

end Grammar

/-! ### Whole parses -/

theorem layingCalls_run (bound : Nat) : LayingCalls (Nonterminal.run bound) := by
  induction bound with
  | zero =>
    refine ⟨?_, ?_, ?_⟩
    · intro power tableAllowed older row state after _ hrun
      exact nomatch hrun
    · intro start power older row state after _ _ _ hrun
      exact nomatch hrun
    · intro nonterminal older row state after _ _ hrun
      exact nomatch hrun
  | succ bound ih =>
    refine ⟨?_, ?_, ?_⟩
    · intro power tableAllowed older row state after hlaid hrun
      exact Grammar.laid_expressionOf ih hlaid (Rule.exec_of_run hrun)
    · intro start power older row state after hstart hrow hlaid hrun
      exact Grammar.laid_operators ih hstart hrow hlaid (Rule.exec_of_run hrun)
    · intro nonterminal older row state after hgoesOn hlaid hrun
      obtain ⟨more, hafter, -⟩ :=
        Grammar.grows_ruleOf ih hgoesOn _ older row state () after hlaid rfl (Rule.exec_of_run hrun)
      exact ⟨more, hafter⟩

theorem throughout_root_of_parseTokens {limits : Limits} {sourceLength : Nat} {lexed : Lexed} {parsed : Parsed}
    (hparse : parseTokens limits sourceLength lexed = .ok parsed) : parsed.root.Throughout Tree.KeepsSides := by
  obtain ⟨after, hrun, -, rfl⟩ := parseTokens_ok hparse
  have hinitial : (State.initial limits lexed.tokens sourceLength).Laid Tree.KeepsSides [] [] :=
    .fresh (List.forall_mem_nil _) rfl
  obtain ⟨row, hafter⟩ := (layingCalls_run _).other .script [] [] _ after rfl hinitial hrun
  obtain ⟨laid, hplaced, -, hthroughout⟩ := hafter.passTrivia.placePending.placed
  rw [List.append_nil] at hplaced
  refine throughout_node (Tree.keepsSides_of_plain rfl _) fun child hmem => ?_
  exact hthroughout child (hplaced ▸ List.mem_reverse.mp hmem)

/-- In every parse, also of a source with errors, the accessors of a node give the expressions that stand on its sides
in their order, and an accessor gives an expression on its own side just if no side up to there is empty. -/
theorem Script.keepsSides_of_parse {source : String} {limits : Limits} {script : Script}
    (hparse : Script.parse source limits = .ok script) {tree : Tree} (hwithin : tree.Within script.root)
    (hnode : tree.isNode = true) : tree.KeepsSides := by
  rw [Script.parse] at hparse
  split at hparse
  · cases hparse
  · next parsed hparsed =>
    obtain rfl := Except.ok.inj hparse
    exact throughout_root_of_parseTokens hparsed tree hwithin hnode

/-- Where the left operand of a sum has been rejected, the accessor for it gives the right one. -/
theorem Script.keepsSides_of_rejected :
    ∃ (script : Script) (tree : Tree) (operand : Operand tree) (child : Child tree),
      Script.parse "x = $ + b" .unbounded = .ok script ∧ tree.Within script.root ∧ tree.isNode = true ∧
      tree.KeepsSides ∧ tree.operands[0]? = some operand ∧ operand.value = some child ∧
      operand.side child.delimiter? = false := by
  have houtcome : (Script.outcome? "x = $ + b" .unbounded).any (fun outcome =>
      outcome.1.places.any fun place => place.tree.operands[0]?.any fun operand =>
        operand.value.any fun child => !operand.side child.delimiter?) = true := by decide +kernel
  obtain ⟨script, clean, hparse, -, htest⟩ := Script.exists_of_outcome houtcome
  obtain ⟨place, hplace, hany⟩ := List.any_eq_true.mp htest
  obtain ⟨operand, hoperand, hany⟩ := (Option.any_eq_true ..).mp hany
  obtain ⟨child, hchild, hside⟩ := (Option.any_eq_true ..).mp hany
  obtain ⟨hwithin, hnode⟩ := within_of_mem_placesFrom hplace
  exact ⟨script, place.tree, operand, child, hparse, hwithin, hnode, Script.keepsSides_of_parse hparse hwithin hnode,
    hoperand, hchild, by simpa using hside⟩

end Squirrel
