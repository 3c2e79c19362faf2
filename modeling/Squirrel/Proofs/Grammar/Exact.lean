import Squirrel.Proofs.Grammar.Shape
import Squirrel.Proofs.Grammar.Stance
import Squirrel.Proofs.Grammar.Valid
import Squirrel.Proofs.Parse.Evaluation
import Squirrel.Proofs.Parse.Neat

/-!
# Nodes start and end with their words

In a script without a diagnostic every node ends with a word. It also starts with one, apart from operators and
accessors, which take in an operand together with the blanks before it, and from parameters and arguments right behind
the word that leads to them. Rules are neat, so all that is left are expressions, which open their nodes at a mark that
was set before the operand was placed.
-/

namespace Squirrel

open Squirrel.Tree

/-- An operand, or what the operators so far have made of it, and blanks before it. -/
structure LaidOperand (portion : List Tree) : Prop where
  shape : ∃ tree trivia, portion = tree :: trivia ∧ tree.isNode = true ∧ ∀ other ∈ trivia, other.isTrivia = true
  row : ExactRow portion
  within : ∀ tree ∈ portion, tree.ExactWithin

/-- Calls that are as their nonterminals promise. Operators wrap the operand that has been laid. -/
structure ExactCalls (readCall : Nonterminal → View → Option View) : Prop where
  neat : NeatCalls readCall
  sound : SoundCalls readCall
  operators : ∀ (start power : Nat) (view after : View) (portion base : List Tree), view.placed = portion ++ base →
    base.length = start → LaidOperand portion → readCall (.operators start power) view = some after →
    ∃ portion', after.placed = portion' ++ base ∧ LaidOperand portion'

namespace LaidOperand

variable {portion : List Tree}

theorem capped (hlaid : LaidOperand portion) : Capped portion := by
  obtain ⟨tree, trivia, rfl, hnode, -⟩ := hlaid.shape
  rintro _ ⟨⟩
  exact (hlaid.row.1 hnode).1

/-- What a rule has placed is an operand if there is one node and nothing else but trivia in it. -/
theorem of_items {known : Stance} {base : List Tree} {view : View} (hholds : known.Holds base portion view)
    (hcapped : Capped portion) {operand : Tree} (hnode : operand.isNode = true)
    (hitems : items portion.reverse = [operand]) : LaidOperand portion := by
  refine ⟨?_, hholds.row, hholds.within⟩
  cases portion with
  | nil => exact nomatch hitems
  | cons tree older =>
    have hword := (hcapped tree rfl).isTrivia
    rw [List.reverse_cons, items_append, items_cons_word hword, items_nil] at hitems
    have hsplit : items older.reverse ++ [tree] = [] ++ [operand] := hitems
    obtain ⟨hnone, hsame⟩ := List.append_inj' hsplit rfl
    obtain rfl := List.singleton_inj.mp hsame
    refine ⟨tree, older, rfl, hnode, fun other hmem => ?_⟩
    have hnot := List.filter_eq_nil_iff.mp hnone other (List.mem_reverse.mpr hmem)
    simpa using hnot

/-- A suffix takes the operand in. -/
theorem wrap (hlaid : LaidOperand portion) {known : Stance} {more : List Tree} {stop : View} (found : Suffix)
    (hstop : known.Holds portion more stop) (hmore : Capped more) :
    LaidOperand [.node found.node stop.placed.reverse] := by
  have hcapped : Capped (more ++ portion) := by
    cases more with
    | nil => exact hlaid.capped
    | cons => exact hmore
  obtain ⟨tree, trivia, rfl, hnode, htrivia⟩ := hlaid.shape
  have hends : (node found.node (more ++ tree :: trivia).reverse).EndsWithWord := by
    have hne : more ++ tree :: trivia ≠ [] := List.append_ne_nil_of_right_ne_nil _ (List.cons_ne_nil _ _)
    obtain ⟨last, older, hlast⟩ := List.exists_cons_of_ne_nil hne
    rw [hlast] at hcapped ⊢
    exact (hcapped last rfl).node found.node older
  rw [hstop.placed]
  have htakes := takesIn_node found more hnode htrivia
  refine ⟨⟨_, [], rfl, rfl, List.forall_mem_nil _⟩, ⟨fun _ => ⟨hends, .inr (.inl htakes)⟩, trivial⟩, ?_⟩
  intro other hmem
  obtain rfl := List.mem_singleton.mp hmem
  refine throughout_node ?_ fun child hchild => ?_
  · rw [children, List.reverse_reverse]
    exact hstop.row.append hlaid.row
  · obtain hchild | hchild := List.mem_append.mp (List.mem_reverse.mp hchild)
    · exact hstop.within child hchild
    · exact hlaid.within child hchild

end LaidOperand

namespace Grammar

open Rule

variable {readCall : Nonterminal → View → Option View} {view : View}

theorem exact_operators (hcalls : ExactCalls readCall) {start power : Nat} {portion base : List Tree}
    (hplaced : view.placed = portion ++ base) (hstart : base.length = start) (hlaid : LaidOperand portion) :
    (operators start power).Ensures readCall view fun _ after =>
      ∃ portion', after.placed = portion' ++ base ∧ LaidOperand portion' := by
  have hsettled := view.settled_passTrivia
  rw [operators]
  refine ensures_bind (ensures_stopped (fun _ => ensures_pure ⟨portion, hplaced, hlaid⟩) fun _ => ?_)
  refine ensures_bind (ensures_current (ensures_bind fun broken between hbroken => ?_))
  rw [read_ofStep, Step.read, hsettled, Option.some.injEq, Prod.mk.injEq] at hbroken
  obtain ⟨rfl, rfl⟩ := hbroken
  split
  · exact ensures_pure ⟨portion, hplaced, hlaid⟩
  · next found _ =>
    refine ensures_bind (ensures_nodeFrom hplaced hstart fun _ stop hsuffix => ?_)
    have hopen : Stance.unknown.looked.Holds portion [] { view.passTrivia with placed := portion } :=
      (Stance.Holds.start { view with placed := portion }).looked
    obtain ⟨learned, more, hstop, hmore, -⟩ :=
      (neat_suffix found Stance.settled_looked).lay hcalls.neat hopen capped_nil hsuffix
    refine ensures_call fun after hrest => ?_
    exact hcalls.operators start power _ after _ base (List.singleton_append).symm hstart
      (hlaid.wrap found hstop hmore) hrest

/-- The blanks that waited before the expression stay outside. -/
theorem exact_expressionOf (hcalls : ExactCalls readCall) (power : Nat) (tableAllowed : Bool) :
    (expressionOf power tableAllowed).Ensures readCall view fun _ after =>
      ∃ portion, Stance.unknown.Holds view.placed portion after ∧ Capped portion ∧ portion ≠ [] := by
  rw [expressionOf]
  refine ensures_bind (ensures_descend (ensures_bind (ensures_mark ?_)))
  refine ensures_bind fun answer between hoperand => ?_
  cases answer with
  | false => exact ensures_of_none_bind (read_reportHere ..)
  | true =>
    obtain ⟨trees, hderives, hplaces⟩ := sound_operand hcalls.sound tableAllowed true between hoperand rfl
    obtain ⟨-, new, hnew, hitems⟩ := hplaces view.tidy_placePending
    obtain ⟨operand, rfl, hexpression⟩ : One isExpression trees := hderives.rowFits.of_part
    obtain ⟨learned, portion, hholds, hcapped, -⟩ :=
      (neat_operand tableAllowed).lay hcalls.neat (.start view.placePending) capped_nil hoperand
    obtain rfl : portion = new := List.append_cancel_right (hholds.placed.symm.trans hnew)
    have hlaid := LaidOperand.of_items hholds hcapped (Bool.and_eq_true_iff.mp hexpression).1 hitems
    refine ensures_bind (ensures_call fun stop hoperators => ensures_ascend ?_)
    obtain ⟨portion', hplaced, hlaid'⟩ :=
      hcalls.operators _ power between stop portion _ hholds.placed rfl hlaid hoperators
    have hwaiting := (Stance.Holds.start view).placePending
    rw [List.append_nil] at hwaiting
    refine ⟨portion' ++ view.pending.map State.leafOf,
      .anywhere ?_ (hlaid'.row.append hwaiting.row) (List.forall_mem_append.mpr ⟨hlaid'.within, hwaiting.within⟩), ?_, ?_⟩
    · rw [hplaced, hwaiting.placed, List.append_assoc]
    · obtain ⟨tree, trivia, rfl, -⟩ := hlaid'.shape
      exact hlaid'.capped
    · obtain ⟨tree, trivia, rfl, -⟩ := hlaid'.shape
      exact List.cons_ne_nil _ _

end Grammar

/-! ### Whole parses -/

theorem Nonterminal.exactCalls_read (bound : Nat) : ExactCalls (read bound) := by
  induction bound with
  | zero =>
    refine ⟨⟨fun _ _ _ hread => ?_, fun _ _ _ _ hread => ?_⟩, soundCalls_read 0, fun _ _ _ _ _ _ _ _ _ hread => ?_⟩ <;>
      cases hread
  | succ bound ih =>
    refine ⟨⟨fun _ _ _ => extends_of_read, fun nonterminal view after hlooks hread => ?_⟩, soundCalls_read _, ?_⟩
    · have hexec := Rule.read_of_nonterminal hread
      cases hfills : nonterminal.fills with
      | true =>
        cases nonterminal with
        | expression power tableAllowed =>
          obtain ⟨portion, hholds, hcapped, hportion⟩ := Grammar.exact_expressionOf ih power tableAllowed () after hexec
          exact ⟨portion, hholds.behind (by simp), hcapped, fun _ => hportion⟩
        | _ => cases hfills
      | false =>
        obtain ⟨learned, portion, hholds, hcapped, hended⟩ :=
          (Grammar.neat_ruleOf nonterminal hlooks hfills).lay ih.neat (.start view) capped_nil hexec
        exact ⟨portion, hholds.behind fun hlast => hholds.settled (hended hlast), hcapped, by simp⟩
    · intro start power view after portion base hplaced hstart hlaid hread
      exact Grammar.exact_operators ih hplaced hstart hlaid () after (Rule.read_of_nonterminal hread)

theorem exactWithin_of_parseTokens {limits : Limits} {sourceLength : Nat} {lexed : Lexed} {parsed : Parsed}
    (hparse : parseTokens limits sourceLength lexed = .ok parsed) (hclean : parsed.diagnostics = [])
    (haccepted : lexed.diagnostics = [] → ∀ token ∈ lexed.tokens, token.kind.isRejected = false) :
    parsed.root.ExactWithin := by
  obtain ⟨hlexed, after, hrun, hquiet, hahead, hroot⟩ := exists_run_of_parseTokens hparse hclean
  have hsound : (State.initial limits lexed.tokens sourceLength).Sound :=
    ⟨haccepted hlexed, fun hlast => absurd rfl hlast⟩
  have hread := Nonterminal.read_of_run hrun hsound hquiet
  obtain ⟨portion, hholds, -, -⟩ := (Nonterminal.exactCalls_read _).neat.lay .script _ _ rfl hread
  have hplaced := hholds.placePending
  have hchildren : after.passTrivia.placePending.placed = after.view.pending.map State.leafOf ++ portion := by
    have hbase : after.placed = portion ++ [] := hholds.placed
    simp [State.placePending, State.passTrivia, hahead, hbase, State.view]
  rw [hroot, hchildren]
  refine throughout_node ?_ fun child hmem => hplaced.within child (List.mem_reverse.mp hmem)
  rw [children, List.reverse_reverse]
  exact hplaced.row

/-- In a script without a diagnostic every node but the script itself ends with a word. It starts with one, unless it is an
operator or an accessor behind its left operand, or parameters or arguments right behind the word that leads to them. -/
theorem Script.exact_of_parse {source : String} {limits : Limits} {script : Script}
    (hparse : Script.parse source limits = .ok script) (hclean : script.diagnostics = []) {parent child : Tree}
    {before after : List Tree} (hwithin : parent.Within script.root)
    (hchildren : parent.children = before ++ child :: after) (hnode : child.isNode = true) :
    child.EndsWithWord ∧
      (child.StartsWithWord ∨ child.TakesIn ∨
        ∃ leaf, before.getLast? = some (.token leaf) ∧ leaf.kind.leadsTo child.kind = true) := by
  obtain ⟨parsed, hparsed, rfl⟩ := Script.parse_ok hparse
  have hparent : parent.isNode = true := by
    cases parent with
    | node => rfl
    | token leaf => exact absurd hchildren.symm (List.append_ne_nil_of_right_ne_nil _ (List.cons_ne_nil _ _))
  have hrow : ExactRow parent.children.reverse := exactWithin_of_parseTokens hparsed hclean
    (fun hlexed token hmem => (Lexed.wellWritten_of_mem_tokens hlexed hmem).accepted) parent hwithin hparent
  rw [hchildren, List.reverse_append, List.reverse_cons, List.append_assoc, List.singleton_append] at hrow
  have hexact := hrow.exact hnode
  rwa [List.head?_reverse] at hexact

/-- Of `x = a + b` the sum starts with the blank behind the sign, for it takes in its left operand with that blank. -/
theorem Script.exact_of_parse_sum : ∃ (script : Script) (parent sum : Tree) (before after : List Tree),
    Script.parse "x = a + b" .unbounded = .ok script ∧ script.diagnostics = [] ∧ parent.Within script.root ∧
      parent.children = before ++ sum :: after ∧ sum.isNode = true ∧ sum.kind = .binaryExpression ∧
      ¬sum.StartsWithWord ∧ sum.EndsWithWord ∧ sum.TakesIn := by
  have houtcome : (Script.outcome? "x = a + b" .unbounded).any (fun outcome => outcome.2 &&
      outcome.1.places.any fun place => place.tree.children.any fun child => child.isNode &&
        child.kind == .binaryExpression && child.leaves.head?.any (·.kind.isTrivia)) = true := by decide +kernel
  obtain ⟨script, clean, hparse, hclean, htest⟩ := Script.exists_of_outcome houtcome
  simp only [Bool.and_eq_true, List.any_eq_true, beq_iff_eq] at htest
  obtain ⟨hquiet, place, hplace, sum, hmem, ⟨hnode, hkind⟩, hblank⟩ := htest
  obtain ⟨before, after, hchildren⟩ := List.append_of_mem hmem
  have hwithin := (within_of_mem_placesFrom hplace).1
  have hstarts : ¬sum.StartsWithWord := by
    rintro ⟨leaf, hfirst, hword⟩
    rw [Option.mem_def.mp hfirst, Option.any_some, hword] at hblank
    exact nomatch hblank
  obtain ⟨hends, hword | htakes | ⟨leaf, -, hleads⟩⟩ :=
    Script.exact_of_parse hparse (hclean hquiet) hwithin hchildren hnode
  · exact absurd hword hstarts
  · exact ⟨script, place.tree, sum, before, after, hparse, hclean hquiet, hwithin, hchildren, hnode, hkind, hstarts,
      hends, htakes⟩
  · rw [hkind] at hleads
    simp [Kind.leadsTo] at hleads

end Squirrel
