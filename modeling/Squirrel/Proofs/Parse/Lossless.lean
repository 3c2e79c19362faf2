import Squirrel.Proofs.Parse.Evaluation
import Squirrel.Proofs.Parse.Run

/-!
# Nothing of a source is lost

Every token reaches the tree exactly once and in its place, blanks and comments included, however many errors a source
has. What carries this is the row of everything that a state holds: the leaves of what has been placed, then the trivia
that waits, then the tokens ahead. No step changes that row, and closing a node only puts a part of it under the node.
-/

namespace Squirrel

def Token.leaf (token : Token) : Leaf := ⟨token.kind, token.text⟩

/-! ### The lexemes of a text -/

namespace Lexeme

theorem flatMap_text_cut (text : List Char) : (cut text).flatMap Lexeme.text = text := by
  fun_induction cut text with
  | case1 => rfl
  | case2 c rest form length hfirst ih => rw [List.flatMap_cons, ih, List.cons_append, List.take_append_drop]

end Lexeme

namespace Lexed

theorem map_text_placed (offset : Nat) (lexemes : List Lexeme) :
    (placed offset lexemes).map (·.1.text) = lexemes.map fun lexeme => String.ofList lexeme.text := by
  induction lexemes generalizing offset with
  | nil => rfl
  | cons lexeme rest ih => simp only [placed, place, List.map_cons, ih]

theorem join_map_ofList (texts : List (List Char)) : String.join (texts.map String.ofList) = String.ofList texts.flatten := by
  induction texts with
  | nil => rfl
  | cons text rest ih => rw [List.map_cons, String.join_cons, ih, List.flatten_cons, String.ofList_append]

/-- The texts of the tokens in order are the source. -/
theorem join_text_tokens (source : String) : String.join ((ofSource source).tokens.map Token.text) = source := by
  have htexts : (ofSource source).tokens.map Token.text
      = ((Lexeme.cut source.toList).map Lexeme.text).map String.ofList := by
    simp only [ofSource, List.map_map]
    exact map_text_placed 0 _
  rw [htexts, join_map_ofList, ← List.flatMap_def, Lexeme.flatMap_text_cut, String.ofList_toList]

end Lexed

/-! ### What a state holds -/

theorem Tree.leavesOf_append (left right : List Tree) :
    leavesOf (left ++ right) = leavesOf left ++ leavesOf right := by
  induction left with
  | nil => rfl
  | cons tree rest ih => simp only [List.cons_append, leavesOf, ih, List.append_assoc]

theorem Tree.leavesOf_map_leafOf (tokens : List Token) : leavesOf (tokens.map State.leafOf) = tokens.map Token.leaf := by
  induction tokens with
  | nil => rfl
  | cons token rest ih => simp only [List.map_cons, leavesOf, State.leafOf, leaves, ih, Token.leaf, List.singleton_append]

namespace State

/-- Everything in a state from left to right: what has been placed in the open node, what waits, and what is ahead. -/
def row (state : State) : List Leaf :=
  Tree.leavesOf state.placed.reverse ++ state.pending.reverse.map Token.leaf ++ state.ahead.map Token.leaf

/-- What waits in a state and what is ahead. -/
def rest (state : State) : List Token := state.pending.reverse ++ state.ahead

/-- The same row as a row of trees. -/
def trees (state : State) : List Tree := state.placed.reverse ++ state.rest.map leafOf

theorem row_eq (state : State) : state.row = Tree.leavesOf state.trees := by
  rw [row, trees, rest, Tree.leavesOf_append, Tree.leavesOf_map_leafOf, List.map_append, List.append_assoc]

theorem trees_passTrivia (state : State) : state.passTrivia.trees = state.trees := by
  have hrest : state.passTrivia.rest = state.rest := by
    rw [rest, passTrivia, List.reverse_append, List.reverse_reverse, List.append_assoc,
      List.takeWhile_append_dropWhile]
    rfl
  rw [trees, hrest]
  rfl

theorem trees_placePending (state : State) : state.placePending.trees = state.trees := by
  rw [trees, trees, rest, placePending, List.reverse_append, List.append_assoc, ← List.map_reverse, ← List.map_append]
  rfl

theorem trees_spendStep (state : State) : state.spendStep.trees = state.trees := by
  rw [spendStep]
  split <;> rfl

theorem trees_spendLook {state after : State} (hlook : state.spendLook = .ok after) : after.trees = state.trees := by
  rw [spendLook] at hlook
  split at hlook
  · cases hlook
  · exact Except.ok.inj hlook ▸ rfl

theorem trees_advance {state after : State} (hadvance : state.advance = .ok after) : after.trees = state.trees := by
  rw [advance] at hadvance
  split at hadvance
  · cases hadvance
  · next token rest hahead =>
    have hspent : state.spendStep.placePending.ahead = token :: rest := by
      rw [← hahead, placePending, spendStep]
      split <;> rfl
    obtain rfl := Except.ok.inj hadvance
    rw [← trees_spendStep state, ← trees_placePending state.spendStep, trees, trees, State.rest, State.rest, hspent, List.reverse_cons,
      List.append_assoc]
    rfl

theorem trees_descend (state : State) : state.descend.2.trees = state.trees := by
  rw [descend]
  split <;> rfl

theorem trees_reportOnce (state : State) (offset : Nat) (diagnostic : Diagnostic) :
    (state.reportOnce offset diagnostic).trees = state.trees := by
  rw [reportOnce]
  split <;> rfl

/-- A node leaves what has been placed before its mark. -/
theorem trees_opened (state : State) (since : Nat) : state.trees =
    (state.placed.drop since).reverse ++ { state with placed := state.placed.take since }.trees := by
  rw [trees, trees, ← List.append_assoc, ← List.reverse_append, List.take_append_drop]
  rfl

end State

/-- No step changes the row of trees. -/
theorem Step.trees_run {α : Type} (step : Step α) {state after : State} {answer : α}
    (hrun : step.run state = .ok (answer, after)) : after.trees = state.trees := by
  cases step <;> simp only [Step.run, bind, Except.bind, pure, Except.pure, Except.ok.injEq, Prod.mk.injEq] at hrun
  case current | adjacent =>
    split at hrun
    · simp at hrun
    · next looked hlook =>
      simp only [Except.ok.injEq, Prod.mk.injEq] at hrun
      rw [← hrun.2, State.trees_spendLook hlook, State.trees_passTrivia]
  case next | currentSpan | afterLineBreak | numberFollows => rw [← hrun.2, State.trees_passTrivia]
  case previous | atEnd | stopped | pushOpener | popOpener | report | ascend => exact hrun.2 ▸ rfl
  case advance =>
    split at hrun
    · simp at hrun
    · next advanced hadvance =>
      simp only [Except.ok.injEq, Prod.mk.injEq] at hrun
      rw [← hrun.2, State.trees_advance hadvance]
  case mark => rw [← hrun.2, State.trees_placePending]
  case placeTrivia => rw [← hrun.2, State.trees_placePending, State.trees_passTrivia]
  case reportOnce offset diagnostic => rw [← hrun.2, State.trees_reportOnce]
  case descend =>
    have hafter : after = state.descend.2 := by rw [hrun]
    rw [hafter, State.trees_descend]

/-- Closing a node puts a part of the row under the node. -/
theorem State.row_wrap (kind : Kind) (since : Nat) {state after : State}
    (hinner : after.row = { state with placed := state.placed.take since }.row) :
    { after with placed := .node kind after.placed.reverse :: state.placed.drop since }.row = state.row := by
  rw [row_eq, row_eq] at hinner
  rw [row_eq, row_eq, trees_opened state since, Tree.leavesOf_append, ← hinner, trees, List.reverse_cons,
    Tree.leavesOf_append, Tree.leavesOf_append, List.append_assoc, trees, Tree.leavesOf_append]
  simp only [Tree.leavesOf, Tree.leaves, List.append_nil]
  rfl

theorem Rule.kept_row : Rule.Kept fun state after => after.row = state.row where
  refl _ := rfl
  trans hfirst hsecond := hsecond.trans hfirst
  step s state after _ hrun := by rw [State.row_eq, State.row_eq, s.trees_run hrun]
  wrap kind since _ _ hinner := State.row_wrap kind since hinner

/-! ### A whole parse -/

/-- The statements of a script end only where nothing is left or a limit has been exceeded. -/
theorem Nonterminal.stopped_of_run_script {bound : Nat} {state after : State}
    (hrun : Nonterminal.run bound .script state = .ok after) : after.stopped = true := by
  induction bound generalizing state with
  | zero => simp [run] at hrun
  | succ bound ih =>
    obtain ⟨isStopped, first, hstopped, hexec⟩ := Rule.exec_bind_ok (Rule.exec_of_run hrun)
    simp only [Grammar.stopped, Rule.ofStep, Rule.exec, Step.run, Except.ok.injEq, Prod.mk.injEq] at hstopped
    split at hexec
    · next hyes =>
      simp only [pure, Rule.exec, Except.ok.injEq, Prod.mk.injEq, true_and] at hexec
      rw [← hexec, ← hstopped.2, hstopped.1, hyes]
    · obtain ⟨isClose, second, -, hexec⟩ := Rule.exec_bind_ok hexec
      split at hexec
      · obtain ⟨-, third, -, hexec⟩ := Rule.exec_bind_ok hexec
        obtain ⟨-, fourth, -, hexec⟩ := Rule.exec_bind_ok hexec
        exact ih (Rule.run_of_exec_call hexec)
      · obtain ⟨-, third, -, hexec⟩ := Rule.exec_bind_ok hexec
        exact ih (Rule.run_of_exec_call hexec)

theorem leaves_root_of_parseTokens {limits : Limits} {sourceLength : Nat} {lexed : Lexed} {parsed : Parsed}
    (hparse : parseTokens limits sourceLength lexed = .ok parsed) :
    parsed.root.leaves = lexed.tokens.map Token.leaf := by
  obtain ⟨after, hrun, hnone, rfl⟩ := parseTokens_ok hparse
  have hahead : after.ahead = [] := by
    have hstopped := Nonterminal.stopped_of_run_script hrun
    simpa [State.stopped, State.atEnd, hnone] using hstopped
  have hpassed : after.passTrivia.placePending.ahead = [] := by
    simp [State.placePending, State.passTrivia, hahead]
  have hrow : after.passTrivia.placePending.row = lexed.tokens.map Token.leaf := by
    rw [State.row_eq, State.trees_placePending, State.trees_passTrivia, ← State.row_eq,
      Rule.kept_row.run _ _ _ _ hrun]
    simp [State.row, State.initial, Tree.leavesOf]
  rw [← hrow, State.row, hpassed]
  simp [Tree.leaves, State.placePending]

/-- The leaves of the tree are the tokens of the source, each once and in its place, and so the text of the tree is the
source. -/
theorem Script.leaves_root {source : String} {limits : Limits} {script : Script}
    (hparse : Script.parse source limits = .ok script) :
    script.root.leaves = (Lexed.ofSource source).tokens.map Token.leaf ∧ script.root.text = source := by
  rw [Script.parse] at hparse
  split at hparse
  · simp at hparse
  · next parsed hparsed =>
    simp only [Except.ok.injEq] at hparse
    have hleaves := leaves_root_of_parseTokens hparsed
    subst hparse
    refine ⟨hleaves, ?_⟩
    rw [Tree.text, hleaves, List.map_map]
    exact Lexed.join_text_tokens source

/-- It holds of a source with an unmatched closer, whose parse puts the closer under an error node. -/
theorem Script.leaves_root_unmatched :
    ∃ script, Script.parse "a ]" .unbounded = .ok script ∧
      script.root.leaves = (Lexed.ofSource "a ]").tokens.map Token.leaf ∧ script.root.text = "a ]" := by
  have houtcome : (Script.outcome? "a ]" .unbounded).any (fun _ => true) = true := by decide +kernel
  obtain ⟨script, -, hparse, -⟩ := Script.exists_of_outcome houtcome
  exact ⟨script, hparse, Script.leaves_root hparse⟩

end Squirrel
