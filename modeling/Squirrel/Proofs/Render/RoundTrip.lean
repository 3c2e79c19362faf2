import Squirrel.Proofs.Grammar.Acceptance
import Squirrel.Proofs.Render.Operand

/-!
# The text of an expression parses to the expression

An expression that is put together from names in any way, also in ways in which no source groups its operators, is written
with the parentheses that it needs: its text is a script with one expression statement, and the expression in it is the one
that was written, but for the parentheses.
-/

namespace Squirrel

open Squirrel.Tree

/-- An expression that is put together from names with operators, accessors, calls and parentheses. Any of them may be an
operand of any other one. -/
inductive Tree.Composed : Tree → Prop where
  | identifier {tree : Tree} {name : Leaf} (hname : name.IsName) (hbuilt : tree.BuiltOf .identifier [.token name]) :
      Composed tree
  | globalVariable {tree : Tree} {name : Leaf} (hname : name.IsName)
      (hbuilt : tree.BuiltOf .globalVariable [.token (Leaf.sign .doubleColon), .token name]) : Composed tree
  | parenthesized {tree inner : Tree} (hinner : Composed inner)
      (hbuilt : tree.BuiltOf .parenthesizedExpression
        [.token (Leaf.sign .parenOpen), inner, .token (Leaf.sign .parenClose)]) : Composed tree
  | binary {tree left right : Tree} {kind : Kind} {power : Nat} (hsign : Power.binary? kind = some power)
      (hleft : Composed left) (hright : Composed right)
      (hbuilt : tree.BuiltOf .binaryExpression [left, .token (Leaf.sign kind), right]) : Composed tree
  | ternary {tree condition consequence alternative : Tree} (hcondition : Composed condition)
      (hconsequence : Composed consequence) (halternative : Composed alternative)
      (hbuilt : tree.BuiltOf .ternaryExpression
        [condition, .token (Leaf.sign .question), consequence, .token (Leaf.sign .colon), alternative]) : Composed tree
  | assignment {tree left right : Tree} (hleft : Composed left) (hright : Composed right)
      (hbuilt : tree.BuiltOf .assignmentExpression [left, .token (Leaf.sign .equals), right]) : Composed tree
  | update {tree left right : Tree} {kind : Kind} (hsign : Grammar.isUpdate kind = true) (hleft : Composed left)
      (hright : Composed right)
      (hbuilt : tree.BuiltOf .updateExpression [left, .token (Leaf.sign kind), right]) : Composed tree
  | prefixed {tree inner : Tree} {kind : Kind} (hsign : TokenSet.prefixOperators.contains kind = true)
      (hinner : Composed inner) (hbuilt : tree.BuiltOf .unaryExpression [.token (Leaf.sign kind), inner]) : Composed tree
  | increment {tree inner : Tree} {kind : Kind} (hsign : Grammar.isIncrement kind = true) (hinner : Composed inner)
      (hbuilt : tree.BuiltOf .unaryExpression [inner, .token (Leaf.sign kind)]) : Composed tree
  | member {tree object : Tree} {name : Leaf} (hname : name.IsName) (hobject : Composed object)
      (hbuilt : tree.BuiltOf .derefExpression [object, .token (Leaf.sign .dot), .token name]) : Composed tree
  | index {tree object key : Tree} (hobject : Composed object) (hkey : Composed key)
      (hbuilt : tree.BuiltOf .indexExpression
        [object, .token (Leaf.sign .bracketOpen), key, .token (Leaf.sign .bracketClose)]) : Composed tree
  | call {tree function list : Tree} {arguments : List Tree} (hfunction : Composed function)
      (harguments : ∀ argument ∈ arguments, Composed argument) (hlist : list.BuiltOf .callArgs (argumentRow arguments))
      (hbuilt : tree.BuiltOf .callExpression [function, list]) : Composed tree
  | rawcall {tree list : Tree} {arguments : List Tree} (harguments : ∀ argument ∈ arguments, Composed argument)
      (hlist : list.BuiltOf .callArgs (argumentRow arguments))
      (hbuilt : tree.BuiltOf .callExpression [.token (Leaf.sign .kwRawcall), list]) : Composed tree
  | keyword {tree inner : Tree} {kind node : Kind} (hsign : Grammar.keywordNode? kind = some node)
      (hinner : Composed inner) (hbuilt : tree.BuiltOf node [.token (Leaf.sign kind), inner]) : Composed tree

namespace Tree

/-- There are no numbers in it. -/
theorem Composed.kind_ne_integer {tree : Tree} (htree : tree.Composed) : tree.kind ≠ .integer := by
  cases htree with
  | keyword hsign _ hbuilt =>
    have hall : ∀ kind ∈ Kind.all, Grammar.keywordNode? kind ≠ some .integer := by decide +kernel
    rw [hbuilt.kind_eq]
    rintro rfl
    exact hall _ (Lexeme.mem_all _) hsign
  | _ =>
    rename_i hbuilt
    rw [hbuilt.kind_eq]
    decide

/-- Its forms are read as themselves, one by one. -/
theorem Composed.roundTrips {tree : Tree} (htree : tree.Composed) : tree.RoundTrips false := by
  induction htree with
  | identifier hname hbuilt => exact .identifier hname hbuilt
  | globalVariable hname hbuilt => exact .globalVariable hname hbuilt
  | parenthesized _ hbuilt hinner => exact .parenthesized hbuilt hinner
  | binary hsign _ _ hbuilt hleft hright => exact .binary hbuilt hsign hleft nofun hright
  | ternary _ _ _ hbuilt hcondition hconsequence halternative =>
    exact .ternary hbuilt hcondition nofun hconsequence halternative nofun
  | assignment _ _ hbuilt hleft hright => exact .assignment hbuilt hleft nofun hright nofun
  | update hsign _ _ hbuilt hleft hright => exact .update hbuilt hsign hleft nofun hright nofun
  | prefixed hsign _ hbuilt hinner => exact .prefixed hbuilt hsign hinner nofun
  | increment hsign _ hbuilt hinner => exact .increment hbuilt hsign hinner nofun
  | member hname hcomposed hbuilt hobject => 
    refine .member hname hbuilt hobject (fun hwhole => ?_) nofun
    exact absurd (beq_iff_eq.mp (Bool.and_eq_true_iff.mp hwhole).1) hcomposed.kind_ne_integer
  | index _ _ hbuilt hobject hkey => exact .index hbuilt hobject nofun hkey
  | call _ _ hlist hbuilt hfunction harguments =>
    exact .call hbuilt hfunction nofun hlist fun argument hmem => ⟨false, harguments argument hmem⟩
  | rawcall _ hlist hbuilt harguments =>
    exact .rawcall hbuilt hlist fun argument hmem => ⟨false, harguments argument hmem⟩
  | keyword hsign _ hbuilt hinner => exact .keyword hbuilt hsign hinner

end Tree

/-! ### Scripts of one expression -/

theorem Leaf.Apart.isRejected_eq_false {leaves : List Leaf} {after : List Char} (hapart : Apart leaves after) :
    ∀ leaf ∈ leaves, leaf.kind.isRejected = false := by
  induction leaves with
  | nil => exact nofun
  | cons leaf rest ih =>
    obtain ⟨hleaf, hrest⟩ := hapart
    have hfirst := congrArg Prod.fst hleaf.first
    exact List.forall_mem_cons.mpr ⟨Lexeme.isRejected_of_first hfirst, ih hrest⟩

theorem Word.leaf_mem_of_mem_ofLeaves {leaves : List Leaf} {word : Word} {afterBreak joined : Bool}
    (hmem : word ∈ ofLeaves afterBreak joined leaves) : word.leaf ∈ leaves := by
  induction leaves generalizing afterBreak joined with
  | nil => exact nomatch hmem
  | cons leaf rest ih =>
    rw [ofLeaves, List.map_cons, ofTokens] at hmem
    split at hmem
    · exact List.mem_cons_of_mem _ (ih hmem)
    · obtain rfl | hmem := List.mem_cons.mp hmem
      · exact List.mem_cons_self
      · exact List.mem_cons_of_mem _ (ih hmem)

/-- The script is one expression statement without a semicolon. -/
def Tree.IsStatementOf (root expression : Tree) : Prop :=
  ∃ statement, root.BuiltOf .script [statement] ∧ statement.BuiltOf .expressionStatement [expression]

theorem Tree.RoundTrips.exists_parse {tree : Tree} (htree : tree.RoundTrips false) :
    ∃ script expression, Script.parse tree.render .unbounded = .ok script ∧ script.diagnostics = [] ∧
      script.root.IsStatementOf expression ∧ expression.bare = tree.bare := by
  obtain ⟨leaves, copy, hwritten, hexpression, hbare, hreads⟩ := htree.reads true
  have hapart := hwritten.apart [] nofun
  have hwords : Word.ofSource tree.render = Word.ofLeaves false false leaves :=
    Word.ofSource_eq_ofLeaves hwritten.chars.symm hapart
  have hchain := hreads false (.chain 0 false) [] ⟨⟨0, false, rfl, nofun, fun _ _ => Nat.zero_le _⟩, fun _ _ => rfl, fun _ => rfl⟩
  rw [List.append_nil, ← hwords] at hchain
  have hword := isTrivia_of_isExpression hexpression
  have hcopy := builtOf_node .expressionStatement (List.forall_mem_singleton.mpr hword)
  have hsemicolon : Derives [.part (.optional .semicolon)] [] [] [] := .phrase .noToken (.guard _ nofun) rfl
  have hstatement : Derives [.part .statement] (Word.ofSource tree.render) [] [.node .expressionStatement [copy]] :=
    .phrase .expressionStatement ((hchain.expression_of_chain rfl).append hsemicolon) ⟨_, hcopy, rfl⟩
  have hscript : Derives [.part .script] (Word.ofSource tree.render) [] [.node .expressionStatement [copy]] :=
    .phrase .scriptMore (hstatement.append (.phrase .scriptEnd .nil rfl)) rfl
  obtain ⟨script, hparse, hclean, hroot⟩ := Script.exists_parse_of_derives (fun word hmem => by
    rw [hwords] at hmem
    exact hapart.isRejected_eq_false _ (Word.leaf_mem_of_mem_ofLeaves hmem)) hscript
  obtain ⟨row, hbuilt, hrow⟩ := exists_builtOf hroot
  obtain ⟨statement, rfl, hcopied⟩ := List.map_eq_singleton_iff.mp hrow
  rw [hcopy.trim_eq] at hcopied
  obtain ⟨parts, hparts, hinner⟩ := exists_builtOf hcopied
  obtain ⟨expression, rfl, htrim⟩ := List.map_eq_singleton_iff.mp hinner
  refine ⟨script, expression, hparse, hclean, ⟨statement, hbuilt, hparts⟩, ?_⟩
  rw [← bare_trim expression, htrim, bare_trim, hbare]

/-- However an expression is put together, its text parses to the same expression. -/
theorem Script.parse_render {tree : Tree} (htree : tree.Composed) :
    ∃ script expression, Script.parse tree.render .unbounded = .ok script ∧ script.diagnostics = [] ∧
      script.root.IsStatementOf expression ∧ expression.bare = tree.bare :=
  htree.roundTrips.exists_parse

/-- A product of an assignment and a conditional, which no source groups without parentheses. -/
theorem Script.parse_render_product :
    ∃ tree : Tree, tree.Composed ∧ tree.render = "(a = b) * (c ? d : e)" ∧
      ∃ script expression, Script.parse tree.render .unbounded = .ok script ∧ script.diagnostics = [] ∧
        script.root.IsStatementOf expression ∧ expression.bare = tree.bare := by
  have hname (name : String)
      (hfound : ((Pattern.residue Lexeme.patterns name.toList).find? (·.2.nullable)).map (·.1) = some .id) :
      (node .identifier [token ⟨.id, name⟩]).Composed :=
    .identifier (Leaf.isName_of_residue hfound) (builtOf_node _ (List.forall_mem_singleton.mpr rfl))
  have hbuilt (kind : Kind) (row : List Tree) (htidy : row.all (!·.isTrivia) = true) : (node kind row).BuiltOf kind row :=
    builtOf_node kind (by simpa using htidy)
  have hassignment := Composed.assignment (hname "a" (by decide +kernel)) (hname "b" (by decide +kernel)) (hbuilt _ _ rfl)
  have hternary := Composed.ternary (hname "c" (by decide +kernel)) (hname "d" (by decide +kernel))
    (hname "e" (by decide +kernel)) (hbuilt _ _ rfl)
  have hsign : Power.binary? .star = some 12 := rfl
  have hproduct := Composed.binary hsign hassignment hternary (hbuilt _ _ rfl)
  exact ⟨_, hproduct, by cbv, Script.parse_render hproduct⟩

end Squirrel
