import Squirrel.Proofs.Grammar.Accept.Statement

/-!
# The grammar accepts what can be derived

The converse of reading by productions: where the words ahead have a derivation, the rules of the grammar read them without
a report and build the trees of the derivation. What a phrase has to be accepted by follows the rules: the call of a
nonterminal, a part of a rule, or for a chain of suffixes whatever the operator loop makes of it.
-/

namespace Squirrel

open Word Grammar

/-- The words start an expression, but neither with rejected input nor with the name of a function. -/
structure Word.StartsOperand (words : List Word) : Prop where
  starts : StartsExpression words
  accepted : here words ≠ .garbage
  unnamed : here words = .kwFunction → here words.tail ≠ .id

/-- The words start an expression, or a table where one is allowed. -/
def Word.StartsValue (tableAllowed : Bool) (words : List Word) : Prop :=
  StartsOperand words ∨ tableAllowed = true ∧ here words = .braceOpen

namespace Grammar

/-- The rule that is called for a phrase, or that reads it in the middle of another one, accepts the words. -/
@[reducible] def AcceptsPhrase (words : List Word) (trees : List Tree) (last : List Word) : Phrase → Prop
  | .script => last = [] → (call .script).Accepts false words () trees last
  | .statement => StartsStatement words ∧ (call .statement).Accepts false words () trees last
  | .blockStatements => here last = .braceClose → (call .blockStatements).Accepts false words () trees last
  | .header => ∀ construct, (parenHeader construct).Accepts false words () trees last
  | .elseBranch => elseBranch.Accepts false words () trees last
  | .elseClause => here words = .kwElse ∧ elseClause.Accepts true words () trees last
  | .loopBody => loopBody.Accepts false words () trees last
  | .forInitial => forInitial.Accepts false words () trees last
  | .headerLocal => here words = .kwLocal ∧ (localDeclaration false).Accepts true words () trees last
  | .bindings => (call .localBindings).Accepts false words () trees last
  | .binding => here words = .id ∧ binding.Accepts true words () trees last
  | .bindingValue => bindingValue.Accepts false words () trees last
  | .loopVariables => ∀ rest final, here last = .kwIn → (foreachRest true).Accepts false last () rest final →
      ∀ keyword left : Word, keyword.kind = .kwForeach → left.kind = .parenOpen →
        foreachStatement.Accepts true (keyword :: left :: words) ()
          [.node .foreachStatement ([keyword.tree] ++ ([left.tree] ++ (trees ++ rest)))] final
  | .switchClauses => here last = .braceClose → (call (.switchClauses false)).Accepts false words () trees last
  | .caseClause => here words = .kwCase ∧ caseClause.Accepts true words () trees last
  | .defaultClause => here words = .kwDefault ∧ defaultClause.Accepts true words () trees last
  | .caseStatements => (call .caseStatements).Accepts false words () trees last
  | .returnValue => returnValue.Accepts false words () trees last
  | .yieldValue => yieldValue.Accepts false words () trees last
  | .catchClause => here words = .kwCatch ∧ catchClause.Accepts true words () trees last
  | .terminator => ∀ what, (expectTerminator what).Accepts false words () trees last
  | .classDeclaration => here words = .kwClass ∧ classDeclaration.Accepts true words () trees last
  | .base => base.Accepts false words () trees last
  | .members => here last = .braceClose → (call .members).Accepts false words () trees last
  | .member => TokenSet.memberFirst.contains (here words) = true ∧ member.Accepts true words () trees last
  | .enumDeclaration => here words = .kwEnum ∧ enumDeclaration.Accepts true words () trees last
  | .enumEntries => here last = .braceClose → (call .enumEntries).Accepts false words () trees last
  | .enumEntry => here words = .id ∧
      (node .enumEntry (advance >>= fun _ => initialConst)).Accepts true words () trees last
  | .constDeclaration => here words = .kwConst ∧ constDeclaration.Accepts true words () trees last
  | .functionDeclaration => (here words = .kwFunction ∧ here words.tail = .id) ∧
      functionDeclaration.Accepts true words () trees last
  | .parameters => here words = .parenOpen ∧ parameters.Accepts false words () trees last
  | .parameterList => here last = .parenClose →
      ∀ count, (call (.parameterList [] count)).Accepts false words () trees last
  | .parameter => here words = .id ∧
      (node .parameter (advance >>= fun _ => initialConst)).Accepts true words () trees last
  | .variadic => here words = .ellipsis ∧ (node .parameter advance).Accepts true words () trees last
  | .optionalAttributes => (here words = .attributeOpen ∨ words = last) ∧
      optionalAttributes.Accepts false words () trees last
  | .attributes => here words = .attributeOpen ∧ attributes.Accepts true words () trees last
  | .attributeList => here last = .attributeClose →
      (here words = .id ∨ words = last ∧ trees = []) ∧ (call .attributeList).Accepts false words () trees last
  | .attributeEntry => here words = .id ∧ attributeEntry.Accepts true words () trees last
  | .path separator => separator.isRejected = false → (call (.path separator)).Accepts false words () trees last
  | .initialConst => initialConst.Accepts false words () trees last
  | .constValue => constValue.Accepts false words () trees last
  | .optionalExpression => optionalExpression.Accepts false words () trees last
  | .expression power tableAllowed => StartsValue tableAllowed words ∧
      (call (.expression power tableAllowed)).Accepts false words () trees last
  | .chain power tableAllowed => StartsValue tableAllowed words ∧
      ∀ result final, Finishes power last trees result final →
        (call (.expression power tableAllowed)).Accepts false words () result final
  | .suffix found => (suffix found).Accepts true words () trees last
  | .operand tableAllowed => StartsValue tableAllowed words ∧
      (operand tableAllowed).Accepts false words true trees last
  | .parenthesized => here words = .parenOpen ∧ parenthesized.Accepts true words () trees last
  | .array => here words = .bracketOpen ∧ array.Accepts true words () trees last
  | .elements => here last = .bracketClose → (call .elements).Accepts false words () trees last
  | .table => here words = .braceOpen ∧ table.Accepts true words () trees last
  | .slots => here last = .braceClose → (call .slots).Accepts false words () trees last
  | .slot => StartsExpression words ∧ slot.Accepts true words () trees last
  | .callArguments => here words = .parenOpen ∧ callArguments.Accepts false words () trees last
  | .arguments => here last = .parenClose → (call .arguments).Accepts false words () trees last
  | .negative => (here words = .minus ∧ NumberFollows words) ∧ negativeLiteral.Accepts true words () trees last
  | .literal => (∃ kind, literalNode? (here words) = some kind) ∧
      (literal (here words)).Accepts true words true trees last
  | .optional kind => (∃ word : Word, word.kind = kind ∧ words = word :: last ∧ trees = [word.tree]) ∨
      here words ≠ kind ∧ words = last ∧ trees = []

/-- One item is accepted. -/
@[reducible] def AcceptsItem (words : List Word) (trees : List Tree) (last : List Word) : Item → Prop
  | .word kind => ∃ word : Word, word.kind = kind ∧ words = word :: last ∧ trees = [word.tree]
  | .wordIn accepts => ∃ word : Word, accepts word.kind = true ∧ words = word :: last ∧ trees = [word.tree]
  | .check condition => condition words ∧ words = last ∧ trees = []
  | .part phrase => AcceptsPhrase words trees last phrase

/-- The items are accepted one after the other. -/
@[reducible] def AcceptsItems (words : List Word) (trees : List Tree) (last : List Word) : List Item → Prop
  | [] => words = last ∧ trees = []
  | [item] => AcceptsItem words trees last item
  | item :: next :: rest => ∃ middle first second, AcceptsItem words first middle item ∧
      AcceptsItems middle second last (next :: rest) ∧ trees = first ++ second

/-- The trees of a phrase when blanks and comments are left out. -/
@[reducible] def placedBy (parts : List Tree) : Form → List Tree
  | .bare => parts
  | .node kind | .tight kind => [.node kind parts]

/-! ### Productions -/

variable {words last : List Word} {parts : List Tree} {form : Form} {body : List Item} {kind : Kind}

theorem exists_eat (hoptional : AcceptsPhrase words parts last (.optional kind)) (haccepted : kind.isRejected = false) :
    ∃ answer, (eat kind).Accepts false words answer parts last := by
  obtain ⟨word, hkind, rfl, rfl⟩ | ⟨hother, rfl, rfl⟩ := hoptional
  · exact ⟨true, accepts_eat hkind haccepted⟩
  · exact ⟨false, Looks.accepts (looks_eat_other hother)⟩

theorem StartsValue.startsOrTable {tableAllowed : Bool} (hstarts : StartsValue tableAllowed words) :
    StartsExpression words ∨ here words = .braceOpen := by
  obtain hstarts | ⟨-, hhere⟩ := hstarts
  · exact .inl hstarts.starts
  · exact .inr hhere

theorem StartsValue.startsOperand (hstarts : StartsValue false words) : StartsOperand words :=
  hstarts.resolve_right fun htable => Bool.false_ne_true htable.1

/-- A statement that its first word announces. -/
theorem accepts_announced {trees : List Tree} (hhere : here words = kind)
    (hkind : TokenSet.statementFirst.contains kind = true) (hgarbage : kind ≠ .garbage)
    (hknown : knownStatement.Accepts true words () trees last) : AcceptsPhrase words trees last .statement := by
  have hstarts : StartsStatement words := by rw [StartsStatement, hhere, hkind]
  exact ⟨hstarts, accepts_statement hstarts (by rwa [hhere]) hknown⟩

theorem startsStatement_of_startsExpression (hstarts : StartsExpression words) : StartsStatement words := by
  rw [StartsStatement]
  rw [StartsExpression] at hstarts
  revert hstarts
  generalize here words = kind
  intro hstarts
  cases kind
  all_goals first
    | rfl
    | exact absurd hstarts (by decide)

theorem eq_of_jumpNode? {nodeKind : Kind} (hjump : jumpNode? kind = some nodeKind) :
    kind = .kwBreak ∧ nodeKind = .breakStatement ∨ kind = .kwContinue ∧ nodeKind = .continueStatement := by
  revert hjump
  fun_cases jumpNode? kind
  all_goals
    intro hjump
    cases hjump
  all_goals simp

theorem accepts_statements (hproduction : Production .statement form body)
    (hbody : AcceptsItems words parts last body) : AcceptsPhrase words (placedBy parts form) last .statement := by
  cases hproduction with
  | block =>
    obtain ⟨_, _, _, ⟨left, hleft, rfl, rfl⟩, ⟨_, _, _, hstatements, ⟨right, hright, rfl, rfl⟩, rfl⟩, rfl⟩ := hbody
    refine accepts_announced hleft (by decide) nofun (accepts_look looks_current ?_)
    rw [here_cons, hleft]
    exact accepts_block hleft (hstatements hright) hright
  | emptyStatement =>
    obtain ⟨word, hword, rfl, rfl⟩ := hbody
    refine accepts_announced hword (by decide) nofun (accepts_look looks_current ?_)
    rw [here_cons, hword]
    exact accepts_node (accepts_advance (by rw [hword]; rfl))
  | ifStatement =>
    obtain ⟨_, _, _, ⟨keyword, hkeyword, rfl, rfl⟩, ⟨_, _, _, ⟨hhere, hcondition⟩,
      ⟨_, _, _, ⟨hstarts, hbody⟩, helse, rfl⟩, rfl⟩, rfl⟩ := hbody
    refine accepts_announced hkeyword (by decide) nofun (accepts_look looks_current ?_)
    rw [here_cons, hkeyword]
    exact accepts_ifStatement hkeyword hhere hcondition hstarts (Accepts.anywhere hbody) helse
  | whileStatement =>
    obtain ⟨_, _, _, ⟨keyword, hkeyword, rfl, rfl⟩, ⟨_, _, _, hheader, hloop, rfl⟩, rfl⟩ := hbody
    refine accepts_announced hkeyword (by decide) nofun (accepts_look looks_current ?_)
    rw [here_cons, hkeyword]
    exact accepts_whileStatement hkeyword hheader hloop
  | doWhileStatement =>
    obtain ⟨_, _, _, ⟨keyword, hkeyword, rfl, rfl⟩, ⟨_, _, _, ⟨hstarts, hbody⟩, ⟨_, _, _, ⟨word, hword, rfl, rfl⟩,
      ⟨_, _, _, hheader, hsemicolon, rfl⟩, rfl⟩, rfl⟩, rfl⟩ := hbody
    obtain ⟨_, hend⟩ := exists_eat hsemicolon rfl
    refine accepts_announced hkeyword (by decide) nofun (accepts_look looks_current ?_)
    rw [here_cons, hkeyword]
    exact accepts_doWhileStatement hkeyword hstarts (Accepts.anywhere hbody) hword hheader hend
  | forStatement =>
    obtain ⟨_, _, _, ⟨keyword, hkeyword, rfl, rfl⟩, ⟨_, _, _, ⟨left, hleft, rfl, rfl⟩, ⟨_, _, _, hinitial,
      ⟨_, _, _, ⟨start, hstart, rfl, rfl⟩, ⟨_, _, _, hcondition, ⟨_, _, _, ⟨stop, hstop, rfl, rfl⟩,
      ⟨_, _, _, hincrement, ⟨_, _, _, ⟨right, hright, rfl, rfl⟩, ⟨hstarts, hbody⟩, rfl⟩, rfl⟩, rfl⟩, rfl⟩, rfl⟩,
      rfl⟩, rfl⟩, rfl⟩ := hbody
    refine accepts_announced hkeyword (by decide) nofun (accepts_look looks_current ?_)
    rw [here_cons, hkeyword]
    exact accepts_forStatement hkeyword hleft hinitial hstart hcondition hstop hincrement hright hstarts
      (Accepts.anywhere hbody)
  | foreachStatement =>
    obtain ⟨_, _, _, ⟨keyword, hkeyword, rfl, rfl⟩, ⟨_, _, _, ⟨left, hleft, rfl, rfl⟩, ⟨_, _, _, hvariables,
      ⟨_, _, _, ⟨sign, hsign, rfl, rfl⟩, ⟨_, _, _, ⟨-, hcollection⟩, ⟨_, _, _, ⟨right, hright, rfl, rfl⟩,
      ⟨hstarts, hbody⟩, rfl⟩, rfl⟩, rfl⟩, rfl⟩, rfl⟩, rfl⟩ := hbody
    refine accepts_announced hkeyword (by decide) nofun (accepts_look looks_current ?_)
    rw [here_cons, hkeyword]
    refine hvariables _ _ hsign ?_ keyword left hkeyword hleft
    exact accepts_foreachRest hsign hcollection hright hstarts (Accepts.anywhere hbody)
  | switchStatement =>
    obtain ⟨_, _, _, ⟨keyword, hkeyword, rfl, rfl⟩, ⟨_, _, _, hheader, ⟨_, _, _, ⟨left, hleft, rfl, rfl⟩,
      ⟨_, _, _, hclauses, ⟨right, hright, rfl, rfl⟩, rfl⟩, rfl⟩, rfl⟩, rfl⟩ := hbody
    refine accepts_announced hkeyword (by decide) nofun (accepts_look looks_current ?_)
    rw [here_cons, hkeyword]
    exact accepts_switchStatement hkeyword hheader hleft (hclauses hright) hright
  | jump hjump =>
    obtain ⟨_, _, _, ⟨keyword, hkeyword, rfl, rfl⟩, ⟨semicolon, hsemicolon, rfl, rfl⟩, rfl⟩ := hbody
    obtain ⟨rfl, rfl⟩ | ⟨rfl, rfl⟩ := eq_of_jumpNode? hjump
    all_goals
      refine accepts_announced hkeyword (by decide) nofun (accepts_look looks_current ?_)
      rw [here_cons, hkeyword]
      exact accepts_jump (by rw [hkeyword]; rfl) hsemicolon
  | returnStatement =>
    obtain ⟨_, _, _, ⟨keyword, hkeyword, rfl, rfl⟩, ⟨_, _, _, hvalue, hsemicolon, rfl⟩, rfl⟩ := hbody
    obtain ⟨_, hend⟩ := exists_eat hsemicolon rfl
    refine accepts_announced hkeyword (by decide) nofun (accepts_look looks_current ?_)
    rw [here_cons, hkeyword]
    exact accepts_returnStatement hkeyword hvalue hend
  | yieldStatement =>
    obtain ⟨_, _, _, ⟨keyword, hkeyword, rfl, rfl⟩, ⟨_, _, _, hvalue, hend, rfl⟩, rfl⟩ := hbody
    refine accepts_announced hkeyword (by decide) nofun (accepts_look looks_current ?_)
    rw [here_cons, hkeyword]
    exact accepts_yieldStatement hkeyword hvalue hend
  | throwStatement =>
    obtain ⟨_, _, _, ⟨keyword, hkeyword, rfl, rfl⟩, ⟨_, _, _, ⟨-, hvalue⟩, hsemicolon, rfl⟩, rfl⟩ := hbody
    obtain ⟨_, hend⟩ := exists_eat hsemicolon rfl
    refine accepts_announced hkeyword (by decide) nofun (accepts_look looks_current ?_)
    rw [here_cons, hkeyword]
    exact accepts_throwStatement hkeyword hvalue hend
  | localStatement =>
    obtain ⟨_, _, _, ⟨keyword, hkeyword, rfl, rfl⟩, ⟨_, _, _, hbindings, hsemicolon, rfl⟩, rfl⟩ := hbody
    obtain ⟨_, hend⟩ := exists_eat hsemicolon rfl
    refine accepts_announced hkeyword (by decide) nofun (accepts_look looks_current ?_)
    rw [here_cons, hkeyword]
    exact accepts_localStatement hkeyword hbindings hend
  | varStatement =>
    obtain ⟨_, _, _, ⟨keyword, hkeyword, rfl, rfl⟩, ⟨_, _, _, ⟨name, hname, rfl, rfl⟩, ⟨_, _, _, ⟨sign, hsign, rfl, rfl⟩,
      ⟨_, _, _, ⟨-, hvalue⟩, hsemicolon, rfl⟩, rfl⟩, rfl⟩, rfl⟩ := hbody
    obtain ⟨_, hend⟩ := exists_eat hsemicolon rfl
    refine accepts_announced hkeyword (by decide) nofun (accepts_look looks_current ?_)
    rw [here_cons, hkeyword]
    exact accepts_varStatement hkeyword hname hsign hvalue hend
  | tryStatement =>
    obtain ⟨_, _, _, ⟨keyword, hkeyword, rfl, rfl⟩, ⟨_, _, _, ⟨hstarts, hbody⟩, ⟨hhere, hcatch⟩, rfl⟩, rfl⟩ := hbody
    refine accepts_announced hkeyword (by decide) nofun (accepts_look looks_current ?_)
    rw [here_cons, hkeyword]
    exact accepts_tryStatement hkeyword hstarts (Accepts.anywhere hbody) hhere hcatch
  | expressionStatement =>
    obtain ⟨_, _, _, ⟨hstarts, hvalue⟩, hsemicolon, rfl⟩ := hbody
    obtain ⟨_, hend⟩ := exists_eat hsemicolon rfl
    have hstarts := StartsValue.startsOperand hstarts
    refine ⟨startsStatement_of_startsExpression hstarts.starts, ?_⟩
    refine accepts_statement (startsStatement_of_startsExpression hstarts.starts) hstarts.accepted ?_
    exact accepts_knownExpression hstarts.starts hstarts.unnamed
      (accepts_expressionStatement (Accepts.anywhere hvalue) hend)
  | functionStatement =>
    obtain ⟨⟨hhere, hname⟩, hfunction⟩ := hbody
    refine accepts_announced hhere (by decide) nofun (accepts_look looks_current ?_)
    rw [hhere]
    refine accepts_look looks_next ?_
    rwa [if_pos (by simp [hname])]
  | classStatement =>
    obtain ⟨hhere, hclass⟩ := hbody
    refine accepts_announced hhere (by decide) nofun (accepts_look looks_current ?_)
    rwa [hhere]
  | constStatement =>
    obtain ⟨hhere, hconst⟩ := hbody
    refine accepts_announced hhere (by decide) nofun (accepts_look looks_current ?_)
    rwa [hhere]
  | enumStatement =>
    obtain ⟨hhere, henum⟩ := hbody
    refine accepts_announced hhere (by decide) nofun (accepts_look looks_current ?_)
    rwa [hhere]

theorem accepts_suffixes {found : Suffix} (hproduction : Production (.suffix found) form body)
    (hbody : AcceptsItems words parts last body) : AcceptsPhrase words (placedBy parts form) last (.suffix found) := by
  cases hproduction with
  | suffixMember =>
    obtain ⟨_, _, _, ⟨word, hword, rfl, rfl⟩, ⟨name, hname, rfl, rfl⟩, rfl⟩ := hbody
    exact accepts_suffixMember hword hname
  | suffixIndex =>
    obtain ⟨_, _, _, ⟨left, hleft, rfl, rfl⟩, ⟨_, _, _, ⟨-, hindex⟩, ⟨right, hright, rfl, rfl⟩, rfl⟩, rfl⟩ := hbody
    exact accepts_suffixIndex hleft hindex hright
  | suffixCall => exact Accepts.anywhere hbody.2
  | suffixIncrement =>
    obtain ⟨word, hword, rfl, rfl⟩ := hbody
    exact accepts_suffixIncrement hword
  | suffixTernary =>
    obtain ⟨_, _, _, ⟨word, hword, rfl, rfl⟩, ⟨_, _, _, ⟨-, hconsequence⟩, ⟨_, _, _, ⟨sign, hsign, rfl, rfl⟩,
      ⟨-, halternative⟩, rfl⟩, rfl⟩, rfl⟩ := hbody
    exact accepts_suffixTernary hword hconsequence hsign halternative
  | suffixAssignment =>
    obtain ⟨_, _, _, ⟨word, hword, rfl, rfl⟩, ⟨-, hvalue⟩, rfl⟩ := hbody
    exact accepts_suffixAssignment hword hvalue
  | suffixUpdate =>
    obtain ⟨_, _, _, ⟨word, hword, rfl, rfl⟩, ⟨-, hvalue⟩, rfl⟩ := hbody
    exact accepts_suffixUpdate hword hvalue
  | suffixBinary power =>
    obtain ⟨_, _, _, ⟨word, hword, rfl, rfl⟩, ⟨-, hright⟩, rfl⟩ := hbody
    exact accepts_suffixBinary (beq_iff_eq.mp hword) hright

/-- The word that an operand starts with. -/
theorem startsValue_of_here {tableAllowed : Bool} (hhere : here words = kind)
    (hkind : TokenSet.expressionFirst.contains kind = true) (hgarbage : kind ≠ .garbage)
    (hfunction : kind = .kwFunction → here words.tail ≠ .id) : StartsValue tableAllowed words :=
  .inl ⟨startsExpression_of_here hhere hkind, by rwa [hhere], by rwa [hhere]⟩

theorem startsValue_of_literalNode? {tableAllowed : Bool} {nodeKind : Kind}
    (hhere : literalNode? (here words) = some nodeKind) : StartsValue tableAllowed words := by
  revert hhere
  generalize hfound : here words = found
  fun_cases literalNode? found
  all_goals
    intro hhere
    cases hhere
  all_goals exact startsValue_of_here hfound (by decide) (by simp) (by simp)

theorem startsValue_of_keywordNode? {tableAllowed : Bool} {nodeKind : Kind} (hhere : here words = kind)
    (hkeyword : keywordNode? kind = some nodeKind) : StartsValue tableAllowed words := by
  revert hkeyword hhere
  fun_cases keywordNode? kind
  all_goals
    intro hhere hkeyword
    cases hkeyword
  all_goals exact startsValue_of_here hhere (by decide) (by simp) (by simp)

theorem accepts_operands {tableAllowed : Bool} (hproduction : Production (.operand tableAllowed) form body)
    (hbody : AcceptsItems words parts last body) :
    AcceptsPhrase words (placedBy parts form) last (.operand tableAllowed) := by
  cases hproduction with
  | operandNegative =>
    obtain ⟨⟨hhere, hnumber⟩, hvalue⟩ := hbody
    exact ⟨startsValue_of_here hhere (by decide) nofun nofun, accepts_operandNegative hhere hnumber hvalue⟩
  | prefixed =>
    obtain ⟨_, _, _, ⟨hnumber, rfl, rfl⟩, ⟨_, _, _, ⟨sign, hsign, rfl, rfl⟩, ⟨-, hoperand⟩, rfl⟩, rfl⟩ := hbody
    refine ⟨?_, accepts_prefixed hnumber hsign hoperand⟩
    have hmem := mem_of_prefixOperators hsign
    simp only [List.mem_cons, List.not_mem_nil, or_false] at hmem
    obtain hkind | hkind | hkind | hkind | hkind | hkind := hmem
    all_goals exact startsValue_of_here hkind (by decide) nofun nofun
  | operandParenthesized =>
    obtain ⟨hhere, hinner⟩ := hbody
    exact ⟨startsValue_of_here hhere (by decide) nofun nofun, accepts_operandParenthesized hhere hinner⟩
  | operandArray =>
    obtain ⟨hhere, harray⟩ := hbody
    exact ⟨startsValue_of_here hhere (by decide) nofun nofun, accepts_operandArray hhere harray⟩
  | operandTable =>
    obtain ⟨hhere, htable⟩ := hbody
    exact ⟨.inr ⟨rfl, hhere⟩, accepts_operandTable hhere htable⟩
  | identifier =>
    obtain ⟨name, hname, rfl, rfl⟩ := hbody
    exact ⟨startsValue_of_here hname (by decide) nofun nofun, accepts_identifier hname⟩
  | globalVariable =>
    obtain ⟨_, _, _, ⟨word, hword, rfl, rfl⟩, ⟨name, hname, rfl, rfl⟩, rfl⟩ := hbody
    exact ⟨startsValue_of_here hword (by decide) nofun nofun, accepts_globalVariable hword hname⟩
  | lambda =>
    obtain ⟨_, _, _, ⟨word, hword, rfl, rfl⟩, ⟨_, _, _, ⟨-, hparameters⟩, ⟨-, hvalue⟩, rfl⟩, rfl⟩ := hbody
    exact ⟨startsValue_of_here hword (by decide) nofun nofun, accepts_lambda hword hparameters hvalue⟩
  | anonymousFunction =>
    obtain ⟨_, _, _, ⟨keyword, hkeyword, rfl, rfl⟩, ⟨_, _, _, ⟨hhere, hparameters⟩, ⟨hstarts, hbody⟩, rfl⟩, rfl⟩ := hbody
    refine ⟨startsValue_of_here hkeyword (by decide) nofun fun _ => ?_, ?_⟩
    · rw [List.tail_cons, hhere]
      exact nofun
    · exact accepts_anonymousFunction hkeyword hparameters hstarts (Accepts.anywhere hbody)
  | keyword hnode =>
    obtain ⟨_, _, _, ⟨keyword, hkeyword, rfl, rfl⟩, ⟨-, hoperand⟩, rfl⟩ := hbody
    exact ⟨startsValue_of_keywordNode? hkeyword hnode, accepts_keyword hkeyword hnode hoperand⟩
  | rawcall =>
    obtain ⟨_, _, _, ⟨keyword, hkeyword, rfl, rfl⟩, ⟨-, harguments⟩, rfl⟩ := hbody
    exact ⟨startsValue_of_here hkeyword (by decide) nofun nofun, accepts_rawcall hkeyword harguments⟩
  | operandLiteral =>
    obtain ⟨⟨_, hhere⟩, hvalue⟩ := hbody
    exact ⟨startsValue_of_literalNode? hhere, accepts_operandLiteral hhere hvalue⟩

theorem accepts_members {form : Form} (hproduction : Production .member form body)
    (hbody : AcceptsItems words parts last body) : AcceptsPhrase words (placedBy parts form) last .member := by
  have hstarts {middle : List Word} (hattributes : here words = .attributeOpen ∨ words = middle)
      (hnext : TokenSet.memberFirst.contains (here middle) = true) :
      TokenSet.memberFirst.contains (here words) = true := by
    obtain hhere | rfl := hattributes
    · rw [hhere]
      decide
    · exact hnext
  cases hproduction with
  | field =>
    obtain ⟨middle, _, _, ⟨hhere, hattributes⟩, ⟨_, _, _, hstatic, ⟨_, _, _, ⟨name, hname, rfl, rfl⟩,
      ⟨_, _, _, ⟨sign, hsign, rfl, rfl⟩, ⟨_, _, _, ⟨-, hvalue⟩, hsemicolon, rfl⟩, rfl⟩, rfl⟩, rfl⟩, rfl⟩ := hbody
    have hnext : here middle = .kwStatic ∨ here middle = .id := by
      obtain ⟨word, hword, rfl, -⟩ | ⟨-, rfl, -⟩ := hstatic
      · exact .inl hword
      · exact .inr hname
    obtain ⟨_, hstatic⟩ := exists_eat hstatic rfl
    obtain ⟨_, hend⟩ := exists_eat hsemicolon rfl
    refine ⟨hstarts hhere ?_, accepts_field hattributes hnext (Accepts.anywhere hstatic) hname hsign hvalue hend⟩
    obtain hnext | hnext := hnext <;> rw [hnext] <;> decide
  | computed =>
    obtain ⟨_, _, _, ⟨hhere, hattributes⟩, ⟨_, _, _, ⟨left, hleft, rfl, rfl⟩, ⟨_, _, _, ⟨-, hkey⟩,
      ⟨_, _, _, ⟨right, hright, rfl, rfl⟩, ⟨_, _, _, ⟨sign, hsign, rfl, rfl⟩, ⟨_, _, _, ⟨-, hvalue⟩, hsemicolon, rfl⟩,
      rfl⟩, rfl⟩, rfl⟩, rfl⟩, rfl⟩ := hbody
    obtain ⟨_, hend⟩ := exists_eat hsemicolon rfl
    refine ⟨hstarts hhere ?_, accepts_computed hattributes hleft hkey hright hsign hvalue hend⟩
    rw [here_cons, hleft]
    decide
  | method =>
    obtain ⟨_, _, _, ⟨hhere, hattributes⟩, ⟨⟨hnext, -⟩, hfunction⟩, rfl⟩ := hbody
    refine ⟨hstarts hhere ?_, accepts_method hattributes hnext hfunction⟩
    rw [hnext]
    decide
  | constructor =>
    obtain ⟨_, _, _, ⟨hhere, hattributes⟩, ⟨_, _, _, ⟨keyword, hkeyword, rfl, rfl⟩, ⟨_, _, _, ⟨-, hparameters⟩,
      ⟨hbegins, hbody⟩, rfl⟩, rfl⟩, rfl⟩ := hbody
    refine ⟨hstarts hhere ?_, accepts_constructor hattributes hkeyword hparameters hbegins (Accepts.anywhere hbody)⟩
    rw [here_cons, hkeyword]
    decide

/-- What a production says is accepted if its items are. -/
theorem accepts_production {phrase : Phrase} (hproduction : Production phrase form body)
    (hbody : AcceptsItems words parts last body) : AcceptsPhrase words (placedBy parts form) last phrase := by
  cases phrase with
  | script =>
    cases hproduction with
    | scriptEnd =>
      obtain ⟨rfl, rfl⟩ := hbody
      rintro rfl
      exact accepts_scriptEnd
    | scriptMore =>
      obtain ⟨_, _, _, ⟨hstarts, hstatement⟩, hrest, rfl⟩ := hbody
      exact fun hlast => accepts_scriptMore hstarts (Accepts.anywhere hstatement) (hrest hlast)
  | statement => exact accepts_statements hproduction hbody
  | blockStatements =>
    cases hproduction with
    | blockEnd =>
      obtain ⟨rfl, rfl⟩ := hbody
      exact accepts_blockEnd
    | blockMore =>
      obtain ⟨_, _, _, ⟨hstarts, hstatement⟩, hrest, rfl⟩ := hbody
      exact fun hlast => accepts_blockMore hstarts (Accepts.anywhere hstatement) (hrest hlast)
  -- conditions and loops
  | header =>
    cases hproduction
    obtain ⟨_, _, _, ⟨left, hleft, rfl, rfl⟩, ⟨_, _, _, ⟨-, hvalue⟩, ⟨right, hright, rfl, rfl⟩, rfl⟩, rfl⟩ := hbody
    exact fun construct => accepts_header hleft hvalue hright
  | elseBranch =>
    cases hproduction with
    | noElse =>
      obtain ⟨hhere, rfl, rfl⟩ := hbody
      exact accepts_noElse hhere
    | someElse => exact accepts_someElse hbody.1 hbody.2
  | elseClause =>
    cases hproduction
    obtain ⟨_, _, _, ⟨keyword, hkeyword, rfl, rfl⟩, ⟨hstarts, hbody⟩, rfl⟩ := hbody
    exact ⟨hkeyword, accepts_elseClause hkeyword hstarts (Accepts.anywhere hbody)⟩
  | loopBody =>
    cases hproduction with
    | noLoopBody =>
      obtain ⟨hstarts, rfl, rfl⟩ := hbody
      exact accepts_noLoopBody hstarts
    | someLoopBody => exact accepts_someLoopBody hbody.1 (Accepts.anywhere hbody.2)
  | forInitial =>
    cases hproduction with
    | forLocal => exact accepts_forLocal hbody.1 hbody.2
    | forExpression =>
      obtain ⟨_, _, _, ⟨hhere, rfl, rfl⟩, hvalue, rfl⟩ := hbody
      exact accepts_forExpression hhere (Accepts.anywhere hvalue)
  | headerLocal =>
    cases hproduction
    obtain ⟨_, _, _, ⟨keyword, hkeyword, rfl, rfl⟩, hbindings, rfl⟩ := hbody
    exact ⟨hkeyword, accepts_headerLocal hkeyword hbindings⟩
  | bindings =>
    cases hproduction with
    | lastBinding =>
      obtain ⟨_, _, _, ⟨hhere, hbinding⟩, ⟨hlast, rfl, rfl⟩, rfl⟩ := hbody
      rw [List.append_nil]
      exact accepts_lastBinding hhere hbinding hlast
    | moreBindings =>
      obtain ⟨_, _, _, ⟨hhere, hbinding⟩, ⟨_, _, _, ⟨word, hcomma, rfl, rfl⟩, hrest, rfl⟩, rfl⟩ := hbody
      exact accepts_moreBindings hhere hbinding hcomma hrest
  | binding =>
    cases hproduction
    obtain ⟨_, _, _, ⟨name, hname, rfl, rfl⟩, hvalue, rfl⟩ := hbody
    exact ⟨hname, accepts_binding hname hvalue⟩
  | bindingValue =>
    cases hproduction with
    | noBindingValue =>
      obtain ⟨hhere, rfl, rfl⟩ := hbody
      exact accepts_noBindingValue hhere
    | someBindingValue =>
      obtain ⟨_, _, _, ⟨sign, hsign, rfl, rfl⟩, ⟨-, hvalue⟩, rfl⟩ := hbody
      exact accepts_someBindingValue hsign hvalue
  | loopVariables =>
    cases hproduction with
    | loopValue =>
      obtain ⟨name, hname, rfl, rfl⟩ := hbody
      intro rest final hhere hrest keyword left hkeyword hleft
      exact accepts_foreachValue hkeyword hleft hname hhere (Accepts.anywhere hrest)
    | loopIndexValue =>
      obtain ⟨_, _, _, ⟨name, hname, rfl, rfl⟩, ⟨_, _, _, ⟨word, hcomma, rfl, rfl⟩, ⟨value, hvalue, rfl, rfl⟩, rfl⟩,
        rfl⟩ := hbody
      intro rest final hhere hrest keyword left hkeyword hleft
      exact accepts_foreachIndexValue hkeyword hleft hname hcomma hvalue hrest
  -- switch
  | switchClauses =>
    cases hproduction with
    | switchEnd =>
      obtain ⟨rfl, rfl⟩ := hbody
      exact accepts_switchEnd
    | switchCase =>
      obtain ⟨_, _, _, ⟨hhere, hclause⟩, hrest, rfl⟩ := hbody
      exact fun hlast => accepts_switchCase hhere hclause (hrest hlast)
    | switchDefault => exact accepts_switchDefault hbody.1 hbody.2
  | caseClause =>
    cases hproduction
    obtain ⟨_, _, _, ⟨keyword, hkeyword, rfl, rfl⟩, ⟨_, _, _, ⟨-, hvalue⟩, ⟨_, _, _, ⟨sign, hsign, rfl, rfl⟩, hstatements,
      rfl⟩, rfl⟩, rfl⟩ := hbody
    exact ⟨hkeyword, accepts_caseClause hkeyword hvalue hsign hstatements⟩
  | defaultClause =>
    cases hproduction
    obtain ⟨_, _, _, ⟨keyword, hkeyword, rfl, rfl⟩, ⟨_, _, _, ⟨sign, hsign, rfl, rfl⟩, hstatements, rfl⟩, rfl⟩ := hbody
    exact ⟨hkeyword, accepts_defaultClause hkeyword hsign hstatements⟩
  | caseStatements =>
    cases hproduction with
    | caseEnd =>
      obtain ⟨hhere, rfl, rfl⟩ := hbody
      exact accepts_caseEnd hhere
    | caseMore =>
      obtain ⟨_, _, _, ⟨hstarts, hstatement⟩, hrest, rfl⟩ := hbody
      exact accepts_caseMore hstarts (Accepts.anywhere hstatement) hrest
  -- jumps
  | returnValue =>
    cases hproduction with
    | noReturnValue =>
      obtain ⟨hnone, rfl, rfl⟩ := hbody
      exact accepts_noReturnValue hnone.1 hnone.2
    | someReturnValue =>
      exact accepts_someReturnValue (StartsValue.startsOrTable hbody.1) (Accepts.anywhere hbody.2)
  | yieldValue =>
    cases hproduction with
    | noYieldValue =>
      obtain ⟨hnone, rfl, rfl⟩ := hbody
      exact accepts_noYieldValue hnone
    | someYieldValue =>
      obtain ⟨_, _, _, ⟨hbreak, rfl, rfl⟩, ⟨hstarts, hvalue⟩, rfl⟩ := hbody
      exact accepts_someYieldValue (StartsValue.startsOperand hstarts).starts hbreak (Accepts.anywhere hvalue)
  | catchClause =>
    cases hproduction
    obtain ⟨_, _, _, ⟨keyword, hkeyword, rfl, rfl⟩, ⟨_, _, _, ⟨left, hleft, rfl, rfl⟩, ⟨_, _, _, ⟨name, hname, rfl, rfl⟩,
      ⟨_, _, _, ⟨right, hright, rfl, rfl⟩, ⟨hstarts, hbody⟩, rfl⟩, rfl⟩, rfl⟩, rfl⟩ := hbody
    exact ⟨hkeyword, accepts_catchClause hkeyword hleft hname hright hstarts (Accepts.anywhere hbody)⟩
  | terminator =>
    cases hproduction with
    | terminatorWord =>
      obtain ⟨word, hword, rfl, rfl⟩ := hbody
      exact fun _ => accepts_terminatorWord hword
    | terminatorPlace =>
      obtain ⟨hplace, rfl, rfl⟩ := hbody
      exact fun _ => accepts_terminatorPlace hplace.1 hplace.2
  -- classes
  | classDeclaration =>
    cases hproduction
    obtain ⟨_, _, _, ⟨keyword, hkeyword, rfl, rfl⟩, ⟨_, _, _, ⟨name, hname, rfl, rfl⟩, ⟨_, _, _, hpath, ⟨_, _, _, hbase,
      ⟨_, _, _, ⟨-, hattributes⟩, ⟨_, _, _, ⟨left, hleft, rfl, rfl⟩, ⟨_, _, _, hmembers, ⟨right, hright, rfl, rfl⟩, rfl⟩,
      rfl⟩, rfl⟩, rfl⟩, rfl⟩, rfl⟩, rfl⟩ := hbody
    exact ⟨hkeyword, accepts_classDeclaration hkeyword hname (hpath rfl) hbase hattributes hleft (hmembers hright) hright⟩
  | base =>
    cases hproduction with
    | noBase =>
      obtain ⟨hhere, rfl, rfl⟩ := hbody
      exact accepts_noBase hhere
    | someBase =>
      obtain ⟨_, _, _, ⟨keyword, hkeyword, rfl, rfl⟩, ⟨name, hname, rfl, rfl⟩, rfl⟩ := hbody
      exact accepts_someBase hkeyword hname
  | members =>
    cases hproduction with
    | membersEnd =>
      obtain ⟨rfl, rfl⟩ := hbody
      exact accepts_membersEnd
    | membersMore =>
      obtain ⟨_, _, _, ⟨hstarts, hmember⟩, hrest, rfl⟩ := hbody
      exact fun hlast => accepts_membersMore hstarts hmember (hrest hlast)
  | member => exact accepts_members hproduction hbody
  -- enums and constants
  | enumDeclaration =>
    cases hproduction
    obtain ⟨_, _, _, ⟨keyword, hkeyword, rfl, rfl⟩, ⟨_, _, _, ⟨name, hname, rfl, rfl⟩, ⟨_, _, _, ⟨-, hattributes⟩,
      ⟨_, _, _, ⟨left, hleft, rfl, rfl⟩, ⟨_, _, _, hentries, ⟨_, _, _, ⟨right, hright, rfl, rfl⟩, hsemicolon, rfl⟩, rfl⟩,
      rfl⟩, rfl⟩, rfl⟩, rfl⟩ := hbody
    obtain ⟨_, hend⟩ := exists_eat hsemicolon rfl
    exact ⟨hkeyword, accepts_enumDeclaration hkeyword hname hattributes hleft (hentries hright) hright hend⟩
  | enumEntries =>
    cases hproduction with
    | enumEnd =>
      obtain ⟨rfl, rfl⟩ := hbody
      exact accepts_enumEnd
    | lastEntry => exact fun hlast => accepts_enumLast hbody.1 hbody.2 hlast
    | moreEntries =>
      obtain ⟨_, _, _, ⟨hhere, hentry⟩, ⟨_, _, _, ⟨word, hcomma, rfl, rfl⟩, hrest, rfl⟩, rfl⟩ := hbody
      exact fun hlast => accepts_enumMore hhere hentry hcomma (hrest hlast)
  | enumEntry =>
    cases hproduction
    obtain ⟨_, _, _, ⟨name, hname, rfl, rfl⟩, hvalue, rfl⟩ := hbody
    exact ⟨hname, accepts_named hname hvalue⟩
  | constDeclaration =>
    cases hproduction
    obtain ⟨_, _, _, ⟨keyword, hkeyword, rfl, rfl⟩, ⟨_, _, _, ⟨name, hname, rfl, rfl⟩, ⟨_, _, _, ⟨sign, hsign, rfl, rfl⟩,
      ⟨_, _, _, hvalue, hend, rfl⟩, rfl⟩, rfl⟩, rfl⟩ := hbody
    exact ⟨hkeyword, accepts_constDeclaration hkeyword hname hsign hvalue hend⟩
  -- functions
  | functionDeclaration =>
    cases hproduction
    obtain ⟨_, _, _, ⟨keyword, hkeyword, rfl, rfl⟩, ⟨_, _, _, ⟨name, hname, rfl, rfl⟩, ⟨_, _, _, hpath,
      ⟨_, _, _, ⟨-, hparameters⟩, ⟨hstarts, hbody⟩, rfl⟩, rfl⟩, rfl⟩, rfl⟩ := hbody
    exact ⟨⟨hkeyword, hname⟩, accepts_functionDeclaration hkeyword hname (hpath rfl) hparameters hstarts
      (Accepts.anywhere hbody)⟩
  | parameters =>
    cases hproduction
    obtain ⟨_, _, _, ⟨left, hleft, rfl, rfl⟩, ⟨_, _, _, hlist, ⟨right, hright, rfl, rfl⟩, rfl⟩, rfl⟩ := hbody
    exact ⟨hleft, accepts_parameters hleft (hlist hright 0) hright⟩
  | parameterList =>
    cases hproduction with
    | parametersEnd =>
      obtain ⟨rfl, rfl⟩ := hbody
      exact fun hlast _ => accepts_parametersEnd hlast nofun
    | lastParameter => exact fun hlast _ => accepts_parametersLast hbody.1 hbody.2 hlast
    | moreParameters =>
      obtain ⟨_, _, _, ⟨hhere, hparameter⟩, ⟨_, _, _, ⟨word, hcomma, rfl, rfl⟩, hrest, rfl⟩, rfl⟩ := hbody
      exact fun hlast _ => accepts_parametersMore hhere hparameter hcomma (hrest hlast)
    | lastVariadic =>
      obtain ⟨_, _, _, ⟨hhere, hparameter⟩, hcomma, rfl⟩ := hbody
      obtain ⟨_, hcomma⟩ := exists_eat hcomma rfl
      exact fun hlast _ => accepts_parametersVariadic hhere hparameter hcomma hlast
  | parameter =>
    cases hproduction
    obtain ⟨_, _, _, ⟨name, hname, rfl, rfl⟩, hvalue, rfl⟩ := hbody
    exact ⟨hname, accepts_named hname hvalue⟩
  | variadic =>
    cases hproduction
    obtain ⟨word, hword, rfl, rfl⟩ := hbody
    exact ⟨hword, accepts_variadic hword⟩
  | path separator =>
    cases hproduction with
    | pathEnd =>
      obtain ⟨hhere, rfl, rfl⟩ := hbody
      exact fun _ => accepts_pathEnd hhere
    | pathMore =>
      obtain ⟨_, _, _, ⟨word, hword, rfl, rfl⟩, ⟨_, _, _, ⟨name, hname, rfl, rfl⟩, hrest, rfl⟩, rfl⟩ := hbody
      exact fun haccepted => accepts_pathMore hword haccepted hname (hrest haccepted)
  | initialConst =>
    cases hproduction with
    | noInitialConst =>
      obtain ⟨hhere, rfl, rfl⟩ := hbody
      exact accepts_initialNone hhere
    | someInitialConst =>
      obtain ⟨_, _, _, ⟨sign, hsign, rfl, rfl⟩, hvalue, rfl⟩ := hbody
      exact accepts_initialSome hsign hvalue
  -- attributes
  | optionalAttributes =>
    cases hproduction with
    | noAttributes =>
      obtain ⟨hhere, rfl, rfl⟩ := hbody
      exact ⟨.inr rfl, accepts_noAttributes hhere⟩
    | someAttributes => exact ⟨.inl hbody.1, accepts_someAttributes hbody.1 hbody.2⟩
  | attributes =>
    cases hproduction
    obtain ⟨_, _, _, ⟨left, hleft, rfl, rfl⟩, ⟨_, _, _, hlist, ⟨right, hright, rfl, rfl⟩, rfl⟩, rfl⟩ := hbody
    exact ⟨hleft, accepts_attributes hleft (hlist hright).2 hright⟩
  | attributeList =>
    cases hproduction with
    | attributesEnd =>
      obtain ⟨rfl, rfl⟩ := hbody
      exact fun hlast => ⟨.inr ⟨rfl, rfl⟩, accepts_attributesEnd hlast⟩
    | attributesMore =>
      obtain ⟨_, _, _, ⟨hhere, hentry⟩, ⟨_, _, _, hcomma, hrest, rfl⟩, rfl⟩ := hbody
      refine fun hlast => ⟨.inl hhere, ?_⟩
      obtain ⟨hnext, hrest⟩ := hrest hlast
      obtain ⟨word, hword, rfl, rfl⟩ | ⟨-, rfl, rfl⟩ := hcomma
      · exact accepts_attributesComma hhere hentry hword hrest
      obtain hnext | ⟨rfl, rfl⟩ := hnext
      · exact accepts_attributesOn hhere hentry hnext (Accepts.anywhere hrest)
      · rw [List.append_nil, List.append_nil]
        exact accepts_attributesLast hhere hentry hlast
  | attributeEntry =>
    cases hproduction
    obtain ⟨_, _, _, ⟨name, hname, rfl, rfl⟩, ⟨_, _, _, ⟨sign, hsign, rfl, rfl⟩, hvalue, rfl⟩, rfl⟩ := hbody
    exact ⟨hname, accepts_attributeEntry hname hsign hvalue⟩
  -- values
  | constValue =>
    cases hproduction with
    | constNegative => exact accepts_constNegative hbody.1.1 hbody.1.2 hbody.2
    | constArray => exact accepts_constArray hbody.1 hbody.2
    | constTable => exact accepts_constTable hbody.1 hbody.2
    | constName =>
      obtain ⟨_, _, _, ⟨hhere, rfl, rfl⟩, ⟨-, hvalue⟩, rfl⟩ := hbody
      exact accepts_constName hhere (Accepts.anywhere hvalue)
    | constLiteral =>
      obtain ⟨⟨_, hhere⟩, hvalue⟩ := hbody
      exact accepts_constLiteral hhere hvalue
  | optionalExpression =>
    cases hproduction with
    | noExpression =>
      obtain ⟨hstarts, rfl, rfl⟩ := hbody
      exact accepts_noExpression hstarts
    | someExpression =>
      exact accepts_someExpression (StartsValue.startsOperand hbody.1).starts (Accepts.anywhere hbody.2)
  -- expressions
  | expression power tableAllowed =>
    cases hproduction
    obtain ⟨_, _, _, ⟨hstarts, hchain⟩, ⟨hnone, rfl, rfl⟩, rfl⟩ := hbody
    rw [List.append_nil]
    exact ⟨hstarts, hchain _ _ (finishes_here hnone)⟩
  | chain power tableAllowed =>
    cases hproduction with
    | chainOperand => exact ⟨hbody.1, fun _ _ hfinishes => accepts_expression hbody.2 hfinishes⟩
    | chainSuffix found =>
      obtain ⟨_, _, _, ⟨hstarts, hchain⟩, ⟨_, _, _, ⟨hfound, rfl, rfl⟩, hsuffix, rfl⟩, rfl⟩ := hbody
      exact ⟨hstarts, fun _ _ hfinishes => hchain _ _ (finishes_suffix hfound hsuffix hfinishes)⟩
  | suffix found => exact accepts_suffixes hproduction hbody
  | operand tableAllowed => exact accepts_operands hproduction hbody
  | parenthesized =>
    cases hproduction
    obtain ⟨_, _, _, ⟨left, hleft, rfl, rfl⟩, ⟨_, _, _, ⟨-, hinner⟩, ⟨right, hright, rfl, rfl⟩, rfl⟩, rfl⟩ := hbody
    exact ⟨hleft, accepts_parenthesized hleft hinner hright⟩
  -- arrays, tables and arguments
  | array =>
    cases hproduction
    obtain ⟨_, _, _, ⟨left, hleft, rfl, rfl⟩, ⟨_, _, _, helements, ⟨right, hright, rfl, rfl⟩, rfl⟩, rfl⟩ := hbody
    exact ⟨hleft, accepts_array hleft (helements hright) hright⟩
  | elements =>
    cases hproduction with
    | elementsEnd =>
      obtain ⟨rfl, rfl⟩ := hbody
      exact accepts_elementsEnd
    | elementsMore =>
      obtain ⟨_, _, _, ⟨hstarts, helement⟩, ⟨_, _, _, hcomma, hrest, rfl⟩, rfl⟩ := hbody
      obtain ⟨_, hcomma⟩ := exists_eat hcomma rfl
      exact fun hlast => accepts_elementsMore (StartsValue.startsOrTable hstarts) helement hcomma (hrest hlast)
  | table =>
    cases hproduction
    obtain ⟨_, _, _, ⟨left, hleft, rfl, rfl⟩, ⟨_, _, _, hslots, ⟨right, hright, rfl, rfl⟩, rfl⟩, rfl⟩ := hbody
    exact ⟨hleft, accepts_table hleft (hslots hright) hright⟩
  | slots =>
    cases hproduction with
    | slotsEnd =>
      obtain ⟨rfl, rfl⟩ := hbody
      exact accepts_slotsEnd
    | slotsMore =>
      obtain ⟨_, _, _, ⟨hstarts, hslot⟩, ⟨_, _, _, hcomma, hrest, rfl⟩, rfl⟩ := hbody
      obtain ⟨_, hcomma⟩ := exists_eat hcomma rfl
      exact fun hlast => accepts_slotsMore hstarts hslot hcomma (hrest hlast)
  | slot =>
    cases hproduction with
    | namedSlot =>
      obtain ⟨_, _, _, ⟨name, hname, rfl, rfl⟩, ⟨_, _, _, ⟨sign, hsign, rfl, rfl⟩, ⟨-, hvalue⟩, rfl⟩, rfl⟩ := hbody
      exact ⟨startsExpression_of_here hname (by decide), accepts_namedSlot hname hsign hvalue⟩
    | computedSlot =>
      obtain ⟨_, _, _, ⟨left, hleft, rfl, rfl⟩, ⟨_, _, _, ⟨-, hkey⟩, ⟨_, _, _, ⟨right, hright, rfl, rfl⟩,
        ⟨_, _, _, ⟨sign, hsign, rfl, rfl⟩, ⟨-, hvalue⟩, rfl⟩, rfl⟩, rfl⟩, rfl⟩ := hbody
      exact ⟨startsExpression_of_here hleft (by decide), accepts_computedSlot hleft hkey hright hsign hvalue⟩
    | methodSlot =>
      obtain ⟨⟨hhere, hname⟩, hfunction⟩ := hbody
      exact ⟨startsExpression_of_here hhere (by decide), accepts_methodSlot hhere hname hfunction⟩
    | keyedSlot =>
      obtain ⟨_, _, _, ⟨hkey, rfl, rfl⟩, ⟨_, _, _, ⟨hstarts, hname⟩, ⟨_, _, _, ⟨sign, hsign, rfl, rfl⟩, ⟨-, hvalue⟩, rfl⟩,
        rfl⟩, rfl⟩ := hbody
      exact ⟨(StartsValue.startsOperand hstarts).starts, accepts_keyedSlot hkey (Accepts.anywhere hname) hsign hvalue⟩
  | callArguments =>
    cases hproduction
    obtain ⟨_, _, _, ⟨left, hleft, rfl, rfl⟩, ⟨_, _, _, harguments, ⟨right, hright, rfl, rfl⟩, rfl⟩, rfl⟩ := hbody
    exact ⟨hleft, accepts_callArguments hleft (harguments hright) hright⟩
  | arguments =>
    cases hproduction with
    | argumentsEnd =>
      obtain ⟨rfl, rfl⟩ := hbody
      exact accepts_argumentsEnd
    | lastArgument =>
      exact fun hlast => accepts_argumentsLast (StartsValue.startsOrTable hbody.1) hbody.2 hlast
    | moreArguments =>
      obtain ⟨_, _, _, ⟨hstarts, hargument⟩, ⟨_, _, _, ⟨word, hcomma, rfl, rfl⟩, hrest, rfl⟩, rfl⟩ := hbody
      exact fun hlast => accepts_argumentsMore (StartsValue.startsOrTable hstarts) hargument hcomma (hrest hlast)
  | negative =>
    cases hproduction with
    | negativeInteger | negativeFloat =>
      obtain ⟨_, _, _, ⟨hnumber, rfl, rfl⟩, ⟨_, _, _, ⟨sign, hsign, rfl, rfl⟩, ⟨number, hkind, rfl, rfl⟩, rfl⟩, rfl⟩ := hbody
      have hjoined : number.joined = true := by
        rw [NumberFollows, List.tail_cons, List.head?_cons, Option.any_some, folds, Bool.and_eq_true] at hnumber
        exact hnumber.1
      exact ⟨⟨hsign, hnumber⟩, accepts_negativeLiteral hsign hjoined hkind (by simp)⟩
  | literal =>
    cases hproduction with
    | literal hliteral =>
      obtain ⟨word, hword, rfl, rfl⟩ := hbody
      rw [← hword] at hliteral
      exact ⟨⟨_, hliteral⟩, accepts_literal hliteral rfl⟩
  | optional kind =>
    cases hproduction with
    | noToken => exact .inr hbody
    | someToken => exact .inl hbody

/-! ### Derivations -/

theorem acceptsItems_cons {item : Item} {items : List Item} {middle : List Word} {first second : List Tree}
    (hitem : AcceptsItem words first middle item) (hitems : AcceptsItems middle second last items) :
    AcceptsItems words (first ++ second) last (item :: items) := by
  cases items with
  | nil =>
    obtain ⟨rfl, rfl⟩ := hitems
    rwa [List.append_nil]
  | cons next rest => exact ⟨middle, first, second, hitem, hitems, rfl⟩

/-- No blanks stand in the nodes of literals. -/
theorem items_of_tight {phrase : Phrase} (hproduction : Production phrase (.tight kind) body)
    (hderives : Derives body words last parts) : Tree.items parts = parts := by
  have hword {word : Word} (hkind : word.kind.isTrivia = false) : word.tree.isTrivia = false := hkind
  cases hproduction with
  | negativeInteger | negativeFloat =>
    cases hderives with
    | check _ hderives =>
    cases hderives with
    | word hminus hderives =>
    cases hderives with
    | word hnumber hderives =>
    cases hderives
    rw [Tree.items_cons_word (hword (by rw [hminus]; rfl)), Tree.items_cons_word (hword (by rw [hnumber]; rfl))]
    rfl
  | literal hliteral =>
    cases hderives with
    | word hkind hderives =>
    cases hderives
    rw [Tree.items_cons_word (hword (by rw [hkind]; exact isTrivia_of_literalNode? hliteral))]
    rfl

theorem map_trim_of_holds {phrase : Phrase} {placed : List Tree} (hproduction : Production phrase form body)
    (hderives : Derives body words last parts) (hform : form.Holds parts placed) :
    placed.map Tree.trim = placedBy (parts.map Tree.trim) form := by
  cases form with
  | bare =>
    obtain rfl := hform
    rfl
  | node kind =>
    obtain ⟨tree, hbuilt, rfl⟩ := hform
    rw [List.map_singleton, hbuilt.trim_eq]
  | tight kind =>
    obtain rfl := hform
    rw [List.map_singleton, Tree.trim_node, Tree.trimAll_eq, items_of_tight hproduction hderives]

end Grammar

/-- What has a derivation is accepted, with the trees of the derivation. -/
theorem Derives.accepts {items : List Item} {words last : List Word} {trees : List Tree}
    (hderives : Derives items words last trees) : AcceptsItems words (trees.map Tree.trim) last items := by
  have htrim (word : Word) (trees : List Tree) :
      (word.tree :: trees).map Tree.trim = [word.tree] ++ trees.map Tree.trim := by
    rw [List.map_cons, Word.tree, Tree.trim_token]
    rfl
  induction hderives with
  | nil => exact ⟨rfl, rfl⟩
  | @word kind items word rest last trees hkind _ ih =>
    have hword : AcceptsItem (word :: rest) [word.tree] rest (.word kind) := ⟨word, hkind, rfl, rfl⟩
    exact htrim word trees ▸ acceptsItems_cons hword ih
  | @wordIn accepts items word rest last trees hkind _ ih =>
    have hword : AcceptsItem (word :: rest) [word.tree] rest (.wordIn accepts) := ⟨word, hkind, rfl, rfl⟩
    exact htrim word trees ▸ acceptsItems_cons hword ih
  | @check condition items words last trees hcondition _ ih =>
    have hcheck : AcceptsItem words [] words (.check condition) := ⟨hcondition, rfl, rfl⟩
    exact acceptsItems_cons hcheck ih
  | part hproduction hbody hform _ ihbody ih =>
    rw [List.map_append, map_trim_of_holds hproduction hbody hform]
    exact acceptsItems_cons (accepts_production hproduction ihbody) ih

end Squirrel
