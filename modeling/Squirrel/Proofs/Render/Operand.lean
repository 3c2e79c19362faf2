import Squirrel.Proofs.Render.Compose

/-!
# Arguments and forms that start with a token

A list of arguments is read in parentheses, one expression after the other. The forms that start with a token of their own
are operands: what comes before them is of no concern, and only what comes behind a prefix operator or a keyword is.
-/

namespace Squirrel

open Squirrel.Tree

/-! ### Arguments -/

theorem Tree.map_bare_separated (arguments : List Tree) :
    (separated arguments).map bare = separated (arguments.map bare) := by
  induction arguments using separated.induct with
  | case1 => rfl
  | case2 argument => rfl
  | case3 argument next rest ih =>
    rw [separated, List.map_cons, List.map_cons, ih, bare_token]
    rfl

theorem Tree.map_bare_argumentRow (arguments : List Tree) :
    (argumentRow arguments).map bare = argumentRow (arguments.map bare) := by
  simp [argumentRow, map_bare_separated]

theorem Tree.isTrivia_of_mem_argumentRow {arguments : List Tree}
    (harguments : ∀ argument ∈ arguments, argument.isExpression = true) :
    ∀ part ∈ argumentRow arguments, part.isTrivia = false := by
  have hseparated : ∀ part ∈ separated arguments, part.isTrivia = false := by
    induction arguments using separated.induct with
    | case1 => rintro part ⟨⟩
    | case2 argument =>
      exact List.forall_mem_singleton.mpr (isTrivia_of_isExpression (harguments argument List.mem_cons_self))
    | case3 argument next rest ih =>
      obtain ⟨hfirst, hrest⟩ := List.forall_mem_cons.mp harguments
      exact List.forall_mem_cons.mpr ⟨isTrivia_of_isExpression hfirst, List.forall_mem_cons.mpr ⟨rfl, ih hrest⟩⟩
  intro part hmem
  rw [argumentRow, List.mem_append, List.mem_cons, List.mem_singleton] at hmem
  obtain (rfl | hmem) | rfl := hmem
  · rfl
  · exact hseparated part hmem
  · rfl

/-- The text of some arguments. -/
def Render.argumentText (arguments : List Tree) : String :=
  ", ".intercalate (arguments.map fun argument => place argument 0 true true)

/-- Trees that say the same as some arguments are read from leaves up to the closing parenthesis. -/
structure ArgumentsRead (arguments : List Tree) (leaves : List Leaf) (copies : List Tree) : Prop where
  bare : copies.map Tree.bare = arguments.map Tree.bare
  isExpression : ∀ copy ∈ copies, copy.isExpression = true
  reads : ∀ joined last, Word.here last = .parenClose →
    Derives [.part .arguments] (Word.ofLeaves false joined leaves ++ last) last (separated copies)

theorem Word.suffix?_eq_none_of_here {words : List Word} {kind : Kind} (hhere : here words = kind)
    (hkind : kind ∈ [.parenClose, .comma, .colon]) : suffix? 0 words = none := by
  have hall : ∀ kind ∈ [Kind.parenClose, .comma, .colon], kind ≠ .error ∧ ∀ afterBreak, Suffix.of? 0 afterBreak kind = none := by
    decide
  obtain ⟨hword, hnone⟩ := hall kind hkind
  obtain ⟨word, rest, rfl, rfl⟩ := exists_cons_of_here hhere hword
  exact hnone word.afterBreak

/-- An argument that a comma or the closing parenthesis follows. -/
theorem Tree.RoundTrips.argument {argument : Tree} {table : Bool} (hargument : argument.RoundTrips table) :
    ∃ leaves copy, Leaf.Written leaves (Render.place argument 0 true true).toList False ∧ copy.isExpression = true ∧
      copy.bare = argument.bare ∧ ∀ joined last, Word.suffix? 0 last = none →
        Derives [.part (.expression 0 true)] (Word.ofLeaves false joined leaves ++ last) last [copy] := by
  obtain ⟨leaves, copy, hwritten, hexpression, hbare, hreads⟩ :=
    (hargument.place 0 true true fun _ => ⟨Nat.zero_le _, fun _ => rfl⟩).expression
  refine ⟨leaves, copy, hwritten.imp False.elim, hexpression, hbare, fun joined last hnone => ?_⟩
  exact hreads joined _ last ⟨⟨true, rfl, fun _ => rfl⟩, hnone, fun _ => hnone⟩

theorem exists_argumentsRead {first : Tree} {rest : List Tree}
    (harguments : ∀ argument ∈ first :: rest, ∃ table, argument.RoundTrips table) :
    ∃ leaves copies, Leaf.Written leaves (Render.argumentText (first :: rest)).toList False ∧
      ArgumentsRead (first :: rest) leaves copies := by
  induction rest generalizing first with
  | nil =>
    obtain ⟨table, hfirst⟩ := harguments first List.mem_cons_self
    obtain ⟨leaves, copy, hwritten, hexpression, hbare, hreads⟩ := hfirst.argument
    refine ⟨leaves, [copy], by simpa [Render.argumentText] using hwritten, ⟨by simp [hbare], by simpa using hexpression, ?_⟩⟩
    intro joined last hlast
    have hnone := Word.suffix?_eq_none_of_here hlast (by decide)
    exact .phrase .lastArgument (hreads joined last hnone) rfl
  | cons next rest ih =>
    obtain ⟨hfirst, hrest⟩ := List.forall_mem_cons.mp harguments
    obtain ⟨table, hfirst⟩ := hfirst
    obtain ⟨leaves, copy, hwritten, hexpression, hbare, hreads⟩ := hfirst.argument
    obtain ⟨others, copies, hothers, hread⟩ := ih hrest
    obtain ⟨second, more, rfl⟩ : ∃ second more, copies = second :: more := by
      refine List.exists_cons_of_ne_nil fun hnil => ?_
      have hlength := congrArg List.length hread.bare
      simp [hnil] at hlength
    refine ⟨leaves ++ Leaf.sign .comma :: Leaf.blank :: others, copy :: second :: more, ?_, ⟨?_, ?_, ?_⟩⟩
    · have htext : (Render.argumentText (first :: next :: rest)).toList
          = (Render.place first 0 true true).toList ++ (", ".toList ++ (Render.argumentText (next :: rest)).toList) := by
        simp [Render.argumentText, String.toList_append]
      exact htext ▸ hwritten.comma hothers
    · rw [List.map_cons, hread.bare, hbare, ← List.map_cons]
    · exact List.forall_mem_cons.mpr ⟨hexpression, hread.isExpression⟩
    · intro joined last hlast
      have hcomma := hreads joined (Word.sign .comma true :: Word.ofLeaves false false others ++ last) rfl
      rw [Word.ofLeaves_ending hwritten.toEnding, Word.ofLeaves_sign rfl, Word.ofLeaves_blank rfl, List.append_assoc]
      exact .phrase .moreArguments (hcomma.append (.word rfl (hread.reads false last hlast))) rfl

/-- Leaves with the text of arguments in parentheses, and a node that says the same. -/
theorem exists_callArguments {list : Tree} {arguments : List Tree} (hlist : list.BuiltOf .callArgs (argumentRow arguments))
    (harguments : ∀ argument ∈ arguments, ∃ table, argument.RoundTrips table) (dotted : Prop) :
    ∃ leaves copy, Leaf.Ending leaves ("(" ++ Render.argumentText arguments ++ ")").toList dotted ∧
      copy.isTrivia = false ∧ copy.bare = list.bare ∧
      ∀ last, ∃ rest, Word.ofLeaves false true leaves ++ last = Word.sign .parenOpen true :: rest ∧
        Derives [.part .callArguments] (Word.sign .parenOpen true :: rest) last [copy] := by
  obtain ⟨leaves, copies, henclosed, hread⟩ : ∃ leaves copies,
      Leaf.Enclosed leaves (Render.argumentText arguments).toList ∧ ArgumentsRead arguments leaves copies := by
    cases arguments with
    | nil => exact ⟨[], [], .inl ⟨rfl, rfl⟩, rfl, nofun, fun _ _ _ => .phrase .argumentsEnd .nil rfl⟩
    | cons first rest =>
      obtain ⟨leaves, copies, hwritten, hread⟩ := exists_argumentsRead harguments
      exact ⟨leaves, copies, .inr ⟨_, hwritten⟩, hread⟩
  have hbuilt := builtOf_node .callArgs (isTrivia_of_mem_argumentRow hread.isExpression)
  refine ⟨Leaf.sign .parenOpen :: (leaves ++ [Leaf.sign .parenClose]), .node .callArgs (argumentRow copies), ?_, rfl, ?_,
    fun last => ⟨_, Word.ofLeaves_brackets henclosed rfl .., ?_⟩⟩
  · have hchars := Leaf.toList_brackets .parenOpen .parenClose (Render.argumentText arguments)
    exact hchars ▸ henclosed.ending rfl
  · rw [hbuilt.bare_eq, hlist.bare_eq, map_bare_argumentRow, map_bare_argumentRow, hread.bare]
  · have harguments := hread.reads true (Word.sign .parenClose true :: last) rfl
    exact .phrase .callArguments (.word rfl (harguments.append (.word rfl .nil))) ⟨_, hbuilt, rfl⟩

/-! ### Calls -/

section

variable {tree left list inner : Tree} {arguments : List Tree} {table : Bool}

theorem Render.isExpression_of_roundTrips (harguments : ∀ argument ∈ arguments, ∃ table, argument.RoundTrips table) :
    ∀ argument ∈ arguments, argument.isExpression = true := by
  intro argument hmem
  obtain ⟨table, hargument⟩ := harguments argument hmem
  exact hargument.isExpression

theorem Tree.RoundTrips.call (hbuilt : tree.BuiltOf .callExpression [left, list]) (hleft : left.RoundTrips table)
    (htable : table = true → Power.accessor ≤ left.precedence ∧ left.kind ≠ .table)
    (hlist : list.BuiltOf .callArgs (argumentRow arguments))
    (harguments : ∀ argument ∈ arguments, ∃ table, argument.RoundTrips table) : tree.RoundTrips table := by
  have hparts : Suffix.call.Fits [list] := ⟨list, rfl, by simp [isNodeOf, hlist.isNode, hlist.kind_eq]⟩
  have hform := Render.expression_call hbuilt hleft.isExpression hlist (Render.isExpression_of_roundTrips harguments)
  obtain ⟨leaves, copy, hending, hword, hbare, hreads⟩ := exists_callArguments hlist harguments tree.Dotted
  refine of_suffix .call Power.accessor false (fun _ => "(" ++ Render.argumentText arguments ++ ")") hbuilt hparts hleft
    (fun htrue => ⟨(htable htrue).1, fun hkind => absurd hkind (htable htrue).2⟩) (Nat.le_refl _) (fun tail => ?_)
    (fun tail after _ => ?_) fun tail => ⟨leaves, [copy], hending, ?_, List.forall_mem_singleton.mpr hword, fun last _ _ => ?_⟩
  · rw [hform.2]
    simp only [String.append_assoc, Render.argumentText]
  · simp only [String.toList_append]
    exact Leaf.follows_cons (by decide) (by decide)
  · rw [List.map_singleton, List.map_singleton, hbare]
  · obtain ⟨rest, hwords, hderives⟩ := hreads last
    rw [hwords]
    exact ⟨rfl, .phrase .suffixCall hderives rfl⟩

/-! ### Operands -/

/-- Where the text of an operand can be read. -/
structure Tree.StandsAt (tree : Tree) (tail : Bool) (phrase : Phrase) (last : List Word) : Prop where
  phrase : ∃ tableAllowed, phrase = .operand tableAllowed
  right : ∀ needed ∈ tree.rightPower?, Word.suffix? needed last = none
  tail : tail = true → Word.suffix? 0 last = none

/-- A form that starts with a token is an operand wherever it stands. -/
theorem Tree.RoundTrips.of_operand (hexpression : tree.isExpression = true)
    (hreads : ∀ tail, tree.ReadsAs (Render.expression tree tail) tree.Dotted (tree.StandsAt tail)) :
    tree.RoundTrips false := by
  refine ⟨hexpression, fun tail => ?_⟩
  obtain ⟨leaves, copy, hwritten, hcopy, hbare, hderives⟩ := hreads tail
  refine ⟨leaves, copy, hwritten, hcopy, hbare, fun joined phrase last hfits => ?_⟩
  obtain ⟨lower, allowed, rfl, -⟩ := hfits.phrase
  exact .phrase .chainOperand (hderives joined (.operand allowed) last ⟨⟨allowed, rfl⟩, hfits.right, hfits.tail⟩) rfl

theorem Tree.BuiltOf.isExpression {kind : Kind} {row : List Tree} (hbuilt : tree.BuiltOf kind row)
    (hkind : kind.isExpression = true) : tree.isExpression = true := by
  rw [Tree.isExpression, hbuilt.isNode, hbuilt.kind_eq, hkind]
  rfl

/-- A minus sign stays apart from a number. -/
theorem Render.needsSpace_minus {operand : String} {c : Char} {more : List Char} (hoperand : operand.toList = c :: more)
    (hdecimal : Lexeme.isDecimal c = true) : needsSpace .minus operand = true := by
  have hdigit : (('0' ≤ c && c ≤ '9') : Bool) = true := hdecimal
  rw [needsSpace, hoperand, List.head?_cons, Option.any_some, Option.any_some, hdigit]
  simp

namespace Tree.RoundTrips

theorem parenthesized (hbuilt : tree.BuiltOf .parenthesizedExpression
      [.token (Leaf.sign .parenOpen), inner, .token (Leaf.sign .parenClose)]) (hinner : inner.RoundTrips false) :
    tree.RoundTrips false := by
  have hform := Render.expression_parenthesized hbuilt hinner.isExpression
  have hbare : tree.bare = inner.bare := hbuilt.bare_eq
  refine ⟨hbuilt.isExpression rfl, fun tail => ?_⟩
  obtain ⟨leaves, copy, hwritten, hexpression, hcopy, hreads⟩ :=
    (hinner.place 0 false true nofun).expression.parenthesize tree.Dotted
  rw [hform.2]
  refine ⟨leaves, copy, hwritten, hexpression, hcopy.trans hbare.symm, fun joined phrase last hfits => ?_⟩
  obtain ⟨lower, allowed, rfl, -⟩ := hfits.phrase
  exact hreads joined _ last ⟨lower, allowed, rfl⟩

theorem rawcall (hbuilt : tree.BuiltOf .callExpression [.token (Leaf.sign .kwRawcall), list])
    (hlist : list.BuiltOf .callArgs (argumentRow arguments))
    (harguments : ∀ argument ∈ arguments, ∃ table, argument.RoundTrips table) : tree.RoundTrips false := by
  have hform := Render.expression_rawcall hbuilt hlist (Render.isExpression_of_roundTrips harguments)
  obtain ⟨leaves, copy, hending, hword, hbare, hreads⟩ := exists_callArguments hlist harguments tree.Dotted
  have htidy : ∀ part ∈ [.token (Leaf.sign .kwRawcall), copy], part.isTrivia = false := by simpa using ⟨rfl, hword⟩
  have hcopy := builtOf_node .callExpression htidy
  have htext (tail : Bool) : (Render.expression tree tail).toList
      = (Leaf.sign .kwRawcall).text.toList ++ ("(" ++ Render.argumentText arguments ++ ")").toList := by
    rw [hform.2, ← String.toList_append]
    simp only [String.append_assoc, Render.argumentText]
    rfl
  refine of_operand (hbuilt.isExpression rfl) fun tail => ⟨Leaf.sign .kwRawcall :: leaves,
    .node .callExpression [.token (Leaf.sign .kwRawcall), copy], ⟨?_, ?_⟩, rfl, ?_, fun joined phrase last hfits => ?_⟩
  · rw [htext]
    refine hending.cons fun after => Leaf.standsBefore_sign rfl fun c hmem => ?_
    rw [String.toList_append, String.toList_append] at hmem
    cases hmem
    decide
  · rw [htext]
    exact Leaf.begins_sign (by decide) ..
  · rw [hcopy.bare_eq, hbuilt.bare_eq, List.map_cons, List.map_singleton, List.map_cons, List.map_singleton, hbare]
  · obtain ⟨allowed, rfl⟩ := hfits.phrase
    obtain ⟨rest, hwords, hderives⟩ := hreads last
    rw [Word.ofLeaves_sign rfl, List.cons_append, hwords]
    exact .phrase .rawcall (.word rfl hderives) ⟨_, hcopy, rfl⟩

theorem prefixed {kind : Kind} (hbuilt : tree.BuiltOf .unaryExpression [.token (Leaf.sign kind), inner])
    (hsign : TokenSet.prefixOperators.contains kind = true) (hinner : inner.RoundTrips table)
    (htable : table = true → Power.accessor ≤ inner.precedence) : tree.RoundTrips false := by
  have hall : ∀ kind ∈ Kind.all, TokenSet.prefixOperators.contains kind = true →
      Leaf.isOpener kind = true ∧ Leaf.isSpaced kind = true := by decide +kernel
  obtain ⟨hopener, hspaced⟩ := hall kind (Lexeme.mem_all kind) hsign
  have hword : kind.isTrivia = false := Leaf.isTrivia_of_isSpaced hspaced
  obtain ⟨⟨hprecedence, hprefixed⟩, htext⟩ := Render.expression_prefixed hbuilt hinner.isExpression hsign
  have hright := (powers_of_isPrefixed hbuilt.isNode hprefixed).2
  have hclosed : ¬tree.Dotted := by
    rintro ⟨hle, -⟩
    rw [hprecedence] at hle
    exact absurd hle (by decide)
  refine of_operand (hbuilt.isExpression rfl) fun tail => ?_
  rw [htext]
  obtain ⟨leaves, copy, hwritten, hexpression, hbare, hreads⟩ := hinner.placeAfterPrefix tail htable
  generalize hplaced : Render.placeAfterPrefix inner tail = placed at hwritten
  obtain ⟨first, rest, c, more, hleaves, hfirst, hplaced, hopens, hfolds⟩ := hwritten.begins
  have htidy : ∀ part ∈ [.token (Leaf.sign kind), copy], part.isTrivia = false := by
    simpa using ⟨hword, isTrivia_of_isExpression hexpression⟩
  have hcopy := builtOf_node .unaryExpression htidy
  -- the words are the same but for whether the operand joins the operator, and there it is no number
  have hread (joined apart : Bool) (phrase : Phrase) (last : List Word) (hfits : tree.StandsAt tail phrase last)
      (hnumber : kind = .minus → apart = true → State.isFoldable ⟨first.kind, 0, first.text⟩ = false) :
      Derives [.part phrase] (Word.sign kind joined :: Word.ofLeaves false apart leaves ++ last) last
        [.node .unaryExpression [.token (Leaf.sign kind), copy]] := by
    obtain ⟨allowed, rfl⟩ := hfits.phrase
    have hoperand := hreads apart _ last ⟨⟨true, rfl, fun _ => rfl⟩, hfits.right _ hright, hfits.tail⟩
    refine .phrase .prefixed (.check ?_ (.wordIn hsign hoperand)) ⟨_, hcopy, rfl⟩
    rintro ⟨hminus, hfollows⟩
    rw [hleaves, Word.ofLeaves_word hfirst] at hfollows
    obtain ⟨happart, hfoldable⟩ := Bool.and_eq_true_iff.mp hfollows
    rw [hnumber hminus happart] at hfoldable
    exact nomatch hfoldable
  cases hspace : Render.needsSpace kind placed with
  | true =>
    refine ⟨Leaf.sign kind :: Leaf.blank :: leaves, _, ?_, hcopy.isExpression rfl, ?_, fun joined phrase last hfits => ?_⟩
    · have hwhole := (hwritten.imp fun hdotted => absurd hdotted hclosed).cons_blank hopener hspaced
      simpa [hspace, String.toList_append] using hwhole
    · rw [hcopy.bare_eq, hbuilt.bare_eq]
      simp [hbare]
    · rw [Word.ofLeaves_sign hword, Word.ofLeaves_blank rfl]
      exact hread joined false phrase last hfits nofun
  | false =>
    refine ⟨Leaf.sign kind :: leaves, _, ?_, hcopy.isExpression rfl, ?_, fun joined phrase last hfits => ?_⟩
    · have hwhole := (hwritten.imp fun hdotted => absurd hdotted hclosed).cons hopener
        (Leaf.standsBefore_operand hsign hplaced hopens hspace)
      simpa [hspace, String.toList_append] using hwhole
    · rw [hcopy.bare_eq, hbuilt.bare_eq]
      simp [hbare]
    · rw [Word.ofLeaves_sign hword]
      refine hread joined true phrase last hfits fun hminus _ => ?_
      cases hfoldable : State.isFoldable ⟨first.kind, 0, first.text⟩ with
      | false => rfl
      | true =>
        rw [hminus, Render.needsSpace_minus hplaced (hfolds hfoldable)] at hspace
        exact nomatch hspace

theorem keyword {kind node : Kind} (hbuilt : tree.BuiltOf node [.token (Leaf.sign kind), inner])
    (hsign : Grammar.keywordNode? kind = some node) (hinner : inner.RoundTrips false) : tree.RoundTrips false := by
  have hall : ∀ kind ∈ Kind.all, (Grammar.keywordNode? kind).all (fun node =>
      Leaf.isOpener kind && Leaf.isSpaced kind && node.isExpression) = true := by decide +kernel
  have hkind := hall kind (Lexeme.mem_all kind)
  simp only [hsign, Option.all_some, Bool.and_eq_true] at hkind
  obtain ⟨⟨hopener, hspaced⟩, hexpression⟩ := hkind
  have hword : kind.isTrivia = false := Leaf.isTrivia_of_isSpaced hspaced
  obtain ⟨⟨hprecedence, hopen, -⟩, htext⟩ := Render.expression_keyword hbuilt hinner.isExpression hsign
  have hclosed : ¬tree.Dotted := by
    rintro ⟨hle, -⟩
    rw [hprecedence] at hle
    exact absurd hle (by decide)
  have hright : tree.rightPower? = some 0 := by
    rw [rightPower?, hbuilt.kind_eq]
    revert hsign
    fun_cases Grammar.keywordNode? kind
    all_goals rintro ⟨⟩
    all_goals rfl
  refine of_operand (hbuilt.isExpression hexpression) fun tail => ?_
  obtain ⟨leaves, copy, hwritten, hcopy, hbare, hreads⟩ := (hinner.place 0 false tail (by simp)).expression
  have htidy : ∀ part ∈ [.token (Leaf.sign kind), copy], part.isTrivia = false := by
    simpa using ⟨hword, isTrivia_of_isExpression hcopy⟩
  have hnode := builtOf_node node htidy
  refine ⟨Leaf.sign kind :: Leaf.blank :: leaves, _, ?_, hnode.isExpression hexpression, ?_, fun joined phrase last hfits => ?_⟩
  · have hwhole := (hwritten.imp fun hdotted => absurd hdotted hclosed).cons_blank hopener hspaced
    rw [htext]
    simpa [String.toList_append] using hwhole
  · rw [hnode.bare_eq, hbuilt.bare_eq]
    simp [hbare]
  · obtain ⟨allowed, rfl⟩ := hfits.phrase
    have hoperand := hreads false _ last ⟨⟨false, rfl, by simp⟩, hfits.right 0 hright, hfits.tail⟩
    rw [Word.ofLeaves_sign hword, Word.ofLeaves_blank rfl]
    exact .phrase (.keyword hsign) (.word rfl hoperand) ⟨_, hnode, rfl⟩

/-! ### Names -/

theorem identifier {name : Leaf} (hname : name.IsName) (hbuilt : tree.BuiltOf .identifier [.token name]) :
    tree.RoundTrips false := by
  have hword : name.kind.isTrivia = false := by rw [hname.kind]; rfl
  have hform := Render.expression_identifier hbuilt hname.kind
  have hcopy : (Tree.node .identifier [.token name]).BuiltOf .identifier [.token name] :=
    builtOf_node .identifier (List.forall_mem_singleton.mpr hword)
  refine of_operand (hbuilt.isExpression rfl) fun tail =>
    ⟨[name], .node .identifier [.token name], ?_, rfl, ?_, fun joined phrase last hfits => ?_⟩
  · rw [hform.2]
    exact (Leaf.Written.name hname).imp fun _ => trivial
  · rw [hcopy.bare_eq, hbuilt.bare_eq]
  · obtain ⟨allowed, rfl⟩ := hfits.phrase
    rw [Word.ofLeaves_word hword]
    exact .phrase .identifier (.word hname.kind .nil) ⟨_, hcopy, rfl⟩

theorem globalVariable {name : Leaf} (hname : name.IsName)
    (hbuilt : tree.BuiltOf .globalVariable [.token (Leaf.sign .doubleColon), .token name]) : tree.RoundTrips false := by
  have hword : name.kind.isTrivia = false := by rw [hname.kind]; rfl
  have hform := Render.expression_globalVariable hbuilt hname.kind
  have htidy : ∀ part ∈ [Tree.token (Leaf.sign .doubleColon), .token name], part.isTrivia = false := by
    simpa using ⟨rfl, hword⟩
  have hcopy := builtOf_node .globalVariable htidy
  refine of_operand (hbuilt.isExpression rfl) fun tail =>
    ⟨[Leaf.sign .doubleColon, name], _, ?_, hcopy.isExpression rfl, ?_, fun joined phrase last hfits => ?_⟩
  · rw [hform.2, String.toList_append]
    exact ⟨(Leaf.Ending.name hname).cons fun after => Leaf.standsBefore_name (by simp) hname after,
      Leaf.begins_sign (by decide) ..⟩
  · rw [hcopy.bare_eq, hbuilt.bare_eq]
  · obtain ⟨allowed, rfl⟩ := hfits.phrase
    rw [Word.ofLeaves_sign rfl, Word.ofLeaves_word hword]
    exact .phrase .globalVariable (.word rfl (.word hname.kind .nil)) ⟨_, hcopy, rfl⟩

end Tree.RoundTrips

end

end Squirrel
