import Squirrel.Proofs.Render.Reads

/-!
# Forms around operands

What is written for each form is read as the form again if that holds of its operands.
-/

namespace Squirrel

open Squirrel.Tree

variable {tree left middle right : Tree} {table : Bool}

/-! ### Operators between expressions -/

/-- An operand and a sign with blanks before it. -/
theorem Suffix.ReadsAs.of_spaced {found : Suffix} {kind : Kind} {power : Nat} {tableAllowed tail : Bool}
    {dotted : Prop} {text : String}
    (hright : right.ReadsAs text dotted (ExpressionFits power table tail)) (hallowed : table = true → tableAllowed = true)
    (hspaced : Leaf.isSpaced kind = true) (hfound : Suffix.of? 0 false kind = some found)
    (hpower : found.rightPower? = some power)
    (hproduction : ∀ words last copy, Derives [.part (.expression power tableAllowed)] words last [copy] →
      Derives [.part (.suffix found)] (Word.sign kind false :: words) last [.token (Leaf.sign kind), copy]) :
    found.ReadsAs [.token (Leaf.sign kind), right] (" " ++ (Leaf.sign kind).text ++ " " ++ text) dotted tail := by
  obtain ⟨leaves, copy, hwritten, hexpression, hbare, hreads⟩ := hright
  have hword : kind.isTrivia = false := Leaf.isTrivia_of_isSpaced hspaced
  refine ⟨Leaf.between kind ++ leaves, [.token (Leaf.sign kind), copy], ?_, ?_, ?_, fun last hlast htail => ?_⟩
  · have hchars : (" " ++ (Leaf.sign kind).text ++ " " ++ text).toList
        = ' ' :: (Leaf.sign kind).text.toList ++ [' '] ++ text.toList := by
      simp [String.toList_append]
    rw [hchars]
    exact hwritten.behind_spaced hspaced
  · simp [hbare]
  · exact List.forall_mem_cons.mpr ⟨hword, by simpa using isTrivia_of_isExpression hexpression⟩
  · rw [Word.ofLeaves_between hword]
    exact ⟨hfound, hproduction _ last copy
      (hreads false _ last ⟨⟨tableAllowed, rfl, hallowed⟩, hlast power hpower, htail⟩)⟩

/-- Two operands with an operator of a power between them. -/
theorem Tree.RoundTrips.of_operator (found : Suffix) {kind : Kind} {own power rightPower : Nat} (tableAllowed : Bool)
    {tableRight : Bool}
    (hbuilt : tree.BuiltOf found.node [left, .token (Leaf.sign kind), right])
    (hparts : found.Fits [.token (Leaf.sign kind), right]) (hown : found.power? = some own)
    (hrightPower : found.rightPower? = some rightPower) (hspaced : Leaf.isSpaced kind = true)
    (hfound : Suffix.of? 0 false kind = some found) (htakes : found.TakesIn power) (hlow : own < Power.accessor)
    (hproduction : ∀ words last copy, Derives [.part (.expression rightPower tableAllowed)] words last [copy] →
      Derives [.part (.suffix found)] (Word.sign kind false :: words) last [.token (Leaf.sign kind), copy])
    (htext : ∀ tail, Render.expression tree tail = Render.place left power false false ++ " " ++ (Leaf.sign kind).text ++
      " " ++ Render.place right rightPower tableAllowed tail)
    (hleft : left.RoundTrips table) (htable : table = true → power ≤ left.precedence ∧ left.kind ≠ .table)
    (hright : right.RoundTrips tableRight)
    (htableRight : tableRight = true → rightPower ≤ right.precedence ∧ tableAllowed = true) : tree.RoundTrips table := by
  have hclosed : ¬tree.Dotted := by
    intro hdotted
    obtain ⟨-, htree, -⟩ := powers_of_suffix hbuilt hleft.isExpression hparts
    have hmem : own ∈ tree.ownPower? := htree.trans hown
    have hbounds := precedence_of_ownPower? hbuilt.isNode hmem
    have hle := hdotted.1
    omega
  refine .of_suffix found power false
    (fun tail => " " ++ (Leaf.sign kind).text ++ " " ++ Render.place right rightPower tableAllowed tail) hbuilt hparts
    hleft (fun htrue => ⟨(htable htrue).1, fun hkind => absurd hkind (htable htrue).2⟩) htakes ?_ ?_ ?_
  · intro tail
    rw [htext]
    simp [String.append_assoc]
  · intro tail after _
    simp only [String.toList_append]
    exact Leaf.follows_cons (by decide) (by decide)
  · intro tail
    have hplace := (hright.place rightPower tableAllowed tail fun htrue =>
      ⟨(htableRight htrue).1, fun _ => (htableRight htrue).2⟩).expression
    have hcopy : right.ReadsAs (Render.place right rightPower tableAllowed tail) tree.Dotted
        (ExpressionFits rightPower tableRight tail) := by
      obtain ⟨leaves, copy, hwritten, hrest⟩ := hplace
      exact ⟨leaves, copy, hwritten.imp fun hdotted => absurd hdotted hclosed, hrest⟩
    exact .of_spaced hcopy (fun htrue => (htableRight htrue).2) hspaced hfound hrightPower hproduction

theorem Suffix.of?_of_binary? {kind : Kind} {power : Nat} (hsign : Power.binary? kind = some power) :
    of? 0 false kind = some (binary power) := by
  have hall : ∀ kind ∈ Kind.all, ((Power.binary? kind).all fun power => of? 0 false kind == some (binary power)) = true := by
    decide +kernel
  have hkind := hall kind (Lexeme.mem_all kind)
  rw [hsign] at hkind
  exact beq_iff_eq.mp hkind

theorem Suffix.of?_of_isUpdate {kind : Kind} (hsign : Grammar.isUpdate kind = true) : of? 0 false kind = some update := by
  have hall : ∀ kind ∈ Kind.all, Grammar.isUpdate kind = true → of? 0 false kind = some update := by decide +kernel
  exact hall kind (Lexeme.mem_all kind) hsign

namespace Tree.RoundTrips

theorem binary {kind : Kind} {power : Nat}
    (hbuilt : tree.BuiltOf .binaryExpression [left, .token (Leaf.sign kind), right])
    (hsign : Power.binary? kind = some power) (hleft : left.RoundTrips table)
    (htable : table = true → power ≤ left.precedence ∧ left.kind ≠ .table) (hright : right.RoundTrips false) :
    tree.RoundTrips table := by
  have hbounds := Power.binary?_bounds hsign
  have hparts : (Suffix.binary power).Fits [.token (Leaf.sign kind), right] :=
    ⟨_, _, rfl, hsign, hright.isExpression⟩
  refine of_operator (.binary power) false hbuilt hparts rfl rfl (Leaf.isSpaced_of_binary? hsign) (Suffix.of?_of_binary? hsign)
    (.inr ⟨rfl, hbounds.1⟩) (Nat.lt_trans hbounds.2 (by decide)) (fun words last copy hcopy => ?_)
    (Render.expression_binary hbuilt hleft.isExpression hright.isExpression hsign).2 hleft htable hright nofun
  exact .phrase (.suffixBinary power) (.wordIn (beq_iff_eq.mpr hsign) hcopy) rfl

theorem assignment {tableRight : Bool}
    (hbuilt : tree.BuiltOf .assignmentExpression [left, .token (Leaf.sign .equals), right]) (hleft : left.RoundTrips table)
    (htable : table = true → Power.ternary ≤ left.precedence ∧ left.kind ≠ .table) (hright : right.RoundTrips tableRight)
    (htableRight : tableRight = true → Power.assignment ≤ right.precedence) : tree.RoundTrips table := by
  have hparts : Suffix.assignment.Fits [.token (Leaf.sign .equals), right] := ⟨_, _, rfl, rfl, hright.isExpression⟩
  refine of_operator .assignment true hbuilt hparts rfl rfl (by decide) rfl (.inl (by decide)) (by decide)
    (fun words last copy hcopy => ?_) (fun tail => ?_) hleft htable hright fun htrue => ⟨htableRight htrue, rfl⟩
  · exact .phrase .suffixAssignment (.word rfl hcopy) rfl
  · rw [(Render.expression_assignment hbuilt hleft.isExpression hright.isExpression).2]
    simp [String.append_assoc, Leaf.sign, Kind.spelling?]

theorem update {kind : Kind} {tableRight : Bool}
    (hbuilt : tree.BuiltOf .updateExpression [left, .token (Leaf.sign kind), right])
    (hsign : Grammar.isUpdate kind = true) (hleft : left.RoundTrips table)
    (htable : table = true → Power.ternary ≤ left.precedence ∧ left.kind ≠ .table) (hright : right.RoundTrips tableRight)
    (htableRight : tableRight = true → Power.assignment ≤ right.precedence) : tree.RoundTrips table := by
  have hparts : Suffix.update.Fits [.token (Leaf.sign kind), right] := ⟨_, _, rfl, hsign, hright.isExpression⟩
  refine of_operator .update true hbuilt hparts rfl rfl (Leaf.isSpaced_of_isUpdate hsign)
    (Suffix.of?_of_isUpdate hsign) (.inl (by decide)) (by decide)
    (fun words last copy hcopy => ?_) (Render.expression_update hbuilt hleft.isExpression hright.isExpression hsign).2
    hleft htable hright fun htrue => ⟨htableRight htrue, rfl⟩
  exact .phrase .suffixUpdate (.wordIn hsign hcopy) rfl

theorem ternary {tableMiddle tableRight : Bool}
    (hbuilt : tree.BuiltOf .ternaryExpression
      [left, .token (Leaf.sign .question), middle, .token (Leaf.sign .colon), right]) (hleft : left.RoundTrips table)
    (htable : table = true → Power.ternary + 1 ≤ left.precedence ∧ left.kind ≠ .table)
    (hmiddle : middle.RoundTrips tableMiddle) (hright : right.RoundTrips tableRight)
    (htableRight : tableRight = true → Power.ternary ≤ right.precedence) : tree.RoundTrips table := by
  have hparts : Suffix.ternary.Fits [.token (Leaf.sign .question), middle, .token (Leaf.sign .colon), right] :=
    ⟨_, _, _, _, rfl, hmiddle.isExpression, hright.isExpression⟩
  have hform := Render.expression_ternary hbuilt hleft.isExpression hmiddle.isExpression hright.isExpression
  have hclosed : ¬tree.Dotted := by
    rintro ⟨hle, -⟩
    rw [hform.1] at hle
    exact absurd hle (by decide)
  have hquestion : Leaf.isSpaced .question = true := by decide
  have hcolon : Leaf.isSpaced .colon = true := by decide
  refine of_suffix .ternary (Power.ternary + 1) false
    (fun tail => " ? " ++ Render.place middle 0 true true ++ " : " ++ Render.place right Power.ternary true tail) hbuilt
    hparts hleft (fun htrue => ⟨(htable htrue).1, fun hkind => absurd hkind (htable htrue).2⟩) (.inl (by decide)) (fun tail => ?_) (fun tail after _ => ?_) fun tail => ?_
  · rw [hform.2]
    simp [String.append_assoc]
  · simp only [String.toList_append]
    exact Leaf.follows_cons (by decide) (by decide)
  · obtain ⟨middleLeaves, middleCopy, hmiddleWritten, hmiddleExpression, hmiddleBare, hmiddleReads⟩ :=
      (hmiddle.place 0 true true fun _ => ⟨Nat.zero_le _, fun _ => rfl⟩).expression
    obtain ⟨leaves, copy, hwritten, hexpression, hbare, hreads⟩ :=
      (hright.place Power.ternary true tail fun htrue => ⟨htableRight htrue, fun _ => rfl⟩).expression
    have hending := (hmiddleWritten.spaced hwritten hcolon).behind_spaced hquestion
    refine ⟨Leaf.between .question ++ (middleLeaves ++ (Leaf.between .colon ++ leaves)),
      [.token (Leaf.sign .question), middleCopy, .token (Leaf.sign .colon), copy], ?_, ?_, ?_, fun last hlast htail => ?_⟩
    · have hchars : (" ? " ++ Render.place middle 0 true true ++ " : " ++ Render.place right Power.ternary true tail).toList
          = ' ' :: (Leaf.sign .question).text.toList ++ [' '] ++ ((Render.place middle 0 true true).toList ++
            (' ' :: (Leaf.sign .colon).text.toList ++ [' '] ++ (Render.place right Power.ternary true tail).toList)) := by
        simp [String.toList_append, Leaf.sign, Kind.spelling?]
      rw [hchars]
      exact hending.imp fun hdotted => absurd hdotted hclosed
    · simp [hmiddleBare, hbare]
    · have hmiddleWord := isTrivia_of_isExpression hmiddleExpression
      have hword := isTrivia_of_isExpression hexpression
      simpa using ⟨rfl, hmiddleWord, rfl, hword⟩
    · rw [Word.ofLeaves_between rfl, Word.ofLeaves_ending hmiddleWritten.toEnding, Word.ofLeaves_between rfl,
        List.cons_append, List.append_assoc]
      have hfirst := hmiddleReads false (.expression 0 true)
        (Word.sign .colon false :: Word.ofLeaves false false leaves ++ last) ⟨⟨true, rfl, fun _ => rfl⟩, rfl, fun _ => rfl⟩
      have hsecond := hreads false (.expression Power.ternary true) last ⟨⟨true, rfl, fun _ => rfl⟩, hlast _ rfl, htail⟩
      exact ⟨rfl, .phrase .suffixTernary (.word rfl (hfirst.append (.word rfl hsecond))) rfl⟩

/-! ### Accessors -/

theorem member {name : Leaf} (hname : name.IsName)
    (hbuilt : tree.BuiltOf .derefExpression [left, .token (Leaf.sign .dot), .token name]) (hleft : left.RoundTrips table)
    (hplain : left.isWhole = true → Lexeme.startsExponent name.text.toList = false)
    (htable : table = true → Power.accessor ≤ left.precedence) : tree.RoundTrips table := by
  have hparts : Suffix.member.Fits [.token (Leaf.sign .dot), .token name] := ⟨_, _, rfl, rfl, hname.kind⟩
  have hform := Render.expression_member hbuilt hleft.isExpression rfl hname.kind
  have hending : Leaf.Ending [Leaf.sign .dot, name] ("." ++ name.text).toList tree.Dotted := by
    rw [String.toList_append]
    exact (Leaf.Ending.name hname).cons fun after => Leaf.standsBefore_name (by simp) hname after
  refine of_suffix .member Power.accessor true (fun _ => "." ++ name.text) hbuilt hparts hleft
    (fun htrue => ⟨htable htrue, fun _ => rfl⟩) (Nat.le_refl _) (fun tail => ?_) (fun tail after hafter => ?_)
    fun tail => ⟨_, _, hending, rfl, ?_, fun last _ _ => ?_⟩
  · rw [hform.2, String.append_assoc]
  · rw [String.toList_append]
    rintro c ⟨rfl⟩
    refine ⟨rfl, fun hsign => absurd hsign (by decide), fun _ => ?_⟩
    cases hwhole : left.isWhole with
    | false => exact .inl ⟨Nat.le_refl _, rfl⟩
    | true => exact .inr (hname.startsFraction_eq_false (hplain hwhole) hafter)
  · have hword : name.kind.isTrivia = false := by rw [hname.kind]; rfl
    simpa using ⟨rfl, hword⟩
  · rw [Word.ofLeaves_sign rfl, Word.ofLeaves_word (by rw [hname.kind]; rfl)]
    exact ⟨rfl, .phrase .suffixMember (.word rfl (.word hname.kind .nil)) rfl⟩

theorem index {key : Tree} (hbuilt : tree.BuiltOf .indexExpression
      [left, .token (Leaf.sign .bracketOpen), key, .token (Leaf.sign .bracketClose)]) (hleft : left.RoundTrips table)
    (htable : table = true → Power.accessor ≤ left.precedence ∧ left.kind ≠ .table) (hkey : key.RoundTrips false) :
    tree.RoundTrips table := by
  have hparts : Suffix.index.Fits [.token (Leaf.sign .bracketOpen), key, .token (Leaf.sign .bracketClose)] :=
    ⟨_, _, _, rfl, hkey.isExpression⟩
  have hform := Render.expression_index hbuilt hleft.isExpression hkey.isExpression
  obtain ⟨leaves, copy, hwritten, hexpression, hbare, hreads⟩ := (hkey.place 0 false true nofun).expression
  have henclosed : Leaf.Enclosed leaves (Render.place key 0 false true).toList := .inr ⟨_, hwritten⟩
  refine of_suffix .index Power.accessor false (fun _ => "[" ++ Render.place key 0 false true ++ "]") hbuilt hparts hleft
    (fun htrue => ⟨(htable htrue).1, fun hkind => absurd hkind (htable htrue).2⟩) (Nat.le_refl _) (fun tail => ?_)
    (fun tail after _ => ?_) fun tail => ?_
  · rw [hform.2]
    simp only [String.append_assoc]
  · simp only [String.toList_append]
    exact Leaf.follows_cons (by decide) (by decide)
  · refine ⟨Leaf.sign .bracketOpen :: (leaves ++ [Leaf.sign .bracketClose]),
      [.token (Leaf.sign .bracketOpen), copy, .token (Leaf.sign .bracketClose)], ?_, ?_, ?_, fun last _ _ => ?_⟩
    · have hchars := Leaf.toList_brackets .bracketOpen .bracketClose (Render.place key 0 false true)
      exact hchars ▸ henclosed.ending rfl
    · simp [hbare]
    · have hword := isTrivia_of_isExpression hexpression
      simpa using ⟨rfl, hword, rfl⟩
    · have hinner := hreads true (.expression 0 false) (Word.sign .bracketClose true :: last)
        ⟨⟨false, rfl, nofun⟩, rfl, fun _ => rfl⟩
      rw [Word.ofLeaves_brackets henclosed rfl]
      exact ⟨rfl, .phrase .suffixIndex (.word rfl (hinner.append (.word rfl .nil))) rfl⟩

theorem increment {kind : Kind} (hbuilt : tree.BuiltOf .unaryExpression [left, .token (Leaf.sign kind)])
    (hsign : Grammar.isIncrement kind = true) (hleft : left.RoundTrips table)
    (htable : table = true → Power.unary ≤ left.precedence ∧ left.kind ≠ .table) : tree.RoundTrips table := by
  have hparts : Suffix.increment.Fits [.token (Leaf.sign kind)] := ⟨_, rfl, hsign⟩
  have hform := Render.expression_increment hbuilt hleft.isExpression hsign
  obtain ⟨hcloser, hword, hfound, c, htext, hfollows⟩ :
      kind ∈ [Kind.parenClose, .bracketClose, .plusPlus, .minusMinus] ∧ kind.isTrivia = false ∧
      Suffix.of? 0 false kind = some .increment ∧
      ∃ c, (Leaf.sign kind).text.toList = [c, c] ∧ Lexeme.followsExpression c = true ∧ c ≠ '.' := by
    have hkind : kind = .plusPlus ∨ kind = .minusMinus := by simpa using of_decide_eq_true hsign
    rcases hkind with rfl | rfl
    · exact ⟨by decide, rfl, rfl, '+', rfl, by decide, by decide⟩
    · exact ⟨by decide, rfl, rfl, '-', rfl, by decide, by decide⟩
  refine of_suffix .increment Power.unary false (fun _ => (Leaf.sign kind).text) hbuilt hparts hleft
    (fun htrue => ⟨(htable htrue).1, fun hkind => absurd hkind (htable htrue).2⟩) (.inr ⟨rfl, by decide⟩) hform.2
    (fun tail after _ => ?_) fun tail => ⟨[Leaf.sign kind], _, .closer hcloser, rfl, ?_, fun last _ _ => ?_⟩
  · rw [htext]
    rintro d ⟨rfl⟩
    exact ⟨hfollows.1, fun _ => rfl, fun hdot => absurd hdot hfollows.2⟩
  · exact List.forall_mem_singleton.mpr hword
  · rw [Word.ofLeaves_sign hword]
    exact ⟨hfound, .phrase .suffixIncrement (.wordIn hsign .nil) rfl⟩

end Tree.RoundTrips

end Squirrel
