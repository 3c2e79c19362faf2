import Squirrel.Proofs.Render.Form
import Squirrel.Proofs.Render.Written
import Squirrel.Proofs.Tree.Trim

/-!
# Reading what is written
-/

namespace Squirrel

open Squirrel.Tree

/-! ### Precedence and powers -/

namespace Tree

variable {tree : Tree}

theorem precedence_of_ownPower? (hnode : tree.isNode = true) {own : Nat} (hown : own ∈ tree.ownPower?) :
    own = tree.precedence ∧ own < Power.accessor := by
  rw [ownPower?] at hown
  split at hown
  case h_4 hkind =>
    have hbounds := binaryPower?_bounds hown
    rw [binaryPower?, if_pos hkind] at hown
    refine ⟨?_, Nat.lt_trans hbounds.2 (by decide)⟩
    simp [precedence, asExpression?, hnode, hkind, Option.mem_def.mp hown]
  case h_5 hkind =>
    split at hown
    · cases hown
      exact ⟨by simp [precedence, asExpression?, hnode, hkind], by decide⟩
    · cases hown
  case h_6 => cases hown
  all_goals
    next hkind =>
    cases hown
    exact ⟨by simp [precedence, asExpression?, hnode, hkind], by decide⟩

/-- The last operand of an expression binds at least as tightly as the expression, and more tightly than a binary or
unary operator before it. -/
theorem precedence_of_rightPower? (hnode : tree.isNode = true) {needed : Nat} (hneeded : needed ∈ tree.rightPower?) :
    tree.precedence ≤ needed ∧
      (Power.ternary < tree.precedence → tree.precedence < needed ∧ tree.precedence < Power.accessor) := by
  rw [Tree.rightPower?] at hneeded
  split at hneeded
  case h_8 hkind =>
    obtain ⟨power, hpower, rfl⟩ := Option.map_eq_some_iff.mp hneeded
    have hown : power ∈ tree.ownPower? := by rw [ownPower?, hkind]; exact hpower
    obtain ⟨rfl, -⟩ := precedence_of_ownPower? hnode hown
    have hbounds := binaryPower?_bounds hpower
    exact ⟨Nat.le_succ _, fun _ => ⟨Nat.lt_succ_self _, Nat.lt_trans hbounds.2 (by decide)⟩⟩
  case h_9 hkind =>
    split at hneeded
    · cases hneeded
    · cases hneeded
      have hprecedence : tree.precedence = Power.unary := by simp [precedence, asExpression?, hnode, hkind]
      rw [hprecedence]
      decide
  case h_10 => cases hneeded
  all_goals
    next hkind =>
    cases hneeded
    have hprecedence : tree.precedence ≤ Power.ternary := by
      simp [precedence, asExpression?, hnode, hkind, Precedence.openEnded, Power.assignment, Power.ternary]
    refine ⟨?_, fun hlt => absurd hprecedence (Nat.not_le_of_lt hlt)⟩
    simp [precedence, asExpression?, hnode, hkind, Precedence.openEnded]

theorem ownPower?_of_isOpenEnded (hnode : tree.isNode = true) (hopen : tree.isOpenEnded = true) :
    tree.ownPower? = none := by
  rw [ownPower?]
  split
  case h_6 => rfl
  all_goals
    next hkind =>
    simp [isOpenEnded, asExpression?, hnode, hkind] at hopen

theorem powers_of_isPrefixed (hnode : tree.isNode = true) (hprefixed : tree.isPrefixed = true) :
    tree.ownPower? = none ∧ tree.rightPower? = some Power.accessor := by
  have hkind : tree.kind = .unaryExpression := by
    refine Decidable.byContradiction fun hkind => ?_
    rw [isPrefixed] at hprefixed
    split at hprefixed
    · next hview =>
      rw [asExpression?, hnode] at hview
      generalize tree.kind = kind at hview hkind
      cases kind
      all_goals first
        | exact absurd rfl hkind
        | cases hview
    · cases hprefixed
  have hstarts : tree.startsWithNode = false := by simpa [isPrefixed, asExpression?, hnode, hkind] using hprefixed
  simp [ownPower?, Tree.rightPower?, hkind, hstarts]

end Tree

/-! ### What stops an operand -/

namespace Word

variable {power needed : Nat} {words : List Word}

/-- An expression of a power has no last operand that takes in the words as well. -/
def Stops (power : Nat) (words : List Word) : Prop :=
  ∀ needed, power ≤ needed → (Power.ternary < power → power < needed ∧ power < Power.accessor) →
    suffix? needed words = none

theorem stops_of_none (hnone : suffix? power words = none) : Stops power words :=
  fun _ hle _ => suffix?_eq_none_of_le hnone hle

end Word

/-- A suffix belongs to a whole expression of a power and not to an operand in it. -/
def Suffix.TakesIn (found : Suffix) (power : Nat) : Prop :=
  match found.power? with
  | none => Power.accessor ≤ power
  | some own => own < power ∨ own = power ∧ Power.ternary < power

theorem Suffix.TakesIn.stops {found : Suffix} {power : Nat} {words : List Word} (htakes : found.TakesIn power)
    (hfound : Word.suffix? 0 words = some found) : Word.Stops power words := by
  intro needed hle htight
  cases hsuffix : Word.suffix? needed words with
  | none => rfl
  | some other =>
    obtain ⟨hzero, hown⟩ := Word.suffix?_eq_some_iff.mp hsuffix
    obtain rfl := Option.some.inj (hfound.symm.trans hzero)
    rw [TakesIn] at htakes
    split at htakes
    · have hternary : Power.ternary < power := Nat.lt_of_lt_of_le (by decide) htakes
      exact absurd htakes (Nat.not_le_of_lt (htight hternary).2)
    · next own hpower =>
      have hneeded := hown own hpower
      obtain hlt | ⟨rfl, hternary⟩ := htakes
      · omega
      · have hlt := (htight hternary).1
        omega

theorem Suffix.TakesIn.lower {found : Suffix} {power lower : Nat} (htakes : found.TakesIn power)
    (hlower : ∀ own ∈ found.power?, lower ≤ own) : lower ≤ power ∨ Power.accessor ≤ power := by
  rw [TakesIn] at htakes
  split at htakes
  · exact .inr htakes
  · next own hpower =>
    have hle := hlower own hpower
    omega

/-! ### What is read -/

/-- Leaves with the text, and a tree that says the same: a phrase finds it where its words stand. -/
def Tree.ReadsAs (tree : Tree) (text : String) (dotted : Prop) (Fits : Phrase → List Word → Prop) : Prop :=
  ∃ leaves copy, Leaf.Written leaves text.toList dotted ∧ copy.isExpression = true ∧ copy.bare = tree.bare ∧
    ∀ joined phrase last, Fits phrase last →
      Derives [.part phrase] (Word.ofLeaves false joined leaves ++ last) last [copy]

/-- Where the text of an expression can be read. -/
structure Tree.FitsAt (tree : Tree) (table tail : Bool) (phrase : Phrase) (last : List Word) : Prop where
  phrase : ∃ lower tableAllowed, phrase = .chain lower tableAllowed ∧ (table = true → tableAllowed = true) ∧
    ∀ own ∈ tree.ownPower?, lower ≤ own
  right : ∀ needed ∈ tree.rightPower?, Word.suffix? needed last = none
  tail : tail = true → Word.suffix? 0 last = none

/-- A whole number: with a point and a fraction behind it, its text is a float. -/
def Tree.isWhole (tree : Tree) : Bool := tree.kind == .integer && tree.leaves.getLast?.any Leaf.isWhole

/-- A dot may follow the text of the expression, whatever is behind it. -/
def Tree.Dotted (tree : Tree) : Prop := Power.accessor ≤ tree.precedence ∧ tree.isWhole = false

/-- What is written for an expression is read as the expression again. If it starts with a table, that is where tables
are allowed. -/
structure Tree.RoundTrips (tree : Tree) (table : Bool) : Prop where
  isExpression : tree.isExpression = true
  reads : ∀ tail, tree.ReadsAs (Render.expression tree tail) tree.Dotted (tree.FitsAt table tail)

/-! ### Rows of words -/

theorem Word.ofLeaves_ending {left : List Leaf} {text : List Char} {dotted : Prop} (hleft : Leaf.Ending left text dotted)
    (afterBreak joined : Bool) (right : List Leaf) :
    ofLeaves afterBreak joined (left ++ right) = ofLeaves afterBreak joined left ++ ofLeaves false true right := by
  obtain ⟨front, last, rfl, hword⟩ := hleft.ends
  exact ofLeaves_append hword ..

/-- The word of a sign that does not start a line. -/
def Word.sign (kind : Kind) (joined : Bool) : Word := ⟨Leaf.sign kind, false, joined⟩

theorem Word.ofLeaves_sign {kind : Kind} (hword : kind.isTrivia = false) (joined : Bool) (rest : List Leaf) :
    ofLeaves false joined (Leaf.sign kind :: rest) = sign kind joined :: ofLeaves false true rest :=
  ofLeaves_word hword ..

theorem Word.ofLeaves_between {kind : Kind} (hword : kind.isTrivia = false) (joined : Bool) (rest : List Leaf) :
    ofLeaves false joined (Leaf.between kind ++ rest) = sign kind false :: ofLeaves false false rest := by
  have hblanks : Leaf.between kind ++ rest = Leaf.blank :: Leaf.sign kind :: Leaf.blank :: rest := rfl
  rw [hblanks, ofLeaves_blank rfl, ofLeaves_sign hword, ofLeaves_blank rfl]

/-- The words of something in brackets. -/
theorem Word.ofLeaves_brackets {leaves : List Leaf} {text : List Char} {opener closer : Kind}
    (henclosed : Leaf.Enclosed leaves text) (hbrackets : Leaf.isBrackets opener closer = true) (joined : Bool)
    (last : List Word) : ofLeaves false joined (Leaf.sign opener :: (leaves ++ [Leaf.sign closer])) ++ last
      = sign opener joined :: (ofLeaves false true leaves ++ sign closer true :: last) := by
  have hall : ∀ pair ∈ [(Kind.parenOpen, Kind.parenClose), (.bracketOpen, .bracketClose)],
      pair.1.isTrivia = false ∧ pair.2.isTrivia = false := by decide
  obtain ⟨hopener, hcloser⟩ := hall (opener, closer) (of_decide_eq_true hbrackets)
  rw [ofLeaves_sign hopener]
  obtain ⟨rfl, rfl⟩ | ⟨dotted, hwritten⟩ := henclosed
  · rw [List.nil_append, ofLeaves_sign hcloser]
    rfl
  · rw [ofLeaves_ending hwritten.toEnding, ofLeaves_sign hcloser, List.cons_append, List.append_assoc]
    rfl

/-! ### Copies -/

namespace Tree

theorem builtOf_node (kind : Kind) {row : List Tree} (htidy : ∀ part ∈ row, part.isTrivia = false) :
    (node kind row).BuiltOf kind row :=
  ⟨row, rfl, List.filter_eq_self.mpr fun part hmem => by rw [htidy part hmem]; rfl⟩

theorem BuiltOf.bare_eq {tree : Tree} {kind : Kind} {row : List Tree} (hbuilt : tree.BuiltOf kind row) :
    tree.bare = unwrap kind (row.map bare) := by
  obtain ⟨children, rfl, rfl⟩ := hbuilt
  rw [bare_node, bareAll_eq]

theorem isTrivia_of_isExpression {tree : Tree} (hexpression : tree.isExpression = true) : tree.isTrivia = false :=
  isTrivia_of_isNode (Bool.and_eq_true_iff.mp hexpression).1

end Tree

/-- An expression that no suffix of its power follows. -/
theorem Derives.expression_of_chain {power : Nat} {tableAllowed : Bool} {words last : List Word} {tree : Tree}
    (hchain : Derives [.part (.chain power tableAllowed)] words last [tree]) (hnone : Word.suffix? power last = none) :
    Derives [.part (.expression power tableAllowed)] words last [tree] :=
  .phrase .expression (hchain.append (.guard _ hnone)) rfl

/-! ### Operands -/

/-- Where the text of an operand of a power can be read. -/
structure OperandFits (power : Nat) (table tail : Bool) (phrase : Phrase) (last : List Word) : Prop where
  phrase : ∃ lower tableAllowed, phrase = .chain lower tableAllowed ∧ (table = true → tableAllowed = true) ∧
    (lower ≤ power ∨ Power.accessor ≤ power)
  stops : Word.Stops power last
  tail : tail = true → Word.suffix? 0 last = none

/-- Where the text of an operand of a power can be read as a whole expression. -/
structure ExpressionFits (power : Nat) (table tail : Bool) (phrase : Phrase) (last : List Word) : Prop where
  phrase : ∃ tableAllowed, phrase = .expression power tableAllowed ∧ (table = true → tableAllowed = true)
  right : Word.suffix? power last = none
  tail : tail = true → Word.suffix? 0 last = none

theorem Tree.ReadsAs.expression {part : Tree} {text : String} {dotted : Prop} {power : Nat} {table tail : Bool}
    (hpart : part.ReadsAs text dotted (OperandFits power table tail)) :
    part.ReadsAs text dotted (ExpressionFits power table tail) := by
  obtain ⟨leaves, copy, hwritten, hexpression, hbare, hreads⟩ := hpart
  refine ⟨leaves, copy, hwritten, hexpression, hbare, fun joined phrase last hfits => ?_⟩
  obtain ⟨allowed, rfl, hallowed⟩ := hfits.phrase
  have hchain := hreads joined (.chain power allowed) last
    ⟨⟨power, allowed, rfl, hallowed, .inl (Nat.le_refl power)⟩, Word.stops_of_none hfits.right, hfits.tail⟩
  exact hchain.expression_of_chain hfits.right

/-- In parentheses an expression may stand anywhere. -/
theorem Tree.ReadsAs.parenthesize {part : Tree} {text : String} {dotted : Prop}
    (hpart : part.ReadsAs text dotted (ExpressionFits 0 false true)) (behind : Prop) :
    part.ReadsAs ("(" ++ text ++ ")") behind fun phrase _ => ∃ lower tableAllowed, phrase = .chain lower tableAllowed := by
  obtain ⟨leaves, copy, hwritten, hexpression, hbare, hreads⟩ := hpart
  have henclosed : Leaf.Enclosed leaves text.toList := .inr ⟨_, hwritten⟩
  have htext : ("(" ++ text ++ ")").toList = (Leaf.sign .parenOpen).text.toList ++
      (text.toList ++ (Leaf.sign .parenClose).text.toList) := Leaf.toList_brackets .parenOpen .parenClose text
  have hword := isTrivia_of_isExpression hexpression
  have htidy : ∀ part ∈ [.token (Leaf.sign .parenOpen), copy, .token (Leaf.sign .parenClose)],
      part.isTrivia = false := by simpa using ⟨rfl, hword, rfl⟩
  have hbuilt := builtOf_node .parenthesizedExpression htidy
  refine ⟨Leaf.sign .parenOpen :: (leaves ++ [Leaf.sign .parenClose]), .node .parenthesizedExpression
    [.token (Leaf.sign .parenOpen), copy, .token (Leaf.sign .parenClose)], ⟨?_, ?_⟩, rfl, ?_, ?_⟩
  · rw [htext]
    exact henclosed.ending rfl
  · rw [htext]
    exact Leaf.begins_sign rfl ..
  · rw [hbuilt.bare_eq]
    exact hbare
  · rintro joined _ last ⟨lower, tableAllowed, rfl⟩
    have hinner := hreads true (.expression 0 false) (Word.sign .parenClose true :: last) ⟨⟨false, rfl, nofun⟩, rfl, fun _ => rfl⟩
    rw [Word.ofLeaves_brackets henclosed rfl]
    exact .phrase .chainOperand (.phrase .operandParenthesized (.phrase .parenthesized
      (.word rfl (hinner.append (.word rfl .nil))) ⟨_, hbuilt, rfl⟩) rfl) rfl

theorem Tree.RoundTrips.parenthesize {part : Tree} (hpart : part.RoundTrips false) (dotted : Prop) :
    part.ReadsAs ("(" ++ Render.expression part true ++ ")") dotted
      fun phrase _ => ∃ lower tableAllowed, phrase = .chain lower tableAllowed := by
  obtain ⟨leaves, copy, hwritten, hexpression, hbare, hreads⟩ := hpart.reads true
  refine Tree.ReadsAs.parenthesize ⟨leaves, copy, hwritten, hexpression, hbare, fun joined phrase last hfits => ?_⟩ dotted
  obtain ⟨allowed, rfl, hallowed⟩ := hfits.phrase
  have hchain := hreads joined (.chain 0 allowed) last ⟨⟨0, allowed, rfl, hallowed, fun _ _ => Nat.zero_le _⟩,
    fun _ _ => Word.suffix?_eq_none_of_le hfits.right (Nat.zero_le _), hfits.tail⟩
  exact hchain.expression_of_chain hfits.right

/-- An operand is read at its place, in parentheses or not. -/
theorem Tree.RoundTrips.place {part : Tree} {table : Bool} (hpart : part.RoundTrips table) (power : Nat)
    (tableAllowed tail : Bool)
    (htable : table = true → power ≤ part.precedence ∧ (part.kind = .table → tableAllowed = true)) :
    part.ReadsAs (Render.place part power tableAllowed tail)
      (tail = false ∧ Power.accessor ≤ power ∧ part.isWhole = false) (OperandFits power table tail) := by
  have hnode : part.isNode = true := (Bool.and_eq_true_iff.mp hpart.isExpression).1
  rw [Render.place]
  split
  · next hparens =>
    have hplain : table = false := by
      cases table with
      | false => rfl
      | true =>
        obtain ⟨hbinds, hkind⟩ := htable rfl
        simp [Nat.not_lt.mpr hbinds] at hparens
        cases (hkind hparens.1).symm.trans hparens.2
    subst hplain
    obtain ⟨leaves, copy, hwritten, hexpression, hbare, hreads⟩ := hpart.parenthesize True
    refine ⟨leaves, copy, hwritten.imp fun _ => trivial, hexpression, hbare, fun joined phrase last hfits => ?_⟩
    obtain ⟨lower, allowed, rfl, -⟩ := hfits.phrase
    exact hreads joined _ last ⟨lower, allowed, rfl⟩
  · next hbinds =>
    have hloose : part.precedence < power → tail = true ∧ part.isOpenEnded = true := by
      intro hlt
      rw [Bool.or_eq_true, not_or] at hbinds
      simpa [hlt] using hbinds.1
    obtain ⟨leaves, copy, hwritten, hexpression, hbare, hreads⟩ := hpart.reads tail
    refine ⟨leaves, copy, hwritten.imp ?_, hexpression, hbare, fun joined phrase last hfits => ?_⟩
    · rintro ⟨rfl, haccessor, hkind⟩
      exact ⟨Nat.le_trans haccessor (Nat.le_of_not_lt fun hlt => Bool.false_ne_true (hloose hlt).1), hkind⟩
    · obtain ⟨lower, allowed, rfl, hallowed, hlower⟩ := hfits.phrase
      refine hreads joined _ last ⟨⟨lower, allowed, rfl, hallowed, fun own hown => ?_⟩, fun needed hneeded => ?_, hfits.tail⟩
      · obtain hlt | hle := Nat.lt_or_ge part.precedence power
        · rw [ownPower?_of_isOpenEnded hnode (hloose hlt).2] at hown
          cases hown
        · have hbounds := precedence_of_ownPower? hnode hown
          omega
      · obtain hlt | hle := Nat.lt_or_ge part.precedence power
        · exact Word.suffix?_eq_none_of_le (hfits.tail (hloose hlt).1) (Nat.zero_le _)
        · have hbounds := precedence_of_rightPower? hnode hneeded
          refine hfits.stops needed (Nat.le_trans hle hbounds.1) fun hternary => ?_
          have htight := hbounds.2 (Nat.lt_of_lt_of_le hternary hle)
          omega

/-- The operand of a prefix operator is read at its place, in parentheses or not. -/
theorem Tree.RoundTrips.placeAfterPrefix {part : Tree} {table : Bool} (hpart : part.RoundTrips table) (tail : Bool)
    (htable : table = true → Power.accessor ≤ part.precedence) :
    part.ReadsAs (Render.placeAfterPrefix part tail) False (ExpressionFits Power.accessor table tail) := by
  have hnode : part.isNode = true := (Bool.and_eq_true_iff.mp hpart.isExpression).1
  rw [Render.placeAfterPrefix]
  split
  · next hparens =>
    obtain ⟨hlt, -⟩ := Bool.and_eq_true_iff.mp hparens
    have hplain : table = false := by
      cases table with
      | false => rfl
      | true => exact absurd (htable rfl) (Nat.not_le_of_lt (of_decide_eq_true hlt))
    subst hplain
    obtain ⟨leaves, copy, hwritten, hexpression, hbare, hreads⟩ := hpart.parenthesize False
    refine ⟨leaves, copy, hwritten, hexpression, hbare, fun joined phrase last hfits => ?_⟩
    obtain ⟨allowed, rfl, -⟩ := hfits.phrase
    exact (hreads joined _ last ⟨_, _, rfl⟩).expression_of_chain hfits.right
  · next hbinds =>
    have hbare : Power.accessor ≤ part.precedence ∨ part.isPrefixed = true ∨ tail = true ∧ part.isOpenEnded = true := by
      simpa [Nat.not_lt, Decidable.or_iff_not_imp_left] using hbinds
    have hown : part.ownPower? = none := by
      obtain haccessor | hprefixed | ⟨-, hopen⟩ := hbare
      · cases hown : part.ownPower? with
        | none => rfl
        | some own =>
          have hbounds := precedence_of_ownPower? hnode hown
          omega
      · exact (powers_of_isPrefixed hnode hprefixed).1
      · exact ownPower?_of_isOpenEnded hnode hopen
    obtain ⟨leaves, copy, hwritten, hexpression, hcopy, hreads⟩ := hpart.reads tail
    refine ⟨leaves, copy, hwritten.imp False.elim, hexpression, hcopy, fun joined phrase last hfits => ?_⟩
    obtain ⟨allowed, rfl, hallowed⟩ := hfits.phrase
    have hchain := hreads joined (.chain Power.accessor allowed) last
      ⟨⟨_, _, rfl, hallowed, by simp [hown]⟩, fun needed hneeded => ?_, hfits.tail⟩
    · exact hchain.expression_of_chain hfits.right
    · obtain haccessor | hprefixed | ⟨htail, -⟩ := hbare
      · have hbounds := (precedence_of_rightPower? hnode hneeded).2 (Nat.lt_of_lt_of_le (by decide) haccessor)
        omega
      · rw [(powers_of_isPrefixed hnode hprefixed).2] at hneeded
        cases hneeded
        exact hfits.right
      · exact Word.suffix?_eq_none_of_le (hfits.tail htail) (Nat.zero_le _)

/-! ### Suffixes -/

/-- Leaves with the text, and trees that say the same as the parts of a suffix, which the suffix finds where its words
stand. -/
def Suffix.ReadsAs (found : Suffix) (parts : List Tree) (text : String) (dotted : Prop) (tail : Bool) : Prop :=
  ∃ leaves copies, Leaf.Ending leaves text.toList dotted ∧ copies.map bare = parts.map bare ∧
    (∀ copy ∈ copies, copy.isTrivia = false) ∧
    ∀ last, (∀ needed ∈ found.rightPower?, Word.suffix? needed last = none) → (tail = true → Word.suffix? 0 last = none) →
      Word.suffix? 0 (Word.ofLeaves false true leaves ++ last) = some found ∧
        Derives [.part (.suffix found)] (Word.ofLeaves false true leaves ++ last) last copies

/-- An operand and a suffix that takes it in. -/
theorem Tree.RoundTrips.of_suffix {tree left : Tree} (found : Suffix) {parts : List Tree} {table : Bool} (power : Nat)
    (tableAllowed : Bool) (text : Bool → String) (hbuilt : tree.BuiltOf found.node (left :: parts))
    (hparts : found.Fits parts) (hleft : left.RoundTrips table)
    (htable : table = true → power ≤ left.precedence ∧ (left.kind = .table → tableAllowed = true))
    (htakes : found.TakesIn power)
    (htext : ∀ tail, Render.expression tree tail = Render.place left power tableAllowed false ++ text tail)
    (hfollows : ∀ tail after, Leaf.Follows tree.Dotted after →
      Leaf.Follows (Power.accessor ≤ power ∧ left.isWhole = false) ((text tail).toList ++ after))
    (hreads : ∀ tail, found.ReadsAs parts (text tail) tree.Dotted tail) : tree.RoundTrips table := by
  obtain ⟨-, hown, hright⟩ := powers_of_suffix hbuilt hleft.isExpression hparts
  refine ⟨?_, fun tail => ?_⟩
  · rw [Tree.isExpression, hbuilt.isNode, hbuilt.kind_eq, found.isExpression_node]
    rfl
  obtain ⟨leaves, copy, hwritten, hexpression, hbare, hoperand⟩ := hleft.place power tableAllowed false htable
  obtain ⟨behind, copies, hending, hbares, htidy, hsuffix⟩ := hreads tail
  have hword : ∀ part ∈ copy :: copies, part.isTrivia = false :=
    List.forall_mem_cons.mpr ⟨isTrivia_of_isExpression hexpression, htidy⟩
  refine ⟨leaves ++ behind, .node found.node (copy :: copies), ?_, ?_, ?_, fun joined phrase last hfits => ?_⟩
  · rw [htext, String.toList_append]
    exact hwritten.append hending fun after hafter => (hfollows tail after hafter).imp fun hdot => ⟨rfl, hdot⟩
  · exact found.isExpression_node
  · rw [(builtOf_node _ hword).bare_eq, hbuilt.bare_eq, List.map_cons, List.map_cons, hbare, hbares]
  · obtain ⟨lower, allowed, rfl, hallowed, hlower⟩ := hfits.phrase
    obtain ⟨hfound, hderives⟩ := hsuffix last (by rw [← hright]; exact hfits.right) hfits.tail
    rw [Word.ofLeaves_ending hwritten.toEnding, List.append_assoc]
    have hchain := hoperand joined (.chain lower allowed) _
      ⟨⟨lower, allowed, rfl, hallowed, htakes.lower (hown ▸ hlower)⟩, htakes.stops hfound, by simp⟩
    exact .phrase (.chainSuffix found)
      (hchain.append (.check (Word.suffix?_eq_some_iff.mpr ⟨hfound, hown ▸ hlower⟩) hderives))
      ⟨_, builtOf_node _ hword, rfl⟩

end Squirrel
