import Squirrel.Proofs.Grammar.Derivation
import Squirrel.Proofs.Token.Literal
import Squirrel.View.Render

/-!
# Text that can stand as an operand

An expression that is put together from tokens starts and ends with a word, and its tokens stay apart as long as what
follows is something that may stand right behind an expression. Here such rows of tokens are put together to longer ones.
-/

namespace Squirrel

namespace Leaf

open Lexeme

/-- The blank between two tokens. -/
def blank : Leaf := ⟨.whitespace, " "⟩

/-- Nothing follows, or a character that may stand right behind an expression: a sign with its like behind it, and a dot
if that is allowed or no fraction follows. -/
def Follows (dotted : Prop) (after : List Char) : Prop :=
  ∀ c ∈ after.head?, followsExpression c = true ∧ (c ∈ ['+', '-'] → after.tail.head? = some c) ∧
    (c = '.' → dotted ∨ startsFraction after.tail = false)

/-- The leaves make up a text that ends as an expression does. -/
structure Ending (leaves : List Leaf) (text : List Char) (dotted : Prop) : Prop where
  chars : chars leaves = text
  ends : ∃ front last, leaves = front ++ [last] ∧ last.kind.isTrivia = false
  apart : ∀ after, Follows dotted after → Apart leaves after

/-- A row of leaves starts with a word, and its text as an expression may. -/
def Begins (leaves : List Leaf) (text : List Char) : Prop :=
  ∃ first rest c more, leaves = first :: rest ∧ first.kind.isTrivia = false ∧ text = c :: more ∧
    opensExpression c = true ∧ (State.isFoldable ⟨first.kind, 0, first.text⟩ = true → isDecimal c = true)

/-- The leaves make up a text that can stand as an operand. -/
structure Written (leaves : List Leaf) (text : List Char) (dotted : Prop) : Prop extends Ending leaves text dotted where
  begins : Begins leaves text

/-! ### Tokens in front of others -/

theorem stopsAt_of_forall {kind : Kind} {test : Char → Bool} (hlow : ∀ c, test c = true → c.toNat < 128)
    (hall : ∀ n < 128, (!test (Char.ofNat n) || stopsAt kind (Char.ofNat n)) = true) (c : Char) (hc : test c = true) :
    stopsAt kind c = true := by
  have hchar := hall c.toNat (hlow c hc)
  rwa [Char.ofNat_toNat, hc, Bool.not_true, Bool.false_or] at hchar

/-- A blank in front of anything else. -/
theorem standsBefore_blank {after : List Char} (hafter : ∀ c ∈ after.head?, isBlank c = false) :
    blank.StandsBefore after := by
  have hresidue : Pattern.residue patterns blank.text.toList = [(.whitespace, .many (.one isBlank))] := rfl
  have hfirst : Pattern.FirstMatch patterns blank.text.toList .whitespace := by
    rw [← List.append_nil blank.text.toList, ← Pattern.firstMatch_residue, hresidue]
    exact .inl ⟨.done, rfl⟩
  refine ⟨by decide, first_append hfirst rfl fun c hmem more other hother => ?_, rfl⟩
  rw [← Pattern.firstMatch_residue, hresidue] at hother
  obtain ⟨pattern, hpattern, hmatches⟩ := hother.exists_mem
  obtain ⟨-, rfl⟩ := Prod.mk.inj (List.mem_singleton.mp hpattern)
  have hblank := Pattern.forall_of_matches_many_one hmatches c List.mem_cons_self
  rw [hafter c hmem] at hblank
  exact nomatch hblank

theorem isBlank_of_opensExpression {c : Char} (hopens : opensExpression c = true) : isBlank c = false := by
  have hall : ∀ n < 128, (!opensExpression (Char.ofNat n) || !isBlank (Char.ofNat n)) = true := by decide
  have hchar := hall c.toNat (toNat_lt_of_opensExpression hopens)
  rw [Char.ofNat_toNat, hopens, Bool.not_true, Bool.false_or] at hchar
  simpa using hchar

/-- Signs that stand between blanks. -/
def isSpaced (kind : Kind) : Bool :=
  kind.spelling?.isSome && stopsAt kind ' ' && (sign kind).text.toList.head?.all fun c => !isBlank c

/-- Signs are words, and those with something on either side stand between blanks. -/
theorem isSpaced_of_mem_all : ∀ kind ∈ Kind.all, (kind.spelling?.isSome = true → kind.isTrivia = false) ∧
    ((Power.binary? kind).isSome = true ∨ Grammar.isUpdate kind = true → isSpaced kind = true) := by
  decide +kernel

theorem isTrivia_of_isSome {kind : Kind} (hspelled : kind.spelling?.isSome = true) : kind.isTrivia = false :=
  (isSpaced_of_mem_all kind (mem_all kind)).1 hspelled

theorem isTrivia_of_isSpaced {kind : Kind} (hspaced : isSpaced kind = true) : kind.isTrivia = false := by
  obtain ⟨hspaced, -⟩ := Bool.and_eq_true_iff.mp hspaced
  exact isTrivia_of_isSome (Bool.and_eq_true_iff.mp hspaced).1

theorem isSpaced_of_binary? {kind : Kind} {power : Nat} (hbinary : Power.binary? kind = some power) :
    isSpaced kind = true :=
  (isSpaced_of_mem_all kind (mem_all kind)).2 (.inl (by rw [hbinary]; rfl))

theorem isSpaced_of_isUpdate {kind : Kind} (hupdate : Grammar.isUpdate kind = true) : isSpaced kind = true :=
  (isSpaced_of_mem_all kind (mem_all kind)).2 (.inr hupdate)

/-- The characters that may stand right behind an expression. -/
def followers : List Char := [' ', '(', ')', '[', ']', '.', ',', '+', '-']

theorem mem_followers {c : Char} (hfollows : followsExpression c = true) : c ∈ followers := by
  rwa [followsExpression, decide_eq_true_eq] at hfollows

/-- Signs behind which an expression may start or a closer may stand. -/
theorem standsBefore_opener {kind : Kind} (hkind : kind ∈ [.parenOpen, .bracketOpen]) {c : Char}
    (hc : opensExpression c = true ∨ followsExpression c = true) (after : List Char) :
    (sign kind).StandsBefore (c :: after) := by
  have hall : ∀ kind ∈ [Kind.parenOpen, .bracketOpen], kind.spelling?.isSome = true ∧
      (∀ n < 128, (!opensExpression (Char.ofNat n) || stopsAt kind (Char.ofNat n)) = true) ∧
      followers.all (stopsAt kind) = true := by decide
  obtain ⟨hspelled, hopens, hfollows⟩ := hall kind hkind
  refine standsBefore_sign hspelled fun d hmem => ?_
  obtain rfl := Option.some.inj hmem
  obtain hc | hc := hc
  · exact stopsAt_of_forall (fun _ => toNat_lt_of_opensExpression) hopens c hc
  · exact List.all_eq_true.mp hfollows c (mem_followers hc)

/-- Signs that an expression may end with. -/
theorem standsBefore_closer {kind : Kind} (hkind : kind ∈ [.parenClose, .bracketClose, .plusPlus, .minusMinus])
    {dotted : Prop} {after : List Char} (hfollows : Follows dotted after) : (sign kind).StandsBefore after := by
  have hall : ∀ kind ∈ [Kind.parenClose, .bracketClose, .plusPlus, .minusMinus], kind.spelling?.isSome = true ∧
      followers.all (stopsAt kind) = true := by decide
  obtain ⟨hspelled, hstops⟩ := hall kind hkind
  exact standsBefore_sign hspelled fun d hmem => List.all_eq_true.mp hstops d (mem_followers (hfollows d hmem).1)

theorem standsBefore_spaced {kind : Kind} (hspaced : isSpaced kind = true) (after : List Char) :
    (sign kind).StandsBefore (' ' :: after) := by
  obtain ⟨hspaced, -⟩ := Bool.and_eq_true_iff.mp hspaced
  obtain ⟨hspelled, hstops⟩ := Bool.and_eq_true_iff.mp hspaced
  refine standsBefore_sign hspelled fun d hmem => ?_
  obtain rfl := Option.some.inj hmem
  exact hstops

/-- A dot or a double colon in front of a name. -/
theorem standsBefore_name {kind : Kind} (hkind : kind ∈ [.dot, .doubleColon]) {name : Leaf} (hname : name.IsName)
    (after : List Char) : (sign kind).StandsBefore (name.text.toList ++ after) := by
  have hall : ∀ kind ∈ [Kind.dot, .doubleColon], kind.spelling?.isSome = true ∧
      ∀ n < 128, (!isNamePart (Char.ofNat n) || stopsAt kind (Char.ofNat n)) = true := by decide
  obtain ⟨hspelled, hstops⟩ := hall kind hkind
  obtain ⟨c, rest, htext, hstart⟩ := hname.exists_cons
  refine standsBefore_sign hspelled fun d hmem => ?_
  rw [htext] at hmem
  obtain rfl := Option.some.inj hmem
  exact stopsAt_of_forall (fun _ => toNat_lt_of_isNamePart) hstops c (by rw [isNamePart, hstart, Bool.true_or])

theorem IsName.standsBefore_of_follows {name : Leaf} (hname : name.IsName) {dotted : Prop} {after : List Char}
    (hfollows : Follows dotted after) : name.StandsBefore after := by
  refine hname.standsBefore fun c hmem => ?_
  have hall : (followers.all fun c => !isNamePart c) = true := by decide
  simpa using List.all_eq_true.mp hall c (mem_followers (hfollows c hmem).1)

/-- A prefix operator in front of an operand that it does not fuse with. -/
theorem standsBefore_operand {kind : Kind} (hsign : TokenSet.prefixOperators.contains kind = true) {operand : String}
    {c : Char} {more : List Char} (hoperand : operand.toList = c :: more) (hopens : opensExpression c = true)
    (hspace : Render.needsSpace kind operand = false) (after : List Char) :
    (sign kind).StandsBefore (operand.toList ++ after) := by
  have hall : ∀ kind ∈ Kind.all, TokenSet.prefixOperators.contains kind = true → kind.spelling?.isSome = true ∧
      ∀ n < 128, (!opensExpression (Char.ofNat n) || Render.needsSpace kind (String.ofList [Char.ofNat n]) ||
        stopsAt kind (Char.ofNat n)) = true := by decide +kernel
  obtain ⟨hspelled, hstops⟩ := hall kind (mem_all kind) hsign
  refine standsBefore_sign hspelled fun d hmem => ?_
  rw [hoperand] at hmem
  obtain rfl := Option.some.inj hmem
  have hfirst : Render.needsSpace kind (String.ofList [c]) = Render.needsSpace kind operand := by
    rw [Render.needsSpace, Render.needsSpace, hoperand, String.toList_ofList, List.head?_cons, List.head?_cons]
  have hchar := hstops c.toNat (toNat_lt_of_opensExpression hopens)
  rwa [Char.ofNat_toNat, hopens, hfirst, hspace, Bool.not_true, Bool.false_or, Bool.false_or] at hchar

/-- Signs that an expression may start with. -/
def isOpener (kind : Kind) : Bool :=
  !kind.isTrivia && !State.isFoldable ⟨kind, 0, (sign kind).text⟩ && (sign kind).text.toList.head?.any opensExpression

theorem begins_sign {kind : Kind} (hopener : isOpener kind = true) (rest : List Leaf) (more : List Char) :
    Begins (sign kind :: rest) ((sign kind).text.toList ++ more) := by
  obtain ⟨hkind, hhead⟩ := Bool.and_eq_true_iff.mp hopener
  obtain ⟨hword, hnumber⟩ := Bool.and_eq_true_iff.mp hkind
  obtain ⟨c, hfirst, hopens⟩ := (Option.any_eq_true _ _).mp hhead
  obtain ⟨others, htext⟩ := List.head?_eq_some_iff.mp hfirst
  refine ⟨sign kind, rest, c, others ++ more, rfl, by simpa [sign] using hword, by rw [htext]; rfl, hopens, fun hfolds => ?_⟩
  rw [show State.isFoldable ⟨kind, 0, (sign kind).text⟩ = true from hfolds] at hnumber
  cases hnumber

/-! ### Putting texts together -/

theorem Follows.imp {dotted behind : Prop} (himp : behind → dotted) {after : List Char} (hfollows : Follows behind after) :
    Follows dotted after :=
  fun c hmem => ⟨(hfollows c hmem).1, (hfollows c hmem).2.1, fun hdot => ((hfollows c hmem).2.2 hdot).imp_left himp⟩

theorem follows_cons {dotted : Prop} {c : Char} {rest : List Char} (hfollows : followsExpression c = true)
    (hplain : c ∉ ['+', '-', '.']) : Follows dotted (c :: rest) := by
  intro d hmem
  obtain rfl := Option.some.inj hmem
  exact ⟨hfollows, fun hsign => absurd (List.mem_append_left ['.'] hsign) hplain, fun hdot => absurd (by simp [hdot]) hplain⟩

/-- A dot with a name behind it goes on as a float only if the name starts with an exponent. -/
theorem IsName.startsFraction_eq_false {name : Leaf} (hname : name.IsName)
    (hplain : startsExponent name.text.toList = false) {dotted : Prop} {after : List Char} (hfollows : Follows dotted after) :
    startsFraction (name.text.toList ++ after) = false := by
  have hfirst := hname.text
  obtain ⟨c, rest, htext, hstart⟩ := hname.exists_cons
  rw [htext] at hfirst hplain ⊢
  have hparts := isNamePart_of_firstMatch hstart hfirst
  have hletter : isDecimal c = false := by
    have hall : ∀ n < 128, (!isNameStart (Char.ofNat n) || !isDecimal (Char.ofNat n)) = true := by decide
    have hchar := hall c.toNat (toNat_lt_of_isNamePart (hparts c List.mem_cons_self))
    rw [Char.ofNat_toNat, hstart] at hchar
    simpa using hchar
  have hnoDigit : ∀ d ∈ after.head?, isDecimal d = false := by
    have hall : (followers.all fun d => !isDecimal d) = true := by decide
    intro d hmem
    simpa using List.all_eq_true.mp hall d (mem_followers (hfollows d hmem).1)
  cases rest with
  | nil =>
    cases after with
    | nil => simp [startsFraction, startsExponent, hletter]
    | cons d more =>
      have hd := hnoDigit d rfl
      have hsign : (d = '+' ∨ d = '-') → more.head? = some d := by simpa using (hfollows d rfl).2.1
      by_cases hsigned : d = '+' ∨ d = '-'
      · simp [startsFraction, startsExponent, hletter, hd, hsign hsigned]
      · simp [startsFraction, startsExponent, hletter, hd, hsigned]
  | cons d more =>
    have hunsigned : ¬(d = '+' ∨ d = '-') := by
      have hpart := hparts d (by simp)
      rintro (rfl | rfl)
      all_goals cases hpart
    simpa [startsFraction, startsExponent, hletter, hunsigned] using hplain

/-- A sign between blanks. -/
def between (kind : Kind) : List Leaf := [blank, sign kind, blank]

theorem chars_between (kind : Kind) : chars (between kind) = ' ' :: (sign kind).text.toList ++ [' '] := rfl

theorem apart_between {kind : Kind} (hspaced : isSpaced kind = true) {c : Char} {after : List Char}
    (hopens : opensExpression c = true) : Apart (between kind) (c :: after) := by
  refine ⟨standsBefore_blank fun d hmem => ?_, standsBefore_spaced hspaced _, standsBefore_blank fun d hmem => ?_, trivial⟩
  · obtain ⟨-, hhead⟩ := Bool.and_eq_true_iff.mp hspaced
    obtain ⟨e, more, htext⟩ := List.exists_cons_of_ne_nil (standsBefore_spaced hspaced []).nonempty
    rw [chars_cons, htext] at hmem
    obtain rfl := Option.some.inj hmem
    rw [htext] at hhead
    simpa using hhead
  · obtain rfl := Option.some.inj hmem
    exact isBlank_of_opensExpression hopens

namespace Ending

variable {left right : List Leaf} {leftText rightText : List Char} {dotted behind : Prop}

theorem imp (hending : Ending left leftText dotted) (himp : behind → dotted) : Ending left leftText behind :=
  ⟨hending.chars, hending.ends, fun after hafter => hending.apart after (hafter.imp himp)⟩

/-- Leaves are put in front of others that they stay apart from. -/
theorem append (hright : Ending right rightText behind) (hleft : Leaf.chars left = leftText)
    (hapart : ∀ after, Follows behind after → Apart left (rightText ++ after)) :
    Ending (left ++ right) (leftText ++ rightText) behind where
  chars := by rw [chars_append, hleft, hright.chars]
  ends := by
    obtain ⟨front, last, rfl, hword⟩ := hright.ends
    exact ⟨left ++ front, last, (List.append_assoc ..).symm, hword⟩
  apart after hafter := .append (hright.chars ▸ hapart after hafter) (hright.apart after hafter)

theorem cons {leaf : Leaf} (hright : Ending right rightText behind)
    (hbefore : ∀ after, leaf.StandsBefore (rightText ++ after)) :
    Ending (leaf :: right) (leaf.text.toList ++ rightText) behind := by
  have hchars : Leaf.chars [leaf] = leaf.text.toList := by rw [chars_cons, chars_nil, List.append_nil]
  exact hright.append hchars fun after _ => ⟨hbefore after, trivial⟩

/-- A token at the end. -/
theorem single {leaf : Leaf} (hword : leaf.kind.isTrivia = false)
    (hbefore : ∀ after, Follows behind after → leaf.StandsBefore after) : Ending [leaf] leaf.text.toList behind where
  chars := by rw [chars_cons, chars_nil, List.append_nil]
  ends := ⟨[], leaf, rfl, hword⟩
  apart after hafter := ⟨hbefore after hafter, trivial⟩

/-- A token that an expression may end with. -/
theorem closer {kind : Kind} (hkind : kind ∈ [.parenClose, .bracketClose, .plusPlus, .minusMinus]) :
    Ending [sign kind] (sign kind).text.toList behind := by
  refine single ?_ fun after hafter => standsBefore_closer hkind hafter
  have hall : ∀ kind ∈ [Kind.parenClose, .bracketClose, .plusPlus, .minusMinus], (sign kind).kind.isTrivia = false := by
    decide
  exact hall kind hkind

theorem name {leaf : Leaf} (hname : leaf.IsName) : Ending [leaf] leaf.text.toList behind :=
  single (by rw [hname.kind]; rfl) fun _ hafter => hname.standsBefore_of_follows hafter

end Ending

namespace Written

variable {left right : List Leaf} {leftText rightText : List Char} {dotted behind : Prop}

theorem imp (hwritten : Written left leftText dotted) (himp : behind → dotted) : Written left leftText behind :=
  ⟨hwritten.toEnding.imp himp, hwritten.begins⟩

theorem exists_cons (hwritten : Written right rightText dotted) :
    ∃ c more, rightText = c :: more ∧ opensExpression c = true := by
  obtain ⟨-, -, c, more, -, -, htext, hopens, -⟩ := hwritten.begins
  exact ⟨c, more, htext, hopens⟩

/-- Something that may follow an expression is put behind it. -/
theorem append (hleft : Written left leftText dotted) (hright : Ending right rightText behind)
    (hfollows : ∀ after, Follows behind after → Follows dotted (rightText ++ after)) :
    Written (left ++ right) (leftText ++ rightText) behind where
  toEnding := hright.append hleft.chars fun after hafter => hleft.apart _ (hfollows after hafter)
  begins := by
    obtain ⟨first, rest, c, more, rfl, hword, rfl, hopens⟩ := hleft.begins
    exact ⟨first, rest ++ right, c, more ++ rightText, rfl, hword, rfl, hopens⟩

/-- A sign between blanks is put before an expression. -/
theorem behind_spaced {kind : Kind} (hright : Written right rightText behind) (hspaced : isSpaced kind = true) :
    Ending (between kind ++ right) (' ' :: (sign kind).text.toList ++ [' '] ++ rightText) behind := by
  obtain ⟨c, more, rfl, hopens⟩ := hright.exists_cons
  exact hright.toEnding.append (chars_between kind) fun after _ => apart_between hspaced hopens

/-- Two expressions with a sign between them. -/
theorem spaced {kind : Kind} (hleft : Written left leftText dotted) (hright : Written right rightText behind)
    (hspaced : isSpaced kind = true) : Written (left ++ (between kind ++ right))
      (leftText ++ (' ' :: (sign kind).text.toList ++ [' '] ++ rightText)) behind :=
  hleft.append (hright.behind_spaced hspaced) fun after _ => follows_cons (by decide) (by decide)

/-- A sign is put before an expression. -/
theorem cons {kind : Kind} (hright : Written right rightText dotted) (hopener : isOpener kind = true)
    (hbefore : ∀ after, (sign kind).StandsBefore (rightText ++ after)) :
    Written (sign kind :: right) ((sign kind).text.toList ++ rightText) dotted :=
  ⟨hright.toEnding.cons hbefore, begins_sign hopener right rightText⟩

/-- A sign and a blank are put before an expression. -/
theorem cons_blank {kind : Kind} (hright : Written right rightText dotted) (hopener : isOpener kind = true)
    (hspaced : isSpaced kind = true) :
    Written (sign kind :: blank :: right) ((sign kind).text.toList ++ ' ' :: rightText) dotted := by
  obtain ⟨c, more, rfl, hopens⟩ := hright.exists_cons
  have hblank : Ending (blank :: right) (' ' :: c :: more) dotted :=
    hright.toEnding.cons fun after => standsBefore_blank fun d hmem => by
      obtain rfl := Option.some.inj hmem
      exact isBlank_of_opensExpression hopens
  exact ⟨hblank.cons fun after => standsBefore_spaced hspaced _, begins_sign hopener _ _⟩

/-- Two arguments with a comma between them. -/
theorem comma (hleft : Written left leftText dotted) (hright : Written right rightText behind) :
    Written (left ++ sign .comma :: blank :: right) (leftText ++ (", ".toList ++ rightText)) behind := by
  obtain ⟨c, more, rfl, hopens⟩ := hright.exists_cons
  have hblank : Ending (blank :: right) (' ' :: c :: more) behind :=
    hright.toEnding.cons fun after => standsBefore_blank fun d hmem => by
      obtain rfl := Option.some.inj hmem
      exact isBlank_of_opensExpression hopens
  have hcomma : Ending (sign .comma :: blank :: right) (',' :: ' ' :: c :: more) behind :=
    hblank.cons fun after => standsBefore_spaced (by decide) _
  exact hleft.append hcomma fun after _ => follows_cons (by decide) (by decide)

/-- A name by itself. -/
theorem name {leaf : Leaf} (hname : leaf.IsName) : Written [leaf] leaf.text.toList True where
  toEnding := .name hname
  begins := by
    obtain ⟨c, more, htext, hstart⟩ := hname.exists_cons
    refine ⟨leaf, [], c, more, rfl, by rw [hname.kind]; rfl, htext, ?_, fun hfolds => ?_⟩
    · rw [opensExpression, isNamePart, hstart, Bool.true_or, Bool.true_or]
    · simp [State.isFoldable, hname.kind] at hfolds

end Written

/-! ### Brackets -/

/-- What may stand between an opener and a closer: nothing, or something that is written like an expression. -/
def Enclosed (leaves : List Leaf) (text : List Char) : Prop :=
  leaves = [] ∧ text = [] ∨ ∃ dotted, Written leaves text dotted

/-- The pairs of brackets of accessors and calls. -/
def isBrackets (opener closer : Kind) : Bool :=
  (opener, closer) ∈ [(.parenOpen, .parenClose), (.bracketOpen, .bracketClose)]

theorem toList_brackets (opener closer : Kind) (text : String) :
    ((sign opener).text ++ text ++ (sign closer).text).toList
      = (sign opener).text.toList ++ (text.toList ++ (sign closer).text.toList) := by
  rw [String.toList_append, String.toList_append, List.append_assoc]

theorem Enclosed.ending {leaves : List Leaf} {text : List Char} {opener closer : Kind} {behind : Prop}
    (henclosed : Enclosed leaves text) (hbrackets : isBrackets opener closer = true) :
    Ending (sign opener :: (leaves ++ [sign closer]))
      ((sign opener).text.toList ++ (text ++ (sign closer).text.toList)) behind := by
  obtain ⟨hopener, hcloser, close, hclose, hfollows, hdot⟩ : opener ∈ [Kind.parenOpen, .bracketOpen] ∧
      closer ∈ [Kind.parenClose, .bracketClose, .plusPlus, .minusMinus] ∧
      ∃ close, (sign closer).text.toList = [close] ∧ followsExpression close = true ∧ close ∉ ['+', '-', '.'] := by
    have hpair : opener = .parenOpen ∧ closer = .parenClose ∨ opener = .bracketOpen ∧ closer = .bracketClose := by
      simpa using of_decide_eq_true hbrackets
    rcases hpair with ⟨rfl, rfl⟩ | ⟨rfl, rfl⟩
    · exact ⟨by decide, by decide, ')', rfl, by decide, by decide⟩
    · exact ⟨by decide, by decide, ']', rfl, by decide, by decide⟩
  obtain ⟨rfl, rfl⟩ | ⟨dotted, hwritten⟩ := henclosed
  · refine (Ending.closer hcloser).cons fun after => ?_
    rw [hclose]
    exact standsBefore_opener hopener (.inr hfollows) after
  · refine ((Ending.closer hcloser).append hwritten.chars fun after _ => ?_).cons fun after => ?_
    · rw [hclose]
      exact hwritten.apart _ (follows_cons hfollows hdot)
    · obtain ⟨c, more, rfl, hopens⟩ := hwritten.exists_cons
      exact standsBefore_opener hopener (.inl hopens) _

end Leaf

end Squirrel
