import Mathlib.Data.List.Nodup
import Squirrel.Proofs.Token.Lexeme
import Squirrel.Proofs.Token.Row

/-!
# What a token may stand next to

A token stays what it is in front of a character with which no lexeme goes on. For a token with a spelling this is a
computation: what remains of the patterns after its spelling and the character. A name goes on with the characters of
names only.
-/

namespace Squirrel

namespace Pattern

variable {κ : Type}

/-- What remains of some rules behind a text. -/
def residue (rules : List (κ × Pattern)) (text : List Char) : List (κ × Pattern) :=
  text.foldl (fun rules c => rules.filterMap fun (name, pattern) =>
    let next := pattern.derivative c
    if next.isNever then none else Option.some (name, next)) rules

theorem firstMatch_residue {rules : List (κ × Pattern)} {text more : List Char} {name : κ} :
    FirstMatch (residue rules text) more name ↔ FirstMatch rules (text ++ more) name := by
  induction text generalizing rules with
  | nil => rfl
  | cons c rest ih => rw [List.cons_append, ← firstMatch_derivative_iff, ← ih, residue, List.foldl_cons, residue]

end Pattern

namespace Lexeme

open Pattern

/-! ### Where lexemes end -/

/-- No lexeme starts with the text and goes on with the character. -/
def EndsAt (text : List Char) (c : Char) : Prop := ∀ more other, ¬FirstMatch patterns (text ++ c :: more) other

theorem endsAt_of_residue {text : List Char} {c : Char} (hnone : (residue patterns (text ++ [c])).isEmpty = true) :
    EndsAt text c := by
  intro more other hfirst
  rw [show text ++ c :: more = (text ++ [c]) ++ more by simp, ← firstMatch_residue,
    List.isEmpty_iff.mp hnone] at hfirst
  exact hfirst

/-- Kinds of tokens that are recognized by their pattern alone. -/
def isPlain (kind : Kind) : Bool :=
  kind ∉ [.blockCommentStart, .lineCommentStart, .stringStart, .verbatimStart, .charStart]

/-- What one rule matches stays the longest match in front of a text that no lexeme takes in a part of. -/
theorem longest_append_of_starts {text after : List Char} {kind : Kind} (hfirst : FirstMatch patterns text kind)
    (hends : ∀ c more, c :: more <+: after → ∀ other, ¬FirstMatch patterns (text ++ c :: more) other) :
    Longest patterns (text ++ after) kind text.length := by
  refine ⟨by simp, by rwa [List.take_left], fun longer hlt hle other hother => ?_⟩
  cases after with
  | nil =>
    rw [List.append_nil] at hle
    exact absurd hlt (Nat.not_lt.mpr hle)
  | cons c rest =>
    obtain ⟨extra, rfl⟩ := Nat.exists_eq_add_of_lt hlt
    have htake : (text ++ c :: rest).take (text.length + extra + 1) = text ++ c :: rest.take extra := by
      rw [Nat.add_assoc, List.take_length_add_append, List.take_succ_cons]
    exact hends c _ (List.cons_prefix_cons.mpr ⟨rfl, List.take_prefix extra rest⟩) other (htake ▸ hother)

/-- So it does in front of a character with which no lexeme goes on. -/
theorem longest_append {text after : List Char} {kind : Kind} (hfirst : FirstMatch patterns text kind)
    (hends : ∀ c ∈ after.head?, EndsAt text c) : Longest patterns (text ++ after) kind text.length := by
  refine longest_append_of_starts hfirst fun c more hstarts => hends c ?_ more
  obtain ⟨rest, rfl⟩ := hstarts
  rfl

theorem first_of_longest {text after : List Char} {kind : Kind}
    (hlongest : Longest patterns (text ++ after) kind text.length) (hplain : isPlain kind = true) :
    first (text ++ after) = (.token kind, text.length) := by
  rw [first, match?, longest?_eq_some_iff.mpr hlongest]
  simp only [isPlain, List.mem_cons, List.not_mem_nil, or_false, not_or, decide_eq_true_eq] at hplain
  obtain ⟨h1, h2, h3, h4, h5⟩ := hplain
  simp [resolve]

theorem first_append {text after : List Char} {kind : Kind} (hfirst : FirstMatch patterns text kind)
    (hplain : isPlain kind = true) (hends : ∀ c ∈ after.head?, EndsAt text c) :
    first (text ++ after) = (.token kind, text.length) :=
  first_of_longest (longest_append hfirst hends) hplain

/-! ### Characters -/

/-- The characters of names. -/
def isNamePart (c : Char) : Bool := isNameStart c || isDecimal c

/-- The characters that expressions start with. -/
def opensExpression (c : Char) : Bool := isNamePart c || c ∈ [':', '(', '-', '+', '!', '~', '"', '\'', '@', '[', '{']

/-- The characters that may stand right behind an expression. -/
def followsExpression (c : Char) : Bool := c ∈ [' ', '(', ')', '[', ']', '.', ',', '+', '-']

/-- What holds of the first 128 characters holds of each of them. -/
theorem of_forall_ascii {test : Char → Bool} (hall : ∀ n < 128, test (Char.ofNat n) = true) {c : Char}
    (hc : c.toNat < 128) : test c = true := by
  have hchar := hall c.toNat hc
  rwa [Char.ofNat_toNat] at hchar

theorem toNat_lt_of_isNamePart {c : Char} (hpart : isNamePart c = true) : c.toNat < 128 := by
  simp only [isNamePart, isNameStart, isDecimal, inRange, Bool.or_eq_true, Bool.and_eq_true, decide_eq_true_eq,
    beq_iff_eq, Char.le_def, UInt32.le_iff_toNat_le] at hpart
  obtain ((⟨-, hle⟩ | ⟨-, hle⟩) | rfl) | ⟨-, hle⟩ := hpart
  · exact Nat.lt_of_le_of_lt hle (by decide)
  · exact Nat.lt_of_le_of_lt hle (by decide)
  · decide
  · exact Nat.lt_of_le_of_lt hle (by decide)

theorem toNat_lt_of_opensExpression {c : Char} (hopens : opensExpression c = true) : c.toNat < 128 := by
  rw [opensExpression, Bool.or_eq_true, decide_eq_true_eq] at hopens
  obtain hpart | hmem := hopens
  · exact toNat_lt_of_isNamePart hpart
  · have hall : ([':', '(', '-', '+', '!', '~', '"', '\'', '@', '[', '{'].all (·.toNat < 128)) = true := by decide
    exact of_decide_eq_true (List.all_eq_true.mp hall c hmem)

/-! ### Tokens with a spelling -/

/-- No lexeme starts with the spelling of a kind and goes on with the character. -/
def stopsAt (kind : Kind) (c : Char) : Bool :=
  kind.spelling?.all fun spelling => (residue patterns (spelling.toList ++ [c])).isEmpty

theorem mem_all (kind : Kind) : kind ∈ Kind.all :=
  List.mem_map.mpr ⟨kind.number, List.mem_range.mpr (Kind.number_lt kind),
    (by have hsome := Kind.ofNumber?_number kind; rw [Kind.ofNumber?, if_pos (Kind.number_lt kind)] at hsome
        exact Option.some.inj hsome)⟩

/-- Kinds differ in their spellings. -/
theorem eq_of_spelling? {left right : Kind} {spelling : String} (hleft : left.spelling? = Option.some spelling)
    (hright : right.spelling? = Option.some spelling) : left = right := by
  have hnodup : ((Kind.all.filter (·.spelling?.isSome)).map Kind.spelling?).Nodup := by decide +kernel
  have hmem {kind : Kind} (hkind : kind.spelling? = Option.some spelling) : kind ∈ Kind.all.filter (·.spelling?.isSome) :=
    List.mem_filter.mpr ⟨mem_all kind, by rw [hkind]; rfl⟩
  exact List.inj_on_of_nodup_map hnodup (hmem hleft) (hmem hright) (hleft.trans hright.symm)

/-- The spelling of a kind is one lexeme of the kind: the spellings stand before all other patterns. -/
theorem firstMatch_spelling {kind : Kind} {spelling : String} (hspelling : kind.spelling? = Option.some spelling) :
    FirstMatch patterns spelling.toList kind := by
  have hmem : (kind, ofString spelling) ∈
      Kind.all.filterMap fun kind => kind.spelling?.map fun text => (kind, ofString text) :=
    List.mem_filterMap.mpr ⟨kind, mem_all kind, by rw [hspelling]; rfl⟩
  obtain ⟨found, hfirst⟩ := exists_firstMatch hmem (matches_ofString_iff.mpr rfl)
  obtain ⟨pattern, hfound, hmatches⟩ := hfirst.exists_mem
  obtain ⟨other, -, hother⟩ := List.mem_filterMap.mp hfound
  obtain ⟨text, htext, hpair⟩ := Option.map_eq_some_iff.mp hother
  obtain ⟨rfl, rfl⟩ := Prod.mk.inj hpair
  obtain rfl := String.toList_inj.mp (matches_ofString_iff.mp hmatches)
  obtain rfl := eq_of_spelling? htext hspelling
  exact hfirst.append _

/-- The patterns of the kinds without a spelling. -/
def openPatterns : List (Kind × Pattern) := patterns.filter fun rule => rule.1.spelling?.isNone

theorem mem_openPatterns {rule : Kind × Pattern} (hmem : rule ∈ patterns) (hnone : rule.1.spelling? = none) :
    rule ∈ openPatterns :=
  List.mem_filter.mpr ⟨hmem, by rw [hnone]; rfl⟩

theorem endsAt_of_stopsAt {kind : Kind} {spelling : String} {c : Char}
    (hspelling : kind.spelling? = Option.some spelling) (hstops : stopsAt kind c = true) :
    EndsAt spelling.toList c := by
  rw [stopsAt, hspelling, Option.all_some] at hstops
  exact endsAt_of_residue hstops

end Lexeme

namespace Leaf

open Lexeme

/-- The token of a kind with a spelling. -/
def sign (kind : Kind) : Leaf := ⟨kind, kind.spelling?.getD ""⟩

@[simp] theorem kind_sign (kind : Kind) : (sign kind).kind = kind := rfl

theorem standsBefore_sign {kind : Kind} {after : List Char} (hspelled : kind.spelling?.isSome = true)
    (hstops : ∀ c ∈ after.head?, stopsAt kind c = true) : (sign kind).StandsBefore after := by
  obtain ⟨spelling, hspelling⟩ := Option.isSome_iff_exists.mp hspelled
  have htext : (sign kind).text = spelling := by rw [sign, hspelling, Option.getD_some]
  have hmatch := firstMatch_spelling hspelling
  have hplain : isPlain kind = true ∧ literalError? kind spelling = none := by
    cases kind with
    | blockCommentStart | lineCommentStart | stringStart | verbatimStart | charStart | integerLit | floatLit | stringLit
    | charLit => exact nomatch hspelling
    | _ => exact ⟨rfl, rfl⟩
  refine ⟨fun hnil => ?_, ?_, by rw [htext]; exact hplain.2⟩
  · rw [htext] at hnil
    exact not_firstMatch_nil kind (hnil ▸ hmatch)
  · rw [htext]
    exact first_append hmatch hplain.1 fun c hmem => endsAt_of_stopsAt hspelling (hstops c hmem)

end Leaf

/-! ### Names -/

theorem Pattern.forall_of_matches_many_one {allowed : Char → Bool} {text : List Char}
    (hmatches : Matches (many (one allowed)) text) : ∀ c ∈ text, allowed c = true := by
  induction text with
  | nil => exact nofun
  | cons c rest ih =>
    obtain ⟨start, others, rfl, hone, hmany⟩ := matches_many_cons_iff.mp hmatches
    obtain ⟨d, hstart, hallowed⟩ := matches_one_iff.mp hone
    obtain ⟨rfl, rfl⟩ := List.cons.inj hstart
    exact List.forall_mem_cons.mpr ⟨hallowed, ih hmany⟩

namespace Lexeme

open Pattern

theorem not_matches_of_isNever {pattern : Pattern} {c : Char} (hnever : (pattern.derivative c).isNever = true)
    (rest : List Char) : ¬Matches pattern (c :: rest) := by
  intro hmatches
  have hnext := matches_derivative_iff.mpr hmatches
  cases hderivative : pattern.derivative c with
  | never =>
    rw [hderivative] at hnext
    exact absurd hnext (not_matches_never rest)
  | _ => simp [hderivative, Pattern.isNever] at hnever

/-- A lexeme that starts like a name has the characters of names only. -/
theorem isNamePart_of_firstMatch {c : Char} {rest : List Char} {kind : Kind} (hstart : isNameStart c = true)
    (hfirst : FirstMatch patterns (c :: rest) kind) : ∀ d ∈ c :: rest, isNamePart d = true := by
  have hrules : ∀ rule ∈ openPatterns, rule.1 = .id ∨
      ∀ n < 128, (!isNameStart (Char.ofNat n) || (rule.2.derivative (Char.ofNat n)).isNever) = true := by
    decide
  have hspellings : ∀ kind ∈ Kind.all, kind.spelling?.all (fun spelling =>
      !(spelling.toList.head?.any isNameStart) || spelling.toList.all isNamePart) = true := by
    decide +kernel
  obtain ⟨pattern, hmem, hmatches⟩ := hfirst.exists_mem
  cases hspelling : kind.spelling? with
  | some spelling =>
    have hparts := hspellings kind (mem_all kind)
    rw [hspelling, Option.all_some, ← matches_of_spelling hspelling hfirst, List.head?_cons, Option.any_some,
      hstart] at hparts
    exact List.all_eq_true.mp hparts
  | none =>
    obtain rfl | hnever := hrules _ (mem_openPatterns hmem hspelling)
    · obtain ⟨pattern, hmem, hmatches⟩ := mem_patternsOf hfirst
      obtain rfl := List.mem_singleton.mp hmem
      obtain ⟨start, others, htext, hone, hmany⟩ := matches_seq_iff.mp hmatches
      obtain ⟨d, rfl, -⟩ := matches_one_iff.mp hone
      obtain ⟨rfl, rfl⟩ := List.cons.inj htext
      have hothers : ∀ d ∈ rest, isNamePart d = true := forall_of_matches_many_one hmany
      exact List.forall_mem_cons.mpr ⟨by rw [isNamePart, hstart, Bool.true_or], hothers⟩
    · have hstarts : c.toNat < 128 := toNat_lt_of_isNamePart (by rw [isNamePart, hstart, Bool.true_or])
      have hnot := hnever c.toNat hstarts
      rw [Char.ofNat_toNat, hstart, Bool.not_true, Bool.false_or] at hnot
      exact absurd hmatches (not_matches_of_isNever hnot rest)

end Lexeme

namespace Leaf

open Lexeme

/-- A name: a token that no keyword looks like. -/
structure IsName (leaf : Leaf) : Prop where
  kind : leaf.kind = .id
  text : Pattern.FirstMatch patterns leaf.text.toList .id

/-- A text that computing finds to be a name. -/
theorem isName_of_residue {name : String}
    (hfound : ((Pattern.residue patterns name.toList).find? (·.2.nullable)).map (·.1) = some .id) :
    IsName ⟨.id, name⟩ := by
  refine ⟨rfl, ?_⟩
  rw [← List.append_nil name.toList, ← Pattern.firstMatch_residue]
  exact Pattern.firstMatch_nil_iff.mpr hfound

namespace IsName

variable {leaf : Leaf} (hname : leaf.IsName)

include hname

theorem exists_cons : ∃ c rest, leaf.text.toList = c :: rest ∧ isNameStart c = true := by
  obtain ⟨pattern, hmem, hmatches⟩ := mem_patternsOf hname.text
  obtain rfl := List.mem_singleton.mp hmem
  obtain ⟨start, others, htext, hone, -⟩ := Pattern.matches_seq_iff.mp hmatches
  obtain ⟨c, rfl, hstart⟩ := Pattern.matches_one_iff.mp hone
  exact ⟨c, others, htext, hstart⟩

theorem standsBefore {after : List Char} (hafter : ∀ c ∈ after.head?, isNamePart c = false) :
    leaf.StandsBefore after := by
  obtain ⟨c, rest, htext, hstart⟩ := hname.exists_cons
  refine ⟨by rw [htext]; exact List.cons_ne_nil c rest, ?_, by rw [hname.kind]; rfl⟩
  rw [hname.kind]
  refine first_append hname.text rfl fun d hmem more other hother => ?_
  rw [htext, List.cons_append] at hother
  have hpart := isNamePart_of_firstMatch hstart hother d (by simp)
  rw [hafter d hmem] at hpart
  exact nomatch hpart

end IsName

end Leaf

end Squirrel
