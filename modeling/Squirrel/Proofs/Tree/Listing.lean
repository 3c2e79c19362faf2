import Mathlib.Data.List.Forall2
import Mathlib.Data.List.Nodup
import Squirrel.Proofs.Text.Quoted
import Squirrel.Proofs.Token.Adjacent
import Squirrel.Tree.Listing

/-!
# Listings are faithful

A listing with trivia tells everything about a tree. Each line tells how deep it stands, a kind, and whether it is that of
a token, whose text it quotes. A tree covers the lines behind its own that stand deeper, so the lines tell the nesting too.
-/

namespace Squirrel

/-! ### Names of kinds -/

namespace Kind

/-- The numbers seen so far are the bits of one number, so each number is held against all of them at once. -/
def unseen (seen : Nat) : List Nat → Bool
  | [] => true
  | n :: rest => !seen.testBit n && unseen (seen ||| 1 <<< n) rest

theorem nodup_of_unseen {seen : Nat} {numbers : List Nat} (hunseen : unseen seen numbers = true) :
    numbers.Nodup ∧ ∀ n ∈ numbers, seen.testBit n = false := by
  induction numbers generalizing seen with
  | nil => exact ⟨List.nodup_nil, nofun⟩
  | cons n rest ih =>
    rw [unseen, Bool.and_eq_true, Bool.not_eq_true'] at hunseen
    obtain ⟨hnodup, hfree⟩ := ih hunseen.2
    have hrest : ∀ m ∈ rest, seen.testBit m = false ∧ n ≠ m := by
      intro m hm
      have hbit := hfree m hm
      rw [Nat.testBit_or, Nat.one_shiftLeft, Nat.testBit_two_pow, Bool.or_eq_false_iff] at hbit
      exact ⟨hbit.1, of_decide_eq_false hbit.2⟩
    exact ⟨List.nodup_cons.mpr ⟨fun hmem => (hrest n hmem).2 rfl, hnodup⟩,
      List.forall_mem_cons.mpr ⟨hunseen.1, fun m hm => (hrest m hm).1⟩⟩

/-- A small number of a name. The modulus is one under which no two names of kinds have the same. -/
def lettersHash (letters : List Char) : Nat := letters.foldl (fun hash c => hash * 256 + c.toNat) 0 % 65521

/-- The names of kinds are different words of letters. -/
theorem exists_names : ∃ names : List (List Char), all.map name = names.map String.ofList ∧
    (∀ letters ∈ names, letters ≠ [] ∧ ∀ c ∈ letters, c.isAlpha = true) ∧ names.Nodup := by
  -- the characters are read off the literals, since a kernel takes long to decode a text
  have hliteral : ∃ names : List (List Char),
      List.Forall₂ (fun kind letters => name kind = String.ofList letters) all names ∧
        names.all (fun letters => !letters.isEmpty && letters.all Char.isAlpha) = true ∧
        unseen 0 (names.map lettersHash) = true := by
    apply Exists.intro
    refine ⟨?_, ?_, ?_⟩
    · unfold all
      repeat
        apply List.Forall₂.cons
        · exact rfl
      exact List.Forall₂.nil
    · decide +kernel
    · decide +kernel
  obtain ⟨names, hnames, hwords, hunseen⟩ := hliteral
  refine ⟨names, ?_, fun letters hmem => ?_, List.Nodup.of_map _ (nodup_of_unseen hunseen).1⟩
  · rwa [← List.forall₂_eq_eq_eq, List.forall₂_map_left_iff, List.forall₂_map_right_iff]
  · have hword := List.all_eq_true.mp hwords letters hmem
    rw [Bool.and_eq_true, Bool.not_eq_true', List.isEmpty_eq_false_iff, List.all_eq_true] at hword
    exact hword

theorem exists_letters (kind : Kind) :
    ∃ letters, kind.name = String.ofList letters ∧ letters ≠ [] ∧ ∀ c ∈ letters, c.isAlpha = true := by
  obtain ⟨names, hnames, hwords, -⟩ := exists_names
  have hmem : kind.name ∈ all.map name := List.mem_map_of_mem (Lexeme.mem_all kind)
  rw [hnames] at hmem
  obtain ⟨letters, hletters, heq⟩ := List.mem_map.mp hmem
  exact ⟨letters, heq.symm, hwords letters hletters⟩

theorem isAlpha_of_mem_name (kind : Kind) : ∀ c ∈ kind.name.toList, c.isAlpha = true := by
  obtain ⟨letters, hname, -, halpha⟩ := exists_letters kind
  rwa [hname, String.toList_ofList]

theorem toList_name_ne_nil (kind : Kind) : kind.name.toList ≠ [] := by
  obtain ⟨letters, hname, hne, -⟩ := exists_letters kind
  rwa [hname, String.toList_ofList]

theorem name_inj {kind other : Kind} (heq : kind.name = other.name) : kind = other := by
  obtain ⟨names, hnames, -, hnodup⟩ := exists_names
  have hnodup : (all.map name).Nodup := hnames ▸ hnodup.map fun _ _ => String.ofList_injective
  exact List.inj_on_of_nodup_map hnodup (Lexeme.mem_all kind) (Lexeme.mem_all other) heq

end Kind

namespace Listing

/-! ### Lines -/

/-- What a line tells: how deep it stands, the kind of its node or token, and the text if it is a token's. -/
structure Entry where
  depth : Nat
  kind : Kind
  text? : Option String

namespace Entry

/-- What stands behind the name of the kind. -/
def behind (entry : Entry) : List Char :=
  match entry.text? with
  | some text => ' ' :: (Text.quote text).toList
  | none => []

def line (entry : Entry) : List Char :=
  (List.replicate (2 * entry.depth) ' ') ++ (entry.kind.name.toList ++ entry.behind)

theorem behind_inj {entry other : Entry} (heq : entry.behind = other.behind) : entry.text? = other.text? := by
  simp only [behind] at heq
  split at heq
  · next text htext =>
    split at heq
    · next text' htext' =>
      rw [htext, htext', Text.quote_inj (String.toList_inj.mp (List.cons.inj heq).2)]
    · cases heq
  · next hnone =>
    split at heq
    · cases heq
    · next hnone' => rw [hnone, hnone']

theorem line_inj {entry other : Entry} (heq : entry.line = other.line) : entry = other := by
  have hspaces (n : Nat) : ∀ c ∈ List.replicate n ' ', c = ' ' := fun c hc => List.eq_of_mem_replicate hc
  have hname (entry : Entry) : ∀ c ∈ (entry.kind.name.toList ++ entry.behind).head?, c ≠ ' ' := by
    obtain ⟨first, letters, hletters⟩ := List.exists_cons_of_ne_nil entry.kind.toList_name_ne_nil
    have halpha := entry.kind.isAlpha_of_mem_name first (hletters ▸ List.mem_cons_self)
    rw [hletters]
    rintro c hc rfl
    obtain rfl := Option.some.inj hc
    cases halpha
  have hbehind (entry : Entry) : ∀ c ∈ entry.behind.head?, ¬c.isAlpha = true := by
    rw [behind]
    split
    · rintro c hc
      obtain rfl := Option.some.inj hc
      decide
    · nofun
  obtain ⟨hdepth, hrest⟩ := Text.append_inj_of_run (hspaces _) (hspaces _) (hname entry) (hname other) heq
  obtain ⟨hkind, htext⟩ := Text.append_inj_of_run entry.kind.isAlpha_of_mem_name other.kind.isAlpha_of_mem_name
    (hbehind entry) (hbehind other) hrest
  have hlength := congrArg List.length hdepth
  rw [List.length_replicate, List.length_replicate] at hlength
  obtain ⟨depth, kind, text?⟩ := entry
  obtain ⟨depth', kind', text?'⟩ := other
  obtain rfl : depth = depth' := by simp only at hlength; omega
  obtain rfl : kind = kind' := Kind.name_inj (String.toList_inj.mp hkind)
  obtain rfl : text? = text?' := behind_inj htext
  rfl

theorem break_not_mem_line (entry : Entry) : '\n' ∉ entry.line := by
  have hname : '\n' ∉ entry.kind.name.toList := fun hmem => by cases entry.kind.isAlpha_of_mem_name _ hmem
  have hbehind : '\n' ∉ entry.behind := by
    rw [behind]
    split
    · simp [Text.break_not_mem_quote]
    · exact List.not_mem_nil
  simp [line, hname, hbehind]

end Entry

/-- Lines that are written one below the other are told from one another. -/
theorem flatMap_line_inj {entries others : List Entry}
    (heq : entries.flatMap (·.line ++ ['\n']) = others.flatMap (·.line ++ ['\n'])) : entries = others := by
  have hplain (entry : Entry) : ∀ c ∈ entry.line, c ≠ '\n' := by
    rintro c hc rfl
    exact entry.break_not_mem_line hc
  induction entries generalizing others with
  | nil =>
    cases others with
    | nil => rfl
    | cons other others => simp at heq
  | cons entry entries ih =>
    cases others with
    | nil => simp at heq
    | cons other others =>
      rw [List.flatMap_cons, List.flatMap_cons, List.append_assoc, List.append_assoc] at heq
      obtain ⟨hline, hrest⟩ :=
        Text.append_inj_of_run (hplain entry) (hplain other) (by simp) (by simp) heq
      rw [Entry.line_inj hline, ih (List.cons.inj hrest).2]

end Listing

namespace Tree

open Listing

/-! ### Entries -/

mutual

/-- What the lines of a tree tell. -/
def entries (depth : Nat) : Tree → List Entry
  | token leaf => [⟨depth, leaf.kind, some leaf.text⟩]
  | node kind children => ⟨depth, kind, none⟩ :: entriesOf (depth + 1) children

def entriesOf (depth : Nat) : List Tree → List Entry
  | [] => []
  | tree :: rest => entries depth tree ++ entriesOf depth rest

end

mutual

theorem listingFrom_eq (depth start : Nat) : (tree : Tree) →
    (tree.listingFrom ⟨true, false⟩ depth start).map String.toList = (tree.entries depth).map Entry.line
  | token leaf => by
    simp [listingFrom, entries, Entry.line, Entry.behind, indent, Listing.span]
  | node kind children => by
    simp [listingFrom, entries, Entry.line, Entry.behind, indent, Listing.span, listingUnder_eq]

theorem listingUnder_eq (depth start : Nat) : (trees : List Tree) →
    (listingUnder ⟨true, false⟩ depth start trees).map String.toList = (entriesOf depth trees).map Entry.line
  | [] => rfl
  | tree :: rest => by
    simp [listingUnder, entriesOf, listingFrom_eq, listingUnder_eq]

end

/-- The first entry of a tree is its own. -/
theorem exists_entries (depth : Nat) : (tree : Tree) → ∃ entry under, tree.entries depth = entry :: under ∧ entry.depth = depth
  | token _ => ⟨_, _, rfl, rfl⟩
  | node _ _ => ⟨_, _, rfl, rfl⟩

theorem depth_le_of_head_entriesOf {depth : Nat} {more : List Entry}
    (hmore : ∀ entry ∈ more.head?, entry.depth ≤ depth) (trees : List Tree) :
    ∀ entry ∈ (entriesOf depth trees ++ more).head?, entry.depth ≤ depth := by
  cases trees with
  | nil => exact hmore
  | cons tree rest =>
    obtain ⟨first, under, hentries, hfirst⟩ := exists_entries depth tree
    intro entry hentry
    rw [entriesOf, hentries] at hentry
    obtain rfl := Option.some.inj hentry
    exact Nat.le_of_eq hfirst

/-- A row of trees begins at their depth, so it is not what stands less deep. -/
theorem ne_entriesOf_cons {depth : Nat} {more more' : List Entry} (hmore : ∀ entry ∈ more.head?, entry.depth < depth)
    (tree : Tree) (rest : List Tree) : more ≠ entriesOf depth (tree :: rest) ++ more' := by
  obtain ⟨first, under, hentries, rfl⟩ := exists_entries depth tree
  rintro rfl
  rw [entriesOf, hentries] at hmore
  exact Nat.lt_irrefl _ (hmore first rfl)

mutual

/-- The entries of a tree are told from those behind them, which do not stand deeper than the tree. -/
theorem entries_inj {depth : Nat} {more more' : List Entry} (hmore : ∀ entry ∈ more.head?, entry.depth ≤ depth)
    (hmore' : ∀ entry ∈ more'.head?, entry.depth ≤ depth) : (tree other : Tree) →
    tree.entries depth ++ more = other.entries depth ++ more' → tree = other ∧ more = more'
  | token leaf, token leaf', heq => by
    obtain ⟨hentry, hmore⟩ := List.cons.inj heq
    obtain ⟨-, hkind, htext⟩ := Entry.mk.inj hentry
    obtain ⟨kind, text⟩ := leaf
    obtain ⟨kind', text'⟩ := leaf'
    obtain rfl : kind = kind' := hkind
    obtain rfl : text = text' := Option.some.inj htext
    exact ⟨rfl, hmore⟩
  | token leaf, node kind children, heq => nomatch (Entry.mk.inj (List.cons.inj heq).1).2.2
  | node kind children, token leaf, heq => nomatch (Entry.mk.inj (List.cons.inj heq).1).2.2
  | node kind children, node kind' children', heq => by
    obtain ⟨hentry, hrest⟩ := List.cons.inj heq
    obtain ⟨-, rfl, -⟩ := Entry.mk.inj hentry
    obtain ⟨rfl, hmore⟩ := entriesOf_inj (fun entry hentry => Nat.lt_succ_of_le (hmore entry hentry))
      (fun entry hentry => Nat.lt_succ_of_le (hmore' entry hentry)) children children' hrest
    exact ⟨rfl, hmore⟩

theorem entriesOf_inj {depth : Nat} {more more' : List Entry} (hmore : ∀ entry ∈ more.head?, entry.depth < depth)
    (hmore' : ∀ entry ∈ more'.head?, entry.depth < depth) : (trees others : List Tree) →
    entriesOf depth trees ++ more = entriesOf depth others ++ more' → trees = others ∧ more = more'
  | [], [], heq => ⟨rfl, heq⟩
  | [], other :: others, heq => absurd heq (ne_entriesOf_cons hmore other others)
  | tree :: rest, [], heq => absurd heq.symm (ne_entriesOf_cons hmore' tree rest)
  | tree :: rest, other :: others, heq => by
    rw [entriesOf, entriesOf, List.append_assoc, List.append_assoc] at heq
    have hbehind : ∀ entry ∈ (entriesOf depth rest ++ more).head?, entry.depth ≤ depth :=
      depth_le_of_head_entriesOf (fun entry hentry => Nat.le_of_lt (hmore entry hentry)) rest
    have hbehind' : ∀ entry ∈ (entriesOf depth others ++ more').head?, entry.depth ≤ depth :=
      depth_le_of_head_entriesOf (fun entry hentry => Nat.le_of_lt (hmore' entry hentry)) others
    obtain ⟨rfl, hrest⟩ := entries_inj hbehind hbehind' tree other heq
    obtain ⟨rfl, hmore⟩ := entriesOf_inj hmore hmore' rest others hrest
    exact ⟨rfl, hmore⟩

end

theorem toList_listing (tree : Tree) :
    (tree.listing ⟨true, false⟩).toList = (tree.entries 0).flatMap (·.line ++ ['\n']) := by
  rw [listing, join, String.toList_join, List.flatMap_map]
  simp only [String.toList_append]
  rw [← List.flatMap_map (f := String.toList) (g := (· ++ "\n".toList)), listingFrom_eq, List.flatMap_map]
  rfl

/-- Two trees with the same listing, with trivia and without spans, are the same: the kinds, the nesting and the texts of
the tokens. -/
theorem listing_eq_iff {tree other : Tree} :
    tree.listing { trivia := true, spans := false } = other.listing { trivia := true, spans := false } ↔
      tree = other := by
  refine ⟨fun heq => ?_, fun heq => heq ▸ rfl⟩
  have hlines := congrArg String.toList heq
  rw [toList_listing, toList_listing] at hlines
  have hentries : tree.entries 0 ++ [] = other.entries 0 ++ [] := congrArg (· ++ []) (flatMap_line_inj hlines)
  have hnone : ∀ entry ∈ ([] : List Entry).head?, entry.depth ≤ 0 := nofun
  exact (entries_inj hnone hnone tree other hentries).1

end Tree

end Squirrel
