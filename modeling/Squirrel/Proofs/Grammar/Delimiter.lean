import Squirrel.Proofs.Grammar.Lists
import Squirrel.Proofs.Tree.Delimiter

/-!
# Valid scripts are balanced

Each production places an opener together with its closer, so the delimiters right under each node are nested, and those
of a whole script without a diagnostic are too.
-/

namespace Squirrel

open Squirrel.Tree

/-! ### Productions -/

/-- A phrase places nested delimiters, unless it is a single token that is a delimiter or consists of such tokens. -/
def Phrase.isPlain : Phrase → Bool
  | optional kind | path kind => !kind.isDelimiter
  | _ => true

/-- The delimiters among the tokens of some items close those that are awaited. -/
def Balanced : List Kind → List Item → Prop
  | waiting, [] => waiting = []
  | waiting, .word kind :: items => ∃ next, Kind.await waiting kind = some next ∧ Balanced next items
  | waiting, .wordIn accepts :: items => (∀ kind, accepts kind = true → kind.isDelimiter = false) ∧ Balanced waiting items
  | waiting, .check _ :: items => Balanced waiting items
  | waiting, .part phrase :: items => phrase.isPlain = true ∧ Balanced waiting items

theorem Balanced.word {waiting : List Kind} {kind : Kind} {items : List Item} (hother : kind.isDelimiter = false)
    (hitems : Balanced waiting items) : Balanced waiting (.word kind :: items) :=
  ⟨waiting, Kind.await_other hother waiting, hitems⟩

theorem Production.balanced {phrase : Phrase} {form : Form} {body : List Item}
    (hproduction : Production phrase form body) (hplain : phrase.isPlain = true) : Balanced [] body := by
  cases hproduction
  all_goals try (simp [Balanced, Kind.await, Kind.closer?, Kind.isCloser, Kind.isDelimiter, Phrase.isPlain]; done)
  -- what is left has tokens that are not named
  case jump keyword node hjump =>
    have hother : keyword.isDelimiter = false :=
      Kind.isDelimiter_eq_false (fun kind => (Grammar.jumpNode? kind).isSome) (by simp [hjump]) rfl
    exact .word hother (.word rfl rfl)
  case keyword tableAllowed keyword node hkeyword =>
    have hother : keyword.isDelimiter = false :=
      Kind.isDelimiter_eq_false (fun kind => (Grammar.keywordNode? kind).isSome) (by simp [hkeyword]) rfl
    exact .word hother ⟨rfl, rfl⟩
  case literal kind node hliteral =>
    have hother : kind.isDelimiter = false :=
      Kind.isDelimiter_eq_false (fun kind => (Grammar.literalNode? kind).isSome) (by simp [hliteral]) rfl
    exact .word hother rfl
  case pathMore => exact .word (by simpa [Phrase.isPlain] using hplain) (.word rfl ⟨hplain, rfl⟩)
  case someToken => exact .word (by simpa [Phrase.isPlain] using hplain) rfl
  case suffixIncrement => exact ⟨fun _ hsign => Kind.isDelimiter_eq_false Grammar.isIncrement hsign rfl, rfl⟩
  case someBindingValue | suffixUpdate | prefixed =>
    exact ⟨fun _ hsign => Kind.isDelimiter_eq_false _ hsign rfl, rfl, rfl⟩
  case suffixBinary power =>
    exact ⟨fun _ hsign => Kind.isDelimiter_eq_false (Power.binary? · == some power) hsign rfl, rfl, rfl⟩

/-! ### Nodes -/

/-- The tokens that a phrase places by itself are nested. -/
def Phrase.Nests (phrase : Phrase) (row : List Tree) : Prop :=
  phrase.isPlain = true → Kind.Nested ((leavesIn row).map Leaf.kind)

theorem RowOf.awaited_eq {items : List Item} {row : List Tree} {waiting : List Kind}
    (hrow : RowOf Phrase.Nests items row) (hbalanced : Balanced waiting items) :
    Kind.awaited waiting ((leavesIn row).map Leaf.kind) = some [] := by
  induction items generalizing waiting row with
  | nil =>
    obtain rfl : row = [] := hrow
    obtain rfl : waiting = [] := hbalanced
    rfl
  | cons item items ih =>
    cases item with
    | word kind =>
      obtain ⟨leaf, rest, rfl, rfl, hrest⟩ := hrow
      obtain ⟨next, hawait, hbalanced⟩ := hbalanced
      rw [leavesIn, List.filterMap_cons_some (leaf?_token leaf), List.map_cons, Kind.awaited_cons, hawait]
      exact ih hrest hbalanced
    | wordIn accepts =>
      obtain ⟨leaf, rest, rfl, haccepts, hrest⟩ := hrow
      obtain ⟨hother, hbalanced⟩ := hbalanced
      rw [leavesIn, List.filterMap_cons_some (leaf?_token leaf), List.map_cons, Kind.awaited_cons,
        Kind.await_other (hother _ haccepts)]
      exact ih hrest hbalanced
    | check condition => exact ih (show RowOf Phrase.Nests items row from hrow) hbalanced
    | part phrase =>
      obtain ⟨placed, rest, rfl, hplaced, hrest⟩ := hrow
      obtain ⟨hplain, hbalanced⟩ := hbalanced
      rw [leavesIn, List.filterMap_append, List.map_append, Kind.awaited_append]
      have hnested : Kind.awaited waiting ((placed.filterMap leaf?).map Leaf.kind) = some waiting :=
        (hplaced hplain).awaited_eq waiting
      rw [hnested, Option.bind_some]
      exact ih hrest hbalanced

theorem Production.nests {phrase : Phrase} {form : Form} {body : List Item} {parts placed : List Tree}
    (hproduction : Production phrase form body) (hparts : RowOf Phrase.Nests body parts)
    (hform : form.Holds parts placed) : phrase.Nests placed := by
  intro hplain
  cases form with
  | bare =>
    obtain rfl : placed = parts := hform
    exact hparts.awaited_eq (hproduction.balanced hplain)
  | node kind =>
    obtain ⟨tree, ⟨children, rfl, -⟩, rfl⟩ := hform
    rfl
  | tight kind =>
    obtain rfl : placed = [.node kind parts] := hform
    rfl

/-- Blanks and comments make no difference to the delimiters of a node. -/
theorem Tree.BuiltOf.nestsTokens {tree : Tree} {kind : Kind} {row : List Tree} (hbuilt : tree.BuiltOf kind row)
    (hrow : Kind.Nested ((leavesIn row).map Leaf.kind)) : tree.NestsTokens := by
  have htrivia : ∀ kind : Kind, (!kind.isTrivia) = false → kind.isDelimiter = false := fun kind hkind =>
    Kind.isDelimiter_eq_false Kind.isTrivia (by simpa using hkind) rfl
  rw [← hbuilt.filter_tokens, Kind.Nested] at hrow
  rw [NestsTokens, Kind.Nested, ← Kind.awaited_filter htrivia, List.filter_map]
  exact hrow

theorem Derives.nested {items : List Item} {words last : List Word} {row : List Tree}
    (hderives : Derives items words last row) (hbalanced : Balanced [] items) :
    Kind.Nested ((leavesIn row).map Leaf.kind) :=
  (hderives.rowOf fun hproduction hparts hform => hproduction.nests hparts hform).awaited_eq hbalanced

/-- A production builds a node around all that it consists of. -/
theorem Production.isPlain {phrase : Phrase} {form : Form} {body : List Item} (hproduction : Production phrase form body)
    (hform : form ≠ .bare) : phrase.isPlain = true := by
  cases hproduction <;> first | rfl | exact absurd rfl hform

/-! ### Scripts -/

theorem Script.throughout_nestsTokens {source : String} {limits : Limits} {script : Script}
    (hparse : Script.parse source limits = .ok script) (hclean : script.diagnostics = []) :
    script.root.Throughout NestsTokens := by
  intro tree hwithin hnode
  obtain ⟨before, after, hbetween⟩ := hwithin.exists_between
  obtain rfl | ⟨words, rest, ⟨phrase, form, body, row, hproduction, hbody, hbuilds⟩, -⟩ :=
    Script.builtFrom_of_parse hparse hclean hbetween hnode
  · obtain ⟨⟨parts, hderives, hroot⟩, -⟩ := Script.derives_of_parse hparse hclean
    exact hroot.nestsTokens (hderives.nested ⟨rfl, rfl⟩)
  · have hrow (hform : form ≠ .bare) : Kind.Nested ((leavesIn row).map Leaf.kind) :=
      hbody.nested (hproduction.balanced (hproduction.isPlain hform))
    cases form with
    | bare => exact hbuilds.elim
    | node kind => exact Tree.BuiltOf.nestsTokens hbuilds (hrow nofun)
    | tight kind =>
      obtain rfl : tree = .node kind row := hbuilds
      exact hrow nofun

/-- The delimiters of a script without a diagnostic are nested, and each opener and its closer are children of one node. -/
theorem Script.nested_of_parse {source : String} {limits : Limits} {script : Script}
    (hparse : Script.parse source limits = .ok script) (hclean : script.diagnostics = []) :
    Kind.Nested ((Lexed.ofSource source).tokens.map Token.kind) ∧
      ∀ (before inner after : List Token) (opening closing : Token),
        (Lexed.ofSource source).tokens = before ++ opening :: (inner ++ closing :: after) →
        opening.kind.closer? = some closing.kind → Kind.Nested (inner.map Token.kind) →
        Pairs opening.leaf closing.leaf (before.map Token.leaf) (inner.map Token.leaf) (after.map Token.leaf)
          script.root := by
  have hnests := Script.throughout_nestsTokens hparse hclean
  obtain ⟨parsed, hparsed, rfl⟩ := Script.parse_ok hparse
  have hleaves : parsed.root.leaves = (Lexed.ofSource source).tokens.map Token.leaf := leaves_root_of_parseTokens hparsed
  have hkinds (tokens : List Token) : (tokens.map Token.leaf).map Leaf.kind = tokens.map Token.kind := List.map_map
  have hnode : parsed.root.isNode = true := by
    obtain ⟨⟨_, -, children, hroot, -⟩, -⟩ := Script.derives_of_parse hparse hclean
    have hroot : parsed.root = .node .script children := hroot
    rw [hroot]
    rfl
  refine ⟨?_, fun before inner after opening closing htokens hcloser hinner => ?_⟩
  · rw [← hkinds, ← hleaves]
    exact nested_leaves hnests hnode
  · refine pairs_of_leaves hnests hnode ?_ hcloser (by rwa [hkinds])
    rw [hleaves, htokens]
    simp

/-- The parentheses of `f([0])` hold its arguments, and the brackets between them an array. -/
theorem Script.nested_of_parse_arguments : ∃ script, Script.parse "f([0])" .unbounded = .ok script ∧
    script.diagnostics = [] ∧ Kind.Nested ((Lexed.ofSource "f([0])").tokens.map Token.kind) ∧
      Pairs ⟨.parenOpen, "("⟩ ⟨.parenClose, ")"⟩ [⟨.id, "f"⟩]
        [⟨.bracketOpen, "["⟩, ⟨.integerLit, "0"⟩, ⟨.bracketClose, "]"⟩] [] script.root := by
  have houtcome : (Script.outcome? "f([0])" .unbounded).any (·.2) = true := by decide +kernel
  obtain ⟨script, clean, hparse, hclean, htrue⟩ := Script.exists_of_outcome houtcome
  have htokens : (Lexed.ofSource "f([0])").tokens = [⟨.id, 0, "f"⟩] ++ ⟨.parenOpen, 1, "("⟩ ::
      ([⟨.bracketOpen, 2, "["⟩, ⟨.integerLit, 3, "0"⟩, ⟨.bracketClose, 4, "]"⟩] ++ ⟨.parenClose, 5, ")"⟩ :: []) := by
    decide +kernel
  obtain ⟨hnested, hpairs⟩ := Script.nested_of_parse hparse (hclean htrue)
  exact ⟨script, hparse, hclean htrue, hnested, hpairs _ _ _ _ _ htokens rfl (by decide)⟩

end Squirrel
