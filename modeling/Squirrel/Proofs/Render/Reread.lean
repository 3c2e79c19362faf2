import Squirrel.Proofs.Render.Legible
import Squirrel.Proofs.Render.RoundTrip

/-!
# Expressions of a source, written and read again

The production behind each node of a source says which form the node is and what its parts start with, and each form is
read as itself if its parts are. So it is with all expressions of a source that are legible.
-/

namespace Squirrel

open Squirrel.Tree

namespace Tree

variable {inner between tree : Tree} {kind : Kind} {row : List Tree}

/-! ### Parts that are written anew -/

theorem WrittenIn.within (hwritten : inner.WrittenIn tree) : inner.Within tree := by
  induction hwritten with
  | self => exact .self
  | child _ hmem _ ih => exact .child hmem ih

theorem WrittenIn.trans (hinner : inner.WrittenIn between) (hwritten : between.WrittenIn tree) : inner.WrittenIn tree := by
  induction hwritten with
  | self => exact hinner
  | child hkind hmem _ ih => exact .child hkind hmem ih

theorem BuiltOf.writtenIn (hbuilt : tree.BuiltOf kind row) (hkind : kind.keepsText = false) (hmem : inner ∈ row) :
    inner.WrittenIn tree ∧ sizeOf inner < sizeOf tree := by
  obtain ⟨children, rfl, rfl⟩ := hbuilt
  have hchild : inner ∈ children := (List.mem_filter.mp hmem).1
  exact ⟨.child hkind hchild .self, sizeOf_lt_of_mem_children hchild⟩

theorem BuiltOf.leaves_subset (hbuilt : tree.BuiltOf kind row) (hmem : inner ∈ row) : inner.leaves ⊆ tree.leaves := by
  obtain ⟨children, rfl, rfl⟩ := hbuilt
  obtain ⟨left, right, rfl⟩ := List.append_of_mem (List.mem_filter.mp hmem).1
  intro leaf hleaf
  rw [leaves, leavesOf_append, leavesOf]
  simp [hleaf]

theorem BuiltOf.mem_leaves (hbuilt : tree.BuiltOf kind row) {leaf : Leaf} (hmem : token leaf ∈ row) : leaf ∈ tree.leaves :=
  hbuilt.leaves_subset hmem (by rw [leaves]; exact List.mem_singleton_self leaf)

theorem RoundTrips.anyTable (htree : tree.RoundTrips false) (table : Bool) : tree.RoundTrips table := by
  refine ⟨htree.isExpression, fun tail => ?_⟩
  obtain ⟨leaves, copy, hwritten, hexpression, hbare, hreads⟩ := htree.reads tail
  refine ⟨leaves, copy, hwritten, hexpression, hbare, fun joined phrase last hfits => hreads joined phrase last ?_⟩
  obtain ⟨lower, allowed, hphrase, -, hlower⟩ := hfits.phrase
  exact ⟨⟨lower, allowed, hphrase, nofun, hlower⟩, hfits.right, hfits.tail⟩

/-- An expression that stands in a source, with a legible form and with parts that are read as themselves. -/
structure Backed (tree : Tree) : Prop where
  genuine : tree.Throughout Genuine
  legible : ∀ form, tree.asExpression? = some form → form.Legible
  parts : ∀ part : Tree, part.WrittenIn tree → sizeOf part < sizeOf tree → part.isExpression = true →
    part.RoundTrips part.startsWithTable

namespace Backed

variable (hbacked : tree.Backed) (hbuilt : tree.BuiltOf kind row)

include hbacked hbuilt

theorem genuine_leaf {leaf : Leaf} (hmem : leaf ∈ tree.leaves) : leaf.Genuine :=
  (hbacked.genuine tree .self hbuilt.isNode).leaves leaf hmem

theorem sign {leaf : Leaf} {kind : Kind} (hmem : token leaf ∈ row) (hkind : leaf.kind = kind)
    (hspelled : kind.spelling?.isSome = true) : leaf = Leaf.sign kind :=
  hkind ▸ (hbacked.genuine_leaf hbuilt (hbuilt.mem_leaves hmem)).sign (hkind ▸ hspelled)

theorem isName {leaf : Leaf} (hmem : token leaf ∈ row) (hkind : leaf.kind = .id) : leaf.IsName :=
  (hbacked.genuine_leaf hbuilt (hbuilt.mem_leaves hmem)).name hkind

theorem roundTrips {part : Tree} (hmem : part ∈ row) (hkind : kind.keepsText = false) (hexpression : part.isExpression = true) :
    part.RoundTrips part.startsWithTable := by
  obtain ⟨hwritten, hsize⟩ := hbuilt.writtenIn hkind hmem
  exact hbacked.parts part hwritten hsize hexpression

/-- A part that was read where no table is allowed. -/
theorem roundTrips_plain {part : Tree} {power : Nat} {words last : List Word} (hmem : part ∈ row)
    (hkind : kind.keepsText = false) (hderives : Derives [.part (.expression power false)] words last [part])
    (hwords : ∀ word ∈ words, word.kind.isTrivia = false) : part.RoundTrips false := by
  obtain ⟨other, hsingle, hexpression⟩ := hderives.rowFits.of_part
  obtain rfl : part = other := List.singleton_inj.mp hsingle
  rw [← hderives.startsWithTable_eq_false hwords]
  exact hbacked.roundTrips hbuilt hmem hkind hexpression

end Backed

end Tree

/-! ### Suffixes -/

section

variable {tree left : Tree} {parts : List Tree} {words last : List Word}

/-- An expression in front of other items. -/
theorem Derives.expression_cons {power : Nat} {tableAllowed : Bool} {items : List Item} {row : List Tree}
    (hderives : Derives (.part (.expression power tableAllowed) :: items) words last row) :
    ∃ middle value rest, row = value :: rest ∧ value.isExpression = true ∧
      Derives [.part (.expression power tableAllowed)] words middle [value] ∧ Derives items middle last rest := by
  obtain ⟨middle, _, rest, hvalue, hrest, rfl⟩ := hderives.split [_]
  obtain ⟨value, rfl, hexpression⟩ := hvalue.rowFits.of_part
  exact ⟨middle, value, rest, rfl, hexpression, hvalue, hrest⟩

/-- How tightly the operand has to bind that a suffix is written behind. -/
def Suffix.leftPower : Suffix → Nat
  | member | index | call => Power.accessor
  | increment => Power.unary
  | ternary => Power.ternary + 1
  | assignment | update => Power.ternary
  | binary power => power

/-- In a legible form the operand that a suffix takes in needs no parentheses if it starts with a table. -/
theorem Tree.Backed.leadsAt {found : Suffix} (hbacked : tree.Backed) (hbuilt : tree.BuiltOf found.node (left :: parts))
    (hleft : left.isExpression = true) (hparts : found.Fits parts) : left.LeadsAt found.leftPower (found == .member) := by
  obtain ⟨child, hchild, rfl⟩ := hbuilt.exists_expression? 0 left (by simp [hleft])
  have hlegible := hbacked.legible
  simp only [asExpression?, hbuilt.isNode, hbuilt.kind_eq] at hlegible
  cases found with
  | member => exact (hlegible _ rfl child hchild).2
  | index => exact hlegible _ rfl child hchild
  | call => exact (hlegible _ rfl).1 child hchild
  | increment =>
    have hstarts : tree.startsWithNode = true := hbuilt.startsWithNode_eq.trans (Bool.and_eq_true_iff.mp hleft).1
    have hfirst := hlegible _ rfl
    rw [hstarts] at hfirst
    exact hfirst child hchild
  | ternary | assignment | update => exact hlegible _ rfl child hchild
  | binary power =>
    obtain ⟨sign, value, rfl, hsign, hvalue⟩ := hparts
    have hfirst := hlegible _ rfl child hchild
    rwa [(Render.expression_binary hbuilt hleft hvalue hsign).1] at hfirst

/-! ### Arguments -/

/-- Arguments without a comma behind the last one. -/
theorem Tree.IsArguments.exists_separated {row : List Tree} (hrow : IsArguments row)
    (hcommas : ∀ leaf, token leaf ∈ row → leaf.kind = .comma → leaf = Leaf.sign .comma)
    (hlast : row.getLast?.any (·.kind == .comma) = false) :
    ∃ arguments, row = Tree.separated arguments ∧ ∀ argument ∈ arguments, argument.isExpression = true := by
  induction hrow with
  | nil => exact ⟨[], rfl, nofun⟩
  | @last argument hargument => exact ⟨[argument], rfl, List.forall_mem_singleton.mpr hargument⟩
  | @more argument comma rest hargument hcomma hrest ih =>
    cases rest with
    | nil =>
      rw [show [argument, token comma].getLast? = some (token comma) from rfl, Option.any_some] at hlast
      exact absurd hcomma (beq_eq_false_iff_ne.mp hlast)
    | cons next others =>
      obtain ⟨arguments, harguments, hexpressions⟩ :=
        ih (fun leaf hmem => hcommas leaf (List.mem_cons_of_mem _ (List.mem_cons_of_mem _ hmem))) (by simpa using hlast)
      obtain rfl := hcommas comma (by simp) hcomma
      cases arguments with
      | nil => cases harguments
      | cons second arguments =>
        exact ⟨argument :: second :: arguments, by rw [harguments, Tree.separated],
          List.forall_mem_cons.mpr ⟨hargument, hexpressions⟩⟩

/-- The arguments of a call are read as they were. -/
theorem Tree.Backed.exists_arguments {head list : Tree} (hbacked : tree.Backed)
    (hbuilt : tree.BuiltOf .callExpression [head, list]) (hhead : isNodeOf .callArgs head = false)
    (hderives : Derives [.part .callArguments] words last [list]) :
    ∃ arguments, list.BuiltOf .callArgs (argumentRow arguments) ∧
      ∀ argument ∈ arguments, ∃ table, argument.RoundTrips table := by
  obtain ⟨form, body, row, hproduction, hbody, hform⟩ := hderives.exists_production
  cases hproduction
  obtain ⟨_, hlist, hsingle⟩ := hform
  obtain rfl := List.singleton_inj.mp hsingle
  obtain ⟨opening, _, rfl, hopening, inner, _, rfl, harguments, closing, _, rfl, hclosing, rfl⟩ := hbody.rowFits
  have hsign {leaf : Leaf} {kind : Kind} (hmem : token leaf ∈ token opening :: (inner ++ [token closing]))
      (hkind : leaf.kind = kind) (hspelled : kind.spelling?.isSome = true) : leaf = Leaf.sign kind := by
    have hleaf : leaf ∈ tree.leaves := hbuilt.leaves_subset (by simp) (hlist.mem_leaves hmem)
    exact hkind ▸ (hbacked.genuine_leaf hbuilt hleaf).sign (hkind ▸ hspelled)
  have hcomma : list.hasLastComma = false := by
    have hargs : isNodeOf .callArgs list = true := by simp [isNodeOf, hlist.isNode, hlist.kind_eq]
    have hfound : (tree.nodeOf? .callArgs).map Child.tree = some list := by
      rw [hbuilt.map_nodeOf?]
      simp [hhead, hargs]
    obtain ⟨child, hchild, rfl⟩ := Option.map_eq_some_iff.mp hfound
    have hlegible := hbacked.legible
    simp only [asExpression?, hbuilt.isNode, hbuilt.kind_eq] at hlegible
    exact (hlegible _ rfl).2 child hchild
  have hlast : inner.getLast?.any (·.kind == .comma) = false := by
    obtain ⟨children, rfl, hitems⟩ := hlist
    rw [hasLastComma, Tree.children, hitems, ← List.cons_append, List.dropLast_concat] at hcomma
    cases inner with
    | nil => rfl
    | cons => exact hcomma
  obtain ⟨arguments, rfl, hexpressions⟩ := harguments.exists_separated
    (fun leaf hmem hkind => hsign (by simp [hmem]) hkind rfl) hlast
  obtain rfl : opening = Leaf.sign .parenOpen := hsign (by simp) hopening rfl
  obtain rfl : closing = Leaf.sign .parenClose := hsign (by simp) hclosing rfl
  refine ⟨arguments, hlist, fun argument hmem => ⟨argument.startsWithTable, ?_⟩⟩
  have hexpression := hexpressions argument hmem
  have hfiltered : argument ∈ (separated arguments).filter isExpression := by rwa [filter_separated hexpressions]
  have hseparated : argument ∈ argumentRow arguments := by
    simp [argumentRow, (List.mem_filter.mp hfiltered).1]
  obtain ⟨houter, hless⟩ := hbuilt.writtenIn rfl (by simp : list ∈ [head, list])
  obtain ⟨hinner, hsmaller⟩ := hlist.writtenIn rfl hseparated
  exact hbacked.parts argument (hinner.trans houter) (Nat.lt_trans hsmaller hless) hexpression

/-! ### Suffixes -/

theorem Leaf.isSome_of_isSpaced {kind : Kind} (hspaced : isSpaced kind = true) : kind.spelling?.isSome = true :=
  (Bool.and_eq_true_iff.mp (Bool.and_eq_true_iff.mp hspaced).1).1

/-- A suffix and the expression that it takes in are read as they were. -/
theorem Tree.Backed.of_suffix {found : Suffix} (hbacked : tree.Backed) (hbuilt : tree.BuiltOf found.node (left :: parts))
    (hleft : left.isExpression = true) (hsuffix : Derives [.part (.suffix found)] words last parts)
    (hwords : ∀ word ∈ words, word.kind.isTrivia = false) : tree.RoundTrips left.startsWithTable := by
  have hkeeps : found.node.keepsText = false := by cases found <;> rfl
  have htrips := hbacked.roundTrips hbuilt List.mem_cons_self hkeeps hleft
  have hleads := hbacked.leadsAt hbuilt hleft hsuffix.rowFits.of_part
  have htable (hother : (found == .member) = false) (htrue : left.startsWithTable = true) :
      found.leftPower ≤ left.precedence ∧ left.kind ≠ .table :=
    ⟨(hleads htrue).1, fun hkind => Bool.false_ne_true (hother.symm.trans ((hleads htrue).2 hkind))⟩
  obtain ⟨form, body, row, hproduction, hbody, hform⟩ := hsuffix.exists_production
  cases hproduction with
  | suffixMember =>
    obtain rfl : parts = row := hform
    cases hbody with | @word _ _ dot _ _ _ hdot hrest =>
    cases hrest with | @word _ _ name _ _ _ hname hend =>
    cases hend
    have hsign : dot.leaf = Leaf.sign .dot := hbacked.sign hbuilt (by simp [Word.tree]) hdot rfl
    have hnamed : name.leaf.IsName := hbacked.isName hbuilt (by simp [Word.tree]) hname
    have hplain : left.isWhole = true → Lexeme.startsExponent name.leaf.text.toList = false := by
      obtain ⟨child, hchild, rfl⟩ := hbuilt.exists_expression? 0 left (by simp [hleft])
      have hview := hbuilt.asExpression?_member hleft hdot hname
      exact fun hwhole => (hbacked.legible _ hview child hchild).1 hwhole _ rfl
    rw [Word.tree, hsign] at hbuilt
    exact .member hnamed hbuilt htrips hplain fun htrue => (hleads htrue).1
  | suffixIndex =>
    obtain rfl : parts = row := hform
    cases hbody with | @word _ _ opening _ _ _ hopening hrest =>
    obtain ⟨middle, key, _, rfl, hexpression, hkey, hclosed⟩ := hrest.expression_cons
    cases hclosed with | @word _ _ closing _ _ _ hclosing hend =>
    cases hend
    have htripsKey := hbacked.roundTrips_plain hbuilt (by simp) hkeeps hkey (List.forall_mem_cons.mp hwords).2
    have hopen : opening.leaf = Leaf.sign .bracketOpen := hbacked.sign hbuilt (by simp [Word.tree]) hopening rfl
    have hclose : closing.leaf = Leaf.sign .bracketClose := hbacked.sign hbuilt (by simp [Word.tree]) hclosing rfl
    rw [Word.tree, Word.tree, hopen, hclose] at hbuilt
    exact .index hbuilt htrips (htable rfl) htripsKey
  | suffixCall =>
    obtain rfl : parts = row := hform
    obtain ⟨list, rfl, -⟩ := hbody.rowFits.of_part
    have hhead : isNodeOf .callArgs left = false := by
      obtain ⟨hnode, hkind⟩ := Bool.and_eq_true_iff.mp hleft
      rw [isNodeOf, hnode, Bool.true_and]
      exact beq_eq_false_iff_ne.mpr fun heq => by simp [heq, Kind.isExpression] at hkind
    obtain ⟨arguments, hlist, harguments⟩ := hbacked.exists_arguments hbuilt hhead hbody
    exact .call hbuilt htrips (htable rfl) hlist harguments
  | suffixIncrement =>
    obtain rfl : parts = row := hform
    cases hbody with | @wordIn _ _ sign _ _ _ hkind hend =>
    cases hend
    have hspelled : sign.kind.spelling?.isSome = true := by
      have heither : sign.kind = .plusPlus ∨ sign.kind = .minusMinus := by simpa using of_decide_eq_true hkind
      obtain heq | heq := heither
      all_goals rw [heq]; rfl
    have hsign : sign.leaf = Leaf.sign sign.kind := hbacked.sign hbuilt (by simp [Word.tree]) rfl hspelled
    rw [Word.tree, hsign] at hbuilt
    exact .increment hbuilt hkind htrips (htable rfl)
  | suffixTernary =>
    obtain rfl : parts = row := hform
    cases hbody with | @word _ _ question _ _ _ hquestion hrest =>
    obtain ⟨middle, first, _, rfl, hfirst, hbefore, hnext⟩ := hrest.expression_cons
    cases hnext with | @word _ _ colon _ _ _ hcolon hbehind =>
    obtain ⟨_, second, _, rfl, hsecond, hderives, hend⟩ := hbehind.expression_cons
    cases hend
    obtain ⟨front, rfl, -⟩ := hbefore.exists_front
    have htripsFirst := hbacked.roundTrips hbuilt (by simp) hkeeps hfirst
    have htripsSecond := hbacked.roundTrips hbuilt (by simp) hkeeps hsecond
    have hquestionSign : question.leaf = Leaf.sign .question := hbacked.sign hbuilt (by simp [Word.tree]) hquestion rfl
    have hcolonSign : colon.leaf = Leaf.sign .colon := hbacked.sign hbuilt (by simp [Word.tree]) hcolon rfl
    rw [Word.tree, Word.tree, hquestionSign, hcolonSign] at hbuilt
    refine .ternary hbuilt htrips (htable rfl) htripsFirst htripsSecond fun htrue => ?_
    exact hderives.le_precedence (fun word hmem => hwords word (by simp [hmem])) htrue (by decide)
  | suffixAssignment =>
    obtain rfl : parts = row := hform
    cases hbody with | @word _ _ sign _ _ _ hkind hrest =>
    obtain ⟨_, value, _, rfl, hvalue, hderives, hend⟩ := hrest.expression_cons
    cases hend
    have hsign : sign.leaf = Leaf.sign .equals := hbacked.sign hbuilt (by simp [Word.tree]) hkind rfl
    have htripsValue := hbacked.roundTrips hbuilt (by simp) hkeeps hvalue
    rw [Word.tree, hsign] at hbuilt
    exact .assignment hbuilt htrips (htable rfl) htripsValue fun htrue =>
      hderives.le_precedence (List.forall_mem_cons.mp hwords).2 htrue (by decide)
  | suffixUpdate =>
    obtain rfl : parts = row := hform
    cases hbody with | @wordIn _ _ sign _ _ _ hkind hrest =>
    obtain ⟨_, value, _, rfl, hvalue, hderives, hend⟩ := hrest.expression_cons
    cases hend
    have hspelled := Leaf.isSome_of_isSpaced (Leaf.isSpaced_of_isUpdate hkind)
    have hsign : sign.leaf = Leaf.sign sign.kind := hbacked.sign hbuilt (by simp [Word.tree]) rfl hspelled
    have htripsValue := hbacked.roundTrips hbuilt (by simp) hkeeps hvalue
    rw [Word.tree, hsign] at hbuilt
    exact .update hbuilt hkind htrips (htable rfl) htripsValue fun htrue =>
      hderives.le_precedence (List.forall_mem_cons.mp hwords).2 htrue (by decide)
  | suffixBinary power =>
    obtain rfl : parts = row := hform
    cases hbody with | @wordIn _ _ sign _ _ _ hkind hrest =>
    obtain ⟨_, value, _, rfl, hvalue, hderives, hend⟩ := hrest.expression_cons
    cases hend
    have hpower : Power.binary? sign.kind = some power := beq_iff_eq.mp hkind
    have hspelled := Leaf.isSome_of_isSpaced (Leaf.isSpaced_of_binary? hpower)
    have hsign : sign.leaf = Leaf.sign sign.kind := hbacked.sign hbuilt (by simp [Word.tree]) rfl hspelled
    have htripsValue := hbacked.roundTrips_plain hbuilt (by simp) hkeeps hderives (List.forall_mem_cons.mp hwords).2
    rw [Word.tree, hsign] at hbuilt
    exact .binary hbuilt hpower htrips (htable rfl) htripsValue

/-! ### Productions -/

theorem Word.isTrivia_of_mem_ofLeaves {leaves : List Leaf} {tokens : List Token} {afterBreak joined : Bool} :
    ∀ word ∈ ofLeaves afterBreak joined leaves ++ ofTokens false true tokens, word.kind.isTrivia = false := by
  intro word hmem
  obtain hmem | hmem := List.mem_append.mp hmem
  · exact isTrivia_of_mem_ofTokens hmem
  · exact isTrivia_of_mem_ofTokens hmem

/-- A literal of a source is read as itself. -/
theorem Production.roundTrips_literal {phrase : Phrase} {kind : Kind} {body : List Item} {row : List Tree}
    (hproduction : Production phrase (.tight kind) body) (hbody : Derives body words last row)
    (hleaves : ∀ leaf ∈ (Tree.node kind row).leaves, leaf.Genuine) : (Tree.node kind row).RoundTrips false := by
  have hnegative {number : Word} {rest : List Word} {minus : Word} (hminus : minus.kind = .minus)
      (hfolds : Word.NumberFollows (minus :: number :: rest)) (hliteral : Grammar.literalNode? number.kind = some kind)
      (hleaves : ∀ leaf ∈ (Tree.node kind [minus.tree, number.tree]).leaves, leaf.Genuine) :
      (Tree.node kind [minus.tree, number.tree]).RoundTrips false := by
    have hkind : minus.leaf.kind = .minus := hminus
    have hsign : minus.leaf = Leaf.sign .minus :=
      hkind ▸ (hleaves minus.leaf (by simp [Word.tree, Tree.leaves, leavesOf])).sign (by rw [hkind]; rfl)
    have hnumber : number.leaf.Genuine := hleaves number.leaf (by simp [Word.tree, Tree.leaves, leavesOf])
    rw [Word.tree, Word.tree, hsign]
    exact .negative hnumber (Bool.and_eq_true_iff.mp hfolds).2 hliteral
  cases hproduction with
  | negativeInteger | negativeFloat =>
    cases hbody with | check hfolds hrest =>
    cases hrest with | word hminus hrest =>
    cases hrest with | @word _ _ number _ _ _ hnumber hend =>
    cases hend
    exact hnegative hminus hfolds (by rw [hnumber]; rfl) hleaves
  | literal hliteral =>
    cases hbody with | @word _ _ word _ _ _ hkind hend =>
    cases hend
    have hleaf : word.leaf.Genuine := hleaves word.leaf (by simp [Word.tree, Tree.leaves, leavesOf])
    rw [← hkind] at hliteral
    exact .literal hleaf hliteral

/-- A form that is written anew is read as itself. -/
theorem Tree.Backed.roundTrips_anew {phrase : Phrase} {kind : Kind} {body : List Item} {row : List Tree}
    (hbacked : tree.Backed) (hbuilt : tree.BuiltOf kind row) (hexpression : kind.isExpression = true)
    (hkeeps : kind.keepsText = false) (hproduction : Production phrase (.node kind) body) (hbody : Derives body words last row)
    (hwords : ∀ word ∈ words, word.kind.isTrivia = false) : tree.RoundTrips tree.startsWithTable := by
  cases hproduction
  all_goals try exact absurd hexpression (by decide)
  all_goals try exact absurd hkeeps (by decide)
  case jump hjump => exact absurd hexpression (Grammar.forall_jumpNode? (P := (·.isExpression ≠ true)) hjump (by decide))
  case chainSuffix found =>
    obtain ⟨middle, _, parts, hchain, hrest, rfl⟩ := hbody.split [_]
    obtain ⟨left, rfl, hread⟩ := hchain.readWith_of_chain
    cases hrest with | check hfound hsuffix =>
    obtain ⟨front, rfl, -⟩ := hchain.exists_front
    have hwithin : left.Within tree := (hbuilt.writtenIn hkeeps List.mem_cons_self).1.within
    have hleft := hbacked.genuine left hwithin (Bool.and_eq_true_iff.mp hread.isExpression).1
    rw [hbuilt.startsWithTable_eq hleft.wordsIn_ne_nil]
    exact hbacked.of_suffix hbuilt hread.isExpression hsuffix fun word hmem => hwords word (List.mem_append_right front hmem)
  case prefixed =>
    cases hbody with | check _ hrest =>
    cases hrest with | @wordIn _ _ sign _ _ _ hprefix hrest =>
    obtain ⟨_, value, _, rfl, hvalue, hderives, hend⟩ := hrest.expression_cons
    cases hend
    have hall : ∀ kind ∈ Kind.all, TokenSet.prefixOperators.contains kind = true → kind.spelling?.isSome = true := by
      decide +kernel
    have hsign : sign.leaf = Leaf.sign sign.kind :=
      hbacked.sign hbuilt (by simp [Word.tree]) rfl (hall _ (Lexeme.mem_all _) hprefix)
    have htrips := hbacked.roundTrips hbuilt (by simp) rfl hvalue
    rw [Word.tree, hsign] at hbuilt
    refine (RoundTrips.prefixed hbuilt hprefix htrips fun htrue => ?_).anyTable _
    exact hderives.le_precedence (List.forall_mem_cons.mp hwords).2 htrue (Nat.le_refl _)
  case identifier =>
    cases hbody with | @word _ _ name _ _ _ hname hend =>
    cases hend
    exact (RoundTrips.identifier (hbacked.isName hbuilt (by simp [Word.tree]) hname) hbuilt).anyTable _
  case globalVariable =>
    cases hbody with | @word _ _ colon _ _ _ hcolon hrest =>
    cases hrest with | @word _ _ name _ _ _ hname hend =>
    cases hend
    have hsign : colon.leaf = Leaf.sign .doubleColon := hbacked.sign hbuilt (by simp [Word.tree]) hcolon rfl
    have hnamed := hbacked.isName hbuilt (by simp [Word.tree]) hname
    rw [Word.tree, hsign] at hbuilt
    exact (RoundTrips.globalVariable hnamed hbuilt).anyTable _
  case keyword keyword hkeyword =>
    cases hbody with | @word _ _ sign _ _ _ hkind hrest =>
    obtain ⟨_, value, _, rfl, hvalue, hderives, hend⟩ := hrest.expression_cons
    cases hend
    have hall : ∀ kind ∈ Kind.all, (Grammar.keywordNode? kind).isSome = true → kind.spelling?.isSome = true := by
      decide +kernel
    have hsign : sign.leaf = Leaf.sign keyword :=
      hbacked.sign hbuilt (by simp [Word.tree]) hkind (hall _ (Lexeme.mem_all _) (by rw [hkeyword]; rfl))
    have htrips := hbacked.roundTrips_plain hbuilt (by simp) hkeeps hderives (List.forall_mem_cons.mp hwords).2
    rw [Word.tree, hsign] at hbuilt
    exact (RoundTrips.keyword hbuilt hkeyword htrips).anyTable _
  case rawcall =>
    cases hbody with | @word _ _ sign _ _ _ hkind hlist =>
    obtain ⟨list, rfl, -⟩ := hlist.rowFits.of_part
    have hsign : sign.leaf = Leaf.sign .kwRawcall := hbacked.sign hbuilt (by simp [Word.tree]) hkind rfl
    obtain ⟨arguments, hargs, harguments⟩ := hbacked.exists_arguments hbuilt rfl hlist
    rw [Word.tree, hsign] at hbuilt
    exact (RoundTrips.rawcall hbuilt hargs harguments).anyTable _
  case parenthesized =>
    cases hbody with | @word _ _ opening _ _ _ hopening hrest =>
    obtain ⟨middle, inner, _, rfl, hinner, hderives, hclosed⟩ := hrest.expression_cons
    cases hclosed with | @word _ _ closing _ _ _ hclosing hend =>
    cases hend
    have htrips := hbacked.roundTrips_plain hbuilt (by simp) rfl hderives (List.forall_mem_cons.mp hwords).2
    have hopen : opening.leaf = Leaf.sign .parenOpen := hbacked.sign hbuilt (by simp [Word.tree]) hopening rfl
    have hclose : closing.leaf = Leaf.sign .parenClose := hbacked.sign hbuilt (by simp [Word.tree]) hclosing rfl
    rw [Word.tree, Word.tree, hopen, hclose] at hbuilt
    exact (RoundTrips.parenthesized hbuilt htrips).anyTable _

/-- The body of a function whose form is legible is a block. -/
theorem Tree.Backed.kind_of_body {row : List Tree} {part : Tree} (hbacked : tree.Backed)
    (hbuilt : tree.BuiltOf .anonymousFunction row)
    (hbody : Derives [.word .kwFunction, .part .parameters, .part .statement] words last row) (hmem : part ∈ row)
    (hpart : part.isStatement = true) : part.kind = .block := by
  obtain ⟨_, _, rfl, -, _, _, rfl, ⟨parameters, rfl, hparameters⟩, _, _, rfl, ⟨body, rfl, hstatement⟩, rfl⟩ := hbody.rowFits
  have hother : isStatement parameters = false := by
    obtain ⟨hnode, hkind⟩ := Bool.and_eq_true_iff.mp hparameters
    rw [isStatement, hnode, beq_iff_eq.mp hkind]
    rfl
  obtain rfl : part = body := by
    simp only [List.singleton_append, List.mem_cons, List.not_mem_nil, or_false] at hmem
    obtain rfl | rfl | rfl := hmem
    · cases hpart
    · exact absurd hpart (Bool.eq_false_iff.mp hother)
    · rfl
  have hfound : tree.statement?.map Child.tree = some part := by
    rw [hbuilt.map_statement?, List.find?_cons_of_neg (Bool.eq_false_iff.mp rfl), List.singleton_append,
      List.find?_cons_of_neg (Bool.eq_false_iff.mp hother), List.singleton_append, List.find?_cons_of_pos hpart]
  obtain ⟨statement, hchild, rfl⟩ := Option.map_eq_some_iff.mp hfound
  have hlegible := hbacked.legible
  simp only [asExpression?, hbuilt.isNode, hbuilt.kind_eq] at hlegible
  exact hlegible _ rfl statement hchild

/-- A form that keeps its text is read as itself. -/
theorem Tree.Backed.roundTrips_kept {phrase : Phrase} {kind : Kind} {body : List Item} {row : List Tree}
    {rest : List Word} {afterBreak joined : Bool} (hbacked : tree.Backed) (hbuilt : tree.BuiltOf kind row)
    (hkeeps : kind.keepsText = true) (hproduction : Production phrase (.node kind) body)
    (hbody : Derives body (Word.ofLeaves afterBreak joined tree.leaves ++ rest) rest row) :
    tree.RoundTrips tree.startsWithTable := by
  have hgenuine := hbacked.genuine tree .self hbuilt.isNode
  cases hproduction
  all_goals try exact absurd hkeeps (by decide)
  case jump hjump => exact absurd hkeeps (Grammar.forall_jumpNode? (P := (·.keepsText ≠ true)) hjump (by decide))
  case chainSuffix found => exact absurd hkeeps (Grammar.forall_suffixNode (P := (·.keepsText ≠ true)) found (by decide))
  case keyword hkeyword =>
    exact absurd hkeeps (Grammar.forall_keywordNode? (P := (·.keepsText ≠ true)) hkeyword (by decide))
  case lambda =>
    have hlegible := hbacked.legible
    simp only [asExpression?, hbuilt.isNode, hbuilt.kind_eq] at hlegible
    exact (RoundTrips.lambda hgenuine hbuilt hbody (hlegible _ rfl)).anyTable _
  case anonymousFunction =>
    exact (RoundTrips.anonymousFunction hgenuine hbuilt hbody fun _ => hbacked.kind_of_body hbuilt hbody).anyTable _
  case array => exact (RoundTrips.array hgenuine hbuilt hbody).anyTable _
  case table =>
    have htable : tree.startsWithTable = true := by
      obtain ⟨opening, _, rfl, hopening, -⟩ := hbody.rowFits
      rw [startsWithTable_eq, hbuilt.wordsIn_leaves, leavesOf, Tree.leaves, List.singleton_append, wordsIn,
        List.filter_cons_of_pos (by rw [hopening]; rfl), List.head?_cons, Option.any_some, hopening]
      rfl
    rw [htable]
    exact .table hgenuine hbuilt hbody

/-- An expression of a source is read as itself if its parts are and its form is legible. -/
theorem Tree.Backed.roundTrips_self (hbacked : tree.Backed) (hexpression : tree.isExpression = true) :
    tree.RoundTrips tree.startsWithTable := by
  obtain ⟨hnode, hkind⟩ := Bool.and_eq_true_iff.mp hexpression
  have hgenuine := hbacked.genuine tree .self hnode
  obtain ⟨tokens, afterBreak, joined, phrase, form, body, row, hproduction, hbody, hbuilds⟩ := hgenuine.built
  cases form with
  | bare => exact hbuilds.elim
  | tight kind =>
    obtain rfl : tree = .node kind row := hbuilds
    exact (hproduction.roundTrips_literal hbody hgenuine.leaves).anyTable _
  | node kind =>
    have hbuilt : tree.BuiltOf kind row := hbuilds
    cases hkeeps : kind.keepsText with
    | false =>
      exact hbacked.roundTrips_anew hbuilt (hbuilt.kind_eq ▸ hkind) hkeeps hproduction hbody Word.isTrivia_of_mem_ofLeaves
    | true => exact hbacked.roundTrips_kept hbuilt hkeeps hproduction hbody

/-- Legible expressions of a source are read as themselves. -/
theorem Tree.roundTrips_of_isLegible {tree : Tree} (hgenuine : tree.Throughout Genuine) (hlegible : tree.IsLegible)
    (hexpression : tree.isExpression = true) : tree.RoundTrips tree.startsWithTable := by
  refine Backed.roundTrips_self ⟨hgenuine, hlegible tree .self, fun part hpart hless hpartExpression => ?_⟩ hexpression
  exact roundTrips_of_isLegible (fun inner hwithin => hgenuine inner (hwithin.trans hpart.within))
    (fun inner hwritten => hlegible inner (hwritten.trans hpart)) hpartExpression
termination_by sizeOf tree

end

/-! ### Expressions of a script -/

theorem Tree.Within.sizeOf_le {inner tree : Tree} (hwithin : inner.Within tree) : sizeOf inner ≤ sizeOf tree := by
  induction hwithin with
  | self => exact Nat.le_refl _
  | child hmem _ ih => exact Nat.le_trans ih (Nat.le_of_lt (sizeOf_lt_of_mem_children hmem))

theorem Child.within {parent : Tree} (child : Child parent) : child.tree.Within parent := by
  have hmem := child.mem_children
  cases parent with
  | token => cases hmem
  | node => exact .child hmem .self

theorem Tree.statement_of_expression {statement : Tree} {expression : Child statement}
    (hview : statement.asStatement? = some (.expression (some expression))) :
    statement.isNode = true ∧ statement.kind = .expressionStatement ∧ statement.expression? 0 = some expression := by
  rw [asStatement?] at hview
  split at hview
  · cases hview
  · next hnode =>
    split at hview
    all_goals first
      | exact ⟨by simpa using hnode, ‹_›, Statement.expression.inj (Option.some.inj hview)⟩
      | cases hview

theorem Production.body_of_expressionStatement {phrase : Phrase} {kind : Kind} {body : List Item}
    (hproduction : Production phrase (.node kind) body) (hkind : kind = .expressionStatement) :
    body = [.part (.expression 0 false), .part (.optional .semicolon)] := by
  cases hproduction
  case expressionStatement => rfl
  case jump hjump => exact absurd hkind (Grammar.forall_jumpNode? (P := (· ≠ .expressionStatement)) hjump (by decide))
  case keyword hkeyword =>
    exact absurd hkind (Grammar.forall_keywordNode? (P := (· ≠ .expressionStatement)) hkeyword (by decide))
  case chainSuffix found =>
    exact absurd hkind (Grammar.forall_suffixNode (P := (· ≠ .expressionStatement)) found (by decide))
  all_goals cases hkind

/-- The expression of a statement does not start with a table. -/
theorem Tree.Genuine.startsWithTable_eq_false {statement : Tree} (hgenuine : statement.Genuine)
    {expression : Child statement} (hview : statement.asStatement? = some (.expression (some expression))) :
    expression.tree.isExpression = true ∧ expression.tree.startsWithTable = false := by
  obtain ⟨-, hkind, hfirst⟩ := statement_of_expression hview
  obtain ⟨tokens, afterBreak, joined, phrase, form, body, row, hproduction, hbody, hbuilds⟩ := hgenuine.built
  cases form with
  | bare => exact hbuilds.elim
  | tight kind =>
    obtain rfl : statement = .node kind row := hbuilds
    have hliteral := hproduction.mem_of_tight
    rw [show kind = .expressionStatement from hkind] at hliteral
    exact absurd hliteral (by decide)
  | node kind =>
    have hbuilt : statement.BuiltOf kind row := hbuilds
    rw [hproduction.body_of_expressionStatement (hbuilt.kind_eq.symm.trans hkind)] at hbody
    obtain ⟨_, value, _, rfl, hvalue, hderives, -⟩ := hbody.expression_cons
    have hsame := hbuilt.map_expression? 0
    rw [hfirst, Option.map_some, List.filter_cons_of_pos hvalue, List.getElem?_cons_zero] at hsame
    rw [Option.some.inj hsame]
    exact ⟨hvalue, hderives.startsWithTable_eq_false Word.isTrivia_of_mem_ofLeaves⟩

/-- A legible expression of a valid script is read as itself. -/
theorem Script.parse_render_of_parse {source : String} {limits : Limits} {script : Script}
    (hparse : Script.parse source limits = .ok script) (hvalid : script.isValid = true) {statement : Tree}
    (hwithin : statement.Within script.root) {expression : Child statement}
    (hview : statement.asStatement? = some (.expression (some expression))) (hlegible : expression.tree.IsLegible) :
    ∃ written copy, Script.parse expression.tree.render .unbounded = .ok written ∧ written.diagnostics = [] ∧
      written.root.IsStatementOf copy ∧ copy.bare = expression.tree.bare := by
  have hclean := Script.diagnostics_eq_nil hvalid
  obtain ⟨hnode, hkind, -⟩ := statement_of_expression hview
  have hgenuine : statement.Genuine := by
    obtain rfl | hgenuine := Script.genuine_of_parse hparse hclean hwithin hnode
    · obtain ⟨⟨parts, -, hroot⟩, -⟩ := Script.derives_of_parse hparse hclean
      exact absurd (hroot.kind_eq.symm.trans hkind) (by decide)
    · exact hgenuine
  have hthroughout : expression.tree.Throughout Genuine := by
    intro inner hinner hinnerNode
    have hroot : inner.Within script.root := (hinner.trans expression.within).trans hwithin
    obtain rfl | hgenuine := Script.genuine_of_parse hparse hclean hroot hinnerNode
    · have hless := Nat.lt_of_lt_of_le expression.sizeOf_lt hwithin.sizeOf_le
      exact absurd (Nat.lt_of_le_of_lt hinner.sizeOf_le hless) (Nat.lt_irrefl _)
    · exact hgenuine
  obtain ⟨hexpression, htable⟩ := hgenuine.startsWithTable_eq_false hview
  have htrips := Tree.roundTrips_of_isLegible hthroughout hlegible hexpression
  rw [htable] at htrips
  exact htrips.exists_parse

/-- A table that starts an operand is read again where it is an object. -/
theorem Script.parse_render_of_difference :
    ∃ (script : Script) (statement : Tree) (expression : Child statement),
      Script.parse "x = {a = 1}.a - -f([1], function() {})" .unbounded = .ok script ∧ script.isValid = true ∧
      statement.Within script.root ∧ statement.asStatement? = some (.expression (some expression)) ∧
      expression.tree.IsLegible ∧ ∃ written copy, Script.parse expression.tree.render .unbounded = .ok written ∧
        written.diagnostics = [] ∧ written.root.IsStatementOf copy ∧ copy.bare = expression.tree.bare := by
  have houtcome : (Script.outcome? "x = {a = 1}.a - -f([1], function() {})" .unbounded).any (fun outcome => outcome.2 &&
      outcome.1.places.any fun place => place.tree.kind == .expressionStatement && place.tree.isNode &&
        (place.tree.expression? 0).any (decide ·.tree.IsLegible)) = true := by decide +kernel
  obtain ⟨script, clean, hparse, hclean, htest⟩ := Script.exists_of_outcome houtcome
  obtain ⟨htrue, hany⟩ := Bool.and_eq_true_iff.mp htest
  obtain ⟨place, hplace, hfound⟩ := List.any_eq_true.mp hany
  simp only [Bool.and_eq_true, beq_iff_eq, Option.any_eq_true, decide_eq_true_eq] at hfound
  obtain ⟨⟨hkind, hnode⟩, expression, hfirst, hlegible⟩ := hfound
  have hview : place.tree.asStatement? = some (.expression (some expression)) := by
    rw [← hfirst, asStatement?, hnode, hkind]
    rfl
  have hvalid : script.isValid = true := by rw [isValid, hclean htrue]; rfl
  have hwithin := (within_of_mem_placesFrom hplace).1
  exact ⟨script, place.tree, expression, hparse, hvalid, hwithin, hview, hlegible,
    Script.parse_render_of_parse hparse hvalid hwithin hview hlegible⟩

end Squirrel
