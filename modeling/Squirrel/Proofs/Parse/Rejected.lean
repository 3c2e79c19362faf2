import Mathlib.Data.List.DropRight
import Squirrel.Proofs.Parse.Known

/-!
# Reports about rejected tokens

A rejected token comes with a diagnostic. A rule is tactful if it does not add to that what is no news: where it reports
such a token at all, it asks for another one in its place, and it does so once. A rule is followed by what it has seen of
the token here, without running it, and a run bears out what has been seen.
-/

namespace Squirrel

/-- The reports that ask for another token in place of the one here. -/
@[grind =] def DiagnosticKind.isDemand (kind : DiagnosticKind) : Bool :=
  kind == .unexpectedToken || kind == .expectedIdentifier || kind == .expectedMember || kind == .expectedTerminator

/-- No rejected token starts where the span does. -/
def Span.Spares (tokens : List Token) (span : Span) : Prop :=
  ∀ token ∈ tokens, token.kind = .garbage → span.start ≠ token.start

namespace Token

variable {start stop : Nat} {tokens : List Token}

/-- Tokens that tile a stretch differ in where they start. -/
theorem Tile.eq_of_start_eq (htile : Tile start tokens stop) {left right : Token} (hleft : left ∈ tokens)
    (hright : right ∈ tokens) (hstart : left.start = right.start) : left = right := by
  induction tokens generalizing start with
  | nil => cases hleft
  | cons first rest ih =>
    obtain ⟨-, hpos, hrest⟩ := htile
    have hbehind (token : Token) (hmem : token ∈ rest) : first.start < token.start :=
      Nat.lt_of_lt_of_le hpos (hrest.bounds.2 token hmem).1
    rcases List.mem_cons.mp hleft with hleft | hleft <;> rcases List.mem_cons.mp hright with hright | hright
    · exact hleft.trans hright.symm
    · exact absurd (hleft ▸ hstart) (Nat.ne_of_lt (hbehind right hright))
    · exact absurd (hright ▸ hstart) (Nat.ne_of_gt (hbehind left hleft))
    · exact ih hrest hleft hright

theorem Tile.spares (htile : Tile start tokens stop) {token : Token} (hmem : token ∈ tokens)
    (hkind : token.kind ≠ .garbage) : token.span.Spares tokens := by
  intro other hother hgarbage hstart
  obtain rfl := htile.eq_of_start_eq hmem hother hstart
  exact hkind hgarbage

/-- No token starts where the last one stops. -/
theorem Tile.spares_end (htile : Tile start tokens stop) : Span.Spares tokens ⟨stop, stop⟩ := by
  intro token hmem _ hstart
  have hinside := (htile.bounds.2 token hmem).2
  have hstart : stop = token.start := hstart
  omega

end Token

/-! ### What a rule has seen -/

/-- What a rule has seen of the place where it stands. -/
structure Sight where
  /-- The kind of the token here. -/
  kind? : Option Kind
  /-- The span of the token here. -/
  span? : Option Span
  /-- The kind of the token that was passed last. -/
  passed? : Option Kind
  /-- No rejected token from here on has been reported. -/
  fresh : Prop

/-- Nothing is seen of a new place. -/
def Sight.elsewhere : Sight := ⟨none, none, none, False⟩

/-- The token here is known to be of another kind than a rejected one. -/
def Sight.IsClear (sight : Sight) : Prop := ∃ here, sight.kind? = some here ∧ here ≠ .garbage

/-- What a nonterminal asks for: variadic parameters that it may have to report are not rejected tokens. -/
@[grind =] def Nonterminal.Shuns (tokens : List Token) (nonterminal : Nonterminal) : Prop :=
  ∀ variadics count, nonterminal = parameterList variadics count → ∀ variadic ∈ variadics, variadic.2.Spares tokens

namespace Step

variable {α : Type}

/-- A report about the token here asks for another one, or the token is not rejected. A report about an earlier place
spares the rejected tokens, and so does an opener. -/
def Considerate (tokens : List Token) (sight : Sight) : Step α → Prop
  | pushOpener opener => opener.span.Spares tokens
  | report diagnostic => diagnostic.span.Spares tokens
  | reportOnce offset diagnostic =>
    sight.span? = some diagnostic.span ∧ offset = diagnostic.span.start ∧
        (diagnostic.kind.isDemand = true ∨ diagnostic.span.Spares tokens) ∨
      sight.fresh ∧ diagnostic.span.Spares tokens
  | _ => True

/-- The answers that agree with what has been seen. -/
def Suits (tokens : List Token) (sight : Sight) : Step α → α → Prop
  | current, kind => ∀ found, sight.kind? = some found → kind = found
  | currentSpan, span => ∀ kind, sight.kind? = some kind → kind ≠ .garbage → span.Spares tokens
  | atEnd, answer => answer = true → ∀ span, sight.span? = some span → span.Spares tokens
  | previous, token? => ∀ kind, sight.passed? = some kind → kind ≠ .garbage → ∀ token ∈ token?, token.span.Spares tokens
  | popOpener, opener? => ∀ opener ∈ opener?, opener.span.Spares tokens
  | _, _ => True

/-- What has been seen after a step. -/
def see (sight : Sight) : Step α → α → Sight
  | current, kind => { sight with kind? := some kind }
  | currentSpan, span => { sight with span? := some span }
  | atEnd, true => { sight with fresh := True }
  | advance, _ => ⟨none, none, sight.kind?, sight.kind?.isSome = true⟩
  | reportOnce .., _ => { sight with fresh := False }
  | _, _ => sight

end Step

namespace Rule

variable {α β : Type} {tokens : List Token}

/-- A rule that is considerate at each of its steps, whatever they answer, and that ends with an answer and with a sight as
asked for. -/
def Watches {α : Type} (tokens : List Token) : Rule α → Sight → (α → Sight → Prop) → Prop
  | done answer, sight, ended => ended answer sight
  | step s rest, sight, ended => s.Considerate tokens sight ∧
      ∀ answer, s.Suits tokens sight answer → (rest answer).Watches tokens (s.see sight answer) ended
  | wrap _ _ inner rest, sight, ended =>
    inner.Watches tokens sight fun _ after => rest.Watches tokens after ended
  | call nonterminal rest, _, ended => nonterminal.Shuns tokens ∧ rest.Watches tokens .elsewhere ended

theorem Watches.mono {rule : Rule α} {sight : Sight} {ended weaker : α → Sight → Prop}
    (hwatches : rule.Watches tokens sight ended) (hweaker : ∀ answer after, ended answer after → weaker answer after) :
    rule.Watches tokens sight weaker := by
  induction rule generalizing sight with
  | done answer => exact hweaker answer sight hwatches
  | step s rest ih => exact ⟨hwatches.1, fun answer hsuits => ih answer (hwatches.2 answer hsuits) hweaker⟩
  | wrap kind start inner rest ihinner ih => exact ihinner hwatches fun _ after hafter => ih hafter hweaker
  | call nonterminal rest ih => exact ⟨hwatches.1, ih hwatches.2 hweaker⟩

theorem watches_bind (rule : Rule α) (next : α → Rule β) (sight : Sight) (ended : β → Sight → Prop) :
    (rule >>= next).Watches tokens sight ended ↔
      rule.Watches tokens sight fun answer after => (next answer).Watches tokens after ended := by
  rw [bind_eq]
  induction rule generalizing sight with
  | done answer => rfl
  | step s rest ih =>
    exact and_congr_right fun _ => forall_congr' fun answer => forall_congr' fun _ => ih answer next _
  | wrap kind start inner rest ihinner ih =>
    have hrest (after : Sight) : (rest.bind next).Watches tokens after ended ↔
        rest.Watches tokens after fun answer after => (next answer).Watches tokens after ended := ih next _
    simp only [Rule.bind, Watches, hrest]
  | call nonterminal rest ih => exact and_congr_right fun _ => ih next _

/-! ### Tactful rules -/

/-- A rule that is considerate whatever has been seen. -/
def Tactful (tokens : List Token) (rule : Rule α) : Prop :=
  ∀ sight : Sight, rule.Watches tokens sight fun _ _ => True

/-- A rule that is considerate where the token here is known to be of a kind. -/
def TactfulAt (tokens : List Token) (kind : Kind) (rule : Rule α) : Prop :=
  ∀ sight : Sight, sight.kind? = some kind → rule.Watches tokens sight fun _ _ => True

/-- A question about the token here that is answered with `false` only where the token here is not rejected. -/
def Discerns (tokens : List Token) (rule : Rule Bool) : Prop :=
  ∀ sight : Sight, rule.Watches tokens sight fun answer after => answer = false → after.IsClear

theorem Tactful.tactfulAt {rule : Rule α} (htactful : rule.Tactful tokens) (kind : Kind) :
    rule.TactfulAt tokens kind :=
  fun sight _ => htactful sight

@[grind .] theorem tactful_pure (answer : α) : (pure answer : Rule α).Tactful tokens := fun _ => trivial

@[grind ←] theorem tactful_bind {rule : Rule α} {next : α → Rule β} (hrule : rule.Tactful tokens)
    (hnext : ∀ answer, (next answer).Tactful tokens) : (rule >>= next).Tactful tokens :=
  fun sight => (watches_bind ..).mpr ((hrule sight).mono fun answer after _ => hnext answer after)

theorem TactfulAt.bind {kind : Kind} {rule : Rule α} {next : α → Rule β} (hrule : rule.TactfulAt tokens kind)
    (hnext : ∀ answer, (next answer).Tactful tokens) : (rule >>= next).TactfulAt tokens kind :=
  fun sight hkind => (watches_bind ..).mpr ((hrule sight hkind).mono fun answer after _ => hnext answer after)

theorem Watches.ifThen {rule : Rule Bool} {sight : Sight} {yes no : Rule α}
    (hrule : rule.Watches tokens sight fun answer after => answer = false → after.IsClear) (hyes : yes.Tactful tokens)
    (hno : ∀ here ≠ .garbage, no.TactfulAt tokens here) :
    (rule >>= fun answer => if answer = true then yes else no).Watches tokens sight fun _ _ => True := by
  refine (watches_bind ..).mpr (hrule.mono fun answer after hafter => ?_)
  cases answer with
  | true => exact hyes after
  | false =>
    obtain ⟨here, hhere, hword⟩ := hafter rfl
    exact hno here hword after hhere

theorem Discerns.ifThen {rule : Rule Bool} {yes no : Rule α} (hrule : rule.Discerns tokens) (hyes : yes.Tactful tokens)
    (hno : ∀ here ≠ .garbage, no.TactfulAt tokens here) :
    (rule >>= fun answer => if answer = true then yes else no).Tactful tokens :=
  fun sight => (hrule sight).ifThen hyes hno

@[grind ←] theorem tactful_orM {left right : Rule Bool} (hleft : left.Tactful tokens) (hright : right.Tactful tokens) :
    (left <||> right).Tactful tokens :=
  tactful_bind hleft fun answer => by
    cases answer
    · exact hright
    · exact tactful_pure true

@[grind ←] theorem tactful_andM {left right : Rule Bool} (hleft : left.Tactful tokens) (hright : right.Tactful tokens) :
    (left <&&> right).Tactful tokens :=
  tactful_bind hleft fun answer => by
    cases answer
    · exact tactful_pure false
    · exact hright

@[grind ←] theorem tactful_map {f : α → β} {rule : Rule α} (hrule : rule.Tactful tokens) : (f <$> rule).Tactful tokens :=
  tactful_bind hrule fun _ => tactful_pure _

end Rule

/-! ### What the states of a run bear out -/

/-- The reports that start where the token does. -/
def Token.told (token : Token) (reports : List Diagnostic) : List Diagnostic :=
  reports.filter (·.span.start == token.start)

theorem Token.told_cons_of_ne {token : Token} {diagnostic : Diagnostic} {reports : List Diagnostic}
    (hstart : diagnostic.span.start ≠ token.start) : token.told (diagnostic :: reports) = token.told reports :=
  List.filter_cons_of_neg (by simpa using hstart)

namespace State

/-- The first token that is no trivia. -/
def wordOf (ahead : List Token) : Option Token := (ahead.dropWhile (·.kind.isTrivia)).head?

theorem wordOf_of_trivia {token : Token} {rest : List Token} (htrivia : token.kind.isTrivia = true) :
    wordOf (token :: rest) = wordOf rest :=
  congrArg List.head? (List.dropWhile_cons_of_pos htrivia)

theorem wordOf_of_word {token : Token} {rest : List Token} (hword : token.kind.isTrivia = false) :
    wordOf (token :: rest) = some token :=
  congrArg List.head? (List.dropWhile_cons_of_neg (by simp [hword]))

/-- The tokens ahead are what is left of a row. Each rejected token of it has at most one report, which asks for another
token; and one that is still ahead has a report only if it is the next word and the last report was about it. -/
structure Tactful (state : State) (tokens : List Token) : Prop where
  row : state.behind.reverse ++ state.ahead = tokens
  tile : Token.Tile 0 tokens state.sourceLength
  openers : ∀ opener ∈ state.openers, opener.span.Spares tokens
  once : ∀ token ∈ tokens, token.kind = .garbage →
    (token.told state.reports).length ≤ 1 ∧ ∀ diagnostic ∈ token.told state.reports, diagnostic.kind.isDemand = true
  next : ∀ token ∈ state.ahead, token.kind = .garbage → token.told state.reports ≠ [] →
    state.lastReport? = some token.start ∧ wordOf state.ahead = some token

end State

/-- What has been seen is so. -/
structure Sight.Holds (sight : Sight) (tokens : List Token) (state : State) : Prop extends state.Tactful tokens where
  kind : ∀ kind, sight.kind? = some kind → state.IsSettled ∧ State.kindOf state.ahead = kind
  span : ∀ span, sight.span? = some span → state.IsSettled ∧ state.spanHere = span
  passed : ∀ kind, sight.passed? = some kind →
    ∀ token, state.behind.find? (!·.kind.isTrivia) = some token → token.kind = kind
  fresh : sight.fresh → ∀ token ∈ state.ahead, token.kind = .garbage → token.told state.reports = []

namespace Sight

variable {sight : Sight} {tokens : List Token} {state after : State}

theorem Holds.elsewhere (htactful : state.Tactful tokens) : Sight.elsewhere.Holds tokens state :=
  { htactful with kind := nofun, span := nofun, passed := nofun, fresh := False.elim }

theorem Holds.mem_ahead (hholds : sight.Holds tokens state) {token : Token} (hmem : token ∈ state.ahead) :
    token ∈ tokens :=
  hholds.row ▸ List.mem_append_right _ hmem

/-- The span here spares the rejected tokens, unless the token here is one. -/
theorem Holds.spares (hholds : sight.Holds tokens state) (hkind : State.kindOf state.ahead ≠ .garbage) :
    state.spanHere.Spares tokens := by
  rw [State.spanHere]
  split
  · exact hholds.tile.spares_end
  · next token rest hahead =>
    refine hholds.tile.spares (hholds.mem_ahead (hahead ▸ List.mem_cons_self)) ?_
    rwa [hahead] at hkind

/-- A rejected token that starts where the token here does is the token here. -/
theorem Holds.ahead_of_start (hholds : sight.Holds tokens state) {token : Token} (hmem : token ∈ tokens)
    (hgarbage : token.kind = .garbage) (hstart : state.spanHere.start = token.start) :
    ∃ rest, state.ahead = token :: rest := by
  rw [State.spanHere] at hstart
  split at hstart
  · exact absurd hstart (hholds.tile.spares_end token hmem hgarbage)
  · next first rest hahead =>
    have hfirst := hholds.tile.eq_of_start_eq (hholds.mem_ahead (hahead ▸ List.mem_cons_self)) hmem hstart
    exact ⟨rest, hfirst ▸ hahead⟩

theorem Holds.passTrivia (hholds : sight.Holds tokens state) : sight.Holds tokens state.passTrivia where
  row := by
    rw [← hholds.row]
    simp [State.passTrivia, List.takeWhile_append_dropWhile]
  tile := hholds.tile
  openers := hholds.openers
  once := hholds.once
  next token hmem hgarbage htold := by
    obtain ⟨hlast, hword⟩ := hholds.next token ((List.dropWhile_suffix _).subset hmem) hgarbage htold
    refine ⟨hlast, ?_⟩
    rw [← hword, State.wordOf, State.wordOf, State.passTrivia, List.dropWhile_idempotent]
  kind kind hkind := by
    obtain ⟨hsettled, hhere⟩ := hholds.kind kind hkind
    rw [State.passTrivia_of_isSettled hsettled]
    exact ⟨hsettled, hhere⟩
  span span hspan := by
    obtain ⟨hsettled, hhere⟩ := hholds.span span hspan
    rw [State.passTrivia_of_isSettled hsettled]
    exact ⟨hsettled, hhere⟩
  passed kind hkind token hfound := by
    have hnone : (state.ahead.takeWhile (·.kind.isTrivia)).reverse.find? (!·.kind.isTrivia) = none := by
      refine List.find?_eq_none.mpr fun trivia hmem => ?_
      simpa using List.mem_takeWhile_imp (List.mem_reverse.mp hmem)
    rw [State.passTrivia, List.find?_append, hnone, Option.none_or] at hfound
    exact hholds.passed kind hkind token hfound
  fresh hfresh token hmem := hholds.fresh hfresh token ((List.dropWhile_suffix _).subset hmem)

/-- The trees and the limits do not count. -/
theorem Holds.change (hholds : sight.Holds tokens state) {openers : List Opener}
    (hopeners : ∀ opener ∈ openers, opener.span.Spares tokens) (pending : List Token) (placed : List Tree)
    (looks depth : Nat) (exceeded? : Option LimitExceeded) :
    sight.Holds tokens { state with openers, pending, placed, looks, depth, exceeded? } :=
  ⟨⟨hholds.row, hholds.tile, hopeners, hholds.once, hholds.next⟩, hholds.kind, hholds.span, hholds.passed, hholds.fresh⟩

theorem Holds.spendLook (hholds : sight.Holds tokens state) (hlook : state.spendLook = .ok after) :
    sight.Holds tokens after := by
  rw [State.eq_of_spendLook hlook]
  exact hholds.change hholds.openers ..

/-- The token here comes before those that stay ahead. -/
theorem Holds.ne_of_mem (hholds : sight.Holds tokens state) {token other : Token} {rest : List Token}
    (hahead : state.ahead = token :: rest) (hmem : other ∈ rest) : other ≠ token := by
  rintro rfl
  obtain ⟨middle, -, htile⟩ := Token.Tile.split (hholds.row ▸ hholds.tile)
  rw [hahead] at htile
  exact Nat.not_lt.mpr (htile.2.2.bounds.2 other hmem).1 htile.2.1

/-- Once a word is passed, nothing has been reported about those behind it. -/
theorem Holds.told_of_word (hholds : sight.Holds tokens state) {token other : Token} {rest : List Token}
    (hahead : state.ahead = token :: rest) (hword : token.kind.isTrivia = false) (hmem : other ∈ rest)
    (hgarbage : other.kind = .garbage) : other.told state.reports = [] := by
  refine Classical.byContradiction fun htold => ?_
  have hnext := (hholds.next other (hahead ▸ List.mem_cons_of_mem _ hmem) hgarbage htold).2
  rw [hahead, State.wordOf_of_word hword] at hnext
  exact hholds.ne_of_mem hahead hmem (Option.some.inj hnext).symm

theorem Holds.advance (hholds : sight.Holds tokens state) (hadvance : state.advance = .ok after) :
    (Sight.mk none none sight.kind? (sight.kind?.isSome = true)).Holds tokens after := by
  obtain ⟨token, rest, left?, exceeded?, hahead, -, rfl⟩ := State.advance_ok hadvance
  have hseen {kind : Kind} (hkind : sight.kind? = some kind) : token.kind.isTrivia = false ∧ token.kind = kind := by
    have hhere := hholds.kind kind hkind
    rwa [State.IsSettled, hahead] at hhere
  refine ⟨⟨?_, hholds.tile, hholds.openers, hholds.once, fun other hmem hgarbage htold => ?_⟩, by simp, by simp,
    fun kind hkind found hfound => ?_, fun hsome other hmem hgarbage => ?_⟩
  · rw [← hholds.row, hahead, List.reverse_cons, List.append_assoc]
    rfl
  · cases htrivia : token.kind.isTrivia with
    | true =>
      have hnext := hholds.next other (hahead ▸ List.mem_cons_of_mem _ hmem) hgarbage htold
      rwa [hahead, State.wordOf_of_trivia htrivia] at hnext
    | false => exact absurd (hholds.told_of_word hahead htrivia hmem hgarbage) htold
  · obtain ⟨hword, hhere⟩ := hseen hkind
    rw [List.find?_cons_of_pos (by simp [hword])] at hfound
    exact Option.some.inj hfound ▸ hhere
  · obtain ⟨kind, hkind⟩ := Option.isSome_iff_exists.mp hsome
    exact hholds.told_of_word hahead (hseen hkind).1 hmem hgarbage

/-- A report that spares the rejected tokens says nothing about them. It may count as the last one if nothing has been
reported about those ahead. -/
theorem Holds.report (hholds : sight.Holds tokens state) {diagnostic : Diagnostic} {last? : Option Nat}
    (hspares : diagnostic.span.Spares tokens) (hlast : last? = state.lastReport? ∨ sight.fresh) :
    sight.Holds tokens { state with lastReport? := last?, reports := diagnostic :: state.reports } := by
  have htold {token : Token} (hmem : token ∈ tokens) (hgarbage : token.kind = .garbage) :
      token.told (diagnostic :: state.reports) = token.told state.reports :=
    Token.told_cons_of_ne (hspares token hmem hgarbage)
  refine ⟨⟨hholds.row, hholds.tile, hholds.openers, fun token hmem hgarbage => ?_, fun token hmem hgarbage => ?_⟩,
    hholds.kind, hholds.span, hholds.passed, fun hfresh token hmem hgarbage => ?_⟩
  · rw [htold hmem hgarbage]
    exact hholds.once token hmem hgarbage
  · rw [htold (hholds.mem_ahead hmem) hgarbage]
    obtain rfl | hfresh := hlast
    · exact hholds.next token hmem hgarbage
    · exact fun hsome => absurd (hholds.fresh hfresh token hmem hgarbage) hsome
  · rw [htold (hholds.mem_ahead hmem) hgarbage]
    exact hholds.fresh hfresh token hmem hgarbage

/-- A report about the token here is the first one about it, for a second one is kept back. -/
theorem Holds.reportHere (hholds : sight.Holds tokens state) {diagnostic : Diagnostic}
    (hspan : sight.span? = some diagnostic.span)
    (hdemand : diagnostic.kind.isDemand = true ∨ diagnostic.span.Spares tokens)
    (hlast : state.lastReport? ≠ some diagnostic.span.start) :
    { sight with fresh := False : Sight }.Holds tokens
      { state with lastReport? := some diagnostic.span.start, reports := diagnostic :: state.reports } := by
  obtain ⟨hsettled, hhere⟩ := hholds.span _ hspan
  have hahead {token : Token} (hmem : token ∈ tokens) (hgarbage : token.kind = .garbage)
      (hstart : diagnostic.span.start = token.start) : ∃ rest, state.ahead = token :: rest :=
    hholds.ahead_of_start hmem hgarbage (hhere ▸ hstart)
  refine ⟨⟨hholds.row, hholds.tile, hholds.openers, fun token hmem hgarbage => ?_, fun token hmem hgarbage htold => ?_⟩,
    hholds.kind, hholds.span, hholds.passed, False.elim⟩
  · by_cases hstart : diagnostic.span.start = token.start
    · obtain ⟨rest, hahead⟩ := hahead hmem hgarbage hstart
      have hnone : token.told state.reports = [] := Classical.byContradiction fun htold =>
        hlast (hstart ▸ (hholds.next token (hahead ▸ List.mem_cons_self) hgarbage htold).1)
      have hfirst : token.told (diagnostic :: state.reports) = [diagnostic] :=
        (List.filter_cons_of_pos (by simpa using hstart)).trans (congrArg _ hnone)
      rw [hfirst]
      refine ⟨Nat.le_refl _, fun found hfound => ?_⟩
      obtain rfl := List.mem_singleton.mp hfound
      exact hdemand.resolve_right fun hspares => hspares token hmem hgarbage hstart
    · rw [Token.told_cons_of_ne hstart]
      exact hholds.once token hmem hgarbage
  · by_cases hstart : diagnostic.span.start = token.start
    · obtain ⟨rest, hahead⟩ := hahead (hholds.mem_ahead hmem) hgarbage hstart
      refine ⟨congrArg some hstart, ?_⟩
      rw [hahead, State.wordOf_of_word (by rw [hgarbage]; rfl)]
    · rw [Token.told_cons_of_ne hstart] at htold
      have hword := (hholds.next token hmem hgarbage htold).2
      -- the token has been reported as the next word, and the next word is the token here
      cases hfirst : state.ahead with
      | nil => exact nomatch hfirst ▸ hmem
      | cons first rest =>
        rw [State.IsSettled, hfirst] at hsettled
        rw [hfirst, State.wordOf_of_word hsettled] at hword
        rw [State.spanHere, hfirst] at hhere
        obtain rfl := Option.some.inj hword
        exact absurd (congrArg Span.start hhere).symm hstart

theorem Holds.reportOnce (hholds : sight.Holds tokens state) {offset : Nat} {diagnostic : Diagnostic}
    (hconsiderate : (Step.reportOnce offset diagnostic).Considerate tokens sight) :
    { sight with fresh := False : Sight }.Holds tokens (state.reportOnce offset diagnostic) := by
  rw [State.reportOnce]
  split
  · exact { hholds with fresh := False.elim }
  · next hlast =>
    obtain ⟨hspan, rfl, hdemand⟩ | ⟨hfresh, hspares⟩ := hconsiderate
    · exact hholds.reportHere hspan hdemand hlast
    · exact { hholds.report hspares (.inr hfresh) with fresh := False.elim }

end Sight

/-- A considerate step answers in agreement with what has been seen, and what it shows is so. -/
theorem Step.seen_of_run {α : Type} (step : Step α) {sight : Sight} {tokens : List Token} {state after : State}
    {answer : α} (hconsiderate : step.Considerate tokens sight) (hholds : sight.Holds tokens state)
    (hrun : step.run state = .ok (answer, after)) :
    step.Suits tokens sight answer ∧ (step.see sight answer).Holds tokens after := by
  have hpassed := hholds.passTrivia
  have hspares (kind : Kind) (hkind : sight.kind? = some kind) (hword : kind ≠ .garbage) :
      state.passTrivia.spanHere.Spares tokens :=
    hpassed.spares ((hpassed.kind kind hkind).2 ▸ hword)
  cases step <;> simp only [Step.run, bind, Except.bind, pure, Except.pure, Except.ok.injEq, Prod.mk.injEq] at hrun
  case current =>
    split at hrun
    · cases hrun
    · next looked hlook =>
      obtain ⟨rfl, rfl⟩ := Prod.mk.inj (Except.ok.inj hrun)
      have hlooked := hpassed.spendLook hlook
      have hsettled : looked.IsSettled := by
        rw [State.eq_of_spendLook hlook]
        exact state.isSettled_passTrivia
      refine ⟨fun found hfound => (hlooked.kind found hfound).2, { hlooked with kind := fun kind hkind => ?_ }⟩
      exact ⟨hsettled, Option.some.inj hkind⟩
  case adjacent =>
    split at hrun
    · cases hrun
    · next looked hlook =>
      obtain ⟨-, rfl⟩ := Prod.mk.inj (Except.ok.inj hrun)
      exact ⟨trivial, hpassed.spendLook hlook⟩
  case next | afterLineBreak | numberFollows => exact hrun.2 ▸ ⟨trivial, hpassed⟩
  case currentSpan =>
    obtain ⟨rfl, rfl⟩ := hrun
    refine ⟨hspares, { hpassed with span := fun span hspan => ?_ }⟩
    exact ⟨state.isSettled_passTrivia, Option.some.inj hspan⟩
  case previous =>
    obtain ⟨rfl, rfl⟩ := hrun
    refine ⟨fun kind hkind hword token hmem => ?_, hholds⟩
    have hbehind : token ∈ tokens :=
      hholds.row ▸ List.mem_append_left _ (List.mem_reverse.mpr (List.mem_of_find?_eq_some hmem))
    exact hholds.tile.spares hbehind (hholds.passed kind hkind token hmem ▸ hword)
  case atEnd =>
    obtain ⟨rfl, rfl⟩ := hrun
    cases hend : state.atEnd with
    | true =>
      have hahead : state.ahead = [] := List.isEmpty_iff.mp hend
      refine ⟨fun _ span hspan => ?_, { hholds with fresh := fun _ token hmem => ?_ }⟩
      · rw [← (hholds.span span hspan).2, State.spanHere, hahead]
        exact hholds.tile.spares_end
      · simp [hahead] at hmem
    | false => exact ⟨fun htrue => absurd htrue Bool.false_ne_true, hholds⟩
  case stopped => exact hrun.2 ▸ ⟨trivial, hholds⟩
  case advance =>
    split at hrun
    · cases hrun
    · next advanced hadvance =>
      obtain ⟨-, rfl⟩ := Prod.mk.inj (Except.ok.inj hrun)
      exact ⟨trivial, hholds.advance hadvance⟩
  case mark => exact hrun.2 ▸ ⟨trivial, hholds.change hholds.openers ..⟩
  case placeTrivia => exact hrun.2 ▸ ⟨trivial, hpassed.change hholds.openers ..⟩
  case pushOpener opener =>
    refine hrun.2 ▸ ⟨trivial, hholds.change (fun found hmem => ?_) ..⟩
    obtain rfl | hmem := List.mem_cons.mp hmem
    · exact hconsiderate
    · exact hholds.openers found hmem
  case popOpener =>
    obtain ⟨rfl, rfl⟩ := hrun
    exact ⟨fun opener hmem => hholds.openers opener (List.mem_of_mem_head? hmem),
      hholds.change (fun opener hmem => hholds.openers opener (List.mem_of_mem_tail hmem)) ..⟩
  case ascend => exact hrun.2 ▸ ⟨trivial, hholds.change hholds.openers ..⟩
  case report diagnostic => exact hrun.2 ▸ ⟨trivial, hholds.report hconsiderate (.inl rfl)⟩
  case reportOnce offset diagnostic => exact hrun.2 ▸ ⟨trivial, hholds.reportOnce hconsiderate⟩
  case descend =>
    refine ⟨trivial, ?_⟩
    rw [State.descend] at hrun
    split at hrun <;> exact (Prod.mk.inj hrun).2 ▸ hholds.change hholds.openers ..

/-! ### Runs -/

/-- A run of a considerate rule bears out what the rule sees. -/
theorem Rule.Watches.exec {α : Type} {bound : Nat} {tokens : List Token}
    (hcalls : ∀ (nonterminal : Nonterminal) (state after : State), nonterminal.Shuns tokens → state.Tactful tokens →
      nonterminal.run bound state = .ok after → after.Tactful tokens)
    {rule : Rule α} {sight : Sight} {ended : α → Sight → Prop} {state after : State} {answer : α}
    (hwatches : rule.Watches tokens sight ended) (hholds : sight.Holds tokens state)
    (hexec : rule.exec (Nonterminal.run bound) state = .ok (answer, after)) :
    ∃ seen : Sight, seen.Holds tokens after ∧ ended answer seen := by
  induction rule generalizing sight state after with
  | done found =>
    obtain ⟨rfl, rfl⟩ := Prod.mk.inj (Except.ok.inj hexec)
    exact ⟨sight, hholds, hwatches⟩
  | step s rest ih =>
    obtain ⟨found, between, hrun, hexec⟩ := exec_step_ok hexec
    obtain ⟨hsuits, hseen⟩ := s.seen_of_run hwatches.1 hholds hrun
    exact ih found (hwatches.2 found hsuits) hseen hexec
  | wrap kind start inner rest ihinner ih =>
    obtain ⟨between, hinner, hexec⟩ := exec_wrap_ok hexec
    obtain ⟨seen, hseen, hrest⟩ := ihinner hwatches (hholds.change hholds.openers ..) hinner
    exact ih hrest (hseen.change hseen.openers ..) hexec
  | call nonterminal rest ih =>
    obtain ⟨between, hcall, hexec⟩ := exec_call_ok hexec
    exact ih hwatches.2 (.elsewhere (hcalls nonterminal state between hwatches.1 hholds.toTactful hcall)) hexec

/-- If the rule of every nonterminal is tactful, every run is. -/
theorem Nonterminal.tactful_of_run {tokens : List Token}
    (hrules : ∀ nonterminal : Nonterminal, nonterminal.Shuns tokens → (Grammar.ruleOf nonterminal).Tactful tokens)
    (bound : Nat) (nonterminal : Nonterminal) (state after : State) (hshuns : nonterminal.Shuns tokens)
    (htactful : state.Tactful tokens) (hrun : nonterminal.run bound state = .ok after) : after.Tactful tokens := by
  induction bound generalizing nonterminal state after with
  | zero => cases hrun
  | succ bound ih =>
    obtain ⟨seen, hseen, -⟩ := (hrules nonterminal hshuns .elsewhere).exec ih (.elsewhere htactful) (Rule.exec_of_run hrun)
    exact hseen.toTactful

theorem State.tactful_initial {limits : Limits} {tokens : List Token} {sourceLength : Nat}
    (htile : Token.Tile 0 tokens sourceLength) : (State.initial limits tokens sourceLength).Tactful tokens where
  row := rfl
  tile := htile
  openers := nofun
  once _ _ _ := ⟨Nat.zero_le _, nofun⟩
  next _ _ _ htold := absurd rfl htold

end Squirrel
