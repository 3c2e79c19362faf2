import Squirrel.Proofs.Parse.Known
import Squirrel.Proofs.Token.Delimiter

/-!
# Orderly rules

A rule keeps house: it moves past the closer of every delimiter that it has opened in a node, or gives the opener up
there; it takes into a node only what has been placed since a mark of its own; and what it reports lies in the source,
or tells that the source ended too early. A rule is followed by what it has on record about the place where it stands
and about the open node, without running it, and a run bears the record out.
-/

namespace Squirrel

/-! ### Reports -/

/-- A span of some text in a source of the given length. -/
def Span.IsInside (length : Nat) (span : Span) : Prop := span.start < span.stop ∧ span.stop ≤ length

/-- Something was still missing where the source ended. -/
def DiagnosticKind.isEnd (kind : DiagnosticKind) : Bool := kind.isStructural || kind == .unexpectedEof

namespace Diagnostic

variable (length : Nat) (diagnostic : Diagnostic)

/-- A report about some text of the source. -/
def IsLocal : Prop := diagnostic.kind.isEnd = false ∧ diagnostic.span.IsInside length

/-- A report that the source ended too early, at its end. -/
def IsEof : Prop := diagnostic.kind = .unexpectedEof ∧ diagnostic.span = ⟨length, length⟩

/-- A report about an opener that is never closed, from the opener to the end. -/
def Blames (opener : Opener) : Prop :=
  diagnostic.kind = Grammar.unclosedKind opener.kind ∧ diagnostic.span = ⟨opener.span.start, length⟩ ∧
    diagnostic.related.map Related.span = [opener.span]

variable {length} {diagnostic}

theorem IsLocal.not_structural (hlocal : diagnostic.IsLocal length) : ¬diagnostic.kind.isStructural = true := fun hkind => by
  have hend := hlocal.1
  rw [DiagnosticKind.isEnd, hkind] at hend
  cases hend

theorem Blames.isStructural {opener : Opener} (hblames : diagnostic.Blames length opener) :
    diagnostic.kind.isStructural = true := by
  rw [hblames.1, Grammar.unclosedKind.eq_def]
  split <;> rfl

theorem Blames.isEnd {opener : Opener} (hblames : diagnostic.Blames length opener) : diagnostic.kind.isEnd = true := by
  rw [DiagnosticKind.isEnd, hblames.isStructural]
  rfl

end Diagnostic

namespace Grammar

/-- What an `if` statement consists of. -/
def ifBody : Rule Unit := do
  advance
  if ← currentIs .parenOpen then parenthesized
  else
    let _ ← expect .parenOpen "`(` after `if`"
  body "`if` branch"
  if ← currentIs .kwElse then
    node .elseStatement do
      advance
      body "`else` branch"

end Grammar

/-! ### Records -/

/-- What a rule has on record about the place where it stands and about the open node. -/
structure Ledger where
  /-- The kind of the token here. -/
  kind? : Option Kind
  /-- The span of the token here. -/
  span? : Option Span
  /-- Nothing is left. -/
  ended : Prop
  /-- Nothing has been reported about the end of the source. -/
  fresh : Prop
  /-- How many trees have been placed. -/
  marked? : Option Nat
  /-- The kind of the token here, once it is remembered as an opener. -/
  raised? : Option Kind
  /-- The openers that the rule has moved past in the open node and not given up, the innermost one first. -/
  own : List Kind
  /-- The opener that has just been given up and may have to be reported. -/
  left? : Option Opener
  /-- No closer has been placed. -/
  bare : Prop

namespace Ledger

/-- No opener is about to be placed or reported. -/
structure AtRest (ledger : Ledger) : Prop where
  raised : ledger.raised? = none
  left : ledger.left? = none

/-- What a part of a rule keeps: all that it has opened is closed again, and while it is guarded it places no closer. -/
structure IsKept (guarded : Bool) (ledger after : Ledger) : Prop where
  rest : after.AtRest
  own : after.own = ledger.own
  bare : guarded = true → ledger.bare → after.bare

variable {guarded : Bool} {ledger between after : Ledger}

theorem IsKept.refl (hrest : ledger.AtRest) : ledger.IsKept guarded ledger := ⟨hrest, rfl, fun _ hbare => hbare⟩

theorem IsKept.trans (hfirst : ledger.IsKept guarded between) (hsecond : between.IsKept guarded after) :
    ledger.IsKept guarded after :=
  ⟨hsecond.rest, hsecond.own.trans hfirst.own, fun hguarded hbare =>
    hsecond.bare hguarded (hfirst.bare hguarded hbare)⟩

/-- What is on record inside a node that is opened here. -/
def inside (ledger : Ledger) : Ledger := { ledger with marked? := none, own := [], bare := False }

/-- What is on record once the open node is closed and its parent goes on. -/
def outside (ledger inner : Ledger) : Ledger :=
  { inner with marked? := none, own := ledger.own, bare := ledger.bare }

end Ledger

/-- Whether a nonterminal places no closer in the open node. -/
@[simp] def Nonterminal.isBare : Nonterminal → Bool
  | skipUntil _ | skipToStatement => false
  | _ => true

/-- What a nonterminal asks for: skipping may pass closers, so that no opener may wait for one, and the operators take in
what has been placed since the start of an expression. -/
@[simp] def Nonterminal.Asks (length base : Nat) (ledger : Ledger) : Nonterminal → Prop
  | operators start _ => ledger.own = [] ∧ base ≤ start
  | skipUntil _ | skipToStatement => ledger.own = []
  | path separator => separator.isCloser = false
  | parameterList variadics _ => ∀ variadic ∈ variadics, variadic.2.IsInside length
  | _ => True

/-- What is on record after a call. -/
def Ledger.beyond (ledger : Ledger) (nonterminal : Nonterminal) : Ledger where
  kind? := none
  span? := none
  ended := False
  fresh := False
  marked? := none
  raised? := none
  own := ledger.own
  left? := none
  bare := ledger.bare ∧ nonterminal.isBare = true

namespace Step

variable {α : Type}

/-- The steps that are in order. Only a closer that is known not to be one is placed while an opener waits, and a report is
about some text, or it is about the end and made where nothing is left. -/
def Permitted (length : Nat) (ledger : Ledger) : Step α → Prop
  | advance => (ledger.left? = none ∨ ledger.kind?.isSome = true) ∧
      (ledger.own = [] ∧ ledger.raised? = none ∨ ∃ kind, ledger.kind? = some kind ∧ kind.isCloser = false)
  | pushOpener opener => ledger.raised? = none ∧ ledger.kind? = some opener.kind ∧ ledger.span? = some opener.span ∧
      opener.kind.closer?.isSome = true
  | popOpener => ledger.AtRest ∧ ledger.own ≠ []
  | report diagnostic => diagnostic.IsLocal length
  | reportOnce offset diagnostic => (ledger.fresh ∧ diagnostic.IsLocal length ∧ offset = diagnostic.span.start) ∨
      (ledger.ended ∧ offset = length ∧
        (diagnostic.IsEof length ∨ ∃ opener, ledger.left? = some opener ∧ diagnostic.Blames length opener))
  | _ => True

/-- The answers that agree with what is on record. Only so many trees lie below all marks of the rule. -/
def Answers (length base : Nat) (ledger : Ledger) : Step α → α → Prop
  | current, kind => ∀ found, ledger.kind? = some found → kind = found
  | currentSpan, span => (ledger.ended → span = ⟨length, length⟩) ∧
      ∀ kind, ledger.kind? = some kind → kind ≠ .error → span.IsInside length
  | atEnd, answer => (∀ span, ledger.span? = some span →
        if answer = true then span = ⟨length, length⟩ else span.IsInside length) ∧
      ∀ kind, ledger.kind? = some kind → kind ≠ .error → answer = false
  | previous, token? => ∀ token ∈ token?, token.span.IsInside length
  | mark, count => base ≤ count
  | popOpener, opener? => ∃ opener, opener? = some opener ∧ ledger.own.head? = some opener.kind
  | _, _ => True

/-- What is on record after a step. -/
def record (ledger : Ledger) : Step α → α → Ledger
  | current, kind => { ledger with kind? := some kind, fresh := ledger.fresh ∨ kind ≠ .error }
  | currentSpan, span => { ledger with span? := some span }
  | atEnd, true => { ledger with ended := True }
  | atEnd, false => { ledger with fresh := True, left? := if ledger.kind?.isSome then none else ledger.left? }
  | advance, _ =>
    { kind? := none
      span? := none
      ended := False
      fresh := True
      marked? := none
      raised? := none
      own := ledger.raised?.toList ++ ledger.own
      left? := none
      bare := ledger.bare ∧ ∃ kind, ledger.kind? = some kind ∧ kind.isCloser = false }
  | mark, count => { ledger with marked? := some count }
  | placeTrivia, _ => { ledger with marked? := none }
  | pushOpener opener, _ => { ledger with raised? := some opener.kind }
  | popOpener, opener? => { ledger with own := ledger.own.tail, left? := opener? }
  | reportOnce _ diagnostic, _ =>
    { ledger with
      fresh := ledger.fresh ∧ diagnostic.kind.isEnd = false
      left? := if diagnostic.kind.isEnd then none else ledger.left? }
  | _, _ => ledger

end Step

namespace Rule

variable {α β : Type} {length base : Nat}

/-- A rule that keeps house, whatever its steps answer, and that ends with an answer and with a record as asked for. An
`if` is built by its own rule only, around nothing that has been placed before. -/
def Orderly {α : Type} (length base : Nat) : Rule α → Ledger → (α → Ledger → Prop) → Prop
  | done answer, ledger, ended => ended answer ledger
  | step s rest, ledger, ended => s.Permitted length ledger ∧
      ∀ answer, s.Answers length base ledger answer → (rest answer).Orderly length base (s.record ledger answer) ended
  | wrap kind start inner rest, ledger, ended => ledger.AtRest ∧
      (ledger.marked? = some start ∨ ledger.own = [] ∧ base ≤ start) ∧
      (kind = .ifStatement → inner = Grammar.ifBody ∧ ledger.marked? = some start) ∧
      inner.Orderly length 0 ledger.inside fun _ after =>
        after.AtRest ∧ after.own = [] ∧ rest.Orderly length base (ledger.outside after) ended
  | call nonterminal rest, ledger, ended => ledger.AtRest ∧ nonterminal.Asks length base ledger ∧
      rest.Orderly length base (ledger.beyond nonterminal) ended

theorem Orderly.mono {rule : Rule α} {ledger : Ledger} {ended weaker : α → Ledger → Prop}
    (horderly : rule.Orderly length base ledger ended)
    (hweaker : ∀ answer after, ended answer after → weaker answer after) :
    rule.Orderly length base ledger weaker := by
  induction rule generalizing base ledger with
  | done answer => exact hweaker answer ledger horderly
  | step s rest ih => exact ⟨horderly.1, fun answer hanswers => ih answer (horderly.2 answer hanswers) hweaker⟩
  | wrap kind start inner rest ihinner ih =>
    obtain ⟨hrest, htakes, hif, hinner⟩ := horderly
    exact ⟨hrest, htakes, hif, ihinner hinner fun _ after hafter => ⟨hafter.1, hafter.2.1, ih hafter.2.2 hweaker⟩⟩
  | call nonterminal rest ih => exact ⟨horderly.1, horderly.2.1, ih horderly.2.2 hweaker⟩

theorem orderly_bind (rule : Rule α) (next : α → Rule β) (ledger : Ledger) (ended : β → Ledger → Prop) :
    (rule >>= next).Orderly length base ledger ended ↔
      rule.Orderly length base ledger fun answer after => (next answer).Orderly length base after ended := by
  rw [bind_eq]
  induction rule generalizing base ledger with
  | done answer => rfl
  | step s rest ih =>
    exact and_congr_right fun _ => forall_congr' fun answer => forall_congr' fun _ => ih answer next _
  | wrap kind start inner rest ihinner ih =>
    have hrest (after : Ledger) : (rest.bind next).Orderly length base (ledger.outside after) ended ↔
        rest.Orderly length base (ledger.outside after)
          fun answer after => (next answer).Orderly length base after ended := ih next _
    simp only [Rule.bind, Orderly, hrest]
  | call nonterminal rest ih => exact and_congr_right fun _ => and_congr_right fun _ => ih next _

/-! ### Regular rules -/

/-- A rule that leaves the open delimiters as it finds them. While openers of others wait in the open node, it places no
closer there. -/
def Regular (length base : Nat) (guarded : Bool) (rule : Rule α) : Prop :=
  ∀ ledger : Ledger, ledger.AtRest → (guarded = false → ledger.own = []) →
    rule.Orderly length base ledger fun _ after => ledger.IsKept guarded after

/-- The same where a token of the given kind is known to be here. -/
def RegularAt (length base : Nat) (guarded : Bool) (kind : Kind) (rule : Rule α) : Prop :=
  ∀ ledger : Ledger, ledger.AtRest → (guarded = false → ledger.own = []) → ledger.kind? = some kind →
    rule.Orderly length base ledger fun _ after => ledger.IsKept guarded after

variable {guarded : Bool}

theorem Regular.regularAt {rule : Rule α} (hregular : rule.Regular length base guarded) (kind : Kind) :
    rule.RegularAt length base guarded kind := fun ledger hrest hguarded _ => hregular ledger hrest hguarded

/-- A rule goes on regularly from what is kept. -/
theorem Regular.after {rule : Rule α} {ledger after : Ledger} (hregular : rule.Regular length base guarded)
    (hkept : ledger.IsKept guarded after) (hguarded : guarded = false → ledger.own = []) :
    rule.Orderly length base after fun _ last => ledger.IsKept guarded last :=
  (hregular after hkept.rest fun hfalse => hkept.own.trans (hguarded hfalse)).mono fun _ _ hlast => hkept.trans hlast

theorem Regular.andThen {rule : Rule α} {next : α → Rule β} {ledger : Ledger} {ended : β → Ledger → Prop}
    (hregular : rule.Regular length base guarded) (hrest : ledger.AtRest) (hown : ledger.own = [])
    (hnext : ∀ answer after, ledger.IsKept guarded after → (next answer).Orderly length base after ended) :
    (rule >>= next).Orderly length base ledger ended :=
  (orderly_bind ..).mpr ((hregular ledger hrest fun _ => hown).mono fun answer after hkept => hnext answer after hkept)

theorem RegularAt.bind {kind : Kind} {rule : Rule α} {next : α → Rule β} (hrule : rule.RegularAt length base guarded kind)
    (hnext : ∀ answer, (next answer).Regular length base guarded) :
    (rule >>= next).RegularAt length base guarded kind := by
  intro ledger hrest hguarded hkind
  refine (orderly_bind ..).mpr ((hrule ledger hrest hguarded hkind).mono fun answer after hkept => ?_)
  exact (hnext answer).after hkept hguarded

/-- A rule that closes the given openers, which wait when it starts. -/
def Closes (length base : Nat) (own : List Kind) (rule : Rule α) : Prop :=
  ∀ ledger : Ledger, ledger.AtRest → ledger.own = own →
    rule.Orderly length base ledger fun _ after => after.AtRest ∧ after.own = []

variable {own : List Kind}

theorem Regular.closes {rule : Rule α} (hregular : rule.Regular length base false) : rule.Closes length base [] :=
  fun ledger hrest hown => (hregular ledger hrest fun _ => hown).mono fun _ _ hkept => ⟨hkept.rest, hkept.own.trans hown⟩

theorem Closes.regular {rule : Rule α} (hcloses : rule.Closes length base []) : rule.Regular length base false :=
  fun ledger hrest hown => (hcloses ledger hrest (hown rfl)).mono fun _ _ ⟨hended, hnone⟩ =>
    ⟨hended, hnone.trans (hown rfl).symm, nofun⟩

/-- Where openers wait, no closer of others is placed. -/
theorem Regular.bindCloses {rule : Rule α} {next : α → Rule β} (hregular : rule.Regular length base true)
    (hnext : ∀ answer, (next answer).Closes length base own) : (rule >>= next).Closes length base own := by
  intro ledger hrest hown
  refine (orderly_bind ..).mpr ((hregular ledger hrest nofun).mono fun answer after hkept => ?_)
  exact hnext answer after hkept.rest (hkept.own.trans hown)

theorem Closes.bind {rule : Rule α} {next : α → Rule β} (hcloses : rule.Closes length base own)
    (hnext : ∀ answer, (next answer).Closes length base []) : (rule >>= next).Closes length base own := by
  intro ledger hrest hown
  exact (orderly_bind ..).mpr ((hcloses ledger hrest hown).mono fun answer after ⟨hended, hnone⟩ =>
    hnext answer after hended hnone)

theorem closes_ifThen {condition : Prop} [Decidable condition] {first : Rule α} {rest : Rule β}
    (hfirst : first.Regular length base true) (hrest : rest.Closes length base own) :
    (if condition then first >>= fun _ => rest else rest).Closes length base own := by
  split
  · exact hfirst.bindCloses fun _ => hrest
  · exact hrest

@[grind .] theorem regular_pure (answer : α) : (pure answer : Rule α).Regular length base guarded :=
  fun _ hrest _ => .refl hrest

@[grind ←] theorem regular_bind {rule : Rule α} {next : α → Rule β} (hrule : rule.Regular length base guarded)
    (hnext : ∀ answer, (next answer).Regular length base guarded) : (rule >>= next).Regular length base guarded := by
  intro ledger hrest hguarded
  refine (orderly_bind ..).mpr ((hrule ledger hrest hguarded).mono fun answer after hkept => ?_)
  exact (hnext answer).after hkept hguarded

/-- A part that is done under a condition only. -/
theorem regular_ifThen {condition : Prop} [Decidable condition] {first : Rule α} {rest : Rule β}
    (hfirst : first.Regular length base guarded) (hrest : rest.Regular length base guarded) :
    (if condition then first >>= fun _ => rest else rest).Regular length base guarded := by
  split
  · exact regular_bind hfirst fun _ => hrest
  · exact hrest

@[grind ←] theorem regular_map {f : α → β} {rule : Rule α} (hrule : rule.Regular length base guarded) :
    (f <$> rule).Regular length base guarded :=
  regular_bind hrule fun _ => regular_pure _

@[grind ←] theorem regular_orM {left right : Rule Bool} (hleft : left.Regular length base guarded)
    (hright : right.Regular length base guarded) : (left <||> right).Regular length base guarded :=
  regular_bind hleft fun answer => by
    cases answer
    · exact hright
    · exact regular_pure true

@[grind ←] theorem regular_andM {left right : Rule Bool} (hleft : left.Regular length base guarded)
    (hright : right.Regular length base guarded) : (left <&&> right).Regular length base guarded :=
  regular_bind hleft fun answer => by
    cases answer
    · exact regular_pure false
    · exact hright

end Rule

end Squirrel
