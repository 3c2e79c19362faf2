import Squirrel.Proofs.Parse.Laying
import Squirrel.Proofs.Token.Tiling
import Squirrel.Proofs.Tree.Position

/-!
# What a rule knows

Whether a node that is placed has a report in it depends on what the rule has seen: it has looked at the token here, it
has reported where that token starts, it has moved past it since the node was opened. A rule is followed by what it knows
in this sense, without running it, and a run bears the knowledge out.
-/

namespace Squirrel

/-- What a rule knows of the place where it stands, and of the open node. -/
structure Known where
  /-- The kind of the token here. -/
  kind? : Option Kind
  /-- The span of the token here. -/
  span? : Option Span
  /-- A token is here and no limit has been exceeded. -/
  going : Prop
  /-- Nothing is left. -/
  ended : Prop
  /-- A diagnostic starts where the token here starts. -/
  told : Prop
  /-- A diagnostic starts in what has been placed in the open node. -/
  covered : Prop
  /-- A limit has been exceeded, so that nothing comes of the parse. -/
  beyond : Prop

namespace Known

/-- Nothing is known of a new place. -/
def elsewhere (covered : Prop) : Known := ⟨none, none, False, False, False, covered, False⟩

/-- What is known inside a node that is opened here. Past a limit no node needs a report. -/
def inside (known : Known) : Known := { known with covered := known.beyond }

/-- What is known once the open node is closed and its parent goes on. -/
def outside (known inner : Known) : Known := { inner with covered := known.covered ∨ inner.covered }

end Known

namespace Step

/-- A report that is made once starts at its offset. If nothing is left, it may start earlier and be kept for the end. -/
def Allowed {α : Type} (known : Known) : Step α → Prop
  | reportOnce offset diagnostic => diagnostic.span.start = offset ∨
      (known.ended ∧ ∃ span, known.span? = some span ∧ offset = span.stop)
  | _ => True

/-- The answers that agree with what is known. -/
def Agrees {α : Type} (known : Known) : Step α → α → Prop
  | current, kind => ∀ found, known.kind? = some found → kind = found
  | stopped, answer => known.going → answer = false
  | _, _ => True

/-- What is known after a step. -/
def learn {α : Type} (known : Known) : Step α → α → Known
  | current, kind => { known with kind? := some kind }
  | currentSpan, span => { known with span? := some span }
  | atEnd, true => { known with ended := True }
  | stopped, false => { known with going := known.going ∨ known.kind?.isSome = true }
  | advance, _ => .elsewhere (known.covered ∨ known.told ∨ known.kind? = some .garbage)
  | reportOnce offset _, _ => { known with told := known.told ∨ ∃ span, known.span? = some span ∧ offset = span.start }
  | descend, answer => { known with going := False, beyond := known.beyond ∨ answer = false }
  | _, _ => known

theorem covered_learn {α : Type} {known : Known} (s : Step α) (answer : α) (hcovered : known.covered) :
    (s.learn known answer).covered := by
  cases s with
  | atEnd | stopped => cases answer <;> exact hcovered
  | advance => exact .inl hcovered
  | _ => exact hcovered

end Step

/-- What a nonterminal covers: skipping moves past the token that has been reported. -/
def Nonterminal.Covers (known : Known) : Nonterminal → Prop
  | skipUntil recovery => known.told ∧ known.going ∧ ∃ kind, known.kind? = some kind ∧ recovery.contains kind = false
  | skipToStatement => known.told
  | _ => False

namespace Rule

variable {α β : Type}

/-- Every error node that a rule places has a report in it, and the rule ends with an answer and with knowledge as asked
for. -/
def Explains {α : Type} : Rule α → Known → (α → Known → Prop) → Prop
  | done answer, known, ended => ended answer known
  | step s rest, known, ended =>
    s.Allowed known ∧ ∀ answer, s.Agrees known answer → (rest answer).Explains (s.learn known answer) ended
  | wrap kind _ inner rest, known, ended =>
    inner.Explains known.inside fun _ after =>
      (kind = .error → after.covered) ∧ rest.Explains (known.outside after) ended
  | call nonterminal rest, known, ended =>
    rest.Explains (.elsewhere (known.covered ∨ nonterminal.Covers known)) ended

theorem Explains.mono {rule : Rule α} {known : Known} {ended weaker : α → Known → Prop}
    (hexplains : rule.Explains known ended) (hweaker : ∀ answer after, ended answer after → weaker answer after) :
    rule.Explains known weaker := by
  induction rule generalizing known with
  | done answer => exact hweaker answer known hexplains
  | step s rest ih => exact ⟨hexplains.1, fun answer hagrees => ih answer (hexplains.2 answer hagrees) hweaker⟩
  | wrap kind start inner rest ihinner ih =>
    exact ihinner hexplains fun _ after hafter => ⟨hafter.1, ih hafter.2 hweaker⟩
  | call nonterminal rest ih => exact ih hexplains hweaker

/-- What is covered stays covered. -/
theorem Explains.covered {rule : Rule α} {known : Known} {ended : α → Known → Prop}
    (hexplains : rule.Explains known ended) (hcovered : known.covered) :
    rule.Explains known fun answer after => ended answer after ∧ after.covered := by
  induction rule generalizing known with
  | done answer => exact ⟨hexplains, hcovered⟩
  | step s rest ih =>
    exact ⟨hexplains.1, fun answer hagrees => ih answer (hexplains.2 answer hagrees) (s.covered_learn answer hcovered)⟩
  | wrap kind start inner rest ihinner ih =>
    have hinner : inner.Explains known.inside _ := hexplains
    exact hinner.mono fun _ after hafter => ⟨hafter.1, ih hafter.2 (Or.inl hcovered)⟩
  | call nonterminal rest ih => exact ih hexplains (.inl hcovered)

@[simp] theorem explains_pure (answer : α) (known : Known) (ended : α → Known → Prop) :
    (pure answer : Rule α).Explains known ended ↔ ended answer known := Iff.rfl

@[simp] theorem explains_bind (rule : Rule α) (next : α → Rule β) (known : Known) (ended : β → Known → Prop) :
    (rule >>= next).Explains known ended ↔ rule.Explains known fun answer after => (next answer).Explains after ended := by
  rw [bind_eq]
  induction rule generalizing known with
  | done answer => rfl
  | step s rest ih =>
    exact and_congr_right fun _ => forall_congr' fun answer => forall_congr' fun _ => ih answer next _
  | wrap kind start inner rest ihinner ih =>
    have hrest (after : Known) : (rest.bind next).Explains (known.outside after) ended ↔
        rest.Explains (known.outside after) fun answer after => (next answer).Explains after ended := ih next _
    simp only [Rule.bind, Explains, hrest]
  | call nonterminal rest ih => exact ih next _

@[simp] theorem explains_map (f : α → β) (rule : Rule α) (known : Known) (ended : β → Known → Prop) :
    (f <$> rule).Explains known ended ↔ rule.Explains known fun answer after => ended (f answer) after :=
  explains_bind ..

@[simp] theorem explains_ite (condition : Prop) [Decidable condition] (left right : Rule α) (known : Known)
    (ended : α → Known → Prop) : (if condition then left else right).Explains known ended
      ↔ if condition then left.Explains known ended else right.Explains known ended := by
  split <;> rfl

@[simp] theorem explains_ofStep (s : Step α) (known : Known) (ended : α → Known → Prop) :
    (ofStep s).Explains known ended ↔
      s.Allowed known ∧ ∀ answer, s.Agrees known answer → ended answer (s.learn known answer) := Iff.rfl

@[simp] theorem explains_orM (left right : Rule Bool) (known : Known) (ended : Bool → Known → Prop) :
    (left <||> right).Explains known ended ↔
      left.Explains known fun answer after => if answer then ended true after else right.Explains after ended := by
  refine (explains_bind ..).trans (iff_of_eq ?_)
  congr
  funext answer after
  cases answer <;> rfl

@[simp] theorem explains_andM (left right : Rule Bool) (known : Known) (ended : Bool → Known → Prop) :
    (left <&&> right).Explains known ended ↔
      left.Explains known fun answer after => if answer then right.Explains after ended else ended false after := by
  refine (explains_bind ..).trans (iff_of_eq ?_)
  congr
  funext answer after
  cases answer <;> rfl

end Rule

/-! ### What the states of a run bear out -/

namespace State

/-- The token here is no trivia that is still to be passed. -/
def IsSettled (state : State) : Prop := (kindOf state.ahead).isTrivia = false

theorem passTrivia_of_isSettled {state : State} (hsettled : state.IsSettled) : state.passTrivia = state := by
  have hnone : ∀ token ∈ state.ahead.head?, ¬token.kind.isTrivia = true := by
    intro token hmem
    rw [IsSettled] at hsettled
    cases hahead : state.ahead with
    | nil => simp [hahead] at hmem
    | cons first rest =>
      rw [hahead] at hmem hsettled
      obtain rfl := Option.some.inj hmem
      exact Bool.not_eq_true _ ▸ hsettled
  have htake : state.ahead.takeWhile (·.kind.isTrivia) = [] := by
    cases hahead : state.ahead with
    | nil => rfl
    | cons token rest => exact List.takeWhile_cons_of_neg (hnone token (by rw [hahead]; rfl))
  have hdrop : state.ahead.dropWhile (·.kind.isTrivia) = state.ahead := by
    cases hahead : state.ahead with
    | nil => rfl
    | cons token rest => exact List.dropWhile_cons_of_neg (hnone token (by rw [hahead]; rfl))
  rw [passTrivia, htake, hdrop]
  rfl

theorem isSettled_passTrivia (state : State) : state.passTrivia.IsSettled := isTrivia_kindOf_passTrivia state

/-- The tokens ahead follow what has been passed and end where the source does, the open node starting at the given
offset. -/
def Tiled (state : State) (origin length : Nat) : Prop :=
  Token.Tile (origin + Tree.widthOf state.placed + Tree.widthOf (state.pending.map leafOf)) state.ahead length

/-- A diagnostic about the tokens, or one of the reports so far, starts at the offset. -/
def Tells (state : State) (given : List Diagnostic) (offset : Nat) : Prop :=
  ∃ diagnostic ∈ given ++ state.reports, diagnostic.span.start = offset

/-- A diagnostic starts in a stretch of the source, unless a limit has been exceeded. -/
def TellsWithin (state : State) (given : List Diagnostic) (start stop : Nat) : Prop :=
  state.exceeded? = none → ∃ offset, state.Tells given offset ∧ start ≤ offset ∧ offset < stop

/-- An error node at an offset has a diagnostic that starts in it. -/
def ExplainsNode (state : State) (given : List Diagnostic) (start : Nat) (tree : Tree) : Prop :=
  tree.kind = .error → state.TellsWithin given start (start + tree.width)

/-- The tokens ahead follow what has been passed, the open node starting at the given offset; each garbage token among
them comes with a diagnostic about it; all error nodes have a diagnostic in them; and the offset of the last report is
that of a report, or the end. -/
structure Explained (state : State) (given : List Diagnostic) (origin : Nat) : Prop where
  tiled : state.Tiled origin state.sourceLength
  garbage : ∀ token ∈ state.ahead, token.kind = .garbage →
    ∃ diagnostic ∈ given, token.start ≤ diagnostic.span.start ∧ diagnostic.span.start < token.stop
  nodes : Tree.EachOf (state.ExplainsNode given) origin state.placed.reverse
  last : ∀ offset, state.lastReport? = some offset →
    offset = state.sourceLength ∨ ∃ diagnostic ∈ state.reports, diagnostic.span.start = offset

end State

/-- What is known is so. -/
structure Known.Holds (known : Known) (given : List Diagnostic) (origin : Nat) (state : State) : Prop
    extends state.Explained given origin where
  kind : ∀ kind, known.kind? = some kind → state.IsSettled ∧ State.kindOf state.ahead = kind
  span : ∀ span, known.span? = some span → state.IsSettled ∧ state.spanHere = span
  going : known.going → state.IsSettled ∧ state.stopped = false
  ended : known.ended → state.ahead = []
  told : known.told → state.IsSettled ∧ ∀ token ∈ state.ahead.head?, state.Tells given token.start
  covered : known.covered → state.TellsWithin given origin (origin + Tree.widthOf state.placed)
  beyond : known.beyond → state.exceeded? ≠ none

namespace Token

theorem width_leafOf (token : Token) : (State.leafOf token).width = token.text.utf8ByteSize := by
  rw [State.leafOf, Tree.width]

/-- What follows some tokens of a stretch starts where they end. -/
theorem Tile.drop {start stop : Nat} {left right : List Token} (htile : Tile start (left ++ right) stop) :
    Tile (start + Tree.widthOf (left.map State.leafOf)) right stop := by
  induction left generalizing start with
  | nil => simpa [Tree.widthOf] using htile
  | cons token rest ih =>
    obtain ⟨hstart, -, hrest⟩ := htile
    rw [List.map_cons, Tree.widthOf, width_leafOf, ← Nat.add_assoc, ← hstart]
    exact ih hrest

end Token

namespace State

variable {given : List Diagnostic} {origin : Nat} {state after : State}

theorem Tells.mono (hreports : state.reports ⊆ after.reports) {offset : Nat} (htells : state.Tells given offset) :
    after.Tells given offset := by
  obtain ⟨diagnostic, hmem, hstart⟩ := htells
  exact ⟨diagnostic, List.append_subset.mpr ⟨List.subset_append_left _ _,
    List.Subset.trans hreports (List.subset_append_right _ _)⟩ hmem, hstart⟩

/-- From one state to another reports have been added, and an exceeded limit stays exceeded. -/
structure Retains (state after : State) : Prop where
  reports : state.reports ⊆ after.reports
  within : after.exceeded? = none → state.exceeded? = none

theorem TellsWithin.mono {start stop other : Nat} (htells : state.TellsWithin given start stop)
    (hretains : state.Retains after) (hstop : stop ≤ other) : after.TellsWithin given start other := by
  intro hwithin
  obtain ⟨offset, htells, hfrom, hto⟩ := htells (hretains.within hwithin)
  exact ⟨offset, htells.mono hretains.reports, hfrom, Nat.lt_of_lt_of_le hto hstop⟩

theorem eachOf_mono {start : Nat} {trees : List Tree} (hnodes : Tree.EachOf (state.ExplainsNode given) start trees)
    (hretains : state.Retains after) : Tree.EachOf (after.ExplainsNode given) start trees :=
  hnodes.mono fun _ _ hnode herror => (hnode herror).mono hretains (Nat.le_refl _)

/-! ### Tokens that follow what has been passed -/

/-- Trivia that is passed waits in front of the rest. -/
theorem Tiled.passTrivia {length : Nat} (htiled : state.Tiled origin length) : state.passTrivia.Tiled origin length := by
  rw [Tiled, ← List.takeWhile_append_dropWhile (p := (·.kind.isTrivia)) (l := state.ahead)] at htiled
  have hrest := htiled.drop
  simp only [Tiled, State.passTrivia, List.map_append, List.map_reverse, Tree.widthOf_append, Tree.widthOf_reverse]
  rwa [Nat.add_comm (Tree.widthOf (List.map leafOf _)), ← Nat.add_assoc]

theorem Tiled.placePending {length : Nat} (htiled : state.Tiled origin length) :
    state.placePending.Tiled origin length := by
  simp only [Tiled, State.placePending, Tree.widthOf_append, List.map_nil, Tree.widthOf, Nat.add_zero]
  rwa [Nat.add_comm (Tree.widthOf (List.map leafOf _)), ← Nat.add_assoc]

/-- Where the token here starts. -/
theorem Tiled.start_eq {length : Nat} (htiled : state.Tiled origin length) {token : Token} {rest : List Token}
    (hahead : state.ahead = token :: rest) :
    origin + Tree.widthOf state.placed + Tree.widthOf (state.pending.map leafOf) = token.start ∧ token.start < token.stop ∧
      token.stop ≤ length := by
  rw [Tiled, hahead] at htiled
  have hinside := htiled.bounds.2 token List.mem_cons_self
  exact ⟨htiled.1.symm, htiled.2.1, hinside.2.2⟩

/-- What an advance does to a state that has a token ahead. -/
theorem advance_ok (hadvance : state.advance = .ok after) :
    ∃ token rest left? exceeded?, state.ahead = token :: rest ∧ (exceeded? = none → state.exceeded? = none) ∧
      after = { state with
        behind := token :: state.behind
        ahead := rest
        pending := []
        placed := leafOf token :: (state.pending.map leafOf ++ state.placed)
        looks := lookLimit
        stepsLeft? := left?
        exceeded? := exceeded? } := by
  rw [State.advance] at hadvance
  split at hadvance
  · cases hadvance
  · next token rest hahead =>
    obtain ⟨left?, exceeded?, hspent, -, hkeep⟩ := spendStep_eq state
    rw [hspent] at hadvance
    exact ⟨token, rest, left?, exceeded?, hahead, hkeep, (Except.ok.inj hadvance).symm⟩

theorem retains_advance (hadvance : state.advance = .ok after) : state.Retains after := by
  obtain ⟨token, rest, left?, exceeded?, -, hkeep, rfl⟩ := advance_ok hadvance
  exact ⟨List.Subset.refl _, hkeep⟩

theorem Tiled.advance {length : Nat} (htiled : state.Tiled origin length) (hadvance : state.advance = .ok after) :
    after.Tiled origin length ∧
      ∃ token rest, state.ahead = token :: rest ∧ origin + Tree.widthOf after.placed = token.stop := by
  obtain ⟨token, rest, left?, exceeded?, hahead, -, rfl⟩ := advance_ok hadvance
  obtain ⟨hstart, -, -⟩ := htiled.start_eq hahead
  rw [Tiled, hahead] at htiled
  have hwidth : origin + Tree.widthOf (leafOf token :: (state.pending.map leafOf ++ state.placed)) = token.stop := by
    rw [Tree.widthOf, Tree.widthOf_append, Token.width_leafOf, Token.stop, ← hstart]
    omega
  refine ⟨?_, token, rest, hahead, hwidth⟩
  show Token.Tile (origin + Tree.widthOf (leafOf token :: _)) rest length
  exact hwidth.symm ▸ htiled.2.2

/-- A node is opened around the trees placed since a mark. -/
theorem Tiled.opened {length : Nat} (htiled : state.Tiled origin length) (since : Nat) :
    ({ state with placed := state.placed.take since } : State).Tiled
      (origin + Tree.widthOf (state.placed.drop since)) length := by
  have hwidth : Tree.widthOf (state.placed.take since) + Tree.widthOf (state.placed.drop since)
      = Tree.widthOf state.placed := by
    rw [← Tree.widthOf_append, List.take_append_drop]
  rw [Tiled, ← hwidth, Nat.add_comm (Tree.widthOf (List.take since state.placed)), ← Nat.add_assoc] at htiled
  exact htiled

theorem Tiled.wrap {kind : Kind} {length : Nat} {older : List Tree}
    (htiled : after.Tiled (origin + Tree.widthOf older) length) :
    ({ after with placed := .node kind after.placed.reverse :: older } : State).Tiled origin length := by
  show Token.Tile (origin + Tree.widthOf (.node kind after.placed.reverse :: older) + _) _ _
  rw [Tree.widthOf, Tree.width, Tree.widthOf_reverse]
  rwa [Nat.add_comm (Tree.widthOf after.placed), ← Nat.add_assoc]

/-! ### Explained states -/

theorem Explained.passTrivia (hexplained : state.Explained given origin) : state.passTrivia.Explained given origin where
  tiled := hexplained.tiled.passTrivia
  garbage token hmem := hexplained.garbage token ((List.dropWhile_suffix _).subset hmem)
  nodes := hexplained.nodes
  last := hexplained.last

theorem Explained.placePending (hexplained : state.Explained given origin) :
    state.placePending.Explained given origin where
  tiled := hexplained.tiled.placePending
  garbage := hexplained.garbage
  nodes := by
    rw [State.placePending, List.reverse_append, Tree.eachOf_append]
    refine ⟨hexplained.nodes, Tree.eachOf_of_tokens fun tree hmem => ?_⟩
    obtain ⟨token, -, rfl⟩ := List.mem_map.mp (List.mem_reverse.mp hmem)
    rfl
  last := hexplained.last

theorem Explained.advance (hexplained : state.Explained given origin) (hadvance : state.advance = .ok after) :
    after.Explained given origin ∧
      ∃ token rest, state.ahead = token :: rest ∧ origin + Tree.widthOf after.placed = token.stop := by
  obtain ⟨htiled, hword⟩ := hexplained.tiled.advance hadvance
  obtain ⟨token, rest, left?, exceeded?, hahead, hkeep, rfl⟩ := advance_ok hadvance
  have hplaced := hexplained.placePending
  refine ⟨⟨htiled, fun other hmem => hexplained.garbage other (hahead ▸ List.mem_cons_of_mem _ hmem), ?_, hplaced.last⟩,
    hword⟩
  show Tree.EachOf _ origin (leafOf token :: (state.pending.map leafOf ++ state.placed)).reverse
  rw [List.reverse_cons, Tree.eachOf_append]
  exact ⟨eachOf_mono hplaced.nodes ⟨List.Subset.refl _, hkeep⟩, trivial, trivial⟩

theorem Explained.report (hexplained : state.Explained given origin) (diagnostic : Diagnostic) :
    ({ state with reports := diagnostic :: state.reports } : State).Explained given origin where
  tiled := hexplained.tiled
  garbage := hexplained.garbage
  nodes := eachOf_mono hexplained.nodes ⟨List.subset_cons_self _ _, id⟩
  last offset hlast := (hexplained.last offset hlast).imp_right fun ⟨found, hmem, hstart⟩ =>
    ⟨found, List.mem_cons_of_mem _ hmem, hstart⟩

theorem reports_reportOnce (state : State) (offset : Nat) (diagnostic : Diagnostic) :
    state.reports ⊆ (state.reportOnce offset diagnostic).reports := by
  rw [reportOnce]
  split
  · exact List.Subset.refl _
  · exact List.subset_cons_self _ _

theorem Explained.reportOnce (hexplained : state.Explained given origin) {offset : Nat} {diagnostic : Diagnostic}
    (hstart : diagnostic.span.start = offset ∨ offset = state.sourceLength) :
    (state.reportOnce offset diagnostic).Explained given origin := by
  rw [State.reportOnce]
  split
  · exact hexplained
  · have hreported := hexplained.report diagnostic
    refine ⟨hreported.tiled, hreported.garbage, hreported.nodes, fun last hlast => ?_⟩
    obtain rfl := Option.some.inj hlast
    exact hstart.elim (fun hsame => .inr ⟨diagnostic, List.mem_cons_self, hsame⟩) .inl

/-- The token here has been reported, by the last report if not by this one. -/
theorem Explained.tells_reportOnce (hexplained : state.Explained given origin) {token : Token} {rest : List Token}
    (hahead : state.ahead = token :: rest) {diagnostic : Diagnostic} (hstart : diagnostic.span.start = token.start) :
    (state.reportOnce token.start diagnostic).Tells given token.start := by
  rw [State.reportOnce]
  split
  · next hlast =>
    obtain ⟨-, hpos, hle⟩ := hexplained.tiled.start_eq hahead
    obtain hend | ⟨found, hmem, hfound⟩ := hexplained.last token.start hlast
    · omega
    · exact ⟨found, List.mem_append_right _ hmem, hfound⟩
  · exact ⟨diagnostic, List.mem_append_right _ List.mem_cons_self, hstart⟩

/-- A node is closed: the trees that it takes stood at its own offset. -/
theorem Explained.wrap {kind : Kind} {since : Nat} (hexplained : state.Explained given origin)
    (hretains : state.Retains after)
    (hinner : after.Explained given (origin + Tree.widthOf (state.placed.drop since)))
    (herror : kind = .error → after.TellsWithin given (origin + Tree.widthOf (state.placed.drop since))
      (origin + Tree.widthOf (state.placed.drop since) + Tree.widthOf after.placed)) :
    ({ after with placed := .node kind after.placed.reverse :: state.placed.drop since } : State).Explained given origin where
  tiled := hinner.tiled.wrap
  garbage := hinner.garbage
  nodes := by
    have hnodes := hexplained.nodes
    rw [← List.take_append_drop since state.placed, List.reverse_append, Tree.eachOf_append] at hnodes
    show Tree.EachOf _ origin (.node kind after.placed.reverse :: state.placed.drop since).reverse
    rw [List.reverse_cons, Tree.eachOf_append, Tree.widthOf_reverse, Tree.EachOf, Tree.EachFrom, Tree.EachOf]
    refine ⟨eachOf_mono hnodes.1 ⟨hretains.reports, hretains.within⟩, ⟨fun hkind => ?_, hinner.nodes⟩, trivial⟩
    rw [Tree.width, Tree.widthOf_reverse]
    exact herror hkind
  last := hinner.last

end State

/-! ### Steps -/

namespace Known

variable {known : Known} {given : List Diagnostic} {origin : Nat} {state after : State}

/-- Of a new place nothing has to be borne out but what has been covered. -/
theorem Holds.elsewhere {covered : Prop} (hexplained : state.Explained given origin)
    (hcovered : covered → state.TellsWithin given origin (origin + Tree.widthOf state.placed)) :
    (Known.elsewhere covered).Holds given origin state :=
  { hexplained with
    kind := nofun
    span := nofun
    going := nofun
    ended := nofun
    told := nofun
    covered := hcovered
    beyond := False.elim }

theorem Holds.passTrivia (hholds : known.Holds given origin state) : known.Holds given origin state.passTrivia := by
  by_cases hsettled : state.IsSettled
  · rwa [State.passTrivia_of_isSettled hsettled]
  · exact
      { hholds.toExplained.passTrivia with
        kind := fun kind hkind => absurd (hholds.kind kind hkind).1 hsettled
        span := fun span hspan => absurd (hholds.span span hspan).1 hsettled
        going := fun hgoing => absurd (hholds.going hgoing).1 hsettled
        ended := fun hended => by rw [State.passTrivia, hholds.ended hended]; rfl
        told := fun htold => absurd (hholds.told htold).1 hsettled
        covered := hholds.covered
        beyond := hholds.beyond }

theorem Holds.placePending (hholds : known.Holds given origin state) : known.Holds given origin state.placePending :=
  { hholds.toExplained.placePending with
    kind := hholds.kind
    span := hholds.span
    going := hholds.going
    ended := hholds.ended
    told := hholds.told
    covered := fun hcovered => by
      refine (hholds.covered hcovered).mono ⟨List.Subset.refl _, id⟩ ?_
      rw [State.placePending, Tree.widthOf_append]
      omega
    beyond := hholds.beyond }

theorem Holds.spendLook (hholds : known.Holds given origin state) (hlook : state.spendLook = .ok after) :
    known.Holds given origin after := by
  rw [State.eq_of_spendLook hlook]
  exact ⟨⟨hholds.tiled, hholds.garbage, hholds.nodes, hholds.last⟩, hholds.kind, hholds.span, hholds.going, hholds.ended,
    hholds.told, hholds.covered, hholds.beyond⟩

theorem Holds.report (hholds : known.Holds given origin state) (diagnostic : Diagnostic) :
    known.Holds given origin { state with reports := diagnostic :: state.reports } := by
  have hreports : state.reports ⊆ diagnostic :: state.reports := List.subset_cons_self _ _
  refine ⟨hholds.toExplained.report diagnostic, hholds.kind, hholds.span, hholds.going, hholds.ended, fun htold => ?_,
    fun hcovered => (hholds.covered hcovered).mono ⟨hreports, id⟩ (Nat.le_refl _), hholds.beyond⟩
  obtain ⟨hsettled, hall⟩ := hholds.told htold
  exact ⟨hsettled, fun token hmem => (hall token hmem).mono hreports⟩

theorem Holds.advance (hholds : known.Holds given origin state) (hadvance : state.advance = .ok after) :
    (Known.elsewhere (known.covered ∨ known.told ∨ known.kind? = some .garbage)).Holds given origin after := by
  obtain ⟨hexplained, token, rest, hahead, hwidth⟩ := hholds.toExplained.advance hadvance
  obtain ⟨hstart, hpos, -⟩ := hholds.tiled.start_eq hahead
  have hretains := State.retains_advance hadvance
  refine .elsewhere hexplained ?_
  rw [hwidth]
  rintro (hcovered | htold | hgarbage)
  · exact (hholds.covered hcovered).mono hretains (by omega)
  · have htells := (hholds.told htold).2 token (by rw [hahead]; rfl)
    exact fun _ => ⟨token.start, htells.mono hretains.reports, by omega, hpos⟩
  · have hkind := (hholds.kind _ hgarbage).2
    rw [hahead] at hkind
    obtain ⟨diagnostic, hmem, hfrom, hto⟩ := hholds.garbage token (hahead ▸ List.mem_cons_self) hkind
    exact fun _ => ⟨diagnostic.span.start, ⟨diagnostic, List.mem_append_left _ hmem, rfl⟩, by omega, hto⟩

theorem Holds.reportOnce (hholds : known.Holds given origin state) {offset : Nat} {diagnostic : Diagnostic}
    (hallowed : (Step.reportOnce offset diagnostic).Allowed known) :
    ((Step.reportOnce offset diagnostic).learn known ()).Holds given origin (state.reportOnce offset diagnostic) := by
  have hspan {span : Span} (hspan : known.span? = some span) : state.spanHere = span := (hholds.span span hspan).2
  have hstart : diagnostic.span.start = offset ∨ offset = state.sourceLength := by
    obtain hstart | ⟨hended, span, hknown, rfl⟩ := hallowed
    · exact .inl hstart
    · rw [← hspan hknown, State.spanHere, hholds.ended hended]
      exact .inr rfl
  have htells : ∀ token ∈ state.ahead.head?, (∃ span, known.span? = some span ∧ offset = span.start) →
      (state.reportOnce offset diagnostic).Tells given token.start := by
    rintro token hmem ⟨span, hknown, rfl⟩
    obtain ⟨rest, hahead⟩ : ∃ rest, state.ahead = token :: rest := by
      cases hahead : state.ahead with
      | nil => simp [hahead] at hmem
      | cons first rest =>
        rw [hahead] at hmem
        exact ⟨rest, by rw [Option.some.inj hmem]⟩
    obtain rfl : token.span = span := by rw [← hspan hknown, State.spanHere, hahead]
    obtain hstart | ⟨hended, -⟩ := hallowed
    · exact hholds.toExplained.tells_reportOnce hahead hstart
    · rw [hholds.ended hended] at hahead
      exact nomatch hahead
  have hexplained := hholds.toExplained.reportOnce hstart
  have hreports := state.reports_reportOnce offset diagnostic
  obtain ⟨last?, reports, hafter⟩ : ∃ last? reports, state.reportOnce offset diagnostic
      = { state with lastReport? := last?, reports := reports } := by
    rw [State.reportOnce]
    split <;> exact ⟨_, _, rfl⟩
  rw [hafter] at hexplained hreports htells ⊢
  refine ⟨hexplained, hholds.kind, hholds.span, hholds.going, hholds.ended, ?_,
    fun hcovered => (hholds.covered hcovered).mono ⟨hreports, id⟩ (Nat.le_refl _), hholds.beyond⟩
  · rintro (htold | hspanned)
    · obtain ⟨hsettled, hall⟩ := hholds.told htold
      exact ⟨hsettled, fun token hmem => (hall token hmem).mono hreports⟩
    · refine ⟨?_, fun token hmem => htells token hmem hspanned⟩
      obtain ⟨span, hknown, -⟩ := hspanned
      exact (hholds.span span hknown).1

end Known

/-- A step answers in agreement with what is known, and what is learned from it is so. -/
theorem Step.holds_of_run {α : Type} (step : Step α) {known : Known} {given : List Diagnostic} {origin : Nat}
    {state after : State} {answer : α} (hallowed : step.Allowed known) (hholds : known.Holds given origin state)
    (hrun : step.run state = .ok (answer, after)) :
    step.Agrees known answer ∧ (step.learn known answer).Holds given origin after := by
  have hpassed := hholds.passTrivia
  cases step <;> simp only [Step.run, bind, Except.bind, pure, Except.pure, Except.ok.injEq, Prod.mk.injEq] at hrun
  case current =>
    split at hrun
    · cases hrun
    · next looked hlook =>
      obtain ⟨rfl, rfl⟩ := Prod.mk.inj (Except.ok.inj hrun)
      have hlooked := hpassed.spendLook hlook
      have hsettled : looked.IsSettled := by
        rw [State.eq_of_spendLook hlook]
        exact state.isSettled_passTrivia
      refine ⟨fun found hfound => (hlooked.kind found hfound).2, { hlooked with kind := fun kind hkind => ?_ }⟩
      exact ⟨hsettled, Option.some.inj hkind⟩
  case adjacent =>
    split at hrun
    · cases hrun
    · next looked hlook =>
      obtain ⟨-, rfl⟩ := Prod.mk.inj (Except.ok.inj hrun)
      exact ⟨trivial, hpassed.spendLook hlook⟩
  case next | afterLineBreak | numberFollows => exact hrun.2 ▸ ⟨trivial, hpassed⟩
  case currentSpan =>
    obtain ⟨rfl, rfl⟩ := hrun
    refine ⟨trivial, { hpassed with span := fun span hspan => ?_ }⟩
    exact ⟨state.isSettled_passTrivia, Option.some.inj hspan⟩
  case previous => exact hrun.2 ▸ ⟨trivial, hholds⟩
  case atEnd =>
    obtain ⟨rfl, rfl⟩ := hrun
    refine ⟨trivial, ?_⟩
    cases hend : state.atEnd with
    | true => exact { hholds with ended := fun _ => List.isEmpty_iff.mp hend }
    | false => exact hholds
  case stopped =>
    obtain ⟨rfl, rfl⟩ := hrun
    refine ⟨fun hgoing => (hholds.going hgoing).2, ?_⟩
    cases hstopped : state.stopped with
    | true => exact hholds
    | false =>
      refine { hholds with going := ?_ }
      rintro (hgoing | hkind)
      · exact hholds.going hgoing
      · obtain ⟨kind, hkind⟩ := Option.isSome_iff_exists.mp hkind
        exact ⟨(hholds.kind kind hkind).1, hstopped⟩
  case advance =>
    split at hrun
    · cases hrun
    · next advanced hadvance =>
      obtain ⟨-, rfl⟩ := Prod.mk.inj (Except.ok.inj hrun)
      exact ⟨trivial, hholds.advance hadvance⟩
  case mark => exact hrun.2 ▸ ⟨trivial, hholds.placePending⟩
  case placeTrivia => exact hrun.2 ▸ ⟨trivial, hpassed.placePending⟩
  case pushOpener | popOpener | ascend =>
    refine hrun.2 ▸ ⟨trivial, ⟨⟨hholds.tiled, hholds.garbage, hholds.nodes, hholds.last⟩, hholds.kind, hholds.span,
      hholds.going, hholds.ended, hholds.told, hholds.covered, hholds.beyond⟩⟩
  case report diagnostic => exact hrun.2 ▸ ⟨trivial, hholds.report diagnostic⟩
  case reportOnce offset diagnostic => exact hrun.2 ▸ ⟨trivial, hholds.reportOnce hallowed⟩
  case descend =>
    refine ⟨trivial, ?_⟩
    rw [State.descend] at hrun
    split at hrun
    · obtain ⟨-, rfl⟩ := Prod.mk.inj hrun
      have hexceeded : (state.exceeded?.orElse fun _ => some .depth) ≠ none := by
        cases state.exceeded? <;> simp
      refine ⟨⟨hholds.tiled, hholds.garbage, ?_, hholds.last⟩, hholds.kind, hholds.span, False.elim, hholds.ended,
        hholds.told, fun _ hwithin => absurd hwithin hexceeded, fun _ => hexceeded⟩
      exact State.eachOf_mono hholds.nodes ⟨List.Subset.refl _, fun hwithin => absurd hwithin hexceeded⟩
    · obtain ⟨rfl, rfl⟩ := Prod.mk.inj hrun
      exact ⟨⟨hholds.tiled, hholds.garbage, hholds.nodes, hholds.last⟩, hholds.kind, hholds.span, False.elim,
        hholds.ended, hholds.told, hholds.covered, fun hbeyond => hholds.beyond (hbeyond.resolve_right Bool.noConfusion)⟩

/-! ### Runs -/

theorem State.Retains.refl (state : State) : state.Retains state := ⟨List.Subset.refl _, id⟩

/-- What has been reported and exceeded stays so, and what has been placed grows. -/
theorem Rule.kept_reports : Rule.Kept fun state after =>
    state.Retains after ∧ Tree.widthOf state.placed ≤ Tree.widthOf after.placed where
  refl state := ⟨.refl state, Nat.le_refl _⟩
  trans hfirst hsecond := ⟨⟨List.Subset.trans hfirst.1.reports hsecond.1.reports,
    fun hwithin => hfirst.1.within (hsecond.1.within hwithin)⟩, Nat.le_trans hfirst.2 hsecond.2⟩
  step s state after answer hrun := by
    have hplace (state : State) : state.Retains state.placePending ∧
        Tree.widthOf state.placed ≤ Tree.widthOf state.placePending.placed := by
      refine ⟨⟨List.Subset.refl _, id⟩, ?_⟩
      rw [State.placePending, Tree.widthOf_append]
      exact Nat.le_add_left _ _
    cases s <;> simp only [Step.run, Bind.bind, Except.bind, pure, Except.pure, Except.ok.injEq, Prod.mk.injEq] at hrun
    case current | adjacent =>
      split at hrun
      · cases hrun
      · next looked hlook =>
        obtain ⟨-, rfl⟩ := Prod.mk.inj (Except.ok.inj hrun)
        rw [State.eq_of_spendLook hlook]
        exact ⟨⟨List.Subset.refl _, id⟩, Nat.le_refl _⟩
    case next | currentSpan | afterLineBreak | numberFollows | previous | atEnd | stopped | pushOpener | popOpener | ascend =>
      exact hrun.2 ▸ ⟨⟨List.Subset.refl _, id⟩, Nat.le_refl _⟩
    case mark => exact hrun.2 ▸ hplace state
    case placeTrivia =>
      obtain ⟨hretains, hgrown⟩ := hplace state.passTrivia
      exact hrun.2 ▸ ⟨⟨hretains.reports, hretains.within⟩, hgrown⟩
    case report => exact hrun.2 ▸ ⟨⟨List.subset_cons_self _ _, id⟩, Nat.le_refl _⟩
    case reportOnce offset diagnostic =>
      rw [← hrun.2]
      refine ⟨⟨state.reports_reportOnce offset diagnostic, ?_⟩, ?_⟩
      all_goals
        rw [State.reportOnce]
        split
      · exact id
      · exact id
      · exact Nat.le_refl _
      · exact Nat.le_refl _
    case descend =>
      rw [State.descend] at hrun
      split at hrun
      · refine (Prod.mk.inj hrun).2 ▸ ⟨⟨List.Subset.refl _, fun hwithin => ?_⟩, Nat.le_refl _⟩
        have hnone : (state.exceeded?.orElse fun _ => some .depth) = none := hwithin
        cases hexceeded : state.exceeded? <;> simp [hexceeded] at hnone
      · exact (Prod.mk.inj hrun).2 ▸ ⟨⟨List.Subset.refl _, id⟩, Nat.le_refl _⟩
    case advance =>
      split at hrun
      · cases hrun
      · next advanced hadvance =>
        obtain ⟨-, rfl⟩ := Prod.mk.inj (Except.ok.inj hrun)
        have hretains := State.retains_advance hadvance
        obtain ⟨token, rest, left?, exceeded?, -, -, rfl⟩ := State.advance_ok hadvance
        exact ⟨hretains, Nat.le_trans (hplace state).2 (Nat.le_add_left _ _)⟩
  wrap kind since state after hinner := by
    refine ⟨⟨hinner.1.reports, hinner.1.within⟩, ?_⟩
    have hsplit : Tree.widthOf (state.placed.take since) + Tree.widthOf (state.placed.drop since)
        = Tree.widthOf state.placed := by
      rw [← Tree.widthOf_append, List.take_append_drop]
    have hle := hinner.2
    show _ ≤ Tree.widthOf (.node kind after.placed.reverse :: state.placed.drop since)
    rw [Tree.widthOf, Tree.width, Tree.widthOf_reverse, ← hsplit]
    exact Nat.add_le_add_right hle _

/-- A run of a rule that explains its error nodes bears out what the rule knows. -/
theorem Rule.Explains.exec {α : Type} {bound : Nat} {given : List Diagnostic}
    (hcalls : ∀ (nonterminal : Nonterminal) (known : Known) (origin : Nat) (state after : State),
      known.Holds given origin state → nonterminal.run bound state = .ok after →
        (Known.elsewhere (known.covered ∨ nonterminal.Covers known)).Holds given origin after)
    {rule : Rule α} {known : Known} {ended : α → Known → Prop} {origin : Nat} {state after : State} {answer : α}
    (hexplains : rule.Explains known ended) (hholds : known.Holds given origin state)
    (hexec : rule.exec (Nonterminal.run bound) state = .ok (answer, after)) :
    ∃ learned : Known, learned.Holds given origin after ∧ ended answer learned := by
  induction rule generalizing known origin state after with
  | done found =>
    obtain ⟨rfl, rfl⟩ := Prod.mk.inj (Except.ok.inj hexec)
    exact ⟨known, hholds, hexplains⟩
  | step s rest ih =>
    obtain ⟨found, between, hrun, hexec⟩ := exec_step_ok hexec
    obtain ⟨hagrees, hlearned⟩ := s.holds_of_run hexplains.1 hholds hrun
    exact ih found (hexplains.2 found hagrees) hlearned hexec
  | wrap kind start inner rest ihinner ih =>
    obtain ⟨between, hinner, hexec⟩ := exec_wrap_ok hexec
    generalize state.placed.length - start = since at hinner hexec
    have hsplit : state.placed.reverse = (state.placed.drop since).reverse ++ (state.placed.take since).reverse := by
      rw [← List.reverse_append, List.take_append_drop]
    have hwidth : Tree.widthOf (state.placed.take since) + Tree.widthOf (state.placed.drop since)
        = Tree.widthOf state.placed := by
      rw [← Tree.widthOf_append, List.take_append_drop]
    have hopened : known.inside.Holds given (origin + Tree.widthOf (state.placed.drop since))
        { state with placed := state.placed.take since } := by
      have hnodes := hholds.nodes
      rw [hsplit, Tree.eachOf_append, Tree.widthOf_reverse] at hnodes
      exact ⟨⟨hholds.tiled.opened since, hholds.garbage, hnodes.2, hholds.last⟩, hholds.kind, hholds.span, hholds.going,
        hholds.ended, hholds.told, fun hbeyond hwithin => absurd hwithin (hholds.beyond hbeyond), hholds.beyond⟩
    obtain ⟨learned, hclosed, herror, hrest⟩ := ihinner hexplains hopened hinner
    obtain ⟨hretains, hgrown⟩ := kept_reports.exec (fun nonterminal _ _ => kept_reports.run bound nonterminal _ _) hinner
    refine ih hrest ?_ hexec
    have hretains : state.Retains between := ⟨hretains.reports, hretains.within⟩
    refine ⟨hholds.toExplained.wrap hretains hclosed.toExplained fun hkind => hclosed.covered (herror hkind), hclosed.kind,
      hclosed.span, hclosed.going, hclosed.ended, hclosed.told, ?_, hclosed.beyond⟩
    show _ → between.TellsWithin given origin
      (origin + Tree.widthOf (.node kind between.placed.reverse :: state.placed.drop since))
    rw [Tree.widthOf, Tree.width, Tree.widthOf_reverse]
    rintro (hcovered | hcovered)
    · exact (hholds.covered hcovered).mono hretains (by simp only at hgrown; omega)
    · intro hwithin
      obtain ⟨offset, htells, hfrom, hto⟩ := hclosed.covered hcovered hwithin
      exact ⟨offset, htells, by omega, by omega⟩
  | call nonterminal rest ih =>
    obtain ⟨between, hcall, hexec⟩ := exec_call_ok hexec
    exact ih hexplains (hcalls nonterminal known origin state between hholds hcall) hexec

/-- If the rule of every nonterminal explains its error nodes, every run does. -/
theorem Nonterminal.holds_of_run {given : List Diagnostic}
    (hexplains : ∀ (nonterminal : Nonterminal) (known : Known),
      (Grammar.ruleOf nonterminal).Explains known fun _ after => nonterminal.Covers known → after.covered)
    (bound : Nat) (nonterminal : Nonterminal) (known : Known) (origin : Nat) (state after : State)
    (hholds : known.Holds given origin state) (hrun : nonterminal.run bound state = .ok after) :
    (Known.elsewhere (known.covered ∨ nonterminal.Covers known)).Holds given origin after := by
  induction bound generalizing nonterminal known origin state after with
  | zero => cases hrun
  | succ bound ih =>
    have hexec := Rule.exec_of_run hrun
    obtain ⟨learned, hlearned, hcovers⟩ := (hexplains nonterminal known).exec ih hholds hexec
    refine .elsewhere hlearned.toExplained ?_
    rintro (hcovered | hnonterminal)
    · obtain ⟨learned, hlearned, -, hstill⟩ := ((hexplains nonterminal known).covered hcovered).exec ih hholds hexec
      exact hlearned.covered hstill
    · exact hlearned.covered (hcovers hnonterminal)

end Squirrel
