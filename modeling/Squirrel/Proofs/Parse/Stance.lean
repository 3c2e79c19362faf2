import Squirrel.Proofs.Grammar.Word
import Squirrel.Proofs.Parse.Growth
import Squirrel.Proofs.Parse.Laying
import Squirrel.Proofs.Tree.Edge

/-!
# Where a rule opens its nodes

Whether blanks end up at the start of a node depends on whether a rule has looked at the token here before it opens the
node: a look passes the blanks, and opening a node places those that have been passed. A rule is followed by where it
stands in this sense, without running it, and a reading bears it out: the nodes that it places are exact.
-/

namespace Squirrel

open Squirrel.Tree

/-- Whether a nonterminal may be called anywhere: it looks at the token here before it moves, and it leaves alone what has
been placed. -/
@[simp] def Nonterminal.looksFirst : Nonterminal → Bool
  | operators .. | skipToStatement => false
  | _ => true

/-- Whether a nonterminal ends with a look at the token here. -/
@[simp] def Nonterminal.looksLast : Nonterminal → Bool
  | path _ => true
  | _ => false

/-- Whether a nonterminal that reads without a report always places something. -/
@[simp] def Nonterminal.fills : Nonterminal → Bool
  | expression .. => true
  | _ => false

/-- Where a rule stands. -/
structure Stance where
  /-- The trivia before the token here has been passed. -/
  settled : Prop
  /-- No trivia comes right behind the token here. -/
  joined : Prop
  /-- The kind of the token here. -/
  here? : Option Kind
  /-- The kind of the token that was passed last, right behind which the rule stands without having looked further. -/
  last? : Option Kind

namespace Stance

/-- Nothing is known of a new place. -/
def unknown : Stance := ⟨False, False, none, none⟩

def behind (nonterminal : Nonterminal) : Stance := { unknown with settled := nonterminal.looksLast = true }

def looked (known : Stance) : Stance := { known with settled := True, last? := none }

/-- After a look that tells the kind of the token here. -/
def seen (known : Stance) (kind : Kind) : Stance := { known.looked with here? := some kind }

def moved (known : Stance) : Stance := ⟨known.joined, False, none, known.here?⟩

/-- Right inside a node that is opened here. -/
def inside (known : Stance) : Stance := { known with last? := none }

/-- Whether a node of a kind may be opened: what comes next has been looked at, or the word right before leads to it. -/
def Opens (known : Stance) (kind : Kind) : Prop :=
  known.settled ∨ ∃ word, known.last? = some word ∧ word.leadsTo kind = true

variable {known : Stance}

@[simp] theorem opens_iff (kind : Kind) : known.Opens kind ↔
    known.settled ∨ ∃ word, known.last? = some word ∧ word.leadsTo kind = true := ⟨id, id⟩

@[simp] theorem settled_behind (nonterminal : Nonterminal) :
    (behind nonterminal).settled ↔ nonterminal.looksLast = true := ⟨id, id⟩

@[simp] theorem settled_looked : known.looked.settled := trivial

@[simp] theorem joined_looked : known.looked.joined = known.joined := rfl

@[simp] theorem settled_seen (kind : Kind) : (known.seen kind).settled := trivial

@[simp] theorem here?_seen (kind : Kind) : (known.seen kind).here? = some kind := rfl

@[simp] theorem seen_seen (found kind : Kind) : (known.seen found).seen kind = known.seen kind := rfl

@[simp] theorem settled_moved : known.moved.settled = known.joined := rfl

@[simp] theorem last?_moved : known.moved.last? = known.here? := rfl

@[simp] theorem settled_inside : known.inside.settled = known.settled := rfl

@[simp] theorem joined_inside : known.inside.joined = known.joined := rfl

@[simp] theorem here?_inside : known.inside.here? = known.here? := rfl

end Stance

namespace Step

/-- The steps that fail in a reading. -/
@[simp] def isReport {α : Type} : Step α → Bool
  | report _ | reportOnce .. => true
  | _ => false

/-- The answers that a reading may get: it never comes to the limit of nesting. -/
@[simp] def isReadable {α : Type} : Step α → α → Bool
  | descend, within => within
  | _, _ => true

/-- A rule moves only past a token that it has looked at. -/
@[simp] def Needs {α : Type} (known : Stance) : Step α → Prop
  | advance => known.settled
  | placeTrivia => False
  | _ => True

/-- Where a rule stands after a step. -/
@[simp] def reach {α : Type} (known : Stance) : Step α → α → Stance
  | current, kind => known.seen kind
  | adjacent, _ | next, _ | currentSpan, _ | afterLineBreak, _ => known.looked
  | numberFollows, follows => { known.looked with joined := known.joined ∨ follows = true }
  | advance, _ => known.moved
  | _, _ => known

/-- The mark that has been set, right before a node is opened at it. -/
@[simp] def mark? {α : Type} : Step α → α → Option Nat
  | mark, start => some start
  | _, _ => none

end Step

namespace Rule

variable {α β : Type}

/-- Whatever its steps answer, a rule reports or places something, or ends with an answer as asked for. -/
def Fills {α : Type} : Rule α → (α → Prop) → Prop
  | done answer, ended => ended answer
  | step s rest, ended => s.isReport = true ∨ s.isMove = true ∨ ∀ answer, (rest answer).Fills ended
  | wrap _ _ inner rest, ended => inner.Fills fun _ => rest.Fills ended
  | call nonterminal rest, ended => nonterminal.fills = true ∨ rest.Fills ended

/-- Every node that a rule places without a report is opened at a mark that was set just before, where one of its kind may
be opened, and has something in it. The rule ends with an answer and in a stance as asked for, or right behind a mark. -/
def Neat {α : Type} : Rule α → Option Nat → Stance → (α → Stance → Prop) → (α → Nat → Stance → Prop) → Prop
  | done answer, none, known, ended, _ => ended answer known
  | done answer, some start, known, _, marked => marked answer start known
  | step s rest, none, known, ended, marked => s.isReport = false →
    s.Needs known ∧ ∀ answer, s.isReadable answer = true →
      (rest answer).Neat (s.mark? answer) (s.reach known answer) ended marked
  | wrap kind start inner rest, some mark, known, ended, marked =>
    start = mark ∧ known.Opens kind ∧ inner.Fills (fun _ => False) ∧
      inner.Neat none known.inside (fun _ _ => True) (fun _ _ _ => False) ∧ rest.Neat none .unknown ended marked
  | call nonterminal rest, none, _, ended, marked =>
    nonterminal.looksFirst = true ∧ rest.Neat none (.behind nonterminal) ended marked
  | step .., some _, _, _, _ | wrap .., none, _, _, _ | call .., some _, _, _, _ => False

/-! ### Following rules that are put together -/

@[simp] theorem fills_pure (answer : α) (ended : α → Prop) : (pure answer : Rule α).Fills ended ↔ ended answer := Iff.rfl

@[simp] theorem fills_ofStep (s : Step α) (ended : α → Prop) :
    (ofStep s).Fills ended ↔ s.isReport = true ∨ s.isMove = true ∨ ∀ answer, ended answer := Iff.rfl

@[simp] theorem fills_bind (rule : Rule α) (next : α → Rule β) (ended : β → Prop) :
    (rule >>= next).Fills ended ↔ rule.Fills fun answer => (next answer).Fills ended := by
  rw [bind_eq]
  induction rule with
  | done answer => rfl
  | step s rest ih => exact or_congr_right (or_congr_right (forall_congr' fun answer => ih answer next))
  | wrap kind start inner rest _ ih =>
    simp only [Rule.bind, Fills]
    exact iff_of_eq (congrArg _ (funext fun _ => propext (ih next)))
  | call nonterminal rest ih => exact or_congr_right (ih next)

@[simp] theorem fills_ite (condition : Prop) [Decidable condition] (left right : Rule α) (ended : α → Prop) :
    (if condition then left else right).Fills ended
      ↔ if condition then left.Fills ended else right.Fills ended := by
  split <;> rfl

variable {known : Stance}

@[simp] theorem neat_pure (answer : α) (ended : α → Stance → Prop) (marked : α → Nat → Stance → Prop) :
    (pure answer : Rule α).Neat none known ended marked ↔ ended answer known := Iff.rfl

theorem neat_bind_at (rule : Rule α) (next : α → Rule β) (mark? : Option Nat) (ended : β → Stance → Prop)
    (marked : β → Nat → Stance → Prop) :
    (rule >>= next).Neat mark? known ended marked ↔
      rule.Neat mark? known (fun answer after => (next answer).Neat none after ended marked)
        (fun answer start after => (next answer).Neat (some start) after ended marked) := by
  rw [bind_eq]
  induction rule generalizing mark? known with
  | done answer => cases mark? <;> rfl
  | step s rest ih =>
    cases mark? with
    | none =>
      exact imp_congr_right fun _ => and_congr_right fun _ => forall_congr' fun answer =>
        imp_congr_right fun _ => ih answer next _
    | some start => rfl
  | wrap kind start inner rest _ ih =>
    cases mark? with
    | none => rfl
    | some mark =>
      exact and_congr_right fun _ => and_congr_right fun _ => and_congr_right fun _ => and_congr_right fun _ => ih next _
  | call nonterminal rest ih =>
    cases mark? with
    | none => exact and_congr_right fun _ => ih next _
    | some start => rfl

@[simp] theorem neat_bind (rule : Rule α) (next : α → Rule β) (ended : β → Stance → Prop)
    (marked : β → Nat → Stance → Prop) :
    (rule >>= next).Neat none known ended marked ↔
      rule.Neat none known (fun answer after => (next answer).Neat none after ended marked)
        (fun answer start after => (next answer).Neat (some start) after ended marked) :=
  neat_bind_at ..

variable {ended : α → Stance → Prop} {marked : α → Nat → Stance → Prop}

@[simp] theorem neat_ofStep (s : Step α) : (ofStep s).Neat none known ended marked ↔
    (s.isReport = false → s.Needs known ∧ ∀ answer, s.isReadable answer = true → match s.mark? answer with
      | none => ended answer (s.reach known answer)
      | some start => marked answer start (s.reach known answer)) := by
  refine imp_congr_right fun _ => and_congr_right fun _ => forall_congr' fun answer => imp_congr_right fun _ => ?_
  cases s.mark? answer <;> rfl

@[simp] theorem neat_map (f : β → α) (rule : Rule β) : (f <$> rule).Neat none known ended marked ↔
    rule.Neat none known (fun answer after => ended (f answer) after)
      (fun answer start after => marked (f answer) start after) :=
  neat_bind ..

@[simp] theorem neat_ite (condition : Prop) [Decidable condition] (left right : Rule α) :
    (if condition then left else right).Neat none known ended marked ↔
      if condition then left.Neat none known ended marked else right.Neat none known ended marked := by
  split <;> rfl

@[simp] theorem neat_orM (left right : Rule Bool) (ended : Bool → Stance → Prop)
    (marked : Bool → Nat → Stance → Prop) :
    (left <||> right).Neat none known ended marked ↔
      left.Neat none known
        (fun answer after => if answer then ended true after else right.Neat none after ended marked)
        (fun answer start after => if answer then marked true start after
          else right.Neat (some start) after ended marked) := by
  refine (neat_bind ..).trans (iff_of_eq ?_)
  congr
  · funext answer after
    cases answer <;> rfl
  · funext answer start after
    cases answer <;> rfl

@[simp] theorem neat_andM (left right : Rule Bool) (ended : Bool → Stance → Prop)
    (marked : Bool → Nat → Stance → Prop) :
    (left <&&> right).Neat none known ended marked ↔
      left.Neat none known
        (fun answer after => if answer then right.Neat none after ended marked else ended false after)
        (fun answer start after => if answer then right.Neat (some start) after ended marked
          else marked false start after) := by
  refine (neat_bind ..).trans (iff_of_eq ?_)
  congr
  · funext answer after
    cases answer <;> rfl
  · funext answer start after
    cases answer <;> rfl

theorem Neat.mono {rule : Rule α} {mark? : Option Nat} {weaker : α → Stance → Prop}
    {weakerMarked : α → Nat → Stance → Prop} (hneat : rule.Neat mark? known ended marked)
    (hweaker : ∀ answer after, ended answer after → weaker answer after)
    (hmarked : ∀ answer start after, marked answer start after → weakerMarked answer start after) :
    rule.Neat mark? known weaker weakerMarked := by
  induction rule generalizing mark? known with
  | done answer =>
    cases mark? with
    | none => exact hweaker answer known hneat
    | some start => exact hmarked answer start known hneat
  | step s rest ih =>
    cases mark? with
    | none =>
      intro hquiet
      obtain ⟨hneeds, hrest⟩ := hneat hquiet
      exact ⟨hneeds, fun answer hanswer => ih answer (hrest answer hanswer) hweaker hmarked⟩
    | some start => exact hneat
  | wrap kind start inner rest _ ih =>
    cases mark? with
    | none => exact hneat
    | some mark =>
      obtain ⟨hstart, hopens, hfills, hinner, hrest⟩ := hneat
      exact ⟨hstart, hopens, hfills, hinner, ih hrest hweaker hmarked⟩
  | call nonterminal rest ih =>
    cases mark? with
    | none => exact ⟨hneat.1, ih hneat.2 hweaker hmarked⟩
    | some start => exact hneat

end Rule

end Squirrel
