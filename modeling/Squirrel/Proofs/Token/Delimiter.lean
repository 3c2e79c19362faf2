import Squirrel.Kind

/-!
# Well-nested delimiters

Tokens are read together with the closers that are awaited, the innermost first: an opener adds its closer, a closer has
to be the one that is awaited next, and all other tokens are passed over. What is awaited from further outside makes no
difference to this, so nested tokens may stand anywhere, and each opener in them finds its closer.
-/

namespace Squirrel

namespace Kind

/-- The closer of an opening delimiter. -/
def closer? : Kind → Option Kind
  | parenOpen => some parenClose
  | bracketOpen => some bracketClose
  | braceOpen => some braceClose
  | attributeOpen => some attributeClose
  | _ => none

def isCloser (kind : Kind) : Bool := kind ∈ [parenClose, bracketClose, braceClose, attributeClose]

def isDelimiter (kind : Kind) : Bool := kind.closer?.isSome || kind.isCloser

/-- What is true of no delimiter is true of other tokens only. -/
theorem isDelimiter_eq_false (accepts : Kind → Bool) {kind : Kind} (haccepts : accepts kind = true) (hnone : [parenOpen, parenClose, bracketOpen, bracketClose, braceOpen, braceClose, attributeOpen, attributeClose].any
      accepts = false) : kind.isDelimiter = false := by
  cases kind
  all_goals first
    | rfl
    | simp [haccepts] at hnone

theorem isCloser_of_closer? {opening closing : Kind} (hcloser : opening.closer? = some closing) :
    closing.isCloser = true := by
  revert hcloser
  fun_cases closer? opening
  all_goals
    intro hcloser
    cases hcloser
  all_goals rfl

/-! ### One token -/

/-- The closers that are awaited behind a token. -/
def await (waiting : List Kind) (kind : Kind) : Option (List Kind) :=
  match kind.closer? with
  | some closing => some (closing :: waiting)
  | none => if kind.isCloser then if waiting.head? = some kind then some waiting.tail else none else some waiting

variable {kind closing : Kind} {waiting next : List Kind}

theorem await_opener (hcloser : kind.closer? = some closing) (waiting : List Kind) :
    await waiting kind = some (closing :: waiting) := by
  rw [await, hcloser]

theorem closer?_of_isCloser (hcloser : kind.isCloser = true) : kind.closer? = none := by
  revert hcloser
  cases kind <;> decide

theorem await_closer (hcloser : kind.isCloser = true) (waiting : List Kind) :
    await waiting kind = if waiting.head? = some kind then some waiting.tail else none := by
  rw [await, closer?_of_isCloser hcloser, hcloser]
  rfl

theorem await_other (hother : kind.isDelimiter = false) (waiting : List Kind) : await waiting kind = some waiting := by
  obtain ⟨hopener, hcloser⟩ := Bool.or_eq_false_iff.mp hother
  rw [Option.isSome_eq_false_iff, Option.isNone_iff_eq_none] at hopener
  rw [await, hopener, hcloser]
  rfl

/-- An opener, the closer that is awaited next, or no delimiter. -/
theorem await_cases (hawait : await waiting kind = some next) :
    (∃ closing, kind.closer? = some closing ∧ next = closing :: waiting) ∨
      (kind.isCloser = true ∧ waiting = kind :: next) ∨ kind.isDelimiter = false ∧ next = waiting := by
  cases hopener : kind.closer? with
  | some closing =>
    rw [await_opener hopener, Option.some.injEq] at hawait
    exact .inl ⟨closing, rfl, hawait.symm⟩
  | none =>
    cases hcloser : kind.isCloser with
    | false =>
      have hother : kind.isDelimiter = false := by simp [isDelimiter, hopener, hcloser]
      rw [await_other hother, Option.some.injEq] at hawait
      exact .inr (.inr ⟨hother, hawait.symm⟩)
    | true =>
      rw [await_closer hcloser] at hawait
      cases waiting with
      | nil => exact nomatch hawait
      | cons first waiting =>
        split at hawait
        · next hfirst =>
          obtain rfl : first = kind := Option.some.inj hfirst
          exact .inr (.inl ⟨rfl, congrArg _ (Option.some.inj hawait)⟩)
        · exact nomatch hawait

/-- What is awaited from further outside makes no difference. -/
theorem await_append (hawait : await waiting kind = some next) (outside : List Kind) :
    await (waiting ++ outside) kind = some (next ++ outside) := by
  obtain ⟨closing, hopener, rfl⟩ | ⟨hcloser, rfl⟩ | ⟨hother, rfl⟩ := await_cases hawait
  · exact await_opener hopener _
  · rw [await_closer hcloser]
    exact if_pos rfl
  · exact await_other hother _

/-! ### Rows of tokens -/

/-- The closers that are awaited behind some tokens. -/
def awaited (waiting : List Kind) (kinds : List Kind) : Option (List Kind) := kinds.foldlM await waiting

/-- Each delimiter of some tokens has its counterpart, and no two pairs cross. -/
def Nested (kinds : List Kind) : Prop := awaited [] kinds = some []

instance (kinds : List Kind) : Decidable (Nested kinds) := inferInstanceAs (Decidable (_ = _))

variable {kinds front back final : List Kind}

@[simp] theorem awaited_nil (waiting : List Kind) : awaited waiting [] = some waiting := rfl

theorem awaited_cons (waiting : List Kind) (kind : Kind) (kinds : List Kind) :
    awaited waiting (kind :: kinds) = (await waiting kind).bind (awaited · kinds) := List.foldlM_cons

theorem awaited_append (waiting front back : List Kind) :
    awaited waiting (front ++ back) = (awaited waiting front).bind (awaited · back) := List.foldlM_append

theorem awaited_outside (hawaited : awaited waiting kinds = some final) (outside : List Kind) :
    awaited (waiting ++ outside) kinds = some (final ++ outside) := by
  induction kinds generalizing waiting with
  | nil => rw [awaited_nil, Option.some.inj hawaited]
  | cons kind kinds ih =>
    rw [awaited_cons] at hawaited ⊢
    obtain ⟨next, hawait, hrest⟩ := Option.bind_eq_some_iff.mp hawaited
    rw [await_append hawait, Option.bind_some, ih hrest]

/-- Nested tokens leave awaited what was awaited before them. -/
theorem Nested.awaited_eq (hnested : Nested kinds) (waiting : List Kind) : awaited waiting kinds = some waiting :=
  awaited_outside hnested waiting

/-- Tokens that are no delimiters make no difference. -/
theorem awaited_filter {keep : Kind → Bool} (hkeep : ∀ kind, keep kind = false → kind.isDelimiter = false)
    (waiting kinds : List Kind) : awaited waiting (kinds.filter keep) = awaited waiting kinds := by
  induction kinds generalizing waiting with
  | nil => rfl
  | cons kind kinds ih =>
    cases hkind : keep kind with
    | true =>
      rw [List.filter_cons_of_pos hkind, awaited_cons, awaited_cons]
      congr 1
      exact funext ih
    | false =>
      rw [List.filter_cons_of_neg (by simp [hkind]), awaited_cons, await_other (hkeep kind hkind), Option.bind_some, ih]

/-! ### Openers and their closers -/

/-- Where fewer closers are awaited in the end, one of those awaited at first has been found. -/
theorem exists_closer {inside : List Kind} (hawaited : awaited (inside ++ closing :: waiting) kinds = some final)
    (hclosed : final.length ≤ waiting.length) : ∃ inner rest, kinds = inner ++ closing :: rest ∧
      awaited inside inner = some [] ∧ awaited waiting rest = some final := by
  induction kinds generalizing inside with
  | nil =>
    rw [← Option.some.inj hawaited] at hclosed
    simp at hclosed
    omega
  | cons kind kinds ih =>
    rw [awaited_cons] at hawaited
    obtain ⟨next, hawait, hrest⟩ := Option.bind_eq_some_iff.mp hawaited
    obtain ⟨own, hopener, rfl⟩ | ⟨hcloser, hfirst⟩ | ⟨hother, rfl⟩ := await_cases hawait
    · have hrest : awaited ((own :: inside) ++ closing :: waiting) kinds = some final := hrest
      obtain ⟨inner, rest, rfl, hinner, hbehind⟩ := ih hrest
      exact ⟨kind :: inner, rest, rfl, by rw [awaited_cons, await_opener hopener, Option.bind_some, hinner], hbehind⟩
    · cases inside with
      | nil =>
        obtain ⟨rfl, rfl⟩ := List.cons_eq_cons.mp hfirst
        exact ⟨[], kinds, rfl, rfl, hrest⟩
      | cons first inside =>
        obtain ⟨rfl, rfl⟩ := List.cons_eq_cons.mp hfirst
        obtain ⟨inner, rest, rfl, hinner, hbehind⟩ := ih hrest
        refine ⟨first :: inner, rest, rfl, ?_, hbehind⟩
        rw [awaited_cons, await_closer hcloser, List.head?_cons, if_pos rfl]
        exact hinner
    · obtain ⟨inner, rest, rfl, hinner, hbehind⟩ := ih hrest
      exact ⟨kind :: inner, rest, rfl, by rw [awaited_cons, await_other hother, Option.bind_some, hinner], hbehind⟩

/-- Each opener of nested tokens has its closer behind it, with nested tokens in between. -/
theorem Nested.exists_closer {opening : Kind} (hnested : Nested (front ++ opening :: back))
    (hcloser : opening.closer? = some closing) :
    ∃ inner rest, back = inner ++ closing :: rest ∧ Nested inner := by
  rw [Nested, awaited_append] at hnested
  obtain ⟨waiting, -, hback⟩ := Option.bind_eq_some_iff.mp hnested
  rw [awaited_cons, await_opener hcloser, Option.bind_some, ← List.nil_append (closing :: waiting)] at hback
  obtain ⟨inner, rest, rfl, hinner, -⟩ := Kind.exists_closer hback (Nat.zero_le _)
  exact ⟨inner, rest, rfl, hinner⟩

/-- The closer of an opener is the first one that comes behind nested tokens. -/
theorem Nested.inner_unique {α : Type} {kindOf : α → Kind} {inner inner' rest rest' : List α} {closing closing' : α}
    (hsame : inner ++ closing :: rest = inner' ++ closing' :: rest') (hnested : Nested (inner.map kindOf))
    (hnested' : Nested (inner'.map kindOf)) (hcloser : (kindOf closing).isCloser = true)
    (hcloser' : (kindOf closing').isCloser = true) : inner = inner' ∧ closing = closing' ∧ rest = rest' := by
  have hfirst {inner skipped : List α} {closing : α} (hnested : Nested (inner.map kindOf))
      (hcloser : (kindOf closing).isCloser = true) : ¬Nested ((inner ++ closing :: skipped).map kindOf) := by
    intro hlong
    rw [Nested, List.map_append, awaited_append, hnested.awaited_eq, Option.bind_some, List.map_cons, awaited_cons,
      await_closer hcloser] at hlong
    exact nomatch hlong
  obtain ⟨skipped, rfl, hskipped⟩ | ⟨skipped, rfl, hskipped⟩ := List.append_eq_append_iff.mp hsame
  · cases skipped with
    | nil =>
      obtain ⟨rfl, rfl⟩ := List.cons_eq_cons.mp hskipped
      exact ⟨(List.append_nil _).symm, rfl, rfl⟩
    | cons first skipped =>
      obtain ⟨rfl, -⟩ := List.cons_eq_cons.mp hskipped
      exact absurd hnested' (hfirst hnested hcloser)
  · cases skipped with
    | nil =>
      obtain ⟨rfl, rfl⟩ := List.cons_eq_cons.mp hskipped
      exact ⟨List.append_nil _, rfl, rfl⟩
    | cons first skipped =>
      obtain ⟨rfl, -⟩ := List.cons_eq_cons.mp hskipped
      exact absurd hnested (hfirst hnested' hcloser')

end Kind

end Squirrel
