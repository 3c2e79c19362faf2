import Squirrel.Literal.Integer

/-!
# Ends found byte by byte

The ends of comments and strings as loops over the bytes of a text find them: with an offset that moves on by up to three
bytes at a time, and with what the last byte leaves open. Beside each loop stands what it looks for, the places where such
a token may end. A loop stops at the first of them, and at the end of the text if there is none.
-/

namespace Squirrel

open Literal

/-- How many bytes a token takes, and whether its closer was found. -/
structure ByteExtent where
  length : Nat
  closed : Bool
  deriving DecidableEq

namespace ByteExtent

/-! ### Loops -/

/-- What one turn of a loop does: the token ends, or the loop goes on behind this byte and some more. -/
inductive Turn (σ : Type) where
  | ends (extent : ByteExtent)
  | goesOn (state : σ) (skipped : Nat)

section Loop

variable {σ : Type} {size : Nat} {turn : σ → Nat → Turn σ} {atEnd : σ → ByteExtent}

/-- Turns from an offset on, as long as there are bytes. -/
def loop (size : Nat) (turn : σ → Nat → Turn σ) (atEnd : σ → ByteExtent) (state : σ) (offset : Nat) : ByteExtent :=
  if offset < size then
    match turn state offset with
    | .ends extent => extent
    | .goesOn next skipped => loop size turn atEnd next (offset + skipped + 1)
  else atEnd state
termination_by size - offset

theorem loop_ends {state : σ} {offset : Nat} {extent : ByteExtent} (hlt : offset < size)
    (hturn : turn state offset = .ends extent) : loop size turn atEnd state offset = extent := by
  rw [loop, if_pos hlt, hturn]

theorem loop_goesOn {state next : σ} {offset skipped : Nat} (hlt : offset < size)
    (hturn : turn state offset = .goesOn next skipped) :
    loop size turn atEnd state offset = loop size turn atEnd next (offset + skipped + 1) := by
  rw [loop, if_pos hlt, hturn]

theorem loop_atEnd {state : σ} {offset : Nat} (hle : size ≤ offset) : loop size turn atEnd state offset = atEnd state := by
  rw [loop, if_neg (Nat.not_lt.mpr hle)]

/-- What holds before every turn and leads to the result wherever the loop stops, leads to the result. -/
theorem loop_of_invariant (Inv : σ → Nat → Prop) {Result : ByteExtent → Prop}
    (hends : ∀ state offset extent, Inv state offset → offset < size → turn state offset = .ends extent → Result extent)
    (hgoesOn : ∀ state offset next skipped, Inv state offset → offset < size →
      turn state offset = .goesOn next skipped → Inv next (offset + skipped + 1))
    (hatEnd : ∀ state offset, Inv state offset → size ≤ offset → Result (atEnd state))
    {state : σ} {offset : Nat} (hinv : Inv state offset) : Result (loop size turn atEnd state offset) := by
  fun_induction loop size turn atEnd state offset with
  | case1 state offset hlt extent hturn => exact hends state offset extent hinv hlt hturn
  | case2 state offset hlt next skipped hturn ih => exact ih (hgoesOn state offset next skipped hinv hlt hturn)
  | case3 state offset hle => exact hatEnd state offset hinv (Nat.not_lt.mp hle)

/-- Turns that change nothing may be left out. -/
theorem loop_skip {state : σ} {offset stop : Nat} (hle : offset ≤ stop) (hstop : stop ≤ size)
    (hplain : ∀ place, offset ≤ place → place < stop → turn state place = .goesOn state 0) :
    loop size turn atEnd state offset = loop size turn atEnd state stop := by
  obtain ⟨count, rfl⟩ := Nat.exists_eq_add_of_le hle
  induction count generalizing offset with
  | zero => rfl
  | succ count ih =>
    rw [loop_goesOn (by omega) (hplain offset (Nat.le_refl _) (by omega)), Nat.add_zero,
      ih (by omega) (by omega) fun place hfrom hto => hplain place (by omega) (by omega)]
    congr 1
    omega

end Loop

/-! ### First ends -/

/-- The token ends at the first place where it may end, and takes the whole text if there is none. -/
structure IsFirst (EndsAt : Nat → Prop) (size : Nat) (extent : ByteExtent) : Prop where
  closed_iff : extent.closed = true ↔ ∃ stop, EndsAt stop
  first : extent.closed = true → EndsAt extent.length ∧ ∀ stop, EndsAt stop → extent.length ≤ stop
  whole : extent.closed = false → extent.length = size

theorem isFirst_of_endsAt {EndsAt : Nat → Prop} {size length : Nat} (hends : EndsAt length)
    (hnone : ∀ stop < length, ¬EndsAt stop) : IsFirst EndsAt size ⟨length, true⟩ where
  closed_iff := ⟨fun _ => ⟨length, hends⟩, fun _ => rfl⟩
  first _ := ⟨hends, fun stop hstop => Nat.not_lt.mp fun hlt => hnone stop hlt hstop⟩
  whole := nofun

theorem isFirst_of_none {EndsAt : Nat → Prop} {size : Nat} (hnone : ∀ stop, ¬EndsAt stop) :
    IsFirst EndsAt size ⟨size, false⟩ where
  closed_iff := ⟨nofun, fun ⟨stop, hstop⟩ => absurd hstop (hnone stop)⟩
  first := nofun
  whole _ := rfl

variable {bytes : List Nat}

theorem lt_of_getElem? {place byte : Nat} (hbyte : bytes[place]? = some byte) : place < bytes.length :=
  (List.getElem?_eq_some_iff.mp hbyte).1

/-! ### Block comments -/

/-- Right behind a star and a slash that stand behind the opener. -/
def CommentEndsAt (bytes : List Nat) (stop : Nat) : Prop :=
  ∃ place, 2 ≤ place ∧ bytes[place]? = some '*'.toNat ∧ bytes[place + 1]? = some '/'.toNat ∧ stop = place + 2

/-- The state tells whether the byte before is a star of the body. -/
def commentTurn (bytes : List Nat) (star : Bool) (offset : Nat) : Turn Bool :=
  if star = true ∧ bytes[offset]? = some '/'.toNat then .ends ⟨offset + 1, true⟩
  else .goesOn (decide (bytes[offset]? = some '*'.toNat)) 0

def blockComment (bytes : List Nat) : ByteExtent :=
  loop bytes.length (commentTurn bytes) (fun _ => ⟨bytes.length, false⟩) false 2

theorem isFirst_blockComment (bytes : List Nat) :
    IsFirst (CommentEndsAt bytes) bytes.length (blockComment bytes) := by
  refine loop_of_invariant (fun star offset => 2 ≤ offset ∧
    (star = true ↔ 2 < offset ∧ bytes[offset - 1]? = some '*'.toNat) ∧ ∀ stop ≤ offset, ¬CommentEndsAt bytes stop)
    ?_ ?_ ?_ ⟨Nat.le_refl 2, by simp, ?_⟩
  · rintro star offset extent ⟨hle, hstar, hnone⟩ - hturn
    rw [commentTurn] at hturn
    split at hturn
    · next hcloser =>
      cases hturn
      obtain ⟨hlt, hbefore⟩ := hstar.mp hcloser.1
      have hplace : offset - 1 + 1 = offset := Nat.sub_add_cancel (by omega)
      refine isFirst_of_endsAt ⟨offset - 1, by omega, hbefore, hplace ▸ hcloser.2, by omega⟩ fun stop hstop => ?_
      exact hnone stop (Nat.le_of_lt_succ hstop)
    · cases hturn
  · rintro star offset next skipped ⟨hle, hstar, hnone⟩ - hturn
    rw [commentTurn] at hturn
    split at hturn
    · cases hturn
    · next hopen =>
      cases hturn
      refine ⟨Nat.le_succ_of_le hle, ?_, fun stop hstop hends => ?_⟩
      · rw [decide_eq_true_iff]
        exact ⟨fun hbyte => ⟨Nat.lt_succ_of_le hle, hbyte⟩, fun hbyte => hbyte.2⟩
      · obtain hle | rfl := Nat.le_or_eq_of_le_succ hstop
        · exact hnone stop hle hends
        · obtain ⟨place, hfrom, hfirst, hsecond, hstop⟩ := hends
          obtain rfl : offset = place + 1 := by omega
          exact hopen ⟨hstar.mpr ⟨by omega, hfirst⟩, hsecond⟩
  · rintro star offset ⟨-, -, hnone⟩ hsize
    refine isFirst_of_none fun stop hends => hnone stop ?_ hends
    obtain ⟨place, -, -, hsecond, rfl⟩ := hends
    have := lt_of_getElem? hsecond
    omega
  · rintro stop hstop ⟨place, hfrom, -, -, rfl⟩
    omega

/-! ### Bytes that a backslash takes along -/

/-- A backslash behind the opener takes the next byte along, unless it is itself taken along by the byte before it. -/
def Taken (opener : Nat) (bytes : List Nat) : Nat → Prop
  | 0 => False
  | place + 1 => opener ≤ place ∧ bytes[place]? = some '\\'.toNat ∧ ¬Taken opener bytes place

section Taken

variable {opener place : Nat}

theorem ne_of_getElem? {a b : Char} (hbyte : bytes[place]? = some a.toNat) (hne : a ≠ b) :
    bytes[place]? ≠ some b.toNat := by
  intro heq
  exact hne (Char.toNat_inj.mp (Option.some.inj (hbyte.symm.trans heq)))

theorem not_taken_of_le (hle : place ≤ opener) : ¬Taken opener bytes place := by
  cases place with
  | zero => exact id
  | succ place => exact fun htaken => absurd htaken.1 (by omega)

theorem not_taken_of_ne (hbyte : bytes[place]? ≠ some '\\'.toNat) : ¬Taken opener bytes (place + 1) :=
  fun htaken => hbyte htaken.2.1

theorem not_taken_of_taken (htaken : Taken opener bytes place) : ¬Taken opener bytes (place + 1) :=
  fun hnext => hnext.2.2 htaken

end Taken

/-! ### Line comments -/

/-- In front of a line feed behind the opener that no backslash takes along, alone or behind a carriage return. -/
def LineEndsAt (bytes : List Nat) (stop : Nat) : Prop :=
  2 ≤ stop ∧ bytes[stop]? = some '\n'.toNat ∧ ¬Taken 2 bytes stop ∧
    ¬(bytes[stop - 1]? = some '\r'.toNat ∧ Taken 2 bytes (stop - 1))

def lineTurn (bytes : List Nat) (_ : Unit) (offset : Nat) : Turn Unit :=
  if bytes[offset]? = some '\\'.toNat then
    if bytes[offset + 1]? = some '\r'.toNat ∧ bytes[offset + 2]? = some '\n'.toNat then .goesOn () 2
    else if offset + 1 < bytes.length then .goesOn () 1
    else .goesOn () 0
  else if bytes[offset]? = some '\n'.toNat then .ends ⟨offset, true⟩
  else .goesOn () 0

def lineComment (bytes : List Nat) : ByteExtent :=
  loop bytes.length (lineTurn bytes) (fun _ => ⟨bytes.length, false⟩) () 2

/-- The loop stands at bytes that no backslash takes along, and no end lies behind it. -/
structure LineInvariant (bytes : List Nat) (offset : Nat) : Prop where
  opener_le : 2 ≤ offset
  not_taken : offset < bytes.length → ¬Taken 2 bytes offset
  not_break : bytes[offset]? = some '\n'.toNat → ¬(bytes[offset - 1]? = some '\r'.toNat ∧ Taken 2 bytes (offset - 1))
  none_before : ∀ stop < offset, ¬LineEndsAt bytes stop

theorem LineInvariant.goesOn {offset skipped : Nat} {state : Unit} (hinv : LineInvariant bytes offset)
    (hlt : offset < bytes.length) (hturn : lineTurn bytes () offset = .goesOn state skipped) :
    LineInvariant bytes (offset + skipped + 1) := by
  obtain ⟨hle, htaken, hbreak, hnone⟩ := hinv
  have hnot := htaken hlt
  rw [lineTurn] at hturn
  split at hturn
  · next hbackslash =>
    have hnext : Taken 2 bytes (offset + 1) := ⟨hle, hbackslash, hnot⟩
    have hhere : ¬LineEndsAt bytes offset := fun hends => ne_of_getElem? hbackslash (by decide) hends.2.1
    split at hturn
    · next hpair =>
      cases hturn
      refine ⟨by omega, fun _ => not_taken_of_ne (ne_of_getElem? hpair.2 (by decide)),
        fun _ hreturn => ne_of_getElem? hpair.2 (by decide) hreturn.1, fun stop hstop => ?_⟩
      obtain hstop | rfl | rfl | rfl : stop < offset ∨ stop = offset ∨ stop = offset + 1 ∨ stop = offset + 2 := by omega
      · exact hnone stop hstop
      · exact hhere
      · exact fun hends => hends.2.2.1 hnext
      · exact fun hends => hends.2.2.2 ⟨hpair.1, hnext⟩
    · next hpair =>
      split at hturn
      · cases hturn
        refine ⟨by omega, fun _ => not_taken_of_taken hnext, fun hfeed hreturn => hpair ⟨hreturn.1, hfeed⟩,
          fun stop hstop => ?_⟩
        obtain hstop | rfl | rfl : stop < offset ∨ stop = offset ∨ stop = offset + 1 := by omega
        · exact hnone stop hstop
        · exact hhere
        · exact fun hends => hends.2.2.1 hnext
      · next hlast =>
        cases hturn
        refine ⟨by omega, fun hlt => absurd hlt hlast, fun hfeed => absurd (lt_of_getElem? hfeed) hlast,
          fun stop hstop => ?_⟩
        obtain hstop | rfl : stop < offset ∨ stop = offset := by omega
        · exact hnone stop hstop
        · exact hhere
  · next hbackslash =>
    split at hturn
    · cases hturn
    · next hfeed =>
      cases hturn
      refine ⟨by omega, fun _ => not_taken_of_ne hbackslash, fun _ hreturn => hnot hreturn.2, fun stop hstop => ?_⟩
      obtain hstop | rfl : stop < offset ∨ stop = offset := by omega
      · exact hnone stop hstop
      · exact fun hends => hfeed hends.2.1

theorem isFirst_lineComment (bytes : List Nat) : IsFirst (LineEndsAt bytes) bytes.length (lineComment bytes) := by
  refine loop_of_invariant (fun _ offset => LineInvariant bytes offset) ?_ ?_ ?_ ⟨Nat.le_refl 2, ?_, ?_, ?_⟩
  · rintro ⟨⟩ offset extent hinv hlt hturn
    rw [lineTurn] at hturn
    split at hturn
    · split at hturn
      · cases hturn
      · split at hturn <;> cases hturn
    · split at hturn
      · next hfeed =>
        cases hturn
        exact isFirst_of_endsAt ⟨hinv.opener_le, hfeed, hinv.not_taken hlt, hinv.not_break hfeed⟩ hinv.none_before
      · cases hturn
  · exact fun _ offset next skipped hinv hlt hturn => hinv.goesOn hlt hturn
  · rintro ⟨⟩ offset hinv hsize
    refine isFirst_of_none fun stop hends => hinv.none_before stop ?_ hends
    exact Nat.lt_of_lt_of_le (lt_of_getElem? hends.2.1) hsize
  · exact fun _ => not_taken_of_le (Nat.le_refl 2)
  · exact fun _ hreturn => not_taken_of_le (by decide) hreturn.2
  · exact fun stop hstop hends => Nat.not_le.mpr hstop hends.1

/-! ### Strings -/

/-- Right behind a quote behind the opener that no backslash takes along. -/
def StringEndsAt (bytes : List Nat) (stop : Nat) : Prop :=
  ∃ place, 1 ≤ place ∧ bytes[place]? = some '"'.toNat ∧ ¬Taken 1 bytes place ∧ stop = place + 1

def stringTurn (bytes : List Nat) (_ : Unit) (offset : Nat) : Turn Unit :=
  if bytes[offset]? = some '\\'.toNat then .goesOn () 1
  else if bytes[offset]? = some '"'.toNat then .ends ⟨offset + 1, true⟩
  else .goesOn () 0

def string (bytes : List Nat) : ByteExtent :=
  loop bytes.length (stringTurn bytes) (fun _ => ⟨bytes.length, false⟩) () 1

/-- The loop stands at a byte that no backslash takes along, and no end lies behind it. -/
structure StringInvariant (bytes : List Nat) (offset : Nat) : Prop where
  opener_le : 1 ≤ offset
  not_taken : ¬Taken 1 bytes offset
  none_before : ∀ stop ≤ offset, ¬StringEndsAt bytes stop

theorem StringInvariant.goesOn {offset skipped : Nat} {state : Unit} (hinv : StringInvariant bytes offset)
    (hturn : stringTurn bytes () offset = .goesOn state skipped) : StringInvariant bytes (offset + skipped + 1) := by
  obtain ⟨hle, hnot, hnone⟩ := hinv
  have hquote (hother : bytes[offset]? ≠ some '"'.toNat) : ¬StringEndsAt bytes (offset + 1) := by
    rintro ⟨place, -, hfound, -, hstop⟩
    obtain rfl : offset = place := Nat.succ.inj hstop
    exact hother hfound
  rw [stringTurn] at hturn
  split at hturn
  · next hbackslash =>
    cases hturn
    have hnext : Taken 1 bytes (offset + 1) := ⟨hle, hbackslash, hnot⟩
    refine ⟨by omega, not_taken_of_taken hnext, fun stop hstop => ?_⟩
    obtain hstop | rfl | rfl : stop ≤ offset ∨ stop = offset + 1 ∨ stop = offset + 1 + 1 := by omega
    · exact hnone stop hstop
    · exact hquote (ne_of_getElem? hbackslash (by decide))
    · rintro ⟨place, -, -, hfree, hstop⟩
      obtain rfl : offset + 1 = place := Nat.succ.inj hstop
      exact hfree hnext
  · next hbackslash =>
    split at hturn
    · cases hturn
    · next hother =>
      cases hturn
      refine ⟨by omega, not_taken_of_ne hbackslash, fun stop hstop => ?_⟩
      obtain hstop | rfl : stop ≤ offset ∨ stop = offset + 1 := by omega
      · exact hnone stop hstop
      · exact hquote hother

theorem isFirst_string (bytes : List Nat) : IsFirst (StringEndsAt bytes) bytes.length (string bytes) := by
  refine loop_of_invariant (fun _ offset => StringInvariant bytes offset) ?_ ?_ ?_ ⟨Nat.le_refl 1, ?_, ?_⟩
  · rintro ⟨⟩ offset extent hinv - hturn
    rw [stringTurn] at hturn
    split at hturn
    · cases hturn
    · split at hturn
      · next hquote =>
        cases hturn
        exact isFirst_of_endsAt ⟨offset, hinv.opener_le, hquote, hinv.not_taken, rfl⟩ fun stop hstop =>
          hinv.none_before stop (Nat.le_of_lt_succ hstop)
      · cases hturn
  · exact fun _ offset next skipped hinv _ hturn => hinv.goesOn hturn
  · rintro ⟨⟩ offset hinv hsize
    refine isFirst_of_none fun stop hends => hinv.none_before stop ?_ hends
    obtain ⟨place, -, hquote, -, rfl⟩ := hends
    exact Nat.le_trans (lt_of_getElem? hquote) hsize
  · exact not_taken_of_le (Nat.le_refl 1)
  · rintro stop hstop ⟨place, hle, -, -, rfl⟩
    omega

/-! ### Verbatim strings -/

/-- Between two offsets there are quotes only, and behind the opener none stands right in front of them. -/
structure IsRun (bytes : List Nat) (first stop : Nat) : Prop where
  opener_le : 2 ≤ first
  first_le : first ≤ stop
  quote : ∀ place, first ≤ place → place < stop → bytes[place]? = some '"'.toNat
  maximal : first = 2 ∨ bytes[first - 1]? ≠ some '"'.toNat

/-- Right behind a run of quotes of odd length that begins behind the opener and does not go on. -/
def VerbatimEndsAt (bytes : List Nat) (stop : Nat) : Prop :=
  ∃ first, IsRun bytes first stop ∧ bytes[stop]? ≠ some '"'.toNat ∧ (stop - first) % 2 = 1

/-- A run that ends somewhere begins at one place only. -/
theorem IsRun.unique {first other stop : Nat} (hrun : IsRun bytes first stop) (hother : IsRun bytes other stop) :
    first = other := by
  have hle {left right : Nat} (hleft : IsRun bytes left stop) (hright : IsRun bytes right stop) : right ≤ left := by
    refine Nat.not_lt.mp fun hlt => ?_
    have hopener := hleft.opener_le
    have hstop := hright.first_le
    obtain rfl | hbefore := hright.maximal
    · omega
    · exact hbefore (hleft.quote (right - 1) (by omega) (by omega))
  exact Nat.le_antisymm (hle hother hrun) (hle hrun hother)

/-- The state tells whether the byte before is a quote that is not the second one of a pair. -/
def verbatimTurn (bytes : List Nat) (quote : Bool) (offset : Nat) : Turn Bool :=
  if bytes[offset]? = some '"'.toNat then .goesOn (!quote) 0
  else if quote = true then .ends ⟨offset, true⟩
  else .goesOn false 0

def verbatimString (bytes : List Nat) : ByteExtent :=
  loop bytes.length (verbatimTurn bytes) (fun quote => ⟨bytes.length, quote⟩) false 2

/-- The loop stands behind a run of quotes whose length is odd if one of them is left over, and no end lies behind it. -/
structure VerbatimInvariant (bytes : List Nat) (quote : Bool) (offset : Nat) : Prop where
  run : ∃ first, IsRun bytes first offset ∧ ((offset - first) % 2 = 1 ↔ quote = true)
  none_before : ∀ stop < offset, ¬VerbatimEndsAt bytes stop

namespace VerbatimInvariant

variable {quote : Bool} {offset : Nat}

theorem endsAt (hinv : VerbatimInvariant bytes true offset) (hother : bytes[offset]? ≠ some '"'.toNat) :
    VerbatimEndsAt bytes offset := by
  obtain ⟨first, hrun, hodd⟩ := hinv.run
  exact ⟨first, hrun, hother, hodd.mpr rfl⟩

theorem not_endsAt (hinv : VerbatimInvariant bytes false offset) : ¬VerbatimEndsAt bytes offset := by
  rintro ⟨first, hrun, -, hodd⟩
  obtain ⟨first', hrun', hparity⟩ := hinv.run
  obtain rfl := hrun.unique hrun'
  cases hparity.mp hodd

theorem goesOn {next : Bool} {skipped : Nat} (hinv : VerbatimInvariant bytes quote offset)
    (hturn : verbatimTurn bytes quote offset = .goesOn next skipped) :
    VerbatimInvariant bytes next (offset + skipped + 1) := by
  obtain ⟨first, hrun, hparity⟩ := hinv.run
  have hle := hrun.first_le
  have hopener := hrun.opener_le
  rw [verbatimTurn] at hturn
  split at hturn
  · next hquote =>
    cases hturn
    refine ⟨⟨first, ⟨hopener, by omega, fun place hfrom hto => ?_, hrun.maximal⟩, ?_⟩, fun stop hstop => ?_⟩
    · obtain hto | rfl : place < offset ∨ place = offset := by omega
      · exact hrun.quote place hfrom hto
      · exact hquote
    · cases quote with
      | false =>
        have heven : (offset - first) % 2 ≠ 1 := fun hodd => Bool.noConfusion (hparity.mp hodd)
        simp only [Bool.not_false, iff_true]
        omega
      | true =>
        have hodd := hparity.mpr rfl
        simp only [Bool.not_true, Bool.false_eq_true, iff_false]
        omega
    · obtain hstop | rfl : stop < offset ∨ stop = offset := by omega
      · exact hinv.none_before stop hstop
      · exact fun ⟨_, _, hother, _⟩ => hother hquote
  · next hother =>
    split at hturn
    · cases hturn
    · next hpaired =>
      cases hturn
      obtain rfl : quote = false := Bool.eq_false_iff.mpr hpaired
      refine ⟨⟨offset + 1, ⟨by omega, Nat.le_refl _, fun place hfrom hto => by omega, .inr ?_⟩, ?_⟩, fun stop hstop => ?_⟩
      · exact hother
      · simp
      · obtain hstop | rfl : stop < offset ∨ stop = offset := by omega
        · exact hinv.none_before stop hstop
        · exact hinv.not_endsAt

end VerbatimInvariant

theorem isFirst_verbatimString (hopener : 2 ≤ bytes.length) :
    IsFirst (VerbatimEndsAt bytes) bytes.length (verbatimString bytes) := by
  refine loop_of_invariant (fun quote offset => VerbatimInvariant bytes quote offset ∧ offset ≤ bytes.length)
    ?_ ?_ ?_ ⟨⟨⟨2, ⟨Nat.le_refl 2, Nat.le_refl 2, fun place hfrom hto => by omega, .inl rfl⟩, by simp⟩, ?_⟩, hopener⟩
  · rintro quote offset extent ⟨hinv, -⟩ - hturn
    rw [verbatimTurn] at hturn
    split at hturn
    · cases hturn
    · next hother =>
      split at hturn
      · next hquote =>
        cases hturn
        subst hquote
        exact isFirst_of_endsAt (hinv.endsAt hother) hinv.none_before
      · cases hturn
  · rintro quote offset next skipped ⟨hinv, -⟩ hlt hturn
    refine ⟨hinv.goesOn hturn, ?_⟩
    rw [verbatimTurn] at hturn
    split at hturn
    · cases hturn
      omega
    · split at hturn
      · cases hturn
      · cases hturn
        omega
  · rintro quote offset ⟨hinv, hle⟩ hsize
    obtain rfl : offset = bytes.length := Nat.le_antisymm hle hsize
    have hend : bytes[bytes.length]? ≠ some '"'.toNat := fun hquote => Nat.lt_irrefl _ (lt_of_getElem? hquote)
    cases quote with
    | true => exact isFirst_of_endsAt (hinv.endsAt hend) hinv.none_before
    | false =>
      refine isFirst_of_none fun stop hends => ?_
      obtain hlt | rfl | hlt := Nat.lt_trichotomy stop bytes.length
      · exact hinv.none_before stop hlt hends
      · exact hinv.not_endsAt hends
      · obtain ⟨first, hrun, -, hodd⟩ := hends
        have := lt_of_getElem? (hrun.quote (stop - 1) (by omega) (by omega))
        omega
  · rintro stop hstop ⟨first, hrun, -, -⟩
    have := hrun.opener_le
    have := hrun.first_le
    omega

end ByteExtent

end Squirrel
