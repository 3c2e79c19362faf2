import Squirrel.Proofs.Text.Bytes
import Squirrel.Proofs.Token.Bytewise
import Squirrel.Proofs.Token.Tiling

/-!
# Comments and strings end at the first place

The end of a comment or string that is found character by character is the one that a loop over the bytes of the text
finds. So it is the first place where such a token may end, and it lies between two characters, also where the loop has
stood within one: behind a backslash it passes a single byte of the next character.
-/

namespace Squirrel

open Literal

namespace Extent

/-- The extent in bytes of the text from the opener on. -/
def onBytes (extent : Extent) (text : List Char) : ByteExtent := ⟨extent.bytes text, extent.closed⟩

theorem past_past (extent : Extent) (count more : Nat) : (extent.past count).past more = extent.past (more + count) := by
  rw [past, past, past, Nat.add_comm more, Nat.add_assoc]

variable {text front rest : List Char} {c : Char}

/-- Characters that have been passed count with all their bytes. -/
theorem onBytes_past (htext : text = front ++ rest) (extent : Extent) :
    (extent.past front.length).onBytes text = ⟨byteLength front + extent.bytes rest, extent.closed⟩ := by
  rw [htext, onBytes, bytes, past, Nat.add_comm extent.length, List.take_length_add_append, byteLength_append]
  rfl

theorem length_of_append (htext : text = front ++ rest) : (utf8Bytes text).length = byteLength front + byteLength rest := by
  rw [length_utf8Bytes, htext, byteLength_append]

/-! ### Loops over the bytes of characters -/

section Loop

variable {a : Char} {σ : Type} {turn : σ → Nat → ByteExtent.Turn σ} {atEnd : σ → ByteExtent} {state : σ}

theorem here_lt (htext : text = front ++ c :: rest) : byteLength front < (utf8Bytes text).length := by
  have := c.utf8Size_pos
  rw [length_of_append htext, byteLength_cons]
  omega

theorem byte_here (htext : text = front ++ c :: rest) (hc : c.toNat ≤ 127) :
    (utf8Bytes text)[byteLength front]? = some c.toNat :=
  htext ▸ getElem?_utf8Bytes_ascii hc

theorem byte_here_ne (htext : text = front ++ c :: rest) (ha : a.toNat ≤ 127) (hne : c ≠ a) :
    (utf8Bytes text)[byteLength front]? ≠ some a.toNat :=
  htext ▸ getElem?_utf8Bytes_ne ha hne (Nat.le_refl _) (Nat.lt_add_of_pos_right c.utf8Size_pos)

theorem byte_end_ne (htext : text = front ++ []) {byte : Nat} : (utf8Bytes text)[byteLength front]? ≠ some byte := by
  rw [htext, List.append_nil, getElem?_utf8Bytes_end]
  exact (Option.some_ne_none byte).symm

/-- A turn at an ASCII character that skips nothing leads right behind the character. -/
theorem loop_step {next : σ} (htext : text = front ++ c :: rest) (hc : c.toNat ≤ 127)
    (hturn : turn state (byteLength front) = .goesOn next 0) :
    ByteExtent.loop (utf8Bytes text).length turn atEnd state (byteLength front)
      = ByteExtent.loop (utf8Bytes text).length turn atEnd next (byteLength (front ++ [c])) := by
  have hbytes : byteLength (front ++ [c]) = byteLength front + c.utf8Size := byteLength_append front [c]
  rw [ByteExtent.loop_goesOn (here_lt htext) hturn, hbytes, utf8Size_of_ascii hc]

/-- All bytes of a character are passed if the loop passes bytes of ASCII characters that are not this one. -/
theorem loop_char (htext : text = front ++ c :: rest)
    (hplain : ∀ place, (∀ a : Char, a.toNat ≤ 127 → c ≠ a → (utf8Bytes text)[place]? ≠ some a.toNat) →
      turn state place = .goesOn state 0) :
    ByteExtent.loop (utf8Bytes text).length turn atEnd state (byteLength front)
      = ByteExtent.loop (utf8Bytes text).length turn atEnd state (byteLength (front ++ [c])) := by
  have hbytes : byteLength (front ++ [c]) = byteLength front + c.utf8Size := byteLength_append front [c]
  refine ByteExtent.loop_skip (by omega) ?_ fun place hfrom hto => hplain place fun a ha hne => ?_
  · rw [length_of_append (List.append_cons .. ▸ htext)]
    exact Nat.le_add_right _ _
  · exact htext ▸ getElem?_utf8Bytes_ne ha hne hfrom (by omega)

/-- Behind its first byte the bytes of a character are passed if the loop passes bytes outside of ASCII. -/
theorem loop_inner (htext : text = front ++ c :: rest)
    (hplain : ∀ place, (∀ a : Char, a.toNat ≤ 127 → (utf8Bytes text)[place]? ≠ some a.toNat) →
      turn state place = .goesOn state 0) :
    ByteExtent.loop (utf8Bytes text).length turn atEnd state (byteLength front + 1)
      = ByteExtent.loop (utf8Bytes text).length turn atEnd state (byteLength (front ++ [c])) := by
  have hbytes : byteLength (front ++ [c]) = byteLength front + c.utf8Size := byteLength_append front [c]
  have hsize := c.utf8Size_pos
  refine ByteExtent.loop_skip (by omega) ?_ fun place hfrom hto => hplain place fun a ha => ?_
  · rw [length_of_append (List.append_cons .. ▸ htext)]
    exact Nat.le_add_right _ _
  · exact htext ▸ getElem?_utf8Bytes_inner ha hfrom (by omega)

theorem loop_front (htext : text = front ++ []) :
    ByteExtent.loop (utf8Bytes text).length turn atEnd state (byteLength front) = atEnd state :=
  ByteExtent.loop_atEnd (Nat.le_of_eq (length_of_append htext))

end Loop

/-! ### Strings -/

theorem stringTurn_plain {bytes : List Nat} {place : Nat} (hbackslash : bytes[place]? ≠ some '\\'.toNat)
    (hquote : bytes[place]? ≠ some '"'.toNat) : ByteExtent.stringTurn bytes () place = .goesOn () 0 := by
  rw [ByteExtent.stringTurn, if_neg hbackslash, if_neg hquote]

/-- The loop stands before a character that no backslash takes along. -/
theorem loop_toQuote (htext : text = front ++ rest) :
    ByteExtent.loop (utf8Bytes text).length (ByteExtent.stringTurn (utf8Bytes text))
        (fun _ => ⟨(utf8Bytes text).length, false⟩) () (byteLength front)
      = ((toQuote rest).past front.length).onBytes text := by
  have hbackslash {front rest : List Char} (htext : text = front ++ '\\' :: rest) :
      ByteExtent.stringTurn (utf8Bytes text) () (byteLength front) = .goesOn () 1 := by
    rw [ByteExtent.stringTurn, if_pos (byte_here htext (by decide))]
  fun_induction toQuote rest generalizing front with
  | case1 c rest ih =>
    have hnext : text = (front ++ ['\\']) ++ c :: rest := by rw [htext, List.append_cons front]
    have hbytes : byteLength front + 1 + 1 = byteLength (front ++ ['\\']) + 1 := by rw [byteLength_append]; rfl
    rw [ByteExtent.loop_goesOn (here_lt htext) (hbackslash htext), hbytes,
      loop_inner hnext fun place hnone => stringTurn_plain (hnone _ (by decide)) (hnone _ (by decide)),
      ih (by rw [hnext, List.append_cons]), past_past]
    simp
  | case2 rest =>
    have hquote : ByteExtent.stringTurn (utf8Bytes text) () (byteLength front) = .ends ⟨byteLength front + 1, true⟩ := by
      rw [ByteExtent.stringTurn, byte_here htext (by decide), if_neg (by decide), if_pos rfl]
    rw [ByteExtent.loop_ends (here_lt htext) hquote, onBytes_past htext]
    rfl
  | case3 c rest hescape hquote ih =>
    by_cases hlast : c = '\\'
    · -- the last character is a backslash, so the loop steps past the end of the text
      subst hlast
      cases rest with
      | cons d others => exact (hescape d others rfl rfl).elim
      | nil =>
        have hlength : (utf8Bytes text).length = byteLength front + 1 := length_of_append htext
        rw [ByteExtent.loop_goesOn (here_lt htext) (hbackslash htext), ByteExtent.loop_atEnd (by omega),
          onBytes_past htext, hlength]
        rfl
    · rw [loop_char htext fun place hnone => stringTurn_plain (hnone _ (by decide) hlast) (hnone _ (by decide) hquote),
        ih (by rw [htext, List.append_cons]), past_past]
      simp
  | case4 =>
    rw [loop_front htext, onBytes_past htext, length_of_append htext]
    rfl

/-! ### Verbatim strings -/

theorem verbatimTurn_quote {bytes : List Nat} {place : Nat} (hquote : bytes[place]? = some '"'.toNat) (quote : Bool) :
    ByteExtent.verbatimTurn bytes quote place = .goesOn (!quote) 0 := by
  rw [ByteExtent.verbatimTurn, if_pos hquote]

theorem verbatimTurn_plain {bytes : List Nat} {place : Nat} (hother : bytes[place]? ≠ some '"'.toNat) :
    ByteExtent.verbatimTurn bytes false place = .goesOn false 0 := by
  rw [ByteExtent.verbatimTurn, if_neg hother, if_neg (by decide)]

/-- The loop stands behind quotes that are all paired. -/
theorem loop_toSingleQuote (htext : text = front ++ rest) :
    ByteExtent.loop (utf8Bytes text).length (ByteExtent.verbatimTurn (utf8Bytes text))
        (fun quote => ⟨(utf8Bytes text).length, quote⟩) false (byteLength front)
      = ((toSingleQuote rest).past front.length).onBytes text := by
  fun_induction toSingleQuote rest generalizing front with
  | case1 rest ih =>
    have hnext : text = (front ++ ['"']) ++ '"' :: rest := by rw [htext, List.append_cons front]
    rw [loop_step htext (by decide) (verbatimTurn_quote (byte_here htext (by decide)) false),
      loop_step hnext (by decide) (verbatimTurn_quote (byte_here hnext (by decide)) _), Bool.not_not,
      ih (by rw [hnext, List.append_cons]), past_past]
    simp
  | case2 rest hpair =>
    have hnext : text = (front ++ ['"']) ++ rest := by rw [htext, List.append_cons front]
    rw [loop_step htext (by decide) (verbatimTurn_quote (byte_here htext (by decide)) false), onBytes_past htext]
    cases rest with
    | nil => rw [loop_front hnext, length_of_append htext]; rfl
    | cons c others =>
      have hother : c ≠ '"' := fun hquote => hpair others (hquote ▸ rfl)
      have hends : ByteExtent.verbatimTurn (utf8Bytes text) (!false) (byteLength (front ++ ['"']))
          = .ends ⟨byteLength (front ++ ['"']), true⟩ := by
        rw [ByteExtent.verbatimTurn, if_neg (byte_here_ne hnext (by decide) hother), if_pos (by decide)]
      rw [ByteExtent.loop_ends (here_lt hnext) hends, byteLength_append]
      rfl
  | case3 c rest hpair hquote ih =>
    rw [loop_char htext fun place hnone => verbatimTurn_plain (hnone _ (by decide) hquote),
      ih (by rw [htext, List.append_cons]), past_past]
    simp
  | case4 =>
    rw [loop_front htext, onBytes_past htext, length_of_append htext]
    rfl

/-! ### Block comments -/

theorem commentTurn_body {bytes : List Nat} {place : Nat} :
    ByteExtent.commentTurn bytes false place = .goesOn (decide (bytes[place]? = some '*'.toNat)) 0 := by
  rw [ByteExtent.commentTurn, if_neg (by simp)]

/-- A star that no slash follows is a byte of the body like any other. -/
theorem loop_star {bytes : List Nat} {place : Nat} (hslash : bytes[place]? ≠ some '/'.toNat) :
    ByteExtent.loop bytes.length (ByteExtent.commentTurn bytes) (fun _ => ⟨bytes.length, false⟩) true place
      = ByteExtent.loop bytes.length (ByteExtent.commentTurn bytes) (fun _ => ⟨bytes.length, false⟩) false place := by
  have hturn : ByteExtent.commentTurn bytes true place = ByteExtent.commentTurn bytes false place := by
    rw [commentTurn_body, ByteExtent.commentTurn, if_neg fun hcloser => hslash hcloser.2]
  rw [ByteExtent.loop, ByteExtent.loop, hturn]

/-- The loop stands behind a byte that cannot begin the closer. -/
theorem loop_toCommentCloser (htext : text = front ++ rest) :
    ByteExtent.loop (utf8Bytes text).length (ByteExtent.commentTurn (utf8Bytes text))
        (fun _ => ⟨(utf8Bytes text).length, false⟩) false (byteLength front)
      = ((toCommentCloser rest).past front.length).onBytes text := by
  fun_induction toCommentCloser rest generalizing front with
  | case1 rest =>
    have hnext : text = (front ++ ['*']) ++ '/' :: rest := by rw [htext, List.append_cons front]
    have hends : ByteExtent.commentTurn (utf8Bytes text) true (byteLength (front ++ ['*']))
        = .ends ⟨byteLength (front ++ ['*']) + 1, true⟩ := by
      rw [ByteExtent.commentTurn, if_pos ⟨rfl, byte_here hnext (by decide)⟩]
    rw [loop_step htext (by decide) commentTurn_body, decide_eq_true (byte_here htext (by decide)),
      ByteExtent.loop_ends (here_lt hnext) hends, onBytes_past htext, byteLength_append]
    rfl
  | case2 c rest hcloser ih =>
    have hnext : text = (front ++ [c]) ++ rest := by rw [htext, List.append_cons front]
    have hbehind := ih hnext
    rw [past_past, ← show (front ++ [c]).length = front.length + 1 from List.length_append, ← hbehind]
    by_cases hstar : c = '*'
    · subst hstar
      rw [loop_step htext (by decide) commentTurn_body, decide_eq_true (byte_here htext (by decide))]
      refine loop_star ?_
      cases rest with
      | nil => exact byte_end_ne hnext
      | cons d others => exact byte_here_ne hnext (by decide) fun hslash => hcloser others rfl (hslash ▸ rfl)
    · refine loop_char htext fun place hnone => ?_
      rw [commentTurn_body, decide_eq_false (hnone _ (by decide) hstar)]
  | case3 =>
    rw [loop_front htext, onBytes_past htext, length_of_append htext]
    rfl

/-! ### Line comments -/

/-- A line comment is closed by a line feed, so it is open if it takes the whole text. -/
def lineExtent (text : List Char) : Extent := ⟨lineComment text, decide (lineComment text < text.length)⟩

theorem lineExtent_past (length whole count : Nat) :
    (⟨length + count, decide (length + count < whole + count)⟩ : Extent)
      = (⟨length, decide (length < whole)⟩ : Extent).past count := by
  simp [past]

theorem lineTurn_plain {bytes : List Nat} {place : Nat} (hbackslash : bytes[place]? ≠ some '\\'.toNat)
    (hfeed : bytes[place]? ≠ some '\n'.toNat) : ByteExtent.lineTurn bytes () place = .goesOn () 0 := by
  rw [ByteExtent.lineTurn, if_neg hbackslash, if_neg hfeed]

/-- Behind a backslash the two bytes of a line break are those of its two characters. -/
theorem not_pair_of_chars (htext : text = front ++ c :: rest)
    (hpair : ∀ others, c = '\r' → rest = '\n' :: others → False) :
    ¬((utf8Bytes text)[byteLength front]? = some '\r'.toNat ∧
      (utf8Bytes text)[byteLength front + 1]? = some '\n'.toNat) := by
  rintro ⟨hreturn, hfeed⟩
  obtain rfl : c = '\r' := Decidable.byContradiction fun hne => byte_here_ne htext (by decide) hne hreturn
  have hnext : text = (front ++ ['\r']) ++ rest := by rw [htext, List.append_cons front]
  have hbytes : byteLength front + 1 = byteLength (front ++ ['\r']) := (byteLength_append front ['\r']).symm
  rw [hbytes] at hfeed
  cases rest with
  | nil => exact byte_end_ne hnext hfeed
  | cons d others => exact byte_here_ne hnext (by decide) (fun hd => hpair others rfl (hd ▸ rfl)) hfeed

/-- The loop stands before a character that no backslash takes along. -/
theorem loop_toLineEnd (htext : text = front ++ rest) :
    ByteExtent.loop (utf8Bytes text).length (ByteExtent.lineTurn (utf8Bytes text))
        (fun _ => ⟨(utf8Bytes text).length, false⟩) () (byteLength front)
      = ((⟨toLineEnd rest, decide (toLineEnd rest < rest.length)⟩ : Extent).past front.length).onBytes text := by
  fun_induction toLineEnd rest generalizing front with
  | case1 rest ih =>
    have hreturn : text = (front ++ ['\\']) ++ '\r' :: '\n' :: rest := by rw [htext, List.append_cons front]
    have hfeed : text = (front ++ ['\\'] ++ ['\r']) ++ '\n' :: rest := by rw [hreturn, List.append_cons (front ++ _)]
    have hone : byteLength front + 1 = byteLength (front ++ ['\\']) := (byteLength_append front ['\\']).symm
    have htwo : byteLength front + 2 = byteLength (front ++ ['\\'] ++ ['\r']) := by
      rw [byteLength_append, ← hone]
      rfl
    have hthree : byteLength front + 2 + 1 = byteLength (front ++ ['\\'] ++ ['\r'] ++ ['\n']) := by
      rw [byteLength_append (front ++ ['\\'] ++ ['\r']), ← htwo]
      rfl
    have hturn : ByteExtent.lineTurn (utf8Bytes text) () (byteLength front) = .goesOn () 2 := by
      rw [ByteExtent.lineTurn, if_pos (byte_here htext (by decide)), hone, htwo,
        if_pos ⟨byte_here hreturn (by decide), byte_here hfeed (by decide)⟩]
    rw [ByteExtent.loop_goesOn (here_lt htext) hturn, hthree, ih (by rw [hfeed, List.append_cons]), List.length_cons,
      List.length_cons, List.length_cons, lineExtent_past, past_past]
    simp
  | case2 c rest hpair ih =>
    have hnext : text = (front ++ ['\\']) ++ c :: rest := by rw [htext, List.append_cons front]
    have hone : byteLength front + 1 = byteLength (front ++ ['\\']) := (byteLength_append front ['\\']).symm
    have hturn : ByteExtent.lineTurn (utf8Bytes text) () (byteLength front) = .goesOn () 1 := by
      have hno := not_pair_of_chars hnext hpair
      rw [← hone] at hno
      rw [ByteExtent.lineTurn, if_pos (byte_here htext (by decide)), if_neg hno, if_pos (hone ▸ here_lt hnext)]
    rw [ByteExtent.loop_goesOn (here_lt htext) hturn, hone,
      loop_inner hnext fun place hnone => lineTurn_plain (hnone _ (by decide)) (hnone _ (by decide)),
      ih (by rw [hnext, List.append_cons]), List.length_cons, List.length_cons, lineExtent_past, past_past]
    simp
  | case3 rest =>
    have hfeed : ByteExtent.lineTurn (utf8Bytes text) () (byteLength front) = .ends ⟨byteLength front, true⟩ := by
      rw [ByteExtent.lineTurn, byte_here htext (by decide), if_neg (by decide), if_pos rfl]
    rw [ByteExtent.loop_ends (here_lt htext) hfeed, onBytes_past htext]
    simp [bytes]
  | case4 c rest _ hescape hfeed ih =>
    by_cases hlast : c = '\\'
    · subst hlast
      cases rest with
      | cons d others => exact (hescape d others rfl rfl).elim
      | nil =>
        have hlength : (utf8Bytes text).length = byteLength front + 1 := length_of_append htext
        have hnone {byte : Nat} : (utf8Bytes text)[byteLength front + 1]? ≠ some byte := by
          rw [List.getElem?_eq_none (Nat.le_of_eq hlength)]
          exact (Option.some_ne_none byte).symm
        have hturn : ByteExtent.lineTurn (utf8Bytes text) () (byteLength front) = .goesOn () 0 := by
          rw [ByteExtent.lineTurn, if_pos (byte_here htext (by decide)), if_neg fun hpair => hnone hpair.1,
            if_neg (by omega)]
        rw [ByteExtent.loop_goesOn (here_lt htext) hturn, ByteExtent.loop_atEnd (by omega), onBytes_past htext, hlength]
        rfl
    · rw [loop_char htext fun place hnone => lineTurn_plain (hnone _ (by decide) hlast) (hnone _ (by decide) hfeed),
        ih (by rw [htext, List.append_cons]), List.length_cons, lineExtent_past, past_past]
      simp
  | case5 =>
    rw [loop_front htext, onBytes_past htext, length_of_append htext]
    rfl

/-! ### Whole tokens -/

theorem blockComment_onBytes (rest : List Char) :
    (blockComment ('/' :: '*' :: rest)).onBytes ('/' :: '*' :: rest)
      = ByteExtent.blockComment (utf8Bytes ('/' :: '*' :: rest)) :=
  (loop_toCommentCloser (show '/' :: '*' :: rest = ['/', '*'] ++ rest from rfl)).symm

theorem lineExtent_onBytes (rest : List Char) :
    (lineExtent ('/' :: '/' :: rest)).onBytes ('/' :: '/' :: rest)
      = ByteExtent.lineComment (utf8Bytes ('/' :: '/' :: rest)) := by
  refine Eq.trans ?_ (loop_toLineEnd (show '/' :: '/' :: rest = ['/', '/'] ++ rest from rfl)).symm
  rw [← lineExtent_past]
  rfl

theorem string_onBytes (rest : List Char) :
    (string ('"' :: rest)).onBytes ('"' :: rest) = ByteExtent.string (utf8Bytes ('"' :: rest)) :=
  (loop_toQuote (show '"' :: rest = ['"'] ++ rest from rfl)).symm

theorem verbatimString_onBytes (rest : List Char) :
    (verbatimString ('@' :: '"' :: rest)).onBytes ('@' :: '"' :: rest)
      = ByteExtent.verbatimString (utf8Bytes ('@' :: '"' :: rest)) :=
  (loop_toSingleQuote (show '@' :: '"' :: rest = ['@', '"'] ++ rest from rfl)).symm

/-- The token that begins a text ends at the first of the places where it may end, told in the bytes of the text. -/
structure EndsFirst (EndsAt : List Nat → Nat → Prop) (opener text : String) (extent : Extent) : Prop where
  isFirst : ByteExtent.IsFirst (EndsAt (utf8Bytes text.toList)) text.utf8ByteSize (extent.onBytes text.toList)
  opener_le : opener.utf8ByteSize ≤ extent.bytes text.toList
  bytes_le : extent.bytes text.toList ≤ text.utf8ByteSize
  /-- In characters: no part of the extent lies behind the text. -/
  length_le : extent.length ≤ text.length
  boundary : String.Pos.Raw.IsValid text ⟨extent.bytes text.toList⟩

theorem endsFirst_of_isFirst {EndsAt : List Nat → Nat → Prop} {opener body : String} {extent : Extent} (inner : Extent)
    (hisFirst : ByteExtent.IsFirst (EndsAt (utf8Bytes (opener ++ body).toList)) (utf8Bytes (opener ++ body).toList).length
      (extent.onBytes (opener ++ body).toList))
    (hlength : extent.length = inner.length + opener.toList.length) (hle : inner.length ≤ body.toList.length) :
    EndsFirst EndsAt opener (opener ++ body) extent := by
  have htext : (opener ++ body).toList = opener.toList ++ body.toList := String.toList_append
  have hboundary := isValid_of_toList (List.take_append_drop extent.length (opener ++ body).toList).symm
  refine ⟨?_, ?_, hboundary.le_rawEndPos, ?_, hboundary⟩
  · rwa [length_utf8Bytes, byteLength_toList] at hisFirst
  · rw [bytes, htext, hlength, Nat.add_comm, List.take_length_add_append, byteLength_append, byteLength_toList]
    exact Nat.le_add_right _ _
  · rw [← String.length_toList, htext, List.length_append, hlength]
    omega

theorem endsFirst_blockComment (body : String) :
    EndsFirst ByteExtent.CommentEndsAt "/*" ("/*" ++ body) (blockComment ("/*" ++ body).toList) := by
  have htext : ("/*" ++ body).toList = '/' :: '*' :: body.toList := String.toList_append
  refine endsFirst_of_isFirst (toCommentCloser body.toList) ?_ (htext ▸ rfl) (length_toCommentCloser_le _)
  rw [htext, blockComment_onBytes]
  exact ByteExtent.isFirst_blockComment _

theorem endsFirst_lineComment (body : String) :
    EndsFirst ByteExtent.LineEndsAt "//" ("//" ++ body) (lineExtent ("//" ++ body).toList) := by
  have htext : ("//" ++ body).toList = '/' :: '/' :: body.toList := String.toList_append
  refine endsFirst_of_isFirst ⟨toLineEnd body.toList, true⟩ ?_ (htext ▸ rfl) (toLineEnd_le _)
  rw [htext, lineExtent_onBytes]
  exact ByteExtent.isFirst_lineComment _

theorem endsFirst_string (body : String) :
    EndsFirst ByteExtent.StringEndsAt "\"" ("\"" ++ body) (string ("\"" ++ body).toList) := by
  have htext : ("\"" ++ body).toList = '"' :: body.toList := String.toList_append
  refine endsFirst_of_isFirst (toQuote body.toList) ?_ (htext ▸ rfl) (length_toQuote_le _)
  rw [htext, string_onBytes]
  exact ByteExtent.isFirst_string _

theorem endsFirst_verbatimString (body : String) :
    EndsFirst ByteExtent.VerbatimEndsAt "@\"" ("@\"" ++ body) (verbatimString ("@\"" ++ body).toList) := by
  have htext : ("@\"" ++ body).toList = '@' :: '"' :: body.toList := String.toList_append
  have hopener : 2 ≤ (utf8Bytes ('@' :: '"' :: body.toList)).length := by
    rw [length_utf8Bytes, byteLength_cons, byteLength_cons, ← Nat.add_assoc]
    exact Nat.le_add_right 2 _
  refine endsFirst_of_isFirst (toSingleQuote body.toList) ?_ (htext ▸ rfl) (length_toSingleQuote_le _)
  rw [htext, verbatimString_onBytes]
  exact ByteExtent.isFirst_verbatimString hopener

/-- Comments and strings end at the first place where they may end, whatever stands behind the opener. -/
theorem ends_at_first (body : String) :
    EndsFirst ByteExtent.CommentEndsAt "/*" ("/*" ++ body) (blockComment ("/*" ++ body).toList) ∧
      EndsFirst ByteExtent.LineEndsAt "//" ("//" ++ body) (lineExtent ("//" ++ body).toList) ∧
      EndsFirst ByteExtent.StringEndsAt "\"" ("\"" ++ body) (string ("\"" ++ body).toList) ∧
      EndsFirst ByteExtent.VerbatimEndsAt "@\"" ("@\"" ++ body) (verbatimString ("@\"" ++ body).toList) :=
  ⟨endsFirst_blockComment body, endsFirst_lineComment body, endsFirst_string body, endsFirst_verbatimString body⟩

end Extent

end Squirrel
