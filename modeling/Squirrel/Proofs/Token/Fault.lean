import Squirrel.Proofs.Token.Tiling

/-!
# Where a fault lies

Every garbage token comes with a diagnostic about some characters of the token. Most of them start where the token does;
that of an escape starts at its backslash, which may be anywhere in the literal.
-/

namespace Squirrel

/-! ### Stretches of a text -/

/-- Some characters of the text, at least one, take so many bytes behind so many others. -/
def IsStretch (text : List Char) (offset length : Nat) : Prop :=
  ∃ before inner after, text = before ++ inner ++ after ∧ inner ≠ [] ∧ byteLength before = offset ∧
    byteLength inner = length

namespace IsStretch

theorem of_append {start : List Char} (hnonempty : start ≠ []) (rest : List Char) :
    IsStretch (start ++ rest) 0 (byteLength start) := ⟨[], start, rest, rfl, hnonempty, rfl, rfl⟩

theorem whole {text : List Char} (hnonempty : text ≠ []) : IsStretch text 0 (byteLength text) := by
  have hstart := of_append hnonempty []
  rwa [List.append_nil] at hstart

variable {text : List Char} {offset length : Nat} (hstretch : IsStretch text offset length)

include hstretch

/-- A stretch of a text is one of every text that the text stands in. -/
theorem within (front back : List Char) : IsStretch (front ++ text ++ back) (byteLength front + offset) length := by
  obtain ⟨before, inner, after, rfl, hnonempty, rfl, rfl⟩ := hstretch
  refine ⟨front ++ before, inner, after ++ back, ?_, hnonempty, byteLength_append front before, rfl⟩
  simp only [List.append_assoc]

theorem bounds : 0 < length ∧ offset + length ≤ byteLength text := by
  obtain ⟨before, inner, after, rfl, hnonempty, rfl, rfl⟩ := hstretch
  refine ⟨Lexed.byteLength_pos hnonempty, ?_⟩
  rw [byteLength_append, byteLength_append]
  exact Nat.le_add_right _ _

/-- A stretch of a source starts and stops between two characters. -/
theorem isValid {source : String} (hsource : source.toList = text) :
    String.Pos.Raw.IsValid source ⟨offset⟩ ∧ String.Pos.Raw.IsValid source ⟨offset + length⟩ := by
  obtain ⟨before, inner, after, rfl, -, rfl, rfl⟩ := hstretch
  refine ⟨isValid_of_toList (hsource.trans (List.append_assoc before inner after)), ?_⟩
  rw [← byteLength_append]
  exact isValid_of_toList hsource

end IsStretch

/-! ### Literals -/

namespace Literal

/-- What an invalid escape is reported for is the escape itself, from its backslash on. -/
theorem isStretch_escapeError {offset found length taken : Nat} {after : List Char} {escape : String}
    (herror : escapeError offset after taken = .invalidEscape found length escape) :
    found = offset ∧ IsStretch ('\\' :: after) 0 length := by
  obtain ⟨rfl, rfl, -⟩ := LiteralError.invalidEscape.inj herror
  have hstart := IsStretch.of_append (List.cons_ne_nil '\\' (after.take taken)) (after.drop taken)
  rw [List.cons_append, List.take_append_drop] at hstart
  exact ⟨rfl, hstart⟩

/-- The escape at fault is in the text that is read. -/
theorem isStretch_of_unescape {offset found length : Nat} {text : List Char} {escape : String}
    (herror : unescape offset text = .error (.invalidEscape found length escape)) :
    ∃ inside, found = offset + inside ∧ IsStretch text inside length := by
  fun_induction unescape offset text with
  | case1 => exact nomatch herror
  | case2 offset rest denoted taken hread ih =>
    cases hrest : unescape (offset + 1 + byteLength (rest.take taken)) (rest.drop taken) with
    | ok value =>
      rw [hrest] at herror
      exact nomatch herror
    | error error =>
      rw [hrest] at herror
      obtain rfl := Except.error.inj herror
      obtain ⟨inside, rfl, hstretch⟩ := ih hrest
      have hwithin := hstretch.within ('\\' :: rest.take taken) []
      rw [List.append_nil, List.cons_append, List.take_append_drop, byteLength_cons] at hwithin
      refine ⟨_, ?_, hwithin⟩
      rw [show ('\\' : Char).utf8Size = 1 from rfl]
      omega
  | case3 offset rest taken hread =>
    obtain ⟨rfl, hstretch⟩ := isStretch_escapeError (Except.error.inj herror)
    exact ⟨0, rfl, hstretch⟩
  | case4 offset c rest hplain ih =>
    cases hrest : unescape (offset + c.utf8Size) rest with
    | ok value =>
      rw [hrest] at herror
      exact nomatch herror
    | error error =>
      rw [hrest] at herror
      obtain rfl := Except.error.inj herror
      obtain ⟨inside, rfl, hstretch⟩ := ih hrest
      have hwithin := hstretch.within [c] []
      rw [List.append_nil, List.singleton_append, byteLength_cons, byteLength_nil] at hwithin
      exact ⟨_, by omega, hwithin⟩

theorem eq_of_between? {opener closer : Char} {text body : List Char} (hbody : between? opener closer text = some body) :
    text = opener :: (body ++ [closer]) := by
  rw [between?.eq_def] at hbody
  split at hbody
  · next first rest =>
    split at hbody
    · next hends =>
      obtain rfl := Option.some.inj hbody
      obtain ⟨rfl, hlast⟩ := hends
      obtain ⟨front, rfl⟩ := List.getLast?_eq_some_iff.mp hlast
      rw [List.dropLast_concat]
    · exact nomatch hbody
  · exact nomatch hbody

/-- A stretch of what stands between two quotes is one of the literal. -/
theorem isStretch_of_between? {opener closer : Char} {text body : List Char} {inside length : Nat}
    (hbody : between? opener closer text = some body) (hsize : opener.utf8Size = 1)
    (hstretch : IsStretch body inside length) : IsStretch text (1 + inside) length := by
  have hwithin := hstretch.within [opener] [closer]
  rwa [List.append_assoc, List.singleton_append, ← eq_of_between? hbody, byteLength_cons, byteLength_nil, hsize,
    Nat.add_zero] at hwithin

end Literal

namespace LiteralError

/-- The part at fault is a stretch of the text. -/
def PointsInto (text : String) (error : LiteralError) : Prop :=
  IsStretch text.toList (error.extent text.utf8ByteSize).1 (error.extent text.utf8ByteSize).2

/-- All errors but one are about the whole text. -/
theorem pointsInto_of_forall {text : String} {error : LiteralError} (hnonempty : text.toList ≠ [])
    (hescape : ∀ offset length escape, error = .invalidEscape offset length escape →
      IsStretch text.toList offset length) : error.PointsInto text := by
  have hwhole := IsStretch.whole hnonempty
  rw [byteLength_toList] at hwhole
  cases error with
  | invalidEscape offset length escape => exact hescape offset length escape rfl
  | _ => exact hwhole

end LiteralError

namespace Literal

variable {text : String} {error : LiteralError} (hnonempty : text.toList ≠ [])

include hnonempty

theorem pointsInto_decodeString (herror : decodeString text = .error error) : error.PointsInto text := by
  refine LiteralError.pointsInto_of_forall hnonempty ?_
  rintro offset length escape rfl
  rw [decodeString] at herror
  split at herror
  · next body hbody =>
    cases hcontent : unescape 1 body with
    | ok value =>
      rw [hcontent] at herror
      exact nomatch herror
    | error error =>
      rw [hcontent] at herror
      obtain rfl := Except.error.inj herror
      obtain ⟨inside, rfl, hstretch⟩ := isStretch_of_unescape hcontent
      exact isStretch_of_between? hbody rfl hstretch
  · exact nomatch herror

theorem pointsInto_decodeChar (herror : decodeChar text = .error error) : error.PointsInto text := by
  refine LiteralError.pointsInto_of_forall hnonempty ?_
  rintro offset length escape rfl
  rw [decodeChar] at herror
  split at herror
  · cases herror
  · next after hbody =>
    split at herror
    · split at herror
      · cases herror
      · cases herror
    · obtain ⟨rfl, hstretch⟩ := isStretch_escapeError (Except.error.inj herror)
      exact isStretch_of_between? hbody rfl hstretch
  · cases herror
  · cases herror

theorem pointsInto_decodeInteger (herror : decodeInteger text = .error error) : error.PointsInto text := by
  refine LiteralError.pointsInto_of_forall hnonempty ?_
  rintro offset length escape rfl
  rw [decodeInteger] at herror
  split at herror
  simp only at herror
  split at herror
  · split at herror
    · cases herror
    · cases herror
  · split at herror
    · split at herror <;> cases herror
    · split at herror
      · split at herror <;> cases herror
      · split at herror
        · cases herror
        -- once for the sign and once for the range
        · split at herror <;> split at herror <;> cases herror

theorem pointsInto_decodeFloat (herror : decodeFloat text = .error error) : error.PointsInto text := by
  refine LiteralError.pointsInto_of_forall hnonempty ?_
  rintro offset length escape rfl
  rw [decodeFloat] at herror
  split at herror
  split at herror <;> exact nomatch herror

end Literal

namespace Lexeme

open Pattern

theorem pointsInto_of_literalError? {kind : Kind} {text : String} {error : LiteralError} (hnonempty : text.toList ≠ [])
    (herror : literalError? kind text = some error) : error.PointsInto text := by
  rw [literalError?.eq_def] at herror
  dsimp only at herror
  split at herror
  case h_5 => cases herror
  -- each sort of literal has a decoder of its own
  all_goals
    split at herror
    · cases herror
    · next found hdecode =>
      obtain rfl := Option.some.inj herror
      first
      | exact Literal.pointsInto_decodeInteger hnonempty hdecode
      | exact Literal.pointsInto_decodeFloat hnonempty hdecode
      | exact Literal.pointsInto_decodeString hnonempty hdecode
      | exact Literal.pointsInto_decodeChar hnonempty hdecode

/-! ### Lexemes -/

/-- What is left open starts with its opener, and is reported there. -/
theorem isStretch_unterminatedFault {text : List Char} {opener : Kind}
    (hfirst : (first text).1 = .unterminated opener) :
    IsStretch (text.take (first text).2) (unterminatedFault opener).offset (unterminatedFault opener).length := by
  obtain ⟨matched, length, hmatch⟩ : ∃ matched length, match? text = some (matched, length) := by
    rw [first] at hfirst
    split at hfirst
    · next matched length hmatch => exact ⟨matched, length, hmatch⟩
    · cases hfirst
  have hlongest := longest?_eq_some_iff.mp hmatch
  have hresolve : first text = resolve matched length text := by rw [first, hmatch]
  have hopened : matched = opener ∧ ∃ opening : String, opening? matched = Option.some opening ∧ opening.toList ≠ [] ∧
      (unterminatedFault matched).offset = 0 ∧ (unterminatedFault matched).length = byteLength opening.toList := by
    rw [hresolve, resolve.eq_def] at hfirst
    have hextended {kind : Kind} {closed : Bool}
        (hform : (if closed = true then LexemeForm.token kind else .unterminated matched) = .unterminated opener) :
        matched = opener := by
      cases closed with
      | true => cases hform
      | false => exact LexemeForm.unterminated.inj hform
    split at hfirst <;> first | exact ⟨hextended hfirst, _, rfl, by decide⟩ | cases hfirst | skip
    split at hfirst
    · cases hfirst
    · exact ⟨hextended hfirst, _, rfl, by decide⟩
  obtain ⟨rfl, opening, hopening, hnonempty, hoffset, hlength⟩ := hopened
  have hstart : opening.toList <+: text.take (first text).2 := by
    rw [← eq_of_opening hopening hlongest.firstMatch, hresolve]
    exact List.take_prefix_take_left (length_resolve hlongest).1
  obtain ⟨rest, htext⟩ := hstart
  rw [← htext, hoffset, hlength]
  exact IsStretch.of_append hnonempty rest

/-- A fault is about some characters of its lexeme. -/
theorem isStretch_of_fault? {source : List Char} {lexeme : Lexeme} {fault : Fault} (hmem : lexeme ∈ cut source)
    (hfault : lexeme.fault? = some fault) : IsStretch lexeme.text fault.offset fault.length := by
  obtain ⟨c, rest, hlexeme⟩ := exists_first_of_mem_cut hmem
  have hnonempty : lexeme.text ≠ [] := by
    rw [hlexeme]
    exact List.cons_ne_nil _ _
  rw [fault?] at hfault
  split at hfault
  · next kind hform =>
    obtain ⟨error, herror, rfl⟩ := Option.map_eq_some_iff.mp hfault
    have hpoints := pointsInto_of_literalError? (by rwa [String.toList_ofList]) herror
    rwa [LiteralError.PointsInto, String.toList_ofList] at hpoints
  · next opener hform =>
    obtain rfl := Option.some.inj hfault
    have hfirst : (first (c :: rest)).1 = .unterminated opener := by rw [← hform, hlexeme]
    have htext : lexeme.text = (c :: rest).take (first (c :: rest)).2 := by
      rw [hlexeme]
      exact take_of_mem_cut (length_first (List.cons_ne_nil _ _)).1
    rw [htext]
    exact isStretch_unterminatedFault hfirst
  · obtain rfl := Option.some.inj hfault
    exact IsStretch.whole hnonempty

/-- The faults of tokens are the ones that the lexer finds. -/
theorem stage_of_fault? {lexeme : Lexeme} {fault : Fault} (hfault : lexeme.fault? = some fault) :
    fault.kind.stage = .lexing := by
  rw [fault?] at hfault
  split at hfault
  · obtain ⟨error, -, rfl⟩ := Option.map_eq_some_iff.mp hfault
    cases error <;> rfl
  · next opener _ =>
    obtain rfl := Option.some.inj hfault
    rw [unterminatedFault.eq_def]
    split <;> rfl
  · obtain rfl := Option.some.inj hfault
    rfl

theorem fault?_isSome_of_garbage {text : List Char} {lexeme : Lexeme} (hmem : lexeme ∈ cut text)
    (hkind : lexeme.kind = .garbage) : lexeme.fault?.isSome = true := by
  cases hfault : lexeme.fault? with
  | some fault => rfl
  | none =>
    obtain ⟨whole, length, hfirst, -, -⟩ := exists_first_of_fault? hmem hfault
    have haccepted := isRejected_of_first (congrArg Prod.fst hfirst)
    rw [hkind] at haccepted
    exact nomatch haccepted

end Lexeme

namespace Lexed

theorem mem_diagnostics {source : String} {diagnostic : Diagnostic} : diagnostic ∈ (ofSource source).diagnostics ↔
    ∃ piece ∈ placed 0 (Lexeme.cut source.toList), piece.2 = some diagnostic := List.mem_filterMap

/-- A diagnostic about a token is about some text of it. -/
theorem inside_of_placed {text : List Char} {piece : Token × Option Diagnostic}
    (hpiece : piece ∈ placed 0 (Lexeme.cut text)) {diagnostic : Diagnostic} (hdiagnostic : piece.2 = some diagnostic) :
    piece.1.start ≤ diagnostic.span.start ∧ diagnostic.span.start < diagnostic.span.stop ∧
      diagnostic.span.stop ≤ piece.1.stop ∧ diagnostic.kind.stage = .lexing := by
  obtain ⟨lexeme, hlexeme, start, rfl⟩ := mem_placed hpiece
  obtain ⟨fault, hfault, rfl⟩ := Option.map_eq_some_iff.mp hdiagnostic
  obtain ⟨hlength, hinside⟩ := (Lexeme.isStretch_of_fault? hlexeme hfault).bounds
  rw [stop_place]
  refine ⟨Nat.le_add_right _ _, Nat.lt_add_of_pos_right hlength, ?_, Lexeme.stage_of_fault? hfault⟩
  show start + fault.offset + fault.length ≤ start + byteLength lexeme.text
  omega

/-- A garbage token comes with a diagnostic that starts inside it. -/
theorem exists_diagnostic_of_garbage {source : String} {token : Token} (hmem : token ∈ (ofSource source).tokens)
    (hkind : token.kind = .garbage) : ∃ diagnostic ∈ (ofSource source).diagnostics,
      token.start ≤ diagnostic.span.start ∧ diagnostic.span.start < token.stop := by
  obtain ⟨piece, hpiece, rfl⟩ := List.mem_map.mp hmem
  obtain ⟨diagnostic, hdiagnostic⟩ : ∃ diagnostic, piece.2 = some diagnostic := by
    obtain ⟨lexeme, hlexeme, start, rfl⟩ := mem_placed hpiece
    obtain ⟨fault, hfault⟩ := Option.isSome_iff_exists.mp (Lexeme.fault?_isSome_of_garbage hlexeme hkind)
    exact ⟨_, congrArg (Option.map _) hfault⟩
  obtain ⟨hfrom, hpos, hto, -⟩ := inside_of_placed hpiece hdiagnostic
  exact ⟨diagnostic, mem_diagnostics.mpr ⟨piece, hpiece, hdiagnostic⟩, hfrom, Nat.lt_of_lt_of_le hpos hto⟩

end Lexed

end Squirrel
