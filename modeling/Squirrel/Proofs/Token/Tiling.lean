import Squirrel.Proofs.Token.Adjacent

/-!
# Tokens tile the source

Each token starts where the one before it stops, none is empty, and together they reach from the start of the source to
its end. Where a token stops is found by a pattern or by what closes it, and neither looks past the end of the text, so
no token is ever cut short.
-/

namespace Squirrel

/-! ### Where a token may stop -/

namespace Extent

@[simp] theorem length_past (extent : Extent) (count : Nat) : (extent.past count).length = extent.length + count := rfl

theorem length_toCommentCloser_le (text : List Char) : (toCommentCloser text).length ≤ text.length := by
  fun_induction toCommentCloser text with
  | case1 rest => simp
  | case2 c rest hother ih => simpa using ih
  | case3 => simp

theorem toLineEnd_le (text : List Char) : toLineEnd text ≤ text.length := by
  fun_induction toLineEnd text with
  | case1 rest ih => simpa using ih
  | case2 c rest hother ih => simpa using ih
  | case3 rest => simp
  | case4 c rest _ _ _ ih => simpa using ih
  | case5 => simp

theorem length_toQuote_le (text : List Char) : (toQuote text).length ≤ text.length := by
  fun_induction toQuote text with
  | case1 c rest ih => simpa using ih
  | case2 rest => simp
  | case3 c rest _ _ ih => simpa using ih
  | case4 => simp

theorem length_toSingleQuote_le (text : List Char) : (toSingleQuote text).length ≤ text.length := by
  fun_induction toSingleQuote text with
  | case1 rest ih => simpa using ih
  | case2 rest hother => simp
  | case3 c rest _ _ ih => simpa using ih
  | case4 => simp

theorem length_toApostrophe_le (text : List Char) : (toApostrophe text).length ≤ text.length := by
  fun_induction toApostrophe text with
  | case1 rest => simp
  | case2 rest => simp
  | case3 c rest _ _ ih => simpa using ih
  | case4 => simp

theorem length_charLiteral_le {text : List Char} (hopener : 1 ≤ text.length) :
    (charLiteral text).length ≤ text.length := by
  have hbody : (text.drop 1).length + 1 = text.length := by
    rw [List.length_drop]
    omega
  rw [charLiteral.eq_def, ← hbody]
  split
  · next c rest heq =>
    have hclose := length_toApostrophe_le rest
    rw [length_past, heq, List.length_cons, List.length_cons]
    omega
  · exact Nat.succ_le_succ (length_toApostrophe_le (text.drop 1))

theorem toTripleQuote?_le {text : List Char} {count : Nat} (hfound : toTripleQuote? text = some count) :
    count + 3 ≤ text.length := by
  fun_induction toTripleQuote? text generalizing count with
  | case1 rest =>
    obtain rfl := Option.some.inj hfound
    simp
  | case2 c rest hother ih =>
    obtain ⟨inner, hinner, rfl⟩ := Option.map_eq_some_iff.mp hfound
    have hle := ih hinner
    rw [List.length_cons]
    omega
  | case3 => cases hfound

theorem quotedInteger?_le {text : List Char} {length : Nat} (hfound : quotedInteger? text = some length) :
    1 ≤ length ∧ length ≤ text.length := by
  rw [quotedInteger?.eq_def] at hfound
  split at hfound
  · next body =>
    split at hfound
    · next count hcount =>
      split at hfound
      · cases hfound
      · obtain rfl := Option.some.inj hfound
        have hle := toTripleQuote?_le hcount
        simp only [List.length_cons]
        omega
    · cases hfound
  · cases hfound

end Extent

namespace Lexeme

open Pattern

/-- What opens a comment, string or char literal. -/
def opening? : Kind → Option String
  | .blockCommentStart => some "/*"
  | .lineCommentStart => some "//"
  | .stringStart => some "\""
  | .verbatimStart => some "@\""
  | .charStart => some "'"
  | _ => none

theorem eq_of_opening {kind : Kind} {opening : String} {text : List Char} (hopening : opening? kind = some opening)
    (hfirst : FirstMatch patterns text kind) : text = opening.toList := by
  have hpattern : ∀ pattern ∈ patternsOf kind, pattern = ofString opening := by
    intro pattern hmem
    cases kind with
    | blockCommentStart | lineCommentStart | stringStart | verbatimStart | charStart =>
      obtain rfl := Option.some.inj hopening
      exact List.mem_singleton.mp hmem
    | _ => exact nomatch hopening
  obtain ⟨pattern, hmem, hmatches⟩ := mem_patternsOf hfirst
  exact matches_ofString_iff.mp (hpattern pattern hmem ▸ hmatches)

/-- The end that is found for a match is not in front of the end of the match, and not past the end of the text. -/
theorem length_resolve {matched : Kind} {length : Nat} {text : List Char} (hlongest : Longest patterns text matched length) :
    length ≤ (resolve matched length text).2 ∧ (resolve matched length text).2 ≤ text.length := by
  have hle := hlongest.le_length
  have hopening {opening : String} (hkind : opening? matched = some opening) : opening.length = length := by
    have htake := congrArg List.length (eq_of_opening hkind hlongest.firstMatch)
    rw [List.length_take, Nat.min_eq_left hle, String.length_toList] at htake
    exact htake.symm
  have hdrop (count : Nat) : (text.drop count).length = text.length - count := List.length_drop
  rw [resolve.eq_def]
  split
  · have htwo : 2 = length := hopening rfl
    have hclose := Extent.length_toCommentCloser_le (text.drop 2)
    show length ≤ (Extent.toCommentCloser (text.drop 2)).length + 2 ∧ _ + 2 ≤ _
    have := hdrop 2
    omega
  · have htwo : 2 = length := hopening rfl
    have hclose := Extent.toLineEnd_le (text.drop 2)
    show length ≤ Extent.toLineEnd (text.drop 2) + 2 ∧ _ + 2 ≤ _
    have := hdrop 2
    omega
  · have hone : 1 = length := hopening rfl
    have hclose := Extent.length_toQuote_le (text.drop 1)
    show length ≤ (Extent.toQuote (text.drop 1)).length + 1 ∧ _ + 1 ≤ _
    have := hdrop 1
    omega
  · have htwo : 2 = length := hopening rfl
    have hclose := Extent.length_toSingleQuote_le (text.drop 2)
    show length ≤ (Extent.toSingleQuote (text.drop 2)).length + 2 ∧ _ + 2 ≤ _
    have := hdrop 2
    omega
  · have hone : 1 = length := hopening rfl
    split
    · next found hfound =>
      rw [← hone]
      exact Extent.quotedInteger?_le hfound
    · refine ⟨?_, Extent.length_charLiteral_le (hone ▸ hle)⟩
      rw [← hone, Extent.charLiteral.eq_def]
      split
      · exact Nat.le_add_left 1 _
      · exact Nat.le_add_left 1 _
  · exact ⟨Nat.le_refl length, hle⟩

theorem unrecognizedLength_le (text : List Char) : unrecognizedLength text ≤ text.length := by
  fun_induction unrecognizedLength text with
  | case1 => simp
  | case2 c rest hsome => simp
  | case3 c rest hnone ih => simpa using ih

/-- The first lexeme of a text has at least one character, and its end is found inside the text. -/
theorem length_first {text : List Char} (hnonempty : text ≠ []) : 0 < (first text).2 ∧ (first text).2 ≤ text.length := by
  rw [first]
  split
  · next matched length hmatch =>
    have hlongest := longest?_eq_some_iff.mp hmatch
    obtain ⟨hopened, hwithin⟩ := length_resolve hlongest
    refine ⟨Nat.lt_of_lt_of_le (Nat.pos_of_ne_zero fun hzero => ?_) hopened, hwithin⟩
    have hempty := hlongest.firstMatch
    rw [hzero, List.take_zero] at hempty
    exact not_firstMatch_nil matched hempty
  · next hnone =>
    refine ⟨?_, unrecognizedLength_le text⟩
    obtain ⟨c, rest, rfl⟩ := List.exists_cons_of_ne_nil hnonempty
    rw [unrecognizedLength, hnone]
    exact Nat.succ_pos _

/-! ### The kinds of tokens -/

/-- The kinds that the lexer gives to tokens: the kinds of the grammar's terminals, without those that only open a token
and without the kind of the nodes around what is skipped. -/
def isTokenKind (kind : Kind) : Bool := !kind.isNode && !kind.isOpener && kind != .error

theorem isTokenKind_of_first {text : List Char} {kind : Kind} (hfirst : (first text).1 = .token kind) :
    isTokenKind kind = true := by
  have hpatterns : ∀ rule ∈ patterns, rule.1.isOpener = true ∨ isTokenKind rule.1 = true := by decide
  obtain ⟨matched, length, hlongest, hresolve⟩ := exists_longest hfirst
  rw [hresolve] at hfirst
  have hmatched : matched.isOpener = true ∨ isTokenKind matched = true := by
    obtain ⟨pattern, hmem, -⟩ := hlongest.firstMatch.exists_mem
    exact hpatterns _ hmem
  have hextended {opened : Kind} {closed : Bool} (hopened : isTokenKind opened = true)
      (hform : (if closed = true then LexemeForm.token opened else .unterminated matched) = .token kind) :
      isTokenKind kind = true := by
    cases closed with
    | true => exact LexemeForm.token.inj hform ▸ hopened
    | false => cases hform
  rw [resolve.eq_def] at hfirst
  split at hfirst
  · exact hextended rfl hfirst
  · exact LexemeForm.token.inj hfirst ▸ rfl
  · exact hextended rfl hfirst
  · exact hextended rfl hfirst
  · split at hfirst
    · exact LexemeForm.token.inj hfirst ▸ rfl
    · exact hextended rfl hfirst
  · next hblock hline hstring hverbatim hchar =>
    obtain rfl := LexemeForm.token.inj hfirst
    obtain hopener | hkind := hmatched
    · cases matched with
      | blockCommentStart | lineCommentStart | stringStart | verbatimStart | charStart => contradiction
      | _ => cases hopener
    · exact hkind

theorem isTokenKind_of_mem_cut {text : List Char} {lexeme : Lexeme} (hmem : lexeme ∈ cut text) :
    isTokenKind lexeme.kind = true := by
  obtain ⟨c, rest, hlexeme⟩ := exists_first_of_mem_cut hmem
  rw [Lexeme.kind]
  split
  · next kind hform hfault =>
    have hfirst : (first (c :: rest)).1 = .token kind := by rw [← hform, hlexeme]
    exact isTokenKind_of_first hfirst
  · rfl

/-! ### Lexemes in their text -/

/-- The first lexeme of a text and the rest of the text make up the text. -/
theorem cut_eq_append {text : List Char} (hnonempty : text ≠ []) :
    ∃ lexeme after, cut text = lexeme :: cut after ∧ text = lexeme.text ++ after ∧ lexeme.text ≠ [] ∧
      first (lexeme.text ++ after) = (lexeme.form, lexeme.text.length) := by
  obtain ⟨hpos, hle⟩ := length_first hnonempty
  obtain ⟨c, rest, rfl⟩ := List.exists_cons_of_ne_nil hnonempty
  have htake : c :: rest.take ((first (c :: rest)).2 - 1) = (c :: rest).take (first (c :: rest)).2 := take_of_mem_cut hpos
  have happend : (c :: rest.take ((first (c :: rest)).2 - 1)) ++ rest.drop ((first (c :: rest)).2 - 1) = c :: rest := by
    rw [List.cons_append, List.take_append_drop]
  refine ⟨_, _, cut_cons c rest, happend.symm, List.cons_ne_nil _ _, ?_⟩
  rw [happend, htake, List.length_take, Nat.min_eq_left hle]

end Lexeme

/-! ### Tokens in their source -/

/-- The end of some first characters of a source is between two characters. -/
theorem isValid_of_toList {source : String} {left right : List Char} (hsource : source.toList = left ++ right) :
    String.Pos.Raw.IsValid source ⟨byteLength left⟩ := by
  refine String.Pos.Raw.isValid_iff_exists_append.mpr ⟨String.ofList left, String.ofList right, ?_, ?_⟩
  · rw [← String.toList_inj, String.toList_append, String.toList_ofList, String.toList_ofList, hsource]
  · rw [String.Pos.Raw.ext_iff, String.byteIdx_rawEndPos, ← byteLength_toList, String.toList_ofList]

namespace Token

/-- The tokens fill the stretch from one offset to another: each starts where the one before it stops, and none is
empty. -/
def Tile : Nat → List Token → Nat → Prop
  | start, [], stop => start = stop
  | start, token :: rest, stop => token.start = start ∧ token.start < token.stop ∧ Tile token.stop rest stop

/-- Tokens that tile a stretch lie in it. -/
theorem Tile.bounds {start stop : Nat} {tokens : List Token} (htile : Tile start tokens stop) :
    start ≤ stop ∧ ∀ token ∈ tokens, start ≤ token.start ∧ token.start < token.stop ∧ token.stop ≤ stop := by
  induction tokens generalizing start with
  | nil => exact ⟨Nat.le_of_eq htile, fun token hmem => absurd hmem List.not_mem_nil⟩
  | cons first rest ih =>
    obtain ⟨hstart, hpos, hrest⟩ := htile
    obtain ⟨hle, hinside⟩ := ih hrest
    refine ⟨by omega, fun token hmem => ?_⟩
    obtain rfl | hmem := List.mem_cons.mp hmem
    · exact ⟨Nat.le_of_eq hstart.symm, hpos, hle⟩
    · obtain ⟨hfrom, hlt, hto⟩ := hinside token hmem
      exact ⟨by omega, hlt, hto⟩

/-- A stretch is tiled in two parts. -/
theorem Tile.split {start stop : Nat} {left right : List Token} (htile : Tile start (left ++ right) stop) :
    ∃ middle, Tile start left middle ∧ Tile middle right stop := by
  induction left generalizing start with
  | nil => exact ⟨start, rfl, htile⟩
  | cons first rest ih =>
    obtain ⟨hstart, hpos, hrest⟩ := htile
    obtain ⟨middle, hleft, hright⟩ := ih hrest
    exact ⟨middle, ⟨hstart, hpos, hleft⟩, hright⟩

/-- The token stands in a text with so many bytes in front of it, and its end is the one that is found for a lexeme
there. -/
def StandsIn (token : Token) (text : List Char) : Prop :=
  ∃ before after, text = before ++ token.text.toList ++ after ∧ byteLength before = token.start ∧
    (Lexeme.first (token.text.toList ++ after)).2 = token.text.toList.length

/-- A token starts and stops between two characters of the source that it stands in. -/
theorem StandsIn.isValid {token : Token} {source : String} (hstands : token.StandsIn source.toList) :
    String.Pos.Raw.IsValid source ⟨token.start⟩ ∧ String.Pos.Raw.IsValid source ⟨token.stop⟩ := by
  obtain ⟨before, after, hsource, hstart, -⟩ := hstands
  rw [Token.stop, ← byteLength_toList, ← hstart, ← byteLength_append]
  rw [List.append_assoc] at hsource
  exact ⟨isValid_of_toList hsource, isValid_of_toList (hsource.trans (List.append_assoc _ _ _).symm)⟩

end Token

namespace Lexed

theorem byteLength_pos {text : List Char} (hnonempty : text ≠ []) : 0 < byteLength text := by
  obtain ⟨c, rest, rfl⟩ := List.exists_cons_of_ne_nil hnonempty
  exact Nat.add_pos_left (Char.utf8Size_pos c) _

theorem stop_place (offset : Nat) (lexeme : Lexeme) :
    (place offset lexeme).1.stop = offset + byteLength lexeme.text := by
  rw [Token.stop, place, ← byteLength_toList, String.toList_ofList]

/-- The tokens of what is left of a text tile it, and each of them stands in the whole text. -/
theorem tile_placed (before rest : List Char) :
    Token.Tile (byteLength before) ((placed (byteLength before) (Lexeme.cut rest)).map (·.1)) (byteLength (before ++ rest)) ∧
      ∀ piece ∈ placed (byteLength before) (Lexeme.cut rest), piece.1.StandsIn (before ++ rest) := by
  induction hlength : rest.length using Nat.strongRecOn generalizing before rest with
  | ind length ih =>
    by_cases hnil : rest = []
    · subst hnil
      rw [Lexeme.cut, List.append_nil, placed]
      exact ⟨rfl, fun piece hmem => absurd hmem List.not_mem_nil⟩
    · obtain ⟨lexeme, after, hcut, rfl, hnonempty, hfirst⟩ := Lexeme.cut_eq_append hnil
      have hshorter : after.length < length := by
        have hpos := List.length_pos_iff.mpr hnonempty
        rw [List.length_append] at hlength
        omega
      obtain ⟨htile, hstand⟩ := ih after.length hshorter (before ++ lexeme.text) after rfl
      rw [byteLength_append before lexeme.text, List.append_assoc] at htile
      rw [byteLength_append before lexeme.text, List.append_assoc] at hstand
      have hbytes := byteLength_pos hnonempty
      rw [hcut, placed]
      constructor
      · rw [List.map_cons, Token.Tile, stop_place]
        exact ⟨rfl, Nat.lt_add_of_pos_right hbytes, htile⟩
      · intro piece hmem
        obtain rfl | hmem := List.mem_cons.mp hmem
        · refine ⟨before, after, ?_, rfl, ?_⟩
          · rw [place, String.toList_ofList, List.append_assoc]
          · rw [place, String.toList_ofList, hfirst]
        · exact hstand piece hmem

theorem tile_ofSource (source : String) :
    Token.Tile 0 (ofSource source).tokens source.utf8ByteSize ∧
      ∀ token ∈ (ofSource source).tokens, token.StandsIn source.toList := by
  obtain ⟨htile, hstand⟩ := tile_placed [] source.toList
  rw [byteLength_nil, List.nil_append, byteLength_toList] at htile
  refine ⟨htile, fun token hmem => ?_⟩
  obtain ⟨piece, hpiece, rfl⟩ := List.mem_map.mp hmem
  exact hstand piece hpiece

theorem isTokenKind_of_mem_tokens {source : String} {token : Token} (hmem : token ∈ (ofSource source).tokens) :
    Lexeme.isTokenKind token.kind = true := by
  obtain ⟨piece, hpiece, rfl⟩ := List.mem_map.mp hmem
  obtain ⟨lexeme, hlexeme, start, rfl⟩ := mem_placed hpiece
  exact Lexeme.isTokenKind_of_mem_cut hlexeme

/-- The tokens of a source tile it from its start to its end. They start and stop between characters, no end that is
found for a token lies past the end of the source, and each has the kind of a terminal. -/
theorem tile_tokens (source : String) :
    Token.Tile 0 (ofSource source).tokens source.utf8ByteSize ∧
      ∀ token ∈ (ofSource source).tokens, token.StandsIn source.toList ∧
        String.Pos.Raw.IsValid source ⟨token.start⟩ ∧ String.Pos.Raw.IsValid source ⟨token.stop⟩ ∧
        token.kind.isNode = false ∧ token.kind.isOpener = false ∧ token.kind ≠ .error := by
  obtain ⟨htile, hstand⟩ := tile_ofSource source
  refine ⟨htile, fun token hmem => ?_⟩
  have hstands := hstand token hmem
  have hkind := isTokenKind_of_mem_tokens hmem
  simp only [Lexeme.isTokenKind, Bool.and_eq_true, Bool.not_eq_true', bne_iff_ne] at hkind
  obtain ⟨⟨hnode, hopener⟩, herror⟩ := hkind
  exact ⟨hstands, hstands.isValid.1, hstands.isValid.2, hnode, hopener, herror⟩

end Lexed

end Squirrel
