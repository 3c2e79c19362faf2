import Squirrel.Proofs.Token.Fault
import Squirrel.Proofs.Token.Longest
import Squirrel.Proofs.Token.Suffix

/-!
# Tokens by themselves

The text of a token, as a source of its own, is that token again, and what is wrong with the token is wrong with it there.
The longest match of a text is the longest match of every start of it that holds the match, and where an opened token
ends is decided by the characters up to that end: whoever looks at one more character, like a quote in a verbatim string,
takes the end of the text for an answer, too. Only an integer between single quotes might be found where there was
none, but what is taken for a char literal instead is too short for one.
-/

namespace Squirrel

/-! ### Where a token ends -/

namespace Extent

/-- The first of the characters taken from a text is the first one of the text. -/
theorem eq_cons_of_take {text more : List Char} {count : Nat} {c : Char} (htake : text.take count = c :: more) :
    ∃ others, text = c :: others := by
  cases text with
  | nil =>
    rw [List.take_nil] at htake
    cases htake
  | cons d others =>
    cases count with
    | zero => cases htake
    | succ count => exact ⟨others, by rw [(List.cons.inj htake).1]⟩

theorem toCommentCloser_self (text : List Char) :
    toCommentCloser (text.take (toCommentCloser text).length) = toCommentCloser text := by
  fun_induction toCommentCloser text with
  | case1 rest => rfl
  | case2 c rest hother ih =>
    rw [length_past, List.take_succ_cons, toCommentCloser.eq_2, ih]
    intro more hstar htake
    obtain ⟨others, rfl⟩ := eq_cons_of_take htake
    exact hother others hstar rfl
  | case3 => rfl

theorem toLineEnd_self (text : List Char) : toLineEnd (text.take (toLineEnd text)) = toLineEnd text := by
  fun_induction toLineEnd text with
  | case1 rest ih => exact congrArg (· + 3) ih
  | case2 c rest hother ih =>
    have htake : ('\\' :: c :: rest).take (toLineEnd rest + 2) = '\\' :: c :: rest.take (toLineEnd rest) := rfl
    rw [htake, toLineEnd.eq_2, ih]
    intro more hreturn htake
    obtain ⟨others, rfl⟩ := eq_cons_of_take htake
    exact hother others hreturn rfl
  | case3 rest => rfl
  | case4 c rest hbreak hescape hline ih =>
    rw [List.take_succ_cons, toLineEnd.eq_4 _ _ _ _ hline, ih]
    · intro more hslash htake
      obtain ⟨others, rfl⟩ := eq_cons_of_take htake
      exact hescape '\r' others hslash rfl
    · intro d more hslash htake
      obtain ⟨others, rfl⟩ := eq_cons_of_take htake
      exact hescape d others hslash rfl
  | case5 => rfl

theorem toQuote_self (text : List Char) : toQuote (text.take (toQuote text).length) = toQuote text := by
  fun_induction toQuote text with
  | case1 c rest ih => exact congrArg (past · 2) ih
  | case2 rest => rfl
  | case3 c rest hescape hquote ih =>
    rw [length_past, List.take_succ_cons, toQuote.eq_3 _ _ _ hquote, ih]
    intro d more hslash htake
    obtain ⟨others, rfl⟩ := eq_cons_of_take htake
    exact hescape d others hslash rfl
  | case4 => rfl

theorem toSingleQuote_self (text : List Char) :
    toSingleQuote (text.take (toSingleQuote text).length) = toSingleQuote text := by
  fun_induction toSingleQuote text with
  | case1 rest ih => exact congrArg (past · 2) ih
  | case2 rest hpair => rfl
  | case3 c rest hpair hquote ih =>
    rw [length_past, List.take_succ_cons, toSingleQuote.eq_3 _ _ (fun _ heq _ => hquote heq) hquote, ih]
  | case4 => rfl

theorem toApostrophe_self (text : List Char) :
    toApostrophe (text.take (toApostrophe text).length) = toApostrophe text := by
  fun_induction toApostrophe text with
  | case1 rest => rfl
  | case2 rest => rfl
  | case3 c rest hquote hline ih => rw [length_past, List.take_succ_cons, toApostrophe.eq_3 _ _ hquote hline, ih]
  | case4 => rfl

theorem charLiteral_self (opener : Char) (body : List Char) :
    charLiteral ((opener :: body).take (charLiteral (opener :: body)).length) = charLiteral (opener :: body) := by
  rw [charLiteral.eq_def (opener :: body), List.drop_succ_cons, List.drop_zero]
  split
  · next c rest => exact congrArg (past · 3) (toApostrophe_self rest)
  · next hescape =>
    rw [length_past, List.take_succ_cons, charLiteral.eq_def, List.drop_succ_cons, List.drop_zero]
    split
    · next c rest htake =>
      have hlong := congrArg List.length htake
      obtain ⟨others, rfl⟩ := eq_cons_of_take htake
      cases others with
      | nil =>
        rw [List.length_take] at hlong
        simp only [List.length_cons, List.length_nil] at hlong
        omega
      | cons d others => exact absurd rfl (hescape d others)
    · rw [toApostrophe_self]

/-- What is taken for a char literal holds no integer between single quotes. -/
theorem quotedInteger?_charLiteral (body : List Char) :
    quotedInteger? (('\'' :: body).take (charLiteral ('\'' :: body)).length) = none := by
  cases body with
  | nil => rfl
  | cons c rest =>
    by_cases hquote : c = '\''
    · subst hquote
      rfl
    · obtain ⟨count, hcount⟩ : ∃ count, (charLiteral ('\'' :: c :: rest)).length = count + 1 := by
        rw [charLiteral.eq_def]
        split
        · exact ⟨_, rfl⟩
        · exact ⟨_, rfl⟩
      rw [hcount, List.take_succ_cons]
      cases count with
      | zero => rfl
      | succ count =>
        rw [List.take_succ_cons, quotedInteger?.eq_2]
        intro others heq
        exact hquote (List.cons.inj (List.cons.inj heq).2).1

end Extent

/-! ### Lexemes -/

namespace Lexeme

open Pattern

variable {text after : List Char} {kind : Kind} {length : Nat}

/-- The longest match of a text is the longest match of every start of it that holds the match. -/
theorem IsLongest.alone (hlongest : IsLongest (text ++ after) kind length) (hle : length ≤ text.length) :
    IsLongest text kind length := by
  have htake {count : Nat} (hcount : count ≤ text.length) : (text ++ after).take count = text.take count :=
    List.take_append_of_le_length hcount
  refine ⟨hle, ?_, fun longer hlonger hmatched => ?_, fun rule hmem hmatches => ?_⟩
  · rw [← htake hle]
    exact hlongest.matched
  · refine hlongest.longest longer ?_ (by rwa [htake hlonger])
    rw [List.length_append]
    exact Nat.le_add_right_of_le hlonger
  · exact hlongest.preferred rule hmem (by rwa [htake hle])

/-- What an opener is extended to does not depend on anything behind it. -/
theorem resolve_self (hlongest : Longest patterns text kind length) :
    resolve kind length (text.take (resolve kind length text).2) = resolve kind length text := by
  have hmatch := hlongest.firstMatch
  have hextended {opened : Kind} {extent other : Extent} (hsame : extent = other) :
      ((if extent.closed = true then LexemeForm.token opened else .unterminated kind), extent.length) =
        ((if other.closed = true then LexemeForm.token opened else .unterminated kind), other.length) := by
    rw [hsame]
  cases hopener : kind.isOpener with
  | false => rw [resolve_of_isOpener_eq_false hopener, resolve_of_isOpener_eq_false hopener]
  | true =>
    cases kind with
    | blockCommentStart =>
      obtain ⟨rest, rfl⟩ := exists_of_opener (show patternsOf .blockCommentStart = [ofString "/*"] from rfl) hmatch
      exact hextended (congrArg (Extent.past · 2) (Extent.toCommentCloser_self rest))
    | lineCommentStart =>
      obtain ⟨rest, rfl⟩ := exists_of_opener (show patternsOf .lineCommentStart = [ofString "//"] from rfl) hmatch
      exact congrArg (fun count => (LexemeForm.token .lineComment, count + 2)) (Extent.toLineEnd_self rest)
    | stringStart =>
      obtain ⟨rest, rfl⟩ := exists_of_opener (show patternsOf .stringStart = [ofString "\""] from rfl) hmatch
      exact hextended (congrArg (Extent.past · 1) (Extent.toQuote_self rest))
    | verbatimStart =>
      obtain ⟨rest, rfl⟩ := exists_of_opener (show patternsOf .verbatimStart = [ofString "@\""] from rfl) hmatch
      exact hextended (congrArg (Extent.past · 2) (Extent.toSingleQuote_self rest))
    | charStart =>
      obtain ⟨rest, rfl⟩ := exists_of_opener (show patternsOf .charStart = [ofString "'"] from rfl) hmatch
      rw [resolve.eq_def .charStart length ("'".toList ++ rest)]
      dsimp only
      cases hquoted : Extent.quotedInteger? ("'".toList ++ rest) with
      | some count =>
        have htake := (Extent.quotedInteger?_take hquoted []).2
        rw [List.append_nil] at htake
        simp only [resolve, htake]
      | none =>
        simp only [resolve, show "'".toList ++ rest = '\'' :: rest from rfl, Extent.quotedInteger?_charLiteral,
          Extent.charLiteral_self]
    | _ => cases hopener

/-- A run of characters at which no pattern matches is such a run by itself. -/
theorem IsMaximalRun.alone {before run : List Char} (hrun : IsMaximalRun before run after) : IsMaximalRun [] run [] := by
  refine ⟨hrun.ne_nil, fun position hlt hstarts => ?_, fun c hmem => ?_, fun hne => absurd rfl hne⟩
  · rw [List.append_nil] at hstarts
    have hlonger := hstarts.append after
    rw [← List.drop_append_of_le_length (Nat.le_of_lt hlt)] at hlonger
    exact hrun.silent position hlt hlonger
  · rw [List.getLast?_nil] at hmem
    cases hmem

/-- Every lexeme that the patterns ask for is the one that they ask for in its own text. -/
theorem Reads.alone {before : List Char} {lexemes : List Lexeme} (hreads : Reads before text lexemes) :
    ∀ lexeme ∈ lexemes, Reads [] lexeme.text [lexeme] := by
  induction hreads with
  | done => exact List.forall_mem_nil _
  | @token before text after form lexemes kind length hlongest hresolve _ ih =>
    refine List.forall_mem_cons.mpr ⟨?_, ih⟩
    have hmatch := isLongest_iff.mp hlongest
    have hle : length ≤ text.length := by
      have hopened := (length_resolve hmatch).1
      rwa [hresolve] at hopened
    have hself := resolve_self hmatch
    rw [hresolve, List.take_left] at hself
    have hdone : Reads ([] ++ text) [] [] := .done
    have htoken : Reads [] (text ++ []) [⟨form, text⟩] :=
      .token (by rw [List.append_nil]; exact hlongest.alone hle) (by rw [List.append_nil]; exact hself) hdone
    rwa [List.append_nil] at htoken
  | @unrecognized before run after lexemes hrun _ ih =>
    refine List.forall_mem_cons.mpr ⟨?_, ih⟩
    have hsingle : Reads [] (run ++ []) [⟨.unrecognized, run⟩] := .unrecognized hrun.alone .done
    rwa [List.append_nil] at hsingle

/-- The text of a lexeme is cut into that lexeme. -/
theorem cut_text {source : List Char} {lexeme : Lexeme} (hmem : lexeme ∈ cut source) : cut lexeme.text = [lexeme] := by
  have hreads : Reads [] source (cut source) := reads_cut [] source fun _ _ c hlast => by
    rw [List.getLast?_nil] at hlast
    cases hlast
  exact (hreads.alone lexeme hmem).eq_cut.symm

end Lexeme

/-! ### Tokens -/

namespace Lexed

/-- The diagnostics about a stretch of a source. -/
def within (lexed : Lexed) (span : Span) : List Diagnostic :=
  lexed.diagnostics.filter fun diagnostic => span.start ≤ diagnostic.span.start && diagnostic.span.stop ≤ span.stop

/-- A token and what is wrong with it, from its own text. -/
theorem ofSource_text {text : List Char} {piece : Token × Option Diagnostic}
    (hpiece : piece ∈ placed 0 (Lexeme.cut text)) :
    (ofSource piece.1.text).tokens = [{ piece.1 with start := 0 }] ∧
      (ofSource piece.1.text).diagnostics.map (Diagnostic.shift piece.1.start) = piece.2.toList := by
  obtain ⟨lexeme, hlexeme, start, rfl⟩ := mem_placed hpiece
  have hcut : Lexeme.cut (place start lexeme).1.text.toList = [lexeme] := by
    rw [show (place start lexeme).1.text = String.ofList lexeme.text from rfl, String.toList_ofList]
    exact Lexeme.cut_text hlexeme
  have hshift : (place start lexeme).2 = (place 0 lexeme).2.map (Diagnostic.shift start) := by
    rw [← Nat.zero_add start, place_shift, Nat.zero_add]
  rw [ofSource, hcut, hshift]
  refine ⟨rfl, ?_⟩
  show ([place 0 lexeme].filterMap (·.2)).map (Diagnostic.shift start) = _
  cases hdiagnostic : (place 0 lexeme).2 with
  | none => rw [List.filterMap_cons_none hdiagnostic]; rfl
  | some diagnostic => rw [List.filterMap_cons_some hdiagnostic]; rfl

/-- The diagnostic that comes with a token is the only one inside it, for the tokens do not overlap. -/
theorem within_span {source : String} {piece : Token × Option Diagnostic}
    (hpiece : piece ∈ placed 0 (Lexeme.cut source.toList)) :
    (ofSource source).within piece.1.span = piece.2.toList := by
  have hinside {other : Token × Option Diagnostic} (hmem : other ∈ placed 0 (Lexeme.cut source.toList))
      {diagnostic : Diagnostic} (hdiagnostic : other.2 = some diagnostic) :
      other.1.start ≤ diagnostic.span.start ∧ diagnostic.span.start < diagnostic.span.stop ∧
        diagnostic.span.stop ≤ other.1.stop := by
    obtain ⟨hstart, hpos, hstop, -⟩ := inside_of_placed hmem hdiagnostic
    exact ⟨hstart, hpos, hstop⟩
  have htile : Token.Tile 0 ((placed 0 (Lexeme.cut source.toList)).map (·.1)) source.utf8ByteSize := (tile_ofSource source).1
  obtain ⟨left, right, hpieces⟩ := List.append_of_mem hpiece
  rw [hpieces, List.map_append, List.map_cons] at htile
  obtain ⟨middle, hleft, hstart, -, hright⟩ := htile.split
  -- whatever is inside another token is in front of this one or behind it
  have hbefore : (left.filterMap (·.2)).filter (fun diagnostic =>
      piece.1.span.start ≤ diagnostic.span.start && diagnostic.span.stop ≤ piece.1.span.stop) = [] := by
    refine List.filter_eq_nil_iff.mpr fun diagnostic hmem hboth => ?_
    obtain ⟨other, hother, hdiagnostic⟩ := List.mem_filterMap.mp hmem
    obtain ⟨-, hpos, hstop⟩ := hinside (hpieces ▸ List.mem_append_left _ hother) hdiagnostic
    have hmiddle := (hleft.bounds.2 other.1 (List.mem_map_of_mem hother)).2.2
    have hfrom : piece.1.start ≤ diagnostic.span.start := of_decide_eq_true (Bool.and_eq_true_iff.mp hboth).1
    omega
  have hbehind : (right.filterMap (·.2)).filter (fun diagnostic =>
      piece.1.span.start ≤ diagnostic.span.start && diagnostic.span.stop ≤ piece.1.span.stop) = [] := by
    refine List.filter_eq_nil_iff.mpr fun diagnostic hmem hboth => ?_
    obtain ⟨other, hother, hdiagnostic⟩ := List.mem_filterMap.mp hmem
    obtain ⟨hfrom, hpos, -⟩ :=
      hinside (hpieces ▸ List.mem_append_right _ (List.mem_cons_of_mem _ hother)) hdiagnostic
    have hstop := (hright.bounds.2 other.1 (List.mem_map_of_mem hother)).1
    have hto : diagnostic.span.stop ≤ piece.1.stop := of_decide_eq_true (Bool.and_eq_true_iff.mp hboth).2
    omega
  have hdiagnostics : (ofSource source).diagnostics = (left ++ piece :: right).filterMap (·.2) := by rw [← hpieces]; rfl
  rw [within, hdiagnostics, List.filterMap_append, List.filter_append, hbefore, List.nil_append]
  cases hdiagnostic : piece.2 with
  | none => rw [List.filterMap_cons_none hdiagnostic, hbehind]; rfl
  | some diagnostic =>
    obtain ⟨hfrom, -, hto⟩ := hinside hpiece hdiagnostic
    rw [List.filterMap_cons_some hdiagnostic, List.filter_cons_of_pos, hbehind]
    · rfl
    · exact Bool.and_eq_true_iff.mpr ⟨decide_eq_true hfrom, decide_eq_true hto⟩

/-- The text of a token is a source of that one token, and what is wrong with the token in its source is wrong with it
there. -/
theorem alone_of_mem_tokens (source : String) : ∀ token ∈ (ofSource source).tokens,
    (ofSource token.text).tokens = [{ token with start := 0 }] ∧
      (ofSource source).within token.span = (ofSource token.text).diagnostics.map (Diagnostic.shift token.start) := by
  intro token hmem
  obtain ⟨piece, hpiece, rfl⟩ := List.mem_map.mp hmem
  obtain ⟨htoken, hdiagnostics⟩ := ofSource_text hpiece
  exact ⟨htoken, (within_span hpiece).trans hdiagnostics.symm⟩

/-- Behind two single quotes a third one changes nothing: they are a char literal without content there, too. -/
theorem alone_of_empty_char : (⟨.garbage, 2, "''"⟩ : Token) ∈ (ofSource "a '''b'\n").tokens ∧
    (ofSource "''").tokens = [⟨.garbage, 0, "''"⟩] ∧
    (ofSource "a '''b'\n").within ⟨2, 4⟩ = (ofSource "''").diagnostics.map (Diagnostic.shift 2) := by
  have hmem : (⟨.garbage, 2, "''"⟩ : Token) ∈ (ofSource "a '''b'\n").tokens := by
    rw [← computed_eq]
    decide +kernel
  exact ⟨hmem, alone_of_mem_tokens _ _ hmem⟩

end Lexed

end Squirrel
