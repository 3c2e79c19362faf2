import Squirrel.Literal.Text
import Squirrel.Proofs.Token.Extent

/-!
# Verbatim strings written and read

Every string has a verbatim form, with each quote written twice, and every closed verbatim string is the form of its
value. Both directions pair the search for the closing quote, which passes two quotes at once, with the decoder, which
makes one quote of two: behind the opener the characters up to that quote are a text with doubled quotes and no other.
-/

namespace Squirrel

namespace Literal

/-- A text with each quote written twice. -/
def doubleQuotes : List Char → List Char
  | '"' :: rest => '"' :: '"' :: doubleQuotes rest
  | c :: rest => c :: doubleQuotes rest
  | [] => []

/-- The verbatim string that stands for a text. -/
def writeVerbatim (value : String) : String := "@\"" ++ String.ofList (doubleQuotes value.toList) ++ "\""

theorem toList_writeVerbatim (value : String) :
    (writeVerbatim value).toList = '@' :: '"' :: (doubleQuotes value.toList ++ ['"']) := by
  simp [writeVerbatim]

/-- The decoder makes one quote of two. -/
theorem collapseQuotes_doubleQuotes (value : List Char) : collapseQuotes (doubleQuotes value) = value := by
  fun_induction doubleQuotes value with
  | case1 rest ih => rw [collapseQuotes, ih]
  | case2 c rest hquote ih => rw [collapseQuotes.eq_2 _ _ fun _ heq _ => hquote heq, ih]
  | case3 => rfl

theorem decodeVerbatim_writeVerbatim (value : String) : decodeVerbatim (writeVerbatim value) = .ok value := by
  have hlast : (doubleQuotes value.toList ++ ['"']).getLast? = some '"' := List.getLast?_concat
  rw [decodeVerbatim, toList_writeVerbatim]
  simp only [hlast, if_true, List.dropLast_concat, collapseQuotes_doubleQuotes, String.ofList_toList]

end Literal

namespace Extent

open Literal

/-- Behind a text with doubled quotes, the next quote is the closing one if no other follows. -/
theorem toSingleQuote_doubleQuotes (value : List Char) {after : List Char} (hafter : after.head? ≠ some '"') :
    toSingleQuote (doubleQuotes value ++ '"' :: after) = ⟨(doubleQuotes value).length + 1, true⟩ := by
  fun_induction doubleQuotes value with
  | case1 rest ih =>
    rw [List.cons_append, List.cons_append, toSingleQuote, ih]
    rfl
  | case2 c rest hquote ih =>
    rw [List.cons_append, toSingleQuote.eq_3 _ _ (fun _ heq _ => hquote heq) hquote, ih]
    rfl
  | case3 =>
    rw [List.nil_append]
    refine toSingleQuote.eq_2 after fun others heq => hafter ?_
    rw [heq]
    rfl

/-- A closing quote that is found stands behind a text with doubled quotes. -/
theorem take_of_toSingleQuote {text : List Char} {length : Nat} (hclosed : toSingleQuote text = ⟨length, true⟩) :
    ∃ value, text.take length = doubleQuotes value ++ ['"'] := by
  fun_induction toSingleQuote text generalizing length with
  | case1 rest ih =>
    obtain ⟨found, rfl, hrest⟩ := past_eq_iff.mp hclosed
    obtain ⟨value, hvalue⟩ := ih hrest
    exact ⟨'"' :: value, congrArg ('"' :: '"' :: ·) hvalue⟩
  | case2 rest hpair =>
    obtain ⟨rfl, -⟩ := Extent.mk.inj hclosed
    exact ⟨[], rfl⟩
  | case3 c rest hpair hquote ih =>
    obtain ⟨found, rfl, hrest⟩ := past_eq_iff.mp hclosed
    obtain ⟨value, hvalue⟩ := ih hrest
    exact ⟨c :: value, by rw [List.take_succ_cons, hvalue, doubleQuotes.eq_2 _ _ hquote, List.cons_append]⟩
  | case4 => cases hclosed

theorem verbatimString_writeVerbatim (value : String) {after : String} (hafter : after.toList.head? ≠ some '"') :
    verbatimString (writeVerbatim value ++ after).toList = ⟨(writeVerbatim value).length, true⟩ := by
  have htext : (writeVerbatim value ++ after).toList.drop 2 = doubleQuotes value.toList ++ '"' :: after.toList := by
    rw [String.toList_append, toList_writeVerbatim]
    simp
  rw [verbatimString, htext, toSingleQuote_doubleQuotes value.toList hafter, ← String.length_toList,
    toList_writeVerbatim]
  simp [past]

theorem bytes_of_append {text after : String} {extent : Extent} (hlength : extent.length = text.length) :
    extent.bytes (text ++ after).toList = text.utf8ByteSize := by
  rw [bytes, hlength, String.toList_append, ← String.length_toList, List.take_left, byteLength_toList]

/-- A closed verbatim string is the one that stands for some text. -/
theorem take_of_verbatimString {text : String} {length : Nat} (hopener : ['@', '"'] <+: text.toList)
    (hclosed : verbatimString text.toList = ⟨length, true⟩) :
    ∃ value, String.ofList (text.toList.take length) = writeVerbatim value := by
  obtain ⟨body, hbody⟩ := hopener
  rw [← hbody] at hclosed ⊢
  obtain ⟨found, rfl, hfound⟩ := past_eq_iff.mp hclosed
  obtain ⟨value, hvalue⟩ := take_of_toSingleQuote (show toSingleQuote body = ⟨found, true⟩ from hfound)
  have htake : (['@', '"'] ++ body).take (found + 2) = '@' :: '"' :: body.take found := rfl
  refine ⟨String.ofList value, ?_⟩
  rw [← String.toList_inj, String.toList_ofList, toList_writeVerbatim, String.toList_ofList, htake, hvalue]

end Extent

namespace Literal

/-- What is written for a text is closed where it ends, unless a quote follows, and is decoded to that text. What is
closed is decoded to a text for which just that is written. -/
theorem verbatim_roundTrip :
    (∀ value after : String, after.toList.head? ≠ some '"' →
      Extent.verbatimString (writeVerbatim value ++ after).toList = ⟨(writeVerbatim value).length, true⟩ ∧
      (Extent.verbatimString (writeVerbatim value ++ after).toList).bytes (writeVerbatim value ++ after).toList
        = (writeVerbatim value).utf8ByteSize ∧
      decodeVerbatim (writeVerbatim value) = .ok value) ∧
    ∀ (text : String) (length : Nat), ['@', '"'] <+: text.toList →
      Extent.verbatimString text.toList = ⟨length, true⟩ →
      ∃ value, decodeVerbatim (String.ofList (text.toList.take length)) = .ok value ∧
        writeVerbatim value = String.ofList (text.toList.take length) := by
  constructor
  · intro value after hafter
    have hextent := Extent.verbatimString_writeVerbatim value hafter
    exact ⟨hextent, Extent.bytes_of_append (congrArg Extent.length hextent), decodeVerbatim_writeVerbatim value⟩
  · intro text length hopener hclosed
    obtain ⟨value, hvalue⟩ := Extent.take_of_verbatimString hopener hclosed
    exact ⟨value, hvalue ▸ decodeVerbatim_writeVerbatim value, hvalue.symm⟩

/-- Three quotes in a row at the end are a quote of the text and the closing one. -/
theorem verbatim_roundTrip_quotes :
    Extent.verbatimString (writeVerbatim "a\"" ++ "+ b").toList = ⟨6, true⟩ ∧
      decodeVerbatim (writeVerbatim "a\"") = .ok "a\"" ∧
      ∃ value, decodeVerbatim "@\"\"\"\n\"" = .ok value ∧ writeVerbatim value = "@\"\"\"\n\"" := by
  obtain ⟨hextent, -, hdecode⟩ := verbatim_roundTrip.1 "a\"" "+ b" (by decide)
  exact ⟨hextent, hdecode, verbatim_roundTrip.2 "@\"\"\"\n\";" 6 (by decide) (by decide)⟩

end Literal

end Squirrel
