import Squirrel.Proofs.Grammar.Acceptance

/-!
# A line break at the end

A line break that a source ends with is one more blank, which no production sees. So a source parses without a diagnostic
with it if and only if it does without it. Sources with an error are another matter: what the parser skips or finds
missing at the end may look different once a blank stands there.
-/

namespace Squirrel

/-- A last line break is one more token of a source. It is not if it ends up inside of another one, such as a comment. -/
def Script.EndsBefore (source : String) : Prop :=
  (Lexed.ofSource (source ++ "\n")).tokens
    = (Lexed.ofSource source).tokens ++ [⟨.newline, source.utf8ByteSize, "\n"⟩]

theorem Word.ofTokens_append_trivia (tokens : List Token) {last : Token} (htrivia : last.kind.isTrivia = true)
    (afterBreak joined : Bool) : ofTokens afterBreak joined (tokens ++ [last]) = ofTokens afterBreak joined tokens := by
  induction tokens generalizing afterBreak joined with
  | nil =>
    rw [List.nil_append, ofTokens_trivia htrivia]
    rfl
  | cons token rest ih =>
    rw [List.cons_append]
    cases hfirst : token.kind.isTrivia with
    | true => rw [ofTokens_trivia hfirst, ofTokens_trivia hfirst, ih]
    | false => rw [ofTokens_word hfirst, ofTokens_word hfirst, ih]

theorem Word.ofSource_append_newline {source : String} (hlast : Script.EndsBefore source) :
    ofSource (source ++ "\n") = ofSource source := by
  rw [ofSource, hlast, ofTokens_append_trivia _ rfl]
  rfl

/-- A line break at the end changes nothing about a source without a diagnostic but that it is the last leaf of the tree,
and it makes no source free of diagnostics. -/
theorem Script.parse_append_newline {source : String} (hlast : Script.EndsBefore source) :
    (∀ script, Script.parse source .unbounded = .ok script → script.diagnostics = [] →
      ∃ other, Script.parse (source ++ "\n") .unbounded = .ok other ∧ other.diagnostics = [] ∧
        other.root.trim = script.root.trim ∧ other.root.leaves = script.root.leaves ++ [⟨.newline, "\n"⟩]) ∧
    ∀ other, Script.parse (source ++ "\n") .unbounded = .ok other → other.diagnostics = [] →
      ∃ script, Script.parse source .unbounded = .ok script ∧ script.diagnostics = [] := by
  have hwords := Word.ofSource_append_newline hlast
  refine ⟨fun script hparse hclean => ?_, fun other hparse hclean => ?_⟩
  · obtain ⟨other, hother, hcleanly, hroot⟩ := Script.exists_parse_of_words hwords.symm hparse hclean
    refine ⟨other, hother, hcleanly, hroot, ?_⟩
    rw [(Script.leaves_root hother).1, (Script.leaves_root hparse).1, hlast, List.map_append]
    rfl
  · obtain ⟨script, hscript, hcleanly, -⟩ := Script.exists_parse_of_words hwords hparse hclean
    exact ⟨script, hscript, hcleanly⟩

/-- An assignment parses with and without a line break after it. -/
theorem Script.parse_append_newline_assignment :
    Script.EndsBefore "a = 1" ∧
      ∃ script other, Script.parse "a = 1" .unbounded = .ok script ∧ script.diagnostics = [] ∧
        Script.parse ("a = 1" ++ "\n") .unbounded = .ok other ∧ other.diagnostics = [] ∧
        other.root.trim = script.root.trim ∧ other.root.leaves = script.root.leaves ++ [⟨.newline, "\n"⟩] := by
  have hlast : Script.EndsBefore "a = 1" := by
    rw [Script.EndsBefore, ← Lexed.computed_eq, ← Lexed.computed_eq]
    decide +kernel
  have houtcome : (Script.outcome? "a = 1" .unbounded).any (fun found => found.2) = true := by decide +kernel
  obtain ⟨script, clean, hparse, hclean, htest⟩ := Script.exists_of_outcome houtcome
  obtain ⟨other, hother, hcleanly, hroot, hleaves⟩ :=
    (Script.parse_append_newline hlast).1 script hparse (hclean htest)
  exact ⟨hlast, script, other, hparse, hclean htest, hother, hcleanly, hroot, hleaves⟩

-- with an error it is not so: the skipping of a stray keyword runs into the end once a blank stands there
example : (Script.outcome? "else" .unbounded).isSome = true ∧ Script.outcome? "else\n" .unbounded = none := by
  decide

end Squirrel
