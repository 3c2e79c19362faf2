import Squirrel.Diagnostic.Kind
import Squirrel.Kind
import Squirrel.Span

/-!
# Diagnostics

A diagnostic names a problem and the span it is shown at. It may carry a fix, spans elsewhere that explain it, hints,
and the tokens that would have been accepted. `hides` says when one diagnostic makes another redundant, and `filtered`
takes out of a list everything that a remaining diagnostic hides.
-/

namespace Squirrel

/-- A text to put in place of the diagnostic's span. -/
structure Fix where
  description : String
  replacement : String
  deriving DecidableEq

/-- A span elsewhere that explains a diagnostic. -/
structure Related where
  span : Span
  message : String
  deriving DecidableEq

structure Diagnostic where
  kind : DiagnosticKind
  span : Span
  message : String
  fix? : Option Fix
  related : List Related
  hints : List String
  expected : List Kind
  deriving DecidableEq

namespace Diagnostic

/-- A diagnostic with the message of its kind, completed by a detail if there is one, and the hint of its kind. -/
def report (kind : DiagnosticKind) (span : Span) (detail : Option String) : Diagnostic where
  kind
  span
  message := kind.message detail
  fix? := none
  related := []
  hints := kind.hint?.toList
  expected := []

def withRelated (diagnostic : Diagnostic) (related : Related) : Diagnostic :=
  { diagnostic with related := diagnostic.related ++ [related] }

def withFix (diagnostic : Diagnostic) (fix : Fix) : Diagnostic := { diagnostic with fix? := some fix }

def withHint (diagnostic : Diagnostic) (hint : String) : Diagnostic :=
  { diagnostic with hints := diagnostic.hints ++ [hint] }

def withExpected (diagnostic : Diagnostic) (kinds : List Kind) : Diagnostic :=
  { diagnostic with expected := diagnostic.expected ++ kinds }

def severity (diagnostic : Diagnostic) : Severity := diagnostic.kind.severity

def isError (diagnostic : Diagnostic) : Bool := diagnostic.severity == .error

def isWarning (diagnostic : Diagnostic) : Bool := diagnostic.severity == .warning

/-- The diagnostic on one line. -/
def display (diagnostic : Diagnostic) : String :=
  let range (span : Span) : String := toString span.start ++ ".." ++ toString span.stop
  let fix := match diagnostic.fix? with
    | some fix => " (fix: " ++ fix.description ++ ")"
    | none => ""
  let related := diagnostic.related.map fun entry =>
    " (related: " ++ entry.message ++ " at " ++ range entry.span ++ ")"
  let hints := diagnostic.hints.map fun hint => " (hint: " ++ hint ++ ")"
  diagnostic.severity.name ++ " at " ++ range diagnostic.span ++ ": " ++ diagnostic.message ++ fix ++
    String.join related ++ String.join hints

/-! ### Redundant diagnostics -/

/-- Whether the first diagnostic makes the second one redundant. Inside a wider span that starts earlier, the kind that
has priority wins. At the same start a missing construct also wins against an unclosed delimiter. -/
def hides (outer inner : Diagnostic) : Bool :=
  if outer.span.start < inner.span.start ∧ inner.span.stop ≤ outer.span.stop then outer.kind.suppresses inner.kind
  else if outer.span.start ≠ inner.span.start then false
  else (outer.kind.isRootCause && inner.kind.isStructural) || outer.kind.suppresses inner.kind

/-- Goes through the list once. Each diagnostic still there when its turn comes takes away all others that it hides,
those before it as well as those after it; one that is gone hides nothing any more. -/
def filterFrom (kept : List Diagnostic) : List Diagnostic → List Diagnostic
  | [] => kept
  | current :: rest =>
    filterFrom (kept.filter (!current.hides ·) ++ [current]) (rest.filter (!current.hides ·))
termination_by rest => rest.length
decreasing_by
  simp only [List.length_unattach, List.length_cons]
  exact Nat.lt_succ_of_le (Nat.le_trans (List.length_filter_le _ _) (by simp))

/-- The diagnostics without those that are noise. -/
def filtered (diagnostics : List Diagnostic) : List Diagnostic := filterFrom [] diagnostics

/-- In the order of their starts; those with the same start stay in the order of their reports. -/
def sorted (diagnostics : List Diagnostic) : List Diagnostic :=
  diagnostics.mergeSort fun left right => left.span.start ≤ right.span.start

end Diagnostic

end Squirrel
