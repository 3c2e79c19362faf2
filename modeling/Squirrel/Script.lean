import Squirrel.Parse.Machine
import Squirrel.Position

/-!
# Scripts

A parsed script: its source, tree and diagnostics. Only an exceeded limit or a failed check leaves a source without one;
errors in the source end up in the diagnostics.
-/

namespace Squirrel

structure Script where
  source : String
  root : Tree
  diagnostics : List Diagnostic
  stepsTaken : Nat

namespace Script

def parse (source : String) (limits : Limits) : Except ParseError Script :=
  match parseTokens limits source.utf8ByteSize (Lexed.ofSource source) with
  | .error error => .error error
  | .ok parsed => .ok ⟨source, parsed.root, parsed.diagnostics, parsed.stepsTaken⟩

/-- A script is valid if no diagnostic is an error. -/
def isValid (script : Script) : Bool := !script.diagnostics.any Diagnostic.isError

def lineTable (script : Script) : LineTable := .ofText script.source

/-- What to say of a script that is not valid. -/
def failure? (script : Script) : Option String :=
  if script.isValid then none
  else
    let count := (script.diagnostics.filter Diagnostic.isError).length
    some ("script parsing failed with " ++ toString count ++ " errors")

end Script

end Squirrel
