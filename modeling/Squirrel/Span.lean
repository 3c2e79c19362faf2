/-!
# Spans of source text

Offsets and lengths count the bytes of the text in UTF-8, so a character may be up to four apart from the next one.
-/

namespace Squirrel

/-- How many bytes a run of characters takes. -/
def byteLength : List Char → Nat
  | [] => 0
  | c :: rest => c.utf8Size + byteLength rest

@[simp] theorem byteLength_nil : byteLength [] = 0 := rfl

@[simp] theorem byteLength_cons (c : Char) (text : List Char) :
    byteLength (c :: text) = c.utf8Size + byteLength text := rfl

@[simp] theorem byteLength_append (left right : List Char) :
    byteLength (left ++ right) = byteLength left + byteLength right := by
  induction left with
  | nil => simp
  | cons c rest ih => simp only [List.cons_append, byteLength_cons, ih, Nat.add_assoc]

theorem byteLength_toList (text : String) : byteLength text.toList = text.utf8ByteSize := by
  have hofList (cs : List Char) : (String.ofList cs).utf8ByteSize = byteLength cs := by
    induction cs with
    | nil => simp
    | cons c cs ih => rw [String.ofList_cons]; simp [ih]
  rw [← hofList, String.ofList_toList]

/-- A piece of the source: where it starts and where what follows it starts. -/
structure Span where
  start : Nat
  stop : Nat
  deriving DecidableEq, Inhabited

namespace Span

def isEmpty (span : Span) : Bool := span.start == span.stop

def length (span : Span) : Nat := span.stop - span.start

end Span

end Squirrel
