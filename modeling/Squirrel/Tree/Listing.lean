import Squirrel.Text.Quoted
import Squirrel.Tree

/-!
# Listings of trees

One line for every node and token, indented by its depth. A token's line ends with its quoted text, so that a listing
with trivia tells everything about a tree.
-/

namespace Squirrel

structure ListingOptions where
  /-- Whether blanks and comments are listed. -/
  trivia : Bool
  /-- Whether each line shows the offsets that its tree covers. -/
  spans : Bool

namespace Listing

def indent (depth : Nat) : String := String.ofList (List.replicate (2 * depth) ' ')

/-- The offsets that a tree covers, if they are asked for. -/
def span (shown : Bool) (start width : Nat) : String :=
  if shown then " [" ++ toString start ++ ".." ++ toString (start + width) ++ "]" else ""

def join (lines : List String) : String := String.join (lines.map (· ++ "\n"))

end Listing

namespace Tree

mutual

def listingFrom (options : ListingOptions) (depth start : Nat) : Tree → List String
  | token leaf =>
    if options.trivia || !leaf.kind.isTrivia then
      [Listing.indent depth ++ leaf.kind.name ++ Listing.span options.spans start leaf.text.utf8ByteSize ++ " " ++
        Text.quote leaf.text]
    else []
  | node kind children =>
    (Listing.indent depth ++ kind.name ++ Listing.span options.spans start (widthOf children)) ::
      listingUnder options (depth + 1) start children

def listingUnder (options : ListingOptions) (depth start : Nat) : List Tree → List String
  | [] => []
  | tree :: rest => listingFrom options depth start tree ++ listingUnder options depth (start + tree.width) rest

end

def listing (options : ListingOptions) (tree : Tree) : String := Listing.join (tree.listingFrom options 0 0)

end Tree

end Squirrel
