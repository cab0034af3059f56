/- Documentation: the comments right above a declaration. -/
import SyntaxReport.Tree.Node
import SyntaxReport.Text.Blank
import SyntaxReport.Text.Line

namespace SyntaxReport.Documentation

/-- A node that ends on the row above `row` or below that. -/
def adjacent (source : Bytes) (row : Nat) (n : Node) : Bool :=
  row ≤ (n.endPosition source).row + 1

/-- The text of a line comment with three slashes, without the slashes in front. -/
def lineText? (source : Bytes) (n : Node) : Option (List Char) :=
  let text := n.text source
  if n.kind = "comment" ∧ ['/', '/', '/'].isPrefixOf text then
    some (Text.trim (text.dropWhile (· = '/')))
  else none

/-- The unbroken run of line comments right above `row`, from the nearest one up. The siblings
come nearest first. -/
def lineRun (source : Bytes) (row : Nat) : List Node → List (List Char)
  | [] => []
  | n :: elder =>
    if adjacent source row n then
      match lineText? source n with
      | some line => line :: lineRun source (n.startPosition source).row elder
      | none => []
    else []

def dropOpeners : List Char → List Char
  | '/' :: '*' :: '*' :: rest => dropOpeners rest
  | text => text

/-- A text, read from its end, without the block closers there. -/
def dropClosers : List Char → List Char
  | '/' :: '*' :: rest => dropClosers rest
  | text => text

/-- What a block comment holds between its delimiters. -/
def blockBody (text : List Char) : List Char := (dropClosers (dropOpeners text).reverse).reverse

def plainLine (line : List Char) : List Char :=
  Text.trim ((Text.trim line).dropWhile (· = '*'))

def blockLines (text : List Char) : List (List Char) :=
  ((Text.lines (blockBody text)).map plainLine).filter (!·.isEmpty)

def blockText? (source : Bytes) (row : Nat) (elder : List Node) : Option (List Char) :=
  match elder with
  | [] => none
  | n :: _ =>
    let text := n.text source
    if adjacent source row n ∧ n.kind = "multiline_comment" ∧
        ['/', '*', '*'].isPrefixOf text then
      match blockLines text with
      | [] => none
      | lines => some (Text.joinLines lines)
    else none

/-- The documentation of a declaration that starts on `row`: its line comments, or else its
block comment. -/
def above? (source : Bytes) (row : Nat) (elder : List Node) : Option String :=
  match lineRun source row elder with
  | [] => (blockText? source row elder).map String.ofList
  | run => some (String.ofList (Text.joinLines run.reverse))

end SyntaxReport.Documentation
