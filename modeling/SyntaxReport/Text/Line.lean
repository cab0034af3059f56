/- Lines of a text. -/
namespace SyntaxReport.Text

/-- A line feed ends a line, together with one carriage return right before it.
What follows the last line feed is a line too, unless it is empty. -/
def lines : List Char → List (List Char)
  | [] => []
  | '\n' :: rest => [] :: lines rest
  | '\r' :: '\n' :: rest => [] :: lines rest
  | c :: rest =>
    match lines rest with
    | [] => [[c]]
    | line :: more => (c :: line) :: more

def lineCount (text : List Char) : Nat := (lines text).length

def joinLines (parts : List (List Char)) : List Char := List.intercalate ['\n'] parts

end SyntaxReport.Text
