/- Cutting a text at byte offsets, and putting new text into the gap. -/
import SyntaxReport.Text.Utf8

namespace SyntaxReport.Text

/-- The number of bytes that store a text. -/
def width : List Char → Nat
  | [] => 0
  | c :: rest => c.utf8Size + width rest

/-- The text before and behind a byte offset. An offset inside a character or past the end
has none. -/
def splitAt? : Nat → List Char → Option (List Char × List Char)
  | 0, text => some ([], text)
  | _ + 1, [] => none
  | n + 1, c :: text =>
    if c.utf8Size ≤ n + 1 then
      (splitAt? (n + 1 - c.utf8Size) text).map fun (before, behind) => (c :: before, behind)
    else none

/-- An offset between two characters, or at either end. -/
def IsBoundary (text : List Char) (offset : Nat) : Prop :=
  ∃ before behind, text = before ++ behind ∧ width before = offset

/-- A text cut into what stands before, in and behind a byte range. -/
structure Cut where
  before : List Char
  removed : List Char
  behind : List Char
deriving DecidableEq, Repr

namespace Cut

/-- The cut at `start` and `stop`, which have to be boundaries in this order. -/
def at? (text : List Char) (start stop : Nat) : Option Cut :=
  if start ≤ stop then do
    let (before, rest) ← splitAt? start text
    let (removed, behind) ← splitAt? (stop - start) rest
    some ⟨before, removed, behind⟩
  else none

/-- The text with `added` in place of the removed part. -/
def fill (cut : Cut) (added : List Char) : List Char := cut.before ++ added ++ cut.behind

end Cut
end SyntaxReport.Text
