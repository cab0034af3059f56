/- The value of a JSON text. -/
import SyntaxReport.Json.Lexer

namespace SyntaxReport.Json

/-- An array or object that waits for the value it goes on with. Earlier items and members
come latest first. -/
inductive Frame
  | items (earlier : List Json)
  | members (earlier : List (Option String × Json)) (key : Option String)

/-- What may come next, inside the frames around it. -/
inductive Awaiting
  | value (frames : List Frame)
  | itemOrClose (frames : List Frame)
  | keyOrClose (frames : List Frame)
  | key (earlier : List (Option String × Json)) (frames : List Frame)
  | colon (earlier : List (Option String × Json)) (key : Option String) (frames : List Frame)
  /-- A finished value: its frame goes on or closes. -/
  | rest (value : Json) (frames : List Frame)

namespace Awaiting

/-- The object with these members, latest first. A key that no string holds makes it foreign. -/
def objectOf (members : List (Option String × Json)) : Json :=
  match members.reverse.mapM fun (k, j) => k.map (·, j) with
  | some members => .obj members
  | none => .foreign

def start (frames : List Frame) : Token → Option Awaiting
  | .literal j => some (.rest j frames)
  | .text (some s) => some (.rest (.str s) frames)
  | .text none => some (.rest .foreign frames)
  | .openArray => some (.itemOrClose frames)
  | .openObject => some (.keyOrClose frames)
  | _ => none

def step (s : Awaiting) (t : Token) : Option Awaiting :=
  match s, t with
  | .value frames, t => start frames t
  | .itemOrClose frames, .closeArray => some (.rest (.arr []) frames)
  | .itemOrClose frames, t => start (.items [] :: frames) t
  | .keyOrClose frames, .closeObject => some (.rest (.obj []) frames)
  | .keyOrClose frames, .text k => some (.colon [] k frames)
  | .key earlier frames, .text k => some (.colon earlier k frames)
  | .colon earlier k frames, .colon => some (.value (.members earlier k :: frames))
  | .rest j (.items earlier :: frames), .comma => some (.value (.items (j :: earlier) :: frames))
  | .rest j (.items earlier :: frames), .closeArray =>
    some (.rest (.arr (j :: earlier).reverse) frames)
  | .rest j (.members earlier k :: frames), .comma => some (.key ((k, j) :: earlier) frames)
  | .rest j (.members earlier k :: frames), .closeObject =>
    some (.rest (objectOf ((k, j) :: earlier)) frames)
  | _, _ => none

def finish? : Awaiting → Option Json
  | .rest j [] => some j
  | _ => none

end Awaiting

/-- The value of a text that holds exactly one. -/
def parse? (text : String) : Option Json :=
  tokens? text.toList >>= (·.foldlM Awaiting.step (.value [])) >>= Awaiting.finish?

end SyntaxReport.Json
