/- Paths: their parts, their order, and the names they end in. -/
import SyntaxReport.Text.Utf8

namespace SyntaxReport.Path

/-- The texts between slashes, empty ones included. -/
def segments : List Char → List (List Char)
  | [] => [[]]
  | '/' :: rest => [] :: segments rest
  | c :: rest =>
    match segments rest with
    | [] => [[c]]
    | s :: more => (c :: s) :: more

def isAbsolute (path : String) : Bool := path.toList.head? = some '/'

def endsWithSlash (path : String) : Bool := path.toList.getLast? = some '/'

inductive Component
  | root
  | current
  | parent
  | name (text : String)
deriving DecidableEq, Repr

namespace Component

def rank : Component → Nat
  | .root => 0
  | .current => 1
  | .parent => 2
  | .name _ => 3

def le (a b : Component) : Bool :=
  match a, b with
  | .name s, .name t => s ≤ t
  | a, b => a.rank ≤ b.rank

def ofSegment (segment : List Char) : Component :=
  if segment = ['.'] then .current
  else if segment = ['.', '.'] then .parent
  else .name (String.ofList segment)

end Component

/-- The parts of a path. A dot counts only at the start of a relative path, and a slash at the
end not at all. -/
def components (path : String) : List Component :=
  let parts := ((segments path.toList).filter (!·.isEmpty)).map Component.ofSegment
  if isAbsolute path then .root :: parts.filter (· ≠ .current)
  else match parts with
    | .current :: rest => .current :: rest.filter (· ≠ .current)
    | parts => parts.filter (· ≠ .current)

/-- Part by part, a path before those that go on from it. -/
def componentsLe : List Component → List Component → Bool
  | [], _ => true
  | _ :: _, [] => false
  | a :: as, b :: bs => if a = b then componentsLe as bs else a.le b

def le (a b : String) : Bool := componentsLe (components a) (components b)

def fileName? (path : String) : Option String :=
  match (components path).getLast? with
  | some (.name text) => some text
  | _ => none

/-- A name with something in front of the extension. Extensions start with their dot. -/
def hasExtension (name : String) (extension : String) : Bool :=
  extension.toList.isSuffixOf name.toList && extension.toList.length < name.toList.length

def join (path name : String) : String :=
  if path.isEmpty || endsWithSlash path then path ++ name else path ++ "/" ++ name

end SyntaxReport.Path
