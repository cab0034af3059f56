/- File systems, and what a path leads to in one. -/
import SyntaxReport.FileSystem.Directory
import SyntaxReport.FileSystem.Path

namespace SyntaxReport

/-- All directories, and the one among them that relative paths start from. -/
structure FileSystem where
  root : Directory
  start : Trail
  rooted : Rooted root start

namespace FileSystem

/-- A path has fewer bytes than this. -/
def pathLimit : Nat := 4096

/-- A name has at most so many bytes. -/
def nameLimit : Nat := 255

/-- One resolution follows at most so many links. -/
def linkLimit : Nat := 40

/-- The names that a path goes through, dots included. A slash at the end goes on to the place
itself, which then has to be a directory. -/
def steps (path : String) : List String :=
  let names := ((Path.segments path.toList).filter (!·.isEmpty)).map String.ofList
  if Path.endsWithSlash path then names ++ ["."] else names

/-- Where a path starts that is found at the end of a trail. -/
def origin (trail : Trail) (path : String) : Trail := if Path.isAbsolute path then [] else trail

/-- Follows names from the end of a trail. Nothing lies above the root. -/
def follow (root : Directory) (links : Nat) (trail : Trail) (names : List String) :
    Except ReadFailure Found :=
  match names with
  | [] => .ok (.directory (trail.here root))
  | name :: rest =>
    if name = "." then follow root links trail rest
    else if name = ".." then follow root links (trail.drop 1) rest
    else if nameLimit < name.utf8ByteSize then .error .nameTooLong
    else match (trail.here root).lookup? name with
      | none => .error .notFound
      | some (.sealed cause) => .error cause
      | some (.directory d) => follow root links ((name, d) :: trail) rest
      | some (.file content unread) =>
        if rest.isEmpty then .ok (.file content unread) else .error .notDirectory
      | some (.link target) =>
        match links with
        | 0 => .error .tooManyLinks
        | links + 1 => follow root links (origin trail target) (steps target ++ rest)
termination_by (links, names.length)

def resolve (fs : FileSystem) (path : String) : Except ReadFailure Found :=
  if path.toList.contains '\x00' then .error .nullInName
  else if path.isEmpty then .error .notFound
  else if pathLimit ≤ path.utf8ByteSize then .error .nameTooLong
  else follow fs.root linkLimit (origin fs.start path) (steps path)

def directory? (fs : FileSystem) (path : String) : Option Directory :=
  match fs.resolve path with
  | .ok (.directory d) => some d
  | _ => none

def isDirectory (fs : FileSystem) (path : String) : Bool := (fs.directory? path).isSome

end FileSystem
end SyntaxReport
