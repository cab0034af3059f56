/- Directories of files and links, and the trails of those below a root. -/
import SyntaxReport.FileSystem.Failure
import SyntaxReport.Text.Utf8

namespace SyntaxReport

mutual

/-- What a name in a directory stands for. -/
inductive FileEntry
  /-- A file, and why its content cannot be read if it cannot. -/
  | file (content : Bytes) (unread : Option ReadFailure)
  | link (target : String)
  | directory (inner : Directory)
  /-- Something of which nothing can be learnt, not even what it is. -/
  | sealed (cause : ReadFailure)

structure Directory where
  /-- What the directory itself counts with. In bytes. -/
  size : Nat
  /-- Why its names cannot be read, if they cannot. -/
  unread : Option ReadFailure
  entries : List (String × FileEntry)

end

namespace Directory

def names (d : Directory) : List String := d.entries.map Prod.fst

def lookup? (d : Directory) (name : String) : Option FileEntry :=
  (d.entries.find? (·.1 = name)).map Prod.snd

end Directory

/-- A directory and those around it up to the root, nearest first, each with the name that it
bears in the next one. The root bears none and is left out. -/
abbrev Trail := List (String × Directory)

/-- The directory at the end of a trail. -/
def Trail.here (root : Directory) : Trail → Directory
  | [] => root
  | (_, d) :: _ => d

/-- The trails of the directories from the root on. -/
inductive Rooted (root : Directory) : Trail → Prop
  | root : Rooted root []
  | inside {trail : Trail} {name : String} {d : Directory} (around : Rooted root trail)
      (entry : (trail.here root).lookup? name = some (.directory d)) :
      Rooted root ((name, d) :: trail)

/-- What a path leads to once its links are followed. -/
inductive Found
  | file (content : Bytes) (unread : Option ReadFailure)
  | directory (inner : Directory)

namespace Found

def size : Found → Nat
  | .file content _ => content.length
  | .directory d => d.size

/-- The text of a file. A directory that could be read is still none. -/
def text : Found → Except ReadFailure (List Char)
  | .directory d => .error (d.unread.getD .isDirectory)
  | .file _ (some cause) => .error cause
  | .file content none =>
    match Utf8.decode? content with
    | some text => .ok text
    | none => .error .notText

end Found
end SyntaxReport
