/- The paths of the files below a directory. -/
import SyntaxReport.FileSystem.Basic

namespace SyntaxReport.FileSystem

/-- The paths below `path` that lead to no directory and that `keep` takes, through at most so
many levels. The first directory on the way that cannot be read ends the walk. -/
def walk (fs : FileSystem) (keep : String → Bool) :
    Nat → String → Except (String × ReadFailure) (List String)
  | 0, _ => .ok []
  | levels + 1, path =>
    match fs.directory? path with
    | none => .ok []
    | some d =>
      match d.unread with
      | some cause => .error (path, cause)
      | none =>
        (d.names.mapM fun name =>
          let inner := Path.join path name
          if fs.isDirectory inner then walk fs keep levels inner
          else .ok (if keep inner then [inner] else [])).map List.flatten

/-- The paths below a directory that `keep` takes, in order. Every level makes a path longer, so
the limit on paths bounds the levels too, also where links lead back up. -/
def listing (fs : FileSystem) (keep : String → Bool) (path : String) :
    Except (String × ReadFailure) (List String) :=
  (fs.walk keep pathLimit path).map (·.mergeSort Path.le)

end SyntaxReport.FileSystem
