/- Why there is no report. -/
import SyntaxReport.FileSystem.Failure
import SyntaxReport.Language.Error

namespace SyntaxReport

inductive ReportError
  | unreadable (path : String) (cause : ReadFailure)
  /-- A faulty source, where faults are to be rejected. -/
  | rejected (path : String) (line column : Nat) (message : String)
  | tooLarge (path : String) (size : Nat)
  | timedOut (path : String)
  /-- An edit whose range does not fit a source of `length` bytes. -/
  | invalidEdit (start stop length : Nat)
  | language (cause : LanguageError)
  | noWorkers (reason : String)
  | unparsed (path : String) (reason : String)
deriving DecidableEq, Repr

def ReportError.message : ReportError → String
  | .unreadable path cause => "IO error reading " ++ path ++ ": " ++ cause.message
  | .rejected path line column message =>
    "Syntax error in " ++ path ++ ":" ++ toString line ++ ":" ++ toString column ++ ": " ++ message
  | .tooLarge path size =>
    "File " ++ path ++ " exceeds maximum size (" ++ toString size ++ " bytes)"
  | .timedOut path => "Parsing " ++ path ++ " exceeded timeout"
  | .invalidEdit start stop length =>
    "Invalid edit " ++ toString start ++ ".." ++ toString stop ++ " for document of " ++
      toString length ++ " bytes"
  | .language cause => cause.message
  | .noWorkers reason => "Failed to create thread pool: " ++ reason
  | .unparsed path reason => "Parse error in " ++ path ++ ": " ++ reason

end SyntaxReport
