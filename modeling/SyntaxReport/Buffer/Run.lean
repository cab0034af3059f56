/- Editing sessions: steps on a buffer, and what each of them answers. -/
import SyntaxReport.Buffer.Basic

namespace SyntaxReport.Buffer

inductive Step
  | splice (start oldEnd : Nat) (added : String)
  | replaceAll (source : String)
  | limitTime (timeout : Option Duration)
  | diagnostics (limit : Nat)
  | outline (docs : Bool)
  | path
deriving DecidableEq, Repr

/-- The answer to a step. After a change it shows the buffer as it then is. -/
inductive Answer
  | spliced (result : Except ReportError (List ChangedPart)) (source : String)
      (hasFaults : Bool)
  | replaced (result : Except ReportError Unit) (source : String) (hasFaults : Bool)
  | done
  | diagnostics (found : List Diagnostic)
  | outline (built : Outline)
  | path (text : String)

/-- One step. The engine may answer differently from step to step. -/
def step (b : Buffer) (e : Engine) : Step → Answer × Buffer
  | .splice start oldEnd added =>
    let (result, after) := b.splice e start oldEnd added
    (.spliced result after.source after.hasFaults, after)
  | .replaceAll source =>
    let (result, after) := b.replaceAll e source
    (.replaced result after.source after.hasFaults, after)
  | .limitTime timeout => (.done, b.limitTime timeout)
  | .diagnostics limit => (.diagnostics (b.diagnostics limit), b)
  | .outline docs => (.outline (b.outline docs), b)
  | .path => (.path b.path, b)

def run (b : Buffer) : List (Engine × Step) → List Answer × Buffer
  | [] => ([], b)
  | (e, s) :: rest =>
    let (answer, after) := b.step e s
    let (answers, last) := after.run rest
    (answer :: answers, last)

end SyntaxReport.Buffer
