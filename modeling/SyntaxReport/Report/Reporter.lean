/- Reporters: options in use, with a tally of the files that they were used on. -/
import SyntaxReport.FileSystem.Listing
import SyntaxReport.Language.Linked
import SyntaxReport.Report.Batch
import SyntaxReport.Report.Workers

namespace SyntaxReport

structure Reporter where
  language : Language
  options : Options
  tally : Tally

/-- How the workers of a batch come to be and to act. -/
structure Schedule where
  /-- Why the workers asked for cannot be had, if they cannot. -/
  refusal : Option Nat → Option String
  /-- The number of workers where none is asked for, less one. -/
  spare : Nat
  /-- Which of the possible acts comes next. -/
  picks : Nat → Nat

namespace Reporter

def ofOptions (language : Option Language) (options : Options) : Except ReportError Reporter :=
  match Language.admit language with
  | .ok language => .ok ⟨language, options, .zero⟩
  | .error cause => .error (.language cause)

def accepts (r : Reporter) (path : String) : Bool :=
  (Path.fileName? path).any fun name => r.language.fileExtensions.any (Path.hasExtension name)

def attempt (r : Reporter) (w : Workspace) (path : String) : Attempt × Reporter :=
  let attempt := Attempt.ofPath w r.options path
  (attempt, { r with tally := r.tally + attempt.tally })

def reportFile (r : Reporter) (w : Workspace) (path : String) :
    Except ReportError FileReport × Reporter :=
  let (attempt, after) := r.attempt w path
  (attempt.result, after)

/-- The number of workers of a batch. None asked for, and zero of them, leave the choice open. -/
def workers (r : Reporter) (s : Schedule) : Nat :=
  match r.options.workers with
  | some (n + 1) => n + 1
  | _ => s.spare + 1

def attemptEach (r : Reporter) (w : Workspace) : List String → List Attempt × Reporter
  | [] => ([], r)
  | path :: rest =>
    let (attempt, next) := r.attempt w path
    let (later, after) := next.attemptEach w rest
    (attempt :: later, after)

/-- The attempts on many files, shared among workers if the options say so. Without the workers
there are none. -/
def attemptAll (r : Reporter) (w : Workspace) (s : Schedule) (paths : List String) :
    Except ReportError (List Attempt) × Reporter :=
  if r.options.parallel then
    match s.refusal r.options.workers with
    | some reason => (.error (.noWorkers reason), r)
    | none =>
      let pool := Pool.complete w r.options (r.workers s) s.picks paths r.tally
      (.ok pool.attempts, { r with tally := pool.tally })
  else
    let (attempts, after) := r.attemptEach w paths
    (.ok attempts, after)

def reportBatch (r : Reporter) (w : Workspace) (s : Schedule) (paths : List String) :
    Except ReportError BatchReport × Reporter :=
  let (attempts, after) := r.attemptAll w s paths
  (attempts.map fun attempts => .ofOutcomes (attempts.map Attempt.outcome), after)

def pathsBelow (r : Reporter) (w : Workspace) (path : String) :
    Except ReportError (List String) :=
  match w.files.listing r.accepts path with
  | .error (unread, cause) => .error (.unreadable unread cause)
  | .ok paths => .ok paths

def reportBelow (r : Reporter) (w : Workspace) (s : Schedule) (path : String) :
    Except ReportError BatchReport × Reporter :=
  match r.pathsBelow w path with
  | .error error => (.error error, r)
  | .ok paths => r.reportBatch w s paths

inductive Step
  | language
  | fileExtensions
  | options
  | accepts (path : String)
  | source (text path : String)
  | file (path : String)
  | batch (paths : List String)
  | below (path : String)
  | pathsBelow (path : String)
  | tally
  | resetTally
deriving DecidableEq, Repr

inductive Answer
  | language (name : String)
  | fileExtensions (names : List String)
  | options (inUse : Options)
  | accepts (verdict : Bool)
  | file (result : Except ReportError FileReport)
  | batch (result : Except ReportError BatchReport)
  | paths (found : Except ReportError (List String))
  | tally (counted : Tally)
  | done

def step (r : Reporter) (w : Workspace) (s : Schedule) : Step → Answer × Reporter
  | .language => (.language r.language.name, r)
  | .fileExtensions => (.fileExtensions r.language.fileExtensions, r)
  | .options => (.options r.options, r)
  | .accepts path => (.accepts (r.accepts path), r)
  | .source text path => (.file (r.options.reportSource w.engine text path), r)
  | .file path =>
    let (result, after) := r.reportFile w path
    (.file result, after)
  | .batch paths =>
    let (result, after) := r.reportBatch w s paths
    (.batch result, after)
  | .below path =>
    let (result, after) := r.reportBelow w s path
    (.batch result, after)
  | .pathsBelow path => (.paths (r.pathsBelow w path), r)
  | .tally => (.tally r.tally, r)
  | .resetTally => (.done, { r with tally := .zero })

/-- The answers to steps one after another, and the reporter behind them. -/
def run (r : Reporter) (w : Workspace) (s : Schedule) : List Step → List Answer × Reporter
  | [] => ([], r)
  | next :: rest =>
    let (answer, after) := r.step w s next
    let (answers, last) := after.run w s rest
    (answer :: answers, last)

end Reporter
end SyntaxReport
