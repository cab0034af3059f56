/- Batches shared among workers, whose acts come in any order. -/
import SyntaxReport.Report.Attempt

namespace SyntaxReport

/-- A batch under way. Every file has its place in the batch from zero. -/
structure Pool where
  /-- The files that no worker has taken. -/
  waiting : List (Nat × String)
  /-- The attempts that a worker has made and not yet counted. -/
  held : List (Nat × Attempt)
  /-- The counted attempts at their places. -/
  finished : List (Option Attempt)
  /-- The counts that all workers share. -/
  tally : Tally

namespace Pool

def start (paths : List String) (tally : Tally) : Pool where
  waiting := (List.range paths.length).zip paths
  held := []
  finished := paths.map fun _ => none
  tally

/-- A free worker takes the waiting file at `i` and makes the attempt on it. -/
def take (w : Workspace) (o : Options) (p : Pool) (i : Nat) : Pool :=
  match p.waiting[i]? with
  | none => p
  | some (place, path) =>
    { p with
      waiting := p.waiting.eraseIdx i
      held := p.held ++ [(place, Attempt.ofPath w o path)] }

/-- The worker that holds the attempt at `i` counts it, which no other worker can interrupt, and
puts it in its place. -/
def finish (p : Pool) (i : Nat) : Pool :=
  match p.held[i]? with
  | none => p
  | some (place, a) =>
    { p with
      held := p.held.eraseIdx i
      finished := p.finished.set place (some a)
      tally := p.tally + a.tally }

/-- The number of files that could be taken next. With no worker free it is zero. -/
def takeable (workers : Nat) (p : Pool) : Nat :=
  if p.held.length < workers then p.waiting.length else 0

/-- One act of one worker: `pick` says which of those that are possible. -/
def act (w : Workspace) (o : Options) (workers : Nat) (p : Pool) (pick : Nat) : Pool :=
  let takeable := p.takeable workers
  let chosen := pick % (takeable + p.held.length)
  if chosen < takeable then p.take w o chosen else p.finish (chosen - takeable)

def run (w : Workspace) (o : Options) (workers : Nat) (picks : Nat → Nat) : Nat → Pool → Pool
  | 0, p => p
  | n + 1, p => (p.act w o workers (picks n)).run w o workers picks n

/-- Every file of a batch, taken and finished in the order of `picks`. -/
def complete (w : Workspace) (o : Options) (workers : Nat) (picks : Nat → Nat)
    (paths : List String) (tally : Tally) : Pool :=
  (start paths tally).run w o workers picks (2 * paths.length)

def attempts (p : Pool) : List Attempt := p.finished.filterMap id

end Pool
end SyntaxReport
