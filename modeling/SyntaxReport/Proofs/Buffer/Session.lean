/- What a step of a session can come to, and what a session keeps. -/
import SyntaxReport.Buffer.Run
import SyntaxReport.Proofs.Text.Cut

namespace SyntaxReport.Buffer

/-- What a step has the engine parse, if it gets that far. -/
def request? (b : Buffer) : Step → Option ParseRequest
  | .splice start oldEnd added =>
    (Text.Cut.at? b.source.toList start oldEnd).map fun cut =>
      ⟨String.ofList (cut.fill added.toList), some (b.tree, TextEdit.ofCut cut added.toList)⟩
  | .replaceAll source => some ⟨source, none⟩
  | _ => none

def Step.timeout? : Step → Option (Option Duration)
  | .limitTime timeout => some timeout
  | _ => none

/-- What is said of a parse that was given up without a limit. -/
def Step.complaint : Step → String
  | .splice .. => "Failed to reparse"
  | _ => "Failed to parse"

def Answer.error? : Answer → Option ReportError
  | .spliced (.error error) _ _ => some error
  | .replaced (.error error) _ _ => some error
  | _ => none

/-- Everything that a step can come to. -/
inductive Outcome (b : Buffer) (e : Engine) (s : Step) : Prop
  | parsed (r : ParseRequest) (tree : Node) (asked : b.request? s = some r)
      (given : e.parse b.parser r = some tree) (passed : (b.step e s).1.error? = none)
      (after : (b.step e s).2 = { b with source := r.source, tree, parser := b.parser.reset })
  | gaveUp (r : ParseRequest) (asked : b.request? s = some r)
      (given : e.parse b.parser r = none)
      (failed : (b.step e s).1.error? = some (b.gaveUp s.complaint))
      (after : (b.step e s).2 = { b with parser := b.parser.reset })
  | refused (start oldEnd : Nat) (added : String) (asked : s = .splice start oldEnd added)
      (unfit : ¬ Text.Replaceable b.source.toList start oldEnd)
      (failed : (b.step e s).1.error? =
        some (.invalidEdit start oldEnd (Text.width b.source.toList)))
      (after : (b.step e s).2 = b)
  | unparsed (asked : b.request? s = none) (passed : (b.step e s).1.error? = none)
      (after : (b.step e s).2 = s.timeout?.elim b b.limitTime)

theorem reparse_of_some {b : Buffer} {e : Engine} {r : ParseRequest} {tree : Node}
    (given : e.parse b.parser r = some tree) :
    b.reparse e r.source r.earlier =
      (some tree, { b with source := r.source, tree, parser := b.parser.reset }) := by
  simp only [reparse, Parser.parse, given]

theorem reparse_of_none {b : Buffer} {e : Engine} {r : ParseRequest}
    (given : e.parse b.parser r = none) :
    b.reparse e r.source r.earlier = (none, { b with parser := b.parser.reset }) := by
  simp only [reparse, Parser.parse, given]
  rfl

theorem splice_of_unfit {b : Buffer} {start oldEnd : Nat}
    (unfit : ¬ Text.Replaceable b.source.toList start oldEnd) (e : Engine) (added : String) :
    b.splice e start oldEnd added =
      (.error (.invalidEdit start oldEnd (Text.width b.source.toList)), b) := by
  rw [splice, Text.Cut.at?_eq_none_iff.mpr unfit]

/-- The one request of a splice, and what comes of the engine's answer to it. -/
theorem splice_of_cut {b : Buffer} {start oldEnd : Nat} {cut : Text.Cut}
    (found : Text.Cut.at? b.source.toList start oldEnd = some cut) (e : Engine)
    (added : String) :
    b.splice e start oldEnd added =
      (e.parse b.parser ⟨String.ofList (cut.fill added.toList),
          some (b.tree, .ofCut cut added.toList)⟩).elim
        (.error (b.gaveUp "Failed to reparse"), { b with parser := b.parser.reset })
        fun tree =>
          (.ok ((e.changes b.tree (.ofCut cut added.toList) tree).map ChangedPart.ofTreeRange),
            { b with
              source := String.ofList (cut.fill added.toList)
              tree
              parser := b.parser.reset }) := by
  cases given : e.parse b.parser ⟨String.ofList (cut.fill added.toList),
      some (b.tree, .ofCut cut added.toList)⟩ with
  | none =>
    have parse := reparse_of_none given
    simp only [splice, found, parse, Option.elim_none]
  | some tree =>
    have parse := reparse_of_some given
    simp only [splice, found, parse, Option.elim_some]

theorem outcome_splice (b : Buffer) (e : Engine) (start oldEnd : Nat) (added : String) :
    b.Outcome e (.splice start oldEnd added) := by
  cases found : Text.Cut.at? b.source.toList start oldEnd with
  | none =>
    have unfit := Text.Cut.at?_eq_none_iff.mp found
    have same := splice_of_unfit unfit e added
    refine .refused start oldEnd added rfl unfit ?_ ?_
    · rw [step, same]
      rfl
    · rw [step, same]
  | some cut =>
    have asked : b.request? (.splice start oldEnd added) = some
        ⟨String.ofList (cut.fill added.toList),
          some (b.tree, TextEdit.ofCut cut added.toList)⟩ := by
      rw [request?, found]
      rfl
    have same := splice_of_cut found e added
    cases given : e.parse b.parser ⟨String.ofList (cut.fill added.toList),
        some (b.tree, TextEdit.ofCut cut added.toList)⟩ with
    | none =>
      rw [given] at same
      refine .gaveUp _ asked given ?_ ?_
      · rw [step, same]
        rfl
      · rw [step, same]
        rfl
    | some tree =>
      rw [given] at same
      refine .parsed _ tree asked given ?_ ?_
      · rw [step, same]
        rfl
      · rw [step, same]
        rfl

theorem outcome_replaceAll (b : Buffer) (e : Engine) (source : String) :
    b.Outcome e (.replaceAll source) := by
  cases given : e.parse b.parser ⟨source, none⟩ with
  | none =>
    have parse := reparse_of_none given
    refine .gaveUp _ rfl given ?_ ?_
    · simp only [step, replaceAll, parse, Answer.error?, Step.complaint]
    · simp only [step, replaceAll, parse]
  | some tree =>
    have parse := reparse_of_some given
    refine .parsed _ tree rfl given ?_ ?_
    · simp only [step, replaceAll, parse, Answer.error?]
    · simp only [step, replaceAll, parse]

theorem outcome (b : Buffer) (e : Engine) (s : Step) : b.Outcome e s := by
  cases s with
  | splice start oldEnd added => exact outcome_splice b e start oldEnd added
  | replaceAll source => exact outcome_replaceAll b e source
  | limitTime timeout => exact .unparsed rfl rfl rfl
  | diagnostics limit => exact .unparsed rfl rfl rfl
  | outline docs => exact .unparsed rfl rfl rfl
  | path => exact .unparsed rfl rfl rfl

theorem timeout?_of_request {b : Buffer} {s : Step} {r : ParseRequest}
    (asked : b.request? s = some r) : s.timeout? = none := by
  cases s with
  | limitTime timeout => cases asked
  | _ => rfl

theorem request?_of_unfit {b : Buffer} {start oldEnd : Nat}
    (unfit : ¬ Text.Replaceable b.source.toList start oldEnd) (added : String) :
    b.request? (.splice start oldEnd added) = none := by
  rw [request?, Text.Cut.at?_eq_none_iff.mpr unfit]
  rfl

theorem error?_of_gaveUp {b : Buffer} {e : Engine} {s : Step} {r : ParseRequest}
    (asked : b.request? s = some r) (given : e.parse b.parser r = none) :
    (b.step e s).1.error? = some (b.gaveUp s.complaint) := by
  cases b.outcome e s with
  | parsed r' tree asked' given' passed after =>
    rw [asked] at asked'
    cases asked'
    rw [given] at given'
    cases given'
  | gaveUp r' asked' given' failed after => exact failed
  | refused start oldEnd added same unfit failed after =>
    rw [same, request?_of_unfit unfit] at asked
    cases asked
  | unparsed asked' passed after =>
    rw [asked] at asked'
    cases asked'

@[simp] theorem run_cons (b : Buffer) (e : Engine) (s : Step) (rest : List (Engine × Step)) :
    b.run ((e, s) :: rest) =
      ((b.step e s).1 :: ((b.step e s).2.run rest).1, ((b.step e s).2.run rest).2) := rfl

theorem ofSource_eq_ok_iff {e : Engine} {path source : String} {b : Buffer} :
    ofSource e path source = .ok b ↔
      ∃ tree, e.parse (.new 0) ⟨source, none⟩ = some tree ∧
        b = { path, source, tree, parser := .new 0 } := by
  unfold ofSource Parser.parse
  cases e.parse (.new 0) ⟨source, none⟩ with
  | none => simp
  | some tree =>
    simp only [Except.ok.injEq, Option.some.injEq, exists_eq_left']
    exact eq_comm

/-- The timeout set last, or the one that held before. -/
def lastTimeout (earlier : Option Duration) (steps : List Step) : Option Duration :=
  (steps.filterMap Step.timeout?).getLastD earlier

/-- What a session keeps of the way it went: its path, its timeout, and no parse to resume. -/
structure Settled (b : Buffer) (path : String) (timeout : Option Duration) : Prop where
  path : b.path = path
  parser : b.parser = .new (Parser.limitOf timeout)

theorem Settled.reset {b : Buffer} {path : String} {timeout : Option Duration}
    (settled : b.Settled path timeout) : b.parser.reset = b.parser := by
  rw [settled.parser]
  rfl

theorem Settled.step {b : Buffer} {path : String} {timeout : Option Duration}
    (settled : b.Settled path timeout) (e : Engine) (s : Step) :
    (b.step e s).2.Settled path (s.timeout?.getD timeout) := by
  cases b.outcome e s with
  | parsed r tree asked given passed after =>
    rw [after, timeout?_of_request asked]
    exact ⟨settled.path, settled.reset.trans settled.parser⟩
  | gaveUp r asked given failure after =>
    rw [after, timeout?_of_request asked]
    exact ⟨settled.path, settled.reset.trans settled.parser⟩
  | refused start oldEnd added asked unfit failure after =>
    rw [after, asked]
    exact settled
  | unparsed asked passed after =>
    rw [after]
    cases s.timeout? with
    | none => exact settled
    | some t =>
      refine ⟨settled.path, ?_⟩
      simp only [Option.elim_some, limitTime, settled.parser, Option.getD_some]
      rfl

theorem Settled.run {b : Buffer} {path : String} {timeout : Option Duration}
    (settled : b.Settled path timeout) (steps : List (Engine × Step)) :
    (b.run steps).2.Settled path (lastTimeout timeout (steps.map Prod.snd)) := by
  induction steps generalizing b timeout with
  | nil => exact settled
  | cons first rest ih =>
    obtain ⟨e, s⟩ := first
    have later := ih (settled.step e s)
    rw [run_cons, List.map_cons, lastTimeout, List.filterMap_cons]
    cases timed : s.timeout? with
    | none =>
      rw [timed] at later
      exact later
    | some t =>
      rw [timed] at later
      rw [List.getLastD_cons]
      exact later

theorem settled_ofSource {e : Engine} {path source : String} {b : Buffer}
    (opened : ofSource e path source = .ok b) : b.Settled path none := by
  obtain ⟨tree, _, rfl⟩ := ofSource_eq_ok_iff.mp opened
  exact ⟨rfl, rfl⟩

/-- The tree of a text that is empty or a single line comment. -/
def commentTree (source : String) : Node :=
  let whole := Text.width source.toList
  .mk ⟨"source_file", true, false, false, false, none, 0, whole⟩
    (if source.isEmpty then []
    else [.mk ⟨"comment", true, false, false, false, none, 0, whole⟩ []])

/-- An engine that resumes what was interrupted, and gives up over a long text within a
microsecond. -/
def hurried : Engine where
  parse p r :=
    let text := p.interrupted.getD r.source
    if p.limit = 1 ∧ 16 < text.length then none else some (commentTree text)
  changes _ _ _ := []
  elapsed _ _ := .zero

def blankBuffer : Buffer := ⟨"a.swift", "", commentTree "", .new 0⟩

/-- A session with a parse given up and a range past the end in front of the edit that counts. -/
def hurriedSession : List (Engine × Step) := [
  (hurried, .limitTime (some (.ofMicros 1))),
  (hurried, .splice 0 0 "f(0); f(1); f(2); f(3)"),
  (hurried, .limitTime none),
  (hurried, .splice 1 1 "x"),
  (hurried, .splice 0 0 "// a")]

def commentBuffer : Buffer := ⟨"a.swift", "// a", commentTree "// a", .new 0⟩

end SyntaxReport.Buffer
