/- A reporter that rejects faults gives the report of one that lists them, or the first fault. -/
import SyntaxReport.Proofs.Diagnostic.Walk
import SyntaxReport.Proofs.Report.Time

namespace SyntaxReport

namespace Node

theorem firstFault?_eq_none_iff {n : Node} : n.firstFault? = none ↔ n.containsFault = false := by
  rw [← head?_topmostFaults, List.head?_eq_none_iff, topmostFaults_eq_nil_iff]

end Node

namespace Diagnostic

/-- Wherever there is room for one, the first diagnostic is that of the first fault. -/
theorem head?_below {root : Node} (flagged : root.Flagged) (source : Bytes) {limit : Nat}
    (room : 1 ≤ limit) :
    (below source root limit).head? = root.firstFault?.map (ofFault source) := by
  rw [below_eq flagged, all, List.head?_take, if_neg (by omega), List.head?_map,
    Node.head?_topmostFaults]

end Diagnostic

namespace Options

/-- The same options, but a faulty source is an error. -/
def strict (o : Options) : Options := o.change (.rejectFaults true)

/-- The same options, but a faulty source is reported. -/
def lenient (o : Options) : Options := o.change (.rejectFaults false)

theorem rejection_of_head? {diagnostics : List Diagnostic} {d : Diagnostic} (path : String)
    (first : diagnostics.head? = some d) :
    rejection path diagnostics = .rejected path d.line d.column d.message := by
  cases diagnostics with
  | nil => cases first
  | cons e rest =>
    cases first
    rfl

theorem reportSource_lenient {o : Options} {e : Engine} {source : String} {tree : Node}
    (given : e.parse o.parser ⟨source, none⟩ = some tree) (path : String) :
    ∃ f, o.lenient.reportSource e source path = .ok f ∧
      f.hasFaults = tree.label.hasFault ∧
      f.diagnostics = Diagnostic.below (bytesOf source) tree o.maxDiagnostics := by
  have parsed : e.parse o.lenient.parser ⟨source, none⟩ = some tree := given
  rw [reportSource_of_some parsed]
  exact ⟨_, rfl, rfl, rfl⟩

theorem reportSource_strict_of_clear {o : Options} {e : Engine} {source : String} {tree : Node}
    (given : e.parse o.parser ⟨source, none⟩ = some tree) (clear : tree.label.hasFault = false)
    (path : String) :
    o.strict.reportSource e source path = o.lenient.reportSource e source path := by
  have strictly : e.parse o.strict.parser ⟨source, none⟩ = some tree := given
  have leniently : e.parse o.lenient.parser ⟨source, none⟩ = some tree := given
  rw [reportSource_of_some strictly, reportSource_of_some leniently, reportTree, reportTree, clear,
    Bool.and_false, Bool.and_false]
  rfl

theorem reportSource_strict_of_faulty {o : Options} {e : Engine} {source : String} {tree : Node}
    (given : e.parse o.parser ⟨source, none⟩ = some tree) (faulty : tree.label.hasFault = true)
    (path : String) :
    o.strict.reportSource e source path =
      .error (rejection path (Diagnostic.below (bytesOf source) tree o.maxDiagnostics)) := by
  have strictly : e.parse o.strict.parser ⟨source, none⟩ = some tree := given
  rw [reportSource_of_some strictly, reportTree, faulty]
  rfl

/-- The error for a faulty source: its first fault, or the very start of the source where no
diagnostic may be listed. -/
def rejectionAt (path : String) (source : Bytes) (fault : Node) (limit : Nat) : ReportError :=
  let d := Diagnostic.ofFault source fault
  if limit = 0 then .rejected path 1 1 "Syntax error"
  else .rejected path d.line d.column d.message

theorem rejection_below {tree fault : Node} (flagged : tree.Flagged)
    (first : tree.firstFault? = some fault) (path : String) (source : Bytes) (limit : Nat) :
    rejection path (Diagnostic.below source tree limit) =
      rejectionAt path source fault limit := by
  rw [rejectionAt]
  cases limit with
  | zero =>
    rw [Diagnostic.below_eq flagged, List.take_zero]
    rfl
  | succ limit =>
    have head := Diagnostic.head?_below flagged source (Nat.succ_pos limit)
    rw [first] at head
    exact rejection_of_head? path head

/-- A report that no fault kept back has nothing to list. -/
theorem diagnostics_of_strict {o : Options} {e : Engine} {source path : String} {f : FileReport}
    (flagged : ∀ tree, e.parse o.parser ⟨source, none⟩ = some tree → tree.Flagged)
    (success : o.strict.reportSource e source path = .ok f) : f.diagnostics = [] := by
  cases given : e.parse o.parser ⟨source, none⟩ with
  | none =>
    have gaveUp : e.parse o.strict.parser ⟨source, none⟩ = none := given
    rw [reportSource_of_none gaveUp] at success
    cases success
  | some tree =>
    cases faulty : tree.label.hasFault with
    | true =>
      rw [reportSource_strict_of_faulty given faulty] at success
      cases success
    | false =>
      obtain ⟨g, reported, _, diagnostics⟩ := reportSource_lenient given path
      rw [reportSource_strict_of_clear given faulty, reported] at success
      cases success
      have contains := (Node.flagged_iff.mp (flagged tree given)).1
      rw [diagnostics, Diagnostic.below_eq (flagged tree given), Diagnostic.all,
        Node.topmostFaults_eq_nil_iff.mpr (contains.symm.trans faulty), List.map_nil,
        List.take_nil]

theorem strict_of_faulty {o : Options} {e : Engine} {source : String} {tree : Node}
    (given : e.parse o.parser ⟨source, none⟩ = some tree) (flagged : tree.Flagged)
    (faulty : tree.label.hasFault = true) :
    ∃ fault, tree.firstFault? = some fault ∧ ∀ path limit,
      (o.strict.change (.maxDiagnostics limit)).reportSource e source path =
        .error (rejectionAt path (bytesOf source) fault limit) := by
  have contains : tree.containsFault ≠ false := by
    rw [← (Node.flagged_iff.mp flagged).1, faulty]
    exact Bool.noConfusion
  obtain ⟨fault, first⟩ :=
    Option.ne_none_iff_exists'.mp (Node.firstFault?_eq_none_iff.not.mpr contains)
  refine ⟨fault, first, fun path limit => ?_⟩
  rw [← rejection_below flagged first]
  have limited : e.parse (o.change (.maxDiagnostics limit)).parser ⟨source, none⟩ = some tree :=
    given
  exact reportSource_strict_of_faulty limited faulty path

/-- To reject faults is to refine the reports that list them. Both ways time out together, they
give the same report on a source without faults, and a source with faults is rejected for the
first of its diagnostics, which no limit but zero changes. How long a parse takes is all the same. -/
theorem strict_refines_lenient {o : Options} {e : Engine} {source : String}
    (flagged : ∀ tree, e.parse o.parser ⟨source, none⟩ = some tree → tree.Flagged)
    (elapsed : Parser → ParseRequest → Duration) (path : String) :
    (e.parse o.parser ⟨source, none⟩ = none →
      o.lenient.reportSource e source path = .error (.timedOut path) ∧
      o.strict.reportSource (e.timed elapsed) source path = .error (.timedOut path)) ∧
    (∀ tree, e.parse o.parser ⟨source, none⟩ = some tree →
      ∃ f, o.lenient.reportSource e source path = .ok f ∧ f.hasFaults = tree.containsFault ∧
        ((o.strict.reportSource (e.timed elapsed) source path).map FileReport.untimed =
          .ok f.untimed ↔ f.hasFaults = false) ∧
        (f.hasFaults = true → ∃ fault, tree.firstFault? = some fault ∧
          (1 ≤ o.maxDiagnostics →
            f.diagnostics.head? = some (.ofFault (bytesOf source) fault)) ∧
          ∀ limit,
            (o.strict.change (.maxDiagnostics limit)).reportSource (e.timed elapsed) source path =
              .error (rejectionAt path (bytesOf source) fault limit))) ∧
    ∀ g, o.strict.reportSource (e.timed elapsed) source path = .ok g → g.diagnostics = [] := by
  have retimed : ∀ tree, (e.timed elapsed).parse o.parser ⟨source, none⟩ = some tree →
      tree.Flagged := flagged
  refine ⟨fun gaveUp => ?_, fun tree given => ?_, fun g => diagnostics_of_strict retimed⟩
  · have leniently : e.parse o.lenient.parser ⟨source, none⟩ = none := gaveUp
    have strictly : (e.timed elapsed).parse o.strict.parser ⟨source, none⟩ = none := gaveUp
    exact ⟨reportSource_of_none leniently path, reportSource_of_none strictly path⟩
  · obtain ⟨f, reported, faults, diagnostics⟩ := reportSource_lenient given path
    refine ⟨f, reported, faults.trans (Node.flagged_iff.mp (flagged tree given)).1, ?_,
      fun faulty => ?_⟩
    · rw [reportSource_timed, faults]
      cases faulty : tree.label.hasFault with
      | false =>
        rw [reportSource_strict_of_clear given faulty, reported]
        exact iff_of_true rfl rfl
      | true =>
        rw [reportSource_strict_of_faulty given faulty]
        exact iff_of_false (fun same => by cases same) Bool.noConfusion
    · have again : (e.timed elapsed).parse o.parser ⟨source, none⟩ = some tree := given
      obtain ⟨fault, first, rejected⟩ :=
        strict_of_faulty again (flagged tree given) (faults.symm.trans faulty)
      refine ⟨fault, first, fun room => ?_, rejected path⟩
      rw [diagnostics, Diagnostic.head?_below (flagged tree given) _ room, first]
      rfl

/-- An engine that gives the same broken class for every source. -/
def brokenEngine : Engine where
  parse _ _ := some Diagnostic.brokenClass
  changes _ _ _ := []
  elapsed _ _ := .zero

def brokenText : String := "class \x7b ) x  !"

def bodyError : Node :=
  .mk ⟨"ERROR", true, true, false, true, none, 8, 9⟩ [
    .mk ⟨")", false, false, true, true, none, 9, 9⟩ []]

theorem firstFault?_brokenClass : Diagnostic.brokenClass.firstFault? = some bodyError := by
  rw [← Node.head?_topmostFaults]
  rfl

theorem rejectionAt_bodyError : rejectionAt "a.swift" (bytesOf brokenText) bodyError 100 =
    .rejected "a.swift" 1 9 "unexpected `)`" := by
  decide +kernel

/-- The error in the body comes before the one behind the class. -/
theorem brokenClass_rejected :
    (∀ tree, brokenEngine.parse standard.parser ⟨brokenText, none⟩ = some tree → tree.Flagged) ∧
      standard.strict.reportSource (brokenEngine.timed fun _ _ => .ofSeconds 1) brokenText
        "a.swift" = .error (.rejected "a.swift" 1 9 "unexpected `)`") := by
  have flagged : ∀ tree, brokenEngine.parse standard.parser ⟨brokenText, none⟩ = some tree →
      tree.Flagged := by
    intro tree given
    cases given
    simp [Diagnostic.brokenClass, Diagnostic.brokenBody, Node.Flagged, Node.FlaggedAll,
      Node.containsFaultAny, Node.containsFault, Label.isFault]
  obtain ⟨_, reports, _⟩ :=
    strict_refines_lenient flagged (fun _ _ => .ofSeconds 1) "a.swift"
  obtain ⟨f, _, faults, _, rejects⟩ := reports Diagnostic.brokenClass rfl
  obtain ⟨fault, first, _, rejected⟩ := rejects (faults.trans rfl)
  rw [firstFault?_brokenClass] at first
  cases first
  rw [← rejectionAt_bodyError]
  exact ⟨flagged, rejected 100⟩

end Options
end SyntaxReport
