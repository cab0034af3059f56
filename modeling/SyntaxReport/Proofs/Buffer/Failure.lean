/- Steps that fail leave no trace in a session, and their errors say why they failed. -/
import SyntaxReport.Proofs.Buffer.Session

namespace SyntaxReport.Buffer

theorem limitOf_pos_iff {timeout : Option Duration} :
    0 < Parser.limitOf timeout ↔ 1 ≤ timeout.elim 0 Duration.micros := by
  cases timeout with
  | none => simp [Parser.limitOf]
  | some d =>
    change 0 < min d.micros (Form.wordBound - 1) ↔ 0 < d.micros
    exact Nat.lt_min.trans (and_iff_left (by decide))

theorem Settled.gaveUp {b : Buffer} {path : String} {timeout : Option Duration}
    (settled : b.Settled path timeout) (reason : String) :
    b.gaveUp reason =
      if 1 ≤ timeout.elim 0 Duration.micros then .timedOut path else .unparsed path reason := by
  unfold Buffer.gaveUp
  rw [settled.path, settled.parser]
  simp only [Parser.new, limitOf_pos_iff]

/-- A step fails over a range that does not fit, or because the engine gives up. -/
theorem unfit_or_gaveUp {b : Buffer} {e : Engine} {s : Step}
    (failed : (b.step e s).1.error?.isSome) :
    (∃ start oldEnd added, s = .splice start oldEnd added ∧
        ¬ Text.Replaceable b.source.toList start oldEnd) ∧ (b.step e s).2 = b ∨
      (∃ r, b.request? s = some r ∧ e.parse b.parser r = none) ∧
        (b.step e s).2 = { b with parser := b.parser.reset } := by
  cases b.outcome e s with
  | parsed r tree asked given passed after =>
    rw [passed] at failed
    cases failed
  | gaveUp r asked given failure after => exact .inr ⟨⟨r, asked, given⟩, after⟩
  | refused start oldEnd added asked unfit failure after =>
    exact .inl ⟨⟨start, oldEnd, added, asked, unfit⟩, after⟩
  | unparsed asked passed after =>
    rw [passed] at failed
    cases failed

/-- A step that fails leaves a buffer with nothing to resume exactly as it was. -/
theorem Settled.after_failure {b : Buffer} {path : String} {timeout : Option Duration}
    (settled : b.Settled path timeout) {e : Engine} {s : Step}
    (failed : (b.step e s).1.error?.isSome) : (b.step e s).2 = b := by
  rcases unfit_or_gaveUp failed with ⟨_, after⟩ | ⟨_, after⟩
  · exact after
  · rw [after, settled.reset]

/-- The steps of a session that did not fail. -/
def passing (steps : List (Engine × Step)) (answers : List Answer) : List (Engine × Step) :=
  ((steps.zip answers).filter (·.2.error?.isNone)).map Prod.fst

/-- Without its failing steps a session gives the other answers alone, and the same buffer. -/
theorem Settled.run_passing {b : Buffer} {path : String} {timeout : Option Duration}
    (settled : b.Settled path timeout) (steps : List (Engine × Step)) :
    b.run (passing steps (b.run steps).1) =
      ((b.run steps).1.filter (·.error?.isNone), (b.run steps).2) := by
  induction steps generalizing b timeout with
  | nil => rfl
  | cons first rest ih =>
    obtain ⟨e, s⟩ := first
    have later := ih (settled.step e s)
    rw [run_cons]
    cases failed : (b.step e s).1.error? with
    | none =>
      simp only [passing, List.zip_cons_cons, List.filter_cons, failed, Option.isNone_none,
        if_true, List.map_cons, run_cons]
      rw [passing] at later
      rw [later]
    | some error =>
      -- the steps that follow start from the same buffer, with the same parser
      have same := settled.after_failure (Option.isSome_of_eq_some failed)
      simp only [passing, List.zip_cons_cons, List.filter_cons, failed, Option.isNone_some,
        Bool.false_eq_true, if_false]
      rw [same] at later ⊢
      exact later

/-- A session can drop its failing steps without a change to any other answer. A failing step
leaves the buffer as it was. It fails over a range that does not fit, whatever the engine, or
because the engine gives up, and then for the limit in force if there is one. -/
theorem failures_leave_no_trace {first : Engine} {path source : String} {b now : Buffer}
    {steps : List (Engine × Step)} {answers : List Answer}
    (opened : ofSource first path source = .ok b) (ran : b.run steps = (answers, now)) :
    b.run (passing steps answers) = (answers.filter (·.error?.isNone), now) ∧
      (∀ e s, (now.step e s).1.error?.isSome → (now.step e s).2 = now) ∧
      (∀ e start oldEnd added, ¬ Text.Replaceable now.source.toList start oldEnd →
        now.step e (.splice start oldEnd added) =
          (.spliced (.error (.invalidEdit start oldEnd (Text.width now.source.toList)))
            now.source now.hasFaults, now)) ∧
      (∀ e s r, now.request? s = some r → e.parse now.parser r = none →
        (now.step e s).1.error? =
          some (if 1 ≤ (lastTimeout none (steps.map Prod.snd)).elim 0 Duration.micros then
            .timedOut path else .unparsed path s.complaint)) ∧
      ∀ e s, (now.step e s).1.error?.isSome →
        (∃ start oldEnd added, s = .splice start oldEnd added ∧
          ¬ Text.Replaceable now.source.toList start oldEnd) ∨
        ∃ r, now.request? s = some r ∧ e.parse now.parser r = none := by
  have start := settled_ofSource opened
  have settled : now.Settled path (lastTimeout none (steps.map Prod.snd)) := by
    have reached := start.run steps
    rw [ran] at reached
    exact reached
  refine ⟨?_, fun e s => settled.after_failure, ?_, ?_, ?_⟩
  · have dropped := start.run_passing steps
    rw [ran] at dropped
    exact dropped
  · intro e start oldEnd added unfit
    rw [step, splice_of_unfit unfit]
  · intro e s r asked given
    rw [error?_of_gaveUp asked given, settled.gaveUp]
  · intro e s failed
    exact (unfit_or_gaveUp failed).imp And.left And.left

def hurriedAnswers : List Answer := [
  .done,
  .spliced (.error (.timedOut "a.swift")) "" false,
  .done,
  .spliced (.error (.invalidEdit 1 1 0)) "" false,
  .spliced (.ok []) "// a" false]

/-- The interrupted parse is not resumed by the edit that follows it. -/
theorem run_passing_hurriedSession :
    ofSource hurried "a.swift" "" = .ok blankBuffer ∧
      blankBuffer.run hurriedSession = (hurriedAnswers, commentBuffer) ∧
      blankBuffer.run [
          (hurried, .limitTime (some (.ofMicros 1))),
          (hurried, .limitTime none),
          (hurried, .splice 0 0 "// a")] =
        ([.done, .done, .spliced (.ok []) "// a" false], commentBuffer) := by
  have opened : ofSource hurried "a.swift" "" = .ok blankBuffer := rfl
  have ran : blankBuffer.run hurriedSession = (hurriedAnswers, commentBuffer) := rfl
  exact ⟨opened, ran, (failures_leave_no_trace opened ran).1⟩

end SyntaxReport.Buffer
