/- The tallies of two batches add up to that of one batch over the files of both. -/
import SyntaxReport.Proofs.Report.Account

namespace SyntaxReport

namespace Tally

/-- Every attempt is counted as a success or as a failure. -/
def Balanced (t : Tally) : Prop := t.attempted = t.succeeded + t.failed

instance (t : Tally) : Decidable t.Balanced := inferInstanceAs (Decidable (_ = _))

theorem Balanced.add {a b : Tally} (left : a.Balanced) (right : b.Balanced) :
    (a + b).Balanced := by
  rw [Balanced, attempted_add, left, right, succeeded_add, failed_add, add_add_add_comm]

end Tally

namespace Reporter

theorem tally_of_ofOptions {language : Option Language} {options : Options} {r : Reporter}
    (opened : ofOptions language options = .ok r) : r.tally = 0 := by
  unfold ofOptions at opened
  split at opened <;> cases opened
  rfl

/-- What a batch over some files adds to the counters, whatever time it takes. -/
def counts (r : Reporter) (w : Workspace) (paths : List String) : Tally :=
  ((paths.map (Attempt.ofPath w r.options)).map Attempt.tally).sum.untimed

theorem counts_append (r : Reporter) (w : Workspace) (xs ys : List String) :
    r.counts w (xs ++ ys) = r.counts w xs + r.counts w ys := by
  rw [counts, List.map_append, List.map_append, List.sum_append, Tally.untimed_add]
  rfl

theorem counts_perm (r : Reporter) (w : Workspace) {xs ys : List String} (same : xs.Perm ys) :
    r.counts w xs = r.counts w ys := by
  have tallies := (same.map (Attempt.ofPath w r.options)).map Attempt.tally
  rw [counts, tallies.sum_eq]
  rfl

theorem counts_timed (r : Reporter) (w : Workspace) (elapsed : Parser → ParseRequest → Duration)
    (paths : List String) : r.counts (w.timed elapsed) paths = r.counts w paths := by
  refine Tally.untimed_attempts ?_
  rw [List.map_map, List.map_map]
  exact List.map_congr_left fun path _ => Attempt.ofPath_timed w elapsed r.options path

/-- The counters of a new reporter after its first batch. -/
theorem untimed_tally_batch {language : Option Language} {options : Options} {r : Reporter}
    (opened : ofOptions language options = .ok r) (w : Workspace) {s : Schedule}
    (staffed : r.Staffed s) (paths : List String) :
    (r.step w s (.batch paths)).2.tally.untimed = r.counts w paths := by
  rw [step, reportBatch_eq staffed, tally_of_ofOptions opened]
  dsimp only
  rw [zero_add, counts]

/-- A batch without its workers counts nothing. -/
theorem untimed_tally_of_not_staffed {language : Option Language} {options : Options}
    {r : Reporter} (opened : ofOptions language options = .ok r) (w : Workspace) {s : Schedule}
    (refused : ¬ r.Staffed s) (paths : List String) :
    (r.step w s (.batch paths)).2.tally.untimed = 0 := by
  obtain ⟨reason, shared, refused⟩ := (r.staffed_or_refused s).resolve_left refused
  rw [step, reportBatch_of_refused shared refused, tally_of_ofOptions opened]
  rfl

/-- A new reporter counts over the files of two lists, in any order, what one new reporter counts
over the first and another over the second, put together. The workers and the times of the three
batches have no part in it, if the workers can be had for all three or for none. To put tallies
together is associative and commutative, the tally of nothing adds nothing, and balanced tallies
stay balanced. -/
theorem tally_together_eq_add {language : Option Language} {options : Options} {r : Reporter}
    {xs ys zs : List String} (opened : ofOptions language options = .ok r)
    (together : zs.Perm (xs ++ ys)) (w : Workspace) :
    (∀ (s t u : Schedule) (first second both : Parser → ParseRequest → Duration),
      (r.Staffed s ↔ r.Staffed u) → (r.Staffed t ↔ r.Staffed u) →
      (r.step (w.timed both) u (.batch zs)).2.tally.untimed =
        ((r.step (w.timed second) t (.batch ys)).2.tally.apply
          (.add (r.step (w.timed first) s (.batch xs)).2.tally)).untimed) ∧
    (∀ a b c : Tally, (a.apply (.add b)).apply (.add c) = a.apply (.add (b.apply (.add c)))) ∧
    (∀ a b : Tally, a.apply (.add b) = b.apply (.add a)) ∧
    (∀ a : Tally, a.apply (.add .zero) = a ∧ Tally.zero.apply (.add a) = a) ∧
    ∀ a b : Tally, a.Balanced → b.Balanced → (a.apply (.add b)).Balanced := by
  have adds (a b : Tally) : a.apply (.add b) = a + b := rfl
  simp only [adds]
  refine ⟨?_, add_assoc, add_comm, fun a => ⟨add_zero a, zero_add a⟩, fun a b => .add⟩
  intro s t u first second both one two
  rw [Tally.untimed_add]
  by_cases staffed : r.Staffed u
  · rw [untimed_tally_batch opened _ staffed, untimed_tally_batch opened _ (two.mpr staffed),
      untimed_tally_batch opened _ (one.mpr staffed), counts_timed, counts_timed, counts_timed,
      r.counts_perm w together, counts_append, add_comm]
  · rw [untimed_tally_of_not_staffed opened _ staffed,
      untimed_tally_of_not_staffed opened _ (mt two.mp staffed),
      untimed_tally_of_not_staffed opened _ (mt one.mp staffed), add_zero]

/-- Two files and a path to nothing, in one batch or in two that take longer. -/
theorem comments_counted_together :
    ofOptions (some .swift) pairOptions = .ok pairReporter ∧
      ["a.swift", "b.swift", "a.swift"].Perm (["b.swift", "a.swift"] ++ ["a.swift"]) ∧
      (pairReporter.step commentWorkspace (pairSchedule (· + 1))
        (.batch ["a.swift", "b.swift", "a.swift"])).2.tally.untimed = commentTally ∧
      commentTally =
        ((pairReporter.step (commentWorkspace.timed fun _ _ => .ofSeconds 1) (pairSchedule id)
          (.batch ["a.swift"])).2.tally.apply
            (.add (pairReporter.step (commentWorkspace.timed fun _ _ => .ofSeconds 2)
              (pairSchedule id) (.batch ["b.swift", "a.swift"])).2.tally)).untimed := by
  have opened : ofOptions (some .swift) pairOptions = .ok pairReporter := rfl
  have together : ["a.swift", "b.swift", "a.swift"].Perm (["b.swift", "a.swift"] ++ ["a.swift"]) :=
    by decide
  have one : (pairReporter.step commentWorkspace (pairSchedule (· + 1))
      (.batch ["a.swift", "b.swift", "a.swift"])).2.tally.untimed = commentTally := by
    rw [step, reportBatch_comments rfl]
    rfl
  refine ⟨opened, together, one, one.symm.trans ?_⟩
  exact (tally_together_eq_add opened together commentWorkspace).1 (pairSchedule id)
    (pairSchedule id) (pairSchedule (· + 1)) (fun _ _ => .ofSeconds 2) (fun _ _ => .ofSeconds 1)
    commentWorkspace.engine.elapsed .rfl .rfl

end Reporter
end SyntaxReport
