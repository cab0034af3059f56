/- Whatever order its workers act in, a shared batch comes out as if one worker did it alone. -/
import Mathlib.Data.List.Perm.Basic
import SyntaxReport.Language.Swift
import SyntaxReport.Proofs.Buffer.Session
import SyntaxReport.Proofs.FileSystem.Stand
import SyntaxReport.Proofs.Report.Time
import SyntaxReport.Report.Reporter

namespace SyntaxReport

namespace Pool

variable {w : Workspace} {o : Options} {workers : Nat} {paths : List String} {start : Tally}
  {p q : Pool}

/-- The acts still to come: two for a file that waits, one for an attempt that is held. -/
def pending (p : Pool) : Nat := 2 * p.waiting.length + p.held.length

/-- What some worker can do next. -/
inductive Acts (w : Workspace) (o : Options) (workers : Nat) (p : Pool) : Pool → Prop
  | take (i place : Nat) (path : String) (free : p.held.length < workers)
      (found : p.waiting[i]? = some (place, path)) :
      Acts w o workers p { p with
        waiting := p.waiting.eraseIdx i
        held := p.held ++ [(place, Attempt.ofPath w o path)] }
  | finish (i place : Nat) (a : Attempt) (found : p.held[i]? = some (place, a)) :
      Acts w o workers p { p with
        held := p.held.eraseIdx i
        finished := p.finished.set place (some a)
        tally := p.tally + a.tally }

theorem Acts.of_take {i : Nat} (free : p.held.length < workers) (less : i < p.waiting.length) :
    p.Acts w o workers (p.take w o i) := by
  have found := List.getElem?_eq_getElem less
  rw [Pool.take, found]
  exact .take i _ _ free found

theorem Acts.of_finish {i : Nat} (less : i < p.held.length) :
    p.Acts w o workers (p.finish i) := by
  have found := List.getElem?_eq_getElem less
  rw [Pool.finish, found]
  exact .finish i _ _ found

/-- The picks reach whatever some worker can do next, and nothing else. -/
theorem acts_iff (someone : 0 < workers) (left : 0 < p.pending) :
    p.Acts w o workers q ↔ ∃ pick, p.act w o workers pick = q := by
  constructor
  · intro acts
    cases acts with
    | take i place path free found =>
      have less := (List.getElem?_eq_some_iff.mp found).1
      have all : p.takeable workers = p.waiting.length := if_pos free
      have chosen : i % (p.takeable workers + p.held.length) = i := Nat.mod_eq_of_lt (by omega)
      refine ⟨i, ?_⟩
      simp only [act, chosen]
      rw [if_pos (by omega), Pool.take, found]
    | finish i place a found =>
      have less := (List.getElem?_eq_some_iff.mp found).1
      have chosen : (p.takeable workers + i) % (p.takeable workers + p.held.length) =
          p.takeable workers + i := Nat.mod_eq_of_lt (by omega)
      refine ⟨p.takeable workers + i, ?_⟩
      simp only [act, chosen]
      rw [if_neg (by omega), Nat.add_sub_cancel_left, Pool.finish, found]
  · rintro ⟨pick, rfl⟩
    -- with nothing held there is a free worker, so some act is always possible
    have possible : 0 < p.takeable workers + p.held.length := by
      unfold takeable
      unfold pending at left
      split <;> omega
    have chosen := Nat.mod_lt pick possible
    simp only [act]
    split
    · next takes =>
      have free : p.held.length < workers := by
        by_contra busy
        rw [takeable, if_neg busy] at takes
        exact Nat.not_lt_zero _ takes
      rw [takeable, if_pos free] at takes ⊢
      exact .of_take free takes
    · next finishes => exact .of_finish (by omega)

/-- A batch under way that has done right so far: each attempt is the one on the file of its
place, no file is forgotten, and all attempts together count each file once. -/
structure Sound (w : Workspace) (o : Options) (paths : List String) (start : Tally) (p : Pool) :
    Prop where
  places : p.finished.length = paths.length
  waiting : ∀ place path, (place, path) ∈ p.waiting → paths[place]? = some path
  held : ∀ place a, (place, a) ∈ p.held →
    ∃ path, paths[place]? = some path ∧ a = Attempt.ofPath w o path
  covered : ∀ place path, paths[place]? = some path →
    p.finished[place]? = some (some (Attempt.ofPath w o path)) ∨
      place ∈ p.held.map Prod.fst ∨ place ∈ p.waiting.map Prod.fst
  counted : p.tally + (p.held.map fun (_, a) => a.tally).sum +
      (p.waiting.map fun (_, path) => (Attempt.ofPath w o path).tally).sum =
    start + ((paths.map (Attempt.ofPath w o)).map Attempt.tally).sum

theorem perm_eraseIdx {α : Type} {l : List α} {i : Nat} {x : α} (found : l[i]? = some x) :
    (x :: l.eraseIdx i).Perm l := by
  obtain ⟨less, rfl⟩ := List.getElem?_eq_some_iff.mp found
  exact List.getElem_cons_eraseIdx_perm less

theorem mem_waiting_start {place : Nat} {path : String} :
    (place, path) ∈ (Pool.start paths start).waiting ↔ paths[place]? = some path := by
  simp only [Pool.start, List.mem_iff_getElem?, List.getElem?_zip_eq_some]
  constructor
  · rintro ⟨i, same, found⟩
    obtain ⟨less, rfl⟩ := List.getElem?_eq_some_iff.mp same
    rwa [List.getElem_range]
  · intro found
    have less := (List.getElem?_eq_some_iff.mp found).1
    exact ⟨place, List.getElem?_range less, found⟩

theorem sound_start : (Pool.start paths start).Sound w o paths start := by
  refine ⟨List.length_map _, fun place path => mem_waiting_start.mp, by simp [Pool.start], ?_, ?_⟩
  · intro place path found
    exact .inr (.inr (List.mem_map_of_mem (f := Prod.fst) (mem_waiting_start.mpr found)))
  · have all : (Pool.start paths start).waiting.map Prod.snd = paths :=
      List.map_snd_zip (by simp)
    conv_rhs => rw [← all, List.map_map, List.map_map]
    simp only [Pool.start, List.map_nil, List.sum_nil, add_zero]
    rfl

theorem Sound.take {i place : Nat} {path : String} (sound : p.Sound w o paths start)
    (found : p.waiting[i]? = some (place, path)) :
    Sound w o paths start { p with
      waiting := p.waiting.eraseIdx i
      held := p.held ++ [(place, Attempt.ofPath w o path)] } := by
  have rest := perm_eraseIdx found
  refine ⟨sound.places, ?_, ?_, ?_, ?_⟩
  · intro k name member
    exact sound.waiting k name (rest.subset (List.mem_cons_of_mem _ member))
  · intro k a member
    rcases List.mem_append.mp member with before | now
    · exact sound.held k a before
    · cases List.mem_singleton.mp now
      exact ⟨path, sound.waiting place path (rest.subset List.mem_cons_self), rfl⟩
  · intro k name there
    rw [List.map_append, List.mem_append]
    rcases sound.covered k name there with done | held | waits
    · exact .inl done
    · exact .inr (.inl (.inl held))
    · rcases List.mem_cons.mp ((rest.map Prod.fst).mem_iff.mpr waits) with rfl | later
      · exact .inr (.inl (.inr List.mem_cons_self))
      · exact .inr (.inr later)
  · have waited := (rest.map fun (_, path) => (Attempt.ofPath w o path).tally).sum_eq
    rw [← sound.counted, ← waited]
    simp [add_assoc]

theorem Sound.finish {i place : Nat} {a : Attempt} (sound : p.Sound w o paths start)
    (found : p.held[i]? = some (place, a)) :
    Sound w o paths start { p with
      held := p.held.eraseIdx i
      finished := p.finished.set place (some a)
      tally := p.tally + a.tally } := by
  have rest := perm_eraseIdx found
  obtain ⟨path, here, rfl⟩ := sound.held place a (rest.subset List.mem_cons_self)
  refine ⟨(List.length_set ..).trans sound.places, sound.waiting, ?_, ?_, ?_⟩
  · intro k b member
    exact sound.held k b (rest.subset (List.mem_cons_of_mem _ member))
  · intro k name there
    by_cases same : place = k
    · subst same
      cases here.symm.trans there
      have less := (List.getElem?_eq_some_iff.mp here).1
      exact .inl (List.getElem?_set_self (sound.places ▸ less))
    · rw [List.getElem?_set_ne same]
      rcases sound.covered k name there with done | held | waits
      · exact .inl done
      · rcases List.mem_cons.mp ((rest.map Prod.fst).mem_iff.mpr held) with rfl | later
        · exact absurd rfl same
        · exact .inr (.inl later)
      · exact .inr (.inr waits)
  · have kept := (rest.map fun (_, a) => a.tally).sum_eq
    rw [← sound.counted, ← kept]
    simp [add_assoc]

/-- Every act keeps a batch sound and brings it nearer to its end. -/
theorem Sound.acts (sound : p.Sound w o paths start) (acts : p.Acts w o workers q) :
    q.Sound w o paths start ∧ q.pending + 1 = p.pending := by
  cases acts with
  | take i place path free found =>
    refine ⟨sound.take found, ?_⟩
    have fewer := (perm_eraseIdx found).length_eq
    simp only [pending, List.length_append, List.length_cons, List.length_nil] at fewer ⊢
    omega
  | finish i place a found =>
    refine ⟨sound.finish found, ?_⟩
    have fewer := (perm_eraseIdx found).length_eq
    simp only [pending, List.length_cons] at fewer ⊢
    omega

theorem Sound.run (sound : p.Sound w o paths start) (someone : 0 < workers) (picks : Nat → Nat)
    {n : Nat} (left : p.pending = n) :
    (p.run w o workers picks n).Sound w o paths start ∧ (p.run w o workers picks n).pending = 0 := by
  induction n generalizing p with
  | zero => exact ⟨sound, left⟩
  | succ n ih =>
    have busy : 0 < p.pending := left ▸ Nat.succ_pos n
    obtain ⟨next, fewer⟩ := sound.acts ((acts_iff someone busy).mpr ⟨picks n, rfl⟩)
    exact ih next (Nat.succ.inj (fewer.trans left))

theorem Sound.eq_of_pending (sound : p.Sound w o paths start) (ended : p.pending = 0) :
    p.attempts = paths.map (Attempt.ofPath w o) ∧
      p.tally = start + ((paths.map (Attempt.ofPath w o)).map Attempt.tally).sum := by
  have waiting : p.waiting = [] := List.length_eq_zero_iff.mp (by unfold pending at ended; omega)
  have held : p.held = [] := List.length_eq_zero_iff.mp (by unfold pending at ended; omega)
  have all : p.finished = paths.map fun path => some (Attempt.ofPath w o path) := by
    refine List.ext_getElem? fun place => ?_
    rw [List.getElem?_map]
    cases there : paths[place]? with
    | none =>
      have beyond := List.getElem?_eq_none_iff.mp there
      exact List.getElem?_eq_none_iff.mpr (sound.places ▸ beyond)
    | some path => simpa [waiting, held] using sound.covered place path there
  refine ⟨?_, ?_⟩
  · rw [attempts, all, List.filterMap_map]
    exact congrFun List.filterMap_eq_map paths
  · simpa [waiting, held] using sound.counted

/-- A batch ends with the attempt on each file at its place, each counted once, however many
workers there are and in whatever order they act. -/
theorem complete_eq (w : Workspace) (o : Options) (someone : 0 < workers) (picks : Nat → Nat)
    (paths : List String) (start : Tally) :
    (complete w o workers picks paths start).attempts = paths.map (Attempt.ofPath w o) ∧
      (complete w o workers picks paths start).tally =
        start + ((paths.map (Attempt.ofPath w o)).map Attempt.tally).sum := by
  have left : (Pool.start paths start).pending = 2 * paths.length := by
    simp [pending, Pool.start]
  obtain ⟨sound, ended⟩ := (sound_start (w := w) (o := o)).run someone picks left
  exact sound.eq_of_pending ended

end Pool

namespace Reporter

theorem workers_pos (r : Reporter) (s : Schedule) : 0 < r.workers s := by
  unfold workers
  split <;> exact Nat.succ_pos _

theorem attemptEach_eq (r : Reporter) (w : Workspace) (paths : List String) :
    r.attemptEach w paths =
      let attempts := paths.map (Attempt.ofPath w r.options)
      (attempts, { r with tally := r.tally + (attempts.map Attempt.tally).sum }) := by
  induction paths generalizing r with
  | nil => simp [attemptEach]
  | cons path rest ih => simp [attemptEach, attempt, ih, add_assoc]

/-- The workers that a batch asks for can be had. A batch that is not shared asks for none. -/
def Staffed (r : Reporter) (s : Schedule) : Prop :=
  r.options.parallel = true → s.refusal r.options.workers = none

theorem staffed_or_refused (r : Reporter) (s : Schedule) :
    r.Staffed s ∨
      ∃ reason, r.options.parallel = true ∧ s.refusal r.options.workers = some reason := by
  cases refused : s.refusal r.options.workers with
  | none => exact .inl fun _ => refused
  | some reason =>
    cases shared : r.options.parallel with
    | false => exact .inl fun shares => Bool.noConfusion (shared.symm.trans shares)
    | true => exact .inr ⟨reason, rfl, rfl⟩

/-- Shared among workers or not, a batch makes the attempt on each file of its list in order and
counts it once. -/
theorem attemptAll_eq {r : Reporter} {s : Schedule} (staffed : r.Staffed s) (w : Workspace)
    (paths : List String) :
    r.attemptAll w s paths =
      let attempts := paths.map (Attempt.ofPath w r.options)
      (.ok attempts, { r with tally := r.tally + (attempts.map Attempt.tally).sum }) := by
  unfold attemptAll
  split
  · next shared =>
    obtain ⟨attempts, tally⟩ :=
      Pool.complete_eq w r.options (r.workers_pos s) s.picks paths r.tally
    simp only [staffed shared, attempts, tally]
  · rw [r.attemptEach_eq w paths]

theorem reportBatch_eq {r : Reporter} {s : Schedule} (staffed : r.Staffed s) (w : Workspace)
    (paths : List String) :
    r.reportBatch w s paths =
      let attempts := paths.map (Attempt.ofPath w r.options)
      (.ok (.ofOutcomes (attempts.map Attempt.outcome)),
        { r with tally := r.tally + (attempts.map Attempt.tally).sum }) := by
  rw [reportBatch, attemptAll_eq staffed]
  rfl

/-- Without its workers a batch fails and counts nothing. -/
theorem reportBatch_of_refused {r : Reporter} {s : Schedule} {reason : String}
    (shared : r.options.parallel = true) (refused : s.refusal r.options.workers = some reason)
    (w : Workspace) (paths : List String) :
    r.reportBatch w s paths = (.error (.noWorkers reason), r) := by
  rw [reportBatch, attemptAll, if_pos shared, refused]
  rfl

theorem reportBatch_eq_ok_iff {r : Reporter} {s : Schedule} {w : Workspace} {paths : List String} :
    (∃ report, (r.reportBatch w s paths).1 = .ok report) ↔ r.Staffed s := by
  constructor
  · rintro ⟨report, given⟩
    rcases r.staffed_or_refused s with staffed | ⟨reason, shared, refused⟩
    · exact staffed
    · rw [reportBatch_of_refused shared refused] at given
      cases given
  · intro staffed
    rw [reportBatch_eq staffed]
    exact ⟨_, rfl⟩

/-- A batch that fails leaves the reporter as it was. -/
theorem reportBatch_of_error {r : Reporter} {s : Schedule} {w : Workspace} {paths : List String}
    {error : ReportError} (failed : (r.reportBatch w s paths).1 = .error error) :
    (r.reportBatch w s paths).2 = r := by
  rcases r.staffed_or_refused s with staffed | ⟨reason, shared, refused⟩
  · rw [reportBatch_eq staffed] at failed
    cases failed
  · rw [reportBatch_of_refused shared refused]

/-- So does one over the files below a directory, and one whose files cannot be found. -/
theorem reportBelow_of_error {r : Reporter} {s : Schedule} {w : Workspace} {path : String}
    {error : ReportError} (failed : (r.reportBelow w s path).1 = .error error) :
    (r.reportBelow w s path).2 = r := by
  unfold reportBelow at failed ⊢
  cases found : r.pathsBelow w path with
  | error other => rfl
  | ok paths =>
    rw [found] at failed
    exact reportBatch_of_error failed

/-- The reporter that shares its batches among workers, or works on them alone. -/
def sharing (r : Reporter) (shared : Bool) : Reporter :=
  { r with options := r.options.change (.parallel shared) }

/-- A batch shared among any number of workers that can be had, whose acts come in any order,
gives the report and the counts of the same batch without workers. The times alone may differ. -/
theorem reportBatch_shared_eq_alone {r : Reporter} {s : Schedule}
    (built : s.refusal r.options.workers = none) (w : Workspace)
    (elapsed : Parser → ParseRequest → Duration) (t : Schedule) (paths : List String) :
    ∃ shared alone,
      ((r.sharing true).reportBatch w s paths).1 = .ok shared ∧
      ((r.sharing false).reportBatch (w.timed elapsed) t paths).1 = .ok alone ∧
      shared.untimed = alone.untimed ∧
      ((r.sharing true).reportBatch w s paths).2.tally.untimed =
        ((r.sharing false).reportBatch (w.timed elapsed) t paths).2.tally.untimed := by
  have staffed : (r.sharing true).Staffed s := fun _ => built
  have unshared : (r.sharing false).Staffed t := fun shared => Bool.noConfusion shared
  have alike : (paths.map (Attempt.ofPath w (r.sharing true).options)).map Attempt.untimed =
      (paths.map (Attempt.ofPath (w.timed elapsed) (r.sharing false).options)).map
        Attempt.untimed := by
    rw [List.map_map, List.map_map]
    refine List.map_congr_left fun path _ => ?_
    -- no attempt asks whether its batch is shared
    exact (Attempt.ofPath_timed w elapsed (r.sharing true).options path).symm
  rw [reportBatch_eq staffed, reportBatch_eq unshared]
  refine ⟨_, _, rfl, rfl, Attempt.untimed_report alike, ?_⟩
  rw [Tally.untimed_add, Tally.untimed_add, Tally.untimed_attempts alike]
  rfl

section Comments

def pairOptions : Options := { Options.standard with parallel := true, workers := some 2 }

def pairReporter : Reporter := ⟨.swift, pairOptions, .zero⟩

/-- Two workers can be had, and no other number of them. -/
def pairSchedule (picks : Nat → Nat) : Schedule where
  refusal workers := if workers = some 2 then none else some "Resource temporarily unavailable"
  spare := 0
  picks

/-- No worker can be had. -/
def nobody : Schedule := ⟨fun _ => some "Resource temporarily unavailable", 0, id⟩

/-- One file, and an engine that takes all of a text for a comment. -/
def commentWorkspace : Workspace where
  files := ⟨⟨64, none, [("a.swift", .file (bytesOf "// a") none)]⟩, [], .root⟩
  engine := Buffer.hurried

def commentReport (path : String) : FileReport :=
  ⟨.ofText path, false, [], ⟨[]⟩, 2, .zero, 1, 4⟩

def commentBatch : BatchReport :=
  ⟨[commentReport "a.swift", commentReport "a.swift"],
    [(.ofText "b.swift", "IO error reading b.swift: No such file or directory (os error 2)")],
    .zero⟩

def commentTally : Tally := ⟨3, 2, 1, .zero, 4, 0⟩

theorem ofPath_comment : Attempt.ofPath commentWorkspace pairOptions "a.swift" =
    ⟨"a.swift", .ok (commentReport "a.swift"), .zero⟩ := by
  have leads : commentWorkspace.files.resolve "a.swift" = .ok (.file (bytesOf "// a") none) :=
    FileSystem.resolve_of_proper (by decide) (by decide) (by decide)
  have read : pairOptions.readSource commentWorkspace.files "a.swift" = .ok "// a" := by
    rw [Options.readSource, leads]
    rfl
  rw [Attempt.ofPath, read]
  rfl

theorem ofPath_missing : Attempt.ofPath commentWorkspace pairOptions "b.swift" =
    ⟨"b.swift", .error (.unreadable "b.swift" .notFound), .zero⟩ := by
  have leads : commentWorkspace.files.resolve "b.swift" = .error .notFound :=
    FileSystem.resolve_of_proper (by decide) (by decide) (by decide)
  have read : pairOptions.readSource commentWorkspace.files "b.swift" =
      .error (.unreadable "b.swift" .notFound) := by
    rw [Options.readSource, leads]
  rw [Attempt.ofPath, read]

theorem reportBatch_comments {r : Reporter} (same : r.options = pairOptions) (picks : Nat → Nat) :
    r.reportBatch commentWorkspace (pairSchedule picks) ["a.swift", "b.swift", "a.swift"] =
      (.ok commentBatch, { r with tally := r.tally + commentTally }) := by
  have staffed : r.Staffed (pairSchedule picks) := by
    intro _
    rw [same]
    rfl
  rw [reportBatch_eq staffed, same, List.map_cons, List.map_cons, List.map_cons, ofPath_comment,
    ofPath_missing]
  rfl

/-- A file twice and a path to nothing, by two workers in some order and by none. -/
theorem commentBatch_shared :
    (pairSchedule (· + 1)).refusal pairReporter.options.workers = none ∧
      ((pairReporter.sharing true).reportBatch commentWorkspace (pairSchedule (· + 1))
        ["a.swift", "b.swift", "a.swift"]).1 = .ok commentBatch ∧
      ∃ alone, ((pairReporter.sharing false).reportBatch
          (commentWorkspace.timed fun _ _ => .ofSeconds 1) nobody
          ["a.swift", "b.swift", "a.swift"]).1 = .ok alone ∧
        alone.untimed = commentBatch := by
  have built : (pairSchedule (· + 1)).refusal pairReporter.options.workers = none := rfl
  have given := reportBatch_comments (r := pairReporter.sharing true) rfl (· + 1)
  obtain ⟨shared, alone, first, second, same, _⟩ := reportBatch_shared_eq_alone built
    commentWorkspace (fun _ _ => .ofSeconds 1) nobody ["a.swift", "b.swift", "a.swift"]
  rw [given] at first ⊢
  cases first
  exact ⟨built, rfl, alone, second, same.symm⟩

end Comments

end Reporter
end SyntaxReport
