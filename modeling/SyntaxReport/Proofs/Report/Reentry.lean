/- Links that lead back up: how often a walk enters one directory again, and what becomes of its
files. -/
import SyntaxReport.Proofs.FileSystem.Chain
import SyntaxReport.Proofs.Report.Discovery
import SyntaxReport.Proofs.Report.Workers

namespace SyntaxReport.Reporter

open FileSystem SyntaxReport.Path

theorem join_mem_pathsBelow {w : Workspace} (proper : w.files.root.Proper) {r : Reporter}
    {dir path : String} {calls found : List String} (chain : CallChain w.files dir calls)
    (given : r.pathsBelow w dir = .ok found) (called : path ∈ calls) {name : String}
    (lists : Lists w.files path name) (file : w.files.isDirectory (join path name) = false)
    (accepted : r.accepts (join path name) = true) : join path name ∈ found := by
  obtain ⟨names, leads, rfl⟩ := chain.leads path called
  refine (mem_of_listing proper (pathsBelow_eq_ok_iff.mp given)).mpr
    ⟨names ++ [name], by simp, leads.concat lists, ?_, file, accepted⟩
  rw [joinAll_concat]

theorem tally_reportBelow {r : Reporter} {w : Workspace} {s : Schedule} {dir : String}
    {found : List String} (staffed : r.Staffed s) (given : r.pathsBelow w dir = .ok found) :
    (r.reportBelow w s dir).2.tally =
      r.tally + ((found.map (Attempt.ofPath w r.options)).map Attempt.tally).sum := by
  rw [reportBelow, given]
  dsimp only
  rw [reportBatch_eq staffed]

/-- Along a chain of calls of the walk below a path, a real directory may be entered again, but
only by more links, so at most once for each number of links that one resolution follows. The
number of real directories bounds the length of a chain in the same way. Unless the walk fails,
the files of a directory are found, and counted, for each call that enters it. -/
theorem reentry_bounded {w : Workspace} (proper : w.files.root.Proper) {dir : String}
    {calls : List String} (chain : CallChain w.files dir calls) (r : Reporter) :
    (w.files.root.places.Nodup ∧ ∀ place, place ∈ w.files.root.places ↔
      ∃ trail, Rooted w.files.root trail ∧ trail.names = place) ∧
    (∀ path ∈ calls, ∃ place ∈ w.files.root.places, w.files.place? path = some place) ∧
    (calls.Pairwise fun p q => w.files.place? p = w.files.place? q →
      w.files.directory? p = w.files.directory? q ∧ w.files.linksTo p < w.files.linksTo q) ∧
    (∀ place, (calls.map w.files.place?).count (some place) ≤ linkLimit + 1) ∧
    calls.length ≤ (linkLimit + 1) * w.files.root.places.length ∧
    (∀ levels, (linkLimit + 1) * w.files.root.places.length ≤ levels → ∀ found,
      r.pathsBelow w dir = .ok found ↔
        (w.files.walk r.accepts levels dir).map (·.mergeSort le) = .ok found) ∧
    (∀ name, ProperName name → (calls.map (join · name)).Nodup) ∧
    (∀ found, r.pathsBelow w dir = .ok found →
      (∀ path ∈ calls, ∀ name, Lists w.files path name →
        w.files.isDirectory (join path name) = false → r.accepts (join path name) = true →
        join path name ∈ found) ∧
      found.Nodup ∧
      ∀ s, r.Staffed s → (r.reportBelow w s dir).2.tally =
        r.tally + ((found.map (Attempt.ofPath w r.options)).map Attempt.tally).sum) ∧
    ∀ s error, (r.reportBelow w s dir).1 = .error error → (r.reportBelow w s dir).2 = r := by
  refine ⟨⟨proper.nodup_places, fun place => Directory.mem_places_iff proper⟩, chain.placed, ?_,
    chain.count_place_le proper, chain.length_le proper, ?_,
    fun name => chain.nodup_join proper, ?_, fun s error => reportBelow_of_error⟩
  · apply (chain.linksTo_lt proper).imp
    intro p q further same
    exact ⟨directory?_eq_of_place? same, further same⟩
  · intro levels enough found
    rw [pathsBelow_eq_ok_iff, listing_eq_of_levels proper enough]
  · intro found given
    exact ⟨fun path called name => join_mem_pathsBelow proper chain given called,
      nodup_of_listing proper (pathsBelow_eq_ok_iff.mp given),
      fun s staffed => tally_reportBelow staffed given⟩

section Rounds

/-- A directory with two links to itself, one of them by the root. -/
def roundLibrary : Directory where
  size := 64
  unread := none
  entries := [("Loop", .link "."), ("Home", .link "/Lib"), ("a.swift", .file [] none)]

def roundDirectory : Directory := ⟨64, none, [("Lib", .directory roundLibrary)]⟩

def roundFiles : FileSystem := ⟨roundDirectory, [], .root⟩

def roundWorkspace : Workspace :=
  ⟨roundFiles, ⟨fun _ _ => none, fun _ _ _ => [], fun _ _ => .zero⟩⟩

def roundReporter : Reporter := ⟨.swift, .standard, .zero⟩

/-- The directory with the link, after so many rounds. -/
def roundCall (n : Nat) : String := joinAll "Lib" (List.replicate n "Loop")

theorem inner_roundDirectory {name : String} {d : Directory}
    (entry : (name, .directory d) ∈ roundDirectory.entries) : name = "Lib" ∧ d = roundLibrary := by
  simpa [roundDirectory] using entry

theorem inner_roundLibrary {name : String} {d : Directory} :
    (name, .directory d) ∉ roundLibrary.entries := by
  simp [roundLibrary]

theorem proper_roundDirectory : roundDirectory.Proper := by
  have library : roundLibrary.Proper :=
    .intro (by decide) (by decide) fun _ _ entry => absurd entry inner_roundLibrary
  refine .intro (by decide) (by decide) ?_
  intro name d entry
  obtain ⟨_, rfl⟩ := inner_roundDirectory entry
  exact library

theorem readable_roundFiles (path : String) : Readable roundFiles path := by
  have library : roundLibrary.Open := .intro rfl fun _ _ entry => absurd entry inner_roundLibrary
  refine readable_of_opened (.intro rfl ?_) path
  intro name d entry
  obtain ⟨_, rfl⟩ := inner_roundDirectory entry
  exact library

theorem roundCall_succ (n : Nat) : roundCall (n + 1) = join (roundCall n) "Loop" := by
  rw [roundCall, List.replicate_succ', joinAll_concat]
  rfl

theorem size_roundCall_le (n : Nat) : (roundCall n).utf8ByteSize ≤ 3 + 5 * n := by
  induction n with
  | zero => exact Nat.le_refl 3
  | succ n ih =>
    have longer := utf8ByteSize_join_le (roundCall n) "Loop"
    have four : "Loop".utf8ByteSize = 4 := rfl
    rw [roundCall_succ]
    omega

theorem followed_roundCall {n : Nat} (few : n ≤ linkLimit) : Followed (roundCall n) := by
  induction n with
  | zero => exact ⟨by decide, by decide, by decide⟩
  | succ n ih =>
    have short : (roundCall n).utf8ByteSize + 1 + "Loop".utf8ByteSize < pathLimit := by
      have size := size_roundCall_le n
      have four : "Loop".utf8ByteSize = 4 := rfl
      unfold linkLimit at few
      unfold pathLimit
      omega
    rw [roundCall_succ]
    exact (ih (Nat.le_of_succ_le few)).join (by decide) short

/-- The trail of the directory with the links. -/
def roundTrail : Trail := [("Lib", roundLibrary)]

theorem reach?_round (left : Nat) :
    reach? roundDirectory (left + 1) roundTrail ["Loop"] = some (left, roundTrail) := by
  have back : steps "." = ["."] := by decide
  simp +decide [reach?, Directory.lookup?, roundTrail, roundLibrary, Trail.here, origin, back]

/-- Each round follows one link more, and leads to the same place. -/
theorem stand?_roundCall {n : Nat} (few : n ≤ linkLimit) :
    roundFiles.stand? (roundCall n) = some (linkLimit - n, roundTrail) := by
  induction n with
  | zero =>
    simp +decide [stand?, roundCall, joinAll, steps, origin, reach?, segments, Directory.lookup?,
      roundFiles, roundDirectory, roundTrail, Trail.here]
  | succ n ih =>
    have followed := followed_roundCall few
    rw [roundCall_succ] at followed ⊢
    have links : linkLimit - n = linkLimit - (n + 1) + 1 := by omega
    rw [stand?_join _ (followed_roundCall (Nat.le_of_succ_le few)).somewhere (by decide) followed,
      ih (Nat.le_of_succ_le few), Option.bind_some, links]
    exact reach?_round _

theorem directory?_roundCall {n : Nat} (few : n ≤ linkLimit) :
    roundFiles.directory? (roundCall n) = some roundLibrary := by
  rw [directory?_eq_stand?, stand?_roundCall few]
  rfl

theorem place?_roundCall {n : Nat} (few : n ≤ linkLimit) :
    roundFiles.place? (roundCall n) = some ["Lib"] := by
  rw [place?, stand?_roundCall few]
  rfl

/-- The link by the root leads to that place too. -/
theorem place?_home : roundFiles.place? "Lib/Home" = some ["Lib"] := by
  simp +decide [place?, stand?, steps, origin, reach?, segments, Directory.lookup?, roundFiles,
    roundDirectory, roundLibrary, Trail.here, Trail.names, linkLimit]

/-- No round makes the file a directory. -/
theorem isDirectory_round {n : Nat} (few : n ≤ linkLimit) :
    roundFiles.isDirectory (join (roundCall n) "a.swift") = false := by
  rw [← Bool.not_eq_true, isDirectory_iff_stand?]
  rintro ⟨stand, stands⟩
  have reached := stand?_join roundFiles (followed_roundCall few).somewhere
    (show ProperName "a.swift" by decide) (followed_of_stand? stands)
  rw [stand?_roundCall few, stands, Option.bind_some] at reached
  simp +decide [reach?, Directory.lookup?, roundTrail, roundLibrary, Trail.here] at reached

theorem callChain_rounds (n rounds : Nat) (few : n + rounds ≤ linkLimit) :
    CallChain roundFiles (roundCall n) ((List.range' n (rounds + 1)).map roundCall) := by
  induction rounds generalizing n with
  | zero => exact .last (isDirectory_of_directory? (directory?_roundCall few))
  | succ rounds ih =>
    have there := directory?_roundCall (Nat.le_trans (Nat.le_add_right n _) few)
    have lists : Lists roundFiles (roundCall n) "Loop" := ⟨roundLibrary, there, rfl, by decide⟩
    refine .call lists ?_
    rw [← roundCall_succ]
    exact ih (n + 1) (by omega)

/-- As many rounds as one resolution follows links. -/
def rounds : List String := (List.range' 0 (linkLimit + 1)).map roundCall

theorem callChain_all_rounds : CallChain roundFiles "Lib" rounds :=
  callChain_rounds 0 linkLimit (by decide)

theorem exists_of_mem_rounds {path : String} (member : path ∈ rounds) :
    ∃ n, n ≤ linkLimit ∧ roundCall n = path := by
  obtain ⟨n, within, call⟩ := List.mem_map.mp member
  have less := (List.mem_range'_1.mp within).2
  exact ⟨n, by omega, call⟩

theorem lists_file {n : Nat} (few : n ≤ linkLimit) :
    Lists roundFiles (roundCall n) "a.swift" :=
  ⟨roundLibrary, directory?_roundCall few, rfl, by decide⟩

theorem accepts_file {n : Nat} (few : n ≤ linkLimit) :
    roundReporter.accepts (join (roundCall n) "a.swift") = true := by
  rw [accepts, fileName?_join (followed_roundCall few).somewhere (by decide)]
  decide

theorem exists_pathsBelow_rounds :
    ∃ found, roundReporter.pathsBelow roundWorkspace "Lib" = .ok found :=
  ⟨_, pathsBelow_eq_ok_iff.mpr (listing_of_readable (readable_roundFiles "Lib"))⟩

/-- A directory with a link to itself is entered again, and its file is found again. -/
theorem enters_again :
    roundDirectory.Proper ∧ CallChain roundFiles "Lib" ["Lib", "Lib/Loop"] ∧
      CallChain roundFiles "Lib" ["Lib", "Lib/Home"] ∧
      roundFiles.place? "Lib" = some ["Lib"] ∧ roundFiles.place? "Lib/Loop" = some ["Lib"] ∧
      roundFiles.place? "Lib/Home" = some ["Lib"] ∧
      (∃ found, roundReporter.pathsBelow roundWorkspace "Lib" = .ok found ∧
        "Lib/a.swift" ∈ found ∧ "Lib/Loop/a.swift" ∈ found) ∧
      (¬∀ fs : FileSystem, fs.root.Proper → ∀ dir calls, CallChain fs dir calls →
        (calls.map fs.place?).Nodup) ∧
      ¬∀ fs : FileSystem, fs.root.Proper → ∀ dir calls, CallChain fs dir calls →
        calls.length ≤ fs.root.places.length := by
  have chain : CallChain roundFiles (roundCall 0) [roundCall 0, roundCall 1] :=
    callChain_rounds 0 1 (by decide)
  have first : roundFiles.place? (roundCall 0) = some ["Lib"] := place?_roundCall (by decide)
  have second : roundFiles.place? (roundCall 1) = some ["Lib"] := place?_roundCall (by decide)
  have home : CallChain roundFiles "Lib" ["Lib", "Lib/Home"] := by
    have entered : roundFiles.isDirectory "Lib/Home" = true := by
      obtain ⟨stand, stands, _⟩ := Option.map_eq_some_iff.mp place?_home
      exact isDirectory_iff_stand?.mpr ⟨stand, stands⟩
    have there := directory?_roundCall (Nat.zero_le linkLimit)
    exact .call ⟨roundLibrary, there, rfl, (by decide : "Home" ∈ roundLibrary.names)⟩ (.last entered)
  obtain ⟨found, given⟩ := exists_pathsBelow_rounds
  have finds (n : Nat) (few : n ≤ linkLimit) (called : roundCall n ∈ [roundCall 0, roundCall 1]) :
      join (roundCall n) "a.swift" ∈ found :=
    join_mem_pathsBelow proper_roundDirectory chain given called (lists_file few)
      (isDirectory_round few) (accepts_file few)
  refine ⟨proper_roundDirectory, chain, home, first, second, place?_home,
    ⟨found, given, finds 0 (by decide) (by simp), finds 1 (by decide) (by simp)⟩, ?_, ?_⟩
  · intro once
    have distinct := once roundFiles proper_roundDirectory _ _ chain
    rw [List.map_cons, first, List.map_singleton, second] at distinct
    simp at distinct
  · intro bounded
    have short := bounded roundFiles proper_roundDirectory _ _ callChain_all_rounds
    rw [rounds, List.length_map, List.length_range'] at short
    exact absurd short (by decide)

/-- It is entered once for each number of links, and its file is found as often. -/
theorem enters_all_rounds :
    roundWorkspace.files.root.Proper ∧ CallChain roundWorkspace.files "Lib" rounds ∧
      (rounds.map roundFiles.place?).count (some ["Lib"]) = linkLimit + 1 ∧
      rounds.length ≤ (linkLimit + 1) * roundDirectory.places.length ∧
      (rounds.map (join · "a.swift")).Nodup ∧
      ∃ found, roundReporter.pathsBelow roundWorkspace "Lib" = .ok found ∧
        ∀ path ∈ rounds, join path "a.swift" ∈ found := by
  obtain ⟨_, _, _, _, length, _, distinct, finds, _⟩ :=
    reentry_bounded (w := roundWorkspace) proper_roundDirectory callChain_all_rounds roundReporter
  obtain ⟨found, given⟩ := exists_pathsBelow_rounds
  obtain ⟨files, _⟩ := finds found given
  refine ⟨proper_roundDirectory, callChain_all_rounds, ?_, length, distinct "a.swift" (by decide),
    found, given, ?_⟩
  · have same : rounds.map roundFiles.place? = List.replicate (linkLimit + 1) (some ["Lib"]) := by
      refine List.eq_replicate_iff.mpr ⟨by simp [rounds], ?_⟩
      intro place member
      obtain ⟨path, called, rfl⟩ := List.mem_map.mp member
      obtain ⟨n, few, rfl⟩ := exists_of_mem_rounds called
      exact place?_roundCall few
    rw [same, List.count_replicate_self]
  · intro path called
    obtain ⟨n, few, rfl⟩ := exists_of_mem_rounds called
    exact files _ called "a.swift" (lists_file few) (isDirectory_round few) (accepts_file few)

end Rounds

end SyntaxReport.Reporter
