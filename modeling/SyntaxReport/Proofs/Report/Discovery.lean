/- What a reporter finds below a path. -/
import SyntaxReport.Language.Swift
import SyntaxReport.Proofs.FileSystem.Listing
import SyntaxReport.Report.Reporter

namespace SyntaxReport.Reporter

open FileSystem SyntaxReport.Path

theorem pathsBelow_eq_ok_iff {r : Reporter} {w : Workspace} {dir : String} {found : List String} :
    r.pathsBelow w dir = .ok found ↔ w.files.listing r.accepts dir = .ok found := by
  unfold pathsBelow
  cases w.files.listing r.accepts dir <;> simp

/-- Where nothing is found for an error, some directory below cannot be read, and the error says
which one and why. -/
theorem unread_of_pathsBelow {r : Reporter} {w : Workspace} {dir : String} {error : ReportError}
    (failed : r.pathsBelow w dir = .error error) :
    ∃ names d cause, Leads w.files dir names ∧ w.files.directory? (joinAll dir names) = some d ∧
      d.unread = some cause ∧ error = .unreadable (joinAll dir names) cause := by
  unfold pathsBelow at failed
  cases listing : w.files.listing r.accepts dir with
  | ok found =>
    rw [listing] at failed
    cases failed
  | error failure =>
    rw [listing] at failed
    cases failed
    obtain ⟨names, d, leads, same, there, unread⟩ := ends_of_listing listing
    rw [same] at there
    exact ⟨names, d, _, leads, there, unread, by rw [same]⟩

/-- Where names lead, the last of them decides. -/
theorem accepts_joinAll {r : Reporter} {fs : FileSystem} (proper : fs.root.Proper) {path : String}
    {names : List String} (some_names : names ≠ []) (leads : Leads fs path names) :
    r.accepts (joinAll path names) = true ↔
      ∃ stem, stem ≠ "" ∧ names.getLast? = some (stem ++ ".swift") := by
  obtain ⟨front, last, rfl⟩ : ∃ front last, names = front ++ [last] :=
    ⟨_, _, (List.dropLast_append_getLast some_names).symm⟩
  have lists := leads.last
  rw [joinAll_concat, accepts, fileName?_join lists.somewhere (lists.proper proper),
    List.getLast?_concat]
  change (hasExtension last ".swift" || false) = true ↔ _
  rw [Bool.or_false, hasExtension_iff]
  exact exists_congr fun stem => and_congr_right fun _ => Option.some_inj.symm

/-- Where the directories below can be read, a reporter finds exactly the paths that lead on
through listed names to something that is no directory and that bears a Swift name, in their
strict order. Every walk for them comes back, and in whatever order it meets the entries of
directories, it comes back with these paths. -/
theorem pathsBelow_canonical {w : Workspace} (proper : w.files.root.Proper) {dir : String}
    (readable : Readable w.files dir) (r : Reporter) :
    ∃ found, r.pathsBelow w dir = .ok found ∧
      (∀ order, Reorders order →
        (∃ list, Walk w.files r.accepts order dir list) ∧
          ∀ list, Walk w.files r.accepts order dir list → list.mergeSort Path.le = found) ∧
      (∀ path, path ∈ found ↔
        ∃ names, names ≠ [] ∧ path = joinAll dir names ∧
          (∀ k (less : k < names.length),
            Lists w.files (joinAll dir (names.take k)) names[k]) ∧
          w.files.isDirectory path = false ∧
          ∃ stem, stem ≠ "" ∧ names.getLast? = some (stem ++ ".swift")) ∧
      found.Pairwise Precedes ∧
      (w.files.isDirectory dir = false → found = []) := by
  have given : w.files.listing r.accepts dir = .ok _ := listing_of_readable readable
  refine ⟨_, pathsBelow_eq_ok_iff.mpr given, ?_, ?_, pairwise_of_listing proper given, ?_⟩
  · intro order same
    exact ⟨exists_walk proper same readable, fun list walk => walk.mergeSort_eq proper same given⟩
  · intro path
    rw [mem_of_listing proper given]
    refine exists_congr fun names => and_congr_right fun some_names => ?_
    constructor
    · rintro ⟨leads, rfl, file, kept⟩
      exact ⟨rfl, leads_iff.mp leads, file, (accepts_joinAll proper some_names leads).mp kept⟩
    · rintro ⟨rfl, each, file, named⟩
      have leads := leads_iff.mpr each
      exact ⟨leads, rfl, file, (accepts_joinAll proper some_names leads).mpr named⟩
  · intro closed
    exact Except.ok.inj (given.symm.trans (listing_of_not_isDirectory closed))

section Loops

def loopLibrary : Directory where
  size := 64
  unread := none
  entries := [("Up.swift", .link ".."), ("Top.swift", .link "/"), (".swift", .file [] none),
    ("a.swift", .file [] none)]

/-- A directory with two links back up that have Swift names, one of them by the root, and a link
that leads nowhere. -/
def loopDirectory : Directory where
  size := 64
  unread := none
  entries := [("Lib", .directory loopLibrary), ("b.swift", .link "nowhere")]

def loopFiles : FileSystem := ⟨loopDirectory, [], .root⟩

def loopWorkspace : Workspace :=
  ⟨loopFiles, ⟨fun _ _ => none, fun _ _ _ => [], fun _ _ => .zero⟩⟩

def loopReporter : Reporter := ⟨.swift, .standard, .zero⟩

theorem inner_loopDirectory {name : String} {d : Directory}
    (entry : (name, .directory d) ∈ loopDirectory.entries) : name = "Lib" ∧ d = loopLibrary := by
  simpa [loopDirectory] using entry

theorem inner_loopLibrary {name : String} {d : Directory} :
    (name, .directory d) ∉ loopLibrary.entries := by
  simp [loopLibrary]

theorem proper_loopDirectory : loopDirectory.Proper := by
  have library : loopLibrary.Proper :=
    .intro (by decide) (by decide) fun _ _ entry => absurd entry inner_loopLibrary
  refine .intro (by decide) (by decide) ?_
  intro name d entry
  obtain ⟨_, rfl⟩ := inner_loopDirectory entry
  exact library

theorem opened_loopDirectory : loopDirectory.Open := by
  have library : loopLibrary.Open := .intro rfl fun _ _ entry => absurd entry inner_loopLibrary
  refine .intro rfl ?_
  intro name d entry
  obtain ⟨_, rfl⟩ := inner_loopDirectory entry
  exact library

theorem directory?_loopFiles :
    loopFiles.directory? "/Lib" = some loopLibrary ∧
      loopFiles.directory? "/Lib/Up.swift" = some loopDirectory ∧
      loopFiles.directory? "/Lib/Top.swift" = some loopDirectory ∧
      loopFiles.directory? "/Lib/Up.swift/b.swift" = none ∧
      loopFiles.directory? "/Lib/Top.swift/b.swift" = none := by
  simp +decide [directory?, resolve, steps, origin, follow, segments, Trail.here,
    Directory.lookup?, loopFiles, loopDirectory, loopLibrary, linkLimit]

/-- A link back up is a directory for all its name, and the one that leads nowhere is found
through both. -/
theorem pathsBelow_loopDirectory :
    loopWorkspace.files.root.Proper ∧ Readable loopWorkspace.files "/Lib" ∧
      ∃ found, loopReporter.pathsBelow loopWorkspace "/Lib" = .ok found ∧
        "/Lib/Up.swift/b.swift" ∈ found ∧ "/Lib/Top.swift/b.swift" ∈ found ∧
        "/Lib/Up.swift" ∉ found ∧
        ∃ list, list.mergeSort Path.le = found ∧
          Walk loopFiles loopReporter.accepts (fun _ => List.reverse) "/Lib" list := by
  obtain ⟨library, up, top, nowhere, nowhere'⟩ := directory?_loopFiles
  have readable : Readable loopWorkspace.files "/Lib" := readable_of_opened opened_loopDirectory _
  obtain ⟨found, given, walks, members, _, _⟩ :=
    pathsBelow_canonical (w := loopWorkspace) proper_loopDirectory readable loopReporter
  have reached {link : String} (listed : link ∈ loopLibrary.names)
      (back : loopFiles.directory? (join "/Lib" link) = some loopDirectory) (k : Nat)
      (less : k < [link, "b.swift"].length) :
      Lists loopFiles (joinAll "/Lib" ([link, "b.swift"].take k)) [link, "b.swift"][k] := by
    match k, less with
    | 0, _ => exact ⟨_, library, rfl, listed⟩
    | 1, _ => exact ⟨_, back, rfl, (by decide : "b.swift" ∈ loopDirectory.names)⟩
  refine ⟨proper_loopDirectory, readable, found, given, (members _).mpr ?_, (members _).mpr ?_,
    ?_, ?_⟩
  · exact ⟨["Up.swift", "b.swift"], by decide, by decide, reached (by decide) up,
      directory?_eq_none_iff.mp nowhere, "b", by decide, rfl⟩
  · exact ⟨["Top.swift", "b.swift"], by decide, by decide, reached (by decide) top,
      directory?_eq_none_iff.mp nowhere', "b", by decide, rfl⟩
  · intro member
    obtain ⟨_, _, _, _, file, _⟩ := (members _).mp member
    exact absurd (isDirectory_of_directory? up) (ne_true_of_eq_false file)
  · obtain ⟨⟨list, walk⟩, sorted⟩ := walks (fun _ => List.reverse) fun _ => List.reverse_perm
    exact ⟨list, sorted list walk, walk⟩

end Loops

end SyntaxReport.Reporter
