/- The listing below a path: exactly the paths that lead on from it to a file, each of them once,
whatever order directories give their entries in. -/
import Mathlib.Data.List.Perm.Basic
import Mathlib.Tactic.Choose
import SyntaxReport.FileSystem.Listing
import SyntaxReport.Proofs.FileSystem.Stand
import SyntaxReport.Proofs.Traverse

namespace SyntaxReport.FileSystem

open SyntaxReport.Path (join joinAll components ProperName)

variable {fs : FileSystem} {keep : String → Bool}

/-- The directory that a path leads to can be read and has an entry of this name. -/
def Lists (fs : FileSystem) (path name : String) : Prop :=
  ∃ d, fs.directory? path = some d ∧ d.unread = none ∧ name ∈ d.names

/-- Each name has an entry in the directory that the path and the names before it lead to. -/
def Leads (fs : FileSystem) : String → List String → Prop
  | _, [] => True
  | path, name :: names => Lists fs path name ∧ Leads fs (join path name) names

/-- Every directory that listed names lead to from a path can be read. -/
def Readable (fs : FileSystem) (path : String) : Prop :=
  ∀ names d, Leads fs path names → fs.directory? (joinAll path names) = some d → d.unread = none

section Leads

theorem leads_iff {path : String} {names : List String} :
    Leads fs path names ↔
      ∀ k (less : k < names.length), Lists fs (joinAll path (names.take k)) names[k] := by
  induction names generalizing path with
  | nil => exact iff_of_true trivial fun k less => absurd less (Nat.not_lt_zero k)
  | cons name names ih =>
    rw [Leads, ih]
    constructor
    · rintro ⟨first, later⟩ k less
      cases k with
      | zero => exact first
      | succ k => exact later k (Nat.lt_of_succ_lt_succ less)
    · intro each
      exact ⟨each 0 (Nat.succ_pos _), fun k less => each (k + 1) (Nat.succ_lt_succ less)⟩

theorem Leads.last {path last : String} {front : List String}
    (leads : Leads fs path (front ++ [last])) : Lists fs (joinAll path front) last := by
  have there := leads_iff.mp leads front.length (by simp)
  rwa [List.take_left, List.getElem_concat_length rfl] at there

theorem Leads.concat {path last : String} {names : List String} (leads : Leads fs path names)
    (lists : Lists fs (joinAll path names) last) : Leads fs path (names ++ [last]) := by
  induction names generalizing path with
  | nil => exact ⟨lists, trivial⟩
  | cons name names ih => exact ⟨leads.1, ih leads.2 lists⟩

theorem Lists.isDirectory {path name : String} (lists : Lists fs path name) :
    fs.isDirectory path = true := by
  obtain ⟨d, leads, _⟩ := lists
  exact isDirectory_of_directory? leads

theorem Lists.somewhere {path name : String} (lists : Lists fs path name) : path ≠ "" :=
  (followed_of_isDirectory lists.isDirectory).somewhere

theorem Lists.proper {path name : String} (proper : fs.root.Proper) (lists : Lists fs path name) :
    ProperName name := by
  obtain ⟨d, leads, _, member⟩ := lists
  exact (proper_of_directory? proper leads).names member

theorem Leads.proper {path : String} {names : List String} (proper : fs.root.Proper)
    (leads : Leads fs path names) : ∀ name ∈ names, ProperName name := by
  induction names generalizing path with
  | nil => exact fun _ member => absurd member List.not_mem_nil
  | cons first names ih =>
    intro name member
    rcases List.mem_cons.mp member with rfl | later
    · exact leads.1.proper proper
    · exact ih leads.2 name later

/-- A name makes a path longer that is not too long to lead to a directory. -/
theorem Lists.longer {path name : String} (proper : fs.root.Proper) (lists : Lists fs path name) :
    path.utf8ByteSize < pathLimit ∧ path.utf8ByteSize < (join path name).utf8ByteSize :=
  ⟨(followed_of_isDirectory lists.isDirectory).short,
    Path.utf8ByteSize_lt_join path (lists.proper proper)⟩

/-- So the limit on paths bounds the number of names as well. -/
theorem Leads.length_le {path : String} {names : List String} (proper : fs.root.Proper)
    (leads : Leads fs path names) (some_names : names ≠ []) :
    names.length + path.utf8ByteSize ≤ pathLimit := by
  induction names generalizing path with
  | nil => exact absurd rfl some_names
  | cons name names ih =>
    obtain ⟨short, longer⟩ := leads.1.longer proper
    by_cases last : names = []
    · rw [last, List.length_singleton]
      omega
    · have rest := ih leads.2 last
      rw [List.length_cons]
      omega

theorem Readable.join {path name : String} (readable : Readable fs path)
    (lists : Lists fs path name) : Readable fs (Path.join path name) :=
  fun names d leads there => readable (name :: names) d ⟨lists, leads⟩ there

theorem readable_of_opened (opened : fs.root.Open) (path : String) : Readable fs path := by
  intro names d _ there
  rw [directory?_eq_stand?] at there
  obtain ⟨stand, stands, rfl⟩ := Option.map_eq_some_iff.mp there
  exact ((rooted_of_stand? stands).2.opened opened).unread

end Leads

section Found

/-- The names that are listed at a path. -/
def listed (fs : FileSystem) (path : String) : List String :=
  match fs.directory? path with
  | none => []
  | some d => if d.unread.isNone then d.names else []

/-- The paths that a walk finds if nothing ends it. -/
def pathsWithin (fs : FileSystem) (keep : String → Bool) : Nat → String → List String
  | 0, _ => []
  | levels + 1, path =>
    (fs.listed path).flatMap fun name =>
      if fs.isDirectory (join path name) then pathsWithin fs keep levels (join path name)
      else if keep (join path name) then [join path name] else []

theorem mem_listed {path name : String} : name ∈ fs.listed path ↔ Lists fs path name := by
  unfold listed Lists
  cases fs.directory? path with
  | none => simp
  | some d => simp [List.mem_ite_nil_right]

theorem listed_of_directory? {path : String} {d : Directory} (leads : fs.directory? path = some d)
    (readable : d.unread = none) : fs.listed path = d.names := by
  simp [listed, leads, readable]

theorem listed_of_none {path : String} (closed : fs.directory? path = none) :
    fs.listed path = [] := by
  rw [listed, closed]

theorem nodup_listed (proper : fs.root.Proper) (path : String) : (fs.listed path).Nodup := by
  unfold listed
  split
  · exact List.nodup_nil
  · next d leads =>
    split
    · exact (proper_of_directory? proper leads).distinct
    · exact List.nodup_nil

/-- The paths that a walk finds at one name that is listed at a path. -/
def pathsAt (fs : FileSystem) (keep : String → Bool) (levels : Nat) (path name : String) :
    List String :=
  if fs.isDirectory (join path name) then pathsWithin fs keep levels (join path name)
  else if keep (join path name) then [join path name] else []

theorem pathsWithin_succ (fs : FileSystem) (keep : String → Bool) (levels : Nat) (path : String) :
    pathsWithin fs keep (levels + 1) path = (fs.listed path).flatMap (fs.pathsAt keep levels path) :=
  rfl

theorem pathsWithin_of_read {path : String} {d : Directory} (leads : fs.directory? path = some d)
    (readable : d.unread = none) (levels : Nat) :
    pathsWithin fs keep (levels + 1) path = d.names.flatMap (fs.pathsAt keep levels path) := by
  rw [pathsWithin_succ, listed_of_directory? leads readable]

theorem pathsWithin_of_none {path : String} (closed : fs.directory? path = none) (levels : Nat) :
    pathsWithin fs keep levels path = [] := by
  cases levels with
  | zero => rfl
  | succ levels =>
    rw [pathsWithin, listed_of_none closed]
    rfl

theorem walk_of_none {path : String} (closed : fs.directory? path = none) (levels : Nat) :
    fs.walk keep levels path = .ok [] := by
  cases levels with
  | zero => rfl
  | succ levels => rw [walk, closed]

/-- What a walk comes to at one name that is listed at a path. -/
def walkAt (fs : FileSystem) (keep : String → Bool) (levels : Nat) (path name : String) :
    Except (String × ReadFailure) (List String) :=
  if fs.isDirectory (join path name) then fs.walk keep levels (join path name)
  else .ok (if keep (join path name) then [join path name] else [])

theorem walk_of_read {path : String} {d : Directory} (leads : fs.directory? path = some d)
    (readable : d.unread = none) (levels : Nat) :
    fs.walk keep (levels + 1) path =
      (d.names.mapM (fs.walkAt keep levels path)).map List.flatten := by
  rw [walk, leads]
  simp only [readable]
  rfl

/-- A walk from a path ends here: at a directory below that cannot be read. -/
def Ends (fs : FileSystem) (path : String) (failure : String × ReadFailure) : Prop :=
  ∃ names d, Leads fs path names ∧ failure.1 = joinAll path names ∧
    fs.directory? failure.1 = some d ∧ d.unread = some failure.2

theorem Ends.of_join {path name : String} {failure : String × ReadFailure}
    (lists : Lists fs path name) (ends : Ends fs (join path name) failure) :
    Ends fs path failure := by
  obtain ⟨names, d, leads, same, there, unread⟩ := ends
  exact ⟨name :: names, d, ⟨lists, leads⟩, same, there, unread⟩

/-- A walk finds all it can, or it fails at a directory below that cannot be read. -/
theorem walk_cases (fs : FileSystem) (keep : String → Bool) (levels : Nat) (path : String) :
    fs.walk keep levels path = .ok (pathsWithin fs keep levels path) ∨
      ∃ failure, Ends fs path failure ∧ fs.walk keep levels path = .error failure := by
  induction levels generalizing path with
  | zero => exact .inl rfl
  | succ levels ih =>
    cases leads : fs.directory? path with
    | none =>
      left
      rw [walk_of_none leads, pathsWithin_of_none leads]
    | some d =>
      cases readable : d.unread with
      | some cause =>
        refine .inr ⟨(path, cause), ⟨[], d, trivial, rfl, leads, readable⟩, ?_⟩
        rw [walk, leads]
        simp only [readable]
      | none =>
        have each : ∀ name ∈ d.names,
            fs.walkAt keep levels path name = .ok (fs.pathsAt keep levels path name) ∨
              ∃ failure, Ends fs path failure ∧
                fs.walkAt keep levels path name = .error failure := by
          intro name member
          unfold walkAt pathsAt
          split
          · rcases ih (join path name) with all | ⟨failure, ends, failed⟩
            · exact .inl all
            · exact .inr ⟨failure, ends.of_join ⟨d, leads, readable, member⟩, failed⟩
          · exact .inl rfl
        rw [walk_of_read leads readable, pathsWithin_of_read leads readable]
        rcases mapM_cases each with all | ⟨failure, ends, failed⟩
        · left
          rw [all, List.flatMap_def]
          rfl
        · refine .inr ⟨failure, ends, ?_⟩
          rw [failed]
          rfl

theorem walk_of_readable {path : String} (readable : Readable fs path) (levels : Nat) :
    fs.walk keep levels path = .ok (pathsWithin fs keep levels path) := by
  rcases fs.walk_cases keep levels path with all | ⟨failure, ⟨names, d, leads, same, there, unread⟩, _⟩
  · exact all
  · rw [same] at there
    cases (readable names d leads there).symm.trans unread

theorem mem_pathsWithin {levels : Nat} {path p : String} :
    p ∈ pathsWithin fs keep levels path ↔
      ∃ names, names ≠ [] ∧ names.length ≤ levels ∧ Leads fs path names ∧
        p = joinAll path names ∧ fs.isDirectory p = false ∧ keep p = true := by
  induction levels generalizing path with
  | zero =>
    refine iff_of_false List.not_mem_nil ?_
    rintro ⟨names, some_names, short, _⟩
    exact some_names (List.eq_nil_of_length_eq_zero (Nat.eq_zero_of_le_zero short))
  | succ levels ih =>
    rw [pathsWithin, List.mem_flatMap]
    constructor
    · rintro ⟨name, here, below⟩
      have lists := mem_listed.mp here
      split at below
      · obtain ⟨names, _, short, leads, rest⟩ := ih.mp below
        exact ⟨name :: names, List.cons_ne_nil _ _, Nat.succ_le_succ short, ⟨lists, leads⟩, rest⟩
      · next file =>
        obtain ⟨kept, single⟩ := List.mem_ite_nil_right.mp below
        cases List.mem_singleton.mp single
        exact ⟨[name], List.cons_ne_nil _ _, Nat.succ_le_succ (Nat.zero_le _), ⟨lists, trivial⟩,
          rfl, eq_false_of_ne_true file, kept⟩
    · rintro ⟨names, some_names, short, leads, same, file, kept⟩
      cases names with
      | nil => exact absurd rfl some_names
      | cons name names =>
        refine ⟨name, mem_listed.mpr leads.1, ?_⟩
        cases names with
        | nil =>
          have same : p = join path name := same
          rw [← same, file, kept]
          exact List.mem_singleton_self p
        | cons next names =>
          rw [if_pos leads.2.1.isDirectory]
          exact ih.mpr ⟨_, List.cons_ne_nil _ _, Nat.le_of_succ_le_succ short, leads.2, same, file,
            kept⟩

/-- The paths found at a name and below it go on from that name. -/
theorem components_of_leads {path name p : String} {names : List String} (proper : fs.root.Proper)
    (leads : Leads fs path (name :: names)) (same : p = joinAll path (name :: names)) :
    ∃ rest, components p = components path ++ .name name :: rest := by
  refine ⟨names.map .name, ?_⟩
  rw [same, Path.components_joinAll leads.1.somewhere (leads.proper proper)]
  rfl

/-- No path is found twice, in any spelling. -/
theorem nodup_components (proper : fs.root.Proper) (levels : Nat) (path : String) :
    ((pathsWithin fs keep levels path).map components).Nodup := by
  induction levels generalizing path with
  | zero => exact List.nodup_nil
  | succ levels ih =>
    rw [pathsWithin_succ, List.map_flatMap, List.nodup_flatMap]
    have begins {name p : String} (here : name ∈ fs.listed path)
        (member : p ∈ fs.pathsAt keep levels path name) :
        ∃ rest, components p = components path ++ .name name :: rest := by
      have lists := mem_listed.mp here
      unfold pathsAt at member
      split at member
      · obtain ⟨names, _, _, leads, same, _⟩ := mem_pathsWithin.mp member
        exact components_of_leads proper ⟨lists, leads⟩ same
      · cases List.mem_singleton.mp (List.mem_ite_nil_right.mp member).2
        have leads : Leads fs path [name] := ⟨lists, trivial⟩
        exact components_of_leads proper leads rfl
    constructor
    · intro name _
      unfold pathsAt
      split
      · exact ih (join path name)
      · split
        · exact List.nodup_singleton _
        · exact List.nodup_nil
    · apply (nodup_listed proper path).imp_of_mem
      -- the names come right behind the path, so different names part what is found at them
      intro a b first second different parts inFirst inSecond
      obtain ⟨p, foundFirst, rfl⟩ := List.mem_map.mp inFirst
      obtain ⟨q, foundSecond, same⟩ := List.mem_map.mp inSecond
      obtain ⟨rest, left⟩ := begins first foundFirst
      obtain ⟨more, right⟩ := begins second foundSecond
      rw [left, right] at same
      have names := List.append_cancel_left same
      injection names with head
      injection head with name
      exact different name.symm

theorem nodup_pathsWithin (proper : fs.root.Proper) (levels : Nat) (path : String) :
    (pathsWithin fs keep levels path).Nodup := (nodup_components proper levels path).of_map

end Found

/-- The entries of the directory that a path leads to come in some order. -/
def Reorders (order : String → List String → List String) : Prop :=
  ∀ path names, (order path names).Perm names

/-- The paths that a walk comes back with, where the names in each directory come as `order`
says. -/
inductive Walk (fs : FileSystem) (keep : String → Bool)
    (order : String → List String → List String) : String → List String → Prop
  | closed {path : String} (closed : fs.directory? path = none) : Walk fs keep order path []
  | opened {path : String} {d : Directory} {below : String → List String}
      (leads : fs.directory? path = some d) (readable : d.unread = none)
      (each : ∀ name ∈ order path d.names,
        fs.isDirectory (join path name) = true → Walk fs keep order (join path name) (below name)) :
      Walk fs keep order path ((order path d.names).flatMap fun name =>
        if fs.isDirectory (join path name) then below name
        else if keep (join path name) then [join path name] else [])

section Walk

variable {order : String → List String → List String}

/-- From every path some walk comes back, however many links lead back up. -/
theorem exists_walk (proper : fs.root.Proper) (same : Reorders order) {path : String}
    (readable : Readable fs path) : ∃ found, Walk fs keep order path found := by
  induction room : pathLimit - path.utf8ByteSize using Nat.strongRecOn generalizing path with
  | _ room ih =>
    cases leads : fs.directory? path with
    | none => exact ⟨[], .closed leads⟩
    | some d =>
      have open_ : d.unread = none := readable [] d trivial leads
      have each (name : String) : ∃ found, name ∈ order path d.names →
          fs.isDirectory (join path name) = true → Walk fs keep order (join path name) found := by
        by_cases member : name ∈ order path d.names
        · have lists : Lists fs path name := ⟨d, leads, open_, (same path d.names).subset member⟩
          obtain ⟨short, longer⟩ := lists.longer proper
          obtain ⟨found, walk⟩ := ih _ (by omega) (readable.join lists) rfl
          exact ⟨found, fun _ _ => walk⟩
        · exact ⟨[], fun given => absurd given member⟩
      choose below walks using each
      exact ⟨_, .opened leads open_ walks⟩

/-- Every walk finds the same paths, and enough levels find them all. -/
theorem Walk.perm (proper : fs.root.Proper) (same : Reorders order) {path : String}
    {list : List String} (walk : Walk fs keep order path list) {levels : Nat}
    (enough : pathLimit ≤ levels + path.utf8ByteSize) :
    list.Perm (pathsWithin fs keep levels path) := by
  induction walk generalizing levels with
  | closed closed => rw [pathsWithin_of_none closed]
  | @opened path d below leads readable each ih =>
    have short := (followed_of_isDirectory (isDirectory_of_directory? leads)).short
    obtain ⟨rest, rfl⟩ : ∃ rest, levels = rest + 1 := ⟨levels - 1, by omega⟩
    rw [pathsWithin_of_read leads readable]
    refine List.Perm.flatMap (same path d.names) fun name member => ?_
    have lists : Lists fs path name := ⟨d, leads, readable, (same path d.names).subset member⟩
    have longer := (lists.longer proper).2
    unfold pathsAt
    by_cases inner : fs.isDirectory (join path name) = true
    · simp only [if_pos inner]
      exact ih name member inner (by omega)
    · simp only [if_neg inner]
      exact .refl _

end Walk

section Listing

variable {path : String} {found : List String}

theorem eq_of_listing (given : fs.listing keep path = .ok found) :
    found = (pathsWithin fs keep pathLimit path).mergeSort Path.le := by
  rw [listing] at given
  rcases fs.walk_cases keep pathLimit path with all | ⟨_, _, failed⟩
  · rw [all] at given
    cases given
    rfl
  · rw [failed] at given
    cases given

theorem listing_of_readable (readable : Readable fs path) :
    fs.listing keep path = .ok ((pathsWithin fs keep pathLimit path).mergeSort Path.le) := by
  rw [listing, walk_of_readable readable]
  rfl

/-- Where there is no listing, a directory below cannot be read. -/
theorem ends_of_listing {failure : String × ReadFailure}
    (failed : fs.listing keep path = .error failure) : Ends fs path failure := by
  rw [listing] at failed
  rcases fs.walk_cases keep pathLimit path with all | ⟨_, ends, stopped⟩
  · rw [all] at failed
    cases failed
  · rw [stopped] at failed
    cases failed
    exact ends

theorem Walk.mergeSort_eq {order : String → List String → List String} (proper : fs.root.Proper)
    (same : Reorders order) {list : List String} (walk : Walk fs keep order path list)
    (given : fs.listing keep path = .ok found) : list.mergeSort Path.le = found := by
  rw [eq_of_listing given]
  exact Path.mergeSort_eq_of_perm (nodup_components proper pathLimit path)
    (walk.perm proper same (Nat.le_add_right ..))

theorem mem_of_listing (proper : fs.root.Proper) (given : fs.listing keep path = .ok found)
    {p : String} :
    p ∈ found ↔
      ∃ names, names ≠ [] ∧ Leads fs path names ∧ p = joinAll path names ∧
        fs.isDirectory p = false ∧ keep p = true := by
  rw [eq_of_listing given, List.mem_mergeSort, mem_pathsWithin]
  refine exists_congr fun names => and_congr_right fun some_names => ?_
  refine and_iff_right_of_imp fun ⟨leads, _⟩ => ?_
  have bound := leads.length_le proper some_names
  omega

theorem pairwise_of_listing (proper : fs.root.Proper) (given : fs.listing keep path = .ok found) :
    found.Pairwise Path.Precedes := by
  rw [eq_of_listing given]
  exact Path.pairwise_precedes_mergeSort (nodup_components proper pathLimit path)

theorem nodup_of_listing (proper : fs.root.Proper) (given : fs.listing keep path = .ok found) :
    found.Nodup := by
  rw [eq_of_listing given]
  exact (List.mergeSort_perm _ _).nodup_iff.mpr (nodup_pathsWithin proper pathLimit path)

theorem listing_of_not_isDirectory (closed : fs.isDirectory path = false) :
    fs.listing keep path = .ok [] := by
  rw [listing, walk_of_none (directory?_eq_none_iff.mpr closed), Except.map, List.mergeSort_nil]

end Listing

end SyntaxReport.FileSystem
