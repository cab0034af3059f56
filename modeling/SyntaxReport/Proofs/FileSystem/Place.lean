/- The real directories, each known by the names that it lies under. -/
import SyntaxReport.Proofs.FileSystem.Directory

namespace SyntaxReport

namespace Directory

mutual

/-- The places of the directories in an entry, from the place around it and its name. -/
def placesOf (around : List String) (name : String) : FileEntry → List (List String)
  | .directory ⟨_, _, entries⟩ => (name :: around) :: placesAmong (name :: around) entries
  | _ => []

def placesAmong (around : List String) : List (String × FileEntry) → List (List String)
  | [] => []
  | (name, entry) :: rest => placesOf around name entry ++ placesAmong around rest

end

/-- The places of a root and of all directories below it. That of the root needs no names. -/
def places (root : Directory) : List (List String) := [] :: placesAmong [] root.entries

theorem placesOf_directory (around : List String) (name : String) (d : Directory) :
    placesOf around name (.directory d) = (name :: around) :: placesAmong (name :: around) d.entries := by
  cases d
  rfl

theorem placesAmong_eq (around : List String) (entries : List (String × FileEntry)) :
    placesAmong around entries = entries.flatMap fun (name, entry) => placesOf around name entry := by
  induction entries with
  | nil => rfl
  | cons first rest ih =>
    obtain ⟨name, entry⟩ := first
    rw [placesAmong, ih, List.flatMap_cons]

theorem mem_placesAmong {around p : List String} {entries : List (String × FileEntry)} :
    p ∈ placesAmong around entries ↔ ∃ name d, (name, .directory d) ∈ entries ∧
      (p = name :: around ∨ p ∈ placesAmong (name :: around) d.entries) := by
  rw [placesAmong_eq, List.mem_flatMap]
  constructor
  · rintro ⟨⟨name, entry⟩, member, inside⟩
    cases entry with
    | directory d =>
      change p ∈ placesOf around name (.directory d) at inside
      rw [placesOf_directory] at inside
      exact ⟨name, d, member, List.mem_cons.mp inside⟩
    | _ => cases inside
  · rintro ⟨name, d, member, inside⟩
    refine ⟨(name, .directory d), member, ?_⟩
    change p ∈ placesOf around name (.directory d)
    rw [placesOf_directory]
    exact List.mem_cons.mpr inside

mutual

theorem suffix_of_mem_placesOf {around p : List String} {name : String} {entry : FileEntry}
    (member : p ∈ placesOf around name entry) : name :: around <:+ p := by
  match entry with
  | .file _ _ => cases member
  | .link _ => cases member
  | .sealed _ => cases member
  | .directory ⟨_, _, entries⟩ =>
    rcases List.mem_cons.mp member with rfl | below
    · exact List.suffix_rfl
    · obtain ⟨inner, longer⟩ := suffix_of_mem_placesAmong below
      exact (List.suffix_cons inner _).trans longer

theorem suffix_of_mem_placesAmong {around p : List String} {entries : List (String × FileEntry)}
    (member : p ∈ placesAmong around entries) : ∃ name, name :: around <:+ p := by
  match entries with
  | [] => cases member
  | (name, entry) :: rest =>
    rcases List.mem_append.mp member with here | later
    · exact ⟨name, suffix_of_mem_placesOf here⟩
    · exact suffix_of_mem_placesAmong later

end

theorem not_mem_placesAmong (around : List String) (entries : List (String × FileEntry)) :
    around ∉ placesAmong around entries := by
  intro member
  obtain ⟨inner, longer⟩ := suffix_of_mem_placesAmong member
  exact absurd longer.length_le (by simp)

theorem Proper.nodup_placesAmong {d : Directory} (proper : d.Proper) (around : List String) :
    (placesAmong around d.entries).Nodup := by
  induction proper generalizing around with
  | @intro d _ distinct _ ih =>
    rw [placesAmong_eq, List.nodup_flatMap]
    constructor
    · rintro ⟨name, entry⟩ member
      cases entry with
      | directory below =>
        dsimp only
        rw [placesOf_directory]
        exact List.nodup_cons.mpr
          ⟨not_mem_placesAmong _ _, ih name below member (name :: around)⟩
      | _ => exact List.nodup_nil
    · apply (List.pairwise_map.mp distinct).imp
      intro first second different p inFirst inSecond
      -- a place tells the name that it lies under
      have one := suffix_of_mem_placesOf inFirst
      have two := suffix_of_mem_placesOf inSecond
      have same := List.suffix_of_suffix_length_le one two (Nat.le_refl _)
      injection same.eq_of_length rfl with names
      exact different names

theorem Proper.nodup_places {root : Directory} (proper : root.Proper) : root.places.Nodup :=
  List.nodup_cons.mpr ⟨not_mem_placesAmong _ _, proper.nodup_placesAmong []⟩

theorem exists_rooted_of_mem {root d : Directory} (proper : d.Proper) {trail : Trail}
    (rooted : Rooted root trail) (here : trail.here root = d) {p : List String}
    (member : p ∈ placesAmong trail.names d.entries) : ∃ there, Rooted root there ∧ there.names = p := by
  induction proper generalizing trail with
  | @intro d names distinct inner ih =>
    obtain ⟨name, below, entry, place⟩ := mem_placesAmong.mp member
    have found := (Proper.intro names distinct inner).lookup?_of_mem entry
    rw [← here] at found
    rcases place with rfl | further
    · exact ⟨_, .inside rooted found, rfl⟩
    · exact ih name below entry (.inside rooted found) rfl further

end Directory

open Directory

/-- The trail of a directory has its place, and those of the directories in it too. -/
theorem Rooted.mem_places {root : Directory} {trail : Trail} (rooted : Rooted root trail) :
    trail.names ∈ root.places ∧
      ∀ p ∈ placesAmong trail.names (trail.here root).entries, p ∈ root.places := by
  induction rooted with
  | root => exact ⟨List.mem_cons_self, fun p member => List.mem_cons_of_mem _ member⟩
  | @inside trail name d _ found ih =>
    have listed := mem_of_lookup? found
    constructor
    · exact ih.2 _ (mem_placesAmong.mpr ⟨name, d, listed, .inl rfl⟩)
    · intro p below
      exact ih.2 p (mem_placesAmong.mpr ⟨name, d, listed, .inr below⟩)

/-- The places are those of the trails, each of them once. -/
theorem Directory.mem_places_iff {root : Directory} (proper : root.Proper) {p : List String} :
    p ∈ root.places ↔ ∃ trail, Rooted root trail ∧ trail.names = p := by
  constructor
  · intro member
    rcases List.mem_cons.mp member with rfl | below
    · exact ⟨[], .root, rfl⟩
    · exact exists_rooted_of_mem proper .root rfl below
  · rintro ⟨trail, rooted, rfl⟩
    exact rooted.mem_places.1

end SyntaxReport
