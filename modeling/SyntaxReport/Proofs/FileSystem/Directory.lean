/- Directories with proper names, from a root down, and the trails to them. -/
import Mathlib.Data.List.Nodup
import SyntaxReport.FileSystem.Directory
import SyntaxReport.Proofs.FileSystem.Path

namespace SyntaxReport

namespace Directory

/-- Every directory from this one down has proper names, and each of them once. What a link says
is free: it may lead nowhere, or back up. -/
inductive Proper : Directory → Prop
  | intro {d : Directory} (names : ∀ name ∈ d.names, Path.ProperName name)
      (distinct : d.names.Nodup)
      (inner : ∀ name below, (name, .directory below) ∈ d.entries → Proper below) : Proper d

theorem Proper.names {d : Directory} (proper : d.Proper) {name : String}
    (member : name ∈ d.names) : Path.ProperName name := by
  cases proper with
  | intro names => exact names name member

theorem Proper.distinct {d : Directory} (proper : d.Proper) : d.names.Nodup := by
  cases proper with
  | intro _ distinct => exact distinct

/-- Every directory from this one down can be read. -/
inductive Open : Directory → Prop
  | intro {d : Directory} (read : d.unread = none)
      (inner : ∀ name below, (name, .directory below) ∈ d.entries → Open below) : Open d

theorem mem_of_lookup? {d : Directory} {name : String} {entry : FileEntry}
    (found : d.lookup? name = some entry) : (name, entry) ∈ d.entries := by
  obtain ⟨item, first, rfl⟩ := Option.map_eq_some_iff.mp found
  have named := List.find?_some first
  rw [← of_decide_eq_true named]
  exact List.mem_of_find?_eq_some first

theorem Proper.lookup?_of_mem {d : Directory} (proper : d.Proper) {name : String}
    {entry : FileEntry} (member : (name, entry) ∈ d.entries) : d.lookup? name = some entry := by
  cases found : d.lookup? name with
  | none =>
    have missing := List.find?_eq_none.mp (Option.map_eq_none_iff.mp found) _ member
    exact absurd (decide_eq_true rfl) missing
  | some other =>
    have same := List.inj_on_of_nodup_map proper.distinct (mem_of_lookup? found) member rfl
    cases same
    rfl

theorem Proper.lookup? {d below : Directory} {name : String} (proper : d.Proper)
    (found : d.lookup? name = some (.directory below)) : below.Proper := by
  cases proper with
  | intro _ _ inner => exact inner name below (mem_of_lookup? found)

theorem Open.unread {d : Directory} (opened : d.Open) : d.unread = none := by
  cases opened with
  | intro read => exact read

theorem Open.lookup? {d below : Directory} {name : String} (opened : d.Open)
    (found : d.lookup? name = some (.directory below)) : below.Open := by
  cases opened with
  | intro _ inner => exact inner name below (mem_of_lookup? found)

end Directory

namespace Trail

def names (trail : Trail) : List String := trail.map Prod.fst

end Trail

namespace Rooted

variable {root : Directory}

theorem drop_one {trail : Trail} (rooted : Rooted root trail) : Rooted root (trail.drop 1) := by
  cases rooted with
  | root => exact .root
  | inside around => exact around

theorem proper {trail : Trail} (rooted : Rooted root trail) (proper : root.Proper) :
    (trail.here root).Proper := by
  induction rooted with
  | root => exact proper
  | inside _ entry ih => exact ih.lookup? entry

theorem opened {trail : Trail} (rooted : Rooted root trail) (opened : root.Open) :
    (trail.here root).Open := by
  induction rooted with
  | root => exact opened
  | inside _ entry ih => exact ih.lookup? entry

/-- The names tell the directory. -/
theorem eq_of_names {first second : Trail} (rooted : Rooted root first)
    (other : Rooted root second) (same : first.names = second.names) : first = second := by
  induction rooted generalizing second with
  | root => exact (List.map_eq_nil_iff.mp same.symm).symm
  | inside _ entry ih =>
    cases other with
    | root => cases same
    | inside around found =>
      injection same with named names
      cases ih around names
      cases named
      cases entry.symm.trans found
      rfl

end Rooted
end SyntaxReport
