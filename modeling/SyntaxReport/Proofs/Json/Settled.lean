/- JSON values that name each key of an object once, and how deep values are nested. -/
import Mathlib.Data.List.Basic
import SyntaxReport.Json.Value

namespace SyntaxReport.Json

/-- No object in the value names a key twice, so each key keeps its value. -/
def Settled (j : Json) : Prop := j.lastWins = j

theorem settled_null : Settled .null := rfl

theorem settled_bool (b : Bool) : Settled (.bool b) := rfl

theorem settled_nat (n : Nat) : Settled (.nat n) := rfl

theorem settled_str (s : String) : Settled (.str s) := rfl

theorem lastWinsItems_eq {items : List Json} (each : ∀ j ∈ items, j.Settled) :
    lastWinsItems items = items := by
  induction items with
  | nil => rfl
  | cons j rest ih =>
    have here : j.lastWins = j := each j List.mem_cons_self
    rw [lastWinsItems, here, ih fun i member => each i (List.mem_cons_of_mem j member)]

theorem lastWinsMembers_eq {members : List (String × Json)}
    (distinct : (members.map Prod.fst).Nodup) (each : ∀ m ∈ members, m.2.Settled) :
    lastWinsMembers members = members := by
  induction members with
  | nil => rfl
  | cons m rest ih =>
    obtain ⟨key, j⟩ := m
    have here : j.lastWins = j := each (key, j) List.mem_cons_self
    obtain ⟨fresh, others⟩ := List.nodup_cons.mp distinct
    have later := ih others fun m member => each m (List.mem_cons_of_mem _ member)
    have once : rest.any (·.1 = key) = false := by
      rw [List.any_eq_false]
      intro m member same
      exact fresh (List.mem_map.mpr ⟨m, member, of_decide_eq_true same⟩)
    rw [lastWinsMembers, later, here]
    simp only [once, Bool.false_eq_true, if_false]

theorem settled_arr {items : List Json} (each : ∀ j ∈ items, j.Settled) :
    Settled (.arr items) := by
  rw [Settled, lastWins, lastWinsItems_eq each]

theorem settled_obj {members : List (String × Json)} (distinct : (members.map Prod.fst).Nodup)
    (each : ∀ m ∈ members, m.2.Settled) : Settled (.obj members) := by
  rw [Settled, lastWins, lastWinsMembers_eq distinct each]

theorem settled_record {keys : List String} (distinct : keys.Nodup) {values : List Json}
    (whole : values.length = keys.length) (each : ∀ v ∈ values, v.Settled) :
    Settled (.obj (keys.zip values)) := by
  refine settled_obj ?_ fun m member => each m.2 (List.of_mem_zip member).2
  rwa [List.map_fst_zip (Nat.le_of_eq whole.symm)]

theorem depth_le_of_mem_items {items : List Json} {j : Json} (member : j ∈ items) :
    j.depth ≤ depthOfItems items := by
  induction items with
  | nil => cases member
  | cons i rest ih =>
    rcases List.mem_cons.mp member with rfl | later
    · exact Nat.le_max_left ..
    · exact Nat.le_trans (ih later) (Nat.le_max_right ..)

theorem depth_le_of_mem_members {members : List (String × Json)} {m : String × Json}
    (member : m ∈ members) : m.2.depth ≤ depthOfMembers members := by
  induction members with
  | nil => cases member
  | cons first rest ih =>
    rcases List.mem_cons.mp member with rfl | later
    · exact Nat.le_max_left ..
    · exact Nat.le_trans (ih later) (Nat.le_max_right ..)

end SyntaxReport.Json
