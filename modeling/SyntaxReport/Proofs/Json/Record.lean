/- The fields of a record do not depend on how the value that holds them is laid out. -/
import Mathlib.Data.List.Count
import Mathlib.Data.List.Perm.Basic
import SyntaxReport.Json.Form
import SyntaxReport.Proofs.Json.Settled

namespace SyntaxReport.Form

/-- None of the keys is repeated among the members. -/
def Once (keys : List String) (members : List (String × Json)) : Prop :=
  ∀ key ∈ keys, members.countP (·.1 = key) ≤ 1

def valueOf? (members : List (String × Json)) (key : String) : Option Json :=
  (members.find? (·.1 = key)).map Prod.snd

theorem fields?_of_once {keys : List String} {members : List (String × Json)}
    (once : Once keys members) :
    fields? keys (.obj members) = some (keys.map (valueOf? members)) := by
  refine if_pos ?_
  rw [List.all_eq_true]
  exact fun key member => decide_eq_true (once key member)

theorem fields?_of_not_once {keys : List String} {members : List (String × Json)}
    (twice : ¬ Once keys members) : fields? keys (.obj members) = none := by
  refine if_neg fun all => twice fun key member => ?_
  exact of_decide_eq_true (List.all_eq_true.mp all key member)

/-- The members of an object that a record with these keys has a field for. -/
def known (keys : List String) (members : List (String × Json)) : List (String × Json) :=
  members.filter (·.1 ∈ keys)

theorem countP_known {keys : List String} {key : String} (member : key ∈ keys)
    (members : List (String × Json)) :
    (known keys members).countP (·.1 = key) = members.countP (·.1 = key) := by
  rw [known, List.countP_filter]
  refine List.countP_congr fun m _ => ?_
  simp only [Bool.and_eq_true, decide_eq_true_eq, and_iff_left_iff_imp]
  rintro rfl
  exact member

theorem valueOf?_known {keys : List String} {key : String} (member : key ∈ keys)
    (members : List (String × Json)) :
    valueOf? (known keys members) key = valueOf? members key := by
  rw [valueOf?, valueOf?, known, List.find?_filter]
  congr 2
  funext m
  simp only [decide_eq_true_eq, decide_eq_decide, and_iff_right_iff_imp]
  rintro rfl
  exact member

theorem find?_eq_of_perm {α : Type} {p : α → Bool} {xs ys : List α} (perm : xs.Perm ys)
    (once : xs.countP p ≤ 1) : xs.find? p = ys.find? p := by
  rw [← List.head?_filter, ← List.head?_filter]
  rw [List.countP_eq_length_filter] at once
  have kept := perm.filter p
  cases found : xs.filter p with
  | nil =>
    rw [found] at kept
    rw [kept.nil_eq]
  | cons a rest =>
    rw [found, List.length_cons] at once
    obtain rfl : rest = [] := List.eq_nil_of_length_eq_zero (by omega)
    rw [found] at kept
    rw [List.singleton_perm.mp kept]

/-- Neither the order of the members nor unknown keys among them matter. -/
theorem fields?_of_perm {keys : List String} {members others : List (String × Json)}
    (same : (known keys members).Perm (known keys others)) :
    fields? keys (.obj members) = fields? keys (.obj others) := by
  have counts : ∀ key ∈ keys, members.countP (·.1 = key) = others.countP (·.1 = key) := by
    intro key member
    rw [← countP_known member, same.countP_eq, countP_known member]
  by_cases once : Once keys members
  · have also : Once keys others := fun key member => counts key member ▸ once key member
    rw [fields?_of_once once, fields?_of_once also]
    refine congrArg some (List.map_congr_left fun key member => ?_)
    have single := once key member
    rw [← countP_known member] at single
    rw [← valueOf?_known member, ← valueOf?_known member others, valueOf?, valueOf?,
      find?_eq_of_perm same single]
  · have neither : ¬ Once keys others := fun also =>
      once fun key member => (counts key member).symm ▸ also key member
    rw [fields?_of_not_once once, fields?_of_not_once neither]

theorem once_of_nodup {members : List (String × Json)}
    (distinct : (members.map Prod.fst).Nodup) (keys : List String) : Once keys members := by
  intro key _
  have count := List.nodup_iff_count.mp distinct key
  rwa [List.count, List.countP_map] at count

theorem map_valueOf?_zip {keys : List String} (distinct : keys.Nodup) {values : List Json}
    (whole : values.length = keys.length) :
    keys.map (valueOf? (keys.zip values)) = values.map some := by
  induction keys generalizing values with
  | nil =>
    rw [List.eq_nil_of_length_eq_zero whole]
    rfl
  | cons key rest ih =>
    cases values with
    | nil => cases whole
    | cons value values =>
      obtain ⟨fresh, others⟩ := List.nodup_cons.mp distinct
      rw [List.map_cons, List.map_cons, ← ih others (Nat.succ.inj whole)]
      congr 1
      · simp [valueOf?]
      · refine List.map_congr_left fun later member => ?_
        have different : key ≠ later := fun same => fresh (same ▸ member)
        simp [valueOf?, different]

/-- The object that has every key with its value. -/
theorem fields?_zip {keys : List String} (distinct : keys.Nodup) {values : List Json}
    (whole : values.length = keys.length) :
    fields? keys (.obj (keys.zip values)) = some (values.map some) := by
  have named : ((keys.zip values).map Prod.fst).Nodup := by
    rwa [List.map_fst_zip (Nat.le_of_eq whole.symm)]
  rw [fields?_of_once (once_of_nodup named keys), map_valueOf?_zip distinct whole]

/-- The array of all values stands for the object that gives each its key. -/
theorem fields?_arr {keys : List String} (distinct : keys.Nodup) {values : List Json}
    (whole : values.length = keys.length) :
    fields? keys (.arr values) = fields? keys (.obj (keys.zip values)) := by
  rw [fields?_zip distinct whole]
  exact if_pos whole

/-- A value that holds fields is nested deeper than each of them. -/
theorem depth_lt_of_fields? {keys : List String} {j v : Json} {fields : List (Option Json)}
    (given : fields? keys j = some fields) (member : some v ∈ fields) : v.depth < j.depth := by
  cases j with
  | arr items =>
    obtain ⟨_, same⟩ := Option.ite_none_right_eq_some.mp given
    cases same
    obtain ⟨i, among, same⟩ := List.mem_map.mp member
    cases same
    exact Nat.lt_succ_of_le (Json.depth_le_of_mem_items among)
  | obj members =>
    obtain ⟨_, same⟩ := Option.ite_none_right_eq_some.mp given
    cases same
    obtain ⟨key, _, value⟩ := List.mem_map.mp member
    obtain ⟨m, found, rfl⟩ := Option.map_eq_some_iff.mp value
    exact Nat.lt_succ_of_le (Json.depth_le_of_mem_members (List.mem_of_find?_eq_some found))
  | _ => cases given

theorem depth_pos_of_fields? {keys : List String} {j : Json} {fields : List (Option Json)}
    (given : fields? keys j = some fields) : 0 < j.depth := by
  cases j with
  | arr items => exact Nat.succ_pos _
  | obj members => exact Nat.succ_pos _
  | _ => cases given

/-- Values are read by their fields: neither the order of the members of an object nor unknown
keys matter, an array of all fields will do, and an optional key may be left out for null. -/
structure ByFields (α : Type) [Form α] (keys optional : List String) : Prop where
  members : ∀ members others : List (String × Json),
    (known keys members).Perm (known keys others) →
    (read? (.obj members) : Option α) = read? (.obj others)
  array : ∀ values : List Json, values.length = keys.length →
    (read? (.arr values) : Option α) = read? (.obj (keys.zip values))
  leftOut : ∀ key ∈ optional, ∀ members : List (String × Json), key ∉ members.map Prod.fst →
    (read? (.obj members) : Option α) = read? (.obj ((key, .null) :: members))

theorem valueOf?_of_fresh {key : String} {members : List (String × Json)}
    (fresh : key ∉ members.map Prod.fst) : valueOf? members key = none := by
  rw [valueOf?, Option.map_eq_none_iff, List.find?_eq_none]
  intro m member same
  exact fresh (List.mem_map.mpr ⟨m, member, of_decide_eq_true same⟩)

theorem valueOf?_cons_self (key : String) (value : Json) (members : List (String × Json)) :
    valueOf? ((key, value) :: members) key = some value := by
  simp [valueOf?]

theorem valueOf?_cons_ne {key other : String} (different : other ≠ key) (value : Json)
    (members : List (String × Json)) :
    valueOf? ((key, value) :: members) other = valueOf? members other := by
  simp [valueOf?, Ne.symm different]

theorem once_cons_iff {key : String} {members : List (String × Json)}
    (fresh : key ∉ members.map Prod.fst) (keys : List String) (value : Json) :
    Once keys ((key, value) :: members) ↔ Once keys members := by
  refine forall₂_congr fun other _ => ?_
  rw [List.countP_cons]
  by_cases same : key = other
  · subst same
    have none_yet : members.countP (·.1 = key) = 0 := by
      rw [List.countP_eq_zero]
      intro m member same
      exact fresh (List.mem_map.mpr ⟨m, member, of_decide_eq_true same⟩)
    simp [none_yet]
  · simp [same]

theorem ByFields.of_decode {α : Type} [Form α] {keys optional : List String}
    {decode : List (Option Json) → Option α} (distinct : keys.Nodup)
    (read : ∀ j, read? j = (fields? keys j).bind decode)
    (leftOut : ∀ key ∈ optional, ∀ less more : String → Option Json, less key = none →
      more key = some .null → (∀ other ≠ key, more other = less other) →
      decode (keys.map less) = decode (keys.map more)) : ByFields α keys optional where
  members members others same := by
    rw [read, read, fields?_of_perm same]
  array values whole := by
    rw [read, read, fields?_arr distinct whole]
  leftOut key member members fresh := by
    rw [read, read]
    by_cases once : Once keys members
    · rw [fields?_of_once once, fields?_of_once ((once_cons_iff fresh keys .null).mpr once)]
      exact leftOut key member (valueOf? members) (valueOf? ((key, .null) :: members))
        (valueOf?_of_fresh fresh) (valueOf?_cons_self key .null members)
        fun other different => valueOf?_cons_ne different .null members
    · rw [fields?_of_not_once once,
        fields?_of_not_once (mt (once_cons_iff fresh keys .null).mp once)]

theorem ByFields.of_required {α : Type} [Form α] {keys : List String}
    {decode : List (Option Json) → Option α} (distinct : keys.Nodup)
    (read : ∀ j, read? j = (fields? keys j).bind decode) : ByFields α keys [] :=
  .of_decode distinct read fun _ member => absurd member List.not_mem_nil

end SyntaxReport.Form
