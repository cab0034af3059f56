/- Forms that are exact on a range of values: each value of the range is read back from what is
written of it, and no other value is ever read. -/
import SyntaxReport.Duration
import SyntaxReport.FileSystem.FilePath
import SyntaxReport.Proofs.Json.Record
import SyntaxReport.Proofs.Json.Settled
import SyntaxReport.Proofs.Traverse

namespace SyntaxReport.Form

/-- The form of a type is exact on the values that fit. -/
class Exact (α : Type) [Form α] (Fits : outParam (α → Prop)) : Prop where
  settled : ∀ a : α, (write a).Settled
  writes : ∀ a : α, Fits a → writable a = true
  back : ∀ a : α, Fits a → read? (write a) = some a
  fits : ∀ (j : Json) (a : α), read? j = some a → Fits a

/-- No value of the type is written as null. -/
class Filled (α : Type) [Form α] : Prop where
  filled : ∀ a : α, write a ≠ .null

section Fields

variable {α : Type} [Form α] {Fits : α → Prop}

@[simp] theorem settled_write [Exact α Fits] (a : α) : (write a).Settled := Exact.settled a

@[simp] theorem required?_some [Exact α Fits] {a : α} (h : Fits a) :
    required? (some (write a)) = some a :=
  Exact.back a h

theorem fits_of_required? [Exact α Fits] {field : Option Json} {a : α}
    (h : required? field = some a) : Fits a := by
  obtain ⟨j, -, read⟩ := Option.bind_eq_some_iff.mp h
  exact Exact.fits j a read

@[simp] theorem optional?_some {Fits : Option α → Prop} [Exact (Option α) Fits] {o : Option α}
    (h : Fits o) : optional? (some (write o)) = some o :=
  Exact.back o h

end Fields

section Scalars

instance : Exact Bool fun _ => True where
  settled := Json.settled_bool
  writes _ _ := rfl
  back _ _ := rfl
  fits _ _ _ := trivial

instance : Exact String fun _ => True where
  settled := Json.settled_str
  writes _ _ := rfl
  back _ _ := rfl
  fits _ _ _ := trivial

instance : Exact Nat (· < wordBound) where
  settled := Json.settled_nat
  writes _ _ := rfl
  back _ h := if_pos h
  fits j n h := by
    cases j with
    | nat m =>
      obtain ⟨bound, same⟩ := Option.ite_none_right_eq_some.mp h
      cases same
      exact bound
    | _ => cases h

instance : Exact UInt64 fun _ => True where
  settled n := Json.settled_nat n.toNat
  writes _ _ := rfl
  back n _ := by
    have bound : n.toNat < wordBound := n.toNat_lt
    change (read? (write n.toNat)).map UInt64.ofNat = some n
    rw [Exact.back n.toNat bound, Option.map_some, UInt64.ofNat_toNat]
  fits _ _ _ := trivial

/-- A span that is longer than can be written is cut, so it does not fit. -/
instance : Exact Duration (·.nanos < wordBound) where
  settled d := Json.settled_nat (min d.nanos (wordBound - 1))
  writes _ _ := rfl
  back d h := by
    have whole : min d.nanos (wordBound - 1) = d.nanos := by omega
    change (read? (write (min d.nanos (wordBound - 1)))).map Duration.mk = some d
    rw [whole, Exact.back d.nanos h]
    rfl
  fits j d h := by
    obtain ⟨n, read, rfl⟩ := Option.map_eq_some_iff.mp h
    exact Exact.fits j n read

/-- Only a path that is some text is written. -/
instance : Exact FilePath FilePath.IsText where
  settled p := Json.settled_str (p.text?.getD "")
  writes _ h := FilePath.isText_iff.mp h
  back p h := by
    obtain ⟨text, rfl⟩ := h
    change some (FilePath.ofText ((FilePath.ofText text).text?.getD "")) = _
    rw [FilePath.text?_ofText]
    rfl
  fits j p h := by
    obtain ⟨text, _, rfl⟩ := Option.map_eq_some_iff.mp h
    exact ⟨text, rfl⟩

instance : Filled Nat := ⟨fun _ h => by cases h⟩

instance : Filled String := ⟨fun _ h => by cases h⟩

end Scalars

section Containers

variable {α β : Type} [Form α] [Form β] {Fits : α → Prop} {FitsToo : β → Prop}

theorem read?_option {j : Json} (given : j ≠ .null) :
    (read? j : Option (Option α)) = (read? j).map some := by
  cases j with
  | null => exact absurd rfl given
  | _ => rfl

instance [Exact α Fits] [Filled α] : Exact (Option α) fun o => ∀ a ∈ o, Fits a where
  settled o := by
    cases o with
    | none => exact Json.settled_null
    | some a => exact settled_write a
  writes o h := by
    cases o with
    | none => rfl
    | some a => exact Exact.writes a (h a rfl)
  back o h := by
    cases o with
    | none => rfl
    | some a =>
      change read? (write a) = some (some a)
      rw [read?_option (Filled.filled a), Exact.back a (h a rfl)]
      rfl
  fits j o h := by
    by_cases empty : j = .null
    · subst empty
      cases h
      intro a member
      cases member
    · rw [read?_option empty] at h
      obtain ⟨a, read, rfl⟩ := Option.map_eq_some_iff.mp h
      intro b member
      cases member
      exact Exact.fits j a read

theorem fits_of_optional? [Exact α Fits] [Filled α] {field : Option Json} {o : Option α}
    (h : optional? field = some o) : ∀ a ∈ o, Fits a := by
  cases field with
  | none =>
    cases h
    intro a member
    cases member
  | some j => exact Exact.fits j o h

instance [Exact α Fits] : Exact (List α) fun items => ∀ a ∈ items, Fits a where
  settled items := by
    refine Json.settled_arr fun j member => ?_
    obtain ⟨a, _, rfl⟩ := List.mem_map.mp member
    exact settled_write a
  writes items h := List.all_eq_true.mpr fun a member => Exact.writes a (h a member)
  back items h := mapM_map fun a member => Exact.back a (h a member)
  fits j items h := by
    cases j with
    | arr js =>
      intro a member
      obtain ⟨i, _, read⟩ := exists_of_mapM h a member
      exact Exact.fits i a read
    | _ => cases h

instance [Exact α Fits] [Exact β FitsToo] :
    Exact (α × β) fun p => Fits p.1 ∧ FitsToo p.2 where
  settled p := by
    refine Json.settled_arr fun j member => ?_
    rcases List.mem_pair.mp member with rfl | rfl
    · exact settled_write p.1
    · exact settled_write p.2
  writes p h := by
    change (writable p.1 && writable p.2) = true
    rw [Exact.writes p.1 h.1, Exact.writes p.2 h.2]
    rfl
  back p h := by
    change (read? (write p.1)).bind (fun a => (read? (write p.2)).bind fun b => some (a, b)) =
      some p
    rw [Exact.back p.1 h.1, Exact.back p.2 h.2]
    rfl
  fits j p h := by
    simp only [read?] at h
    split at h
    · next i k =>
      obtain ⟨a, first, h⟩ := Option.bind_eq_some_iff.mp h
      obtain ⟨b, second, h⟩ := Option.bind_eq_some_iff.mp h
      cases h
      exact ⟨Exact.fits i a first, Exact.fits k b second⟩
    · cases h

end Containers

section Types

variable {α : Type} [Form α] {Fits : α → Prop}

/-- Names are read back when no two values share one. -/
theorem Exact.of_names (name : α → String) (named : String → Option α)
    (written : ∀ a, write a = .str (name a)) (writes : ∀ a : α, writable a = true)
    (read : ∀ j, read? j = variant? named j) (told : ∀ a, named (name a) = some a) :
    Exact α fun _ => True where
  settled a := by
    rw [written]
    exact Json.settled_str (name a)
  writes a _ := writes a
  back a _ := by
    rw [written, read]
    exact told a
  fits _ _ _ := trivial

/-- A value is read by its name, and by an object that has only its name for a key. -/
structure ByName (α : Type) [Form α] : Prop where
  alone : ∀ name : String, (read? (.obj [(name, .null)]) : Option α) = read? (.str name)

theorem ByName.of_variant {named : String → Option α} (read : ∀ j, read? j = variant? named j) :
    ByName α where
  alone name := by
    rw [read, read]
    rfl

/-- A record is read back when its fields are. -/
theorem Exact.of_fields (keys : List String) (values : α → List Json)
    {decode : List (Option Json) → Option α} (distinct : keys.Nodup)
    (whole : ∀ a, (values a).length = keys.length)
    (written : ∀ a, write a = .obj (keys.zip (values a)))
    (writes : ∀ a, Fits a → writable a = true)
    (read : ∀ j, read? j = (fields? keys j).bind decode)
    (settled : ∀ a, ∀ v ∈ values a, v.Settled)
    (back : ∀ a, Fits a → decode ((values a).map some) = some a)
    (fits : ∀ fields a, decode fields = some a → Fits a) : Exact α Fits where
  settled a := by
    rw [written]
    exact Json.settled_record distinct (whole a) (settled a)
  writes := writes
  back a h := by
    rw [written, read, fields?_zip distinct (whole a)]
    exact back a h
  fits j a h := by
    rw [read] at h
    obtain ⟨fields, _, decoded⟩ := Option.bind_eq_some_iff.mp h
    exact fits fields a decoded

/-- What is written of the value that is read from another. -/
def rewritten? (α : Type) [Form α] (j : Json) : Option Json := (ofJson? j : Option α).bind toJson?

/-- The values that fit are written and returned by their JSON form, and nothing but values that
fit is read from a value or a text. So whatever is read is also written, and to read and write a
second time changes nothing. -/
structure RoundTrips (α : Type) [Form α] (Fits : α → Prop) : Prop where
  returned : ∀ a, Fits a → (toJson? a).bind ofJson? = some a
  fits : ∀ (j : Json) (a : α), ofJson? j = some a → Fits a
  fitsText : ∀ (text : String) (a : α), ofText? text = some a → Fits a
  again : ∀ (j : Json) (a : α), ofJson? j = some a →
    ∃ k, rewritten? α j = some k ∧ rewritten? α k = some k

theorem ofJson?_write [Exact α Fits] {a : α} (h : Fits a) : ofJson? (write a) = some a := by
  rw [ofJson?, (settled_write a : (write a).lastWins = write a), Exact.back a h]

theorem toJson?_of_fits [Exact α Fits] {a : α} (h : Fits a) : toJson? a = some (write a) :=
  if_pos (Exact.writes a h)

theorem roundTrips [Exact α Fits] : RoundTrips α Fits where
  returned a h := by
    rw [toJson?_of_fits h]
    exact ofJson?_write h
  fits j a h := Exact.fits j.lastWins a h
  fitsText text a h := by
    obtain ⟨b, read, h⟩ := Option.bind_eq_some_iff.mp h
    obtain ⟨j, _, read⟩ := Option.bind_eq_some_iff.mp read
    obtain ⟨_, same⟩ := Option.ite_none_right_eq_some.mp h
    cases same
    exact Exact.fits j a read
  again j a h := by
    have fits : Fits a := Exact.fits j.lastWins a h
    refine ⟨write a, ?_, ?_⟩
    · rw [rewritten?, h]
      exact toJson?_of_fits fits
    · rw [rewritten?, ofJson?_write fits]
      exact toJson?_of_fits fits

end Types

end SyntaxReport.Form
