/- The JSON form of an outline is exact, however deep its symbols are nested. -/
import SyntaxReport.Outline.Form
import SyntaxReport.Proofs.Json.Exact
import SyntaxReport.Proofs.Outline.Iteration

namespace SyntaxReport

open Form

namespace SymbolKind

theorem ofName?_name (kind : SymbolKind) : ofName? kind.name = some kind := by
  cases kind <;> rfl

instance : Exact SymbolKind fun _ => True :=
  Exact.of_names name ofName? (fun _ => rfl) (fun _ => rfl) (fun _ => rfl) ofName?_name

theorem byName : ByName SymbolKind := .of_variant fun _ => rfl

end SymbolKind

namespace Symbol

/-- The lines of the symbol and of everything below it are within the range of the numbers that
are read. -/
def Fits (s : Symbol) : Prop :=
  ∀ t ∈ s.preorder, t.lineStart < wordBound ∧ t.lineEnd < wordBound

theorem fits_iff {s : Symbol} :
    s.Fits ↔ (s.lineStart < wordBound ∧ s.lineEnd < wordBound) ∧ ∀ t ∈ s.children, t.Fits := by
  rw [Fits, preorder_eq, preorderAll_eq, List.forall_mem_cons]
  simp only [List.mem_flatMap, forall_exists_index, and_imp]
  exact and_congr_right fun _ => ⟨fun h t child u below => h u t child below,
    fun h u t child below => h t child u below⟩

def values (s : Symbol) : List Json :=
  [write s.name, write s.kind, write s.visibility, write s.lineStart, write s.lineEnd,
    write s.documentation, write s.children]

theorem allToJson_eq (symbols : List Symbol) : allToJson symbols = symbols.map toJson := by
  induction symbols with
  | nil => rfl
  | cons s rest ih => rw [allToJson, List.map_cons, ih]

theorem write_eq (s : Symbol) : write s = .obj (keys.zip s.values) := by
  cases s with
  | mk name kind visibility lineStart lineEnd documentation children =>
    change toJson _ = _
    rw [toJson, allToJson_eq]
    rfl

/-- The symbol with these fields, its members read one by one. -/
def ofFields? (read : Json → Option Symbol) : List (Option Json) → Option Symbol
  | [name, kind, visibility, lineStart, lineEnd, documentation, some (.arr children)] => do
    some {
      name := ← required? name
      kind := ← required? kind
      visibility := ← required? visibility
      lineStart := ← required? lineStart
      lineEnd := ← required? lineEnd
      documentation := ← optional? documentation
      children := ← children.mapM read }
  | _ => none

theorem ofJsonWithin?_succ (depth : Nat) (j : Json) :
    ofJsonWithin? (depth + 1) j = (fields? keys j).bind (ofFields? (ofJsonWithin? depth)) :=
  rfl

theorem ofFields?_congr {read other : Json → Option Symbol} {fields : List (Option Json)}
    (same : ∀ children, some (.arr children) ∈ fields → ∀ c ∈ children, read c = other c) :
    ofFields? read fields = ofFields? other fields := by
  unfold ofFields?
  split
  · next children =>
    have members : children.mapM read = children.mapM other :=
      mapM_congr (same children (by simp))
    simp only [members]
  · rfl

theorem ofJsonWithin?_of_flat {j : Json} (flat : j.depth = 0) (depth : Nat) :
    ofJsonWithin? depth j = none := by
  cases depth with
  | zero => rfl
  | succ depth =>
    rw [ofJsonWithin?_succ]
    cases given : fields? keys j with
    | none => rfl
    | some fields =>
      have deep := depth_pos_of_fields? given
      omega

/-- Any bound that covers the depth of a value reads the same symbol. -/
theorem ofJsonWithin?_congr {depth more : Nat} {j : Json} (covered : j.depth ≤ depth)
    (also : j.depth ≤ more) : ofJsonWithin? depth j = ofJsonWithin? more j := by
  induction depth generalizing more j with
  | zero =>
    have flat : j.depth = 0 := by omega
    rw [ofJsonWithin?_of_flat flat, ofJsonWithin?_of_flat flat]
  | succ depth ih =>
    cases more with
    | zero =>
      have flat : j.depth = 0 := by omega
      rw [ofJsonWithin?_of_flat flat, ofJsonWithin?_of_flat flat]
    | succ more =>
      rw [ofJsonWithin?_succ, ofJsonWithin?_succ]
      cases given : fields? keys j with
      | none => rfl
      | some fields =>
        refine ofFields?_congr fun children field c member => ?_
        have inside : c.depth < (Json.arr children).depth :=
          Nat.lt_succ_of_le (Json.depth_le_of_mem_items member)
        have below := depth_lt_of_fields? given field
        exact ih (by omega) (by omega)

/-- A symbol is read by its fields, with no bound on the depth of its members. -/
theorem read?_eq (j : Json) : read? j = (fields? keys j).bind (ofFields? read?) := by
  have enough : (read? j : Option Symbol) = ofJsonWithin? (j.depth + 1) j :=
    ofJsonWithin?_congr (Nat.le_refl _) (Nat.le_succ _)
  rw [enough, ofJsonWithin?_succ]
  cases given : fields? keys j with
  | none => rfl
  | some fields =>
    refine ofFields?_congr fun children field c member => ?_
    have inside : c.depth < (Json.arr children).depth :=
      Nat.lt_succ_of_le (Json.depth_le_of_mem_items member)
    have below := depth_lt_of_fields? given field
    exact ofJsonWithin?_congr (by omega) (Nat.le_refl _)

theorem ofFields?_values {read : Json → Option Symbol} {s : Symbol}
    (lines : s.lineStart < wordBound ∧ s.lineEnd < wordBound)
    (members : ∀ t ∈ s.children, read (write t) = some t) :
    ofFields? read (s.values.map some) = some s := by
  have children : (s.children.map write).mapM read = some s.children := mapM_map members
  have given : write s.children = .arr (s.children.map write) := rfl
  have whole : (⟨s.name, s.kind, s.visibility, s.lineStart, s.lineEnd, s.documentation,
      s.children⟩ : Symbol) = s := by
    cases s with
    | mk => rfl
  simp [values, ofFields?, given, children, lines.1, lines.2, whole]

theorem fits_of_ofFields? {read : Json → Option Symbol} {fields : List (Option Json)} {s : Symbol}
    (members : ∀ j t, read j = some t → t.Fits) (h : ofFields? read fields = some s) :
    s.Fits := by
  unfold ofFields? at h
  split at h
  · simp only [Option.bind_eq_bind, Option.bind_eq_some_iff, Option.some.injEq] at h
    obtain ⟨_, _, _, _, _, _, _, lineStart, _, lineEnd, _, _, _, children, rfl⟩ := h
    refine fits_iff.mpr ⟨⟨(fits_of_required? lineStart :), (fits_of_required? lineEnd :)⟩, ?_⟩
    intro t member
    obtain ⟨j, _, read⟩ := exists_of_mapM children t member
    exact members j t read
  · cases h

theorem fits_of_ofJsonWithin? {depth : Nat} {j : Json} {s : Symbol}
    (h : ofJsonWithin? depth j = some s) : s.Fits := by
  induction depth generalizing j s with
  | zero => cases h
  | succ depth ih =>
    obtain ⟨fields, _, given⟩ := Option.bind_eq_some_iff.mp h
    exact fits_of_ofFields? (fun _ _ read => ih read) given

theorem settled_values {s : Symbol} (members : ∀ t ∈ s.children, (write t).Settled) :
    ∀ v ∈ s.values, v.Settled := by
  have children : (write s.children).Settled := by
    refine Json.settled_arr fun j member => ?_
    obtain ⟨t, child, rfl⟩ := List.mem_map.mp member
    exact members t child
  simp [values, children]

instance : Exact Symbol Fits where
  settled s := by
    induction s using memberwise with
    | step s ih =>
      rw [write_eq]
      exact Json.settled_record (by decide) rfl (settled_values ih)
  writes _ _ := rfl
  back s h := by
    induction s using memberwise with
    | step s ih =>
      obtain ⟨lines, members⟩ := fits_iff.mp h
      rw [write_eq, read?_eq, fields?_zip (by decide) rfl]
      exact ofFields?_values lines fun t child => ih t child (members t child)
  fits _ _ h := fits_of_ofJsonWithin? h

theorem byFields : ByFields Symbol keys ["doc_comment"] := by
  refine .of_decode (by decide) read?_eq fun key member less more missing given same => ?_
  cases List.mem_singleton.mp member
  simp only [keys, List.map, missing, given, same "name" (by decide), same "kind" (by decide),
    same "visibility" (by decide), same "line_start" (by decide), same "line_end" (by decide),
    same "children" (by decide)]
  cases less "children" with
  | none => rfl
  | some j => cases j <;> rfl

end Symbol

namespace Outline

/-- The lines of every symbol, at any depth, are within the range of the numbers that are read. -/
def Fits (o : Outline) : Prop :=
  ∀ s ∈ o.toList, s.lineStart < wordBound ∧ s.lineEnd < wordBound

theorem fits_iff {o : Outline} : o.Fits ↔ ∀ s ∈ o.symbols, s.Fits := by
  simp only [Fits, toList_eq, Symbol.preorderAll_eq, List.mem_flatMap, forall_exists_index,
    and_imp]
  exact ⟨fun h s top t below => h t s top below, fun h t s top below => h s top t below⟩

def values (o : Outline) : List Json := [write o.symbols]

instance : Exact Outline Fits := by
  refine .of_fields keys values (by decide) (fun _ => rfl) (fun _ => rfl) (fun _ _ => rfl)
    (fun _ => rfl)
    (fun o => ?settled) (fun o h => ?back) (fun fields o h => ?fits)
  case settled => simp [values]
  case back =>
    have symbols : required? (some (write o.symbols)) = some o.symbols :=
      required?_some (fits_iff.mp h)
    simp [values, symbols]
  case fits =>
    split at h
    · simp only [Option.bind_eq_bind, Option.bind_eq_some_iff, Option.some.injEq] at h
      obtain ⟨_, symbols, rfl⟩ := h
      exact fits_iff.mpr (fits_of_required? symbols :)
    · cases h

theorem byFields : ByFields Outline keys [] :=
  .of_required (by decide) fun _ => rfl

end Outline
end SyntaxReport
