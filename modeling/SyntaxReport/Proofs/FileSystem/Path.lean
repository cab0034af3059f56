/- Paths grow by one part with each name joined to them, and come in one order. -/
import Mathlib.Data.List.Basic
import SyntaxReport.FileSystem.Path

namespace SyntaxReport.Path

/-- A name that an entry of a directory can have. -/
structure ProperName (name : String) : Prop where
  filled : name ≠ ""
  slashless : '/' ∉ name.toList
  notCurrent : name ≠ "."
  notParent : name ≠ ".."

instance (name : String) : Decidable (ProperName name) :=
  decidable_of_iff (name ≠ "" ∧ '/' ∉ name.toList ∧ name ≠ "." ∧ name ≠ "..")
    ⟨fun ⟨filled, slashless, notCurrent, notParent⟩ => ⟨filled, slashless, notCurrent, notParent⟩,
      fun proper => ⟨proper.filled, proper.slashless, proper.notCurrent, proper.notParent⟩⟩

section Segments

theorem segments_ne_nil (text : List Char) : segments text ≠ [] := by
  unfold segments
  split
  · exact List.cons_ne_nil _ _
  · exact List.cons_ne_nil _ _
  · split <;> exact List.cons_ne_nil _ _

theorem segments_cons {c : Char} (letter : c ≠ '/') {text s : List Char} {more : List (List Char)}
    (h : segments text = s :: more) : segments (c :: text) = (c :: s) :: more := by
  unfold segments
  split <;> simp_all

/-- A slash parts the segments in front of it from those behind it. -/
theorem segments_append_slash (front behind : List Char) :
    segments (front ++ '/' :: behind) = segments front ++ segments behind := by
  induction front with
  | nil => rfl
  | cons c front ih =>
    by_cases slash : c = '/'
    · subst slash
      exact congrArg ([] :: ·) ih
    · obtain ⟨s, more, first⟩ := List.exists_cons_of_ne_nil (segments_ne_nil front)
      have later : segments (front ++ '/' :: behind) = s :: (more ++ segments behind) := by
        rw [ih, first, List.cons_append]
      rw [List.cons_append, segments_cons slash later, segments_cons slash first, List.cons_append]

theorem segments_of_slashless {text : List Char} (slashless : '/' ∉ text) :
    segments text = [text] := by
  induction text with
  | nil => rfl
  | cons c text ih =>
    have letter : c ≠ '/' := fun same => slashless (same ▸ List.mem_cons_self)
    exact segments_cons letter (ih fun member => slashless (List.mem_cons_of_mem c member))

end Segments

/-- The parts of a path, dots included. -/
def parts (path : String) : List Component :=
  ((segments path.toList).filter (!·.isEmpty)).map Component.ofSegment

theorem ofSegment_of_proper {name : String} (proper : ProperName name) :
    Component.ofSegment name.toList = .name name := by
  have notCurrent : name.toList ≠ ['.'] := fun same =>
    proper.notCurrent (String.toList_inj.mp same)
  have notParent : name.toList ≠ ['.', '.'] := fun same =>
    proper.notParent (String.toList_inj.mp same)
  rw [Component.ofSegment, if_neg notCurrent, if_neg notParent, String.ofList_toList]

theorem endsWithSlash_iff {path : String} :
    endsWithSlash path = true ↔ ∃ front, path.toList = front ++ ['/'] := by
  rw [endsWithSlash, decide_eq_true_iff, List.getLast?_eq_some_iff]

/-- Joined to a path, a name is one more segment, in place of an empty one at its end. -/
theorem filter_segments_join {path name : String} (somewhere : path ≠ "")
    (proper : ProperName name) :
    (segments (join path name).toList).filter (!·.isEmpty) =
      (segments path.toList).filter (!·.isEmpty) ++ [name.toList] := by
  have single : segments name.toList = [name.toList] := segments_of_slashless proper.slashless
  have kept : [name.toList].filter (!·.isEmpty) = [name.toList] := by
    have filled : name.toList ≠ [] := fun empty => proper.filled (String.toList_eq_nil_iff.mp empty)
    simp [filled]
  cases slash : endsWithSlash path with
  | true =>
    obtain ⟨front, ends⟩ := endsWithSlash_iff.mp slash
    have joined : join path name = path ++ name := by simp [join, slash]
    have text : (path ++ name).toList = front ++ '/' :: name.toList := by
      rw [String.toList_append, ends, List.append_assoc]
      rfl
    rw [joined, text, segments_append_slash, single, List.filter_append, kept, ends,
      segments_append_slash]
    simp [segments]
  | false =>
    have joined : join path name = path ++ "/" ++ name := by
      simp [join, slash, String.isEmpty_iff, somewhere]
    have text : (path ++ "/" ++ name).toList = path.toList ++ '/' :: name.toList := by
      rw [String.toList_append, String.toList_append, List.append_assoc]
      rfl
    rw [joined, text, segments_append_slash, single, List.filter_append, kept]

theorem parts_join {path name : String} (somewhere : path ≠ "") (proper : ProperName name) :
    parts (join path name) = parts path ++ [.name name] := by
  rw [parts, filter_segments_join somewhere proper, List.map_append, List.map_singleton,
    ofSegment_of_proper proper]
  rfl

/-- A path that ends in a name ends in no slash. -/
theorem endsWithSlash_join (path : String) {name : String} (proper : ProperName name) :
    endsWithSlash (join path name) = false := by
  have last : (join path name).toList.getLast? = name.toList.getLast? := by
    rcases List.eq_nil_or_concat name.toList with empty | ⟨front, c, text⟩
    · exact absurd (String.toList_eq_nil_iff.mp empty) proper.filled
    · unfold join
      split <;> simp [text, List.getLast?_cons]
  rw [endsWithSlash, last, decide_eq_false_iff_not]
  intro slash
  exact proper.slashless (List.mem_of_getLast? slash)

theorem isAbsolute_join {path : String} (somewhere : path ≠ "") (name : String) :
    isAbsolute (join path name) = isAbsolute path := by
  obtain ⟨c, rest, text⟩ := List.exists_cons_of_ne_nil (String.toList_eq_nil_iff.not.mpr somewhere)
  unfold join
  split <;> simp [isAbsolute, text]

theorem components_eq (path : String) :
    components path =
      if isAbsolute path then .root :: (parts path).filter (· ≠ .current)
      else match parts path with
        | .current :: rest => .current :: rest.filter (· ≠ .current)
        | parts => parts.filter (· ≠ .current) := rfl

theorem components_join {path name : String} (somewhere : path ≠ "") (proper : ProperName name) :
    components (join path name) = components path ++ [.name name] := by
  rw [components_eq, components_eq, isAbsolute_join somewhere, parts_join somewhere proper]
  split
  · simp
  · rcases parts path with _ | ⟨c, rest⟩
    · simp
    · cases c <;> simp

theorem fileName?_join {path name : String} (somewhere : path ≠ "") (proper : ProperName name) :
    fileName? (join path name) = some name := by
  rw [fileName?, components_join somewhere proper, List.getLast?_concat]

theorem utf8ByteSize_lt_join (path : String) {name : String} (proper : ProperName name) :
    path.utf8ByteSize < (join path name).utf8ByteSize := by
  have filled : 0 < name.utf8ByteSize :=
    Nat.pos_of_ne_zero (String.utf8ByteSize_eq_zero_iff.not.mpr proper.filled)
  unfold join
  split <;> simp only [String.utf8ByteSize_append] <;> omega

theorem utf8ByteSize_join_le (path name : String) :
    (join path name).utf8ByteSize ≤ path.utf8ByteSize + 1 + name.utf8ByteSize := by
  have slash : "/".utf8ByteSize = 1 := rfl
  unfold join
  split <;> simp only [String.utf8ByteSize_append] <;> omega

/-- The path that goes on from another through some names. -/
def joinAll (path : String) (names : List String) : String := names.foldl join path

theorem joinAll_cons (path name : String) (names : List String) :
    joinAll path (name :: names) = joinAll (join path name) names := rfl

theorem joinAll_concat (path : String) (names : List String) (name : String) :
    joinAll path (names ++ [name]) = join (joinAll path names) name :=
  List.foldl_concat ..

theorem components_joinAll {path : String} {names : List String} (somewhere : path ≠ "")
    (proper : ∀ name ∈ names, ProperName name) :
    components (joinAll path names) = components path ++ names.map .name := by
  induction names generalizing path with
  | nil => exact (List.append_nil _).symm
  | cons name names ih =>
    have first := proper name List.mem_cons_self
    have further : join path name ≠ "" := by
      have longer := utf8ByteSize_lt_join path first
      exact fun empty => by simp [empty] at longer
    rw [joinAll_cons, ih further fun n member => proper n (List.mem_cons_of_mem name member),
      components_join somewhere first]
    simp

theorem hasExtension_iff {name extension : String} :
    hasExtension name extension = true ↔ ∃ stem, stem ≠ "" ∧ name = stem ++ extension := by
  rw [hasExtension, Bool.and_eq_true, decide_eq_true_iff, List.isSuffixOf_iff_suffix]
  constructor
  · rintro ⟨⟨stem, text⟩, longer⟩
    refine ⟨String.ofList stem, ?_, ?_⟩
    · intro empty
      rw [← String.toList_inj, String.toList_ofList] at empty
      rw [← text, empty] at longer
      exact Nat.lt_irrefl _ longer
    · rw [← String.toList_inj, String.toList_append, String.toList_ofList, text]
  · rintro ⟨stem, filled, rfl⟩
    have some_chars := List.length_pos_of_ne_nil (String.toList_eq_nil_iff.not.mpr filled)
    rw [String.toList_append, List.length_append]
    exact ⟨List.suffix_append _ _, by omega⟩

section Order

theorem Component.le_trans {a b c : Component} (first : a.le b = true) (second : b.le c = true) :
    a.le c = true := by
  cases a <;> cases b <;> cases c <;> simp_all [Component.le, Component.rank]
  exact String.le_trans first second

theorem Component.le_total (a b : Component) : (a.le b || b.le a) = true := by
  cases a <;> cases b <;> simp [Component.le, Component.rank]
  exact String.le_total _ _

theorem Component.le_antisymm {a b : Component} (first : a.le b = true) (second : b.le a = true) :
    a = b := by
  cases a <;> cases b <;> simp_all [Component.le, Component.rank]
  exact String.le_antisymm first second

theorem componentsLe_trans {as bs cs : List Component} (first : componentsLe as bs = true)
    (second : componentsLe bs cs = true) : componentsLe as cs = true := by
  induction as generalizing bs cs with
  | nil => rfl
  | cons a as ih =>
    cases bs with
    | nil => cases first
    | cons b bs =>
      cases cs with
      | nil => cases second
      | cons c cs =>
        rw [componentsLe] at first second ⊢
        by_cases same : a = b
        · subst same
          rw [if_pos rfl] at first
          by_cases last : a = c
          · rw [if_pos last] at second ⊢
            exact ih first second
          · rwa [if_neg last] at second ⊢
        · rw [if_neg same] at first
          by_cases last : b = c
          · subst last
            rwa [if_neg same]
          · rw [if_neg last] at second
            have different : a ≠ c := by
              rintro rfl
              exact same (Component.le_antisymm first second)
            rw [if_neg different]
            exact Component.le_trans first second

theorem componentsLe_total (as bs : List Component) :
    (componentsLe as bs || componentsLe bs as) = true := by
  induction as generalizing bs with
  | nil => rfl
  | cons a as ih =>
    cases bs with
    | nil => rfl
    | cons b bs =>
      rw [componentsLe, componentsLe]
      by_cases same : a = b
      · rw [if_pos same, if_pos same.symm]
        exact ih bs
      · rw [if_neg same, if_neg (Ne.symm same)]
        exact Component.le_total a b

theorem componentsLe_antisymm {as bs : List Component} (first : componentsLe as bs = true)
    (second : componentsLe bs as = true) : as = bs := by
  induction as generalizing bs with
  | nil =>
    cases bs with
    | nil => rfl
    | cons b bs => cases second
  | cons a as ih =>
    cases bs with
    | nil => cases first
    | cons b bs =>
      rw [componentsLe] at first second
      by_cases same : a = b
      · subst same
        rw [if_pos rfl] at first second
        rw [ih first second]
      · rw [if_neg same] at first
        rw [if_neg (Ne.symm same)] at second
        exact absurd (Component.le_antisymm first second) same

/-- One path comes before another that has other components. -/
def Precedes (a b : String) : Prop := le a b = true ∧ le b a = false

theorem le_trans (a b c : String) : le a b = true → le b c = true → le a c = true :=
  componentsLe_trans

theorem le_total (a b : String) : (le a b || le b a) = true :=
  componentsLe_total (components a) (components b)

theorem precedes_of_le {a b : String} (before : le a b = true)
    (different : components a ≠ components b) : Precedes a b :=
  ⟨before, eq_false_of_ne_true fun back => different (componentsLe_antisymm before back)⟩

/-- Paths with different components have one order from the first to the last. -/
theorem pairwise_precedes_mergeSort {paths : List String}
    (distinct : (paths.map components).Nodup) : (paths.mergeSort le).Pairwise Precedes := by
  have sorted := List.pairwise_mergeSort le_trans le_total paths
  have others : ((paths.mergeSort le).map components).Nodup :=
    ((List.mergeSort_perm paths le).map components).nodup_iff.mpr distinct
  exact sorted.imp₂ (fun _ _ => precedes_of_le) (List.pairwise_map.mp others)

theorem mergeSort_eq_of_perm {found paths : List String}
    (distinct : (paths.map components).Nodup) (same : found.Perm paths) :
    found.mergeSort le = paths.mergeSort le := by
  have others : (found.map components).Nodup := (same.map components).nodup_iff.mpr distinct
  refine List.Perm.eq_of_pairwise (fun a b _ _ before back => ?_)
    (pairwise_precedes_mergeSort others) (pairwise_precedes_mergeSort distinct) ?_
  · exact absurd (before.2.symm.trans back.1) Bool.false_ne_true
  · exact (List.mergeSort_perm found le).trans (same.trans (List.mergeSort_perm paths le).symm)

end Order

end SyntaxReport.Path
