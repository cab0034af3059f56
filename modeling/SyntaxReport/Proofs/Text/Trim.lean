/- Blank texts, and what trimming, cutting into lines and joining them keep of a text. -/
import Mathlib.Algebra.GroupWithZero.Nat
import Mathlib.Data.List.TakeWhile
import SyntaxReport.Proofs.Text.Line
import SyntaxReport.Text.Blank

namespace SyntaxReport.Text

/-- A text with nothing in it but blanks. -/
def Blank (text : List Char) : Prop := ∀ c ∈ text, isBlank c = true

instance (text : List Char) : Decidable (Blank text) :=
  inferInstanceAs (Decidable (∀ c ∈ text, isBlank c = true))

theorem blank_cons_iff {c : Char} {text : List Char} :
    Blank (c :: text) ↔ isBlank c = true ∧ Blank text :=
  List.forall_mem_cons

theorem blank_append_iff {xs ys : List Char} : Blank (xs ++ ys) ↔ Blank xs ∧ Blank ys :=
  List.forall_mem_append

theorem exists_trimStart (text : List Char) :
    ∃ rear, Blank rear ∧ trimStart text = trim text ++ rear := by
  refine ⟨((trimStart text).reverse.takeWhile isBlank).reverse, ?_, ?_⟩
  · intro c member
    exact List.mem_takeWhile_imp (List.mem_reverse.mp member)
  · rw [trim, trimEnd, ← List.reverse_append, List.takeWhile_append_dropWhile,
      List.reverse_reverse]

/-- All that trimming takes away is blanks, from both ends. -/
theorem exists_trim (text : List Char) :
    ∃ front rear, Blank front ∧ Blank rear ∧ text = front ++ (trim text ++ rear) := by
  obtain ⟨rear, behind, inner⟩ := exists_trimStart text
  refine ⟨text.takeWhile isBlank, rear, ?_, behind, ?_⟩
  · intro c member
    exact List.mem_takeWhile_imp member
  · rw [← inner]
    exact List.takeWhile_append_dropWhile.symm

theorem trim_eq_nil_iff {text : List Char} : trim text = [] ↔ Blank text := by
  constructor
  · intro empty
    obtain ⟨front, rear, before, behind, same⟩ := exists_trim text
    rw [same, empty]
    exact blank_append_iff.mpr ⟨before, behind⟩
  · intro blank
    have start : trimStart text = [] := List.dropWhile_eq_nil_iff.mpr blank
    rw [trim, start]
    rfl

/-- What is left of a text by trimming is blank only if it is nothing. -/
theorem blank_trim_iff {text : List Char} : Blank (trim text) ↔ Blank text := by
  obtain ⟨front, rear, before, behind, same⟩ := exists_trim text
  constructor
  · intro blank
    rw [same]
    exact blank_append_iff.mpr ⟨before, blank_append_iff.mpr ⟨blank, behind⟩⟩
  · intro blank
    rw [trim_eq_nil_iff.mpr blank]
    intro c member
    cases member

/-- What is left of a text without the blanks at its ends. -/
structure Trimmed (text core : List Char) : Prop where
  within : ∃ front rear, Blank front ∧ Blank rear ∧ text = front ++ (core ++ rear)
  opens : ∀ c ∈ core.head?, isBlank c = false
  closes : ∀ c ∈ core.getLast?, isBlank c = false

theorem Trimmed.isInfix {text core : List Char} (trimmed : Trimmed text core) : core <:+: text := by
  obtain ⟨front, rear, _, _, rfl⟩ := trimmed.within
  exact List.infix_append' front core rear

theorem dropWhile_of_head {text : List Char} (opens : ∀ c ∈ text.head?, isBlank c = false) :
    text.dropWhile isBlank = text := by
  cases text with
  | nil => rfl
  | cons c text =>
    apply List.dropWhile_cons_of_neg
    rw [opens c rfl]
    exact Bool.false_ne_true

theorem not_blank_head_dropWhile (text : List Char) :
    ∀ c ∈ (text.dropWhile isBlank).head?, isBlank c = false := by
  intro c head
  have stopped := List.head?_dropWhile_not isBlank text
  rwa [head] at stopped

theorem Trimmed.trim_eq {text core : List Char} (trimmed : Trimmed text core) :
    trim text = core := by
  obtain ⟨front, rear, before, behind, rfl⟩ := trimmed.within
  cases core with
  | nil => exact trim_eq_nil_iff.mpr (blank_append_iff.mpr ⟨before, behind⟩)
  | cons c core =>
    have start : trimStart (front ++ (c :: core ++ rear)) = c :: core ++ rear := by
      rw [trimStart, List.dropWhile_append_of_pos before]
      exact dropWhile_of_head trimmed.opens
    have closes : ∀ d ∈ (c :: core).reverse.head?, isBlank d = false := by
      rw [List.head?_reverse]
      exact trimmed.closes
    rw [trim, start, trimEnd, List.reverse_append, List.dropWhile_append_of_pos,
      dropWhile_of_head closes, List.reverse_reverse]
    intro d member
    exact behind d (List.mem_reverse.mp member)

theorem trimmed_trim (text : List Char) : Trimmed text (trim text) where
  within := exists_trim text
  opens := by
    intro c head
    obtain ⟨rear, _, inner⟩ := exists_trimStart text
    obtain ⟨core, same⟩ := List.head?_eq_some_iff.mp head
    refine not_blank_head_dropWhile text c ?_
    change (trimStart text).head? = some c
    rw [inner, same]
    rfl
  closes := by
    rw [trim, trimEnd, List.getLast?_reverse]
    exact not_blank_head_dropWhile _

theorem trimmed_iff {text core : List Char} : Trimmed text core ↔ trim text = core :=
  ⟨Trimmed.trim_eq, fun same => same ▸ trimmed_trim text⟩

theorem count_eq_zero_of_blank {text : List Char} {c : Char} (blank : Blank text)
    (solid : isBlank c = false) : text.count c = 0 := by
  rw [List.count_eq_zero]
  intro member
  rw [blank c member] at solid
  cases solid

theorem count_trim {c : Char} (solid : isBlank c = false) (text : List Char) :
    (trim text).count c = text.count c := by
  obtain ⟨front, rear, before, behind, same⟩ := exists_trim text
  have counts := congrArg (List.count c) same
  rw [List.count_append, List.count_append, count_eq_zero_of_blank before solid,
    count_eq_zero_of_blank behind solid, Nat.zero_add, Nat.add_zero] at counts
  exact counts.symm

theorem joinLines_cons_cons (line next : List Char) (more : List (List Char)) :
    joinLines (line :: next :: more) = line ++ '\n' :: joinLines (next :: more) := by
  rw [joinLines, List.intercalate_cons_cons, List.append_assoc]
  rfl

theorem blank_joinLines_iff {parts : List (List Char)} :
    Blank (joinLines parts) ↔ ∀ line ∈ parts, Blank line := by
  induction parts with
  | nil => simp [Blank, joinLines]
  | cons line more ih =>
    cases more with
    | nil => simp [joinLines]
    | cons next more =>
      have feed : isBlank '\n' = true := by decide
      rw [joinLines_cons_cons, blank_append_iff, List.forall_mem_cons, ← ih]
      simp [Blank, feed]

theorem count_joinLines {c : Char} (solid : isBlank c = false) (parts : List (List Char)) :
    (joinLines parts).count c = (parts.map (List.count c)).sum := by
  induction parts with
  | nil => rfl
  | cons line more ih =>
    cases more with
    | nil => simp [joinLines]
    | cons next more =>
      have other : '\n' ≠ c := by
        rintro rfl
        cases solid
      rw [joinLines_cons_cons, List.count_append, List.count_cons_of_ne other, ih]
      rfl

/-- Lines that are all empty come to nothing but the line feeds between them. -/
theorem joinLines_replicate (k : Nat) :
    joinLines (List.replicate (k + 1) []) = List.replicate k '\n' := by
  induction k with
  | zero => rfl
  | succ k ih =>
    rw [List.replicate_succ, List.replicate_succ, joinLines_cons_cons, ← List.replicate_succ, ih]
    rfl

theorem HasLines.sum_count {c : Char} {text : List Char} {parts : List (List Char)}
    (solid : isBlank c = false) (has : HasLines text parts) :
    (parts.map (List.count c)).sum = text.count c := by
  have feed : '\n' ≠ c := by
    rintro rfl
    cases solid
  have ret : '\r' ≠ c := by
    rintro rfl
    cases solid
  induction has with
  | nil => rfl
  | last filled feedless => exact List.sum_singleton
  | feed feedless single later ih =>
    rw [List.map_cons, List.sum_cons, ih, List.count_append, List.count_cons_of_ne feed]
  | pair feedless later ih =>
    rw [List.map_cons, List.sum_cons, ih, List.count_append, List.count_cons_of_ne ret,
      List.count_cons_of_ne feed]

end SyntaxReport.Text
