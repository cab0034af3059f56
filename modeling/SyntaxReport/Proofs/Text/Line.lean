/- The lines of a text, told from what ends them. -/
import SyntaxReport.Text.Line

namespace SyntaxReport.Text

/-- The lines of a text. A line feed ends a line, and so does a carriage return with a line feed
right behind it. Anywhere else a carriage return is part of its line. -/
inductive HasLines : List Char → List (List Char) → Prop
  | nil : HasLines [] []
  | last {line : List Char} (filled : line ≠ []) (feedless : '\n' ∉ line) : HasLines line [line]
  | feed {line rest : List Char} {more : List (List Char)} (feedless : '\n' ∉ line)
      (single : line.getLast? ≠ some '\r') (later : HasLines rest more) :
      HasLines (line ++ '\n' :: rest) (line :: more)
  | pair {line rest : List Char} {more : List (List Char)} (feedless : '\n' ∉ line)
      (later : HasLines rest more) : HasLines (line ++ '\r' :: '\n' :: rest) (line :: more)

theorem lines_cons {c : Char} {rest line : List Char} {more : List (List Char)} (other : c ≠ '\n')
    (parted : c = '\r' → rest.head? ≠ some '\n') (found : lines rest = line :: more) :
    lines (c :: rest) = (c :: line) :: more := by
  rw [lines, found]
  · exact other
  · rintro after rfl rfl
    exact parted rfl rfl

theorem lines_single {c : Char} (other : c ≠ '\n') : lines [c] = [[c]] := by
  rw [lines]
  · rfl
  · exact other
  · simp

/-- Characters that are no line feeds belong to the line that follows them, unless they end in a
carriage return right in front of its line feed. -/
theorem lines_append {front text line : List Char} {more : List (List Char)}
    (feedless : '\n' ∉ front) (parted : front.getLast? = some '\r' → text.head? ≠ some '\n')
    (found : lines text = line :: more) : lines (front ++ text) = (front ++ line) :: more := by
  induction front with
  | nil => exact found
  | cons c front ih =>
    obtain ⟨other, later⟩ := List.ne_and_not_mem_of_not_mem_cons feedless
    refine lines_cons other.symm ?_ (ih later ?_)
    · intro ret
      cases front with
      | nil => exact parted (congrArg some ret)
      | cons d front =>
        intro next
        exact (List.ne_of_not_mem_cons later) (Option.some.inj next).symm
    · intro last
      apply parted
      rw [List.getLast?_cons, last]
      rfl

namespace HasLines

theorem lines_eq {text : List Char} {parts : List (List Char)} (has : HasLines text parts) :
    lines text = parts := by
  induction has with
  | nil => rfl
  | @last line filled feedless =>
    -- the last character is a line, and the others go with it
    have parts := List.dropLast_concat_getLast filled
    have other : line.getLast filled ≠ '\n' := fun same =>
      feedless (same ▸ List.getLast_mem filled)
    have front : '\n' ∉ line.dropLast := fun member => feedless (List.dropLast_subset line member)
    have parted : [line.getLast filled].head? ≠ some '\n' := fun next =>
      other (Option.some.inj next)
    have whole := lines_append front (fun _ => parted) (lines_single other)
    rwa [parts] at whole
  | @feed line rest more feedless single later ih =>
    have ended : lines ('\n' :: rest) = [] :: more := by rw [lines, ih]
    have whole := lines_append feedless (fun ret => absurd ret single) ended
    rwa [List.append_nil] at whole
  | @pair line rest more feedless later ih =>
    have ended : lines ('\r' :: '\n' :: rest) = [] :: more := by rw [lines, ih]
    have whole := lines_append feedless (fun _ => by simp) ended
    rwa [List.append_nil] at whole

/-- A character that ends no line makes the first line longer. -/
theorem cons {c : Char} {rest line : List Char} {more : List (List Char)} (other : c ≠ '\n')
    (parted : c = '\r' → rest.head? ≠ some '\n') (has : HasLines rest (line :: more)) :
    HasLines (c :: rest) ((c :: line) :: more) := by
  have longer {line : List Char} (feedless : '\n' ∉ line) : '\n' ∉ c :: line :=
    List.not_mem_cons_of_ne_of_not_mem other.symm feedless
  cases has with
  | last filled feedless => exact .last (List.cons_ne_nil c _) (longer feedless)
  | feed feedless single later =>
    refine .feed (longer feedless) ?_ later
    cases line with
    | nil =>
      intro last
      exact parted (Option.some.inj last) rfl
    | cons d line =>
      rw [List.getLast?_cons_cons]
      exact single
  | pair feedless later => exact .pair (longer feedless) later

theorem feedless {text : List Char} {parts : List (List Char)} (has : HasLines text parts) :
    ∀ line ∈ parts, '\n' ∉ line := by
  induction has with
  | nil => simp
  | last filled feedless => exact List.forall_mem_singleton.mpr feedless
  | feed feedless single later ih => exact List.forall_mem_cons.mpr ⟨feedless, ih⟩
  | pair feedless later ih => exact List.forall_mem_cons.mpr ⟨feedless, ih⟩

theorem isInfix {text : List Char} {parts : List (List Char)} (has : HasLines text parts) :
    ∀ line ∈ parts, line <:+: text := by
  have behind {line rest : List Char} (front : List Char) (inner : line <:+: rest) :
      line <:+: front ++ rest := inner.trans (List.suffix_append front rest).isInfix
  induction has with
  | nil => simp
  | @last line filled feedless => exact List.forall_mem_singleton.mpr (List.infix_refl line)
  | @feed line rest more feedless single later ih =>
    refine List.forall_mem_cons.mpr ⟨(List.prefix_append line _).isInfix, fun next member => ?_⟩
    exact behind line (behind ['\n'] (ih next member))
  | @pair line rest more feedless later ih =>
    refine List.forall_mem_cons.mpr ⟨(List.prefix_append line _).isInfix, fun next member => ?_⟩
    exact behind line (behind ['\r', '\n'] (ih next member))

end HasLines

theorem hasLines_lines (text : List Char) : HasLines text (lines text) := by
  induction text using lines.induct with
  | case1 => exact .nil
  | case2 rest ih =>
    have ended : HasLines ([] ++ '\n' :: rest) ([] :: lines rest) := .feed (by simp) (by simp) ih
    exact ended
  | case3 rest ih =>
    have ended : HasLines ([] ++ '\r' :: '\n' :: rest) ([] :: lines rest) := .pair (by simp) ih
    exact ended
  | case4 c rest feed pair empty ih =>
    rw [empty] at ih
    cases ih
    rw [lines_single feed]
    exact .last (List.cons_ne_nil c []) (List.not_mem_cons_of_ne_of_not_mem (Ne.symm feed) (by simp))
  | case5 c rest feed pair line more found ih =>
    have parted : c = '\r' → rest.head? ≠ some '\n' := by
      rintro ret next
      obtain ⟨after, rfl⟩ := List.head?_eq_some_iff.mp next
      exact pair after ret rfl
    rw [lines_cons feed parted found]
    rw [found] at ih
    exact ih.cons feed parted

theorem hasLines_iff {text : List Char} {parts : List (List Char)} :
    HasLines text parts ↔ lines text = parts :=
  ⟨HasLines.lines_eq, fun same => same ▸ hasLines_lines text⟩

end SyntaxReport.Text
