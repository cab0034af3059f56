/- The documentation of a declaration is the longest run of line comments right above it, or else
the block comment there. No comment documents two declarations. -/
import Mathlib.Order.Bounds.Basic
import SyntaxReport.Proofs.Outline.Origin

namespace SyntaxReport

namespace Documentation

/-- What a line comment says: its text without the slashes in front and the blanks around. -/
def comment (source : Bytes) (n : Node) : List Char :=
  Text.trim ((n.text source).dropWhile (· = '/'))

/-- The text of some lines, if there are any. -/
def joined? : List (List Char) → Option String
  | [] => none
  | line :: more => some (String.ofList (Text.joinLines (line :: more)))

/-- The lines of a body without the blanks around and the asterisks in front, empty ones left
out. -/
def bodyLines (body : List Char) : List (List Char) :=
  ((Text.lines body).map plainLine).filter (!·.isEmpty)

/-- The documentation in a block comment of this text. -/
def ofBlock? (text : List Char) : Option String := joined? (bodyLines (blockBody text))

end Documentation

namespace Node

/-- A comment of one line with at least three slashes. -/
def IsDocLine (source : Bytes) (n : Node) : Prop :=
  n.kind = "comment" ∧ ['/', '/', '/'] <+: n.text source

instance (source : Bytes) (n : Node) : Decidable (n.IsDocLine source) :=
  inferInstanceAs (Decidable (_ ∧ _))

/-- A block comment that opens with two asterisks. -/
def IsDocBlock (source : Bytes) (n : Node) : Prop :=
  n.kind = "multiline_comment" ∧ ['/', '*', '*'] <+: n.text source

instance (source : Bytes) (n : Node) : Decidable (n.IsDocBlock source) :=
  inferInstanceAs (Decidable (_ ∧ _))

/-- A node ends at most one row above the start of the next one. -/
def EndsAbove (source : Bytes) (n next : Node) : Prop :=
  (next.startPosition source).row ≤ (n.endPosition source).row + 1

instance (source : Bytes) (n next : Node) : Decidable (n.EndsAbove source next) :=
  inferInstanceAs (Decidable (_ ≤ _))

/-- The `k` children right before the one at `j` are line comments, each right above the child
behind it. -/
def RunAbove (source : Bytes) (p : Node) (j k : Nat) : Prop :=
  k ≤ j ∧ ∀ i, j ≤ i + k → i < j → ∃ c next, p.children[i]? = some c ∧
    p.children[i + 1]? = some next ∧ c.IsDocLine source ∧ c.EndsAbove source next

/-- The child right before the one at `j` is a block comment right above it. -/
def BlockAbove (source : Bytes) (p : Node) (j : Nat) (c : Node) : Prop :=
  ∃ i next, i + 1 = j ∧ p.children[i]? = some c ∧ p.children[j]? = some next ∧
    c.IsDocBlock source ∧ c.EndsAbove source next

/-- What the children before the one at `j` document it with, `k` of them by lines. -/
structure Documented (source : Bytes) (p : Node) (j k : Nat) (doc : Option String) : Prop where
  longest : IsGreatest {k | p.RunAbove source j k} k
  lines : 0 < k → doc = some (String.ofList (Text.joinLines
    (((p.children.take j).drop (j - k)).map (Documentation.comment source))))
  block : k = 0 → ∀ c, p.BlockAbove source j c → doc = Documentation.ofBlock? (c.text source)
  nothing : k = 0 → (∀ c, ¬ p.BlockAbove source j c) → doc = none

/-- The comment at the first address is one of those that document the node at the second. -/
inductive Contributes (source : Bytes) (root : Node) : List Nat → List Nat → Prop
  | line {path : List Nat} {p : Node} {i j k : Nat} (found : root.at? path = some p)
      (run : p.RunAbove source j k) (inside : j ≤ i + k) (before : i < j) :
      Contributes source root (path ++ [i]) (path ++ [j])
  | block {path : List Nat} {p c : Node} {i : Nat} (found : root.at? path = some p)
      (block : p.BlockAbove source (i + 1) c) :
      Contributes source root (path ++ [i]) (path ++ [i + 1])

theorem take_succ_reverse {p c : Node} {i : Nat} (child : p.children[i]? = some c) :
    (p.children.take (i + 1)).reverse = c :: (p.children.take i).reverse := by
  rw [List.take_add_one, child, List.reverse_append]
  rfl

theorem exists_child_before {p n : Node} {j : Nat} (child : p.children[j + 1]? = some n) :
    ∃ c, p.children[j]? = some c := by
  obtain ⟨less, _⟩ := List.getElem?_eq_some_iff.mp child
  exact ⟨_, List.getElem?_eq_getElem (Nat.lt_of_succ_lt less)⟩

theorem length_take_child {p n : Node} {j : Nat} (child : p.children[j]? = some n) :
    (p.children.take j).length = j := by
  obtain ⟨less, _⟩ := List.getElem?_eq_some_iff.mp child
  exact List.length_take_of_le (Nat.le_of_lt less)

theorem at?_child {root p : Node} {path : List Nat} (found : root.at? path = some p) (j : Nat) :
    root.at? (path ++ [j]) = p.children[j]? := by
  rw [at?_append, found, Option.bind_some, at?_singleton]

theorem elder_child {root p : Node} {path : List Nat} (found : root.at? path = some p) (j : Nat) :
    root.elder (path ++ [j]) = (p.children.take j).reverse := by
  induction path generalizing root with
  | nil =>
    cases Option.some.inj found
    rfl
  | cons i path ih =>
    obtain ⟨c, child, below⟩ := Option.bind_eq_some_iff.mp found
    have inner := ih below
    cases path with
    | nil =>
      rw [List.cons_append, List.nil_append, elder, child]
      exact inner
    | cons h path =>
      rw [List.cons_append, List.cons_append, elder, child]
      exact inner

theorem runAbove_zero (source : Bytes) (p : Node) (j : Nat) : p.RunAbove source j 0 :=
  ⟨Nat.zero_le j, fun _ inside before => absurd before (Nat.not_lt.mpr inside)⟩

/-- A run goes one child further if that child is a line comment right above the next one. -/
theorem runAbove_succ_iff {source : Bytes} {p c next : Node} {j : Nat}
    (child : p.children[j]? = some c) (behind : p.children[j + 1]? = some next) (k : Nat) :
    p.RunAbove source (j + 1) (k + 1) ↔
      (c.IsDocLine source ∧ c.EndsAbove source next) ∧ p.RunAbove source j k := by
  constructor
  · rintro ⟨fits, lines⟩
    refine ⟨?_, Nat.le_of_succ_le_succ fits, fun i inside before => ?_⟩
    · obtain ⟨c', next', child', behind', line, above⟩ := lines j (by omega) (Nat.lt_succ_self j)
      cases Option.some.inj (child.symm.trans child')
      cases Option.some.inj (behind.symm.trans behind')
      exact ⟨line, above⟩
    · exact lines i (by omega) (by omega)
  · rintro ⟨⟨line, above⟩, fits, lines⟩
    refine ⟨Nat.succ_le_succ fits, fun i inside before => ?_⟩
    rcases Nat.eq_or_lt_of_le (Nat.le_of_lt_succ before) with rfl | earlier
    · exact ⟨c, next, child, behind, line, above⟩
    · exact lines i (by omega) earlier

end Node

namespace Documentation

open Node (IsDocLine IsDocBlock EndsAbove RunAbove BlockAbove Documented)

theorem lineText?_eq (source : Bytes) (n : Node) :
    lineText? source n = if n.IsDocLine source then some (comment source n) else none := by
  simp only [lineText?, List.isPrefixOf_iff_prefix]
  rfl

theorem lineRun_cons {source : Bytes} {c next : Node} (elder : List Node) :
    lineRun source (next.startPosition source).row (c :: elder) =
      if c.IsDocLine source ∧ c.EndsAbove source next then
        comment source c :: lineRun source (c.startPosition source).row elder
      else [] := by
  rw [lineRun, lineText?_eq]
  by_cases line : c.IsDocLine source
  · simp [line, EndsAbove, adjacent]
  · simp [line]

theorem lineRun_eq_take (source : Bytes) (row : Nat) (elder : List Node) :
    lineRun source row elder =
      (elder.take (lineRun source row elder).length).map (comment source) := by
  induction elder generalizing row with
  | nil => rfl
  | cons c elder ih =>
    rw [lineRun, lineText?_eq]
    split
    · by_cases line : c.IsDocLine source
      · simp only [line, if_true]
        rw [List.length_cons, List.take_succ_cons, List.map_cons, ← ih]
      · simp [line]
    · rfl

/-- The loop over the elder siblings goes exactly as far as a run does. -/
theorem runAbove_iff {source : Bytes} {p n : Node} {j : Nat} (child : p.children[j]? = some n)
    (k : Nat) : p.RunAbove source j k ↔
      k ≤ (lineRun source (n.startPosition source).row (p.children.take j).reverse).length := by
  induction j generalizing n k with
  | zero =>
    rw [List.take_zero, List.reverse_nil, lineRun, List.length_nil]
    constructor
    · intro run
      exact run.1
    · intro none
      cases Nat.le_zero.mp none
      exact Node.runAbove_zero source p 0
  | succ j ih =>
    obtain ⟨c, before⟩ := Node.exists_child_before child
    rw [Node.take_succ_reverse before, lineRun_cons]
    cases k with
    | zero => exact iff_of_true (Node.runAbove_zero source p _) (Nat.zero_le _)
    | succ k =>
      rw [Node.runAbove_succ_iff before child, ih before]
      split
      · next line =>
        rw [List.length_cons, Nat.succ_le_succ_iff]
        exact and_iff_right line
      · next other => exact iff_of_false (fun both => other both.1) (Nat.not_succ_le_zero k)

/-- A run read from the nearest comment up is the same run in source order, reversed. -/
theorem reverse_lineRun {source : Bytes} {p n : Node} {j k : Nat}
    (child : p.children[j]? = some n)
    (length : (lineRun source (n.startPosition source).row
      (p.children.take j).reverse).length = k) :
    (lineRun source (n.startPosition source).row (p.children.take j).reverse).reverse =
      ((p.children.take j).drop (j - k)).map (comment source) := by
  rw [lineRun_eq_take, length, List.take_reverse, Node.length_take_child child, List.map_reverse,
    List.reverse_reverse]

theorem above?_of_run {source : Bytes} {row : Nat} {elder : List Node}
    (some_line : 0 < (lineRun source row elder).length) :
    above? source row elder =
      some (String.ofList (Text.joinLines (lineRun source row elder).reverse)) := by
  rw [above?]
  cases run : lineRun source row elder with
  | nil =>
    rw [run] at some_line
    cases some_line
  | cons line more => rfl

theorem above?_of_no_run {source : Bytes} {row : Nat} {elder : List Node}
    (no_line : (lineRun source row elder).length = 0) :
    above? source row elder = (blockText? source row elder).map String.ofList := by
  rw [above?, List.length_eq_zero_iff.mp no_line]

theorem blockText?_cons (source : Bytes) (c next : Node) (elder : List Node) :
    (blockText? source (next.startPosition source).row (c :: elder)).map String.ofList =
      if c.IsDocBlock source ∧ c.EndsAbove source next then ofBlock? (c.text source)
      else none := by
  simp only [blockText?, adjacent, decide_eq_true_iff, List.isPrefixOf_iff_prefix]
  by_cases block : c.IsDocBlock source ∧ c.EndsAbove source next
  · rw [if_pos block, if_pos ⟨block.2, block.1⟩]
    change _ = joined? (blockLines (c.text source))
    cases blockLines (c.text source) with
    | nil => rfl
    | cons line more => rfl
  · rw [if_neg block, if_neg fun all => block ⟨all.2, all.1⟩]
    rfl

/-- Without a run, the block right above a child is its documentation, and else it has none. -/
theorem blockText?_elder {source : Bytes} {p n : Node} {j : Nat} (child : p.children[j]? = some n) :
    (∀ c, p.BlockAbove source j c → (blockText? source (n.startPosition source).row
        (p.children.take j).reverse).map String.ofList = ofBlock? (c.text source)) ∧
      ((∀ c, ¬ p.BlockAbove source j c) → (blockText? source (n.startPosition source).row
        (p.children.take j).reverse).map String.ofList = none) := by
  constructor
  · rintro c ⟨i, next, rfl, before, behind, block, above⟩
    cases Option.some.inj (child.symm.trans behind)
    rw [Node.take_succ_reverse before, blockText?_cons, if_pos ⟨block, above⟩]
  · intro bare
    cases j with
    | zero => rfl
    | succ i =>
      obtain ⟨c, before⟩ := Node.exists_child_before child
      rw [Node.take_succ_reverse before, blockText?_cons, if_neg]
      rintro ⟨block, above⟩
      exact bare c ⟨i, n, rfl, before, child, block, above⟩

theorem documented_above? {source : Bytes} {p n : Node} {j : Nat}
    (child : p.children[j]? = some n) :
    ∃ k, p.Documented source j k
      (above? source (n.startPosition source).row (p.children.take j).reverse) := by
  refine ⟨(lineRun source (n.startPosition source).row (p.children.take j).reverse).length, ?_⟩
  constructor
  · exact ⟨(runAbove_iff child _).mpr (Nat.le_refl _), fun k run => (runAbove_iff child k).mp run⟩
  · intro some_line
    rw [above?_of_run some_line, reverse_lineRun child rfl]
  · intro no_line c block
    rw [above?_of_no_run no_line, (blockText?_elder child).1 c block]
  · intro no_line bare
    rw [above?_of_no_run no_line, (blockText?_elder child).2 bare]

/-- A block right above a child leaves no room for a run. -/
theorem eq_zero_of_blockAbove {source : Bytes} {p c : Node} {j k : Nat}
    (block : p.BlockAbove source j c) (run : p.RunAbove source j k) : k = 0 := by
  obtain ⟨i, _, rfl, before, _, doc, _⟩ := block
  by_contra some_line
  obtain ⟨c', _, before', _, line, _⟩ := run.2 i (by omega) (Nat.lt_succ_self i)
  cases Option.some.inj (before.symm.trans before')
  have kinds := line.1.symm.trans doc.1
  revert kinds
  decide

theorem above?_of_block {source : Bytes} {p n c : Node} {j : Nat}
    (child : p.children[j]? = some n) (block : p.BlockAbove source j c) :
    above? source (n.startPosition source).row (p.children.take j).reverse =
      ofBlock? (c.text source) := by
  obtain ⟨k, documented⟩ := documented_above? child
  exact documented.block (eq_zero_of_blockAbove block documented.longest.1) c block

end Documentation

namespace Declaration

theorem special_not_imported {kind name : String} {symbolKind : SymbolKind}
    (h : ofKind? kind = some (.special name symbolKind)) : symbolKind ≠ .imported := by
  unfold ofKind? at h
  split at h <;> cases h <;> decide

theorem symbolKind_eq_imported_iff {source : Bytes} {member : Bool} {n : Node} {d : Declaration}
    (declared : ofKind? n.kind = some d) :
    d.symbolKind source member n = .imported ↔ d = .dependency := by
  constructor
  · intro imported
    cases d with
    | dependency => rfl
    | type =>
      have holds := hasMembers_typeKind source n
      rw [symbolKind] at imported
      rw [imported] at holds
      cases holds
    | routine => cases member <;> cases imported
    | special name kind => exact absurd imported (special_not_imported declared)
    | _ => cases imported
  · rintro rfl
    rfl

end Declaration

namespace Node

/-- Comments make no declaration. -/
theorem IsDocLine.ofKind? {source : Bytes} {n : Node} (line : n.IsDocLine source) :
    Declaration.ofKind? n.kind = none := by
  rw [line.1]
  rfl

/-- What documents one declaration documents no other: between a comment and a later declaration
of its run there is no declaration. -/
theorem Contributes.not_before {source : Bytes} {root m : Node} {path : List Nat} {i j : Nat}
    (before : i < j) (here : root.at? (path ++ [j]) = some m)
    (declares : (Declaration.ofKind? m.kind).isSome = true) {place later : List Nat}
    (contributes : Contributes source root place later) (comment : place = path ++ [i]) :
    ∀ l, later = path ++ [l] → l ≤ j := by
  intro l behind
  cases contributes with
  | @line path' p i' j' k found run inside less =>
    obtain ⟨rfl, rfl⟩ := List.append_singleton_inj.mp comment
    obtain ⟨_, rfl⟩ := List.append_singleton_inj.mp behind
    by_contra further
    obtain ⟨c, _, child, _, doc, _⟩ := run.2 j (by omega) (by omega)
    rw [at?_child found, child] at here
    cases Option.some.inj here
    rw [doc.ofKind?] at declares
    cases declares
  | @block path' p c i' found block =>
    obtain ⟨rfl, rfl⟩ := List.append_singleton_inj.mp comment
    obtain ⟨_, rfl⟩ := List.append_singleton_inj.mp behind
    exact before

theorem Contributes.siblings {source : Bytes} {root : Node} {place right : List Nat}
    (contributes : Contributes source root place right) :
    ∃ path i j, place = path ++ [i] ∧ right = path ++ [j] ∧ i < j := by
  cases contributes with
  | line found run inside before => exact ⟨_, _, _, rfl, rfl, before⟩
  | block found block => exact ⟨_, _, _, rfl, rfl, Nat.lt_succ_self _⟩

theorem Contributes.unique {source : Bytes} {root m n : Node} {place left right : List Nat}
    (first : root.at? left = some m) (declares : (Declaration.ofKind? m.kind).isSome = true)
    (second : root.at? right = some n) (declares' : (Declaration.ofKind? n.kind).isSome = true)
    (one : Contributes source root place left) (other : Contributes source root place right) :
    left = right := by
  obtain ⟨path, i, j, rfl, rfl, before⟩ := one.siblings
  obtain ⟨path', i', l, same, rfl, before'⟩ := other.siblings
  obtain ⟨rfl, rfl⟩ := List.append_singleton_inj.mp same
  have up := Contributes.not_before before first declares other rfl l rfl
  have down := Contributes.not_before before' second declares' one rfl j rfl
  rw [Nat.le_antisymm down up]

theorem documentation_of_mem_ownSymbols {source : Bytes} {member : Bool} {elder : List Node}
    {n : Node} {s : Symbol} (own : s ∈ n.ownSymbols source true member elder) :
    s.documentation = if s.kind = .imported then none
      else Documentation.above? source (n.startPosition source).row elder := by
  obtain ⟨d, _, declared, _, rfl⟩ := exists_of_mem_ownSymbols own
  simp only [Declaration.symbolKind_eq_imported_iff declared]
  cases d with
  | dependency => rfl
  | _ => rfl

end Node

namespace Outline

theorem documentation_of_mem_declaredAt {source : Bytes} {root p n : Node} {path : List Nat}
    {j : Nat} (found : root.at? path = some p) (child : p.children[j]? = some n) {s : Symbol}
    (declared : s ∈ root.declaredAt source true false (path ++ [j])) :
    s.documentation = if s.kind = .imported then none
      else Documentation.above? source (n.startPosition source).row
        (p.children.take j).reverse := by
  obtain ⟨m, here, declared⟩ := mem_declaredAt.mp declared
  rw [Node.at?_child found, child] at here
  cases Option.some.inj here
  rw [Node.elder_child found] at declared
  have own := Node.documentation_of_mem_ownSymbols (bare_mem_ownSymbols declared)
  exact own

/-- A declaration is documented by the longest run of line comments right above it, in source
order and whatever stands above the run. Without such a run it is documented by the block comment
right above it, and otherwise by nothing. Its symbols carry this documentation, imports aside, which
take none. No comment documents two declarations. -/
theorem documentation_longest_run (source : Bytes) (root : Node) :
    (ofTree source root true).toList =
        (root.visible source).flatMap (root.declaredAt source true false) ∧
      (∀ path p j n, root.at? path = some p → p.children[j]? = some n →
        (∃ k, p.Documented source j k (Documentation.above? source (n.startPosition source).row
          (root.elder (path ++ [j])))) ∧
        ∀ s ∈ root.declaredAt source true false (path ++ [j]),
          s.documentation = if s.kind = .imported then none
            else Documentation.above? source (n.startPosition source).row
              (root.elder (path ++ [j]))) ∧
      ∀ place left right m n, root.at? left = some m → root.at? right = some n →
        (Declaration.ofKind? m.kind).isSome = true → (Declaration.ofKind? n.kind).isSome = true →
        root.Contributes source place left → root.Contributes source place right →
          left = right := by
  refine ⟨toList_ofTree source root true, ?_, ?_⟩
  · intro path p j n found child
    rw [Node.elder_child found]
    exact ⟨Documentation.documented_above? child,
      fun s declared => documentation_of_mem_declaredAt found child declared⟩
  · intro place left right m n first second declares declares' one other
    exact Node.Contributes.unique first declares second declares' one other

/-- A line comment right above an import. -/
def frameworkText : String := "/// Docs\nimport Foundation\n"

def frameworkImport : Node :=
  .mk ⟨"import_declaration", true, false, false, false, none, 9, 26⟩ [
    .mk ⟨"import", false, false, false, false, none, 9, 15⟩ [],
    .mk ⟨"identifier", true, false, false, false, none, 16, 26⟩ [
      .mk ⟨"simple_identifier", true, false, false, false, none, 16, 26⟩ []]]

def frameworkTree : Node :=
  .mk ⟨"source_file", true, false, false, false, none, 0, 27⟩ [
    .mk ⟨"comment", true, false, false, false, none, 0, 8⟩ [],
    frameworkImport]

/-- The import has a run of one line above it and takes no documentation, so not every declaration
carries what its run says. -/
theorem frameworkTree_undocumented :
    IsGreatest {k | frameworkTree.RunAbove (bytesOf frameworkText) 1 k} 1 ∧
      frameworkTree.Documented (bytesOf frameworkText) 1 1 (some "Docs") ∧
      (ofTree (bytesOf frameworkText) frameworkTree true).symbols.map (·.documentation) = [none] ∧
      ¬ ∀ (source : Bytes) (root p n : Node) (path : List Nat) (j k : Nat) (doc : Option String),
        root.at? path = some p → p.children[j]? = some n → p.Documented source j k doc →
          ∀ s ∈ root.declaredAt source true false (path ++ [j]), s.documentation = doc := by
  have child : frameworkTree.children[1]? = some frameworkImport := rfl
  have documented : frameworkTree.Documented (bytesOf frameworkText) 1 1 (some "Docs") := by
    have line : frameworkTree.RunAbove (bytesOf frameworkText) 1 1 := by
      refine ⟨Nat.le_refl 1, fun i _ before => ?_⟩
      cases Nat.lt_one_iff.mp before
      exact ⟨_, frameworkImport, rfl, child, by decide +kernel, by decide +kernel⟩
    have above : Documentation.above? (bytesOf frameworkText)
        (frameworkImport.startPosition (bytesOf frameworkText)).row
        (frameworkTree.children.take 1).reverse = some "Docs" := by
      decide +kernel
    obtain ⟨k, documented⟩ := Documentation.documented_above? child
    rw [above] at documented
    have one : k = 1 := Nat.le_antisymm documented.longest.1.1 (documented.longest.2 line)
    rwa [one] at documented
  have listed : (frameworkTree.declaredAt (bytesOf frameworkText) true false [1]).map
      (·.documentation) = [none] := by
    decide +kernel
  refine ⟨documented.longest, documented, by decide +kernel, ?_⟩
  intro carries
  obtain ⟨s, declared, bare⟩ := List.mem_map.mp (listed ▸ List.mem_singleton_self none)
  have docs := carries _ frameworkTree frameworkTree _ [] 1 1 _ rfl child documented s declared
  rw [bare] at docs
  cases docs

/-- A block comment above a run of two lines. -/
def mixedText : String := "/** c */\n/// a\n///  b\nclass A \x7b\x7d\n"

def mixedTree : Node :=
  .mk ⟨"source_file", true, false, false, false, none, 0, 33⟩ [
    .mk ⟨"multiline_comment", true, false, false, false, none, 0, 8⟩ [],
    .mk ⟨"comment", true, false, false, false, none, 9, 14⟩ [],
    .mk ⟨"comment", true, false, false, false, none, 15, 21⟩ [],
    .mk ⟨"class_declaration", true, false, false, false, none, 22, 32⟩ [
      .mk ⟨"class", false, false, false, false, some .declarationKind, 22, 27⟩ [],
      .mk ⟨"type_identifier", true, false, false, false, some .name, 28, 29⟩ [],
      .mk ⟨"class_body", true, false, false, false, some .body, 30, 32⟩ [
        .mk ⟨"\x7b", false, false, false, false, none, 30, 31⟩ [],
        .mk ⟨"\x7d", false, false, false, false, none, 31, 32⟩ []]]]

example : (ofTree (bytesOf mixedText) mixedTree true).symbols.map (·.documentation) =
    [some "a\nb"] := by
  decide +kernel

end Outline
end SyntaxReport
