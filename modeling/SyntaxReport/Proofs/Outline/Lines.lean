/- The lines of an outline: those of a member lie in those of its symbol, and the iteration goes
through them in order. -/
import SyntaxReport.Proofs.Outline.Origin
import SyntaxReport.Proofs.Text.Order
import SyntaxReport.Proofs.Tree.Nested

namespace SyntaxReport

/-- The lines of a symbol count from one, are in order, and hold those of its members. -/
structure Symbol.Spans (s : Symbol) : Prop where
  first : 1 ≤ s.lineStart
  ordered : s.lineStart ≤ s.lineEnd
  members : ∀ t ∈ s.children, s.lineStart ≤ t.lineStart ∧ t.lineEnd ≤ s.lineEnd

namespace Outline

theorem lines_of_mem_declaration {source : Bytes} {docs member : Bool} {elder : List Node}
    {n : Node} {s : Symbol} (declared : s ∈ declaration source docs member elder n) :
    s.lineStart = (n.startPosition source).row + 1 ∧
      s.lineEnd = (n.endPosition source).row + 1 := by
  have own := Node.lines_of_mem_ownSymbols (bare_mem_ownSymbols declared)
  exact own

/-- A member lies in the body, and the body in the declaration. -/
theorem spans_of_mem_declaration {source : Bytes} {docs member : Bool} {elder : List Node}
    {n : Node} {s : Symbol} (nested : n.Nested)
    (declared : s ∈ declaration source docs member elder n) : s.Spans := by
  obtain ⟨start, stop⟩ := lines_of_mem_declaration declared
  constructor
  · rw [start]
    exact Nat.succ_pos _
  · rw [start, stop]
    exact Nat.succ_le_succ (Position.row_mono source (Node.nested_iff.mp nested).1)
  · intro t inner
    obtain ⟨body, first, m, child, older, below⟩ := exists_of_mem_children declared inner
    have within := List.mem_of_find?_eq_some first
    have outer := nested.child_range within
    have middle := (nested.child within).child_range child
    obtain ⟨start', stop'⟩ := lines_of_mem_declaration below
    rw [start, stop, start', stop']
    constructor
    · exact Nat.succ_le_succ (Position.row_mono source (by omega))
    · exact Nat.succ_le_succ (Position.row_mono source (by omega))

/-- In a tree of nested ranges, the symbols of an outline of any node hold the lines of their
members, and the iteration never goes back to an earlier line. -/
theorem lines_nested_in_order {tree root : Node} {place : List Nat} (nested : tree.Nested)
    (found : tree.at? place = some root) (source : Bytes) (docs : Bool) :
    (∀ s ∈ (ofTree source root docs).toList, s.Spans) ∧
      (ofTree source root docs).toList.Pairwise fun s t => s.lineStart ≤ t.lineStart := by
  have inner := nested.at? found
  constructor
  · intro s listed
    obtain ⟨_, n, _, here, declared⟩ := mem_ofTree.mp listed
    exact spans_of_mem_declaration (inner.at? here) declared
  · rw [toList_ofTree]
    apply List.pairwise_flatMap.mpr
    constructor
    · -- the symbols of one declaration all start on its first line
      intro path _
      apply List.pairwise_of_forall_mem_list
      intro s first t second
      obtain ⟨n, here, first⟩ := mem_declaredAt.mp first
      obtain ⟨n', here', second⟩ := mem_declaredAt.mp second
      cases Option.some.inj (here.symm.trans here')
      rw [(lines_of_mem_declaration first).1, (lines_of_mem_declaration second).1]
    · refine (root.pairwise_addresses.filter _).imp ?_
      intro p q before s first t second
      obtain ⟨m, here, first⟩ := mem_declaredAt.mp first
      obtain ⟨n, there, second⟩ := mem_declaredAt.mp second
      rw [(lines_of_mem_declaration first).1, (lines_of_mem_declaration second).1]
      exact Nat.succ_le_succ
        (Position.row_mono source (inner.start_le_of_precedes here there before))

/-- A class with a declaration of two properties and a method. -/
def pairText : String := "class A \x7b\n  let (b, c) = d\n  func e() \x7b\x7d\n\x7d\n"

def pairBody : Node :=
  .mk ⟨"class_body", true, false, false, false, some .body, 8, 42⟩ [
    .mk ⟨"\x7b", false, false, false, false, none, 8, 9⟩ [],
    .mk ⟨"property_declaration", true, false, false, false, none, 12, 26⟩ [
      .mk ⟨"value_binding_pattern", true, false, false, false, none, 12, 15⟩ [
        .mk ⟨"let", false, false, false, false, none, 12, 15⟩ []],
      .mk ⟨"pattern", true, false, false, false, some .name, 16, 22⟩ [
        .mk ⟨"(", false, false, false, false, none, 16, 17⟩ [],
        .mk ⟨"pattern", true, false, false, false, none, 17, 18⟩ [
          .mk ⟨"simple_identifier", true, false, false, false, none, 17, 18⟩ []],
        .mk ⟨",", false, false, false, false, none, 18, 19⟩ [],
        .mk ⟨"pattern", true, false, false, false, none, 20, 21⟩ [
          .mk ⟨"simple_identifier", true, false, false, false, none, 20, 21⟩ []],
        .mk ⟨")", false, false, false, false, none, 21, 22⟩ []],
      .mk ⟨"=", false, false, false, false, none, 23, 24⟩ [],
      .mk ⟨"simple_identifier", true, false, false, false, none, 25, 26⟩ []],
    .mk ⟨"function_declaration", true, false, false, false, none, 29, 40⟩ [
      .mk ⟨"func", false, false, false, false, none, 29, 33⟩ [],
      .mk ⟨"simple_identifier", true, false, false, false, some .name, 34, 35⟩ [],
      .mk ⟨"function_body", true, false, false, false, some .body, 38, 40⟩ []],
    .mk ⟨"\x7d", false, false, false, false, none, 41, 42⟩ []]

def pairClass : Node :=
  .mk ⟨"source_file", true, false, false, false, none, 0, 43⟩ [
    .mk ⟨"class_declaration", true, false, false, false, none, 0, 42⟩ [
      .mk ⟨"class", false, false, false, false, some .declarationKind, 0, 5⟩ [],
      .mk ⟨"type_identifier", true, false, false, false, some .name, 6, 7⟩ [],
      pairBody]]

theorem toList_pairClass :
    (ofTree (bytesOf pairText) pairClass true).toList.map
      (fun s => (s.name, s.lineStart, s.lineEnd)) =
        [("A", 1, 4), ("b", 2, 2), ("c", 2, 2), ("e", 3, 3)] := by
  rw [toList_eq]
  decide +kernel

/-- The two properties share a line, and the class goes on for one more behind its method. -/
theorem pairClass_lines_nested :
    pairClass.Nested ∧ pairClass.at? [] = some pairClass ∧
      ∃ s ∈ (ofTree (bytesOf pairText) pairClass true).toList, s.name = "A" ∧ s.lineEnd = 4 ∧
        s.Spans ∧
        ((ofTree (bytesOf pairText) pairClass true).toList.map (·.lineStart)).Pairwise (· ≤ ·) := by
  have nested : pairClass.Nested := by
    simp [pairClass, pairBody, Node.Nested, Node.NestedIn, Node.label]
  have found : pairClass.at? [] = some pairClass := rfl
  obtain ⟨spans, sorted⟩ := lines_nested_in_order nested found (bytesOf pairText) true
  have top : ("A", 1, 4) ∈ (ofTree (bytesOf pairText) pairClass true).toList.map
      fun s => (s.name, s.lineStart, s.lineEnd) := by
    rw [toList_pairClass]
    exact List.mem_cons_self
  obtain ⟨s, listed, lines⟩ := List.mem_map.mp top
  refine ⟨nested, found, s, listed, congrArg (·.1) lines, congrArg (·.2.2) lines,
    spans s listed, ?_⟩
  exact sorted.map _ fun _ _ => id

end Outline
end SyntaxReport
