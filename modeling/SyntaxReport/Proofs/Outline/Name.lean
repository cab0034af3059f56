/- The symbols without a name: imports, enum cases and bound properties whose text is empty. -/
import SyntaxReport.Proofs.Outline.Origin
import SyntaxReport.Proofs.Outline.Pattern
import SyntaxReport.Text.Utf8.Lemmas

namespace SyntaxReport

namespace Node

/-- A text is empty over an empty range, and over bytes that are no text. -/
theorem text_eq_nil_iff {source : Bytes} {n : Node} :
    n.text source = [] ↔ n.bytes source = [] ∨ n.text? source = none := by
  rw [text]
  cases decoded : n.text? source with
  | none => simp
  | some text =>
    have same : n.text? source = some [] ↔ n.bytes source = [] := Utf8.decode?_eq_some_iff
    rw [decoded, Option.some.injEq] at same
    simpa using same

/-- A declaration with a name that is empty. -/
inductive Nameless (source : Bytes) (n : Node) : Prop
  | dependency {c : Node} (declares : Declaration.ofKind? n.kind = some .dependency)
      (first : n.namedChildren.find? (·.kind = "identifier") = some c)
      (empty : c.text source = [])
  | enumEntry {c : Node} (declares : Declaration.ofKind? n.kind = some .enumEntry)
      (name : c ∈ n.childrenOf .name) (empty : c.text source = [])
  | property {p c : Node} {path : List Nat}
      (declares : Declaration.ofKind? n.kind = some .property) (name : p ∈ n.childrenOf .name)
      (bound : Binds beforeColon p path) (found : p.at? path = some c)
      (empty : c.text source = [])

end Node

namespace Declaration

open Node (Nameless Binds beforeColon)

theorem nil_not_mem_firstName? (source : Bytes) (n : Node) :
    [] ∉ (firstName? source n).toList := by
  intro member
  have found := Option.mem_toList.mp member
  rw [firstName?, Option.filter_eq_some_iff] at found
  cases found.2

theorem special_named {kind name : String} {symbolKind : SymbolKind}
    (h : ofKind? kind = some (.special name symbolKind)) : name.toList ≠ [] := by
  unfold ofKind? at h
  split at h <;> cases h <;> decide

/-- A whole pattern is no name unless it has a text, so an empty name is that of an identifier. -/
theorem nil_mem_patternNames_iff {source : Bytes} {p : Node} : [] ∈ patternNames source p ↔
    ∃ path c, Binds beforeColon p path ∧ p.at? path = some c ∧ c.text source = [] := by
  have listed : [] ∈ patternNames source p ↔ [] ∈ bindings source p := by
    rw [patternNames]
    cases bindings source p with
    | nil => simp
    | cons name rest => rfl
  rw [listed, bindings_eq, List.mem_map]
  constructor
  · rintro ⟨path, bound, empty⟩
    obtain ⟨c, found⟩ := Option.isSome_iff_exists.mp
      (Node.mem_addresses.mp (List.mem_of_mem_filter bound))
    rw [Node.textAt, found] at empty
    exact ⟨path, c, Node.mem_bound.mp bound, found, empty⟩
  · rintro ⟨path, c, bound, found, empty⟩
    refine ⟨path, Node.mem_bound.mpr bound, ?_⟩
    rw [Node.textAt, found]
    exact empty

theorem nameless_of_nil_mem {source : Bytes} {n : Node} {d : Declaration}
    (declared : ofKind? n.kind = some d) (empty : [] ∈ d.names source n) :
    n.Nameless source := by
  cases d with
  | dependency =>
    have path := Option.mem_toList.mp empty
    obtain ⟨c, first, text⟩ := Option.map_eq_some_iff.mp path
    exact .dependency declared first text
  | special name kind =>
    exact absurd (List.mem_singleton.mp empty).symm (special_named declared)
  | property =>
    obtain ⟨p, name, inner⟩ := List.mem_flatMap.mp empty
    obtain ⟨path, c, bound, found, text⟩ := nil_mem_patternNames_iff.mp inner
    exact .property declared name bound found text
  | enumEntry =>
    obtain ⟨c, name, text⟩ := List.mem_map.mp empty
    exact .enumEntry declared name text
  | _ => exact absurd empty (nil_not_mem_firstName? source n)

theorem nil_mem_of_nameless {source : Bytes} {n : Node} (nameless : n.Nameless source) :
    ∃ d, ofKind? n.kind = some d ∧ [] ∈ d.names source n := by
  cases nameless with
  | dependency declares first empty =>
    refine ⟨_, declares, ?_⟩
    rw [names, importPath?, first, Option.map_some, empty]
    exact List.mem_singleton_self _
  | enumEntry declares name empty =>
    exact ⟨_, declares, List.mem_map.mpr ⟨_, name, empty⟩⟩
  | property declares name bound found empty =>
    have inner := nil_mem_patternNames_iff.mpr ⟨_, _, bound, found, empty⟩
    exact ⟨_, declares, List.mem_flatMap.mpr ⟨_, name, inner⟩⟩

end Declaration

namespace Node

theorem exists_nameless_iff (source : Bytes) (docs member : Bool) (elder : List Node)
    (n : Node) :
    (∃ s ∈ n.ownSymbols source docs member elder, s.name = "") ↔ n.Nameless source := by
  constructor
  · rintro ⟨s, own, empty⟩
    obtain ⟨d, name, declared, present, rfl⟩ := exists_of_mem_ownSymbols own
    have none : name = [] := String.toList_ofList.symm.trans (congrArg String.toList empty)
    exact Declaration.nameless_of_nil_mem declared (none ▸ present)
  · intro nameless
    obtain ⟨d, declared, empty⟩ := Declaration.nil_mem_of_nameless nameless
    rw [← d.map_name_symbols source docs member elder n, List.mem_map] at empty
    obtain ⟨s, own, text⟩ := empty
    refine ⟨s, ?_, String.toList_eq_nil_iff.mp text⟩
    rw [ownSymbols, declared]
    exact own

end Node

namespace Outline

theorem exists_nameless_mem_declaredAt_iff {source : Bytes} {docs member : Bool} {root n : Node}
    {place : List Nat} (found : root.at? place = some n) :
    (∃ s ∈ root.declaredAt source docs member place, s.name = "") ↔ n.Nameless source := by
  rw [← Node.exists_nameless_iff source docs (member || decide (1 < place.length))
    (root.elder place) n, ← map_bare_declaration, Node.declaredAt, found, Option.elim_some]
  simp only [List.mem_map, exists_exists_and_eq_and]
  rfl

/-- A node declares a symbol without a name exactly if it is an import, an enum case or a bound
property of an empty text: one over no bytes, or over bytes that are no text. An outline has such a
symbol exactly where such a node is visible. -/
theorem nameless_iff (source : Bytes) (root : Node) (docs : Bool) :
    (∀ place n, root.at? place = some n →
        ((∃ s ∈ root.declaredAt source docs false place, s.name = "") ↔ n.Nameless source)) ∧
      ((∃ s ∈ (ofTree source root docs).toList, s.name = "") ↔
        ∃ place n, root.Visible source place ∧ root.at? place = some n ∧ n.Nameless source) ∧
      ∀ c : Node, c.text source = [] ↔ c.bytes source = [] ∨ c.text? source = none := by
  refine ⟨fun place n found => exists_nameless_mem_declaredAt_iff found, ?_,
    fun c => Node.text_eq_nil_iff⟩
  rw [toList_ofTree]
  constructor
  · rintro ⟨s, listed, empty⟩
    obtain ⟨place, shown, declared⟩ := List.mem_flatMap.mp listed
    obtain ⟨n, found, _⟩ := mem_declaredAt.mp declared
    exact ⟨place, n, Node.mem_visible.mp shown, found,
      (exists_nameless_mem_declaredAt_iff found).mp ⟨s, declared, empty⟩⟩
  · rintro ⟨place, n, visible, found, nameless⟩
    obtain ⟨s, declared, empty⟩ := (exists_nameless_mem_declaredAt_iff found).mpr nameless
    exact ⟨s, List.mem_flatMap.mpr ⟨place, Node.mem_visible.mpr visible, declared⟩, empty⟩

/-- An import of nothing: what stands for its path is empty. -/
def importText : String := "import\n"

def importTree : Node :=
  .mk ⟨"source_file", true, false, false, true, none, 0, 7⟩ [
    .mk ⟨"import_declaration", true, false, false, true, none, 0, 6⟩ [
      .mk ⟨"import", false, false, false, false, none, 0, 6⟩ [],
      .mk ⟨"identifier", true, false, false, true, none, 6, 6⟩ [
        .mk ⟨"simple_identifier", true, false, false, true, none, 6, 6⟩ []]]]

/-- The only symbol of this outline has no name. -/
theorem importTree_nameless :
    (ofTree (bytesOf importText) importTree true).toList.map (·.name) = [""] := by
  rw [toList_eq]
  decide +kernel

end Outline
end SyntaxReport
