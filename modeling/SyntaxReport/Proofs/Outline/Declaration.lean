/- How many symbols a node stands for, and which of them have members. -/
import SyntaxReport.Proofs.Outline.Visible

namespace SyntaxReport

namespace Declaration

theorem ofKind?_eq_type {kind : String} (h : ofKind? kind = some .type) :
    kind = "class_declaration" := by
  unfold ofKind? at h
  split at h <;> simp_all

theorem ofKind?_eq_protocol {kind : String} (h : ofKind? kind = some .protocol) :
    kind = "protocol_declaration" := by
  unfold ofKind? at h
  split at h <;> simp_all

theorem hasMembers_of_special {kind name : String} {symbolKind : SymbolKind}
    (h : ofKind? kind = some (.special name symbolKind)) : symbolKind.hasMembers = false := by
  unfold ofKind? at h
  split at h <;> cases h <;> rfl

theorem hasMembers_typeKind (source : Bytes) (n : Node) :
    (typeKind source n).hasMembers = true := by
  unfold typeKind
  split <;> rfl

/-- Only types and protocols have members. -/
theorem eq_of_hasMembers {source : Bytes} {member : Bool} {n : Node} {d : Declaration}
    (declared : ofKind? n.kind = some d)
    (h : (d.symbolKind source member n).hasMembers = true) : d = .type ∨ d = .protocol := by
  cases d with
  | type => exact .inl rfl
  | protocol => exact .inr rfl
  | routine => cases member <;> cases h
  | special name kind =>
    rw [symbolKind, hasMembers_of_special declared] at h
    cases h
  | _ => cases h

theorem firstName?_of_hasName {source : Bytes} {n : Node} (named : n.HasName source) :
    ∃ name, firstName? source n = some name := by
  obtain ⟨c, found, text⟩ := Option.any_eq_true _ _ |>.mp named
  refine ⟨c.text source, ?_⟩
  rw [firstName?, found, Option.map_some, Option.filter_some, if_pos text]

theorem firstName?_of_not_hasName {source : Bytes} {n : Node} (unnamed : ¬ n.HasName source) :
    firstName? source n = none := by
  rw [firstName?]
  cases found : n.childOf? .name with
  | none => rfl
  | some c =>
    have empty : (!(c.text source).isEmpty) = false := by
      simpa [Node.HasName, found] using unnamed
    rw [Option.map_some, Option.filter_some, empty]
    rfl

theorem length_firstName? (source : Bytes) (n : Node) :
    (firstName? source n).toList.length = if n.HasName source then 1 else 0 := by
  by_cases named : n.HasName source
  · obtain ⟨name, found⟩ := firstName?_of_hasName named
    rw [found, if_pos named]
    rfl
  · rw [firstName?_of_not_hasName named, if_neg named]
    rfl

theorem length_importPath? (source : Bytes) (n : Node) :
    (importPath? source n).toList.length =
      if n.namedChildren.any (·.kind = "identifier") then 1 else 0 := by
  rw [importPath?]
  cases found : n.namedChildren.find? (·.kind = "identifier") with
  | none =>
    have absent : n.namedChildren.any (·.kind = "identifier") = false := by
      rw [List.any_eq_false]
      exact List.find?_eq_none.mp found
    rw [absent]
    rfl
  | some c =>
    have present : n.namedChildren.any (·.kind = "identifier") = true := by
      have identifier := List.find?_some found
      exact List.any_eq_true.mpr ⟨c, List.mem_of_find?_eq_some found, identifier⟩
    rw [present]
    rfl

theorem map_name_symbols (d : Declaration) (source : Bytes) (docs member : Bool)
    (elder : List Node) (n : Node) :
    (d.symbols source docs member elder n).map (·.name.toList) = d.names source n := by
  rw [symbols, List.map_map]
  exact List.map_id'' (fun _ => String.toList_ofList) _

end Declaration

namespace Node

/-- The number of symbols that a node stands for, members aside. -/
def symbolCount (source : Bytes) (n : Node) : Nat :=
  match n.kind with
  | "import_declaration" => if n.namedChildren.any (·.kind = "identifier") then 1 else 0
  | "class_declaration" | "protocol_declaration" | "function_declaration"
  | "protocol_function_declaration" | "typealias_declaration" =>
    if n.HasName source then 1 else 0
  | "init_declaration" | "deinit_declaration" | "subscript_declaration" => 1
  | "property_declaration" | "protocol_property_declaration" =>
    ((n.childrenOf .name).flatMap (Declaration.patternNames source)).length
  | "enum_entry" => (n.childrenOf .name).length
  | _ => 0

theorem length_ownSymbols (source : Bytes) (docs member : Bool) (elder : List Node) (n : Node) :
    (n.ownSymbols source docs member elder).length = n.symbolCount source := by
  unfold symbolCount
  split
  case h_13 =>
    have undeclared : Declaration.ofKind? n.kind = none := by
      unfold Declaration.ofKind?
      split <;> simp_all
    rw [ownSymbols, undeclared]
    rfl
  all_goals next kind =>
    simp only [ownSymbols, kind, Declaration.ofKind?, Declaration.symbols, Declaration.names,
      List.length_map, Declaration.length_importPath?, Declaration.length_firstName?,
      List.length_singleton]

/-- All that a symbol can be: one of the names of a declaration, with what its symbols share. -/
theorem exists_of_mem_ownSymbols {source : Bytes} {docs member : Bool} {elder : List Node}
    {n : Node} {s : Symbol} (own : s ∈ n.ownSymbols source docs member elder) :
    ∃ d name, Declaration.ofKind? n.kind = some d ∧ name ∈ d.names source n ∧ s = {
      name := String.ofList name
      kind := d.symbolKind source member n
      visibility := Declaration.visibility source n
      lineStart := (n.startPosition source).row + 1
      lineEnd := (n.endPosition source).row + 1
      documentation := d.documentation? source docs elder n
      children := [] } := by
  unfold ownSymbols at own
  split at own
  · next d declared =>
    obtain ⟨name, present, same⟩ := List.mem_map.mp own
    exact ⟨d, name, declared, present, same.symm⟩
  · cases own

theorem children_of_mem_ownSymbols {source : Bytes} {docs member : Bool} {elder : List Node}
    {n : Node} {s : Symbol} (own : s ∈ n.ownSymbols source docs member elder) :
    s.children = [] := by
  obtain ⟨_, _, _, _, rfl⟩ := exists_of_mem_ownSymbols own
  rfl

theorem ownSymbols_of_isContainer {source : Bytes} {n : Node} (opens : n.IsContainer source)
    (docs member : Bool) (elder : List Node) :
    ∃ s, n.ownSymbols source docs member elder = [s] ∧ s.kind.hasMembers = true := by
  obtain ⟨kind, named⟩ := opens
  obtain ⟨name, found⟩ := Declaration.firstName?_of_hasName named
  rcases kind with kind | kind
  · simp only [ownSymbols, kind, Declaration.ofKind?, Declaration.symbols, Declaration.names,
      found, Option.toList_some, List.map_cons, List.map_nil]
    exact ⟨_, rfl, Declaration.hasMembers_typeKind source n⟩
  · simp only [ownSymbols, kind, Declaration.ofKind?, Declaration.symbols, Declaration.names,
      found, Option.toList_some, List.map_cons, List.map_nil]
    exact ⟨_, rfl, rfl⟩

theorem isContainer_of_hasMembers {source : Bytes} {docs member : Bool} {elder : List Node}
    {n : Node} {s : Symbol} (own : s ∈ n.ownSymbols source docs member elder)
    (h : s.kind.hasMembers = true) : n.IsContainer source := by
  obtain ⟨d, name, declared, present, rfl⟩ := exists_of_mem_ownSymbols own
  have named (same : d.names source n = (Declaration.firstName? source n).toList) :
      n.HasName source := by
    by_contra unnamed
    rw [same, Declaration.firstName?_of_not_hasName unnamed] at present
    cases present
  rcases Declaration.eq_of_hasMembers declared h with rfl | rfl
  · exact ⟨.inl (Declaration.ofKind?_eq_type declared), named rfl⟩
  · exact ⟨.inr (Declaration.ofKind?_eq_protocol declared), named rfl⟩

end Node
end SyntaxReport
