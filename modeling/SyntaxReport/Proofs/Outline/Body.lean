/- The members of a symbol are the outline of its body, where functions are methods. -/
import SyntaxReport.Proofs.Outline.Lines

namespace SyntaxReport

namespace Symbol

/-- The symbol as a member of another one: a function is a method there. -/
def asMember (s : Symbol) : Symbol :=
  { s with kind := if s.kind = .function then .method else s.kind }

theorem hasMembers_asMember (s : Symbol) : s.asMember.kind.hasMembers = s.kind.hasMembers := by
  unfold asMember
  split
  · next function => rw [function]; rfl
  · rfl

end Symbol

namespace Declaration

theorem special_not_routine {kind name : String} {symbolKind : SymbolKind}
    (h : ofKind? kind = some (.special name symbolKind)) :
    symbolKind ≠ .function ∧ symbolKind ≠ .method := by
  unfold ofKind? at h
  split at h <;> cases h <;> decide

/-- Only routines are functions or methods, and whether they are members decides which. -/
theorem eq_routine_of_symbolKind {source : Bytes} {member : Bool} {n : Node} {d : Declaration}
    (declared : ofKind? n.kind = some d)
    (h : d.symbolKind source member n = .function ∨ d.symbolKind source member n = .method) :
    d = .routine := by
  cases d with
  | routine => rfl
  | type =>
    have holds := hasMembers_typeKind source n
    rw [symbolKind] at h
    rcases h with function | method
    · rw [function] at holds
      cases holds
    · rw [method] at holds
      cases holds
  | special name kind =>
    obtain ⟨not_function, not_method⟩ := special_not_routine declared
    rcases h with function | method
    · exact absurd function not_function
    · exact absurd method not_method
  | _ => rcases h with h | h <;> cases h

theorem symbolKind_member {source : Bytes} {n : Node} {d : Declaration}
    (declared : ofKind? n.kind = some d) :
    d.symbolKind source true n = if d.symbolKind source false n = .function then .method
      else d.symbolKind source false n := by
  split
  · next function =>
    rw [eq_routine_of_symbolKind declared (.inl function)]
    rfl
  · next other =>
    cases d with
    | routine => exact absurd rfl other
    | _ => rfl

theorem symbols_member {source : Bytes} {n : Node} {d : Declaration}
    (declared : ofKind? n.kind = some d) (docs : Bool) (elder : List Node) :
    d.symbols source docs true elder n =
      (d.symbols source docs false elder n).map Symbol.asMember := by
  rw [symbols, symbols, List.map_map, symbolKind_member declared]
  rfl

theorem paren_not_mem_visibility (source : Bytes) (n : Node) :
    '(' ∉ (visibility source n).toList := by
  unfold visibility
  dsimp only
  split
  · next text found =>
    have clear := List.find?_some found
    simpa using clear
  · decide

end Declaration

theorem Node.ownSymbols_member (source : Bytes) (docs : Bool) (elder : List Node) (n : Node) :
    n.ownSymbols source docs true elder =
      (n.ownSymbols source docs false elder).map Symbol.asMember := by
  unfold ownSymbols
  split
  · next d declared => exact Declaration.symbols_member declared docs elder
  · rfl

theorem Node.paren_not_mem_visibility {source : Bytes} {docs member : Bool} {elder : List Node}
    {n : Node} {s : Symbol} (own : s ∈ n.ownSymbols source docs member elder) :
    '(' ∉ s.visibility.toList := by
  obtain ⟨_, _, _, _, rfl⟩ := exists_of_mem_ownSymbols own
  exact Declaration.paren_not_mem_visibility source n

/-- A function is declared where no member is, and a method where one is. -/
theorem Node.member_of_mem_ownSymbols {source : Bytes} {docs member : Bool} {elder : List Node}
    {n : Node} {s : Symbol} (own : s ∈ n.ownSymbols source docs member elder) :
    (s.kind = .function → member = false) ∧ (s.kind = .method → member = true) := by
  obtain ⟨d, _, declared, _, rfl⟩ := exists_of_mem_ownSymbols own
  constructor
  · intro function
    cases Declaration.eq_routine_of_symbolKind declared (.inl function)
    cases member with
    | false => rfl
    | true => cases function
  · intro method
    cases Declaration.eq_routine_of_symbolKind declared (.inr method)
    cases member with
    | false => cases method
    | true => rfl

namespace Outline

theorem declaration_member (source : Bytes) (docs : Bool) (elder : List Node) (n : Node) :
    declaration source docs true elder n =
      (declaration source docs false elder n).map Symbol.asMember := by
  rw [declaration_eq, declaration_eq, Node.ownSymbols_member, List.map_map, List.map_map]
  refine List.map_congr_left fun s _ => ?_
  rw [Function.comp_apply, Function.comp_apply, Symbol.hasMembers_asMember]
  split <;> rfl

/-- Whatever root a member is described from, only a function is described in another way. -/
theorem members_member (source : Bytes) (docs : Bool) (elder ns : List Node) :
    members source docs true elder ns =
      (members source docs false elder ns).map Symbol.asMember := by
  induction ns generalizing elder with
  | nil => rfl
  | cons n ns ih =>
    rw [members, members, List.map_append, ih (n :: elder)]
    congr 1
    split
    · exact declaration_member source docs elder n
    · rfl

theorem members_body (source : Bytes) (docs : Bool) (body : Node) :
    members source docs true [] body.children =
      (ofTree source body docs).symbols.map Symbol.asMember :=
  members_member source docs [] body.children

end Outline

/-- The members of a symbol that a node declares. -/
structure Symbol.Outlines (source : Bytes) (docs : Bool) (n : Node) (s : Symbol) : Prop where
  body : s.kind.hasMembers = true → ∀ body, n.childOf? .body = some body →
    s.children = (Outline.ofTree source body docs).symbols.map Symbol.asMember
  bodiless : s.kind.hasMembers = true → n.childOf? .body = none → s.children = []
  plain : s.kind.hasMembers = false → s.children = []

namespace Outline

theorem outlines_of_mem_declaration {source : Bytes} {docs member : Bool} {elder : List Node}
    {n : Node} {s : Symbol} (declared : s ∈ declaration source docs member elder n) :
    s.Outlines source docs n := by
  have inner := children_of_mem_declaration declared
  constructor
  · intro holds body first
    rw [inner, if_pos holds, first, Option.elim_some, members_body]
  · intro holds none
    rw [inner, if_pos holds, none, Option.elim_none]
  · intro plain
    rw [inner, plain]
    rfl

/-- An outline lists what its visible nodes declare. The members of each symbol are the outline of
the first body of its node, where functions are methods, and so a function stands only at the top
and a method only below it. No visibility is one of a setter alone. -/
theorem members_outline_body (source : Bytes) (root : Node) (docs : Bool) :
    Symbol.levelsAll 0 (ofTree source root docs).symbols =
        (root.visible source).flatMap (fun path =>
          (root.declaredAt source docs false path).map (root.nesting source path, ·)) ∧
      (∀ path n, root.at? path = some n →
        ∀ s ∈ root.declaredAt source docs false path, s.Outlines source docs n) ∧
      ∀ depth s, (depth, s) ∈ Symbol.levelsAll 0 (ofTree source root docs).symbols →
        (s.kind = .function → depth = 0) ∧ (s.kind = .method → 0 < depth) ∧
          '(' ∉ s.visibility.toList := by
  refine ⟨levels_ofTree source root docs, ?_, ?_⟩
  · intro path n found s declared
    obtain ⟨m, here, declared⟩ := mem_declaredAt.mp declared
    cases Option.some.inj (found.symm.trans here)
    exact outlines_of_mem_declaration declared
  · intro depth s listed
    rw [levels_ofTree] at listed
    obtain ⟨path, shown, here⟩ := List.mem_flatMap.mp listed
    obtain ⟨t, declared, same⟩ := List.mem_map.mp here
    cases same
    have deep := Node.nesting_pos_iff (Node.mem_visible.mp shown)
    obtain ⟨n, _, declared⟩ := mem_declaredAt.mp declared
    have own := bare_mem_ownSymbols declared
    obtain ⟨top, below⟩ := Node.member_of_mem_ownSymbols own
    have clear := Node.paren_not_mem_visibility own
    refine ⟨?_, ?_, clear⟩
    · intro function
      have shallow := of_decide_eq_false (top function)
      exact Nat.eq_zero_of_not_pos (mt deep.mp shallow)
    · intro method
      exact deep.mpr (of_decide_eq_true (below method))

example :
    (ofTree (bytesOf pairText) pairBody true).symbols.map (fun s => (s.name, s.kind)) =
        [("b", .property), ("c", .property), ("e", .function)] ∧
      ((ofTree (bytesOf pairText) pairClass true).symbols.flatMap (·.children)).map
        (fun s => (s.name, s.kind)) =
          [("b", .property), ("c", .property), ("e", .method)] := by
  decide +kernel

end Outline
end SyntaxReport
