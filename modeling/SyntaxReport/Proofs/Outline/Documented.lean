/- Documentation is all that an outline with it has more than one without. -/
import SyntaxReport.Outline.Members
import SyntaxReport.Proofs.Outline.Form

namespace SyntaxReport

namespace Symbol

mutual

/-- The symbol with no documentation on it or on anything below it. -/
def undocumented : Symbol → Symbol
  | ⟨name, kind, visibility, lineStart, lineEnd, _, children⟩ =>
    ⟨name, kind, visibility, lineStart, lineEnd, none, undocumentedAll children⟩

def undocumentedAll : List Symbol → List Symbol
  | [] => []
  | s :: rest => s.undocumented :: undocumentedAll rest

end

theorem undocumentedAll_eq (symbols : List Symbol) :
    undocumentedAll symbols = symbols.map undocumented := by
  induction symbols with
  | nil => rfl
  | cons s rest ih => rw [undocumentedAll, List.map_cons, ih]

theorem undocumented_eq (s : Symbol) : s.undocumented =
    { s with documentation := none, children := s.children.map undocumented } := by
  cases s with
  | mk name kind visibility lineStart lineEnd documentation children =>
    rw [undocumented, undocumentedAll_eq]

/-- Documentation aside, the symbol and everything below it stay what and where they are. -/
theorem levels_undocumented (s : Symbol) (depth : Nat) :
    s.undocumented.levels depth = (s.levels depth).map fun (k, t) => (k, t.undocumented) := by
  induction s using memberwise generalizing depth with
  | step s ih =>
    have below : levelsAll (depth + 1) (s.children.map undocumented) =
        (levelsAll (depth + 1) s.children).map fun (k, t) => (k, t.undocumented) := by
      rw [levelsAll_eq, levelsAll_eq, List.flatMap_map, List.map_flatMap]
      exact List.flatMap_congr fun t member => ih t member (depth + 1)
    rw [levels_eq, levels_eq, List.map_cons, ← below]
    dsimp only
    rw [undocumented_eq]

theorem levelsAll_undocumented (symbols : List Symbol) (depth : Nat) :
    levelsAll depth (symbols.map undocumented) =
      (levelsAll depth symbols).map fun (k, t) => (k, t.undocumented) := by
  rw [levelsAll_eq, levelsAll_eq, List.flatMap_map, List.map_flatMap]
  exact List.flatMap_congr fun s _ => s.levels_undocumented depth

theorem preorder_undocumented (s : Symbol) :
    s.undocumented.preorder = s.preorder.map undocumented := by
  rw [← map_snd_levels 0, ← map_snd_levels 0, levels_undocumented, List.map_map, List.map_map]
  rfl

/-- Nothing in a row of symbols without documentation has any, at any depth. -/
theorem documentation_of_mem_undocumented {symbols : List Symbol} {s : Symbol}
    (member : s ∈ preorderAll (symbols.map undocumented)) : s.documentation = none := by
  rw [preorderAll_eq] at member
  obtain ⟨_, top, below⟩ := List.mem_flatMap.mp member
  obtain ⟨t, _, rfl⟩ := List.mem_map.mp top
  rw [preorder_undocumented] at below
  obtain ⟨u, _, rfl⟩ := List.mem_map.mp below
  rw [undocumented_eq]

end Symbol

theorem Declaration.symbols_undocumented (d : Declaration) (source : Bytes) (member : Bool)
    (elder : List Node) (n : Node) :
    (d.symbols source true member elder n).map Symbol.undocumented =
      d.symbols source false member elder n := by
  have plain : d.documentation? source false elder n = none := by
    cases d <;> rfl
  rw [symbols, symbols, List.map_map, plain]
  exact List.map_congr_left fun name _ => Symbol.undocumented_eq _

theorem Node.ownSymbols_undocumented (source : Bytes) (member : Bool) (elder : List Node)
    (n : Node) :
    (n.ownSymbols source true member elder).map Symbol.undocumented =
      n.ownSymbols source false member elder := by
  unfold ownSymbols
  split
  · next d _ => exact d.symbols_undocumented source member elder n
  · rfl

namespace Outline

mutual

theorem members_undocumented (source : Bytes) (member : Bool) (elder ns : List Node) :
    (members source true member elder ns).map Symbol.undocumented =
      members source false member elder ns := by
  match ns with
  | [] => rfl
  | n :: rest =>
    rw [members, members, List.map_append, members_undocumented source member (n :: elder) rest]
    congr 1
    split
    · exact declaration_undocumented source member elder n
    · rfl

theorem declaration_undocumented (source : Bytes) (member : Bool) (elder : List Node) (n : Node) :
    (declaration source true member elder n).map Symbol.undocumented =
      declaration source false member elder n := by
  match n with
  | .mk l cs =>
    have bodies := bodyMembers_undocumented source cs
    rw [declaration, declaration, ← Node.ownSymbols_undocumented, List.map_map, List.map_map]
    refine List.map_congr_left fun s _ => ?_
    have kind : s.undocumented.kind = s.kind := by rw [Symbol.undocumented_eq]
    simp only [Function.comp_apply, kind]
    split
    · rw [Symbol.undocumented_eq, Symbol.undocumented_eq s, bodies]
    · rfl

theorem bodyMembers_undocumented (source : Bytes) (ns : List Node) :
    (bodyMembers source true ns).map Symbol.undocumented = bodyMembers source false ns := by
  match ns with
  | [] => rfl
  | .mk l cs :: rest =>
    rw [bodyMembers, bodyMembers]
    split
    · exact members_undocumented source true [] cs
    · exact bodyMembers_undocumented source rest

end

/-- The outline with no documentation on any of its symbols, at whatever depth. -/
def undocumented (o : Outline) : Outline := ⟨o.symbols.map Symbol.undocumented⟩

theorem documentation_of_mem_ofTree {source : Bytes} {root : Node} {s : Symbol}
    (listed : s ∈ (ofTree source root false).toList) : s.documentation = none := by
  rw [toList_eq, ofTree, ← members_undocumented] at listed
  exact Symbol.documentation_of_mem_undocumented listed

/-- An outline without documentation is the one with it, the documentation of every symbol taken
away. In both, the same symbols stand in the same order and at the same depth, and all but the
documentation is the same on them. -/
theorem ofTree_undocumented (source : Bytes) (root : Node) :
    ofTree source root false = (ofTree source root true).undocumented ∧
      Symbol.levelsAll 0 (ofTree source root false).symbols =
        (Symbol.levelsAll 0 (ofTree source root true).symbols).map
          (fun (k, s) => (k, s.undocumented)) ∧
      (Symbol.levelsAll 0 (ofTree source root false).symbols).map
          (fun (k, s) => (k, s.name, s.kind, s.visibility, s.lineStart, s.lineEnd)) =
        (Symbol.levelsAll 0 (ofTree source root true).symbols).map
          (fun (k, s) => (k, s.name, s.kind, s.visibility, s.lineStart, s.lineEnd)) ∧
      ∀ s ∈ (ofTree source root false).toList, s.documentation = none := by
  have plain : (ofTree source root false).symbols =
      (ofTree source root true).symbols.map Symbol.undocumented :=
    (members_undocumented source false [] root.children).symm
  refine ⟨congrArg Outline.mk plain, ?_, ?_, fun s listed => documentation_of_mem_ofTree listed⟩
  · rw [plain, Symbol.levelsAll_undocumented]
  · rw [plain, Symbol.levelsAll_undocumented, List.map_map]
    apply List.map_congr_left
    rintro ⟨k, s⟩ _
    dsimp only [Function.comp_apply]
    rw [Symbol.undocumented_eq]

end Outline
end SyntaxReport
