/- Every symbol of an outline is one that a visible node declares, and so are its members. -/
import SyntaxReport.Proofs.Outline.Complete

namespace SyntaxReport

theorem Node.lines_of_mem_ownSymbols {source : Bytes} {docs member : Bool} {elder : List Node}
    {n : Node} {s : Symbol} (own : s ∈ n.ownSymbols source docs member elder) :
    s.lineStart = (n.startPosition source).row + 1 ∧
      s.lineEnd = (n.endPosition source).row + 1 := by
  obtain ⟨_, _, _, _, rfl⟩ := exists_of_mem_ownSymbols own
  exact ⟨rfl, rfl⟩

namespace Outline

/-- Of a declared symbol, all but the members is that of the node. -/
theorem bare_mem_ownSymbols {source : Bytes} {docs member : Bool} {elder : List Node} {n : Node}
    {s : Symbol} (declared : s ∈ declaration source docs member elder n) :
    s.bare ∈ n.ownSymbols source docs member elder := by
  rw [← map_bare_declaration]
  exact List.mem_map.mpr ⟨s, declared, rfl⟩

theorem children_of_mem_declaration {source : Bytes} {docs member : Bool} {elder : List Node}
    {n : Node} {s : Symbol} (declared : s ∈ declaration source docs member elder n) :
    s.children = if s.kind.hasMembers then
      (n.childOf? .body).elim [] fun body => members source docs true [] body.children
    else [] := by
  rw [declaration_eq, bodyMembers_eq] at declared
  obtain ⟨t, own, rfl⟩ := List.mem_map.mp declared
  cases holds : t.kind.hasMembers with
  | true =>
    simp only [holds, if_true]
    rfl
  | false =>
    simp only [holds, Bool.false_eq_true, if_false]
    exact Node.children_of_mem_ownSymbols own

theorem exists_of_mem_members {source : Bytes} {docs member : Bool} {elder ns : List Node}
    {t : Symbol} (listed : t ∈ members source docs member elder ns) :
    ∃ m ∈ ns, ∃ older, t ∈ declaration source docs member older m := by
  rw [members_eq source docs member rfl] at listed
  obtain ⟨⟨m, i⟩, place, here⟩ := List.mem_flatMap.mp listed
  dsimp only at here
  split at here
  · exact ⟨m, List.fst_mem_of_mem_zipIdx place, _, here⟩
  · cases here

/-- A member of a declared symbol is declared in the first body of the node. -/
theorem exists_of_mem_children {source : Bytes} {docs member : Bool} {elder : List Node}
    {n : Node} {s t : Symbol} (declared : s ∈ declaration source docs member elder n)
    (inner : t ∈ s.children) :
    ∃ body, n.childOf? .body = some body ∧
      ∃ m ∈ body.children, ∃ older, t ∈ declaration source docs true older m := by
  rw [children_of_mem_declaration declared] at inner
  split at inner
  · cases first : n.childOf? .body with
    | none =>
      rw [first] at inner
      cases inner
    | some body =>
      rw [first] at inner
      exact ⟨body, rfl, exists_of_mem_members inner⟩
  · cases inner

/-- The listing of an outline level by level is that of its visible nodes. -/
theorem levels_ofTree (source : Bytes) (root : Node) (docs : Bool) :
    Symbol.levelsAll 0 (ofTree source root docs).symbols =
      (root.visible source).flatMap fun path =>
        (root.declaredAt source docs false path).map (root.nesting source path, ·) := by
  rw [ofTree, levels_members, Node.declared]
  simp only [Nat.zero_add]

theorem toList_ofTree (source : Bytes) (root : Node) (docs : Bool) :
    (ofTree source root docs).toList =
      (root.visible source).flatMap (root.declaredAt source docs false) := by
  rw [toList_eq, ← Symbol.map_snd_levelsAll 0, levels_ofTree, List.map_flatMap]
  refine List.flatMap_congr fun path _ => ?_
  rw [List.map_map]
  exact List.map_id _

theorem mem_declaredAt {source : Bytes} {docs : Bool} {root : Node} {place : List Nat}
    {s : Symbol} : s ∈ root.declaredAt source docs false place ↔
      ∃ n, root.at? place = some n ∧
        s ∈ declaration source docs (decide (1 < place.length)) (root.elder place) n := by
  rw [Node.declaredAt]
  cases root.at? place with
  | none => simp
  | some n => simp

theorem mem_ofTree {source : Bytes} {root : Node} {docs : Bool} {s : Symbol} :
    s ∈ (ofTree source root docs).toList ↔ ∃ place n, root.Visible source place ∧
      root.at? place = some n ∧
      s ∈ declaration source docs (decide (1 < place.length)) (root.elder place) n := by
  simp only [toList_ofTree, List.mem_flatMap, Node.mem_visible, mem_declaredAt,
    exists_and_left]

/-- A symbol, at whatever depth, is one of those of a visible node. -/
theorem exists_of_mem_ofTree {source : Bytes} {root : Node} {docs : Bool} {s : Symbol}
    (member : s ∈ (ofTree source root docs).toList) :
    ∃ place n, root.Visible source place ∧ root.at? place = some n ∧
      s.bare ∈ n.ownSymbols source docs (decide (1 < place.length)) (root.elder place) := by
  obtain ⟨place, n, visible, found, declared⟩ := mem_ofTree.mp member
  exact ⟨place, n, visible, found, bare_mem_ownSymbols declared⟩

end Outline
end SyntaxReport
