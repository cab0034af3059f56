/- An outline lists the symbols of exactly the visible nodes, in order, once and at their depth. -/
import SyntaxReport.Outline.Members
import SyntaxReport.Proofs.Outline.Declaration
import SyntaxReport.Proofs.Outline.Iteration

namespace SyntaxReport

/-- A sum over a row of siblings to which only one of them contributes. -/
theorem flatMap_zipIdx_single {α : Type} {f : Node × Nat → List α} {cs : List Node} {b : Node}
    {i j : Nat} (found : cs[j]? = some b)
    (other : ∀ x ∈ cs.zipIdx i, x.2 ≠ i + j → f x = []) :
    (cs.zipIdx i).flatMap f = f (b, i + j) := by
  induction cs generalizing i j with
  | nil => cases found
  | cons c cs ih =>
    rw [List.zipIdx_cons] at other ⊢
    rw [List.flatMap_cons]
    cases j with
    | zero =>
      cases found
      have later : (cs.zipIdx (i + 1)).flatMap f = [] := by
        refine List.flatMap_eq_nil_iff.mpr fun x member => ?_
        have behind := (List.mem_zipIdx member).1
        exact other x (List.mem_cons_of_mem _ member) (by omega)
      rw [later, List.append_nil]
      rfl
    | succ j =>
      have here : f (c, i) = [] := other (c, i) List.mem_cons_self (by simp)
      have below := ih found fun x member different =>
        other x (List.mem_cons_of_mem _ member) (by omega)
      rw [here, List.nil_append, below]
      congr 2
      omega

namespace Node

/-- The siblings in front of the node at an address, the nearest first. -/
def elder : Node → List Nat → List Node
  | _, [] => []
  | root, [i] => (root.children.take i).reverse
  | root, i :: j :: path => (root.children[i]?).elim [] (elder · (j :: path))

/-- The symbols of the node at an address, members aside. Below the top they are members, and
`member` says whether those at the top are. -/
def symbolsAt (source : Bytes) (docs member : Bool) (root : Node) (path : List Nat) :
    List Symbol :=
  (root.at? path).elim [] fun n =>
    n.ownSymbols source docs (member || decide (1 < path.length)) (root.elder path)

/-- The same symbols together with their members. -/
def declaredAt (source : Bytes) (docs member : Bool) (root : Node) (path : List Nat) :
    List Symbol :=
  (root.at? path).elim [] fun n =>
    Outline.declaration source docs (member || decide (1 < path.length)) (root.elder path) n

/-- The visible addresses, in preorder. -/
def visible (source : Bytes) (root : Node) : List (List Nat) :=
  root.addresses.filter (Visible source root ·)

theorem mem_visible {source : Bytes} {root : Node} {path : List Nat} :
    path ∈ root.visible source ↔ Visible source root path := by
  rw [visible, List.mem_filter, decide_eq_true_iff]
  refine and_iff_right_of_imp fun visible => mem_addresses.mpr ?_
  cases visible with
  | top found named => exact Option.isSome_of_eq_some found
  | member above container opens body found named => exact Option.isSome_of_eq_some found

/-- The symbols of the visible nodes in preorder, each with its nesting on top of `depth`. -/
def listing (source : Bytes) (docs member : Bool) (depth : Nat) (root : Node) :
    List (Nat × Symbol) :=
  (root.visible source).flatMap fun path =>
    (root.symbolsAt source docs member path).map (depth + nesting source root path, ·)

/-- The same listing with the members of each symbol. -/
def declared (source : Bytes) (docs member : Bool) (depth : Nat) (root : Node) :
    List (Nat × Symbol) :=
  (root.visible source).flatMap fun path =>
    (root.declaredAt source docs member path).map (depth + nesting source root path, ·)

theorem childOf?_of_findIdx? {n : Node} {f : Field} {j : Nat}
    (first : n.children.findIdx? (·.label.field = some f) = some j) :
    ∃ c, n.children[j]? = some c ∧ n.childOf? f = some c := by
  obtain ⟨less, marked, before⟩ := List.findIdx?_eq_some_iff_getElem.mp first
  refine ⟨n.children[j], List.getElem?_eq_getElem less, ?_⟩
  refine List.find?_eq_some_iff_getElem.mpr ⟨marked, j, less, rfl, fun k front => ?_⟩
  simpa using before k front

theorem childOf?_of_findIdx?_none {n : Node} {f : Field}
    (absent : n.children.findIdx? (·.label.field = some f) = none) : n.childOf? f = none := by
  rw [List.findIdx?_eq_none_iff] at absent
  exact List.find?_eq_none.mpr fun c member => by simp [absent c member]

theorem filter_shows_addresses (source : Bytes) (root : Node) :
    root.visible source = root.children.zipIdx.flatMap fun (c, i) =>
      (c.addresses.filter fun path => root.shows source (i :: path)).map (i :: ·) := by
  have decided : ∀ path, decide (Visible source root path) = root.shows source path := by
    intro path
    simp [visible_iff_shows]
  simp only [visible, decided]
  rw [addresses_eq, List.filter_cons]
  simp only [shows, Bool.false_eq_true, if_false, List.filter_flatMap, List.filter_map,
    Function.comp_def]

theorem filter_shows_unnamed {source : Bytes} {root c : Node} {i : Nat}
    (child : root.children[i]? = some c) (unnamed : c.label.named = false) :
    (c.addresses.filter fun path => root.shows source (i :: path)) = [] := by
  rw [List.filter_eq_nil_iff]
  intro path _ shown
  cases path with
  | nil => simp [shows, child, unnamed] at shown
  | cons j path =>
    obtain ⟨named, _⟩ := opens_of_shows child shown
    rw [unnamed] at named
    cases named

theorem filter_shows_closed {source : Bytes} {root c : Node} {i : Nat}
    (child : root.children[i]? = some c) (named : c.label.named = true)
    (closed : ¬ c.IsContainer source ∨ c.bodyIndex? = none) :
    (c.addresses.filter fun path => root.shows source (i :: path)) = [[]] := by
  have below : (c.children.zipIdx.flatMap fun (m, k) =>
      m.addresses.map (k :: ·)).filter (fun path => root.shows source (i :: path)) = [] := by
    rw [List.filter_eq_nil_iff]
    intro path member shown
    obtain ⟨⟨m, k⟩, _, inner⟩ := List.mem_flatMap.mp member
    obtain ⟨q, _, rfl⟩ := List.mem_map.mp inner
    obtain ⟨_, opens, first⟩ := opens_of_shows child shown
    rcases closed with shut | bodiless
    · exact shut opens
    · rw [bodiless] at first
      cases first
  rw [addresses_eq, List.filter_cons, below]
  simp [shows, child, named]

/-- Of a named container, itself is visible and what its first body shows. -/
theorem filter_shows_open {source : Bytes} {root c body : Node} {i j : Nat}
    (child : root.children[i]? = some c) (named : c.label.named = true)
    (opens : c.IsContainer source) (first : c.bodyIndex? = some j)
    (inner : c.children[j]? = some body) :
    (c.addresses.filter fun path => root.shows source (i :: path)) =
      [] :: (body.visible source).map (j :: ·) := by
  have below : (c.children.zipIdx.flatMap fun (m, k) =>
      (m.addresses.map (k :: ·)).filter fun path => root.shows source (i :: path)) =
        (body.visible source).map (j :: ·) := by
    rw [flatMap_zipIdx_single inner]
    · dsimp only
      rw [Nat.zero_add, List.filter_map, visible]
      congr 1
      refine List.filter_congr fun path _ => ?_
      rw [Function.comp_apply, Bool.eq_iff_iff, shows_inside child inner]
      simp [named, opens, first, visible_iff_shows]
    · rintro ⟨m, k⟩ member different
      rw [List.filter_eq_nil_iff]
      intro path steps shown
      obtain ⟨q, _, rfl⟩ := List.mem_map.mp steps
      have first' := (opens_of_shows child shown).2.2
      rw [first] at first'
      cases first'
      exact different (Nat.zero_add _).symm
  rw [addresses_eq, List.filter_cons, List.filter_flatMap, below]
  simp [shows, child, named]

theorem length_symbolsAt {root n : Node} {path : List Nat} (found : root.at? path = some n)
    (source : Bytes) (docs member : Bool) :
    (root.symbolsAt source docs member path).length = n.symbolCount source := by
  rw [symbolsAt, found, Option.elim_some, length_ownSymbols]

theorem declaredAt_top {root c : Node} {i : Nat} (child : root.children[i]? = some c)
    (source : Bytes) (docs member : Bool) :
    root.declaredAt source docs member [i] =
      Outline.declaration source docs member (root.children.take i).reverse c := by
  rw [declaredAt, at?_singleton, child, Option.elim_some, elder]
  simp

theorem declaredAt_inside {root c body : Node} {i j : Nat} (child : root.children[i]? = some c)
    (inner : c.children[j]? = some body) (source : Bytes) (docs member : Bool) (k : Nat)
    (path : List Nat) :
    root.declaredAt source docs member (i :: j :: k :: path) =
      body.declaredAt source docs true (k :: path) := by
  have siblings : root.elder (i :: j :: k :: path) = body.elder (k :: path) := by
    rw [elder, child, Option.elim_some, elder, inner, Option.elim_some]
  rw [declaredAt, declaredAt, at?_grandchild child inner, siblings]
  simp

end Node

namespace Outline

theorem members_eq (source : Bytes) (docs member : Bool) {cs elder ns : List Node}
    (same : cs = elder.reverse ++ ns) :
    members source docs member elder ns = (ns.zipIdx elder.length).flatMap fun (c, i) =>
      if c.label.named then declaration source docs member (cs.take i).reverse c else [] := by
  induction ns generalizing elder with
  | nil => rfl
  | cons n ns ih =>
    have front : (cs.take elder.length).reverse = elder := by
      rw [same, List.take_left' (List.length_reverse), List.reverse_reverse]
    rw [members, List.zipIdx_cons, List.flatMap_cons, ih (by simp [same])]
    dsimp only
    rw [front]
    rfl

theorem bodyMembers_eq (source : Bytes) (docs : Bool) (cs : List Node) :
    bodyMembers source docs cs =
      (cs.find? (·.label.field = some .body)).elim [] fun body =>
        members source docs true [] body.children := by
  induction cs with
  | nil => rfl
  | cons c cs ih =>
    obtain ⟨l, inner⟩ := c
    rw [bodyMembers, List.find?_cons]
    by_cases marked : l.field = some .body
    · simp [marked, Node.label, Node.children]
    · simp [marked, Node.label, ih]

theorem declaration_eq (source : Bytes) (docs member : Bool) (elder : List Node) (n : Node) :
    declaration source docs member elder n =
      (n.ownSymbols source docs member elder).map fun s =>
        if s.kind.hasMembers then { s with children := bodyMembers source docs n.children }
        else s := by
  obtain ⟨l, cs⟩ := n
  rw [declaration]
  rfl

theorem map_bare_declaration (source : Bytes) (docs member : Bool) (elder : List Node) (n : Node) :
    (declaration source docs member elder n).map Symbol.bare =
      n.ownSymbols source docs member elder := by
  rw [declaration_eq, List.map_map]
  conv_rhs => rw [← List.map_id (n.ownSymbols source docs member elder)]
  refine List.map_congr_left fun s own => ?_
  have leaf := Node.children_of_mem_ownSymbols own
  cases s with
  | mk =>
    cases leaf
    rw [Function.comp_apply]
    split <;> rfl

theorem map_bare_declaredAt (source : Bytes) (docs member : Bool) (root : Node)
    (path : List Nat) :
    (root.declaredAt source docs member path).map Symbol.bare =
      root.symbolsAt source docs member path := by
  rw [Node.declaredAt, Node.symbolsAt]
  cases root.at? path with
  | none => rfl
  | some n => exact map_bare_declaration source docs _ _ n

theorem levels_declaration_closed {source : Bytes} {n : Node}
    (shut : ¬ n.IsContainer source) (docs member : Bool) (elder : List Node) (depth : Nat) :
    Symbol.levelsAll depth (declaration source docs member elder n) =
      (declaration source docs member elder n).map (depth, ·) := by
  refine Symbol.levelsAll_of_leaves fun s declared => ?_
  rw [declaration_eq] at declared
  obtain ⟨t, own, rfl⟩ := List.mem_map.mp declared
  rw [if_neg fun h => shut (Node.isContainer_of_hasMembers own h)]
  exact Node.children_of_mem_ownSymbols own

theorem levels_declaration_open {source : Bytes} {n : Node} (opens : n.IsContainer source)
    (docs member : Bool) (elder : List Node) (depth : Nat) :
    Symbol.levelsAll depth (declaration source docs member elder n) =
      (declaration source docs member elder n).map (depth, ·) ++
        Symbol.levelsAll (depth + 1) (bodyMembers source docs n.children) := by
  obtain ⟨s, own, holds⟩ := Node.ownSymbols_of_isContainer opens docs member elder
  rw [declaration_eq, own]
  simp only [List.map_cons, List.map_nil, holds, if_true]
  rw [Symbol.levelsAll, Symbol.levels_eq, Symbol.levelsAll, List.append_nil]
  rfl

/-- What one child of a root contributes, if outlines of bodies are listings of them. -/
theorem levels_child {source : Bytes} {docs : Bool} {root c : Node} {i : Nat}
    (child : root.children[i]? = some c)
    (bodies : ∀ body ∈ c.children, ∀ depth,
      Symbol.levelsAll depth (members source docs true [] body.children) =
        body.declared source docs true depth)
    (member : Bool) (depth : Nat) :
    Symbol.levelsAll depth (if c.label.named then
        declaration source docs member (root.children.take i).reverse c else []) =
      ((c.addresses.filter fun path => root.shows source (i :: path)).map (i :: ·)).flatMap
        fun path => (root.declaredAt source docs member path).map
          (depth + root.nesting source path, ·) := by
  have own : (root.declaredAt source docs member [i]).map
      (fun s => (depth + root.nesting source [i], s)) =
        (declaration source docs member (root.children.take i).reverse c).map (depth, ·) := by
    rw [Node.declaredAt_top child, Node.nesting_top, Nat.add_zero]
  cases named : c.label.named with
  | false =>
    rw [Node.filter_shows_unnamed child named]
    rfl
  | true =>
    rw [if_pos rfl]
    by_cases opens : c.IsContainer source
    · rw [levels_declaration_open opens, bodyMembers_eq]
      cases first : c.bodyIndex? with
      | none =>
        rw [Node.filter_shows_closed child named (.inr first)]
        have bodiless := Node.childOf?_of_findIdx?_none first
        rw [Node.childOf?] at bodiless
        rw [bodiless, List.map_singleton, List.flatMap_singleton, own]
        exact List.append_nil _
      | some j =>
        obtain ⟨body, inner, found⟩ := Node.childOf?_of_findIdx? first
        rw [Node.childOf?] at found
        rw [Node.filter_shows_open child named opens first inner, found, Option.elim_some,
          bodies body (List.mem_of_getElem? inner), List.map_cons, List.flatMap_cons, own]
        congr 1
        rw [Node.declared, List.map_map, List.flatMap_map]
        refine List.flatMap_congr fun path shown => ?_
        cases path with
        | nil => cases Node.visible_iff_shows.mp (Node.mem_visible.mp shown)
        | cons k path =>
          rw [Function.comp_apply, Node.declaredAt_inside child inner,
            Node.nesting_inside child named opens first inner]
          simp only [Nat.add_assoc, Nat.add_comm 1]
    · rw [levels_declaration_closed opens, Node.filter_shows_closed child named (.inl opens),
        List.map_singleton, List.flatMap_singleton, own]

/-- The symbols below a root, at every depth and with their members, are those that its visible
nodes declare. -/
theorem levels_members (source : Bytes) (docs : Bool) (root : Node) (member : Bool)
    (depth : Nat) :
    Symbol.levelsAll depth (members source docs member [] root.children) =
      root.declared source docs member depth := by
  -- a body is a grandchild of its root, so the induction carries the children along
  suffices both : ∀ n ∈ root :: root.children, ∀ member depth,
      Symbol.levelsAll depth (members source docs member [] n.children) =
        n.declared source docs member depth from
    both root List.mem_cons_self member depth
  induction root using Node.childwise with
  | step root ih =>
    intro n place
    rcases List.mem_cons.mp place with rfl | child
    · intro member depth
      rw [members_eq source docs member rfl, Symbol.levelsAll_flatMap, Node.declared,
        Node.filter_shows_addresses, List.flatMap_assoc]
      refine List.flatMap_congr fun x place => ?_
      have child := Node.mem_zipIdx_children.mp place
      refine levels_child child (fun body inner => ?_) member depth
      exact ih x.1 (List.mem_of_getElem? child) body (List.mem_cons_of_mem _ inner) true
    · exact ih n child n List.mem_cons_self

/-- The symbols below a root, members aside. -/
theorem entries_members (source : Bytes) (docs : Bool) (root : Node) (member : Bool)
    (depth : Nat) :
    Symbol.entries depth (members source docs member [] root.children) =
      root.listing source docs member depth := by
  rw [Symbol.entries, levels_members, Node.declared, Node.listing, List.map_flatMap]
  refine List.flatMap_congr fun path _ => ?_
  rw [← map_bare_declaredAt, List.map_map, List.map_map]
  rfl

/-- The iteration over an outline lists the symbols of the visible nodes in preorder, each node
once, at the depth of the visible containers above it, and with as many symbols as its kind
stands for. Below any other node nothing is visible. -/
theorem ofTree_lists_visible (source : Bytes) (root : Node) (docs : Bool) :
    (ofTree source root docs).toList =
        (Symbol.levelsAll 0 (ofTree source root docs).symbols).map Prod.snd ∧
      (Symbol.levelsAll 0 (ofTree source root docs).symbols).map (fun (k, s) => (k, s.bare)) =
        (root.visible source).flatMap (fun path =>
          (root.symbolsAt source docs false path).map (root.nesting source path, ·)) ∧
      (∀ path, path ∈ root.visible source ↔ Node.Visible source root path) ∧
      (root.visible source).Pairwise Node.Precedes ∧
      (∀ path n, root.at? path = some n →
        (root.symbolsAt source docs false path).length = n.symbolCount source) ∧
      ∀ path ∈ root.visible source, ∀ k, 0 < k → k < path.length →
        Node.VisibleContainer source root (path.take k) ∨
          ∃ front j n, path.take k = front ++ [j] ∧
            Node.VisibleContainer source root front ∧
            root.at? front = some n ∧ n.bodyIndex? = some j := by
  refine ⟨?_, ?_, fun path => Node.mem_visible, ?_, ?_, ?_⟩
  · rw [Symbol.map_snd_levelsAll, toList_eq]
  · have listed := entries_members source docs root false 0
    simp only [Symbol.entries, Node.listing, Nat.zero_add] at listed
    exact listed
  · exact root.pairwise_addresses.filter _
  · intro path n found
    exact Node.length_symbolsAt found source docs false
  · intro path member k
    exact (Node.mem_visible.mp member).above

end Outline
end SyntaxReport
