/- The names of properties: the identifiers that their patterns bind, and not their labels. -/
import SyntaxReport.Proofs.Outline.Pattern

namespace SyntaxReport

namespace Node

def isComment (n : Node) : Bool :=
  decide (n.kind = "comment") || decide (n.kind = "multiline_comment")

/-- The next sibling that is no comment is a colon. -/
def meetsColon (younger : List Node) : Bool := beforeColon (younger.dropWhile isComment)

/-- Only a comment can stand between a label and its colon. -/
theorem meetsColon_iff (younger : List Node) : meetsColon younger = true ↔
    beforeColon younger = true ∨
      younger.head?.any isComment = true ∧ meetsColon younger = true := by
  cases younger with
  | nil => simp [meetsColon, beforeColon]
  | cons n rest =>
    cases comment : n.isComment with
    | true =>
      have other : beforeColon (n :: rest) = false := by
        simp only [isComment, Bool.or_eq_true, decide_eq_true_eq] at comment
        rcases comment with kind | kind <;> simp [beforeColon, kind]
      simp [other, comment]
    | false => simp [meetsColon, comment]

/-- The address of an identifier that a comment parts from the colon behind it. -/
inductive PartedAt : Node → List Nat → Prop
  | here {p : Node} {i : Nat} (unmarked : p.markIndex? = none)
      (comment : (p.children.drop (i + 1)).head?.any isComment = true)
      (colon : meetsColon (p.children.drop (i + 1)) = true) : PartedAt p [i]
  | inside {p c : Node} {i : Nat} {path : List Nat} (child : p.children[i]? = some c)
      (below : PartedAt c path) : PartedAt p (i :: path)

theorem not_partedAt_nil {p : Node} : ¬ p.PartedAt [] := by
  intro parted
  cases parted

/-- To tell labels by the next sibling alone takes more identifiers for bound: exactly the labels
that a comment parts from their colon. -/
theorem binds_meetsColon_iff {p : Node} {path : List Nat} :
    Binds meetsColon p path ↔ Binds beforeColon p path ∧ ¬ p.PartedAt path := by
  constructor
  · intro bound
    induction bound with
    | marked first =>
      refine ⟨.marked first, ?_⟩
      intro parted
      cases parted with
      | here unmarked =>
        rw [first] at unmarked
        cases unmarked
      | inside _ below => exact not_partedAt_nil below
    | @plain p c i unmarked child named kind free =>
      have next := mt (meetsColon_iff (p.children.drop (i + 1))).mpr (by simp [free])
      refine ⟨.plain unmarked child named kind (by simpa using fun colon => next (.inl colon)), ?_⟩
      intro parted
      cases parted with
      | here _ _ colon =>
        rw [free] at colon
        cases colon
      | inside _ below => exact not_partedAt_nil below
    | inner unmarked child named kind below ih =>
      refine ⟨.inner unmarked child named kind ih.1, ?_⟩
      intro parted
      cases parted with
      | here => exact not_binds_nil below
      | inside child' parted =>
        cases Option.some.inj (child.symm.trans child')
        exact ih.2 parted
  · rintro ⟨bound, whole⟩
    induction bound with
    | marked first => exact .marked first
    | @plain p c i unmarked child named kind free =>
      refine .plain unmarked child named kind ?_
      by_contra label
      have colon : meetsColon (p.children.drop (i + 1)) = true := by simpa using label
      rcases (meetsColon_iff _).mp colon with next | ⟨comment, _⟩
      · rw [free] at next
        cases next
      · exact whole (.here unmarked comment colon)
    | inner unmarked child named kind below ih =>
      exact .inner unmarked child named kind (ih fun parted => whole (.inside child parted))

end Node

namespace Declaration

open Node (Binds PartedAt Precedes beforeColon meetsColon)

/-- The names that a pattern declares: the identifiers it binds, or else its own text, unless that
is empty. -/
def boundNames (label : List Node → Bool) (source : Bytes) (p : Node) : List (List Char) :=
  if p.bound label = [] then [p.text source].filter (!·.isEmpty)
  else (p.bound label).map (p.textAt source)

theorem patternNames_eq (source : Bytes) (p : Node) :
    patternNames source p = boundNames beforeColon source p := by
  rw [patternNames, boundNames, bindings_eq]
  cases p.bound beforeColon with
  | nil => rfl
  | cons path rest => rfl

theorem ofKind?_property {kind : String}
    (property : kind = "property_declaration" ∨ kind = "protocol_property_declaration") :
    ofKind? kind = some .property := by
  rcases property with rfl | rfl <;> rfl

theorem boundNames_congr {p : Node} (whole : ∀ path, Binds beforeColon p path → ¬ p.PartedAt path)
    (source : Bytes) : boundNames meetsColon source p = boundNames beforeColon source p := by
  have same : p.bound meetsColon = p.bound beforeColon := by
    apply List.filter_congr
    intro path _
    simp only [Node.binds_meetsColon_iff, decide_eq_decide]
    exact and_iff_left_of_imp (whole path)
  rw [boundNames, boundNames, same]

/-- A property declaration has one symbol for each identifier that its patterns bind, in source
order and each once, or for the text of a pattern that binds none. All its symbols share everything
but the name. A label is taken for bound exactly where a comment parts it from its colon. -/
theorem property_names {n : Node}
    (property : n.kind = "property_declaration" ∨ n.kind = "protocol_property_declaration")
    (source : Bytes) (docs member : Bool) (elder : List Node) :
    (n.ownSymbols source docs member elder).map (·.name.toList) =
        (n.childrenOf .name).flatMap (boundNames beforeColon source) ∧
      (∀ s ∈ n.ownSymbols source docs member elder,
        s = {
          name := s.name
          kind := .property
          visibility := visibility source n
          lineStart := (n.startPosition source).row + 1
          lineEnd := (n.endPosition source).row + 1
          documentation := documentation? source docs elder n .property
          children := [] }) ∧
      ∀ p ∈ n.childrenOf .name,
        (p.bound beforeColon).Pairwise Precedes ∧
        (∀ path, path ∈ p.bound beforeColon ↔ Binds beforeColon p path) ∧
        (∀ path, Binds meetsColon p path ↔ Binds beforeColon p path ∧ ¬ p.PartedAt path) ∧
        ((∀ path, Binds beforeColon p path → ¬ p.PartedAt path) →
          boundNames meetsColon source p = boundNames beforeColon source p) := by
  have own : n.ownSymbols source docs member elder =
      Declaration.property.symbols source docs member elder n := by
    rw [Node.ownSymbols, ofKind?_property property]
  refine ⟨?_, ?_, ?_⟩
  · rw [own, map_name_symbols, names]
    exact List.flatMap_congr fun p _ => patternNames_eq source p
  · intro s listed
    obtain ⟨d, _, declared, _, rfl⟩ := Node.exists_of_mem_ownSymbols listed
    cases Option.some.inj (declared.symm.trans (ofKind?_property property))
    rfl
  · intro p _
    exact ⟨p.pairwise_bound _, fun path => Node.mem_bound, fun path => Node.binds_meetsColon_iff,
      fun whole => boundNames_congr whole source⟩

/-- A pattern of a labelled pair and a labelled name. -/
def labelledText : String := "let (x: (p, r), y: q) = t\n"

def labelledPattern : Node :=
  .mk ⟨"pattern", true, false, false, false, some .name, 4, 21⟩ [
    .mk ⟨"(", false, false, false, false, none, 4, 5⟩ [],
    .mk ⟨"simple_identifier", true, false, false, false, none, 5, 6⟩ [],
    .mk ⟨":", false, false, false, false, none, 6, 7⟩ [],
    .mk ⟨"pattern", true, false, false, false, none, 8, 14⟩ [
      .mk ⟨"(", false, false, false, false, none, 8, 9⟩ [],
      .mk ⟨"pattern", true, false, false, false, none, 9, 10⟩ [
        .mk ⟨"simple_identifier", true, false, false, false, none, 9, 10⟩ []],
      .mk ⟨",", false, false, false, false, none, 10, 11⟩ [],
      .mk ⟨"pattern", true, false, false, false, none, 12, 13⟩ [
        .mk ⟨"simple_identifier", true, false, false, false, none, 12, 13⟩ []],
      .mk ⟨")", false, false, false, false, none, 13, 14⟩ []],
    .mk ⟨",", false, false, false, false, none, 14, 15⟩ [],
    .mk ⟨"simple_identifier", true, false, false, false, none, 16, 17⟩ [],
    .mk ⟨":", false, false, false, false, none, 17, 18⟩ [],
    .mk ⟨"pattern", true, false, false, false, none, 19, 20⟩ [
      .mk ⟨"simple_identifier", true, false, false, false, none, 19, 20⟩ []],
    .mk ⟨")", false, false, false, false, none, 20, 21⟩ []]

def labelledProperty : Node :=
  .mk ⟨"property_declaration", true, false, false, false, none, 0, 25⟩ [
    .mk ⟨"value_binding_pattern", true, false, false, false, none, 0, 3⟩ [
      .mk ⟨"let", false, false, false, false, none, 0, 3⟩ []],
    labelledPattern,
    .mk ⟨"=", false, false, false, false, none, 22, 23⟩ [],
    .mk ⟨"simple_identifier", true, false, false, false, none, 24, 25⟩ []]

/-- Neither label is a property, and the pair inside is two of them. -/
theorem labelledProperty_names :
    labelledProperty.kind = "property_declaration" ∧
      labelledPattern ∈ labelledProperty.childrenOf .name ∧
      (labelledProperty.ownSymbols (bytesOf labelledText) true false []).map (·.name.toList) =
        [['p'], ['r'], ['q']] ∧
      (∀ s ∈ labelledProperty.ownSymbols (bytesOf labelledText) true false [],
        s.kind = .property ∧ s.lineEnd = 1) ∧
      Binds beforeColon labelledPattern [3, 3, 0] ∧ ¬ Binds beforeColon labelledPattern [1] := by
  have among : labelledPattern ∈ labelledProperty.childrenOf .name := List.mem_singleton_self _
  obtain ⟨texts, shared, patterns⟩ :=
    property_names (n := labelledProperty) (.inl rfl) (bytesOf labelledText) true false []
  obtain ⟨_, bound, _⟩ := patterns labelledPattern among
  refine ⟨rfl, among, texts.trans (by decide +kernel), ?_, (bound _).mp (by decide +kernel),
    fun label => ?_⟩
  · intro s listed
    have row : (labelledProperty.endPosition (bytesOf labelledText)).row = 0 := by decide +kernel
    rw [shared s listed]
    exact ⟨rfl, congrArg (· + 1) row⟩
  · have listed := (bound _).mpr label
    revert listed
    decide +kernel

/-- A comment between a label and its colon. -/
def partedText : String := "let (x /* c */ : a, y: b) = t\n"

def partedProperty : Node :=
  .mk ⟨"property_declaration", true, false, false, false, none, 0, 29⟩ [
    .mk ⟨"value_binding_pattern", true, false, false, false, none, 0, 3⟩ [
      .mk ⟨"let", false, false, false, false, none, 0, 3⟩ []],
    .mk ⟨"pattern", true, false, false, false, some .name, 4, 25⟩ [
      .mk ⟨"(", false, false, false, false, none, 4, 5⟩ [],
      .mk ⟨"simple_identifier", true, false, false, false, none, 5, 6⟩ [],
      .mk ⟨"multiline_comment", true, false, false, false, none, 7, 14⟩ [],
      .mk ⟨":", false, false, false, false, none, 15, 16⟩ [],
      .mk ⟨"pattern", true, false, false, false, none, 17, 18⟩ [
        .mk ⟨"simple_identifier", true, false, false, false, none, 17, 18⟩ []],
      .mk ⟨",", false, false, false, false, none, 18, 19⟩ [],
      .mk ⟨"simple_identifier", true, false, false, false, none, 20, 21⟩ [],
      .mk ⟨":", false, false, false, false, none, 21, 22⟩ [],
      .mk ⟨"pattern", true, false, false, false, none, 23, 24⟩ [
        .mk ⟨"simple_identifier", true, false, false, false, none, 23, 24⟩ []],
      .mk ⟨")", false, false, false, false, none, 24, 25⟩ []],
    .mk ⟨"=", false, false, false, false, none, 26, 27⟩ [],
    .mk ⟨"simple_identifier", true, false, false, false, none, 28, 29⟩ []]

def partedTree : Node :=
  .mk ⟨"source_file", true, false, false, false, none, 0, 30⟩ [partedProperty]

/-- The first label is listed as a property, although comments aside its colon comes next. -/
theorem partedTree_lists_label :
    (Outline.ofTree (bytesOf partedText) partedTree true).symbols.map (·.name) =
        ["x", "a", "b"] ∧
      (partedProperty.childrenOf .name).flatMap (boundNames meetsColon (bytesOf partedText)) =
        [['a'], ['b']] := by
  decide +kernel

end Declaration
end SyntaxReport
