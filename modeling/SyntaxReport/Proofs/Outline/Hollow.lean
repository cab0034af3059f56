/- Documentation without content: it comes from a run of line comments with nothing in them but
slashes and blanks, and never from a block comment. -/
import SyntaxReport.Proofs.Outline.Run
import SyntaxReport.Proofs.Text.Trim

namespace SyntaxReport

namespace Node

/-- The longest run of line comments right above the child at `j` has `k` lines, and behind the
slashes in front each of them is blank. -/
structure HollowRun (source : Bytes) (p : Node) (j k : Nat) : Prop where
  longest : IsGreatest {k | p.RunAbove source j k} k
  positive : 0 < k
  blank : ∀ c ∈ (p.children.take j).drop (j - k),
    Text.Blank ((c.text source).dropWhile (· = '/'))

/-- A visible declaration of some symbol that is no import, right below such a run. -/
inductive Hollow (source : Bytes) (root : Node) : List Nat → Prop
  | below {path : List Nat} {p n : Node} {j k : Nat} (visible : Visible source root (path ++ [j]))
      (found : root.at? path = some p) (child : p.children[j]? = some n)
      (run : p.HollowRun source j k) (other : n.kind ≠ "import_declaration")
      (counted : 0 < n.symbolCount source) : Hollow source root (path ++ [j])

end Node

namespace Documentation

open Node (Documented HollowRun)

/-- The lines of a block comment are never blank, since blank ones are left out. -/
theorem not_blank_of_ofBlock? {text : List Char} {doc : String}
    (documents : ofBlock? text = some doc) : ¬ Text.Blank doc.toList := by
  have solid : ∀ line ∈ bodyLines (blockBody text), ¬ Text.Blank line := by
    intro line member
    obtain ⟨listed, kept⟩ := List.mem_filter.mp member
    obtain ⟨whole, _, rfl⟩ := List.mem_map.mp listed
    intro blank
    rw [plainLine, Text.trim_eq_nil_iff.mpr (Text.blank_trim_iff.mp blank)] at kept
    cases kept
  rw [ofBlock?] at documents
  cases listed : bodyLines (blockBody text) with
  | nil =>
    rw [listed] at documents
    cases documents
  | cons line more =>
    rw [listed] at documents solid
    cases documents
    intro blank
    rw [String.toList_ofList, Text.blank_joinLines_iff] at blank
    exact solid line List.mem_cons_self (blank line List.mem_cons_self)

theorem blank_comment_iff {source : Bytes} {c : Node} : Text.Blank (comment source c) ↔
    Text.Blank ((c.text source).dropWhile (· = '/')) :=
  Text.blank_trim_iff

/-- Documentation is blank exactly if it is made of blank lines alone. -/
theorem blank_iff_hollowRun {source : Bytes} {p : Node} {j k : Nat} {doc : String}
    (documented : p.Documented source j k (some doc)) :
    Text.Blank doc.toList ↔ p.HollowRun source j k := by
  rcases Nat.eq_zero_or_pos k with none | some_line
  · refine iff_of_false ?_ fun run => Nat.ne_of_gt run.positive none
    by_cases above : ∃ c, p.BlockAbove source j c
    · obtain ⟨c, block⟩ := above
      exact not_blank_of_ofBlock? (documented.block none c block).symm
    · cases documented.nothing none (not_exists.mp above)
  · have text := congrArg String.toList (Option.some.inj (documented.lines some_line))
    rw [String.toList_ofList] at text
    rw [text, Text.blank_joinLines_iff, List.forall_mem_map]
    simp only [blank_comment_iff]
    constructor
    · intro blank
      exact ⟨documented.longest, some_line, blank⟩
    · intro run
      exact run.blank

/-- What a run of `k` blank lines comes to are the line feeds between them. -/
theorem eq_feeds_of_hollowRun {source : Bytes} {p n : Node} {j k l : Nat} {doc : Option String}
    (child : p.children[j]? = some n) (documented : p.Documented source j l doc)
    (run : p.HollowRun source j k) : doc = some (String.ofList (List.replicate (k - 1) '\n')) := by
  cases documented.longest.unique run.longest
  have fits : k ≤ j := run.longest.1.1
  have lines : ((p.children.take j).drop (j - k)).map (comment source) =
      List.replicate (k - 1 + 1) [] := by
    rw [List.eq_replicate_iff, List.length_map, List.length_drop, Node.length_take_child child,
      List.forall_mem_map]
    have positive := run.positive
    refine ⟨by omega, fun c member => ?_⟩
    exact Text.trim_eq_nil_iff.mpr (run.blank c member)
  rw [documented.lines run.positive, lines, Text.joinLines_replicate]

end Documentation

namespace Node

theorem Visible.exists_parent {source : Bytes} {root n : Node} {place : List Nat}
    (visible : Visible source root place) (here : root.at? place = some n) :
    ∃ path p j, place = path ++ [j] ∧ root.at? path = some p ∧ p.children[j]? = some n := by
  rcases List.eq_nil_or_concat place with rfl | ⟨path, j, rfl⟩
  · cases visible_iff_shows.mp visible
  · rw [List.concat_eq_append, at?_append] at here
    obtain ⟨p, found, child⟩ := Option.bind_eq_some_iff.mp here
    exact ⟨path, p, j, List.concat_eq_append, found, at?_singleton p j ▸ child⟩

theorem ofKind?_eq_dependency_iff {kind : String} :
    Declaration.ofKind? kind = some .dependency ↔ kind = "import_declaration" := by
  constructor
  · intro declared
    unfold Declaration.ofKind? at declared
    split at declared <;> simp_all
  · rintro rfl
    rfl

theorem kind_eq_imported_iff {source : Bytes} {docs member : Bool} {elder : List Node} {n : Node}
    {s : Symbol} (own : s ∈ n.ownSymbols source docs member elder) :
    s.kind = .imported ↔ n.kind = "import_declaration" := by
  obtain ⟨d, _, declared, _, rfl⟩ := exists_of_mem_ownSymbols own
  rw [Declaration.symbolKind_eq_imported_iff declared, ← ofKind?_eq_dependency_iff, declared,
    Option.some.injEq]

end Node

namespace Outline

theorem length_declaredAt {source : Bytes} {root n : Node} {place : List Nat}
    (found : root.at? place = some n) (docs member : Bool) :
    (root.declaredAt source docs member place).length = n.symbolCount source := by
  rw [← Node.length_symbolsAt found source docs member, ← map_bare_declaredAt, List.length_map]

theorem documented_of_mem_declaredAt {source : Bytes} {root p n : Node} {path : List Nat} {j : Nat}
    (found : root.at? path = some p) (child : p.children[j]? = some n) {s : Symbol}
    (declared : s ∈ root.declaredAt source true false (path ++ [j])) (other : s.kind ≠ .imported) :
    ∃ k, p.Documented source j k s.documentation := by
  rw [documentation_of_mem_declaredAt found child declared, if_neg other]
  exact Documentation.documented_above? child

theorem kind_eq_imported_iff {source : Bytes} {docs : Bool} {root n : Node} {place : List Nat}
    (found : root.at? place = some n) {s : Symbol}
    (declared : s ∈ root.declaredAt source docs false place) :
    s.kind = .imported ↔ n.kind = "import_declaration" := by
  obtain ⟨m, here, declared⟩ := mem_declaredAt.mp declared
  cases Option.some.inj (found.symm.trans here)
  have own := Node.kind_eq_imported_iff (bare_mem_ownSymbols declared)
  exact own

/-- A symbol with documentation is no import, and its documentation is that of its node. -/
theorem documented_of_documentation {source : Bytes} {root p n : Node} {path : List Nat} {j : Nat}
    (found : root.at? path = some p) (child : p.children[j]? = some n) {s : Symbol}
    (declared : s ∈ root.declaredAt source true false (path ++ [j])) {doc : String}
    (documents : s.documentation = some doc) :
    s.kind ≠ .imported ∧ ∃ k, p.Documented source j k (some doc) := by
  have other : s.kind ≠ .imported := by
    intro imported
    rw [documentation_of_mem_declaredAt found child declared, if_pos imported] at documents
    cases documents
  exact ⟨other, documents ▸ documented_of_mem_declaredAt found child declared other⟩

/-- A visible symbol of blank documentation is declared right below a hollow run. -/
theorem hollow_of_blank {source : Bytes} {root : Node} {place : List Nat}
    (visible : root.Visible source place) {s : Symbol}
    (declared : s ∈ root.declaredAt source true false place) {doc : String}
    (documents : s.documentation = some doc) (blank : Text.Blank doc.toList) :
    root.Hollow source place := by
  obtain ⟨n, here, _⟩ := mem_declaredAt.mp declared
  obtain ⟨path, p, j, rfl, found, child⟩ := visible.exists_parent here
  obtain ⟨other, k, documented⟩ := documented_of_documentation found child declared documents
  have run := (Documentation.blank_iff_hollowRun documented).mp blank
  have no_import := mt (kind_eq_imported_iff here declared).mpr other
  have counted : 0 < n.symbolCount source := by
    rw [← length_declaredAt here true false]
    exact List.length_pos_of_mem declared
  exact .below visible found child run no_import counted

theorem exists_blank_of_hollow {source : Bytes} {root : Node} {place : List Nat}
    (hollow : root.Hollow source place) :
    root.Visible source place ∧ ∃ s ∈ root.declaredAt source true false place,
      ∃ doc, s.documentation = some doc ∧ Text.Blank doc.toList := by
  obtain ⟨visible, found, child, run, other, counted⟩ := hollow
  refine ⟨visible, ?_⟩
  have here := (Node.at?_child found _).trans child
  rw [← length_declaredAt here true false] at counted
  obtain ⟨s, declared⟩ := List.exists_mem_of_length_pos counted
  obtain ⟨l, documented⟩ := documented_of_mem_declaredAt found child declared
    (mt (kind_eq_imported_iff here declared).mp other)
  have documents := Documentation.eq_feeds_of_hollowRun child documented run
  cases documented.longest.unique run.longest
  rw [documents] at documented
  exact ⟨s, declared, _, documents, (Documentation.blank_iff_hollowRun documented).mpr run⟩

/-- A documentation is blank exactly if it comes from a run of line comments that hold nothing but
slashes and then blanks, and then it is the line feeds between them. So an outline has a blank
documentation exactly where a visible declaration stands right below such a run. -/
theorem blank_documentation_iff (source : Bytes) (root : Node) :
    (∀ path p j n, root.at? path = some p → p.children[j]? = some n →
      ∀ s ∈ root.declaredAt source true false (path ++ [j]), ∀ doc, s.documentation = some doc →
        (Text.Blank doc.toList ↔ ∃ k, p.HollowRun source j k) ∧
        ∀ k, p.HollowRun source j k → doc = String.ofList (List.replicate (k - 1) '\n')) ∧
      ((∃ s ∈ (ofTree source root true).toList, ∃ doc, s.documentation = some doc ∧
          Text.Blank doc.toList) ↔ ∃ place, root.Hollow source place) := by
  constructor
  · intro path p j n found child s declared doc documents
    obtain ⟨_, k, documented⟩ := documented_of_documentation found child declared documents
    have exactly := Documentation.blank_iff_hollowRun documented
    constructor
    · constructor
      · intro blank
        exact ⟨k, exactly.mp blank⟩
      · rintro ⟨l, run⟩
        cases documented.longest.unique run.longest
        exact exactly.mpr run
    · intro l run
      exact Option.some.inj (Documentation.eq_feeds_of_hollowRun child documented run)
  · rw [toList_ofTree]
    constructor
    · rintro ⟨s, listed, doc, documents, blank⟩
      obtain ⟨place, shown, declared⟩ := List.mem_flatMap.mp listed
      exact ⟨place, hollow_of_blank (Node.mem_visible.mp shown) declared documents blank⟩
    · rintro ⟨place, hollow⟩
      obtain ⟨visible, s, declared, blank⟩ := exists_blank_of_hollow hollow
      exact ⟨s, List.mem_flatMap.mpr ⟨place, Node.mem_visible.mpr visible, declared⟩, blank⟩

/-- A comment of three slashes and nothing else. -/
def bareText : String := "///\nclass A \x7b\x7d\n"

def bareTree : Node :=
  .mk ⟨"source_file", true, false, false, false, none, 0, 15⟩ [
    .mk ⟨"comment", true, false, false, false, none, 0, 3⟩ [],
    .mk ⟨"class_declaration", true, false, false, false, none, 4, 14⟩ [
      .mk ⟨"class", false, false, false, false, some .declarationKind, 4, 9⟩ [],
      .mk ⟨"type_identifier", true, false, false, false, some .name, 10, 11⟩ [],
      .mk ⟨"class_body", true, false, false, false, some .body, 12, 14⟩ [
        .mk ⟨"\x7b", false, false, false, false, none, 12, 13⟩ [],
        .mk ⟨"\x7d", false, false, false, false, none, 13, 14⟩ []]]]

/-- The class is documented, by an empty text. -/
theorem bareTree_documentation :
    (ofTree (bytesOf bareText) bareTree true).symbols.map (·.documentation) = [some ""] := by
  decide +kernel

end Outline
end SyntaxReport
