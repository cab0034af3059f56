/- Block comments: every opener in front and every closer at the end is cut away, so the body is
what documents exactly if it has neither there itself. -/
import SyntaxReport.Proofs.Outline.Run
import SyntaxReport.Proofs.Text.Trim

namespace SyntaxReport

namespace Documentation

def opener : List Char := ['/', '*', '*']

def closer : List Char := ['*', '/']

def copies (n : Nat) (mark : List Char) : List Char := (List.replicate n mark).flatten

/-- A function that takes away all copies of a mark in front of a text. -/
structure Strips (mark : List Char) (f : List Char → List Char) : Prop where
  again : ∀ text, f (mark ++ text) = f text
  clear : ∀ text, ¬ mark <+: text → f text = text

theorem strips_dropOpeners : Strips opener dropOpeners where
  again := by
    intro text
    rfl
  clear := by
    intro text plain
    rw [dropOpeners]
    rintro rest rfl
    exact plain ⟨rest, rfl⟩

theorem strips_dropClosers : Strips closer.reverse dropClosers where
  again := by
    intro text
    rfl
  clear := by
    intro text plain
    rw [dropClosers]
    rintro rest rfl
    exact plain ⟨rest, rfl⟩

/-- What is taken away are copies of the mark, and none is left in front. -/
theorem Strips.exists_copies {mark : List Char} {f : List Char → List Char} (strips : Strips mark f)
    (solid : mark ≠ []) (text : List Char) :
    ∃ n, text = copies n mark ++ f text ∧ ¬ mark <+: f text := by
  induction size : text.length using Nat.strong_induction_on generalizing text with
  | _ bound ih =>
    by_cases front : mark <+: text
    · obtain ⟨rest, rfl⟩ := front
      have shorter : rest.length < bound := by
        have positive := List.length_pos_iff.mpr solid
        rw [← size, List.length_append]
        omega
      obtain ⟨n, same, plain⟩ := ih _ shorter rest rfl
      refine ⟨n + 1, ?_, ?_⟩
      · rw [strips.again, copies, List.replicate_succ, List.flatten_cons, List.append_assoc]
        exact congrArg (mark ++ ·) same
      · rw [strips.again]
        exact plain
    · rw [strips.clear text front]
      exact ⟨0, rfl, front⟩

theorem Strips.count_le {mark : List Char} {f : List Char → List Char} (strips : Strips mark f)
    (solid : mark ≠ []) (c : Char) (text : List Char) : (f text).count c ≤ text.count c := by
  obtain ⟨n, same, _⟩ := strips.exists_copies solid text
  have counts := congrArg (List.count c) same
  rw [List.count_append] at counts
  omega

/-- A text without the block closers at its end. -/
def cutClosers (text : List Char) : List Char := (dropClosers text.reverse).reverse

theorem cutClosers_closer (text : List Char) : cutClosers (text ++ closer) = cutClosers text := by
  rw [cutClosers, List.reverse_append, strips_dropClosers.again]
  rfl

theorem cutClosers_of_not_suffix {text : List Char} (plain : ¬ closer <:+ text) :
    cutClosers text = text := by
  rw [cutClosers, strips_dropClosers.clear, List.reverse_reverse]
  rwa [List.reverse_prefix]

theorem count_cutClosers_le (c : Char) (text : List Char) :
    (cutClosers text).count c ≤ text.count c := by
  have less := strips_dropClosers.count_le (by decide) c text.reverse
  rwa [List.count_reverse, ← List.count_reverse (l := dropClosers text.reverse)] at less

theorem reverse_copies (n : Nat) (mark : List Char) :
    (copies n mark).reverse = copies n mark.reverse := by
  rw [copies, copies, List.reverse_flatten, List.map_replicate, List.reverse_replicate]

/-- A block comment is openers, a body and closers. The body ends in no closer, and no opener is
left in front of it, not even one that would reach into a closer. -/
theorem exists_blockBody (text : List Char) :
    ∃ m l, text = copies m opener ++ (blockBody text ++ copies l closer) ∧
      ¬ opener <+: blockBody text ++ copies l closer ∧ ¬ closer <:+ blockBody text := by
  obtain ⟨m, front, plain⟩ := strips_dropOpeners.exists_copies (by decide) text
  obtain ⟨l, rear, ended⟩ :=
    strips_dropClosers.exists_copies (by decide) (dropOpeners text).reverse
  have inner : dropOpeners text = blockBody text ++ copies l closer := by
    have turned := congrArg List.reverse rear
    rwa [List.reverse_reverse, List.reverse_append, reverse_copies, List.reverse_reverse] at turned
  refine ⟨m, l, ?_, ?_, ?_⟩
  · rw [← inner]
    exact front
  · rw [← inner]
    exact plain
  · rw [← List.reverse_prefix, blockBody, List.reverse_reverse]
    exact ended

theorem blockBody_opener (text : List Char) : blockBody (opener ++ text) = blockBody text := by
  rw [blockBody, strips_dropOpeners.again]
  rfl

theorem blockBody_closer {text : List Char} (plain : ¬ opener <+: text ++ closer) :
    blockBody (text ++ closer) = cutClosers text := by
  rw [blockBody, strips_dropOpeners.clear _ plain]
  exact cutClosers_closer text

/-- An opener in front of a closed text lies in the text, unless it shares its last asterisk with
the closer. -/
theorem opener_prefix_iff (text : List Char) :
    opener <+: text ++ closer ↔ opener <+: text ∨ text = ['/', '*'] := by
  match text with
  | [] => decide
  | [a] => simp [opener, closer, List.cons_prefix_cons]
  | [a, b] =>
    simp only [opener, closer, List.cons_append, List.nil_append, List.cons_prefix_cons]
    simp [eq_comm]
  | a :: b :: c :: rest => simp [opener, List.cons_prefix_cons]

/-- The slashes of a closed text that are left are no more than it has in front of its closer. -/
theorem count_blockBody_le (text : List Char) :
    (blockBody (text ++ closer)).count '/' ≤ text.count '/' := by
  induction size : text.length using Nat.strong_induction_on generalizing text with
  | _ bound ih =>
    by_cases front : opener <+: text ++ closer
    · rcases (opener_prefix_iff text).mp front with ⟨rest, rfl⟩ | rfl
      · have shorter : rest.length < bound := by
          rw [← size, List.length_append]
          exact Nat.lt_add_of_pos_left (by decide)
        rw [List.append_assoc, blockBody_opener, List.count_append]
        exact Nat.le_add_left_of_le (ih _ shorter rest rfl)
      · decide
    · rw [blockBody_closer front]
      exact count_cutClosers_le '/' text

theorem count_dropWhile {p : Char → Bool} {c : Char} (other : p c = false) (text : List Char) :
    (text.dropWhile p).count c = text.count c := by
  have parts := congrArg (List.count c) (List.takeWhile_append_dropWhile (p := p) (l := text))
  have none : (text.takeWhile p).count c = 0 := by
    rw [List.count_eq_zero]
    intro member
    rw [List.mem_takeWhile_imp member] at other
    cases other
  rw [List.count_append, none, Nat.zero_add] at parts
  exact parts

theorem count_plainLine (line : List Char) : (plainLine line).count '/' = line.count '/' := by
  rw [plainLine, Text.count_trim (by decide), count_dropWhile (by decide),
    Text.count_trim (by decide)]

theorem sum_count_filter (c : Char) (parts : List (List Char)) :
    ((parts.filter (!·.isEmpty)).map (List.count c)).sum = (parts.map (List.count c)).sum := by
  induction parts with
  | nil => rfl
  | cons line more ih =>
    cases line with
    | nil => simpa using ih
    | cons d line => simpa using ih

def slashes (doc : Option String) : Nat := doc.elim 0 (·.toList.count '/')

/-- Blanks, asterisks and empty lines aside, a body is kept, and so are its slashes. -/
theorem slashes_joined? (body : List Char) :
    slashes (joined? (bodyLines body)) = body.count '/' := by
  have kept : ((bodyLines body).map (List.count '/')).sum = body.count '/' := by
    rw [bodyLines, sum_count_filter, List.map_map, ← (Text.hasLines_lines body).sum_count (by decide)]
    congr 1
    exact List.map_congr_left fun line _ => count_plainLine line
  rw [← kept]
  cases bodyLines body with
  | nil => rfl
  | cons line more =>
    rw [joined?, slashes, Option.elim_some, String.toList_ofList,
      Text.count_joinLines (by decide)]

theorem blockBody_exact {body : List Char} (unopened : ¬ opener <+: body ++ closer)
    (unclosed : ¬ closer <:+ body) : blockBody (opener ++ (body ++ closer)) = body := by
  rw [blockBody_opener, blockBody_closer unopened, cutClosers_of_not_suffix unclosed]

/-- A delimiter of its own at an end of a body costs it at least one slash. -/
theorem count_blockBody_lt {body : List Char} (shared : body ≠ ['/', '*'])
    (marked : opener <+: body ++ closer ∨ closer <:+ body) :
    (blockBody (opener ++ (body ++ closer))).count '/' < body.count '/' := by
  rw [blockBody_opener]
  by_cases front : opener <+: body ++ closer
  · obtain ⟨rest, rfl⟩ := ((opener_prefix_iff body).mp front).resolve_right shared
    rw [List.append_assoc, blockBody_opener, List.count_append]
    have left := count_blockBody_le rest
    have one : opener.count '/' = 1 := by decide
    omega
  · obtain ⟨rest, rfl⟩ := marked.resolve_left front
    rw [blockBody_closer front, cutClosers_closer, List.count_append]
    have left := count_cutClosers_le '/' rest
    have one : closer.count '/' = 1 := by decide
    omega

/-- The lines of a body document exactly if the body neither opens nor closes like a block of its
own. -/
theorem ofBlock?_eq_iff (body : List Char) :
    ofBlock? (opener ++ (body ++ closer)) = joined? (bodyLines body) ↔
      ¬ opener <+: body ++ closer ∧ ¬ closer <:+ body := by
  constructor
  · intro same
    by_contra marked
    have shared : body ≠ ['/', '*'] := by
      rintro rfl
      revert same
      decide +kernel
    have fewer := count_blockBody_lt shared (by tauto)
    have equal := congrArg slashes same
    rw [ofBlock?, slashes_joined?, slashes_joined?] at equal
    exact Nat.ne_of_lt fewer equal
  · rintro ⟨unopened, unclosed⟩
    rw [ofBlock?, blockBody_exact unopened unclosed]

/-- A closed block comment has a body, or else its opener and its closer share an asterisk. -/
theorem eq_or_exists_body {text : List Char} (opened : opener <+: text) (closed : closer <:+ text) :
    text = ['/', '*', '*', '/'] ∨ ∃ body, text = opener ++ (body ++ closer) := by
  obtain ⟨rest, rfl⟩ := opened
  rcases List.suffix_or_suffix_of_suffix closed (List.suffix_append opener rest) with inner | short
  · obtain ⟨body, rfl⟩ := inner
    exact .inr ⟨body, rfl⟩
  · rcases List.suffix_cons_iff.mp short with rfl | short
    · exact .inr ⟨[], rfl⟩
    · rcases List.suffix_cons_iff.mp short with rfl | short
      · exact .inl rfl
      · cases List.suffix_nil.mp short
        exact absurd closed (by decide)

end Documentation

namespace Outline

open Documentation (opener closer copies joined? bodyLines ofBlock?)

/-- The block comment right above a declaration documents it with what is left between all openers
in front and all closers at the end. That is the body of the comment exactly if the body neither
opens nor closes like a block of its own. The comment in which opener and closer overlap documents
with a slash. -/
theorem block_documentation {source : Bytes} {root p n c : Node} {path : List Nat} {j : Nat}
    (found : root.at? path = some p) (child : p.children[j]? = some n)
    (block : p.BlockAbove source j c) :
    Documentation.above? source (n.startPosition source).row (root.elder (path ++ [j])) =
        ofBlock? (c.text source) ∧
      (∀ s ∈ root.declaredAt source true false (path ++ [j]), s.kind ≠ .imported →
        s.documentation = ofBlock? (c.text source)) ∧
      (∀ body, c.text source = opener ++ (body ++ closer) →
        (ofBlock? (c.text source) = joined? (bodyLines body) ↔
          ¬ opener <+: body ++ closer ∧ ¬ closer <:+ body)) ∧
      (closer <:+ c.text source →
        (c.text source = ['/', '*', '*', '/'] ∧ ofBlock? (c.text source) = some "/") ∨
          ∃ body, c.text source = opener ++ (body ++ closer)) ∧
      ∃ m core l, c.text source = copies m opener ++ (core ++ copies l closer) ∧
        ¬ opener <+: core ++ copies l closer ∧ ¬ closer <:+ core ∧
        ofBlock? (c.text source) = joined? (bodyLines core) := by
  have documents := Documentation.above?_of_block child block
  refine ⟨?_, ?_, ?_, ?_, ?_⟩
  · rw [Node.elder_child found]
    exact documents
  · intro s declared other
    rw [documentation_of_mem_declaredAt found child declared, if_neg other, documents]
  · intro body text
    rw [text]
    exact Documentation.ofBlock?_eq_iff body
  · intro closed
    obtain ⟨_, _, _, _, _, doc, _⟩ := block
    rcases Documentation.eq_or_exists_body doc.2 closed with overlap | body
    · refine .inl ⟨overlap, ?_⟩
      rw [overlap]
      decide +kernel
    · exact .inr body
  · obtain ⟨m, l, text, unopened, unclosed⟩ := Documentation.exists_blockBody (c.text source)
    exact ⟨m, _, l, text, unopened, unclosed, rfl⟩

/-- A block comment that ends with another one in it. -/
def nestedText : String := "/** a /* b */*/\nclass A \x7b\x7d\n"

def nestedComment : Node :=
  .mk ⟨"multiline_comment", true, false, false, false, none, 0, 15⟩ []

def nestedClass : Node :=
  .mk ⟨"class_declaration", true, false, false, false, none, 16, 26⟩ [
    .mk ⟨"class", false, false, false, false, some .declarationKind, 16, 21⟩ [],
    .mk ⟨"type_identifier", true, false, false, false, some .name, 22, 23⟩ [],
    .mk ⟨"class_body", true, false, false, false, some .body, 24, 26⟩ [
      .mk ⟨"\x7b", false, false, false, false, none, 24, 25⟩ [],
      .mk ⟨"\x7d", false, false, false, false, none, 25, 26⟩ []]]

def nestedTree : Node :=
  .mk ⟨"source_file", true, false, false, false, none, 0, 27⟩ [nestedComment, nestedClass]

/-- The closer of the inner comment is lost from the documentation. -/
theorem nestedTree_documentation :
    nestedTree.at? [] = some nestedTree ∧ nestedTree.children[1]? = some nestedClass ∧
      nestedTree.BlockAbove (bytesOf nestedText) 1 nestedComment ∧
      Documentation.above? (bytesOf nestedText) 1 [nestedComment] = some "a /* b" ∧
      ofBlock? (nestedComment.text (bytesOf nestedText)) ≠
        joined? (bodyLines " a /* b */".toList) := by
  have found : nestedTree.at? [] = some nestedTree := rfl
  have child : nestedTree.children[1]? = some nestedClass := rfl
  have block : nestedTree.BlockAbove (bytesOf nestedText) 1 nestedComment :=
    ⟨0, nestedClass, rfl, rfl, rfl, by decide +kernel, by decide +kernel⟩
  obtain ⟨documents, _, exact_iff, _⟩ := block_documentation found child block
  have row : (nestedClass.startPosition (bytesOf nestedText)).row = 1 := by decide +kernel
  have text : nestedComment.text (bytesOf nestedText) =
      opener ++ (" a /* b */".toList ++ closer) := by decide +kernel
  refine ⟨found, child, block, ?_, fun same => ?_⟩
  · rw [row] at documents
    exact documents.trans (by decide +kernel)
  · refine ((exact_iff _ text).mp same).2 ?_
    decide +kernel

/-- A block comment of no body: its opener and its closer share an asterisk. -/
def overlapText : String := "/**/\nclass A \x7b\x7d\n"

def overlapTree : Node :=
  .mk ⟨"source_file", true, false, false, false, none, 0, 16⟩ [
    .mk ⟨"multiline_comment", true, false, false, false, none, 0, 4⟩ [],
    .mk ⟨"class_declaration", true, false, false, false, none, 5, 15⟩ [
      .mk ⟨"class", false, false, false, false, some .declarationKind, 5, 10⟩ [],
      .mk ⟨"type_identifier", true, false, false, false, some .name, 11, 12⟩ [],
      .mk ⟨"class_body", true, false, false, false, some .body, 13, 15⟩ [
        .mk ⟨"\x7b", false, false, false, false, none, 13, 14⟩ [],
        .mk ⟨"\x7d", false, false, false, false, none, 14, 15⟩ []]]]

/-- The class is documented by the slash that is left of the comment. -/
theorem overlapTree_documentation :
    (ofTree (bytesOf overlapText) overlapTree true).symbols.map (·.documentation) =
      [some "/"] := by
  decide +kernel

end Outline
end SyntaxReport
