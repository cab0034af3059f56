/- The message of an error quotes its text: the first line that is not blank, as far as forty
characters go. -/
import SyntaxReport.Proofs.Diagnostic.Walk
import SyntaxReport.Proofs.Text.Headline
import SyntaxReport.Proofs.Text.Sequence

namespace SyntaxReport

/-- Where a piece of the bytes of a node stands in the source. -/
theorem Node.exists_place_of_isInfix {source piece : Bytes} {n : Node}
    (inner : piece <:+: n.bytes source) (filled : piece ≠ []) :
    ∃ before behind, source = before ++ (piece ++ behind) ∧
      n.label.start ≤ before.length ∧ before.length + piece.length ≤ n.label.stop := by
  obtain ⟨front, rear, same⟩ := inner
  have positive := List.length_pos_iff.mpr filled
  have sizes := congrArg List.length same
  rw [bytes, List.length_append, List.length_append, List.length_take, List.length_drop] at sizes
  refine ⟨source.take n.label.start ++ front,
    rear ++ (source.drop n.label.start).drop (n.label.stop - n.label.start), ?_, ?_, ?_⟩
  · calc source
      _ = source.take n.label.start ++ (n.bytes source ++
          (source.drop n.label.start).drop (n.label.stop - n.label.start)) := by
        rw [bytes, List.take_append_drop, List.take_append_drop]
      _ = _ := by
        rw [← same]
        simp only [List.append_assoc]
  · rw [List.length_append, List.length_take]
    omega
  · rw [List.length_append, List.length_take]
    omega

namespace Diagnostic

/-- What stands behind the quoted part of a line. -/
def dots (core : List Char) : List Char := if 40 < core.length then ['.', '.', '.'] else []

theorem shorten_eq (core : List Char) : shorten core = core.take 40 ++ dots core := by
  rcases Nat.lt_or_ge 40 core.length with long | fits
  · rw [dots, if_pos long]
    exact if_pos long
  · rw [dots, if_neg (Nat.not_lt_of_le fits), List.append_nil, List.take_of_length_le fits]
    exact if_neg (Nat.not_lt_of_le fits)

theorem length_dots_le (core : List Char) : (dots core).length ≤ 3 := by
  unfold dots
  split <;> decide

theorem feed_not_mem_dots (core : List Char) : '\n' ∉ dots core := by
  unfold dots
  split <;> decide

/-- A message shows the part of a line that it has room for, and the source has that part within the
range of the node. -/
structure Quotes (source : Bytes) (n : Node) (core shown : List Char) : Prop where
  whole : core.length ≤ 40 → shown = core
  cut : 40 < core.length → shown = core.take 40 ++ ['.', '.', '.']
  filled : shown ≠ []
  feedless : '\n' ∉ shown
  opens : ∀ c ∈ shown.head?, Text.isBlank c = false
  length_le : shown.length ≤ 43
  place : ∃ before behind, source = before ++ (Utf8.encode (core.take 40) ++ behind) ∧
    n.label.start ≤ before.length ∧
    before.length + (Utf8.encode (core.take 40)).length ≤ n.label.stop

theorem quotes_shorten {source : Bytes} {n : Node} {text core : List Char}
    (stored : n.bytes source = Utf8.encode text) (headline : Text.Headline text core) :
    Quotes source n core (shorten core) := by
  have kept : core.take 40 ≠ [] := by
    rw [Ne, List.take_eq_nil_iff, not_or]
    exact ⟨by decide, headline.ne_nil⟩
  have part := (List.take_prefix 40 core).isInfix
  rw [shorten_eq]
  constructor
  case whole =>
    intro fits
    rw [dots, if_neg (Nat.not_lt_of_le fits), List.append_nil, List.take_of_length_le fits]
  case cut =>
    intro long
    rw [dots, if_pos long]
  case filled => exact List.append_ne_nil_of_left_ne_nil kept _
  case feedless =>
    rw [List.mem_append, not_or]
    exact ⟨fun feed => headline.feedless (part.mem feed), feed_not_mem_dots core⟩
  case opens =>
    rw [List.head?_append_of_ne_nil _ kept, List.head?_take, if_neg (by decide)]
    exact headline.opens
  case length_le =>
    have few := length_dots_le core
    rw [List.length_append, List.length_take]
    omega
  case place =>
    apply Node.exists_place_of_isInfix _ (Utf8.encode_ne_nil kept)
    rw [stored]
    exact Utf8.encode_isInfix (part.trans headline.isInfix)

theorem excerpt?_of_encode {source : Bytes} {n : Node} {text : List Char}
    (stored : n.bytes source = Utf8.encode text) :
    excerpt? source n = (((Text.lines text).map Text.trim).find? (!·.isEmpty)).map shorten := by
  rw [excerpt?, Node.text?, stored, Utf8.decode?_encode]
  exact Option.map_eq_bind.symm

theorem excerpt?_of_headline {source : Bytes} {n : Node} {text core : List Char}
    (stored : n.bytes source = Utf8.encode text) (headline : Text.Headline text core) :
    excerpt? source n = some (shorten core) := by
  rw [excerpt?_of_encode stored, Text.find?_lines_eq_some_iff.mpr headline]
  rfl

/-- There is nothing to quote in bytes that are no text, and in blanks. -/
theorem excerpt?_eq_none_iff {source : Bytes} {n : Node} :
    excerpt? source n = none ↔ (¬ ∃ text, n.bytes source = Utf8.encode text) ∨
      ∃ text, n.bytes source = Utf8.encode text ∧ Text.Blank text := by
  by_cases readable : ∃ text, n.bytes source = Utf8.encode text
  · obtain ⟨text, stored⟩ := readable
    rw [excerpt?_of_encode stored, Option.map_eq_none_iff, Text.find?_lines_eq_none_iff]
    constructor
    · intro blank
      exact .inr ⟨text, stored, blank⟩
    · rintro (unreadable | ⟨other, stored', blank⟩)
      · exact absurd ⟨text, stored⟩ unreadable
      · rwa [Utf8.encode_injective (stored.symm.trans stored')]
  · have none : n.text? source = none := by
      rw [Node.text?, Option.eq_none_iff_forall_ne_some]
      intro text decoded
      exact readable ⟨text, Utf8.decode?_eq_some_iff.mp decoded⟩
    refine iff_of_true ?_ (.inl readable)
    rw [excerpt?, none]
    rfl

theorem quotation_ne (shown : List Char) :
    "unexpected `" ++ String.ofList shown ++ "`" ≠ "unexpected syntax" := by
  intro same
  have twelfth := congrArg (fun text : String => text.toList[11]?) same
  simp at twelfth

theorem unexpectedMessage_eq_iff {source : Bytes} {n : Node} :
    unexpectedMessage source n = "unexpected syntax" ↔ excerpt? source n = none := by
  unfold unexpectedMessage
  cases excerpt? source n with
  | none => simp
  | some shown => exact iff_of_false (quotation_ne shown) (Option.some_ne_none shown)

/-- Bytes that are a text with more than blanks have a line to quote. -/
theorem exists_headline {source : Bytes} {n : Node} {shown : List Char}
    (found : excerpt? source n = some shown) :
    ∃ text core, n.bytes source = Utf8.encode text ∧ Text.Headline text core := by
  rw [excerpt?, Option.bind_eq_bind, Option.bind_eq_some_iff] at found
  obtain ⟨text, decoded, quoted⟩ := found
  obtain ⟨core, first, _⟩ := Option.bind_eq_some_iff.mp quoted
  exact ⟨text, core, Utf8.decode?_eq_some_iff.mp decoded, Text.find?_lines_eq_some_iff.mp first⟩

/-- An error is reported wherever a walk with room left comes to it. Its message is the plain one
exactly if its bytes are no text or a text of blanks, and otherwise quotes the first line that is
not blank. A missing token is reported as such instead, but no node of a parsed tree is both: an
error is made around text that fits no rule, and a missing token where there is no text. -/
theorem error_quotes_headline {source : Bytes} {n : Node} (error : n.label.error = true)
    (present : n.label.missing = false) :
    ∃ d, ofNode? source n = some d ∧ d.kind = .unexpected ∧
      (∀ room c, c.node = n → ∃ later, walk source (room + 1) c = d :: later) ∧
      (d.message = "unexpected syntax" ↔ (¬ ∃ text, n.bytes source = Utf8.encode text) ∨
        ∃ text, n.bytes source = Utf8.encode text ∧ Text.Blank text) ∧
      (d.message ≠ "unexpected syntax" →
        ∃ text core, n.bytes source = Utf8.encode text ∧ Text.Headline text core) ∧
      ∀ text core, n.bytes source = Utf8.encode text → Text.Headline text core →
        ∃ shown, d.message = "unexpected `" ++ String.ofList shown ++ "`" ∧
          Quotes source n core shown := by
  have fault : n.label.isFault = true := by rw [Label.isFault, error, Bool.true_or]
  have kind : ofFault source n = ofRange source n .unexpected (unexpectedMessage source n) := by
    rw [ofFault, if_neg (by simp [present])]
  refine ⟨ofFault source n, ?_, ?_, ?_, ?_, ?_, ?_⟩
  · rw [ofNode?_eq, if_pos fault]
  · rw [kind]
    rfl
  · rintro room c rfl
    exact ⟨_, walk_of_fault fault⟩
  · rw [kind, ← excerpt?_eq_none_iff]
    exact unexpectedMessage_eq_iff
  · intro quoted
    rw [kind] at quoted
    obtain ⟨shown, found⟩ := Option.ne_none_iff_exists'.mp
      (fun none => quoted (unexpectedMessage_eq_iff.mpr none))
    exact exists_headline found
  · intro text core stored headline
    refine ⟨shorten core, ?_, quotes_shorten stored headline⟩
    rw [kind]
    change unexpectedMessage source n = _
    rw [unexpectedMessage, excerpt?_of_headline stored headline]

/-- A blank line, and behind it one of 41 accented letters. -/
def accentLines : List Char :=
  [' ', '\r', '\n', '\u00a0'] ++ List.replicate 41 'é' ++ ['\t', '\r', '\n', ')']

def accentSource : Bytes := bytesOf "let " ++ Utf8.encode accentLines

def accentError : Node := .mk ⟨"ERROR", true, true, false, true, none, 4, 95⟩ []

theorem headline_accentLines : Text.Headline accentLines (List.replicate 41 'é') := by
  refine ⟨[[' ']], '\u00a0' :: List.replicate 41 'é' ++ ['\t'], [[')']], ?_, ?_, ?_, ?_⟩
  · rw [Text.hasLines_iff]
    decide
  · rw [List.forall_mem_singleton, ← Text.trim_eq_nil_iff]
    decide
  · intro blank
    cases blank 'é' (by simp)
  · rw [Text.trimmed_iff]
    decide

/-- The forty letters that the message shows take eighty bytes. -/
theorem accentError_quoted :
    accentError.label.error = true ∧ accentError.label.missing = false ∧
      accentError.bytes accentSource = Utf8.encode accentLines ∧
      ∃ d shown, ofNode? accentSource accentError = some d ∧
        d.message = "unexpected `" ++ String.ofList shown ++ "`" ∧
        shown = List.replicate 40 'é' ++ ['.', '.', '.'] ∧
        Quotes accentSource accentError (List.replicate 41 'é') shown := by
  have error : accentError.label.error = true := rfl
  have present : accentError.label.missing = false := rfl
  have stored : accentError.bytes accentSource = Utf8.encode accentLines := by decide
  obtain ⟨d, reported, _, _, _, _, quoted⟩ : ∃ d, ofNode? accentSource accentError = some d ∧ _ :=
    error_quotes_headline error present
  obtain ⟨shown, message, quotes⟩ := quoted accentLines _ stored headline_accentLines
  exact ⟨error, present, stored, d, shown, reported, message, quotes.cut (by decide), quotes⟩

end Diagnostic
end SyntaxReport
