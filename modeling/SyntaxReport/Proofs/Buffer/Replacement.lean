/- Replacements in a source: when one can be made, what takes it back, and the sessions that make
one after another. -/
import SyntaxReport.Proofs.Buffer.Coherence
import SyntaxReport.Proofs.Buffer.Splice

namespace SyntaxReport

theorem length_bytesOf (text : String) : (bytesOf text).length = Text.width text.toList :=
  Utf8.length_encode _

/-- New text for a range of bytes. -/
structure Replacement where
  start : Nat
  oldEnd : Nat
  added : String
deriving DecidableEq, Repr

namespace Replacement

/-- The source with the replacement made, if it can be cut at the range. -/
def make? (r : Replacement) (source : String) : Option String :=
  (Text.Cut.at? source.toList r.start r.oldEnd).map fun cut =>
    String.ofList (cut.fill r.added.toList)

/-- The text that a replacement removes. -/
def removed (r : Replacement) (source : String) : String :=
  String.ofList
    ((Utf8.decode? (((bytesOf source).drop r.start).take (r.oldEnd - r.start))).getD [])

/-- The replacement of the added text by the removed one. -/
def inverse (r : Replacement) (source : String) : Replacement :=
  ⟨r.start, r.start + (bytesOf r.added).length, r.removed source⟩

/-- Replacements one after another, as long as each of them can be made. -/
def makeAll? (rs : List Replacement) (source : String) : Option String :=
  rs.foldlM (fun text r => r.make? text) source

/-- What takes a list of replacements back, the last of them first. -/
def inverses (source : String) : List Replacement → List Replacement
  | [] => []
  | r :: rest => inverses ((r.make? source).getD source) rest ++ [r.inverse source]

theorem make?_eq_some_iff {r : Replacement} {source result : String} :
    r.make? source = some result ↔
      ∃ cut : Text.Cut, source.toList = cut.fill cut.removed ∧
        Text.width cut.before = r.start ∧ r.start + Text.width cut.removed = r.oldEnd ∧
        result.toList = cut.fill r.added.toList := by
  unfold make?
  simp only [Option.map_eq_some_iff, Text.Cut.at?_eq_some_iff]
  constructor
  · rintro ⟨cut, ⟨same, atStart, atEnd⟩, rfl⟩
    exact ⟨cut, same, atStart, atEnd, String.toList_ofList⟩
  · rintro ⟨cut, same, atStart, atEnd, filled⟩
    exact ⟨cut, ⟨same, atStart, atEnd⟩, by rw [← filled, String.ofList_toList]⟩

theorem isSome_make?_iff {r : Replacement} {source : String} :
    (r.make? source).isSome ↔ Text.Replaceable source.toList r.start r.oldEnd := by
  rw [← Text.Cut.exists_at?_iff, ← Option.isSome_iff_exists, make?, Option.isSome_map]

theorem bytes_of_cut {r : Replacement} {source : String} {cut : Text.Cut}
    (same : source.toList = cut.fill cut.removed) (atStart : Text.width cut.before = r.start)
    (atEnd : r.start + Text.width cut.removed = r.oldEnd) :
    ((bytesOf source).drop r.start).take (r.oldEnd - r.start) = Utf8.encode cut.removed := by
  rw [bytesOf, same, ← atEnd, Nat.add_sub_cancel_left, ← atStart, cut.middle_fill]

theorem toList_removed {r : Replacement} {source : String} {cut : Text.Cut}
    (same : source.toList = cut.fill cut.removed) (atStart : Text.width cut.before = r.start)
    (atEnd : r.start + Text.width cut.removed = r.oldEnd) :
    (r.removed source).toList = cut.removed := by
  rw [removed, bytes_of_cut same atStart atEnd, Utf8.decode?_encode, String.toList_ofList,
    Option.getD_some]

/-- The removed text has exactly the bytes of the range. -/
theorem bytesOf_removed {r : Replacement} {source result : String}
    (made : r.make? source = some result) :
    bytesOf (r.removed source) = ((bytesOf source).drop r.start).take (r.oldEnd - r.start) := by
  obtain ⟨cut, same, atStart, atEnd, _⟩ := make?_eq_some_iff.mp made
  rw [bytesOf, toList_removed same atStart atEnd, bytes_of_cut same atStart atEnd]

/-- A replacement that was made can be taken back, and then the source is the old one. -/
theorem make?_inverse {r : Replacement} {source result : String}
    (made : r.make? source = some result) : (r.inverse source).make? result = some source := by
  obtain ⟨cut, same, atStart, atEnd, filled⟩ := make?_eq_some_iff.mp made
  -- the inverse cuts the result around the added text
  refine make?_eq_some_iff.mpr ⟨⟨cut.before, r.added.toList, cut.behind⟩, filled, atStart, ?_, ?_⟩
  · exact congrArg (r.start + ·) (length_bytesOf r.added).symm
  · change source.toList = cut.fill (r.removed source).toList
    rw [toList_removed same atStart atEnd, same]

theorem makeAll?_append (rs ss : List Replacement) (source : String) :
    makeAll? (rs ++ ss) source = (makeAll? rs source).bind (makeAll? ss) :=
  List.foldlM_append

theorem makeAll?_cons_eq_some_iff {r : Replacement} {rest : List Replacement}
    {source result : String} :
    makeAll? (r :: rest) source = some result ↔
      ∃ next, r.make? source = some next ∧ makeAll? rest next = some result := by
  unfold makeAll?
  rw [List.foldlM_cons]
  exact Option.bind_eq_some_iff

theorem makeAll?_inverses {rs : List Replacement} {source result : String}
    (made : makeAll? rs source = some result) :
    makeAll? (inverses source rs) result = some source := by
  induction rs generalizing source with
  | nil => exact congrArg some (Option.some.inj made).symm
  | cons r rest ih =>
    obtain ⟨next, first, later⟩ := makeAll?_cons_eq_some_iff.mp made
    have back : makeAll? [r.inverse source] next = some source :=
      makeAll?_cons_eq_some_iff.mpr ⟨source, make?_inverse first, rfl⟩
    rw [inverses, first, Option.getD_some, makeAll?_append, ih later, Option.bind_some, back]

end Replacement

namespace Buffer

/-- The buffer does not refuse the replacement, whatever the engine then answers. -/
def Accepts (b : Buffer) (r : Replacement) : Prop :=
  ∀ e start oldEnd length,
    (b.splice e r.start r.oldEnd r.added).1 ≠ .error (.invalidEdit start oldEnd length)

/-- Each of the replacements is accepted if those in front of it have been made. -/
def AcceptsAll (b : Buffer) : List Replacement → Prop
  | [] => True
  | r :: rest => b.Accepts r ∧ ∀ e parts next,
    b.splice e r.start r.oldEnd r.added = (.ok parts, next) → next.AcceptsAll rest

/-- Replacements that have all been made, one after another, and the buffer that they led to. -/
inductive Made : Buffer → List (Engine × Replacement) → Buffer → Prop
  | nil (b : Buffer) : Made b [] b
  | cons {b next last : Buffer} {e : Engine} {r : Replacement} {parts : List ChangedPart}
      {rest : List (Engine × Replacement)}
      (first : b.splice e r.start r.oldEnd r.added = (.ok parts, next))
      (later : Made next rest last) : Made b ((e, r) :: rest) last

theorem accepts_iff {b : Buffer} {r : Replacement} :
    b.Accepts r ↔ (r.make? b.source).isSome := by
  rw [Replacement.isSome_make?_iff]
  constructor
  · intro accepted
    by_contra unfit
    exact accepted hurried _ _ _ (congrArg Prod.fst (splice_of_unfit unfit hurried r.added))
  · intro fit e start oldEnd length
    obtain ⟨cut, found⟩ := Text.Cut.exists_at?_iff.mpr fit
    rw [splice_of_cut found]
    cases e.parse b.parser ⟨String.ofList (cut.fill r.added.toList),
        some (b.tree, TextEdit.ofCut cut r.added.toList)⟩ with
    | none => exact fun same => b.gaveUp_ne_invalidEdit _ _ _ _ (Except.error.inj same)
    | some tree => exact fun same => by cases same

theorem source_of_ok {b next : Buffer} {e : Engine} {r : Replacement} {parts : List ChangedPart}
    (made : b.splice e r.start r.oldEnd r.added = (.ok parts, next)) :
    r.make? b.source = some next.source := by
  cases found : Text.Cut.at? b.source.toList r.start r.oldEnd with
  | none =>
    rw [splice_of_unfit (Text.Cut.at?_eq_none_iff.mp found)] at made
    cases made
  | some cut =>
    rw [splice_of_cut found] at made
    rw [Replacement.make?, found, Option.map_some]
    cases given : e.parse b.parser ⟨String.ofList (cut.fill r.added.toList),
        some (b.tree, TextEdit.ofCut cut r.added.toList)⟩ with
    | none =>
      rw [given] at made
      cases made
    | some tree =>
      rw [given] at made
      cases made
      rfl

theorem acceptsAll_of_makeAll? {b : Buffer} {rs : List Replacement} {result : String}
    (fit : Replacement.makeAll? rs b.source = some result) : b.AcceptsAll rs := by
  induction rs generalizing b with
  | nil => trivial
  | cons r rest ih =>
    obtain ⟨text, first, later⟩ := Replacement.makeAll?_cons_eq_some_iff.mp fit
    refine ⟨accepts_iff.mpr (Option.isSome_of_eq_some first), fun e parts next made => ih ?_⟩
    rw [source_of_ok made, Option.some.injEq] at first
    rwa [first]

theorem Made.makeAll? {b last : Buffer} {rs : List (Engine × Replacement)}
    (made : b.Made rs last) :
    Replacement.makeAll? (rs.map Prod.snd) b.source = some last.source := by
  induction made with
  | nil b => rfl
  | cons first later ih =>
    exact Replacement.makeAll?_cons_eq_some_iff.mpr ⟨_, source_of_ok first, ih⟩

theorem Made.source_eq {b last : Buffer} {us : List (Engine × Replacement)}
    (made : b.Made us last) {rs : List Replacement} (same : us.map Prod.snd = rs)
    {result : String} (fit : Replacement.makeAll? rs b.source = some result) :
    last.source = result := by
  have after := made.makeAll?
  rw [same, fit] at after
  exact (Option.some.inj after).symm

theorem Made.append {b next last : Buffer} {rs ss : List (Engine × Replacement)}
    (first : b.Made rs next) (later : next.Made ss last) : b.Made (rs ++ ss) last := by
  induction first with
  | nil b => exact later
  | cons here _ ih => exact .cons here (ih later)

/-- A session of replacements changes neither the path nor the timeout, and keeps the tree that of
the source. -/
theorem Made.kept {treeOf : String → Node} {b last : Buffer}
    {rs : List (Engine × Replacement)} (made : b.Made rs last) {path : String}
    {timeout : Option Duration} (settled : b.Settled path timeout)
    (coherent : b.Coherent treeOf) (faithful : ∀ p ∈ rs, p.1.Faithful treeOf) :
    last.Settled path timeout ∧ last.Coherent treeOf := by
  induction made with
  | nil b => exact ⟨settled, coherent⟩
  | cons first later ih =>
    next b next last e r parts rest =>
    have after : (b.step e (.splice r.start r.oldEnd r.added)).2 = next :=
      congrArg Prod.snd first
    have settledNext := settled.step e (.splice r.start r.oldEnd r.added)
    have coherentNext := coherent.step settled (faithful _ List.mem_cons_self)
      (.splice r.start r.oldEnd r.added)
    rw [after] at settledNext coherentNext
    exact ih settledNext coherentNext fun p member => faithful p (List.mem_cons_of_mem _ member)

theorem Reached.settled {treeOf : String → Node} {now : Buffer} (reached : Reached treeOf now) :
    ∃ path timeout, now.Settled path timeout := by
  obtain ⟨first, path, source, b, steps, _, opened, _, rfl⟩ := reached
  exact ⟨path, _, (settled_ofSource opened).run steps⟩

theorem Settled.eq_of_source {treeOf : String → Node} {a b : Buffer} {path : String}
    {timeout : Option Duration} (left : a.Settled path timeout) (right : b.Settled path timeout)
    (coherent : a.Coherent treeOf) (also : b.Coherent treeOf) (same : a.source = b.source) :
    a = b := by
  have trees : a.tree = b.tree := by rw [coherent, also, same]
  have paths : a.path = b.path := left.path.trans right.path.symm
  have parsers : a.parser = b.parser := left.parser.trans right.parser.symm
  cases a
  cases b
  cases paths
  cases same
  cases trees
  cases parsers
  rfl

/-- From one buffer, replacements that lead to the same source lead to the same buffer. -/
theorem Reached.same_of_made {treeOf : String → Node} {b left right : Buffer}
    (reached : Reached treeOf b) {ls rs : List (Engine × Replacement)} (toLeft : b.Made ls left)
    (toRight : b.Made rs right) (faithful : ∀ p ∈ ls ++ rs, p.1.Faithful treeOf)
    (same : left.source = right.source) : left = right ∧ left.Alike right := by
  obtain ⟨path, timeout, settled⟩ := reached.settled
  obtain ⟨leftSettled, leftCoherent⟩ := toLeft.kept settled reached.coherent
    fun p member => faithful p (List.mem_append_left _ member)
  obtain ⟨rightSettled, rightCoherent⟩ := toRight.kept settled reached.coherent
    fun p member => faithful p (List.mem_append_right _ member)
  exact ⟨leftSettled.eq_of_source rightSettled leftCoherent rightCoherent same,
    leftCoherent.alike rightCoherent same⟩

end Buffer
end SyntaxReport
