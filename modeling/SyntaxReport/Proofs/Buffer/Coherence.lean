/- Whatever a session does, its tree is that of its source, and no query tells how it came there. -/
import SyntaxReport.Proofs.Buffer.Session
import SyntaxReport.Report.Attempt

namespace SyntaxReport

/-- An earlier tree that is the tree of its text, told together with the edit from that text to
the one to parse. -/
def ParseRequest.Sound (treeOf : String → Node) (r : ParseRequest) : Prop :=
  ∀ tree change, r.earlier = some (tree, change) → ∃ (cut : Text.Cut) (added : List Char),
    tree = treeOf (String.ofList (cut.fill cut.removed)) ∧
      change = TextEdit.ofCut cut added ∧ r.source = String.ofList (cut.fill added)

/-- With nothing to resume, the engine gives the tree of a text or gives up: an earlier tree and
the limit make no other difference. -/
def Engine.Faithful (treeOf : String → Node) (e : Engine) : Prop :=
  ∀ limit r tree, r.Sound treeOf → e.parse (.new limit) r = some tree → tree = treeOf r.source

theorem ParseRequest.Sound.of_none (treeOf : String → Node) (source : String) :
    ParseRequest.Sound treeOf ⟨source, none⟩ := by
  intro tree change h
  cases h

namespace Buffer

def Coherent (treeOf : String → Node) (b : Buffer) : Prop := b.tree = treeOf b.source

theorem Coherent.sound {treeOf : String → Node} {b : Buffer} (coherent : b.Coherent treeOf)
    {s : Step} {r : ParseRequest} (asked : b.request? s = some r) : r.Sound treeOf := by
  cases s with
  | splice start oldEnd added =>
    obtain ⟨cut, found, rfl⟩ := Option.map_eq_some_iff.mp asked
    intro tree change h
    cases h
    refine ⟨cut, added.toList, ?_, rfl, rfl⟩
    rw [← (Text.Cut.at?_eq_some_iff.mp found).1, String.ofList_toList]
    exact coherent
  | replaceAll source =>
    cases asked
    exact .of_none treeOf source
  | _ => cases asked

/-- Every outcome of a step, failures included, leaves the tree that of the source. -/
theorem Coherent.step {treeOf : String → Node} {b : Buffer} (coherent : b.Coherent treeOf)
    {path : String} {timeout : Option Duration} (settled : b.Settled path timeout) {e : Engine}
    (faithful : e.Faithful treeOf) (s : Step) : (b.step e s).2.Coherent treeOf := by
  cases b.outcome e s with
  | parsed r tree asked given passed after =>
    rw [settled.parser] at given
    rw [after]
    exact faithful _ r tree (coherent.sound asked) given
  | gaveUp r asked given failed after =>
    rw [after]
    exact coherent
  | refused start oldEnd added asked unfit failed after =>
    rw [after]
    exact coherent
  | unparsed asked passed after =>
    rw [after]
    cases s.timeout? <;> exact coherent

theorem Coherent.run {treeOf : String → Node} {b : Buffer} (coherent : b.Coherent treeOf)
    {path : String} {timeout : Option Duration} (settled : b.Settled path timeout)
    {steps : List (Engine × Step)} (faithful : ∀ p ∈ steps, p.1.Faithful treeOf) :
    (b.run steps).2.Coherent treeOf := by
  induction steps generalizing b timeout with
  | nil => exact coherent
  | cons first rest ih =>
    obtain ⟨e, s⟩ := first
    exact ih (coherent.step settled (faithful _ List.mem_cons_self) s) (settled.step e s)
      fun p member => faithful p (List.mem_cons_of_mem _ member)

theorem coherent_ofSource {treeOf : String → Node} {e : Engine} (faithful : e.Faithful treeOf)
    {path source : String} {b : Buffer} (opened : ofSource e path source = .ok b) :
    b.Coherent treeOf := by
  obtain ⟨tree, given, rfl⟩ := ofSource_eq_ok_iff.mp opened
  exact faithful 0 _ tree (.of_none treeOf source) given

/-- A buffer that some session under faithful engines has led to. -/
def Reached (treeOf : String → Node) (now : Buffer) : Prop :=
  ∃ (first : Engine) (path source : String) (b : Buffer) (steps : List (Engine × Step)),
    first.Faithful treeOf ∧ ofSource first path source = .ok b ∧
      (∀ p ∈ steps, p.1.Faithful treeOf) ∧ (b.run steps).2 = now

theorem Reached.coherent {treeOf : String → Node} {now : Buffer} (reached : Reached treeOf now) :
    now.Coherent treeOf := by
  obtain ⟨first, path, source, b, steps, faithful, opened, later, rfl⟩ := reached
  exact (coherent_ofSource faithful opened).run (settled_ofSource opened) later

/-- Buffers that no query on faults, diagnostics or the outline tells apart. -/
structure Alike (a b : Buffer) : Prop where
  hasFaults : a.hasFaults = b.hasFaults
  diagnostics : ∀ limit, a.diagnostics limit = b.diagnostics limit
  outline : ∀ docs, a.outline docs = b.outline docs

theorem Coherent.alike {treeOf : String → Node} {a b : Buffer} (left : a.Coherent treeOf)
    (right : b.Coherent treeOf) (same : a.source = b.source) : a.Alike b := by
  have trees : a.tree = b.tree := by rw [left, right, same]
  refine ⟨?_, fun limit => ?_, fun docs => ?_⟩
  · rw [hasFaults, hasFaults, trees]
  · rw [diagnostics, diagnostics, trees, same]
  · rw [outline, outline, trees, same]

/-- A session answers as its source alone decides: like a buffer opened on that source, like a
report on it, and like any other session that has come to it. -/
theorem history_independent {treeOf : String → Node} {now : Buffer}
    (reached : Reached treeOf now) :
    now.tree = treeOf now.source ∧
      (∀ e path, e.Faithful treeOf → (e.parse (.new 0) ⟨now.source, none⟩).isSome →
        ∃ fresh, ofSource e path now.source = .ok fresh ∧ fresh.source = now.source ∧
          fresh.Alike now) ∧
      (∀ (e : Engine) (o : Options) path, e.Faithful treeOf →
        (e.parse o.parser ⟨now.source, none⟩).isSome →
        o.rejectFaults = false → o.includeOutline = true →
        ∃ f, o.reportSource e now.source path = .ok f ∧ f.hasFaults = now.hasFaults ∧
          f.diagnostics = now.diagnostics o.maxDiagnostics ∧
          f.outline = now.outline o.includeDocs) ∧
      ∀ other, Reached treeOf other → other.source = now.source → other.Alike now := by
  have coherent := reached.coherent
  refine ⟨coherent, ?_, ?_, fun other there same => there.coherent.alike coherent same⟩
  · intro e path faithful answered
    obtain ⟨tree, given⟩ := Option.isSome_iff_exists.mp answered
    have opened : ofSource e path now.source =
        .ok { path, source := now.source, tree, parser := .new 0 } :=
      ofSource_eq_ok_iff.mpr ⟨tree, given, rfl⟩
    exact ⟨_, opened, rfl, (coherent_ofSource faithful opened).alike coherent rfl⟩
  · intro e o path faithful answered lenient outlined
    obtain ⟨tree, given⟩ := Option.isSome_iff_exists.mp answered
    have same : tree = now.tree :=
      (faithful _ _ tree (.of_none treeOf now.source) given).trans coherent.symm
    subst same
    simp only [Options.reportSource, Parser.parse, given, Options.reportTree, lenient,
      Bool.false_and, Bool.false_eq_true, if_false, Options.outlineOf, outlined, if_true]
    exact ⟨_, rfl, rfl, rfl, rfl⟩

theorem hurried_faithful : hurried.Faithful commentTree := by
  intro limit r tree _ given
  simp only [hurried, Parser.new, Option.getD_none, Option.ite_none_left_eq_some,
    Option.some.injEq] at given
  exact given.2.symm

theorem reached_commentBuffer : Reached commentTree commentBuffer := by
  refine ⟨hurried, "a.swift", "", blankBuffer, hurriedSession, hurried_faithful, rfl, ?_, rfl⟩
  intro p member
  have same : p.1 = hurried := by
    simp only [hurriedSession, List.mem_cons, List.not_mem_nil, or_false] at member
    rcases member with rfl | rfl | rfl | rfl | rfl <;> rfl
  rw [same]
  exact hurried_faithful

/-- After the failures of the session, a fresh buffer and a brief limit show the same. -/
theorem commentBuffer_like_fresh :
    Reached commentTree commentBuffer ∧
      (∃ fresh, ofSource hurried "b.swift" "// a" = .ok fresh ∧ fresh.source = "// a" ∧
        fresh.Alike commentBuffer) ∧
      ∃ f, Options.standard.reportSource hurried "// a" "b.swift" = .ok f ∧
        f.hasFaults = commentBuffer.hasFaults ∧
        f.diagnostics = commentBuffer.diagnostics 100 ∧
        f.outline = commentBuffer.outline true := by
  obtain ⟨_, fresh, report, _⟩ := history_independent reached_commentBuffer
  exact ⟨reached_commentBuffer, fresh hurried "b.swift" hurried_faithful rfl,
    report hurried .standard "b.swift" hurried_faithful rfl rfl rfl⟩

end Buffer
end SyntaxReport
