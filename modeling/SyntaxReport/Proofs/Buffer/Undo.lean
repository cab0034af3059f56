/- Every edit that was made can be taken back, and so can every session of them. -/
import SyntaxReport.Proofs.Buffer.Replacement

namespace SyntaxReport.Buffer

/-- Replacements that take back what has led from `b` to `now`. -/
structure TakesBack (b now : Buffer) (rs : List (Engine × Replacement))
    (back : List Replacement) : Prop where
  accepted : now.AcceptsAll back
  /-- Whichever engines make them, the source is the old one. -/
  source : ∀ us restored, us.map Prod.snd = back → now.Made us restored →
    restored.source = b.source
  /-- In a session of faithful engines all of the buffer is as it was, not the source alone. -/
  whole : ∀ us restored treeOf, us.map Prod.snd = back → now.Made us restored →
    Reached treeOf b → (∀ p ∈ rs ++ us, p.1.Faithful treeOf) →
      restored = b ∧ restored.Alike b

theorem takesBack_inverses {b now : Buffer} {rs : List (Engine × Replacement)}
    (made : b.Made rs now) :
    b.TakesBack now rs (Replacement.inverses b.source (rs.map Prod.snd)) := by
  have back := Replacement.makeAll?_inverses made.makeAll?
  refine ⟨acceptsAll_of_makeAll? back, fun us restored same undone => undone.source_eq same back,
    ?_⟩
  intro us restored treeOf same undone reached faithful
  refine reached.same_of_made (made.append undone) (.nil b) ?_ (undone.source_eq same back)
  rwa [List.append_nil]

/-- The added text of an edit can always be replaced by the bytes that the edit removed, which
leads back to the buffer before it. Edits made one after another are taken back from the last to
the first. -/
theorem undo_restores (b : Buffer) :
    (∀ e r parts now, b.splice e r.start r.oldEnd r.added = (.ok parts, now) →
      ∃ removed, r.inverse b.source = ⟨r.start, r.start + (bytesOf r.added).length, removed⟩ ∧
        bytesOf removed = ((bytesOf b.source).drop r.start).take (r.oldEnd - r.start) ∧
        b.TakesBack now [(e, r)] [r.inverse b.source]) ∧
    ∀ rs now, b.Made rs now →
      b.TakesBack now rs (Replacement.inverses b.source (rs.map Prod.snd)) := by
  constructor
  · intro e r parts now made
    have one : b.Made [(e, r)] now := .cons made (.nil now)
    exact ⟨_, rfl, Replacement.bytesOf_removed (source_of_ok made), takesBack_inverses one⟩
  · intro rs now made
    exact takesBack_inverses made

def accentEdits : List (Engine × Replacement) := [(hurried, ⟨1, 4, "x\n→"⟩), (hurried, ⟨0, 2, ""⟩)]

def accentUndos : List (Engine × Replacement) := [(hurried, ⟨0, 0, "ax"⟩), (hurried, ⟨1, 6, "é\n"⟩)]

theorem reached_accentBuffer : Reached commentTree accentBuffer :=
  ⟨hurried, "a.swift", "aé\nb", accentBuffer, [], hurried_faithful, rfl, by simp, rfl⟩

/-- The buffer with another text, parsed by the engine of the session. -/
def accented (source : String) : Buffer :=
  { accentBuffer with source, tree := commentTree source }

/-- Two edits that overlap are taken back by two others, and each of those is accepted. -/
theorem accentBuffer_restored :
    accentBuffer.splice hurried 1 4 "x\n→" = (.ok [], accented "ax\n→b") ∧
      (accented "ax\n→b").Accepts ⟨1, 6, "é\n"⟩ ∧
      accentBuffer.Made accentEdits (accented "\n→b") ∧
      accentUndos.map Prod.snd =
        Replacement.inverses accentBuffer.source (accentEdits.map Prod.snd) ∧
      (accented "\n→b").AcceptsAll (accentUndos.map Prod.snd) ∧
      ∃ restored, (accented "\n→b").Made accentUndos restored ∧ restored = accentBuffer := by
  have first : accentBuffer.splice hurried 1 4 "x\n→" = (.ok [], accented "ax\n→b") := rfl
  have second : (accented "ax\n→b").splice hurried 0 2 "" = (.ok [], accented "\n→b") := rfl
  have third : (accented "\n→b").splice hurried 0 0 "ax" = (.ok [], accented "ax\n→b") := rfl
  have fourth : (accented "ax\n→b").splice hurried 1 6 "é\n" = (.ok [], accented "aé\nb") := rfl
  have made : accentBuffer.Made accentEdits (accented "\n→b") :=
    .cons first (.cons second (.nil _))
  have undone : (accented "\n→b").Made accentUndos (accented "aé\nb") :=
    .cons third (.cons fourth (.nil _))
  have inverse : (⟨1, 4, "x\n→"⟩ : Replacement).inverse accentBuffer.source = ⟨1, 6, "é\n"⟩ := by
    decide
  have inverses : accentUndos.map Prod.snd =
      Replacement.inverses accentBuffer.source (accentEdits.map Prod.snd) := by
    decide +kernel
  have faithful : ∀ p ∈ accentEdits ++ accentUndos, p.1.Faithful commentTree := by
    intro p member
    have same : p.1 = hurried := by
      simp only [accentEdits, accentUndos, List.cons_append, List.nil_append, List.mem_cons,
        List.not_mem_nil, or_false] at member
      rcases member with rfl | rfl | rfl | rfl <;> rfl
    rw [same]
    exact hurried_faithful
  obtain ⟨_, _, _, one⟩ := (undo_restores accentBuffer).1 hurried ⟨1, 4, "x\n→"⟩ _ _ first
  have back := (undo_restores accentBuffer).2 accentEdits _ made
  have accepted := one.accepted.1
  rw [inverse] at accepted
  refine ⟨first, accepted, made, inverses, inverses ▸ back.accepted, _, undone, ?_⟩
  exact (back.whole accentUndos _ commentTree inverses undone reached_accentBuffer faithful).1

end SyntaxReport.Buffer
