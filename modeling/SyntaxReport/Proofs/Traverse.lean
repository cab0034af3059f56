/- Lists whose parts are read or walked one after another, each of which may fail. -/
namespace SyntaxReport

theorem mapM_congr {m : Type → Type} [Monad m] [LawfulMonad m] {α β : Type} {f g : α → m β}
    {xs : List α} (each : ∀ x ∈ xs, f x = g x) : xs.mapM f = xs.mapM g := by
  induction xs with
  | nil => rfl
  | cons x rest ih =>
    have here := each x List.mem_cons_self
    have later := ih fun other member => each other (List.mem_cons_of_mem x member)
    rw [List.mapM_cons, List.mapM_cons, here, later]

theorem mapM_map {α β : Type} {f : β → Option α} {g : α → β} {items : List α}
    (each : ∀ a ∈ items, f (g a) = some a) : (items.map g).mapM f = some items := by
  induction items with
  | nil => rfl
  | cons a rest ih =>
    have here := each a List.mem_cons_self
    have later := ih fun b member => each b (List.mem_cons_of_mem a member)
    rw [List.map_cons, List.mapM_cons, here, later]
    rfl

theorem exists_of_mapM {α β : Type} {f : β → Option α} {js : List β} {items : List α}
    (read : js.mapM f = some items) : ∀ a ∈ items, ∃ j ∈ js, f j = some a := by
  induction js generalizing items with
  | nil =>
    cases read
    intro a member
    cases member
  | cons j rest ih =>
    rw [List.mapM_cons] at read
    obtain ⟨first, here, read⟩ := Option.bind_eq_some_iff.mp read
    obtain ⟨later, tail, same⟩ := Option.bind_eq_some_iff.mp read
    cases same
    intro a member
    rcases List.mem_cons.mp member with rfl | behind
    · exact ⟨j, List.mem_cons_self, here⟩
    · obtain ⟨i, among, found⟩ := ih tail a behind
      exact ⟨i, List.mem_cons_of_mem j among, found⟩

/-- Parts that come out right are put together, unless one of them fails. -/
theorem mapM_cases {α β ε : Type} {f : α → Except ε β} {g : α → β} {P : ε → Prop} {xs : List α}
    (each : ∀ x ∈ xs, f x = .ok (g x) ∨ ∃ e, P e ∧ f x = .error e) :
    xs.mapM f = .ok (xs.map g) ∨ ∃ e, P e ∧ xs.mapM f = .error e := by
  induction xs with
  | nil => exact .inl rfl
  | cons x rest ih =>
    rcases each x List.mem_cons_self with here | ⟨e, fails, here⟩
    · rcases ih fun other member => each other (List.mem_cons_of_mem x member) with
        later | ⟨e, fails, later⟩
      · left
        rw [List.mapM_cons, here, later]
        rfl
      · refine .inr ⟨e, fails, ?_⟩
        rw [List.mapM_cons, here, later]
        rfl
    · refine .inr ⟨e, fails, ?_⟩
      rw [List.mapM_cons, here]
      rfl

end SyntaxReport
