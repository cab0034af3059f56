/- Which kind is found by a name, where the engine follows a table of kinds: the one with that name,
unless the name is taken for that of the error kind. -/
import Mathlib.Data.List.Infix
import SyntaxReport.Language.Swift

namespace SyntaxReport.Language

/-- The proper beginnings of the error kind's name. -/
def errorBeginnings : List String := ["", "E", "ER", "ERR", "ERRO"]

/-- A null character ends the name for the engine. -/
def EndsAsError (name : String) : Prop := errorName.toList ++ ['\x00'] <+: name.toList

/-- A name that is taken for that of the error kind. -/
def TakenForError (name : String) : Prop :=
  name ∈ errorBeginnings ∨ name = errorName ∨ EndsAsError name

theorem comparesAsError_iff {name : String} : comparesAsError name = true ↔ TakenForError name := by
  have beginnings :
      errorName.toList.inits = (errorBeginnings ++ [errorName]).map String.toList := by
    decide
  rw [comparesAsError, Bool.or_eq_true, List.isPrefixOf_iff_prefix, List.isPrefixOf_iff_prefix,
    ← List.mem_inits, beginnings, List.mem_map_of_injective fun _ _ => String.toList_injective,
    List.mem_append, List.mem_singleton, or_assoc]
  rfl

/-- A name that the engine compares as a whole. It counts the bytes of a name with 32 bits. -/
structure Plain (name : String) : Prop where
  nullless : '\x00' ∉ name.toList
  short : name.utf8ByteSize < UInt32.size

/-- A question that is answered with another kind than it asks for. -/
def Mistaken (name : String) (named : Bool) : Prop :=
  name ∈ errorBeginnings ∨ name = errorName ∧ named = false ∨ EndsAsError name

theorem mistaken_iff {name : String} {named : Bool} :
    Mistaken name named ↔ TakenForError name ∧ ¬ (name = errorName ∧ named = true) := by
  have proper : errorName ∉ errorBeginnings := by decide
  have longer : ¬ EndsAsError errorName := by
    intro ends
    exact absurd ends.length_le (by decide)
  constructor
  · rintro (begins | ⟨rfl, rfl⟩ | ends)
    · refine ⟨.inl begins, ?_⟩
      rintro ⟨rfl, _⟩
      exact proper begins
    · exact ⟨.inr (.inl rfl), fun same => Bool.false_ne_true same.2⟩
    · refine ⟨.inr (.inr ends), ?_⟩
      rintro ⟨rfl, _⟩
      exact longer ends
  · rintro ⟨begins | rfl | ends, other⟩
    · exact .inl begins
    · exact .inr (.inl ⟨rfl, eq_false_of_ne_true fun same => other ⟨rfl, same⟩⟩)
    · exact .inr (.inr ends)

/-- What the engine's answers have to do with a table of kinds. Nothing is known of names with
null characters that are not taken for the error kind's. -/
structure Follows (l : Language) (kinds : List NodeKind) : Prop where
  taken : ∀ name named, TakenForError name → l.kindNumber name named = errorNumber
  number : ∀ name named, Plain name → ¬ TakenForError name →
    l.kindNumber name named = .ofNat (rowNumber kinds name named)
  error : l.kindName? errorNumber = some errorName ∧ l.kindNamed errorNumber = true
  innerError : l.kindName? innerErrorNumber = some "_ERROR" ∧ l.kindNamed innerErrorNumber = false
  row : ∀ number, number ≠ errorNumber → number ≠ innerErrorNumber →
    l.kindName? number = (kinds[number.toNat]?).map (·.name) ∧
      l.kindNamed number = (kinds[number.toNat]?).any (·.named)

/-- A table that leaves the numbers of the error kinds free, in which the first row is found by no
name, and whose rows stand only for rows that answer for the same name. -/
structure Regular (kinds : List NodeKind) : Prop where
  free : kinds.length ≤ innerErrorNumber.toNat
  first : (kinds[0]?).all (!·.visible)
  others : ∀ kind ∈ kinds, kind.other.all fun other =>
    (kinds[other]?).any (·.answers kind.name kind.named)

theorem follows_ofTables (version : Nat) (kinds : List NodeKind) (fields : List String) :
    (ofTables version kinds fields).Follows kinds where
  taken _ _ taken := if_pos (comparesAsError_iff.mpr taken)
  number _ _ _ other := if_neg (mt comparesAsError_iff.mp other)
  error := ⟨rfl, rfl⟩
  innerError := ⟨rfl, rfl⟩
  row number one two := by
    refine ⟨?_, ?_⟩
    · change (if _ then _ else if _ then _ else _) = _
      rw [if_neg one, if_neg two]
    · change (if _ then _ else if _ then _ else _) = _
      rw [if_neg one, if_neg two]

theorem NodeKind.answers_iff {k : NodeKind} {name : String} {named : Bool} :
    k.answers name named = true ↔ k.visible = true ∧ k.name = name ∧ k.named = named := by
  simp [NodeKind.answers, and_assoc]

theorem numberOf?_eq_some_iff {l : Language} {name : String} {named : Bool} {number : UInt16} :
    l.numberOf? name named = some number ↔ l.kindNumber name named = number ∧ number ≠ 0 := by
  unfold numberOf?
  constructor
  · intro found
    obtain ⟨some_number, same⟩ := Option.ite_none_left_eq_some.mp found
    cases same
    exact ⟨rfl, some_number⟩
  · rintro ⟨rfl, some_number⟩
    exact if_neg some_number

section Rows

variable {kinds : List NodeKind}

/-- The number that is given is that of a row that answers, unless no row does. -/
theorem row_of_rowNumber (regular : Regular kinds) (name : String) (named : Bool) :
    (rowNumber kinds name named = 0 ∧ ∀ kind ∈ kinds, kind.answers name named = false) ∨
      ∃ kind, kinds[rowNumber kinds name named]? = some kind ∧ kind.answers name named = true := by
  unfold rowNumber
  split
  · next row found =>
    right
    obtain ⟨less, answers, _⟩ := List.findIdx?_eq_some_iff_getElem.mp found
    rw [List.getElem?_eq_getElem less]
    cases other : kinds[row].other with
    | none => exact ⟨kinds[row], by simp [other], answers⟩
    | some number =>
      have stands := regular.others kinds[row] (List.getElem_mem less)
      rw [other] at stands
      obtain ⟨kind, there, same⟩ := (Option.any_eq_true _ _).mp stands
      obtain ⟨_, rfl, rfl⟩ := NodeKind.answers_iff.mp answers
      exact ⟨kind, by simp [other, there], same⟩
  · next none => exact .inl ⟨rfl, List.findIdx?_eq_none_iff.mp none⟩

theorem rowNumber_lt (regular : Regular kinds) (name : String) (named : Bool) :
    rowNumber kinds name named < innerErrorNumber.toNat := by
  obtain ⟨zero, _⟩ | ⟨kind, there, _⟩ := row_of_rowNumber regular name named
  · rw [zero]
    decide
  · exact Nat.lt_of_lt_of_le (List.getElem?_eq_some_iff.mp there).1 regular.free

end Rows

section Follows

variable {l : Language} {kinds : List NodeKind} {name : String} {named : Bool} {number : UInt16}

theorem Follows.numberOf?_of_taken (follows : l.Follows kinds) (taken : TakenForError name)
    (named : Bool) : l.numberOf? name named = some errorNumber :=
  numberOf?_eq_some_iff.mpr ⟨follows.taken name named taken, by decide⟩

/-- Any other name is answered from the table, with none only where no row answers for it. -/
theorem Follows.numberOf?_cases (follows : l.Follows kinds) (regular : Regular kinds)
    (plain : Plain name) (other : ¬ TakenForError name) (named : Bool) :
    (l.numberOf? name named = none ∧ ∀ kind ∈ kinds, kind.answers name named = false) ∨
      ∃ number kind, l.numberOf? name named = some number ∧ number.toNat < innerErrorNumber.toNat ∧
        kinds[number.toNat]? = some kind ∧ kind.answers name named = true := by
  have given := follows.number name named plain other
  have less : rowNumber kinds name named < innerErrorNumber.toNat :=
    rowNumber_lt regular name named
  have small : (UInt16.ofNat (rowNumber kinds name named)).toNat = rowNumber kinds name named :=
    UInt16.toNat_ofNat_of_lt' (Nat.lt_trans less (by decide))
  obtain ⟨zero, nowhere⟩ | ⟨kind, there, answers⟩ := row_of_rowNumber regular name named
  · left
    refine ⟨?_, nowhere⟩
    rw [numberOf?, given, zero]
    rfl
  · right
    refine ⟨_, kind, numberOf?_eq_some_iff.mpr ⟨given, ?_⟩, by rwa [small], by rwa [small], answers⟩
    intro none
    have zero : rowNumber kinds name named = 0 := by
      rw [← small, none]
      rfl
    rw [zero] at there
    have first := regular.first
    rw [there, Option.all_some, (NodeKind.answers_iff.mp answers).1] at first
    cases first

/-- The rows are told by their numbers. -/
theorem Follows.kind_of_row (follows : l.Follows kinds) {kind : NodeKind}
    (less : number.toNat < innerErrorNumber.toNat) (there : kinds[number.toNat]? = some kind) :
    l.kindName? number = some kind.name ∧ l.kindNamed number = kind.named := by
  have one : number ≠ errorNumber := by
    rintro rfl
    exact absurd less (by decide)
  have two : number ≠ innerErrorNumber := by
    rintro rfl
    exact absurd less (Nat.lt_irrefl _)
  obtain ⟨named, kindNamed⟩ := follows.row number one two
  rw [named, kindNamed, there]
  exact ⟨rfl, rfl⟩

end Follows

/-- Where the engine follows a table, a name finds a kind that bears it and is named or not as
asked, and it finds one exactly where a visible row bears it. Among names without null characters
only eleven questions go wrong: the proper beginnings of the error kind's name, and that name
asked for as a token. Like the names in which a null character comes behind that of the error
kind, they are answered with the number of the error kind. -/
theorem numberOf?_sound_iff {l : Language} {kinds : List NodeKind} (follows : l.Follows kinds)
    (regular : Regular kinds) {name : String} (compared : Plain name ∨ TakenForError name)
    (named : Bool) :
    ((∀ number, l.numberOf? name named = some number →
        l.kindName? number = some name ∧ l.kindNamed number = named) ↔
      ¬ Mistaken name named) ∧
    (Mistaken name named → l.numberOf? name named = some errorNumber) ∧
    (¬ Mistaken name named →
      (∀ number, l.kindName? number = some name → l.kindNamed number ≠ named) →
      l.numberOf? name named = none) ∧
    (¬ TakenForError name →
      (l.numberOf? name named = none ↔ ∀ kind ∈ kinds, kind.answers name named = false)) := by
  have sound (right : ¬ Mistaken name named) (number : UInt16)
      (found : l.numberOf? name named = some number) :
      l.kindName? number = some name ∧ l.kindNamed number = named := by
    by_cases taken : TakenForError name
    · obtain ⟨rfl, rfl⟩ : name = errorName ∧ named = true := by
        by_contra other
        exact right (mistaken_iff.mpr ⟨taken, other⟩)
      rw [follows.numberOf?_of_taken taken] at found
      cases found
      exact follows.error
    · have plain := compared.resolve_right taken
      obtain ⟨none, _⟩ | ⟨_, kind, given, less, there, answers⟩ :=
        follows.numberOf?_cases regular plain taken named
      · cases none.symm.trans found
      · cases given.symm.trans found
        obtain ⟨_, rfl, rfl⟩ := NodeKind.answers_iff.mp answers
        exact follows.kind_of_row less there
  refine ⟨⟨?_, sound⟩, ?_, ?_, ?_⟩
  · intro each wrong
    obtain ⟨taken, other⟩ := mistaken_iff.mp wrong
    obtain ⟨same, alike⟩ := each errorNumber (follows.numberOf?_of_taken taken named)
    rw [follows.error.1] at same
    rw [follows.error.2] at alike
    exact other ⟨(Option.some_inj.mp same).symm, alike.symm⟩
  · intro wrong
    exact follows.numberOf?_of_taken (mistaken_iff.mp wrong).1 named
  · intro right nowhere
    apply Option.eq_none_iff_forall_ne_some.mpr
    intro number found
    obtain ⟨same, alike⟩ := sound right number found
    exact nowhere number same alike
  · intro other
    have plain := compared.resolve_right other
    obtain ⟨none, nowhere⟩ | ⟨_, kind, given, _, there, answers⟩ :=
      follows.numberOf?_cases regular plain other named
    · exact iff_of_true none nowhere
    · refine iff_of_false (by simp [given]) fun nowhere => ?_
      cases answers.symm.trans (nowhere kind (List.mem_of_getElem? there))

theorem regular_swift_kinds : Regular Swift.kinds where
  free := by decide +kernel
  first := by decide +kernel
  others := by decide +kernel

/-- A name of two rows, of which the first stands for the second. -/
theorem numberOf?_value_arguments :
    swift.Follows Swift.kinds ∧ Regular Swift.kinds ∧ Plain "value_arguments" ∧
      ∃ number, swift.numberOf? "value_arguments" true = some number ∧
        swift.kindName? number = some "value_arguments" ∧ swift.kindNamed number = true := by
  have follows : swift.Follows Swift.kinds := follows_ofTables 14 Swift.kinds Swift.fields
  have plain : Plain "value_arguments" := ⟨by decide, by decide⟩
  have right : ¬ Mistaken "value_arguments" true := by
    unfold Mistaken EndsAsError
    decide
  obtain ⟨sound, _, _, nowhere⟩ :=
    numberOf?_sound_iff follows regular_swift_kinds (.inl plain) true
  have other : ¬ TakenForError "value_arguments" := fun taken =>
    right (mistaken_iff.mpr ⟨taken, by decide⟩)
  refine ⟨follows, regular_swift_kinds, plain, ?_⟩
  cases found : swift.numberOf? "value_arguments" true with
  | some number => exact ⟨number, rfl, sound.mpr right number found⟩
  | none =>
    have row : .rule "value_arguments" ∈ Swift.kinds := by decide +kernel
    cases (nowhere other).mp found _ row

/-- No kind has the empty name, and yet that name finds one. -/
theorem numberOf?_empty_name :
    swift.numberOf? "" true = some errorNumber ∧ swift.kindName? errorNumber = some "ERROR" ∧
      ¬ ∀ (name : String) (named : Bool) (number : UInt16),
        swift.numberOf? name named = some number →
          swift.kindName? number = some name ∧ swift.kindNamed number = named := by
  have follows : swift.Follows Swift.kinds := follows_ofTables 14 Swift.kinds Swift.fields
  have found : swift.numberOf? "" true = some errorNumber :=
    follows.numberOf?_of_taken (.inl List.mem_cons_self) true
  refine ⟨found, rfl, ?_⟩
  intro sound
  obtain ⟨same, _⟩ := sound "" true errorNumber found
  exact absurd same (by decide)

end SyntaxReport.Language
