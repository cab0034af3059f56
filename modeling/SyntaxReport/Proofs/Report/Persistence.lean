/- Options are read back from their JSON form with their timeout cut to whole seconds. -/
import SyntaxReport.Proofs.Report.Form
import SyntaxReport.Report.Attempt

namespace SyntaxReport

open Form

namespace Duration

/-- The whole seconds of a span. -/
def whole (d : Duration) : Duration := .ofSeconds d.seconds

theorem whole_ofSeconds (n : Nat) : (ofSeconds n).whole = ofSeconds n := by
  rw [whole, ofSeconds_seconds]

theorem micros_whole (d : Duration) : d.whole.micros = d.seconds * 1000000 := by
  simp only [whole, ofSeconds, micros]
  omega

theorem micros_whole_le (d : Duration) :
    d.whole.micros ≤ d.micros ∧ d.micros < d.whole.micros + 1000000 := by
  rw [micros_whole, micros, seconds]
  omega

end Duration

namespace Parser

/-- A limit falls by less than a second where its timeout is cut to whole seconds. -/
theorem limitOf_whole (timeout : Option Duration) :
    limitOf (timeout.map Duration.whole) ≤ limitOf timeout ∧
      limitOf timeout < limitOf (timeout.map Duration.whole) + 1000000 := by
  cases timeout with
  | none => exact ⟨Nat.le_refl _, by decide⟩
  | some d =>
    have cut := d.micros_whole_le
    simp only [Option.map_some, limitOf]
    omega

theorem limitOf_whole_pos {d : Duration} (long : 1 ≤ d.seconds) : 0 < limitOf (some d.whole) := by
  have bound : 1 < wordBound := by decide
  simp only [limitOf, Duration.micros_whole]
  omega

end Parser

namespace Options

/-- The timeout in whole seconds, the rest as it is. -/
def cut (o : Options) : Options := { o with timeout := o.timeout.map Duration.whole }

theorem write_cut (o : Options) : write o.cut = write o := by
  have seconds : (o.timeout.map Duration.whole).map Duration.seconds =
      o.timeout.map Duration.seconds := by
    cases o.timeout with
    | none => rfl
    | some d => exact congrArg some (Duration.ofSeconds_seconds d.seconds)
  have shape (a : Options) : write a = .obj (keys.zip a.values) := rfl
  rw [shape, shape]
  simp only [values, cut, seconds]

theorem cut_eq_self {o : Options} (whole : ∀ d ∈ o.timeout, ∃ n, d = .ofSeconds n) :
    o.cut = o := by
  have same : o.timeout.map Duration.whole = o.timeout := by
    cases given : o.timeout with
    | none => rfl
    | some d =>
      obtain ⟨n, rfl⟩ := whole d given
      exact congrArg some (Duration.whole_ofSeconds n)
  rw [cut, same]

/-- The numbers are within the range of those that are read, and so are the seconds of the
timeout. -/
structure Countable (o : Options) : Prop where
  maxFileSize : o.maxFileSize < wordBound
  timeout : ∀ d ∈ o.timeout, d.seconds < wordBound
  workers : ∀ n ∈ o.workers, n < wordBound
  maxDiagnostics : o.maxDiagnostics < wordBound

theorem Countable.fits_cut {o : Options} (countable : o.Countable) : o.cut.Fits where
  maxFileSize := countable.maxFileSize
  timeout d member := by
    obtain ⟨given, known, rfl⟩ := Option.map_eq_some_iff.mp member
    exact ⟨given.seconds, countable.timeout given known, rfl⟩
  workers := countable.workers
  maxDiagnostics := countable.maxDiagnostics

theorem ofJson?_write_countable {o : Options} (countable : o.Countable) :
    ofJson? (write o) = some o.cut := by
  rw [← o.write_cut]
  exact ofJson?_write countable.fits_cut

def presets : List Options := [standard, brief, thorough]

/-- A change to a number that can be read. -/
def Change.Countable : Change → Prop
  | .workers value | .maxFileSize value | .maxDiagnostics value => value < wordBound
  | .timeout value => ∀ d ∈ value, d.seconds < wordBound
  | _ => True

/-- Made from a preset by changes. No change takes back a number of workers, so that field is
also set by itself. -/
inductive Assembled : Options → Prop
  | preset {o : Options} (member : o ∈ presets) : Assembled o
  | change {o : Options} (earlier : Assembled o) (c : Change) (countable : c.Countable) :
      Assembled (o.change c)
  | setWorkers {o : Options} (earlier : Assembled o) (workers : Option Nat)
      (countable : ∀ n ∈ workers, n < wordBound) : Assembled { o with workers }

theorem countable_of_mem_presets {o : Options} (member : o ∈ presets) : o.Countable := by
  have standard : standard.Countable := by
    refine ⟨by decide, ?_, ?_, by decide⟩
    · intro d given
      cases given
      decide
    · intro n given
      cases given
  simp only [presets, List.mem_cons, List.not_mem_nil, or_false] at member
  obtain rfl | rfl | rfl := member
  · exact standard
  · exact { standard with }
  · exact { standard with maxDiagnostics := by decide }

theorem Countable.change {o : Options} (countable : o.Countable) {c : Change}
    (next : c.Countable) : (o.change c).Countable := by
  cases c with
  | maxFileSize value => exact { countable with maxFileSize := next }
  | timeout value => exact { countable with timeout := next }
  | maxDiagnostics value => exact { countable with maxDiagnostics := next }
  | workers value =>
    refine { countable with workers := ?_ }
    intro n given
    cases given
    exact next
  | _ => exact { countable with }

theorem Assembled.countable {o : Options} (assembled : o.Assembled) : o.Countable := by
  induction assembled with
  | preset member => exact countable_of_mem_presets member
  | change _ c next ih => exact ih.change next
  | setWorkers _ workers next ih => exact { ih with workers := next }

/-- Options made from a preset are read back with all their settings but the timeout, which is
none where it was none. A timeout of whole seconds comes back as it was. One of at least a second
is cut to whole seconds: it still limits a parse, to less than a second under what it did. Where
a parse was without limit it stays so. -/
theorem assembled_returned {o : Options} (assembled : o.Assembled) :
    ∃ back : Options, ofJson? (write o) = some back ∧
      back = { o with timeout := back.timeout } ∧
      (back.timeout = none ↔ o.timeout = none) ∧
      ((∀ d ∈ o.timeout, ∃ n, d = .ofSeconds n) → back = o) ∧
      (∀ d ∈ o.timeout, 1 ≤ d.seconds →
        back.timeout = some (.ofSeconds d.seconds) ∧ 0 < back.parser.limit ∧
          back.parser.limit ≤ o.parser.limit ∧
          o.parser.limit < back.parser.limit + 1000000) ∧
      (o.parser.limit = 0 → back.parser.limit = 0) := by
  obtain ⟨above, below⟩ := Parser.limitOf_whole o.timeout
  refine ⟨o.cut, ofJson?_write_countable assembled.countable, rfl, Option.map_eq_none_iff,
    cut_eq_self, ?_, ?_⟩
  · intro d given long
    refine ⟨congrArg (Option.map Duration.whole) given, ?_, above, below⟩
    have limited := Parser.limitOf_whole_pos long
    rwa [parser, cut, given]
  · intro unlimited
    exact Nat.eq_zero_of_le_zero (unlimited ▸ above)

/-- The longest timeout that can be counted in microseconds. -/
def patientOptions : Options :=
  (thorough.change (.workers 4)).change (.timeout (some (.ofMicros (wordBound - 1))))

theorem patientOptions_returned :
    patientOptions.Assembled ∧ ∃ back : Options, ofJson? (write patientOptions) = some back ∧
      back.workers = some 4 ∧ back.timeout = some (.ofSeconds 18446744073709) ∧
      patientOptions.parser.limit < back.parser.limit + 1000000 := by
  have assembled : patientOptions.Assembled := by
    have workers : (Change.workers 4).Countable := (by decide : 4 < wordBound)
    refine .change (.change (.preset (by simp [presets])) _ workers) _ ?_
    intro d given
    cases given
    decide
  obtain ⟨back, returned, rest, _, _, long, _⟩ := assembled_returned assembled
  obtain ⟨timeout, _, _, limit⟩ := long _ rfl (by decide)
  exact ⟨assembled, back, returned, by rw [rest]; rfl, timeout, limit⟩

/-- Half a second. -/
def impatientOptions : Options := standard.change (.timeout (some (.ofMicros 500000)))

/-- A timeout of half a second is not returned, and a parse is without limit after it. -/
theorem impatientOptions_not_returned :
    impatientOptions.Assembled ∧ ofJson? (write impatientOptions) ≠ some impatientOptions ∧
      impatientOptions.parser.limit = 500000 ∧
      ∃ back : Options, ofJson? (write impatientOptions) = some back ∧ back.parser.limit = 0 := by
  have assembled : impatientOptions.Assembled := by
    refine .change (.preset (by simp [presets])) _ ?_
    intro d given
    cases given
    decide
  have returned := ofJson?_write_countable assembled.countable
  refine ⟨assembled, ?_, by decide, impatientOptions.cut, returned, by decide⟩
  rw [returned]
  decide

end Options
end SyntaxReport
