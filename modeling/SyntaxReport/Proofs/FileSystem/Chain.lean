/- Chains of the walk's calls, each made by the one before it: how often one real directory is
entered, and how long a chain gets. -/
import Mathlib.Data.List.Nodup
import Mathlib.Data.List.ProdSigma
import SyntaxReport.Proofs.FileSystem.Listing
import SyntaxReport.Proofs.FileSystem.Place

namespace SyntaxReport.FileSystem

open SyntaxReport.Path (join joinAll components ProperName)

variable {fs : FileSystem}

/-- The calls of a walk from a path on, each made by the one before it for a name that its
directory lists. -/
inductive CallChain (fs : FileSystem) : String → List String → Prop
  | last {path : String} (entered : fs.isDirectory path = true) : CallChain fs path [path]
  | call {path name : String} {later : List String} (lists : Lists fs path name)
      (next : CallChain fs (join path name) later) : CallChain fs path (path :: later)

namespace CallChain

variable {path : String} {calls : List String}

theorem exists_tail (chain : CallChain fs path calls) : ∃ later, calls = path :: later := by
  cases chain with
  | last => exact ⟨[], rfl⟩
  | @call _ _ later => exact ⟨later, rfl⟩

theorem entered (chain : CallChain fs path calls) :
    ∀ call ∈ calls, fs.isDirectory call = true := by
  induction chain with
  | last entered =>
    intro call member
    cases List.mem_singleton.mp member
    exact entered
  | call lists _ ih =>
    intro call member
    rcases List.mem_cons.mp member with rfl | later
    · exact lists.isDirectory
    · exact ih call later

theorem placed (chain : CallChain fs path calls) :
    ∀ call ∈ calls, ∃ place ∈ fs.root.places, fs.place? call = some place := by
  intro call member
  obtain ⟨stand, stands⟩ := isDirectory_iff_stand?.mp (chain.entered call member)
  exact ⟨_, (rooted_of_stand? stands).2.mem_places.1, Option.map_eq_some_iff.mpr ⟨_, stands, rfl⟩⟩

theorem leads (chain : CallChain fs path calls) :
    ∀ call ∈ calls, ∃ names, Leads fs path names ∧ call = joinAll path names := by
  induction chain with
  | last =>
    intro call member
    cases List.mem_singleton.mp member
    exact ⟨[], trivial, rfl⟩
  | @call path name _ lists _ ih =>
    intro call member
    rcases List.mem_cons.mp member with rfl | later
    · exact ⟨[], trivial, rfl⟩
    · obtain ⟨names, leads, rfl⟩ := ih call later
      exact ⟨name :: names, ⟨lists, leads⟩, rfl⟩

/-- What each call has to do with the one that it makes, it has to do with all that come later. -/
theorem pairwise {R : String → String → Prop} (trans : ∀ {p q r}, R p q → R q r → R p r)
    (step : ∀ {path name}, Lists fs path name → fs.isDirectory (join path name) = true →
      R path (join path name))
    (chain : CallChain fs path calls) : calls.Pairwise R := by
  induction chain with
  | last => exact List.pairwise_singleton _ _
  | @call path name later lists next ih =>
    obtain ⟨rest, rfl⟩ := next.exists_tail
    have first := step lists (next.entered _ List.mem_cons_self)
    refine List.pairwise_cons.mpr ⟨?_, ih⟩
    intro call member
    rcases List.mem_cons.mp member with rfl | behind
    · exact first
    · exact trans first ((List.pairwise_cons.mp ih).1 call behind)

/-- A name joined to the calls of a chain makes different paths. -/
theorem nodup_join (proper : fs.root.Proper) (chain : CallChain fs path calls) {name : String}
    (named : ProperName name) : (calls.map (join · name)).Nodup := by
  have longer : calls.Pairwise fun p q => (components p).length < (components q).length := by
    refine chain.pairwise Nat.lt_trans fun lists _ => ?_
    rw [Path.components_join lists.somewhere (lists.proper proper), List.length_append]
    exact Nat.lt_succ_self _
  apply List.pairwise_map.mpr
  apply longer.imp_of_mem
  intro p q first second less same
  have somewhere {call : String} (member : call ∈ calls) : call ≠ "" := by
    obtain ⟨stand, stands⟩ := isDirectory_iff_stand?.mp (chain.entered call member)
    exact (followed_of_stand? stands).somewhere
  have parts := congrArg components same
  rw [Path.components_join (somewhere first) named, Path.components_join (somewhere second) named]
    at parts
  rw [List.append_cancel_right parts] at less
  exact Nat.lt_irrefl _ less

end CallChain

/-- The stand of the later of two calls is deeper. -/
def Below (fs : FileSystem) (first later : String) : Prop :=
  ∃ stand other, fs.stand? first = some stand ∧ fs.stand? later = some other ∧
    Deeper stand other

theorem Below.trans {p q r : String} (first : Below fs p q) (second : Below fs q r) :
    Below fs p r := by
  obtain ⟨stand, other, here, there, deeper⟩ := first
  obtain ⟨again, last, same, behind, further⟩ := second
  cases there.symm.trans same
  exact ⟨stand, last, here, behind, deeper.trans further⟩

theorem below_of_lists {path name : String} (proper : fs.root.Proper) (lists : Lists fs path name)
    (entered : fs.isDirectory (join path name) = true) : Below fs path (join path name) := by
  have named := lists.proper proper
  obtain ⟨other, there⟩ := isDirectory_iff_stand?.mp entered
  have reached := stand?_join fs lists.somewhere named (followed_of_stand? there)
  obtain ⟨stand, here, step⟩ := Option.bind_eq_some_iff.mp (reached.symm.trans there)
  exact ⟨stand, other, here, there, deeper_of_reach? named step⟩

/-- So where the later call enters the same place, it comes by more links. -/
theorem Below.linksTo_lt {first later : String} (below : Below fs first later)
    (same : fs.place? first = fs.place? later) : fs.linksTo first < fs.linksTo later := by
  obtain ⟨stand, other, here, there, deeper⟩ := below
  have names : stand.2.names = other.2.names := by
    rw [place?, place?, here, there] at same
    exact Option.some_inj.mp same
  have length : stand.2.length = other.2.length := by
    have lengths := congrArg List.length names
    rwa [Trail.names, Trail.names, List.length_map, List.length_map] at lengths
  have bound := (rooted_of_stand? here).1
  rw [linksTo, linksTo, here, there]
  change linkLimit - stand.1 < linkLimit - other.1
  rcases deeper with fewer | ⟨_, longer⟩
  · omega
  · omega

theorem length_le_of_linksTo {calls : List String}
    (grows : calls.Pairwise fun p q => fs.linksTo p < fs.linksTo q) :
    calls.length ≤ linkLimit + 1 := by
  have distinct : (calls.map fs.linksTo).Nodup :=
    List.pairwise_map.mpr (grows.imp Nat.ne_of_lt)
  have within : calls.map fs.linksTo ⊆ List.range (linkLimit + 1) := by
    intro links member
    obtain ⟨path, _, rfl⟩ := List.mem_map.mp member
    exact List.mem_range.mpr (Nat.lt_succ_of_le (linksTo_le fs path))
  have short := (List.subperm_of_subset distinct within).length_le
  rwa [List.length_map, List.length_range] at short

namespace CallChain

variable {path : String} {calls : List String}

theorem linksTo_lt (proper : fs.root.Proper) (chain : CallChain fs path calls) :
    calls.Pairwise fun p q => fs.place? p = fs.place? q → fs.linksTo p < fs.linksTo q := by
  have deep : calls.Pairwise (Below fs) := chain.pairwise Below.trans (below_of_lists proper)
  apply deep.imp
  intro p q below
  exact below.linksTo_lt

/-- One place is entered at most once for each number of links. -/
theorem count_place_le (proper : fs.root.Proper) (chain : CallChain fs path calls)
    (place : List String) : (calls.map fs.place?).count (some place) ≤ linkLimit + 1 := by
  rw [List.count_eq_countP, List.countP_map, List.countP_eq_length_filter]
  apply length_le_of_linksTo
  have kept := (chain.linksTo_lt proper).filter (((· == some place) ∘ fs.place?))
  apply kept.imp_of_mem
  intro p q first second grows
  have one := (List.mem_filter.mp first).2
  have two := (List.mem_filter.mp second).2
  exact grows ((eq_of_beq one).trans (eq_of_beq two).symm)

/-- So the real directories bound the length of a chain. -/
theorem length_le (proper : fs.root.Proper) (chain : CallChain fs path calls) :
    calls.length ≤ (linkLimit + 1) * fs.root.places.length := by
  let mark (call : String) : Nat × Option (List String) := (fs.linksTo call, fs.place? call)
  have distinct : (calls.map mark).Nodup := by
    apply List.pairwise_map.mpr
    apply (chain.linksTo_lt proper).imp
    intro p q grows same
    injection same with links places
    exact absurd (grows places) (Nat.not_lt_of_le (Nat.le_of_eq links.symm))
  have within : calls.map mark ⊆ List.range (linkLimit + 1) ×ˢ fs.root.places.map some := by
    intro m member
    obtain ⟨call, called, rfl⟩ := List.mem_map.mp member
    obtain ⟨place, real, placed⟩ := chain.placed call called
    refine List.mem_product.mpr ⟨?_, ?_⟩
    · exact List.mem_range.mpr (Nat.lt_succ_of_le (linksTo_le fs call))
    · exact List.mem_map.mpr ⟨place, real, placed.symm⟩
  have short := (List.subperm_of_subset distinct within).length_le
  rwa [List.length_map, List.length_product, List.length_range, List.length_map] at short

/-- Each call comes by a longer path, so the limit on paths bounds the length as well. -/
theorem length_le_pathLimit (proper : fs.root.Proper) (chain : CallChain fs path calls) :
    calls.length ≤ pathLimit := by
  have bound : calls.length + path.utf8ByteSize ≤ pathLimit := by
    induction chain with
    | last entered =>
      have short := (followed_of_isDirectory entered).short
      rw [List.length_singleton]
      omega
    | call lists _ ih =>
      have longer := (lists.longer proper).2
      rw [List.length_cons]
      omega
  omega

end CallChain

/-- Levels beyond the longest chain of calls change nothing. -/
theorem walk_congr {keep : String → Bool} {path : String} {levels more : Nat}
    (enough : ∀ calls, CallChain fs path calls → calls.length ≤ levels)
    (also : ∀ calls, CallChain fs path calls → calls.length ≤ more) :
    fs.walk keep levels path = fs.walk keep more path := by
  induction levels generalizing more path with
  | zero =>
    have closed : fs.directory? path = none := by
      rw [directory?_eq_none_iff, ← Bool.not_eq_true]
      intro entered
      exact absurd (enough _ (.last entered)) (by simp)
    rw [walk_of_none closed, walk_of_none closed]
  | succ levels ih =>
    cases leads : fs.directory? path with
    | none => rw [walk_of_none leads, walk_of_none leads]
    | some d =>
      have single := also _ (.last (isDirectory_of_directory? leads))
      obtain ⟨more, rfl⟩ : ∃ rest, more = rest + 1 := ⟨more - 1, by simp at single; omega⟩
      cases readable : d.unread with
      | some cause =>
        rw [walk, walk, leads]
        simp only [readable]
      | none =>
        rw [walk_of_read leads readable, walk_of_read leads readable]
        congr 1
        apply mapM_congr
        intro name member
        unfold walkAt
        split
        · next inner =>
          have lists : Lists fs path name := ⟨d, leads, readable, member⟩
          refine ih (fun calls chain => ?_) fun calls chain => ?_
          · exact Nat.le_of_succ_le_succ (enough _ (.call lists chain))
          · exact Nat.le_of_succ_le_succ (also _ (.call lists chain))
        · rfl

/-- The walk needs no more levels than the real directories allow. -/
theorem listing_eq_of_levels {keep : String → Bool} (proper : fs.root.Proper) {levels : Nat}
    (enough : (linkLimit + 1) * fs.root.places.length ≤ levels) (path : String) :
    fs.listing keep path = (fs.walk keep levels path).map (·.mergeSort Path.le) := by
  rw [listing, walk_congr (fun calls chain => chain.length_le_pathLimit proper)
    fun calls chain => Nat.le_trans (chain.length_le proper) enough]

end SyntaxReport.FileSystem
