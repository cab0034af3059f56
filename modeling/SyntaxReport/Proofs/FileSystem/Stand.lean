/- The directory that a path leads to, with its trail and the links that are left there. -/
import SyntaxReport.Proofs.FileSystem.Trail

namespace SyntaxReport.FileSystem

open SyntaxReport.Path (join ProperName)

variable {fs : FileSystem} {path : String}

/-- The links that are left at the directory of a path, and the trail of that directory. -/
def stand? (fs : FileSystem) (path : String) : Option (Nat × Trail) :=
  if path.toList.contains '\x00' then none
  else if path.isEmpty then none
  else if pathLimit ≤ path.utf8ByteSize then none
  else reach? fs.root linkLimit (origin fs.start path) (steps path)

/-- The real directory that a path leads to: the names that it lies under, its own first. -/
def place? (fs : FileSystem) (path : String) : Option (List String) :=
  (fs.stand? path).map fun stand => stand.2.names

/-- How many links are followed to the directory of a path. -/
def linksTo (fs : FileSystem) (path : String) : Nat :=
  (fs.stand? path).elim 0 fun stand => linkLimit - stand.1

theorem linksTo_le (fs : FileSystem) (path : String) : fs.linksTo path ≤ linkLimit := by
  unfold linksTo
  cases fs.stand? path with
  | none => exact Nat.zero_le _
  | some stand => exact Nat.sub_le _ _

theorem directory?_eq_stand? (fs : FileSystem) (path : String) :
    fs.directory? path = (fs.stand? path).map fun stand => stand.2.here fs.root := by
  change foundDirectory? (fs.resolve path) = _
  unfold resolve stand?
  split
  · rfl
  · split
    · rfl
    · split
      · rfl
      · exact foundDirectory?_follow ..

theorem isDirectory_iff_stand? : fs.isDirectory path = true ↔ ∃ stand, fs.stand? path = some stand := by
  rw [isDirectory, directory?_eq_stand?, Option.isSome_map, Option.isSome_iff_exists]

theorem isDirectory_of_directory? {d : Directory} (leads : fs.directory? path = some d) :
    fs.isDirectory path = true := by
  rw [isDirectory, leads]
  rfl

theorem directory?_eq_none_iff : fs.directory? path = none ↔ fs.isDirectory path = false := by
  rw [isDirectory, Option.isSome_eq_false_iff, Option.isNone_iff_eq_none]

theorem steps_of_proper {name : String} (proper : ProperName name) : steps name = [name] := by
  have slash : Path.endsWithSlash name = false := by
    rw [Path.endsWithSlash, decide_eq_false_iff_not]
    exact fun last => proper.slashless (List.mem_of_getLast? last)
  have filled : name.toList ≠ [] := fun empty => proper.filled (String.toList_eq_nil_iff.mp empty)
  simp [steps, slash, Path.segments_of_slashless proper.slashless, filled]

/-- The name of an entry leads from the starting directory to that entry, unless it is a link. -/
theorem resolve_of_proper {name : String} (proper : ProperName name)
    (nullless : '\x00' ∉ name.toList) (short : name.utf8ByteSize ≤ nameLimit) :
    fs.resolve name =
      match (fs.start.here fs.root).lookup? name with
      | none => .error .notFound
      | some (.sealed cause) => .error cause
      | some (.directory d) => .ok (.directory d)
      | some (.file content unread) => .ok (.file content unread)
      | some (.link target) =>
        follow fs.root (linkLimit - 1) (origin fs.start target) (steps target) := by
  have relative : Path.isAbsolute name = false := by
    rw [Path.isAbsolute, decide_eq_false_iff_not]
    exact fun first => proper.slashless (List.mem_of_mem_head? first)
  have starts : origin fs.start name = fs.start := by
    rw [origin, relative]
    rfl
  have fits : ¬ pathLimit ≤ name.utf8ByteSize :=
    Nat.not_le_of_lt (Nat.lt_of_le_of_lt short (by decide))
  have filled : ¬ name.isEmpty := fun empty => proper.filled (String.isEmpty_iff.mp empty)
  rw [resolve, if_neg (mt List.contains_iff_mem.mp nullless), if_neg filled, if_neg fits, starts,
    steps_of_proper proper, linkLimit, follow, if_neg proper.notCurrent, if_neg proper.notParent,
    if_neg (Nat.not_lt_of_le short)]
  cases (fs.start.here fs.root).lookup? name with
  | none => rfl
  | some entry =>
    cases entry with
    | file content unread => rfl
    | link target => simp
    | directory d => simp [follow, Trail.here]
    | «sealed» cause => rfl

/-- A path that is followed at all. -/
structure Followed (path : String) : Prop where
  nullless : '\x00' ∉ path.toList
  somewhere : path ≠ ""
  short : path.utf8ByteSize < pathLimit

theorem stand?_of_followed (followed : Followed path) :
    fs.stand? path = reach? fs.root linkLimit (origin fs.start path) (steps path) := by
  rw [stand?, if_neg, if_neg, if_neg]
  · exact Nat.not_le_of_lt followed.short
  · exact fun empty => followed.somewhere (String.isEmpty_iff.mp empty)
  · exact fun null => followed.nullless (List.contains_iff_mem.mp null)

theorem followed_of_stand? {stand : Nat × Trail} (stands : fs.stand? path = some stand) :
    Followed path := by
  unfold stand? at stands
  split at stands
  · cases stands
  · next nullless =>
    split at stands
    · cases stands
    · next filled =>
      split at stands
      · cases stands
      · next short =>
        exact ⟨fun member => nullless (List.contains_iff_mem.mpr member),
          fun empty => filled (String.isEmpty_iff.mpr empty), Nat.lt_of_not_le short⟩

theorem followed_of_isDirectory (entered : fs.isDirectory path = true) : Followed path := by
  obtain ⟨stand, stands⟩ := isDirectory_iff_stand?.mp entered
  exact followed_of_stand? stands

theorem rooted_of_stand? {stand : Nat × Trail} (stands : fs.stand? path = some stand) :
    stand.1 ≤ linkLimit ∧ Rooted fs.root stand.2 := by
  rw [stand?_of_followed (followed_of_stand? stands)] at stands
  exact ⟨links_le_of_reach? stands, rooted_of_reach? (rooted_origin fs.rooted path) stands⟩

theorem proper_of_directory? {d : Directory} (proper : fs.root.Proper)
    (leads : fs.directory? path = some d) : d.Proper := by
  rw [directory?_eq_stand?] at leads
  obtain ⟨stand, stands, rfl⟩ := Option.map_eq_some_iff.mp leads
  exact (rooted_of_stand? stands).2.proper proper

/-- At one place there is one directory. -/
theorem directory?_eq_of_place? {p q : String} (same : fs.place? p = fs.place? q) :
    fs.directory? p = fs.directory? q := by
  rw [directory?_eq_stand?, directory?_eq_stand?]
  unfold place? at same
  cases first : fs.stand? p with
  | none =>
    rw [first] at same
    rw [Option.map_eq_none_iff.mp same.symm]
  | some stand =>
    rw [first] at same
    obtain ⟨other, second, names⟩ := Option.map_eq_some_iff.mp same.symm
    have trails := (rooted_of_stand? second).2.eq_of_names (rooted_of_stand? first).2 names
    rw [second, Option.map_some, Option.map_some, trails]

theorem reach?_steps_join {root : Directory} {name : String} (somewhere : path ≠ "")
    (proper : ProperName name) (links : Nat) (trail : Trail) :
    reach? root links trail (steps (join path name)) =
      (reach? root links trail (steps path)).bind fun stand =>
        reach? root stand.1 stand.2 [name] := by
  have joined : steps (join path name) =
      ((Path.segments path.toList).filter (!·.isEmpty)).map String.ofList ++ [name] := by
    rw [steps, Path.endsWithSlash_join path proper, Path.filter_segments_join somewhere proper,
      List.map_append, List.map_singleton, String.ofList_toList]
    rfl
  rw [joined, steps]
  split
  · rw [reach?_append, reach?_append, Option.bind_assoc]
    apply congrArg
    funext stand
    rw [reach?_current, Option.bind_some]
  · rw [reach?_append]

theorem Followed.of_join {name : String} (followed : Followed (join path name))
    (somewhere : path ≠ "") (proper : ProperName name) : Followed path where
  nullless member := by
    apply followed.nullless
    unfold join
    split <;> simp [member]
  somewhere := somewhere
  short := Nat.lt_trans (Path.utf8ByteSize_lt_join path proper) followed.short

theorem Followed.join {name : String} (followed : Followed path)
    (nullless : '\x00' ∉ name.toList)
    (short : path.utf8ByteSize + 1 + name.utf8ByteSize < pathLimit) :
    Followed (Path.join path name) where
  nullless member := by
    unfold Path.join at member
    split at member <;> simp [followed.nullless, nullless] at member
  somewhere := by
    unfold Path.join
    split <;> simp [followed.somewhere]
  short := Nat.lt_of_le_of_lt (Path.utf8ByteSize_join_le path name) short

theorem stand?_join (fs : FileSystem) {name : String} (somewhere : path ≠ "")
    (proper : ProperName name) (followed : Followed (join path name)) :
    fs.stand? (join path name) =
      (fs.stand? path).bind fun stand => reach? fs.root stand.1 stand.2 [name] := by
  rw [stand?_of_followed followed, stand?_of_followed (followed.of_join somewhere proper),
    reach?_steps_join somewhere proper, origin, origin, Path.isAbsolute_join somewhere]

end SyntaxReport.FileSystem
