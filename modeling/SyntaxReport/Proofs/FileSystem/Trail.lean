/- Names followed as for a file that is read, but with the trail of the directory kept and with the
number of links that are left. -/
import SyntaxReport.FileSystem.Basic
import SyntaxReport.Proofs.FileSystem.Directory

namespace SyntaxReport.FileSystem

open SyntaxReport.Path (join ProperName)

variable {root : Directory}

/-- The trail of the directory that names lead to from the end of another, and how many links are
left of those that may be followed. -/
def reach? (root : Directory) (links : Nat) (trail : Trail) (names : List String) :
    Option (Nat × Trail) :=
  match names with
  | [] => some (links, trail)
  | name :: rest =>
    if name = "." then reach? root links trail rest
    else if name = ".." then reach? root links (trail.drop 1) rest
    else if nameLimit < name.utf8ByteSize then none
    else match (trail.here root).lookup? name with
      | none => none
      | some (.sealed _) => none
      | some (.directory d) => reach? root links ((name, d) :: trail) rest
      | some (.file _ _) => none
      | some (.link target) =>
        match links with
        | 0 => none
        | links + 1 => reach? root links (origin trail target) (steps target ++ rest)
termination_by (links, names.length)

/-- The directory that was found, if it was one. -/
def foundDirectory? : Except ReadFailure Found → Option Directory
  | .ok (.directory d) => some d
  | _ => none

theorem foundDirectory?_follow (links : Nat) (trail : Trail) (names : List String) :
    foundDirectory? (follow root links trail names) =
      (reach? root links trail names).map fun reached => reached.2.here root := by
  fun_induction reach? root links trail names with
  | case1 links trail =>
    rw [follow]
    rfl
  | case2 links trail rest ih => rw [follow, if_pos rfl, ih]
  | case3 links trail rest other ih => rw [follow, if_neg other, if_pos rfl, ih]
  | case4 links trail name rest current parent long =>
    rw [follow, if_neg current, if_neg parent, if_pos long]
    rfl
  | case5 links trail name rest current parent short missing =>
    rw [follow, if_neg current, if_neg parent, if_neg short, missing]
    rfl
  | case6 links trail name rest current parent short cause hidden =>
    rw [follow, if_neg current, if_neg parent, if_neg short, hidden]
    rfl
  | case7 links trail name rest current parent short d inner ih =>
    rw [follow, if_neg current, if_neg parent, if_neg short, inner]
    exact ih
  | case8 links trail name rest current parent short content unread file =>
    rw [follow, if_neg current, if_neg parent, if_neg short, file]
    dsimp only
    split <;> rfl
  | case9 trail name rest current parent short target link =>
    rw [follow, if_neg current, if_neg parent, if_neg short, link]
    rfl
  | case10 trail name rest current parent short target link links ih =>
    rw [follow, if_neg current, if_neg parent, if_neg short, link]
    exact ih

theorem reach?_append (links : Nat) (trail : Trail) (names rest : List String) :
    reach? root links trail (names ++ rest) =
      (reach? root links trail names).bind fun stand => reach? root stand.1 stand.2 rest := by
  fun_induction reach? root links trail names with
  | case1 links trail => rfl
  | case2 links trail names ih => rw [List.cons_append, reach?, if_pos rfl, ih]
  | case3 links trail names other ih =>
    rw [List.cons_append, reach?, if_neg other, if_pos rfl, ih]
  | case4 links trail name names current parent long =>
    rw [List.cons_append, reach?, if_neg current, if_neg parent, if_pos long]
    rfl
  | case5 links trail name names current parent short missing =>
    rw [List.cons_append, reach?, if_neg current, if_neg parent, if_neg short, missing]
    rfl
  | case6 links trail name names current parent short cause hidden =>
    rw [List.cons_append, reach?, if_neg current, if_neg parent, if_neg short, hidden]
    rfl
  | case7 links trail name names current parent short d inner ih =>
    rw [List.cons_append, reach?, if_neg current, if_neg parent, if_neg short, inner]
    exact ih
  | case8 links trail name names current parent short content unread file =>
    rw [List.cons_append, reach?, if_neg current, if_neg parent, if_neg short, file]
    rfl
  | case9 trail name names current parent short target link =>
    rw [List.cons_append, reach?, if_neg current, if_neg parent, if_neg short, link]
    rfl
  | case10 trail name names current parent short target link links ih =>
    rw [List.cons_append, reach?, if_neg current, if_neg parent, if_neg short, link]
    dsimp only
    rw [← List.append_assoc, ih]

theorem reach?_current (links : Nat) (trail : Trail) :
    reach? root links trail ["."] = some (links, trail) := by
  rw [reach?, if_pos rfl, reach?]

theorem links_le_of_reach? {links left : Nat} {trail there : Trail} {names : List String}
    (reached : reach? root links trail names = some (left, there)) : left ≤ links := by
  fun_induction reach? root links trail names with
  | case1 links trail =>
    cases reached
    exact Nat.le_refl left
  | case10 _ _ _ _ _ _ _ _ links ih => exact Nat.le_succ_of_le (ih reached)
  | case2 _ _ _ ih | case3 _ _ _ _ ih | case7 _ _ _ _ _ _ _ _ _ ih => exact ih reached
  | case4 | case5 | case6 | case8 | case9 => cases reached

/-- The later of two directories is reached with fewer links left, or without a link on the way,
further below. -/
def Deeper (first later : Nat × Trail) : Prop :=
  later.1 < first.1 ∨ later.1 = first.1 ∧ first.2.length < later.2.length

theorem Deeper.trans {a b c : Nat × Trail} (first : Deeper a b) (second : Deeper b c) :
    Deeper a c := by
  unfold Deeper at *
  omega

/-- One name leads deeper. -/
theorem deeper_of_reach? {name : String} (proper : ProperName name) {stand later : Nat × Trail}
    (reached : reach? root stand.1 stand.2 [name] = some later) : Deeper stand later := by
  obtain ⟨links, trail⟩ := stand
  rw [reach?, if_neg proper.notCurrent, if_neg proper.notParent] at reached
  split at reached
  · cases reached
  · split at reached
    · cases reached
    · cases reached
    · rw [reach?] at reached
      cases reached
      exact .inr ⟨rfl, Nat.lt_succ_self _⟩
    · cases reached
    · cases links with
      | zero => cases reached
      | succ links => exact .inl (Nat.lt_succ_of_le (links_le_of_reach? reached))

theorem rooted_origin {trail : Trail} (rooted : Rooted root trail) (path : String) :
    Rooted root (origin trail path) := by
  unfold origin
  split
  · exact .root
  · exact rooted

/-- Only directories below the root are reached. -/
theorem rooted_of_reach? {links left : Nat} {trail there : Trail} {names : List String}
    (rooted : Rooted root trail) (reached : reach? root links trail names = some (left, there)) :
    Rooted root there := by
  fun_induction reach? root links trail names with
  | case1 links trail =>
    cases reached
    exact rooted
  | case2 _ _ _ ih => exact ih rooted reached
  | case3 _ _ _ _ ih => exact ih rooted.drop_one reached
  | case7 _ _ _ _ _ _ _ _ inner ih => exact ih (.inside rooted inner) reached
  | case10 _ _ _ _ _ _ target _ _ ih => exact ih (rooted_origin rooted target) reached
  | case4 | case5 | case6 | case8 | case9 => cases reached

end SyntaxReport.FileSystem
