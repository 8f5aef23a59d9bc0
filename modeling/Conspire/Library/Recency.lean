import Mathlib.Data.List.Sort

/-! Lists in the order of last use, least recent first: keyed removal and use, the
shortest front whose removal makes the rest fit, and the order that stamps keep. -/
namespace Recency
variable {K α : Type*} [DecidableEq K] {key : α → K} {k : K} {x : α} {xs ys gone left : List α}

def without (key : α → K) (k : K) (xs : List α) : List α := xs.filter fun x => key x ≠ k

/-- What has the key becomes the most recent. -/
def touched (key : α → K) (k : K) (xs : List α) : List α :=
  without key k xs ++ xs.filter fun x => key x = k

theorem without_absent (absent : k ∉ xs.map key) : without key k xs = xs := by
  apply List.filter_eq_self.mpr
  intro x member
  refine decide_eq_true fun is => absent ?_
  exact is ▸ List.mem_map_of_mem member

theorem without_cons_self (x : α) (absent : key x ∉ xs.map key) : without key (key x) (x :: xs) = xs := by
  unfold without
  rw [List.filter_cons_of_neg (by simp)]
  exact without_absent absent

theorem without_sublist : (without key k xs).Sublist xs := List.filter_sublist

theorem not_mem_without : k ∉ (without key k xs).map key := by
  intro member
  obtain ⟨x, kept, is⟩ := List.mem_map.mp member
  exact of_decide_eq_true (List.mem_filter.mp kept).2 is

theorem without_map {β : Type*} {f : β → α} {key' : β → K} (keeps : ∀ x, key (f x) = key' x)
    (xs : List β) : without key k (xs.map f) = (without key' k xs).map f := by
  unfold without
  rw [List.filter_map]
  congr 2
  funext x
  exact congrArg (fun j => decide (j ≠ k)) (keeps x)

/-- Of distinct keys, one element has a given one. -/
theorem filter_key (distinct : (xs.map key).Nodup) (member : x ∈ xs) :
    xs.filter (fun y => key y = key x) = [x] := by
  induction xs with
  | nil => cases member
  | cons y ys ih =>
    obtain ⟨absent, distinct⟩ := List.nodup_cons.mp distinct
    rcases List.mem_cons.mp member with rfl | later
    · rw [List.filter_cons_of_pos (by simp), List.filter_eq_nil_iff.mpr]
      intro z member
      exact fun is => absent (of_decide_eq_true is ▸ List.mem_map_of_mem member)
    · have other : key y ≠ key x := fun is => absent (is ▸ List.mem_map_of_mem later)
      rw [List.filter_cons_of_neg (by simpa using other), ih distinct later]

/-- An element apart from those of other keys. -/
theorem perm_without (distinct : (xs.map key).Nodup) (member : x ∈ xs) :
    xs.Perm (without key (key x) xs ++ [x]) := by
  have parts := List.filter_append_perm (fun y => decide (key y ≠ key x)) xs
  have rest : xs.filter (fun y => !decide (key y ≠ key x)) = [x] := by
    rw [← filter_key distinct member]
    exact List.filter_congr fun y _ => by simp
  rw [rest] at parts
  exact parts.symm

/-- To change the element with a key is to take it out and put the new one in. -/
theorem renewed_perm (f : α → α) (distinct : (xs.map key).Nodup) (member : x ∈ xs) :
    (xs.map fun y => if key y = key x then f y else y).Perm (without key (key x) xs ++ [f x]) := by
  have renewed := (perm_without distinct member).map fun y => if key y = key x then f y else y
  have others : (without key (key x) xs).map (fun y => if key y = key x then f y else y) =
      without key (key x) xs := by
    refine (List.map_congr_left fun y kept => ?_).trans (List.map_id _)
    have other : key y ≠ key x := fun is => not_mem_without (is ▸ List.mem_map_of_mem kept)
    exact if_neg other
  rwa [List.map_append, others, List.map_cons, List.map_nil, if_pos rfl] at renewed

theorem touched_perm (xs : List α) : (touched key k xs).Perm xs := by
  have parts := List.filter_append_perm (fun y => decide (key y ≠ k)) xs
  have rest : xs.filter (fun y => !decide (key y ≠ k)) = xs.filter fun y => key y = k :=
    List.filter_congr fun y _ => by simp
  rwa [rest] at parts

theorem touched_absent (absent : k ∉ xs.map key) : touched key k xs = xs := by
  have none : xs.filter (fun y => key y = k) = [] :=
    List.filter_eq_nil_iff.mpr fun y member is =>
      absent (of_decide_eq_true is ▸ List.mem_map_of_mem member)
  rw [touched, without_absent absent, none, List.append_nil]

/-- `gone` is the shortest front whose removal leaves what fits. -/
structure Evicts (fits : List α → Prop) (xs gone left : List α) : Prop where
  split : gone ++ left = xs
  enough : fits left
  shortest : ∀ {front back}, front ++ back = xs → fits back → gone.length ≤ front.length

omit [DecidableEq K] in
theorem Evicts.none {fits : List α → Prop} (whole : fits xs) : Evicts fits xs [] xs where
  split := rfl
  enough := whole
  shortest _ _ := Nat.zero_le _

omit [DecidableEq K] in
theorem Evicts.next {fits : List α → Prop} (full : ¬ fits (x :: xs)) (rest : Evicts fits xs gone left) :
    Evicts fits (x :: xs) (x :: gone) left where
  split := congrArg (x :: ·) rest.split
  enough := rest.enough
  shortest := by
    intro front back split fitting
    cases front with
    | nil =>
      cases split
      exact absurd fitting full
    | cons y front =>
      cases split
      exact Nat.succ_le_succ (rest.shortest rfl fitting)

omit [DecidableEq K] in
theorem Evicts.unique {fits : List α → Prop} {gone' left' : List α} (one : Evicts fits xs gone left)
    (other : Evicts fits xs gone' left') : gone = gone' ∧ left = left' := by
  have short := one.shortest other.split other.enough
  have short' := other.shortest one.split one.enough
  exact List.append_inj (one.split.trans other.split.symm) (Nat.le_antisymm short short')

omit [DecidableEq K] in
theorem Evicts.map {β : Type*} {f : α → β} {fits : List β → Prop}
    (evicts : Evicts (fun xs => fits (xs.map f)) xs gone left) :
    Evicts fits (xs.map f) (gone.map f) (left.map f) where
  split := by rw [← evicts.split, List.map_append]
  enough := evicts.enough
  shortest := by
    intro front back split fitting
    obtain ⟨front', back', rfl, rfl, rfl⟩ := List.append_eq_map_iff.mp split
    rw [List.length_map, List.length_map]
    exact evicts.shortest rfl fitting

/-- Stamps that rise along the list, up to `now`. -/
structure Stamped (stamp : α → Nat) (now : Nat) (xs : List α) : Prop where
  rising : xs.Pairwise fun x y => stamp x < stamp y
  past : ∀ x ∈ xs, stamp x ≤ now

section
variable {stamp : α → Nat} {now : Nat}

omit [DecidableEq K] in
theorem Stamped.sublist (stamped : Stamped stamp now xs) (part : ys.Sublist xs) : Stamped stamp now ys where
  rising := stamped.rising.sublist part
  past x member := stamped.past x (part.subset member)

omit [DecidableEq K] in
theorem Stamped.snoc (stamped : Stamped stamp now xs) (fresh : stamp x = now + 1) :
    Stamped stamp (now + 1) (xs ++ [x]) where
  rising := by
    refine List.pairwise_append.mpr ⟨stamped.rising, List.pairwise_singleton _ _, ?_⟩
    intro y member z is
    have old := stamped.past y member
    rw [List.mem_singleton.mp is]
    omega
  past y member := by
    rcases List.mem_append.mp member with old | new
    · exact Nat.le_succ_of_le (stamped.past y old)
    · rw [List.mem_singleton.mp new, fresh]

omit [DecidableEq K] in
/-- Sorting by the stamps puts any arrangement of the list back in order. -/
theorem Stamped.sorted (stamped : Stamped stamp now xs) (same : xs.Perm ys) :
    ys.mergeSort (fun x y => stamp x ≤ stamp y) = xs := by
  have order : (ys.mergeSort fun x y => stamp x ≤ stamp y).Pairwise fun x y => stamp x ≤ stamp y := by
    have sorted := @List.pairwise_mergeSort α (fun x y => decide (stamp x ≤ stamp y))
      (by simpa using fun _ _ _ => Nat.le_trans) (by simpa using fun _ _ => Nat.le_total _ _) ys
    simpa using sorted
  have perm := (List.mergeSort_perm ys fun x y => stamp x ≤ stamp y).trans same.symm
  refine perm.eq_of_pairwise ?_ order (stamped.rising.imp Nat.le_of_lt)
  intro x y member member' below above
  have distinct : (xs.map stamp).Nodup := List.pairwise_map.mpr (stamped.rising.imp Nat.ne_of_lt)
  exact List.inj_on_of_nodup_map distinct (perm.subset member) member' (Nat.le_antisymm below above)
end

end Recency
