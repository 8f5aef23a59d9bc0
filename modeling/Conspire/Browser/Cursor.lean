import Mathlib.Order.Bounds.Basic
import Conspire.Browser.Reliability

/-! The durable cursor over any calls of the page (`reliability.js`). An epoch
starts where the base of the cursor is moved. Its base, which the arguments of the
calls decide, and the sequences accepted in it are kept beside the state as a ghost. -/
namespace Conspire.Browser

inductive Call where
  | acceptSequence (sequence : JsNumber)
  | restoreCursor (sequence : JsNumber)
  | resetSequence
  | replaceHistory (events : List MessageDto) (latestServerSeq : JsNumber)

/-- The cursor's base and what was accepted since the last reset, oldest first. -/
structure Epoch where
  base : Int := 0
  accepted : List Int := []

/-- The positive safe integer that a number is. -/
def positive (number : JsNumber) : Option Int :=
  number.filter fun value => decide (0 < value) && decide (value ≤ maxSafeInteger)

/-- The sequences of a snapshot. -/
def snapshotSequences (events : List MessageDto) : List Int :=
  events.filterMap fun event => positive (jsNumber event.serverSeq)

/-- Where a snapshot begins: below its least sequence, or at the latest one where it has none. -/
def snapshotBase (events : List MessageDto) (latest : JsNumber) : Int :=
  match (snapshotSequences events).min? with
  | some least => least - 1
  | none => (positive latest).getD 0

/-- The epoch after a call and its answer. A cursor can only be restored where nothing has
moved it yet. -/
def Epoch.after (epoch : Epoch) (admitted : Bool) : Call → Epoch
  | .acceptSequence sequence =>
    if admitted then { epoch with accepted := epoch.accepted ++ sequence.toList } else epoch
  | .restoreCursor sequence =>
    if epoch.base = 0 ∧ epoch.accepted = [] then { base := (positive sequence).getD 0 } else epoch
  | .resetSequence => {}
  | .replaceHistory events latest => { base := snapshotBase events latest }

namespace ReliabilityState

/-- A call on the state, with its answer where it has one. -/
def call (state : ReliabilityState) : Call → ReliabilityState × Bool
  | .acceptSequence sequence => state.acceptSequence sequence
  | .restoreCursor sequence => (state.restoreCursor sequence, false)
  | .resetSequence => (state.resetSequence, false)
  | .replaceHistory events latest => (state.replaceHistory events latest, false)

def perform (state : ReliabilityState) (epoch : Epoch) (call : Call) : ReliabilityState × Epoch :=
  let (next, admitted) := state.call call
  (next, epoch.after admitted call)

def performAll (calls : List Call) : ReliabilityState × Epoch :=
  calls.foldl (fun (state, epoch) call => state.perform epoch call) ({}, {})

end ReliabilityState

/-- What the cursor says of its epoch. -/
structure Epoch.Tracks (epoch : Epoch) (state : ReliabilityState) : Prop where
  base : 0 ≤ epoch.base
  above : ∀ k ∈ epoch.accepted, epoch.base < k
  distinct : epoch.accepted.Nodup
  reached : epoch.base ≤ state.highestServerSeq
  complete : ∀ k, epoch.base < k → k ≤ state.highestServerSeq → k ∈ epoch.accepted
  next : state.highestServerSeq + 1 ∉ epoch.accepted
  seen : ∀ k, k ∈ state.seen ↔ k ∈ epoch.accepted ∧ state.highestServerSeq < k
  once : state.seen.Nodup
  bounded : state.seen.length ≤ maxSeen

/-- The loop moves the cursor over the numbers that follow it and drops them. -/
theorem advance_spec (distinct : seen.Nodup) (enough : seen.length ≤ rounds)
    (above : ∀ k ∈ seen, highest < k) :
    highest ≤ (advance rounds seen highest).2 ∧
      (∀ k, highest < k → k ≤ (advance rounds seen highest).2 → k ∈ seen) ∧
      (advance rounds seen highest).2 + 1 ∉ seen ∧
      (advance rounds seen highest).1 = seen.filter ((advance rounds seen highest).2 < ·) := by
  induction rounds generalizing seen highest with
  | zero =>
    have empty : seen = [] := List.length_eq_zero_iff.mp (by omega)
    subst empty
    exact ⟨Int.le_refl _, fun k _ _ => by simp only [advance] at *; omega, by simp, rfl⟩
  | succ rounds ih =>
    by_cases follows : highest + 1 ∈ seen
    · simp only [advance, follows, if_true]
      have shorter := List.length_erase_of_mem follows
      have beyond : ∀ k ∈ seen.erase (highest + 1), highest + 1 < k := by
        intro k member
        obtain ⟨other, member⟩ := (distinct.mem_erase_iff).mp member
        have := above k member
        omega
      obtain ⟨le, run, stop, left⟩ := ih (distinct.erase _) (by omega) beyond
      generalize advance rounds (seen.erase (highest + 1)) (highest + 1) = moved at le run stop left ⊢
      refine ⟨by omega, ?_, ?_, ?_⟩
      · intro k beyond within
        by_cases first : k = highest + 1
        · rwa [first]
        · exact List.mem_of_mem_erase (run k (by omega) within)
      · intro member
        exact stop ((distinct.mem_erase_iff).mpr ⟨by omega, member⟩)
      · rw [left, distinct.erase_eq_filter, List.filter_filter]
        apply List.filter_congr
        intro k _
        simp only [bne_iff_ne, ne_eq, Bool.and_eq_left_iff_imp, decide_eq_true_eq]
        omega
    · simp only [advance, follows, if_false]
      refine ⟨Int.le_refl _, fun k _ _ => by omega, not_false, ?_⟩
      symm
      rw [List.filter_eq_self]
      intro k member
      exact decide_eq_true (above k member)

namespace Epoch.Tracks
variable {state : ReliabilityState} {epoch : Epoch} {sequence : Option Int}

theorem fresh (base : 0 ≤ value) (cursor : state.highestServerSeq = value) (empty : state.seen = []) :
    Epoch.Tracks { base := value } state where
  base := base
  above := by simp
  distinct := .nil
  reached := by rw [cursor]
  complete k beyond within := by
    simp only at beyond
    omega
  next := by simp
  seen := by simp [empty]
  once := by simp [empty]
  bounded := by simp [empty]

/-- A sequence is refused because of the base, as a duplicate, or for lack of room. -/
theorem refused (tracks : epoch.Tracks state) (safe : isSafeInteger (some value) = true)
    (refused : (state.acceptSequence (some value)).2 = false) :
    value ≤ epoch.base ∨ value ∈ epoch.accepted ∨
      state.seen.length = maxSeen ∧ value ≠ state.highestServerSeq + 1 := by
  simp only [ReliabilityState.acceptSequence, safe, Bool.not_true, Bool.false_or] at refused
  split at refused
  · rename_i known
    simp only [Bool.or_eq_true, decide_eq_true_eq] at known
    cases known with
    | inl behind =>
      by_cases below : value ≤ epoch.base
      · exact .inl below
      · exact .inr (.inl (tracks.complete value (by omega) behind))
    | inr member => exact .inr (.inl ((tracks.seen value).mp member).1)
  · split at refused
    · rename_i full
      simp only [Bool.and_eq_true, decide_eq_true_eq] at full
      exact .inr (.inr ⟨Nat.le_antisymm tracks.bounded full.1, full.2⟩)
    · contradiction

/-- What an admitted sequence does to the state. -/
theorem acceptSequence_true (admitted : (state.acceptSequence sequence).2 = true) :
    ∃ value, sequence = some value ∧ isSafeInteger (some value) = true ∧
      state.highestServerSeq < value ∧ value ∉ state.seen ∧
      (state.seen.length < maxSeen ∨ value = state.highestServerSeq + 1) ∧
      (state.acceptSequence sequence).1 = { state with
        seen := (advance (state.seen.length + 1) (state.seen ++ [value]) state.highestServerSeq).1
        highestServerSeq :=
          (advance (state.seen.length + 1) (state.seen ++ [value]) state.highestServerSeq).2 } := by
  cases sequence with
  | none => contradiction
  | some value =>
    simp only [ReliabilityState.acceptSequence] at admitted ⊢
    split at admitted
    · contradiction
    · rename_i new
      simp only [Bool.or_eq_true, not_or, Bool.not_eq_true', decide_eq_true_eq, Bool.not_eq_false] at new
      split at admitted
      · contradiction
      · rename_i room
        simp only [Bool.and_eq_true, decide_eq_true_eq, not_and, ne_eq, Classical.not_not] at room
        refine ⟨value, rfl, new.1.1, by omega, new.2, ?_, ?_⟩
        · by_cases full : maxSeen ≤ state.seen.length
          · exact .inr (room full)
          · exact .inl (by omega)
        · rw [if_neg (by simpa [new.1.1] using new), if_neg (by simpa using room)]
          simp only [List.length_append, List.length_singleton]

theorem admitted (tracks : epoch.Tracks state)
    (admitted : (state.acceptSequence sequence).2 = true) :
    Epoch.Tracks { epoch with accepted := epoch.accepted ++ sequence.toList }
      (state.acceptSequence sequence).1 := by
  obtain ⟨value, rfl, _, beyond, new, room, moved⟩ := acceptSequence_true admitted
  have unseen : value ∉ epoch.accepted := fun old => new ((tracks.seen value).mpr ⟨old, beyond⟩)
  have distinct : (state.seen ++ [value]).Nodup := by
    rw [List.nodup_append]
    exact ⟨tracks.once, by simp, fun k old _ is same => by simp_all⟩
  have above : ∀ k ∈ state.seen ++ [value], state.highestServerSeq < k := by
    intro k member
    rw [List.mem_append, List.mem_singleton] at member
    rcases member with old | rfl
    · exact ((tracks.seen k).mp old).2
    · exact beyond
  have enough : (state.seen ++ [value]).length ≤ state.seen.length + 1 := by simp
  obtain ⟨le, run, stop, left⟩ := advance_spec distinct enough above
  generalize advance (state.seen.length + 1) (state.seen ++ [value]) state.highestServerSeq = result
    at le run stop left moved
  obtain ⟨seen, highest⟩ := result
  simp only at le run stop left moved
  have known : ∀ k, state.highestServerSeq < k →
      (k ∈ state.seen ++ [value] ↔ k ∈ epoch.accepted ++ [value]) := by
    intro k beyond
    simp only [List.mem_append, tracks.seen k, beyond, and_true]
  have reached := tracks.reached
  rw [moved]
  refine ⟨tracks.base, ?_, ?_, by simp only; omega, ?_, ?_, ?_, ?_, ?_⟩
  · intro k member
    rw [Option.toList_some, List.mem_append, List.mem_singleton] at member
    rcases member with old | rfl
    · exact tracks.above k old
    · simp only
      omega
  · rw [Option.toList_some, List.nodup_append]
    exact ⟨tracks.distinct, by simp, fun k old _ is same => by simp_all⟩
  · intro k beyond within
    by_cases before : k ≤ state.highestServerSeq
    · exact List.mem_append_left _ (tracks.complete k beyond before)
    · exact (known k (by omega)).mp (run k (by omega) within)
  · exact fun member => stop ((known (highest + 1) (by omega)).mpr member)
  · intro k
    rw [left, List.mem_filter, decide_eq_true_eq]
    constructor
    · rintro ⟨member, beyond⟩
      exact ⟨(known k (by omega)).mp member, beyond⟩
    · rintro ⟨member, beyond⟩
      simp only at beyond
      exact ⟨(known k (by omega)).mpr member, beyond⟩
  · rw [left]
    exact distinct.filter _
  · -- a full set only takes the next sequence, and gives it up at once
    rw [left]
    rcases room with less | next
    · have := List.length_filter_le (fun k => decide (highest < k)) (state.seen ++ [value])
      simp only [List.length_append, List.length_singleton] at this
      exact Nat.le_trans this less
    · have passed : value ≤ highest := by
        by_contra behind
        exact stop (by rw [show highest = state.highestServerSeq by omega, ← next]; simp)
      rw [List.filter_append, List.filter_singleton]
      simp only [decide_eq_false (show ¬ highest < value by omega), Bool.cond_false, List.append_nil]
      exact Nat.le_trans (List.length_filter_le ..) tracks.bounded

theorem acceptSequence_false (refused : (state.acceptSequence sequence).2 = false) :
    (state.acceptSequence sequence).1 = state := by
  cases sequence with
  | none => rfl
  | some value =>
    simp only [ReliabilityState.acceptSequence] at refused ⊢
    split at refused
    · rename_i known
      rw [if_pos known]
    · rename_i new
      rw [if_neg new]
      split at refused
      · rename_i full
        rw [if_pos full]
      · contradiction

/-- Before anything was accepted the cursor is the base. -/
theorem untouched (tracks : epoch.Tracks state) (empty : state.seen = [])
    (zero : state.highestServerSeq = 0) : epoch.accepted = [] := by
  apply List.eq_nil_iff_forall_not_mem.mpr
  intro k member
  have beyond := tracks.above k member
  have base := tracks.base
  have seen := (tracks.seen k).mpr ⟨member, by omega⟩
  rw [empty] at seen
  contradiction

/-- While nothing was accepted the cursor is the base. -/
theorem idle (tracks : epoch.Tracks state) (unused : epoch.accepted = []) :
    state.seen = [] ∧ state.highestServerSeq = epoch.base := by
  constructor
  · apply List.eq_nil_iff_forall_not_mem.mpr
    intro k member
    have accepted := ((tracks.seen k).mp member).1
    rw [unused] at accepted
    contradiction
  · by_contra moved
    have reached := tracks.reached
    have accepted := tracks.complete state.highestServerSeq (by omega) (Int.le_refl _)
    rw [unused] at accepted
    contradiction

theorem positive_eq_some (number : JsNumber) (value : Int) :
    positive number = some value ↔ number = some value ∧ 0 < value ∧ value ≤ maxSafeInteger := by
  simp only [positive, Option.filter_eq_some_iff, Bool.and_eq_true, decide_eq_true_eq]

/-- The code's test for a number that a cursor can be moved to. -/
theorem isSafeInteger_positive (value : Int) :
    (isSafeInteger (some value) && decide (0 < value)) = (positive (some value)).isSome := by
  have known := positive_eq_some (some value) value
  cases is : positive (some value) with
  | none =>
    rw [is] at known
    simp only [isSafeInteger, Option.isSome_none, Bool.and_eq_false_iff, decide_eq_false_iff_not]
    simp only [reduceCtorEq, true_and, false_iff] at known
    omega
  | some other =>
    obtain ⟨same, above, within⟩ := (positive_eq_some _ _).mp is
    cases same
    simp only [isSafeInteger, Option.isSome_some, Bool.and_eq_true, decide_eq_true_eq]
    omega

theorem positive_nonneg (number : JsNumber) : 0 ≤ (positive number).getD 0 := by
  cases is : positive number with
  | none => exact Int.le_refl 0
  | some value => exact Int.le_of_lt ((positive_eq_some _ _).mp is).2.1

/-- A state that nothing has moved takes a positive safe number as its cursor. -/
theorem restoreCursor_fresh (state : ReliabilityState) (sequence : JsNumber) (empty : state.seen = [])
    (zero : state.highestServerSeq = 0) :
    state.restoreCursor sequence = { state with highestServerSeq := (positive sequence).getD 0 } := by
  have same : state = { state with highestServerSeq := 0 } := by rw [← zero]
  cases sequence with
  | none => exact same
  | some value =>
    have test : (state.seen.isEmpty && decide (state.highestServerSeq = 0) && isSafeInteger (some value) &&
        decide (0 < value)) = (positive (some value)).isSome := by
      rw [Bool.and_assoc, isSafeInteger_positive, empty, zero]
      rfl
    simp only [ReliabilityState.restoreCursor, test]
    cases is : positive (some value) with
    | none => exact same
    | some other =>
      obtain ⟨known, -⟩ := (positive_eq_some _ _).mp is
      cases known
      rfl

theorem restoreCursor_moved (state : ReliabilityState) (sequence : JsNumber)
    (moved : ¬ (state.seen = [] ∧ state.highestServerSeq = 0)) : state.restoreCursor sequence = state := by
  cases sequence with
  | none => rfl
  | some value =>
    have refused : (state.seen.isEmpty && decide (state.highestServerSeq = 0)) = false := by
      simpa [List.isEmpty_iff] using moved
    simp only [ReliabilityState.restoreCursor, refused, Bool.false_and, Bool.false_eq_true, if_false]

theorem restored (tracks : epoch.Tracks state) (sequence : JsNumber) :
    (epoch.after false (.restoreCursor sequence)).Tracks (state.restoreCursor sequence) := by
  by_cases untouched : epoch.base = 0 ∧ epoch.accepted = []
  · obtain ⟨empty, cursor⟩ := tracks.idle untouched.2
    rw [Epoch.after, if_pos untouched, restoreCursor_fresh state sequence empty (cursor.trans untouched.1)]
    exact .fresh (positive_nonneg sequence) rfl empty
  · have moved : ¬ (state.seen = [] ∧ state.highestServerSeq = 0) := by
      rintro ⟨empty, zero⟩
      have base := tracks.base
      have reached := tracks.reached
      exact untouched ⟨by omega, tracks.untouched empty zero⟩
    rw [Epoch.after, if_neg untouched, restoreCursor_moved state sequence moved]
    exact tracks

theorem safeSequences_eq (events : List MessageDto) :
    ReliabilityState.safeSequences events = snapshotSequences events := by
  unfold ReliabilityState.safeSequences snapshotSequences
  apply List.filterMap_congr
  intro event _
  cases jsNumber event.serverSeq with
  | none => rfl
  | some value =>
    simp only [isSafeInteger_positive]
    cases is : positive (some value) with
    | none => rfl
    | some other =>
      obtain ⟨known, -⟩ := (positive_eq_some _ _).mp is
      cases known
      rfl

/-- A replaced history begins where its snapshot does. -/
theorem replaceHistory_base (state : ReliabilityState) (events : List MessageDto) (latest : JsNumber) :
    state.replaceHistory events latest =
      { state with seen := [], highestServerSeq := snapshotBase events latest } := by
  have cursor : (state.replaceHistory events latest).highestServerSeq = snapshotBase events latest := by
    simp only [ReliabilityState.replaceHistory, snapshotBase, safeSequences_eq]
    cases (snapshotSequences events).min? with
    | some least => rfl
    | none =>
      cases latest with
      | none => rfl
      | some value =>
        simp only [isSafeInteger_positive]
        cases is : positive (some value) with
        | none => rfl
        | some other =>
          obtain ⟨known, -⟩ := (positive_eq_some _ _).mp is
          cases known
          rfl
  rw [← cursor]
  rfl

/-- The event after the base is the first of the snapshot. -/
theorem snapshotBase_least {value : Int} (inside : value ∈ snapshotSequences events) (latest : JsNumber) :
    IsLeast {k | k ∈ snapshotSequences events} (snapshotBase events latest + 1) := by
  obtain ⟨least, is⟩ := Option.isSome_iff_exists.mp (List.isSome_min?_of_mem inside)
  obtain ⟨member, smallest⟩ := List.min?_eq_some_iff.mp is
  rw [snapshotBase, is]
  simp only [Int.sub_add_cancel]
  exact ⟨member, fun k other => smallest k other⟩

theorem snapshotBase_nonneg (events : List MessageDto) (latest : JsNumber) : 0 ≤ snapshotBase events latest := by
  cases is : snapshotSequences events with
  | nil =>
    rw [snapshotBase, is]
    exact positive_nonneg latest
  | cons first rest =>
    have inside : first ∈ snapshotSequences events := by
      rw [is]
      exact List.mem_cons_self
    obtain ⟨event, _, least⟩ := List.mem_filterMap.mp (snapshotBase_least inside latest).1
    have nonzero := ((positive_eq_some _ _).mp least).2.1
    omega

/-- A page that is opened anew and restores the cursor admits whatever is above it. -/
theorem resumed (cursor : Int) (safe : isSafeInteger (some value) = true) (above : cursor < value)
    (nonzero : 0 < value) :
    ((({} : ReliabilityState).restoreCursor (some cursor)).acceptSequence (some value)).2 = true := by
  rw [restoreCursor_fresh _ _ rfl rfl]
  have below : ¬ value ≤ (positive (some cursor)).getD 0 := by
    cases is : positive (some cursor) with
    | none => exact Int.not_le.mpr nonzero
    | some other =>
      obtain ⟨known, -⟩ := (positive_eq_some _ _).mp is
      cases known
      exact Int.not_le.mpr above
  simp [ReliabilityState.acceptSequence, safe, below, maxSeen]

theorem perform (tracks : epoch.Tracks state) (call : Call) :
    (state.perform epoch call).2.Tracks (state.perform epoch call).1 := by
  cases call with
  | acceptSequence sequence =>
    have answered : ∀ admitted, (state.acceptSequence sequence).2 = admitted →
        (epoch.after admitted (.acceptSequence sequence)).Tracks (state.acceptSequence sequence).1 := by
      intro admitted outcome
      cases admitted with
      | true => exact tracks.admitted outcome
      | false =>
        rw [acceptSequence_false outcome]
        exact tracks
    exact answered _ rfl
  | restoreCursor sequence => exact tracks.restored sequence
  | resetSequence => exact .fresh (Int.le_refl 0) rfl rfl
  | replaceHistory events latest =>
    simp only [ReliabilityState.perform, ReliabilityState.call, Epoch.after, replaceHistory_base]
    exact .fresh (snapshotBase_nonneg events latest) rfl rfl

theorem performAll (calls : List Call) :
    (ReliabilityState.performAll calls).2.Tracks (ReliabilityState.performAll calls).1 := by
  unfold ReliabilityState.performAll
  have start : Epoch.Tracks {} {} := .fresh (Int.le_refl 0) rfl rfl
  generalize ({} : Epoch) = epoch, ({} : ReliabilityState) = state at start
  induction calls generalizing epoch state with
  | nil => exact start
  | cons call calls ih => exact ih _ _ (start.perform call)

end Epoch.Tracks

/-- The cursor never runs ahead of what was accepted, and nothing is accepted twice. What was not
accepted is above the cursor, and a page that resumes with it admits that. -/
theorem cursor_exact (calls : List Call) :
    let (state, epoch) := ReliabilityState.performAll calls
    epoch.accepted.Nodup ∧
      IsGreatest {n | ∀ k, epoch.base < k → k ≤ n → k ∈ epoch.accepted} state.highestServerSeq ∧
      (∀ k, k ∈ state.seen ↔ k ∈ epoch.accepted ∧ state.highestServerSeq < k) ∧
      state.seen.Nodup ∧ state.seen.length ≤ 2048 ∧
      (∀ value, 0 < value → isSafeInteger (some value) = true →
        (state.acceptSequence (some value)).2 = false →
          value ≤ epoch.base ∨ value ∈ epoch.accepted ∨
            state.seen.length = 2048 ∧ value ≠ state.highestServerSeq + 1) ∧
      ∀ value, isSafeInteger (some value) = true → epoch.base < value → value ∉ epoch.accepted →
        state.highestServerSeq < value ∧
          ((({} : ReliabilityState).restoreCursor (some state.highestServerSeq)).acceptSequence
            (some value)).2 = true := by
  have tracks := Epoch.Tracks.performAll calls
  generalize ReliabilityState.performAll calls = result at tracks
  obtain ⟨state, epoch⟩ := result
  refine ⟨tracks.distinct, ⟨tracks.complete, ?_⟩, tracks.seen, tracks.once, tracks.bounded,
    fun value _ safe refused => tracks.refused safe refused, fun value safe later unseen => ?_⟩
  · intro n run
    by_contra ahead
    have reached : epoch.base ≤ state.highestServerSeq := tracks.reached
    have ahead : ¬ n ≤ state.highestServerSeq := ahead
    exact tracks.next (run (state.highestServerSeq + 1) (by omega) (by omega))
  · have base : 0 ≤ epoch.base := tracks.base
    have above : state.highestServerSeq < value := by
      by_contra behind
      exact unseen (tracks.complete value later (Int.not_lt.mp behind))
    exact ⟨above, Epoch.Tracks.resumed state.highestServerSeq safe above (by omega)⟩

end Conspire.Browser
