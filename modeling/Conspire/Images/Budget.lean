import Conspire.Browser.Reliability
import Conspire.Library.Machine
import Conspire.Library.Recency
import Conspire.Library.Rounding
import Mathlib.Algebra.Order.BigOperators.Group.List
import Mathlib.Algebra.Order.Ring.Nat

/-! The budget of a `PreviewMemory` (`chat/image-preview.js`) under any limits. Its sums and
its ticks are JavaScript numbers, so they are exact below 2^53 only. -/
namespace Conspire.Images.Budget
open Transition Recency
open Browser (JsNumber)

structure Limits where
  livePreviews : Nat
  retainedBlobBytes : Nat
  livePixels : Nat

structure Entry where
  bytes : Nat
  pixels : Nat
  used : Nat

/-- The sum of two JavaScript numbers. -/
def plus (a b : Nat) : Nat := Rounding.roundNearest (a + b)

/-- What an eviction callback does to the memory, with the id it was given. -/
inductive OwnCall where
  | touch | remove

/-- A callback goes by all that was evicted so far, the last entry at the end. -/
abbrev Callback (Id : Type) := List (Id × Entry) → List OwnCall

/-- `entries` is a `Map` in insertion order; `told` is what callbacks were given so far. -/
structure PreviewMemory (Id : Type) where
  limits : Limits
  onEvict : Option (Callback Id)
  entries : List (Id × Entry) := []
  tick : Nat := 0
  told : List (Id × Entry) := []

namespace PreviewMemory
variable {Id : Type} [DecidableEq Id] (m : PreviewMemory Id)

def bytes : Nat := m.entries.foldl (fun sum item => plus sum item.2.bytes) 0

def pixels : Nat := m.entries.foldl (fun sum item => plus sum item.2.pixels) 0

def has (id : Id) : Bool := m.entries.any fun item => item.1 = id

def remove (id : Id) : PreviewMemory Id × Bool :=
  ({ m with entries := without Prod.fst id m.entries }, m.has id)

def touch (id : Id) : PreviewMemory Id :=
  if m.has id then
    let used := plus m.tick 1
    { m with
      entries := m.entries.map fun item => if item.1 = id then (id, { item.2 with used }) else item
      tick := used }
  else m

def clear : PreviewMemory Id := { m with entries := [] }

/-- `entries.set`: a new id goes to the end. -/
def set (id : Id) (entry : Entry) : List (Id × Entry) :=
  if m.has id then m.entries.map fun item => if item.1 = id then (id, entry) else item
  else m.entries ++ [(id, entry)]

/-- `[...entries].sort((a, b) => a[1].used - b[1].used)[0]` -/
def oldest : Option (Id × Entry) := (m.entries.mergeSort fun a b => a.2.used ≤ b.2.used).head?

def crowded (bytes pixels : Nat) : Bool :=
  m.limits.livePreviews ≤ m.entries.length || m.limits.retainedBlobBytes < plus m.bytes bytes ||
    m.limits.livePixels < plus m.pixels pixels

def own (id : Id) : OwnCall → PreviewMemory Id
  | .touch => m.touch id
  | .remove => (m.remove id).1

/-- `callback?.(oldest[0], oldest[1])` -/
def notify (callback : Option (Callback Id)) (item : Id × Entry) : PreviewMemory Id :=
  match callback with
  | none => m
  | some acts =>
    let told := m.told ++ [item]
    (acts told).foldl (fun m act => m.own item.1 act) { m with told }

variable {m}

omit [DecidableEq Id] in
theorem oldest_mem (is : m.oldest = some item) : item ∈ m.entries :=
  List.mem_mergeSort.mp (List.mem_of_head? is)

theorem own_length (id : Id) (act : OwnCall) : (m.own id act).entries.length ≤ m.entries.length := by
  cases act with
  | touch =>
    simp only [own, touch]
    split
    · exact Nat.le_of_eq (List.length_map _)
    · exact Nat.le_refl _
  | remove => exact without_sublist.length_le

theorem owns_length (id : Id) (acts : List OwnCall) :
    (acts.foldl (fun m act => m.own id act) m).entries.length ≤ m.entries.length := by
  induction acts generalizing m with
  | nil => exact Nat.le_refl _
  | cons act acts ih => exact Nat.le_trans ih (own_length id act)

theorem notify_length (callback : Option (Callback Id)) (item : Id × Entry) :
    (m.notify callback item).entries.length ≤ m.entries.length := by
  cases callback with
  | none => exact Nat.le_refl _
  | some acts => exact owns_length _ _

/-- The loop of `admit`: every round deletes an entry. -/
def makeRoom (callback : Option (Callback Id)) (bytes pixels : Nat) (m : PreviewMemory Id) :
    PreviewMemory Id :=
  if m.crowded bytes pixels then
    match _is : m.oldest with
    | none => m
    | some oldest => makeRoom callback bytes pixels ((m.remove oldest.1).1.notify callback oldest)
  else m
termination_by m.entries.length
decreasing_by
  refine Nat.lt_of_le_of_lt (notify_length _ _) (List.length_filter_lt_length_iff_exists.mpr ?_)
  exact ⟨oldest, oldest_mem _is, by simp⟩

theorem makeRoom_roomy {bytes pixels : Nat} (roomy : m.crowded bytes pixels = false) :
    makeRoom callback bytes pixels m = m := by
  rw [makeRoom, if_neg (by simp [roomy])]

theorem makeRoom_crowded {bytes pixels : Nat} (crowded : m.crowded bytes pixels = true)
    (oldest : m.oldest = some item) :
    makeRoom callback bytes pixels m =
      makeRoom callback bytes pixels ((m.remove item.1).1.notify callback item) := by
  rw [makeRoom, if_pos crowded]
  split
  · rename_i none
    cases none.symm.trans oldest
  · rename_i other is
    cases is.symm.trans oldest
    rfl

/-- `admit` -/
def admitEntry (m : PreviewMemory Id) (id : Id) (bytes pixels : JsNumber) (evict : Option (Callback Id)) :
    PreviewMemory Id × Bool :=
  match bytes, pixels with
  | some bytes, some pixels =>
    if !Browser.isSafeInteger (some bytes) || !Browser.isSafeInteger (some pixels) || bytes < 0 || pixels < 0 ||
        m.limits.retainedBlobBytes < bytes || m.limits.livePixels < pixels then (m, false)
    else
      let m := makeRoom (evict.or m.onEvict) bytes.toNat pixels.toNat (m.remove id).1
      let used := plus m.tick 1
      ({ m with entries := m.set id { bytes := bytes.toNat, pixels := pixels.toNat, used }, tick := used },
        true)
  | _, _ => (m, false)

end PreviewMemory

/-- A call, with what it returned. -/
inductive Call (Id : Type) where
  | admitEntry (id : Id) (bytes pixels : JsNumber) (evict : Option (Callback Id)) (returned : Bool)
  | touch (id : Id)
  | remove (id : Id) (returned : Bool)
  | clear

section
variable {Id : Type} [DecidableEq Id]

/-- The calls on a new memory. -/
def calls (limits : Limits) (onEvict : Option (Callback Id)) : Machine (PreviewMemory Id) (Call Id) where
  init m := m = { limits, onEvict }
  step m call m' :=
    match call with
    | .admitEntry id bytes pixels evict returned => m.admitEntry id bytes pixels evict = (m', returned)
    | .touch id => m.touch id = m'
    | .remove id returned => m.remove id = (m', returned)
    | .clear => m.clear = m'

/-- What an entry is worth, without the tick of its last use. -/
structure Item (Id : Type) where
  id : Id
  bytes : Nat
  pixels : Nat

def item (entry : Id × Entry) : Item Id := ⟨entry.1, entry.2.bytes, entry.2.pixels⟩

/-- The memory in its own terms: the items, least recent first, and those the callbacks were
told of. -/
structure Shelf (Id : Type) where
  items : List (Item Id) := []
  told : List (Item Id) := []

namespace Limits
variable (limits : Limits)

def Within {Id : Type} (items : List (Item Id)) : Prop :=
  items.length ≤ limits.livePreviews ∧ (items.map Item.bytes).sum ≤ limits.retainedBlobBytes ∧
    (items.map Item.pixels).sum ≤ limits.livePixels

/-- The kept items leave room for another. -/
def Fits {Id : Type} (bytes pixels : Nat) (kept : List (Item Id)) : Prop :=
  kept.length + 1 ≤ limits.livePreviews ∧ (kept.map Item.bytes).sum + bytes ≤ limits.retainedBlobBytes ∧
    (kept.map Item.pixels).sum + pixels ≤ limits.livePixels

instance {Id : Type} (items : List (Item Id)) : Decidable (limits.Within items) :=
  inferInstanceAs (Decidable (_ ∧ _ ∧ _))

instance {Id : Type} (bytes pixels : Nat) (kept : List (Item Id)) : Decidable (limits.Fits bytes pixels kept) :=
  inferInstanceAs (Decidable (_ ∧ _ ∧ _))

/-- Non-negative safe integers that alone fit the limits. -/
structure Alone (bytes pixels : JsNumber) (b p : Nat) : Prop where
  bytes : bytes = some (b : Int) ∧ b ≤ Browser.maxSafeInteger ∧ b ≤ limits.retainedBlobBytes
  pixels : pixels = some (p : Int) ∧ p ≤ Browser.maxSafeInteger ∧ p ≤ limits.livePixels

end Limits

/-- One call on a least-recently-used cache that evicts no more than it must. -/
inductive Shelf.Step (limits : Limits) (hears : Bool) : Shelf Id → Call Id → Shelf Id → Prop where
  | admitted {s : Shelf Id} {id : Id} {bytes pixels : JsNumber} {evict : Option (Callback Id)} {b p : Nat}
      {gone left : List (Item Id)} (alone : limits.Alone bytes pixels b p)
      (evicts : Evicts (limits.Fits b p) (without Item.id id s.items) gone left) :
      Step limits hears s (.admitEntry id bytes pixels evict true)
        { items := left ++ [⟨id, b, p⟩], told := if evict.isSome || hears then s.told ++ gone else s.told }
  | refused {s : Shelf Id} {id : Id} {bytes pixels : JsNumber} {evict : Option (Callback Id)}
      (large : ∀ b p, ¬ limits.Alone bytes pixels b p) :
      Step limits hears s (.admitEntry id bytes pixels evict false) s
  | touched {s : Shelf Id} {id : Id} :
      Step limits hears s (.touch id) { s with items := touched Item.id id s.items }
  | removed {s : Shelf Id} {id : Id} :
      Step limits hears s (.remove id (decide (id ∈ s.items.map Item.id)))
        { s with items := without Item.id id s.items }
  | cleared {s : Shelf Id} : Step limits hears s .clear { s with items := [] }

def lru (limits : Limits) (hears : Bool) : Machine (Shelf Id) (Call Id) where
  init s := s = {}
  step := Shelf.Step limits hears

/-! ## Sums and ticks below 2^53 -/

/-- The limits a JavaScript number holds exactly; one entry is allowed. -/
structure Limits.Safe (limits : Limits) : Prop where
  one : 0 < limits.livePreviews
  bytes : limits.retainedBlobBytes ≤ Browser.maxSafeInteger
  pixels : limits.livePixels ≤ Browser.maxSafeInteger

theorem plus_exact {a b : Nat} (small : a + b ≤ Browser.maxSafeInteger) : plus a b = a + b := by
  apply Rounding.roundNearest_exact
  unfold Browser.maxSafeInteger at small
  unfold Rounding.precision
  omega

/-- A sum past a safe limit is past it when rounded, and no other one is. -/
theorem exceeds_iff {a b limit : Nat} (safe : limit ≤ Browser.maxSafeInteger) : limit < plus a b ↔ limit < a + b := by
  by_cases small : a + b ≤ Browser.maxSafeInteger
  · rw [plus_exact small]
  · have large : 2 ^ Rounding.precision ≤ plus a b := by
      apply Rounding.le_roundNearest
      unfold Browser.maxSafeInteger at small
      unfold Rounding.precision
      omega
    unfold Browser.maxSafeInteger at safe small
    unfold Rounding.precision at large
    omega

theorem foldl_plus {α : Type} {size : α → Nat} {xs : List α} {start : Nat}
    (small : start + (xs.map size).sum ≤ Browser.maxSafeInteger) :
    xs.foldl (fun sum x => plus sum (size x)) start = start + (xs.map size).sum := by
  induction xs generalizing start with
  | nil => rfl
  | cons x xs ih =>
    rw [List.map_cons, List.sum_cons] at small ⊢
    rw [List.foldl_cons, plus_exact (by omega), ih (by omega)]
    omega

omit [DecidableEq Id] in
theorem Limits.Within.sublist {limits : Limits} {items part : List (Item Id)} (within : limits.Within items)
    (some : part.Sublist items) : limits.Within part := by
  obtain ⟨few, bytes, pixels⟩ := within
  refine ⟨Nat.le_trans some.length_le few, Nat.le_trans ?_ bytes, Nat.le_trans ?_ pixels⟩
  · exact (some.map _).sum_le_sum fun _ _ => Nat.zero_le _
  · exact (some.map _).sum_le_sum fun _ _ => Nat.zero_le _

omit [DecidableEq Id] in
theorem Limits.Within.perm {limits : Limits} {items items' : List (Item Id)} (within : limits.Within items)
    (same : items.Perm items') : limits.Within items' := by
  obtain ⟨few, bytes, pixels⟩ := within
  rw [same.length_eq] at few
  rw [(same.map _).sum_eq] at bytes pixels
  exact ⟨few, bytes, pixels⟩

namespace PreviewMemory
variable {m : PreviewMemory Id} {xs : List (Id × Entry)}

/-- The entries in the order of their ticks. -/
structure Holds (m : PreviewMemory Id) (xs : List (Id × Entry)) : Prop where
  same : xs.Perm m.entries
  distinct : (xs.map Prod.fst).Nodup
  stamped : Stamped (fun entry => entry.2.used) m.tick xs

theorem Holds.has_iff (holds : m.Holds xs) (id : Id) : m.has id = true ↔ id ∈ xs.map Prod.fst := by
  simp [has, holds.same.mem_iff]

omit [DecidableEq Id] in
theorem Holds.oldest (holds : m.Holds (x :: xs)) : m.oldest = some x := by
  rw [PreviewMemory.oldest, holds.stamped.sorted holds.same]
  rfl

theorem Holds.removed (holds : m.Holds xs) (id : Id) : (m.remove id).1.Holds (without Prod.fst id xs) where
  same := holds.same.filter _
  distinct := holds.distinct.sublist (without_sublist.map _)
  stamped := holds.stamped.sublist without_sublist

omit [DecidableEq Id] in
/-- Over entries that sum to a safe integer, a rounded sum is the sum. -/
theorem Holds.sum (holds : m.Holds xs) (size : Item Id → Nat)
    (small : ((xs.map item).map size).sum ≤ Browser.maxSafeInteger) :
    m.entries.foldl (fun sum entry => plus sum (size (item entry))) 0 = ((xs.map item).map size).sum := by
  rw [List.map_map] at small ⊢
  have same : (xs.map (size ∘ item)).sum = (m.entries.map (size ∘ item)).sum := (holds.same.map _).sum_eq
  rw [same] at small ⊢
  exact (foldl_plus (by rwa [Nat.zero_add])).trans (Nat.zero_add _)

omit [DecidableEq Id] in
theorem Holds.crowded_iff (holds : m.Holds xs) (safe : m.limits.Safe)
    (within : m.limits.Within (xs.map item)) (bytes pixels : Nat) :
    m.crowded bytes pixels = true ↔ ¬ m.limits.Fits bytes pixels (xs.map item) := by
  obtain ⟨_, someBytes, somePixels⟩ := within
  have size : m.entries.length = xs.length := holds.same.length_eq.symm
  rw [crowded, Bool.or_eq_true, Bool.or_eq_true, decide_eq_true_eq, decide_eq_true_eq, decide_eq_true_eq,
    exceeds_iff safe.bytes, exceeds_iff safe.pixels, size,
    show m.bytes = _ from holds.sum Item.bytes (Nat.le_trans someBytes safe.bytes),
    show m.pixels = _ from holds.sum Item.pixels (Nat.le_trans somePixels safe.pixels)]
  unfold Limits.Fits
  rw [List.length_map]
  omega

/-- What is deleted is out of reach of the calls its callback makes. -/
theorem own_absent {id : Id} (absent : m.has id = false) (act : OwnCall) : m.own id act = m := by
  cases act with
  | touch => exact if_neg (by simp [absent])
  | remove =>
    have same : without Prod.fst id m.entries = m.entries := by
      apply without_absent
      rintro member
      obtain ⟨entry, among, is⟩ := List.mem_map.mp member
      have present : m.has id = true := List.any_eq_true.mpr ⟨entry, among, by simpa using is⟩
      cases absent.symm.trans present
    simp only [own, remove, same]

theorem notify_absent {x : Id × Entry} (absent : m.has x.1 = false) (callback : Option (Callback Id)) :
    m.notify callback x = { m with told := if callback.isSome then m.told ++ [x] else m.told } := by
  cases callback with
  | none => rfl
  | some acts =>
    have still : ∀ calls : List OwnCall,
        calls.foldl (fun m act => m.own x.1 act) { m with told := m.told ++ [x] } =
          { m with told := m.told ++ [x] } := by
      intro calls
      induction calls with
      | nil => rfl
      | cons act calls ih =>
        rw [List.foldl_cons, own_absent (by exact absent), ih]
    exact still _

/-- What the loop of `admit` leaves. -/
structure Roomed (m : PreviewMemory Id) (callback : Option (Callback Id)) (bytes pixels : Nat)
    (xs gone left : List (Id × Entry)) (m' : PreviewMemory Id) : Prop where
  evicts : Evicts (fun kept => m.limits.Fits bytes pixels (kept.map item)) xs gone left
  holds : m'.Holds left
  rest : m' = { m with entries := m'.entries,
                       told := if callback.isSome then m.told ++ gone else m.told }

theorem Holds.makeRoom (holds : m.Holds xs) (safe : m.limits.Safe)
    (within : m.limits.Within (xs.map item)) (callback : Option (Callback Id)) {bytes pixels : Nat}
    (small : bytes ≤ m.limits.retainedBlobBytes ∧ pixels ≤ m.limits.livePixels) :
    ∃ gone left, m.Roomed callback bytes pixels xs gone left (makeRoom callback bytes pixels m) := by
  induction xs generalizing m with
  | nil =>
    have roomy : m.limits.Fits bytes pixels (([] : List (Id × Entry)).map item) :=
      ⟨safe.one, by simpa using small.1, by simpa using small.2⟩
    have uncrowded : m.crowded bytes pixels = false := by
      rw [← Bool.not_eq_true, holds.crowded_iff safe within]
      exact not_not.mpr roomy
    rw [makeRoom_roomy uncrowded]
    exact ⟨[], [], .none roomy, holds, by simp⟩
  | cons x xs ih =>
    by_cases roomy : m.limits.Fits bytes pixels ((x :: xs).map item)
    · have uncrowded : m.crowded bytes pixels = false := by
        rw [← Bool.not_eq_true, holds.crowded_iff safe within]
        exact not_not.mpr roomy
      rw [makeRoom_roomy uncrowded]
      exact ⟨[], x :: xs, .none roomy, holds, by simp⟩
    · have crowded : m.crowded bytes pixels = true := (holds.crowded_iff safe within _ _).mpr roomy
      obtain ⟨absent, _⟩ := List.nodup_cons.mp holds.distinct
      have deleted : (m.remove x.1).1.Holds xs := by
        have kept := holds.removed x.1
        rwa [without_cons_self x absent] at kept
      have gone : (m.remove x.1).1.has x.1 = false := by
        rw [← Bool.not_eq_true, deleted.has_iff]
        exact absent
      have told := notify_absent gone callback
      rw [makeRoom_crowded crowded holds.oldest]
      generalize (m.remove x.1).1.notify callback x = n at told
      have limits : n.limits = m.limits := by
        rw [told]
        rfl
      have next : n.Holds xs := by
        rw [told]
        exact ⟨deleted.same, deleted.distinct, deleted.stamped⟩
      rw [← limits] at safe within small
      obtain ⟨evicted, left, evicts, holds', rest⟩ :=
        ih next safe (within.sublist (List.sublist_cons_self _ _)) small
      rw [limits] at evicts
      refine ⟨x :: evicted, left, .next roomy evicts, holds', ?_⟩
      rw [rest, told]
      cases callback with
      | none => rfl
      | some acts => simp [remove]

end PreviewMemory

/-! ## The memory is the cache -/

/-- A call's outcome, as the cache sees it. -/
structure Follows (m : PreviewMemory Id) (xs : List (Id × Entry)) (call : Call Id) (m' : PreviewMemory Id)
    (ys : List (Id × Entry)) : Prop where
  holds : m'.Holds ys
  within : m.limits.Within (ys.map item)
  fixed : m'.limits = m.limits ∧ m'.onEvict = m.onEvict
  tick : m'.tick ≤ m.tick + 1
  step : Shelf.Step m.limits m.onEvict.isSome ⟨xs.map item, m.told.map item⟩ call
    ⟨ys.map item, m'.told.map item⟩

section
variable {m : PreviewMemory Id} {xs : List (Id × Entry)}

theorem follows_touch (holds : m.Holds xs) (within : m.limits.Within (xs.map item))
    (fresh : m.tick < Browser.maxSafeInteger) (id : Id) : ∃ ys, Follows m xs (.touch id) (m.touch id) ys := by
  have apart : without Item.id id (xs.map item) = (without Prod.fst id xs).map item :=
    without_map (fun _ => rfl) xs
  by_cases present : m.has id = true
  · obtain ⟨x, member, rfl⟩ := List.mem_map.mp ((holds.has_iff id).mp present)
    have now : plus m.tick 1 = m.tick + 1 := plus_exact fresh
    have touch : m.touch x.1 = { m with
        entries := m.entries.map fun entry =>
          if entry.1 = x.1 then (x.1, { entry.2 with used := m.tick + 1 }) else entry
        tick := m.tick + 1 } := by
      rw [PreviewMemory.touch, if_pos present, now]
    have items : (without Prod.fst x.1 xs ++ [(x.1, { x.2 with used := m.tick + 1 })]).map item =
        touched Item.id x.1 (xs.map item) := by
      have one : [(x.1, { x.2 with used := m.tick + 1 })].map item =
          (xs.filter fun y => y.1 = x.1).map item := by
        rw [filter_key holds.distinct member]
        rfl
      rw [touched, apart, List.map_append, List.filter_map, one]
      rfl
    refine ⟨without Prod.fst x.1 xs ++ [(x.1, { x.2 with used := m.tick + 1 })], ⟨?_, ?_, ?_⟩, ?_, ?_, ?_, ?_⟩
    · rw [touch]
      refine (renewed_perm (fun entry => (x.1, { entry.2 with used := m.tick + 1 })) holds.distinct
        member).symm.trans (holds.same.map _)
    · rw [List.map_append]
      refine List.nodup_append'.mpr ⟨holds.distinct.sublist (without_sublist.map _), List.nodup_singleton _, ?_⟩
      exact List.disjoint_singleton.mpr not_mem_without
    · rw [touch]
      exact (holds.stamped.sublist without_sublist).snoc rfl
    · rw [items]
      exact within.perm (touched_perm _).symm
    · rw [touch]
      exact ⟨rfl, rfl⟩
    · rw [touch]
    · rw [items, touch]
      exact .touched
  · have same : m.touch id = m := if_neg present
    have step := @Shelf.Step.touched _ _ m.limits m.onEvict.isSome ⟨xs.map item, m.told.map item⟩ id
    have absent : id ∉ (xs.map item).map Item.id := by
      rw [List.map_map]
      exact fun member => present ((holds.has_iff id).mpr member)
    rw [touched_absent absent] at step
    rw [same]
    exact ⟨xs, holds, within, ⟨rfl, rfl⟩, Nat.le_succ _, step⟩

theorem follows_remove (holds : m.Holds xs) (within : m.limits.Within (xs.map item)) (id : Id) :
    ∃ ys, Follows m xs (.remove id (m.remove id).2) (m.remove id).1 ys := by
  have returned : m.has id = decide (id ∈ (xs.map item).map Item.id) := by
    rw [List.map_map, Bool.eq_iff_iff, holds.has_iff, decide_eq_true_eq]
    rfl
  have apart : without Item.id id (xs.map item) = (without Prod.fst id xs).map item :=
    without_map (fun _ => rfl) xs
  have step := @Shelf.Step.removed _ _ m.limits m.onEvict.isSome ⟨xs.map item, m.told.map item⟩ id
  rw [← returned, apart] at step
  refine ⟨without Prod.fst id xs, holds.removed id, ?_, ⟨rfl, rfl⟩, Nat.le_succ _, step⟩
  exact within.sublist (without_sublist.map _)

theorem follows_clear : ∃ ys, Follows m xs .clear m.clear ys := by
  refine ⟨[], ⟨.nil, List.nodup_nil, .nil, ?_⟩, ?_, ⟨rfl, rfl⟩, Nat.le_succ _, .cleared⟩
  · intro entry member
    cases member
  · exact ⟨Nat.zero_le _, Nat.zero_le _, Nat.zero_le _⟩

/-- The check of `admit`. -/
theorem refuses_iff (limits : Limits) (bytes pixels : Int) :
    (!Browser.isSafeInteger (some bytes) || !Browser.isSafeInteger (some pixels) || bytes < 0 || pixels < 0 ||
      limits.retainedBlobBytes < bytes || limits.livePixels < pixels) = false ↔
      limits.Alone (some bytes) (some pixels) bytes.toNat pixels.toNat := by
  simp only [Browser.isSafeInteger, Bool.or_eq_false_iff, Bool.not_eq_false', decide_eq_true_eq,
    decide_eq_false_iff_not]
  constructor
  · intro fits
    refine ⟨⟨congrArg some ?_, ?_, ?_⟩, ⟨congrArg some ?_, ?_, ?_⟩⟩
    all_goals omega
  · rintro ⟨⟨bytes', _⟩, ⟨pixels', _⟩⟩
    have := Option.some.inj bytes'
    have := Option.some.inj pixels'
    omega

omit [DecidableEq Id] in
/-- There is room for one more after the loop. -/
theorem Limits.Fits.within {limits : Limits} {kept : List (Item Id)} {b p : Nat}
    (fits : limits.Fits b p kept) (id : Id) : limits.Within (kept ++ [⟨id, b, p⟩]) := by
  obtain ⟨few, bytes, pixels⟩ := fits
  refine ⟨?_, ?_, ?_⟩
  · rwa [List.length_append]
  · rwa [List.map_append, List.sum_append]
  · rwa [List.map_append, List.sum_append]

/-- `admit` where it returns true. -/
theorem admit_alone (alone : m.limits.Alone bytes pixels b p) (id : Id) (evict : Option (Callback Id)) :
    m.admitEntry id bytes pixels evict =
      let n := (m.remove id).1.makeRoom (evict.or m.onEvict) b p
      ({ n with entries := n.set id ⟨b, p, plus n.tick 1⟩, tick := plus n.tick 1 }, true) := by
  have is := alone
  obtain ⟨⟨rfl, _⟩, ⟨rfl, _⟩⟩ := is
  exact if_neg (Bool.not_eq_true _ ▸ (refuses_iff _ _ _).mpr alone)

theorem admit_large (large : ∀ b p, ¬ m.limits.Alone bytes pixels b p) (id : Id)
    (evict : Option (Callback Id)) : m.admitEntry id bytes pixels evict = (m, false) := by
  cases bytes with
  | none => rfl
  | some bytes =>
    cases pixels with
    | none => rfl
    | some pixels =>
      refine if_pos ?_
      rw [← Bool.not_eq_false, refuses_iff]
      exact large _ _

theorem follows_admit (safe : m.limits.Safe) (holds : m.Holds xs) (within : m.limits.Within (xs.map item))
    (fresh : m.tick < Browser.maxSafeInteger) (id : Id) (bytes pixels : JsNumber) (evict : Option (Callback Id)) :
    ∃ ys, Follows m xs (.admitEntry id bytes pixels evict (m.admitEntry id bytes pixels evict).2)
      (m.admitEntry id bytes pixels evict).1 ys := by
  by_cases large : ∀ b p, ¬ m.limits.Alone bytes pixels b p
  · rw [admit_large large]
    exact ⟨xs, holds, within, ⟨rfl, rfl⟩, Nat.le_succ _, .refused large⟩
  · simp only [not_forall, not_not] at large
    obtain ⟨b, p, alone⟩ := large
    have apart : without Item.id id (xs.map item) = (without Prod.fst id xs).map item :=
      without_map (fun _ => rfl) xs
    obtain ⟨gone, left, evicts, kept, rest⟩ := (holds.removed id).makeRoom safe
      (within.sublist (without_sublist.map _)) (evict.or m.onEvict) ⟨alone.bytes.2.2, alone.pixels.2.2⟩
    generalize room : PreviewMemory.makeRoom (evict.or m.onEvict) b p
      (m.remove id).1 = n at kept rest
    have tick : n.tick = m.tick := (congrArg PreviewMemory.tick rest).trans rfl
    have told : n.told.map item = if evict.isSome || m.onEvict.isSome then
        m.told.map item ++ gone.map item else m.told.map item := by
      rw [(congrArg PreviewMemory.told rest).trans rfl, Option.isSome_or]
      exact (apply_ite _ _ _ _).trans (by rw [List.map_append]; rfl)
    have absent : id ∉ left.map Prod.fst := by
      intro member
      have among : left.Sublist (without Prod.fst id xs) := evicts.split ▸ List.sublist_append_right _ _
      exact not_mem_without ((among.map _).subset member)
    have new : n.has id = false := by
      rw [← Bool.not_eq_true, kept.has_iff]
      exact absent
    have returned : m.admitEntry id bytes pixels evict =
        ({ n with entries := n.entries ++ [(id, ⟨b, p, m.tick + 1⟩)], tick := m.tick + 1 }, true) := by
      have now : plus m.tick 1 = m.tick + 1 := plus_exact fresh
      rw [admit_alone alone, room]
      simp only [PreviewMemory.set, new, tick, now]
      rfl
    rw [returned]
    refine ⟨left ++ [(id, ⟨b, p, m.tick + 1⟩)], ⟨?_, ?_, ?_⟩, ?_, ?_, ?_, ?_⟩
    · exact kept.same.append_right _
    · rw [List.map_append]
      refine List.nodup_append'.mpr ⟨kept.distinct, List.nodup_singleton _, ?_⟩
      exact List.disjoint_singleton.mpr absent
    · exact (tick ▸ kept.stamped).snoc rfl
    · rw [List.map_append]
      exact Limits.Fits.within evicts.enough id
    · rw [rest]
      exact ⟨rfl, rfl⟩
    · exact Nat.le_refl _
    · have step := @Shelf.Step.admitted _ _ m.limits m.onEvict.isSome ⟨xs.map item, m.told.map item⟩ id
        _ _ evict _ _ _ _ alone (apart ▸ evicts.map)
      rw [← told] at step
      rw [List.map_append]
      exact step

theorem follows (safe : m.limits.Safe) (holds : m.Holds xs) (within : m.limits.Within (xs.map item))
    (fresh : m.tick < Browser.maxSafeInteger) (step : (calls limits onEvict).step m call m') :
    ∃ ys, Follows m xs call m' ys := by
  cases call with
  | admitEntry id bytes pixels evict returned =>
    have followed := follows_admit safe holds within fresh id bytes pixels evict
    rwa [show m.admitEntry id bytes pixels evict = (m', returned) from step] at followed
  | touch id =>
    have followed := follows_touch holds within fresh id
    rwa [show m.touch id = m' from step] at followed
  | remove id returned =>
    have followed := follows_remove holds within id
    rwa [show m.remove id = (m', returned) from step] at followed
  | clear =>
    have followed := @follows_clear _ _ m xs
    rwa [show m.clear = m' from step] at followed

end

variable {limits : Limits} {onEvict : Option (Callback Id)} {m : PreviewMemory Id}

/-- Each tick counts a call, and a run of the memory is one of the cache. -/
theorem run_cached (safe : limits.Safe) (run : (calls limits onEvict).Run cs m)
    (few : cs.length ≤ Browser.maxSafeInteger) :
    ∃ xs, m.Holds xs ∧ limits.Within (xs.map item) ∧ (m.limits = limits ∧ m.onEvict = onEvict) ∧
      m.tick ≤ cs.length ∧ (lru limits onEvict.isSome).Run cs ⟨xs.map item, m.told.map item⟩ := by
  induction run with
  | start initial =>
    cases initial
    refine ⟨[], ⟨.nil, List.nodup_nil, .nil, ?_⟩, ?_, ⟨rfl, rfl⟩, Nat.le_refl _, .start rfl⟩
    · intro entry member
      cases member
    · exact ⟨Nat.zero_le _, Nat.zero_le _, Nat.zero_le _⟩
  | next _ step ih =>
    rw [List.length_append, List.length_singleton] at few
    obtain ⟨xs, holds, within, ⟨rfl, rfl⟩, counted, run⟩ := ih (by omega)
    obtain ⟨ys, followed⟩ := follows safe holds within (by omega) step
    refine ⟨ys, followed.holds, followed.within, followed.fixed, ?_, .next run followed.step⟩
    have := followed.tick
    rw [List.length_append, List.length_singleton]
    omega

/-- The entries keep to the limits, and the run is one of the cache. -/
def Kept (limits : Limits) (onEvict : Option (Callback Id)) (cs : List (Call Id)) (m : PreviewMemory Id) : Prop :=
  limits.Within (m.entries.map item) ∧
    ∃ items, items.Perm (m.entries.map item) ∧
      (lru limits onEvict.isSome).Run cs ⟨items, m.told.map item⟩

theorem entered {limits : Limits} {onEvict : Option (Callback Nat)} {entries entries' : List (Nat × Entry)}
    {told told' : List (Nat × Entry)} {i b p tick t : Nat} (alone : limits.Alone bytes pixels b p)
    (room : PreviewMemory.makeRoom onEvict b p (PreviewMemory.remove ⟨limits, onEvict, entries, tick, told⟩ i).1 =
      ⟨limits, onEvict, entries', tick, told'⟩)
    (new : PreviewMemory.has ⟨limits, onEvict, entries', tick, told'⟩ i = false) (now : plus tick 1 = t) :
    (calls limits onEvict).step ⟨limits, onEvict, entries, tick, told⟩ (.admitEntry i bytes pixels none true)
      ⟨limits, onEvict, entries' ++ [(i, ⟨b, p, t⟩)], t, told'⟩ := by
  change PreviewMemory.admitEntry _ _ _ _ _ = _
  rw [admit_alone alone]
  simp only [Option.none_or, room, now, PreviewMemory.set, new]
  rfl

def heard : Option (Callback Nat) := some fun _ => []

/-- Below 2^53 a memory is a least-recently-used cache of minimal evictions. -/
theorem budget_kept (safe : limits.Safe) (run : (calls limits onEvict).Run cs m)
    (few : cs.length ≤ Browser.maxSafeInteger) :
    Kept limits onEvict cs m ∧ ∀ id bytes pixels evict,
      ((m.admitEntry id bytes pixels evict).2 = true ↔ ∃ b p, limits.Alone bytes pixels b p) ∧
      ((m.admitEntry id bytes pixels evict).2 = false → (m.admitEntry id bytes pixels evict).1 = m) := by
  obtain ⟨xs, holds, within, ⟨rfl, rfl⟩, _, cached⟩ := run_cached safe run few
  have same : (xs.map item).Perm (m.entries.map item) := holds.same.map item
  refine ⟨⟨within.perm same, _, same, cached⟩, fun id bytes pixels evict => ?_⟩
  by_cases large : ∀ b p, ¬ m.limits.Alone bytes pixels b p
  · rw [admit_large large]
    have none : ¬ ∃ b p, m.limits.Alone bytes pixels b p := fun ⟨b, p, alone⟩ => large b p alone
    simp [none]
  · simp only [not_forall, not_not] at large
    obtain ⟨b, p, alone⟩ := large
    rw [admit_alone alone]
    simp only [true_iff, reduceCtorEq, false_implies, and_true]
    exact ⟨b, p, alone⟩

theorem budget_kept_evicting : Kept ⟨1, 5, 7⟩ heard
    ([.admitEntry 0 (some 5) (some 7) none true] ++ [.admitEntry 1 (some 2) (some 3) none true])
    ⟨⟨1, 5, 7⟩, heard, [(1, ⟨2, 3, 2⟩)], 2, [(0, ⟨5, 7, 1⟩)]⟩ := by
  have first : (calls ⟨1, 5, 7⟩ heard).Run ([] ++ [.admitEntry 0 (some 5) (some 7) none true])
      ⟨⟨1, 5, 7⟩, heard, [(0, ⟨5, 7, 1⟩)], 1, []⟩ := by
    refine .next (.start rfl) (entered (b := 5) (p := 7) ⟨⟨rfl, ?_, ?_⟩, ⟨rfl, ?_, ?_⟩⟩
      (PreviewMemory.makeRoom_roomy ?_) rfl ?_)
    all_goals decide
  have oldest : PreviewMemory.oldest ⟨⟨1, 5, 7⟩, heard, [(0, ⟨5, 7, 1⟩)], 1, []⟩ = some (0, ⟨5, 7, 1⟩) := by
    rw [PreviewMemory.oldest, List.mergeSort_singleton]
    rfl
  have room : PreviewMemory.makeRoom heard 2 3 ⟨⟨1, 5, 7⟩, heard, [(0, ⟨5, 7, 1⟩)], 1, []⟩ =
      ⟨⟨1, 5, 7⟩, heard, [], 1, [(0, ⟨5, 7, 1⟩)]⟩ :=
    (PreviewMemory.makeRoom_crowded (by decide) oldest).trans (PreviewMemory.makeRoom_roomy (by decide))
  have second : (calls ⟨1, 5, 7⟩ heard).step ⟨⟨1, 5, 7⟩, heard, [(0, ⟨5, 7, 1⟩)], 1, []⟩
      (.admitEntry 1 (some 2) (some 3) none true)
      ⟨⟨1, 5, 7⟩, heard, [] ++ [(1, ⟨2, 3, 2⟩)], 2, [(0, ⟨5, 7, 1⟩)]⟩ :=
    entered ⟨⟨rfl, by decide, by decide⟩, ⟨rfl, by decide, by decide⟩⟩ room rfl (by decide)
  exact (budget_kept ⟨by decide, by decide, by decide⟩ (.next first second) (by decide)).1

end

/-! ## Past 2^53 -/

/-- The bytes sum to one more than the limit, which the rounded sum equals. -/
theorem overfull : (calls ⟨2, 2 ^ 53, 0⟩ none).Run
    ([.admitEntry 0 (some (2 ^ 53 - 1)) (some 0) none true] ++ [.admitEntry 1 (some 2) (some 0) none true])
    ⟨⟨2, 2 ^ 53, 0⟩, none, [(0, ⟨2 ^ 53 - 1, 0, 1⟩), (1, ⟨2, 0, 2⟩)], 2, []⟩ := by
  have first : (calls ⟨2, 2 ^ 53, 0⟩ none).Run ([] ++ [.admitEntry 0 (some (2 ^ 53 - 1)) (some 0) none true])
      ⟨⟨2, 2 ^ 53, 0⟩, none, [(0, ⟨2 ^ 53 - 1, 0, 1⟩)], 1, []⟩ := by
    refine .next (.start rfl) (entered (b := 2 ^ 53 - 1) (p := 0) ⟨⟨rfl, ?_, ?_⟩, ⟨rfl, ?_, ?_⟩⟩
      (PreviewMemory.makeRoom_roomy ?_) rfl ?_)
    all_goals decide
  refine .next first (entered (b := 2) (p := 0) ⟨⟨rfl, ?_, ?_⟩, ⟨rfl, ?_, ?_⟩⟩
      (PreviewMemory.makeRoom_roomy ?_) rfl ?_)
  all_goals decide

/-- Two empty items are held at a time. -/
def pair : Limits := ⟨2, 0, 0⟩

def enters (i : Nat) : Call Nat := .admitEntry i (some 0) (some 0) none true

theorem pair_alone : pair.Alone (some 0) (some 0) 0 0 where
  bytes := ⟨rfl, by decide, by decide⟩
  pixels := ⟨rfl, by decide, by decide⟩

/-- An item used as often as the ticks tell apart. -/
def worn (n : Nat) : List (Call Nat) := enters 0 :: List.replicate n (.touch 0)

theorem worn_succ (n : Nat) : worn (n + 1) = worn n ++ [.touch 0] :=
  congrArg (enters 0 :: ·) List.replicate_succ'

theorem worn_run (few : n + 1 ≤ Browser.maxSafeInteger) :
    (calls pair heard).Run (worn n) ⟨pair, heard, [(0, ⟨0, 0, n + 1⟩)], n + 1, []⟩ := by
  induction n with
  | zero =>
    change (calls pair heard).Run ([] ++ [enters 0]) _
    exact .next (.start rfl) (entered pair_alone (PreviewMemory.makeRoom_roomy (by decide)) rfl (by decide))
  | succ n ih =>
    rw [worn_succ]
    refine .next (ih (by omega)) ?_
    have now : plus (n + 1) 1 = n + 1 + 1 := plus_exact few
    refine (if_pos (by rfl)).trans ?_
    simp only [now]
    rfl

/-- The item that is used last of all has the tick of the one before it, and goes first. -/
theorem mistaken : (calls pair heard).Run (worn (2 ^ 53 - 2) ++ [enters 1] ++ [.touch 0] ++ [enters 2])
    ⟨pair, heard, [(1, ⟨0, 0, 2 ^ 53⟩), (2, ⟨0, 0, 2 ^ 53⟩)], 2 ^ 53, [(0, ⟨0, 0, 2 ^ 53⟩)]⟩ := by
  have entry : (calls pair heard).Run (worn (2 ^ 53 - 2) ++ [enters 1])
      ⟨pair, heard, [(0, ⟨0, 0, 2 ^ 53 - 1⟩), (1, ⟨0, 0, 2 ^ 53⟩)], 2 ^ 53, []⟩ :=
    .next (worn_run (by decide)) (entered pair_alone (PreviewMemory.makeRoom_roomy (by decide)) rfl (by decide))
  have use : (calls pair heard).step
      ⟨pair, heard, [(0, ⟨0, 0, 2 ^ 53 - 1⟩), (1, ⟨0, 0, 2 ^ 53⟩)], 2 ^ 53, []⟩ (.touch 0)
      ⟨pair, heard, [(0, ⟨0, 0, 2 ^ 53⟩), (1, ⟨0, 0, 2 ^ 53⟩)], 2 ^ 53, []⟩ := by
    have now : plus (2 ^ 53) 1 = 2 ^ 53 := by decide
    refine (if_pos (by rfl)).trans ?_
    simp only [now]
    rfl
  have oldest : PreviewMemory.oldest ⟨pair, heard, [(0, ⟨0, 0, 2 ^ 53⟩), (1, ⟨0, 0, 2 ^ 53⟩)], 2 ^ 53, []⟩ =
      some (0, ⟨0, 0, 2 ^ 53⟩) := by
    rw [PreviewMemory.oldest, List.mergeSort_of_pairwise (by simp)]
    rfl
  have room : PreviewMemory.makeRoom heard 0 0
      ⟨pair, heard, [(0, ⟨0, 0, 2 ^ 53⟩), (1, ⟨0, 0, 2 ^ 53⟩)], 2 ^ 53, []⟩ =
        ⟨pair, heard, [(1, ⟨0, 0, 2 ^ 53⟩)], 2 ^ 53, [(0, ⟨0, 0, 2 ^ 53⟩)]⟩ :=
    (PreviewMemory.makeRoom_crowded (by decide) oldest).trans (PreviewMemory.makeRoom_roomy (by decide))
  have last : (calls pair heard).step
      ⟨pair, heard, [(0, ⟨0, 0, 2 ^ 53⟩), (1, ⟨0, 0, 2 ^ 53⟩)], 2 ^ 53, []⟩ (enters 2)
      ⟨pair, heard, [(1, ⟨0, 0, 2 ^ 53⟩)] ++ [(2, ⟨0, 0, 2 ^ 53⟩)], 2 ^ 53, [(0, ⟨0, 0, 2 ^ 53⟩)]⟩ :=
    entered pair_alone room rfl (by decide)
  exact .next (.next entry use) last

/-- What the cache evicts is determined. -/
theorem shelf_enters {s s' : Shelf Nat} (step : Shelf.Step pair true s (enters i) s')
    (evicts : Evicts (pair.Fits 0 0) (without Item.id i s.items) gone left) :
    s' = ⟨left ++ [⟨i, 0, 0⟩], s.told ++ gone⟩ := by
  cases step with
  | admitted alone evicts' =>
    cases Int.ofNat.inj (Option.some.inj alone.bytes.1)
    cases Int.ofNat.inj (Option.some.inj alone.pixels.1)
    obtain ⟨rfl, rfl⟩ := evicts'.unique evicts
    rfl

theorem worn_shelf (run : (lru pair true).Run (worn n) s) : s = ⟨[⟨0, 0, 0⟩], []⟩ := by
  induction n generalizing s with
  | zero =>
    have first : (lru pair true).Run ([] ++ [enters 0]) s := run
    obtain ⟨before, run, step⟩ := first.last
    cases run.initial
    exact shelf_enters step (.none (by decide))
  | succ n ih =>
    rw [worn_succ] at run
    obtain ⟨before, run, step⟩ := run.last
    cases ih run
    cases step
    rfl

/-- The cache evicts the other item in that run. -/
theorem spared (run : (lru pair true).Run (worn n ++ [enters 1] ++ [.touch 0] ++ [enters 2]) s) :
    s.told = [⟨1, 0, 0⟩] := by
  obtain ⟨third, run, last⟩ := run.last
  obtain ⟨second, run, use⟩ := run.last
  obtain ⟨first, run, entry⟩ := run.last
  cases worn_shelf run
  cases shelf_enters entry (.none (by decide))
  cases use
  cases shelf_enters last (.next (by decide) (.none (by decide)))
  rfl

/-- Past 2^53 the rounded sums let too many bytes in, and the ticks no longer order the uses. -/
theorem budget_exceeded :
    (¬ ∀ (limits : Limits) (onEvict : Option (Callback Nat)) (cs : List (Call Nat)) (m : PreviewMemory Nat),
      0 < limits.livePreviews → cs.length ≤ Browser.maxSafeInteger → (calls limits onEvict).Run cs m →
        Kept limits onEvict cs m) ∧
    ¬ ∀ (limits : Limits) (onEvict : Option (Callback Nat)) (cs : List (Call Nat)) (m : PreviewMemory Nat),
      limits.Safe → (calls limits onEvict).Run cs m → Kept limits onEvict cs m := by
  constructor
  · intro kept
    have within := (kept _ _ _ _ (by decide) (by decide) overfull).1
    exact absurd within.2.1 (by decide)
  · intro kept
    obtain ⟨_, items, _, run⟩ := kept pair heard _ _ ⟨by decide, by decide, by decide⟩ mistaken
    cases spared run

end Conspire.Images.Budget
