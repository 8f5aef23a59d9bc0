import Mathlib.Data.List.Basic
import Mathlib.Data.List.Nodup
import Mathlib.Data.List.Sort

/-! Numbered streams. A snapshot holds consecutive numbers; a live stream is
increasing and has no gap above the number its reader starts from, so that a
reader who skips what it has already seen meets every later number next in turn.
In a stop-and-wait exchange at most two numbers are under way, the settled one first. -/
namespace Sequence

/-- The numbers `after + 1, …, upTo` in order. -/
def Consecutive (after upTo : Nat) (keys : List Nat) : Prop :=
  after ≤ upTo ∧ keys = List.range' (after + 1) (upTo - after)

/-- An increasing stream that has reached `upTo` and misses nothing above `after`. -/
structure Covers (after upTo : Nat) (keys : List Nat) : Prop where
  increasing : keys.Pairwise (· < ·)
  bounded : ∀ k ∈ keys, k ≤ upTo
  complete : ∀ n, after < n → n ≤ upTo → n ∈ keys

variable {a b c k u : Nat} {keys rest : List Nat}

namespace Consecutive

theorem nil (n : Nat) : Consecutive n n [] := ⟨Nat.le_refl n, by simp⟩

theorem snoc (run : Consecutive a b keys) : Consecutive a (b + 1) (keys ++ [b + 1]) := by
  obtain ⟨le, rfl⟩ := run
  refine ⟨by omega, ?_⟩
  have split : b + 1 - a = (b - a) + 1 := by omega
  have last : a + 1 + (b - a) = b + 1 := by omega
  rw [split, List.range'_concat, Nat.one_mul, last]

theorem append (first : Consecutive a b keys) (second : Consecutive b c rest) :
    Consecutive a c (keys ++ rest) := by
  obtain ⟨ab, rfl⟩ := first
  obtain ⟨bc, rfl⟩ := second
  refine ⟨Nat.le_trans ab bc, ?_⟩
  have start : b + 1 = a + 1 + 1 * (b - a) := by omega
  have total : c - a = (b - a) + (c - b) := by omega
  rw [start, List.range'_append, total]

theorem mem_iff (run : Consecutive a b keys) : k ∈ keys ↔ a < k ∧ k ≤ b := by
  obtain ⟨le, rfl⟩ := run
  rw [List.mem_range'_1]
  omega

theorem increasing (run : Consecutive a b keys) : keys.Pairwise (· < ·) := by
  obtain ⟨_, rfl⟩ := run
  exact List.pairwise_lt_range' ..

theorem length (run : Consecutive a b keys) : keys.length = b - a := by
  obtain ⟨_, rfl⟩ := run
  exact List.length_range'

/-- Dropping from the front moves the start. -/
theorem drop (run : Consecutive a b keys) (n : Nat) (within : a + n ≤ b) :
    Consecutive (a + n) b (keys.drop n) := by
  obtain ⟨le, rfl⟩ := run
  refine ⟨within, ?_⟩
  rw [List.drop_range', show b - a - n = b - (a + n) by omega,
    show a + 1 + n * 1 = a + n + 1 by omega]

/-- Only the numbers above a bound inside the run. -/
theorem filter (run : Consecutive a b keys) (above : a ≤ c) (below : c ≤ b) :
    Consecutive c b (keys.filter (c < ·)) := by
  obtain ⟨le, rfl⟩ := run
  refine ⟨below, ?_⟩
  have total : b - a = (c - a) + (b - c) := by omega
  have start : a + 1 + 1 * (c - a) = c + 1 := by omega
  rw [total, ← List.range'_append, List.filter_append, start]
  have front : (List.range' (a + 1) (c - a)).filter (c < ·) = [] := by
    rw [List.filter_eq_nil_iff]
    intro k inside
    rw [List.mem_range'_1] at inside
    simp only [decide_eq_true_eq]
    omega
  have back : (List.range' (c + 1) (b - c)).filter (c < ·) = List.range' (c + 1) (b - c) := by
    rw [List.filter_eq_self]
    intro k inside
    rw [List.mem_range'_1] at inside
    simp only [decide_eq_true_eq]
    omega
  rw [front, back, List.nil_append]

end Consecutive

namespace Covers

theorem nil (reached : u ≤ a) : Covers a u [] :=
  ⟨.nil, by simp, by omega⟩

/-- The stream grows by the next number. -/
theorem push (covers : Covers a u keys) : Covers a (u + 1) (keys ++ [u + 1]) where
  increasing := by
    rw [List.pairwise_append]
    refine ⟨covers.increasing, List.pairwise_singleton .., ?_⟩
    intro k old last is
    rw [List.mem_singleton] at is
    have := covers.bounded k old
    omega
  bounded := by
    intro k member
    rw [List.mem_append, List.mem_singleton] at member
    rcases member with old | last
    · have := covers.bounded k old
      omega
    · omega
  complete := by
    intro n above within
    rw [List.mem_append, List.mem_singleton]
    by_cases last : n = u + 1
    · exact .inr last
    · exact .inl (covers.complete n above (by omega))

theorem of_consecutive (run : Consecutive a b keys) : Covers a b keys :=
  ⟨run.increasing, fun _ member => (run.mem_iff.mp member).2,
    fun _ above within => run.mem_iff.mpr ⟨above, within⟩⟩

theorem raise (covers : Covers a u keys) (le : a ≤ b) : Covers b u keys :=
  ⟨covers.increasing, covers.bounded, fun n above => covers.complete n (by omega)⟩

/-- A number the reader has already seen need not be in the stream. -/
theorem extend (covers : Covers a u keys) (le : u ≤ c) (seen : c ≤ a) : Covers a c keys where
  increasing := covers.increasing
  bounded k member := by
    have := covers.bounded k member
    omega
  complete n above within := by omega

theorem reach (covers : Covers a u keys) : Covers a (max u a) keys := by
  by_cases behind : u ≤ a
  · rw [Nat.max_eq_right behind]
    exact covers.extend behind (Nat.le_refl a)
  · rwa [Nat.max_eq_left (by omega)]

theorem head_old (covers : Covers a u (k :: keys)) (old : k ≤ a) : Covers a u keys where
  increasing := covers.increasing.of_cons
  bounded k member := covers.bounded k (.tail _ member)
  complete n above within := by
    have member := covers.complete n above within
    rw [List.mem_cons] at member
    rcases member with head | member
    · omega
    · exact member

theorem head_next (covers : Covers a u (k :: keys)) (new : a < k) :
    k = a + 1 ∧ Covers (a + 1) u keys := by
  have least := (List.pairwise_cons.mp covers.increasing).1
  have within := covers.bounded k (.head _)
  have next : k = a + 1 := by
    have member := covers.complete (a + 1) (by omega) (by omega)
    rw [List.mem_cons] at member
    rcases member with head | member
    · exact head.symm
    · have := least _ member
      omega
  exact ⟨next, (covers.raise (Nat.le_succ a)).head_old (by omega)⟩

/-- A reader of the front part has missed nothing either. -/
theorem front (covers : Covers a u (keys ++ rest)) : ∃ v ≤ u, Covers a v keys := by
  obtain ⟨increasing, _, below⟩ := List.pairwise_append.mp covers.increasing
  cases rest with
  | nil => exact ⟨u, Nat.le_refl u, by simpa using covers⟩
  | cons next rest =>
    have within := covers.bounded next (by simp)
    refine ⟨next - 1, by omega, increasing, ?_, ?_⟩
    · intro k member
      have := below k member next (.head _)
      omega
    · intro n above le
      have member := covers.complete n above (by omega)
      rw [List.mem_append] at member
      rcases member with front | back
      · exact front
      · have later : next ≤ n := by
          rw [List.mem_cons] at back
          rcases back with rfl | back
          · exact Nat.le_refl _
          · have later := (List.pairwise_cons.mp (List.pairwise_append.mp covers.increasing).2.1).1
            exact Nat.le_of_lt (later n back)
        omega

/-- What follows a part that is all seen. -/
theorem back (covers : Covers a u (keys ++ rest)) (seen : ∀ k ∈ keys, k ≤ b) (start : a ≤ b) :
    Covers b (max u b) rest where
  increasing := (List.pairwise_append.mp covers.increasing).2.1
  bounded k member := by
    have := covers.bounded k (List.mem_append_right _ member)
    omega
  complete n above within := by
    have member := covers.complete n (by omega) (by omega)
    rw [List.mem_append] at member
    rcases member with front | back
    · have := seen n front
      omega
    · exact back

theorem done (covers : Covers a u []) : u ≤ a := by
  by_contra behind
  have := covers.complete u (by omega) (Nat.le_refl u)
  simp at this

end Covers

/-- Items whose keys are the numbers `after + 1, …, upTo` in order. -/
def Keyed (key : α → Option Nat) (after upTo : Nat) (items : List α) : Prop :=
  after ≤ upTo ∧ items.map key = (List.range' (after + 1) (upTo - after)).map some

namespace Keyed
variable {key : α → Option Nat} {items : List α} {item : α}

theorem nil (key : α → Option Nat) (n : Nat) : Keyed key n n [] := ⟨Nat.le_refl n, by simp⟩

theorem consecutive (run : Keyed key a b items) : Consecutive a b (items.filterMap key) := by
  refine ⟨run.1, ?_⟩
  have flat : items.filterMap key = (items.map key).filterMap id := by simp [List.filterMap_map]
  rw [flat, run.2, List.filterMap_map]
  simp

theorem length (run : Keyed key a b items) : items.length = b - a := by
  have := congrArg List.length run.2
  simpa using this

/-- The key at a position. -/
theorem getElem? (run : Keyed key a b items) {i : Nat} (is : items[i]? = some item) :
    key item = some (a + 1 + i) := by
  have inside : i < b - a := length run ▸ (List.getElem?_eq_some_iff.mp is).1
  have keys := congrArg (fun keys => keys[i]?) run.2
  simp only [List.getElem?_map, is, List.getElem?_range' inside, Option.map_some, Nat.one_mul] at keys
  exact Option.some.inj keys

theorem mem (run : Keyed key a b items) (member : item ∈ items) :
    ∃ k, key item = some k ∧ a < k ∧ k ≤ b := by
  have named : key item ∈ items.map key := List.mem_map_of_mem member
  rw [run.2, List.mem_map] at named
  obtain ⟨k, inside, eq⟩ := named
  rw [List.mem_range'_1] at inside
  have := run.1
  exact ⟨k, eq.symm, by omega, by omega⟩

/-- Every number of the run has its item. -/
theorem mem_keys (run : Keyed key a b items) : some k ∈ items.map key ↔ a < k ∧ k ≤ b := by
  have := run.1
  rw [run.2, List.mem_map_of_injective (Option.some_injective _), List.mem_range'_1]
  omega

theorem increasing (run : Keyed key a b items) : items.Pairwise fun first second =>
    ∃ m n, key first = some m ∧ key second = some n ∧ m < n := by
  have consecutive : Consecutive a b (List.range' (a + 1) (b - a)) := ⟨run.1, rfl⟩
  have ordered : (items.map key).Pairwise fun first second =>
      ∃ m n, first = some m ∧ second = some n ∧ m < n := by
    rw [run.2, List.pairwise_map]
    exact consecutive.increasing.imp fun less => ⟨_, _, rfl, rfl, less⟩
  exact List.pairwise_map.mp ordered

/-- One item for each number of the run. -/
theorem unique (run : Keyed key a b items) {first second : α} (left : first ∈ items)
    (right : second ∈ items) (same : key first = key second) : first = second := by
  have distinct : (items.map key).Nodup := by
    rw [run.2]
    exact List.Nodup.map (Option.some_injective _) List.nodup_range'
  exact List.inj_on_of_nodup_map distinct left right same

theorem snoc (run : Keyed key a b items) (next : key item = some (b + 1)) :
    Keyed key a (b + 1) (items ++ [item]) := by
  obtain ⟨le, eq⟩ := run
  refine ⟨by omega, ?_⟩
  rw [List.map_append, eq, show b + 1 - a = (b - a) + 1 by omega,
    List.range'_concat, Nat.one_mul, show a + 1 + (b - a) = b + 1 by omega]
  simp [next]

theorem drop (run : Keyed key a b items) (n : Nat) (within : a + n ≤ b) :
    Keyed key (a + n) b (items.drop n) := by
  have consecutive : Consecutive a b (List.range' (a + 1) (b - a)) := ⟨run.1, rfl⟩
  refine ⟨within, ?_⟩
  rw [List.map_drop, run.2, ← List.map_drop, (consecutive.drop n within).2]

/-- A test that only reads the number, on the items of the run. -/
theorem filter (run : Keyed key a b items) (above : a ≤ c) (below : c ≤ b) {later : α → Bool}
    (reads : ∀ item k, key item = some k → later item = decide (c < k)) :
    Keyed key c b (items.filter later) := by
  have consecutive : Consecutive a b (List.range' (a + 1) (b - a)) := ⟨run.1, rfl⟩
  refine ⟨below, ?_⟩
  rw [← (consecutive.filter above below).2]
  have read : ∀ item ∈ items,
      later item = ((fun k : Option Nat => decide (c < k.getD 0)) ∘ key) item := by
    intro item member
    obtain ⟨k, known, _⟩ := run.mem member
    simp [reads item k known, known]
  rw [List.filter_congr read, ← List.filter_map, run.2, List.filter_map]
  rfl

theorem take (run : Keyed key a b items) (n : Nat) (within : a + n ≤ b) :
    Keyed key a (a + n) (items.take n) := by
  refine ⟨by omega, ?_⟩
  rw [List.map_take, run.2, ← List.map_take, List.take_range'_of_length_ge (by omega),
    Nat.add_sub_cancel_left]

/-- The filtered items are the list without its front. -/
theorem filter_eq_drop (run : Keyed key 0 b items) (below : c ≤ b) {later : α → Bool}
    (reads : ∀ item k, key item = some k → later item = decide (c < k)) :
    items.filter later = items.drop c := by
  have early : (items.take c).filter later = [] := by
    rw [List.filter_eq_nil_iff]
    intro item member
    obtain ⟨k, known, _, le⟩ := (run.take c (by omega)).mem member
    rw [reads item k known, decide_eq_true_eq]
    omega
  have late : (items.drop c).filter later = items.drop c := by
    rw [List.filter_eq_self]
    intro item member
    obtain ⟨k, known, less, _⟩ := (run.drop c (by omega)).mem member
    rw [reads item k known, decide_eq_true_eq]
    omega
  calc items.filter later
      = (items.take c ++ items.drop c).filter later := by rw [List.take_append_drop]
    _ = items.drop c := by rw [List.filter_append, early, late, List.nil_append]

end Keyed

/-- What is under way in a stop-and-wait exchange: copies of what was settled last and then,
while something is asked, copies of it. -/
def Paced (settled : α) (asked : Option α) (flow : List α) : Prop :=
  ∃ old new, flow = old ++ new ∧ (∀ x ∈ old, x = settled) ∧ ∀ x ∈ new, asked = some x

namespace Paced
variable {settled x : α} {asked : Option α} {flow fewer : List α}

theorem nil : Paced settled asked [] := ⟨[], [], rfl, nofun, nofun⟩

/-- Losses keep the order. -/
theorem sublist (paced : Paced settled asked flow) (sub : fewer.Sublist flow) : Paced settled asked fewer := by
  obtain ⟨old, new, rfl, first, last⟩ := paced
  obtain ⟨old', new', rfl, sub, sub'⟩ := List.sublist_append_iff.mp sub
  exact ⟨old', new', rfl, fun x member => first x (sub.subset member), fun x member => last x (sub'.subset member)⟩

/-- What is asked is sent again. -/
theorem send (paced : Paced settled (some x) flow) : Paced settled (some x) (flow ++ [x]) := by
  obtain ⟨old, new, rfl, first, last⟩ := paced
  refine ⟨old, new ++ [x], List.append_assoc .., first, fun y member => ?_⟩
  rcases List.mem_append.mp member with before | here
  · exact last y before
  · rw [List.mem_singleton.mp here]

/-- Something new is asked when nothing was. -/
theorem ask (paced : Paced settled none flow) (asked : Option α) : Paced settled asked flow := by
  obtain ⟨old, new, rfl, first, last⟩ := paced
  exact ⟨old, new, rfl, first, fun x member => absurd (last x member) (by simp)⟩

/-- What comes first was settled or is asked. -/
theorem head (paced : Paced settled asked (x :: flow)) : x = settled ∨ asked = some x := by
  obtain ⟨old, new, is, first, last⟩ := paced
  cases old with
  | nil =>
    rw [List.nil_append] at is
    exact .inr (last x (is ▸ List.mem_cons_self))
  | cons y old =>
    obtain ⟨rfl, -⟩ := List.cons.inj is
    exact .inl (first x List.mem_cons_self)

/-- Once it is settled, all the rest are copies of it. -/
theorem settle (paced : Paced settled (some x) (x :: flow)) (fresh : x ≠ settled) : Paced x none flow := by
  obtain ⟨old, new, is, first, last⟩ := paced
  cases old with
  | nil =>
    rw [List.nil_append] at is
    refine ⟨flow, [], (List.append_nil flow).symm, fun y member => ?_, nofun⟩
    have same := last y (is ▸ List.mem_cons_of_mem x member)
    exact (Option.some.inj same).symm
  | cons y old =>
    obtain ⟨rfl, -⟩ := List.cons.inj is
    exact absurd (first x List.mem_cons_self) fresh

end Paced
end Sequence
