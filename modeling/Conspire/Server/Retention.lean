import Conspire.Server.Statistics
import Mathlib.Algebra.Ring.Int.Defs
import Mathlib.Data.List.Induction

/-! The window of points that sampling keeps (`Statistics::takeSample`) and what a load
leaves behind (`Statistics::loadState`). -/
namespace Conspire

/-- What happens to statistics between two loads. -/
inductive SamplingEvent where
  | count (counter : Counter) (amount : Nat)
  | sample (now : Int)

/-- All readings of the clock are microseconds since the epoch in a `v_int64`. -/
def Clocked (events : List SamplingEvent) : Prop := ∀ now, .sample now ∈ events → 0 ≤ now ∧ now < 2 ^ 63

/-- What was added to a counter in all. -/
def counted (counter : Counter) : List SamplingEvent → Nat
  | [] => 0
  | .count other amount :: rest => (if other = counter then amount else 0) + counted counter rest
  | .sample _ :: rest => counted counter rest

theorem counted_append (counter : Counter) (events more : List SamplingEvent) :
    counted counter (events ++ more) = counted counter events + counted counter more := by
  induction events with
  | nil => simp [counted]
  | cons event rest ih =>
    cases event with
    | count other amount =>
      simp only [List.cons_append, counted, ih]
      omega
    | sample now => simpa only [List.cons_append, counted] using ih

namespace Statistics
variable (periods : Periods)

def handle (s : Statistics) : SamplingEvent → Statistics
  | .count counter amount => s.count counter amount
  | .sample now => s.takeSample periods now

def after (s : Statistics) (events : List SamplingEvent) : Statistics := events.foldl (handle periods) s

theorem after_concat (s : Statistics) (events : List SamplingEvent) (event : SamplingEvent) :
    s.after periods (events ++ [event]) = handle periods (s.after periods events) event := by
  simp [after, List.foldl_append]

/-- `while (diffMicro > maxPeriodMicro)`: what is left, and `none` when `front()` is read
from an empty list. -/
def popBeyond (now : Int) : List StatPointDto → Option (List StatPointDto)
  | [] => none
  | point :: rest => if periods.maxPeriod < now - point.time then popBeyond now rest else some (point :: rest)

/-- The new point is never popped. -/
theorem popBeyond_concat {now : Int} {point : StatPointDto} (fresh : now - point.time ≤ periods.maxPeriod)
    (points : List StatPointDto) :
    popBeyond periods now (points ++ [point]) =
      some ((points ++ [point]).dropWhile fun point => decide (periods.maxPeriod < now - point.time)) := by
  induction points with
  | nil =>
    have kept : ¬ periods.maxPeriod < now - point.time := by omega
    simp [popBeyond, kept]
  | cons first rest ih =>
    by_cases beyond : periods.maxPeriod < now - first.time
    · simp only [List.cons_append, popBeyond, if_pos beyond, ih]
      rw [List.dropWhile_cons_of_pos (by simpa using beyond)]
    · simp only [List.cons_append, popBeyond, if_neg beyond]
      rw [List.dropWhile_cons_of_neg (by simpa using beyond)]

/-- What the loop leaves begins with a point within the period. -/
theorem popBeyond_first {now : Int} {points rest : List StatPointDto} {point : StatPointDto}
    (popped : popBeyond periods now points = some (point :: rest)) : now - point.time ≤ periods.maxPeriod := by
  induction points with
  | nil => cases popped
  | cons first others ih =>
    rw [popBeyond] at popped
    split at popped
    · exact ih popped
    · rename_i within
      cases popped
      omega

/-- The point that a sample adds. -/
def newPoint (s : Statistics) (now : Int) : StatPointDto :=
  s.fill { timestamp := some now, value := fun _ => none }

@[simp] theorem newPoint_time (s : Statistics) (now : Int) : (s.newPoint now).time = now := rfl

theorem pushPoint_popBeyond (s : Statistics) (now : Int) :
    popBeyond periods now (s.dataPoints ++ [s.newPoint now]) = some (s.pushPoint periods now).dataPoints := by
  have nonneg := periods.nonneg.1
  apply popBeyond_concat
  rw [newPoint_time]
  omega

/-- The old points are popped from the front, and the new one is behind the rest of them. -/
theorem pushPoint_parts (s : Statistics) (now : Int) :
    ∃ popped kept, s.dataPoints = popped ++ kept ∧
      (s.pushPoint periods now).dataPoints = kept ++ [s.newPoint now] := by
  have nonneg := periods.nonneg.1
  obtain ⟨popped, whole⟩ := List.dropWhile_suffix (l := s.dataPoints ++ [s.newPoint now])
    fun point => decide (periods.maxPeriod < now - point.time)
  change popped ++ (s.pushPoint periods now).dataPoints = _ at whole
  rcases List.eq_nil_or_concat (s.pushPoint periods now).dataPoints with empty | ⟨kept, last, shape⟩
  · -- the new point itself is not popped
    have stops := s.pushPoint_popBeyond periods now
    rw [empty] at stops
    have within : ∀ points, popBeyond periods now points ≠ some [] := by
      intro points
      induction points with
      | nil => nofun
      | cons first rest ih =>
        rw [popBeyond]
        split
        · exact ih
        · nofun
    exact absurd stops (within _)
  · rw [List.concat_eq_append] at shape
    rw [shape, ← List.append_assoc] at whole
    obtain ⟨before, sameLast⟩ := List.append_inj' whole rfl
    exact ⟨popped, kept, before.symm, by rw [shape, sameLast]⟩

/-- What one sample does to the points: the last one is written again, or one is added. -/
inductive Sampled (s : Statistics) (now : Int) (t : Statistics) : Prop where
  | refreshed {older : List StatPointDto} {last : StatPointDto} : s.dataPoints = older ++ [last] →
      now - last.time < periods.pushInterval → t.dataPoints = older ++ [s.fill last] → Sampled s now t
  | pushed {popped kept : List StatPointDto} : s.dataPoints = popped ++ kept →
      (∀ last ∈ s.dataPoints.getLast?, periods.pushInterval ≤ now - last.time) →
      popBeyond periods now (s.dataPoints ++ [s.newPoint now]) = some t.dataPoints →
      t.dataPoints = kept ++ [s.newPoint now] → Sampled s now t

theorem takeSample_sampled (s : Statistics) (now : Int) : Sampled periods s now (s.takeSample periods now) := by
  obtain ⟨popped, kept, before, after⟩ := s.pushPoint_parts periods now
  have loop := s.pushPoint_popBeyond periods now
  cases known : s.dataPoints.getLast? with
  | none =>
    have is : s.takeSample periods now = s.pushPoint periods now := by rw [takeSample, known]
    rw [is]
    exact .pushed before (by simp [known]) loop after
  | some last =>
    by_cases early : now - last.time < periods.pushInterval
    · obtain ⟨older, shape⟩ := List.getLast?_eq_some_iff.mp known
      apply Sampled.refreshed shape early
      rw [takeSample, known]
      simp only [early, if_pos]
      rw [shape, List.dropLast_concat]
    · have is : s.takeSample periods now = s.pushPoint periods now := by
        rw [takeSample, known]
        simp only [early, if_neg, not_false_eq_true]
      rw [is]
      refine .pushed before (fun other is => ?_) loop after
      rw [known, Option.mem_some_iff] at is
      rw [← is]
      omega

@[simp] theorem takeSample_counters (s : Statistics) (now : Int) :
    (s.takeSample periods now).counters = s.counters := by
  rw [takeSample]
  split
  · rfl
  · split <;> rfl

theorem after_counters (events : List SamplingEvent) (counter : Counter) :
    ((({} : Statistics).after periods events).counters counter) = counted counter events % 2 ^ 64 := by
  induction events using List.reverseRecOn with
  | nil => rfl
  | append_singleton events event ih =>
    rw [after_concat, counted_append]
    cases event with
    | count other amount =>
      by_cases same : other = counter
      · subst same
        simp only [handle, count, Function.update_self, ih, counted, if_pos, Nat.add_zero]
        omega
      · simp only [handle, count, Function.update_of_ne (Ne.symm same), ih, counted, if_neg same, Nat.add_zero]
    | sample now => simp only [handle, takeSample_counters, ih, counted, Nat.add_zero]

/-- The points that sampling keeps after some events. -/
structure Window (events : List SamplingEvent) (s : Statistics) : Prop where
  stamped : ∀ point ∈ s.dataPoints, point.timestamp = some point.time ∧ .sample point.time ∈ events
  spaced : s.dataPoints.Pairwise fun older newer => older.time + periods.pushInterval ≤ newer.time
  span : ∀ oldest ∈ s.dataPoints.head?, ∀ newest ∈ s.dataPoints.getLast?,
    newest.time - oldest.time ≤ periods.maxPeriod
  /-- Every column of every point, up to a counter that has wrapped around. -/
  values : ∀ point ∈ s.dataPoints, ∀ counter, ∃ n, point.value counter = some n ∧
    (counted counter events < 2 ^ 64 → n ≤ counted counter events)
  rising : s.dataPoints.Pairwise fun older newer => ∀ counter, counted counter events < 2 ^ 64 →
    (older.value counter).getD 0 ≤ (newer.value counter).getD 0

variable {periods : Periods} {events : List SamplingEvent} {s t : Statistics} {now : Int}

theorem Window.counted (window : Window periods events s) (counter : Counter) (amount : Nat) :
    Window periods (events ++ [.count counter amount]) (s.count counter amount) where
  stamped point member := (window.stamped point member).imp_right (List.mem_append_left _)
  spaced := window.spaced
  span := window.span
  values point member other := by
    obtain ⟨n, is, bounded⟩ := window.values point member other
    rw [counted_append]
    exact ⟨n, is, fun small => (bounded (by omega)).trans (Nat.le_add_right _ _)⟩
  rising := by
    refine window.rising.imp fun rising other small => rising other ?_
    rw [counted_append] at small
    omega

theorem Window.last_le (window : Window periods events s) {older : List StatPointDto} {last : StatPointDto}
    (shape : s.dataPoints = older ++ [last]) : ∀ point ∈ s.dataPoints, point.time ≤ last.time := by
  have nonneg := periods.nonneg.2
  intro point member
  have spaced := window.spaced
  rw [shape] at member spaced
  rcases List.mem_append.mp member with old | new
  · have before := (List.pairwise_append.mp spaced).2.2 point old last (List.mem_singleton.mpr rfl)
    omega
  · exact Int.le_of_eq (by rw [List.mem_singleton.mp new])

/-- The values of the points before are at most the counters. -/
theorem Window.below (window : Window periods events s)
    (counters : ∀ counter, s.counters counter = Conspire.counted counter events % 2 ^ 64)
    {point : StatPointDto} (member : point ∈ s.dataPoints) (counter : Counter)
    (small : Conspire.counted counter events < 2 ^ 64) : (point.value counter).getD 0 ≤ s.counters counter := by
  obtain ⟨n, is, bounded⟩ := window.values point member counter
  rw [is, Option.getD_some, counters, Nat.mod_eq_of_lt small]
  exact bounded small

/-- One sample keeps the window. -/
theorem Window.sampled (window : Window periods events s)
    (counters : ∀ counter, s.counters counter = Conspire.counted counter events % 2 ^ 64)
    (sampled : Sampled periods s now t) : Window periods (events ++ [.sample now]) t := by
  have same : ∀ counter, Conspire.counted counter (events ++ [.sample now]) = Conspire.counted counter events := by
    intro counter
    rw [counted_append]
    rfl
  have current : ∀ point counter, ∃ n, (s.fill point).value counter = some n ∧
      (Conspire.counted counter events < 2 ^ 64 → n ≤ Conspire.counted counter events) := by
    intro point counter
    refine ⟨_, rfl, fun small => ?_⟩
    rw [counters]
    exact Nat.mod_le _ _
  have nonneg := periods.nonneg.1
  have read : ∀ point ∈ s.dataPoints, point.timestamp = some point.time ∧
      .sample point.time ∈ events ++ [.sample now] :=
    fun point member => (window.stamped point member).imp_right (List.mem_append_left _)
  cases sampled with
  | @refreshed older last before _ shape =>
    have old : ∀ point ∈ older, point ∈ s.dataPoints := fun point member => by simp [before, member]
    have spaced := window.spaced
    have rising := window.rising
    rw [before, List.pairwise_append] at spaced rising
    refine ⟨?_, ?_, ?_, ?_, ?_⟩
    · intro point member
      rw [shape, List.mem_append, List.mem_singleton] at member
      rcases member with member | rfl
      · exact read point (old point member)
      · exact read last (by simp [before])
    · rw [shape, List.pairwise_append]
      refine ⟨spaced.1, List.pairwise_singleton .., fun point member new is => ?_⟩
      rw [List.mem_singleton.mp is, fill_time]
      exact spaced.2.2 point member last (List.mem_singleton.mpr rfl)
    · intro oldest first newest final
      have newestIs : newest = s.fill last := by simpa [shape, eq_comm] using final
      rw [newestIs, fill_time]
      cases older with
      | nil =>
        have oldestIs : oldest = s.fill last := by simpa [shape, eq_comm] using first
        rw [oldestIs, fill_time]
        omega
      | cons head rest =>
        have oldestIs : oldest = head := by simpa [shape, eq_comm] using first
        rw [oldestIs]
        refine window.span head ?_ last ?_
        · rw [before]
          rfl
        · rw [before, List.getLast?_concat]
          rfl
    · intro point member counter
      rw [same]
      rw [shape, List.mem_append, List.mem_singleton] at member
      rcases member with member | rfl
      · exact window.values point (old point member) counter
      · exact current last counter
    · rw [shape, List.pairwise_append]
      simp only [same]
      refine ⟨rising.1, List.pairwise_singleton .., fun point member new is counter small => ?_⟩
      rw [List.mem_singleton.mp is]
      exact window.below counters (old point member) counter small
  | @pushed popped kept before late loop shape =>
    have old : ∀ point ∈ kept, point ∈ s.dataPoints := fun point member => by simp [before, member]
    have spaced := window.spaced
    have rising := window.rising
    rw [before, List.pairwise_append] at spaced rising
    refine ⟨?_, ?_, ?_, ?_, ?_⟩
    · intro point member
      rw [shape, List.mem_append, List.mem_singleton] at member
      rcases member with member | rfl
      · exact read point (old point member)
      · exact ⟨rfl, List.mem_append_right _ (List.mem_singleton_self _)⟩
    · rw [shape, List.pairwise_append]
      refine ⟨spaced.2.1, List.pairwise_singleton .., fun point member new is => ?_⟩
      rw [List.mem_singleton.mp is, newPoint_time]
      rcases List.eq_nil_or_concat s.dataPoints with empty | ⟨older, last, whole⟩
      · have member := old point member
        rw [empty] at member
        cases member
      · rw [List.concat_eq_append] at whole
        have behind := window.last_le whole point (old point member)
        have interval := late last (by simp [whole])
        omega
    · intro oldest first newest final
      have newestIs : newest = s.newPoint now := by simpa [shape, eq_comm] using final
      rw [newestIs, newPoint_time]
      obtain ⟨rest, is⟩ := List.head?_eq_some_iff.mp first
      rw [is] at loop
      exact popBeyond_first periods loop
    · intro point member counter
      rw [same]
      rw [shape, List.mem_append, List.mem_singleton] at member
      rcases member with member | rfl
      · exact window.values point (old point member) counter
      · exact current _ counter
    · rw [shape, List.pairwise_append]
      simp only [same]
      refine ⟨rising.2.1, List.pairwise_singleton .., fun point member new is counter small => ?_⟩
      rw [List.mem_singleton.mp is]
      exact window.below counters (old point member) counter small

theorem after_window (events : List SamplingEvent) :
    Window periods events (({} : Statistics).after periods events) := by
  induction events using List.reverseRecOn with
  | nil => exact ⟨nofun, .nil, nofun, nofun, .nil⟩
  | append_singleton events event ih =>
    rw [after_concat]
    cases event with
    | count counter amount => exact ih.counted counter amount
    | sample now => exact ih.sampled (after_counters periods events) (takeSample_sampled periods _ now)

/-- After any events, a sample ends with a window: it computes no difference beyond a `v_int64`,
never reads an empty list, leaves all points but the last as they were, and no column falls
along the list unless its counter has wrapped around. -/
theorem window_kept (positive : 0 < periods.pushInterval) (events : List SamplingEvent) (now : Int)
    (clocked : Clocked (events ++ [.sample now])) :
    let s := ({} : Statistics).after periods events
    let t := s.takeSample periods now
    (∀ point ∈ s.dataPoints ++ [s.newPoint now], -2 ^ 63 ≤ now - point.time ∧ now - point.time < 2 ^ 63) ∧
      Sampled periods s now t ∧ t.counters = s.counters ∧ Window periods (events ++ [.sample now]) t ∧
      (∃ older newest, t.dataPoints = older ++ [newest] ∧ newest.value = fun counter => some (t.counters counter)) ∧
      t.dataPoints.Pairwise fun older newer => older.time < newer.time := by
  intro s t
  have sampled : Sampled periods s now t := takeSample_sampled periods s now
  have counters : t.counters = s.counters := takeSample_counters periods s now
  have before : Window periods events s := after_window events
  have window := before.sampled (after_counters periods events) sampled
  have current := clocked now (List.mem_append_right _ (List.mem_singleton_self _))
  refine ⟨fun point member => ?_, sampled, counters, window, ?_, window.spaced.imp fun apart => by omega⟩
  · rcases List.mem_append.mp member with old | new
    · have earlier := clocked point.time (List.mem_append_left _ (before.stamped point old).2)
      omega
    · rw [List.mem_singleton.mp new, newPoint_time]
      omega
  · rw [counters]
    cases sampled with
    | refreshed _ _ shape => exact ⟨_, _, shape, rfl⟩
    | pushed _ _ _ shape => exact ⟨_, _, shape, rfl⟩

/-- Two peers come, the clock goes back, and a week later the first point is popped. -/
def weekFirst : List SamplingEvent :=
  [.count .evPeerConnected 1, .sample 5000000000, .count .evPeerConnected 1, .sample 4000000000,
    .count .evRoomCreated 1, .sample 9000000000, .count .evPeerDisconnected 2]

theorem window_kept_first :
    let t := (({} : Statistics).after {} weekFirst).takeSample {} 610000000000
    (t.dataPoints.map fun point => (point.time, point.value .evPeerConnected, point.value .evPeerDisconnected)) =
        [(9000000000, some 2, some 0), (610000000000, some 2, some 2)] ∧
      Window {} (weekFirst ++ [.sample 610000000000]) t := by
  have clocked : Clocked (weekFirst ++ [.sample 610000000000]) := by
    intro now member
    simp only [weekFirst, List.cons_append, List.nil_append, List.mem_cons, SamplingEvent.sample.injEq, reduceCtorEq,
      List.not_mem_nil, or_false, false_or] at member
    omega
  exact ⟨rfl, (@window_kept {} (by decide) weekFirst 610000000000 clocked).2.2.2.1⟩

theorem after_counts (counter : Counter) (n : Nat) :
    ({} : Statistics).after periods (List.replicate n (.count counter 1)) =
      { counters := Function.update (fun _ => 0) counter (n % 2 ^ 64) } := by
  induction n with
  | zero => simp [after]
  | succ n ih =>
    rw [List.replicate_succ', after_concat, ih]
    simp only [handle, count, Function.update_self, Function.update_idem]
    congr 2
    omega

/-- Increments of a counter, a sample, and one more increment an hour before the next sample. -/
def countsThenOne (n : Nat) : List SamplingEvent :=
  List.replicate n (.count .evPeerConnected 1) ++ [.sample 1] ++ [.count .evPeerConnected 1]

theorem countsThenOne_values (n : Nat) :
    ((((({} : Statistics).after {} (countsThenOne n)).takeSample {} 3600000001).dataPoints.map
      fun point => point.value .evPeerConnected) = [some (n % 2 ^ 64), some ((n % 2 ^ 64 + 1) % 2 ^ 64)]) := by
  rw [countsThenOne, after_concat, after_concat, after_counts]
  rfl

theorem not_rising {points : List StatPointDto} {older newer : Nat}
    (values : (points.map fun point => point.value .evPeerConnected) = [some older, some newer])
    (falls : newer < older) : ¬ points.Pairwise fun older newer => ∀ counter,
      (older.value counter).getD 0 ≤ (newer.value counter).getD 0 := by
  intro rising
  have each : (points.map fun point => point.value .evPeerConnected).Pairwise
      fun older newer => older.getD 0 ≤ newer.getD 0 :=
    List.pairwise_map.mpr (rising.imp fun all => all .evPeerConnected)
  rw [values] at each
  exact absurd ((List.pairwise_cons.mp each).1 (some newer) (List.mem_singleton.mpr rfl)) (Nat.not_le.mpr falls)

/-- A counter that has wrapped around falls from one point to the next. -/
theorem window_wraps :
    ¬ (((({} : Statistics).after {} (countsThenOne (2 ^ 64 - 1))).takeSample {} 3600000001).dataPoints.Pairwise
      fun older newer => ∀ counter, (older.value counter).getD 0 ≤ (newer.value counter).getD 0) :=
  not_rising (countsThenOne_values (2 ^ 64 - 1)) (by decide)

/-- A valid point has every column but the optional ones. -/
theorem validPoint_value {point : StatPointDto} {counter : Counter} (valid : validPoint (some point) = true)
    (required : ¬ counter.optional = true) : point.value counter = some ((point.value counter).getD 0) := by
  simp only [validPoint, Bool.and_eq_true] at valid
  have every : counter ∈ Counter.all := by
    cases counter <;> decide
  have present := List.all_eq_true.mp valid.1 counter every
  rw [Bool.or_eq_true] at present
  obtain ⟨n, is⟩ := Option.isSome_iff_exists.mp (present.resolve_left required)
  rw [is, Option.getD_some]

/-- A load that fails leaves everything as it was, and one that does not takes everything from
the file. -/
theorem loadState_atomic (mapper : PointMapper) (periods : Periods) (s : Statistics) (file : StateFile) (now : Int) :
    match s.loadState mapper periods file now with
    | (t, .missing) => t = s
    | (t, .invalid) => t = s
    | (t, .loaded) => ∃ content points older latest, file = .content content ∧
        mapper.read (cString content) = some (some (points.map some)) ∧ points = older ++ [latest] ∧
        (∀ counter, if counter.optional then t.counters counter = (latest.value counter).getD 0
          else latest.value counter = some (t.counters counter)) ∧
        t.dataPoints = points.filter fun point => now - periods.maxPeriod ≤ point.time ∧ point.time ≤ now := by
  simp only [loadState]
  cases file with
  | missing => rfl
  | unreadable => rfl
  | content content =>
    dsimp only
    cases read : readState mapper content with
    | none => rfl
    | some points =>
      obtain ⟨parsed, nonempty, valid, -⟩ := readState_eq_some read
      rcases List.eq_nil_or_concat points with empty | ⟨older, latest, shape⟩
      · exact absurd empty nonempty
      · rw [List.concat_eq_append] at shape
        have last : points.getLast? = some latest := by rw [shape, List.getLast?_concat]
        simp only [last]
        refine ⟨content, points, older, latest, rfl, parsed, shape, fun counter => ?_, ?_⟩
        · split
          · rfl
          · rename_i required
            exact validPoint_value (valid latest (by simp [shape])) required
        · exact List.filter_congr fun point _ => (Bool.decide_and ..).symm

end Statistics
end Conspire
