import Conspire.Server.Retention
import Conspire.Statistics.Text

/-! The statistics of a server over its restarts (`run` of `App.cpp`, `writeAtomically` of
`utils/Statistics.cpp`). The process loads the state file when it starts, samples and saves while it
runs and saves once more when it stops; it may end between any two calls, with or without the system. -/
namespace Conspire.Statistics
open Transition

/-- The counters as a sample found them. -/
abbrev Record := Counter → Nat

/-- `writeAtomically` between its calls: the temporary file on the way to the data, which hold this
record, written through, or in the place of the state file. -/
inductive Writing where
  | filling (data temporary : Bytes) (record : Record)
  | flushed (temporary : Bytes) (record : Record)
  | renamed

/-- Up to the signal, up to the last `saveState` and from then on. -/
inductive Stage where
  | running | stopping | saving
  deriving DecidableEq

/-- `persistent` is `statisticsPersistenceEnabled`, `saved` what the last `saveState` returned;
`sampled` is what the last sample found. -/
structure Process where
  statistics : Statistics
  persistent : Bool
  sampled : Record
  stage : Stage := .running
  writing : Option Writing := none
  saved : Bool := false

namespace Process
variable (p : Process)

def count (counter : Counter) (amount : Nat) : Process := { p with statistics := p.statistics.count counter amount }

/-- `runStatIteration`. -/
def sample (periods : Periods) (now : Int) : Process :=
  { p with statistics := p.statistics.takeSample periods now, sampled := p.statistics.counters }

/-- The stage in which `saveState` runs, if it is called. -/
def saves : Option Stage :=
  match p.stage with
  | .running => some .running
  | .stopping => some .saving
  | .saving => none

end Process

/-- The state file and the record of its newest point. `older` are the files that a power loss may
bring back, for their directory entry has not been written through. -/
structure Service where
  file : StateFile
  recorded : Record := fun _ => 0
  older : List (StateFile × Record) := []
  process : Option Process := none

def Service.run (s : Service) (p : Process) : Service := { s with process := some p }

def Service.ended (s : Service) : Service := { s with process := none }

/-- `powerLoss` says which state file is left. -/
inductive ServiceLabel where
  | start (result : StateLoadResult)
  | exit (saved : Bool)
  | powerLoss (found : StateFile)
  | internal

variable (mapper : PointMapper) (periods : Periods)

inductive ServiceStep : Service → ServiceLabel → Service → Prop where
  | start : s.process = none → 0 < now → now < 2 ^ 63 →
      ({} : Statistics).loadState mapper periods s.file loadedAt = (loaded, result) →
      ServiceStep s (.start result)
        (s.run (Process.sample
          { statistics := loaded, persistent := result ≠ .invalid, sampled := fun _ => 0 } periods now))
  | count : s.process = some p → ServiceStep s .internal (s.run (p.count counter amount))
  | sample : s.process = some p → p.stage = .running → 0 < now → now < 2 ^ 63 →
      ServiceStep s .internal (s.run (p.sample periods now))
  -- saveState: what is too large or finds no temporary file is not written
  | skip : s.process = some p → p.persistent = true → p.writing = none → p.saves = some stage →
      ServiceStep s .internal (s.run { p with stage, saved := false })
  | save : s.process = some p → p.persistent = true → p.writing = none → p.saves = some stage →
      p.statistics.saveState mapper path true = true →
      ServiceStep s .internal
        (s.run { p with stage, writing := some (.filling (p.statistics.getJsonData mapper) [] p.sampled) })
  | write {size : Nat} : s.process = some p → p.writing = some (.filling data temporary record) →
      ServiceStep s .internal
        (s.run { p with
          writing := some (.filling data (temporary ++ (data.drop temporary.length).take size) record) })
  | flush : s.process = some p → p.writing = some (.filling data temporary record) →
      data.length ≤ temporary.length →
      ServiceStep s .internal (s.run { p with writing := some (.flushed temporary record) })
  | rename : s.process = some p → p.writing = some (.flushed temporary record) →
      ServiceStep s .internal
        { file := .content temporary, recorded := record, older := (s.file, s.recorded) :: s.older
          process := some { p with writing := some .renamed } }
  | sync : s.process = some p → p.writing = some .renamed →
      ServiceStep s .internal { s.run { p with writing := none, saved := true } with older := [] }
  -- a call that fails
  | abandon : s.process = some p → p.writing = some writing →
      ServiceStep s .internal (s.run { p with writing := none, saved := false })
  -- the end of run, and of the process by itself or with the system
  | stop : s.process = some p → p.stage = .running → p.writing = none → p.persistent = true → 0 < now → now < 2 ^ 63 →
      ServiceStep s .internal (s.run { p.sample periods now with stage := .stopping })
  | quit : s.process = some p → p.stage = .running → p.persistent = false → ServiceStep s .internal s.ended
  | exit : s.process = some p → p.stage = .saving → p.writing = none → ServiceStep s (.exit p.saved) s.ended
  | crash : s.process = some p → ServiceStep s .internal s.ended
  | powerLoss : entry ∈ (s.file, s.recorded) :: s.older →
      ServiceStep s (.powerLoss entry.1) { file := entry.1, recorded := entry.2 }

/-- All histories of a server whose state file is this one at first. -/
def restarts (file : StateFile) : Machine Service ServiceLabel where
  init s := s = { file }
  step := ServiceStep mapper periods

/-- Points a push interval apart and within the period, as sampling leaves them. -/
structure Regular (points : List StatPointDto) : Prop where
  ranged : ∀ point ∈ points, Ranged point
  apart : points.Pairwise fun older newer =>
    older.time + periods.pushInterval ≤ newer.time ∧ newer.time ≤ older.time + periods.maxPeriod

/-- The newest of them holds this record. -/
structure Recorded (points : List StatPointDto) (record : Record) : Prop extends Regular periods points where
  newest : ∃ older point, points = older ++ [point] ∧ point.value = fun counter => some (record counter)

/-- A state file that is not there yet or was saved whole. -/
inductive Stored : StateFile → Record → Prop where
  | missing : Stored .missing fun _ => 0
  | content : Recorded periods points record → Stored (.content (writePoints points)) record

/-- What a process is about to store is as regular as its points. -/
def Stores : Option Writing → Prop
  | some (.filling data temporary record) => temporary <+: data ∧ ∃ points, data = writePoints points ∧
      Recorded periods points record
  | some (.flushed temporary record) => ∃ points, temporary = writePoints points ∧ Recorded periods points record
  | _ => True

structure Healthy (p : Process) : Prop where
  persistent : p.persistent = true
  points : Recorded periods p.statistics.dataPoints p.sampled
  counters : ∀ counter, p.statistics.counters counter < 2 ^ 64
  stores : Stores periods p.writing

/-- The service and all that its file may be after a power loss. -/
structure Survives (s : Service) : Prop where
  file : Stored periods s.file s.recorded
  older : ∀ entry ∈ s.older, Stored periods entry.1 entry.2
  process : ∀ p, s.process = some p → Healthy periods p

section Regular
variable {periods : Periods} {points : List StatPointDto}

theorem Regular.sublist {fewer : List StatPointDto} (regular : Regular periods points) (less : fewer.Sublist points) :
    Regular periods fewer where
  ranged point member := regular.ranged point (less.subset member)
  apart := regular.apart.sublist less

/-- As many push intervals as there are points before the last one lie within the period. -/
theorem Regular.span {first : StatPointDto} (regular : Regular periods (first :: points)) :
    ∀ last ∈ (first :: points).getLast?, first.time + points.length * periods.pushInterval ≤ last.time := by
  induction points generalizing first with
  | nil =>
    intro last is
    simp only [List.getLast?_singleton, Option.mem_some_iff] at is
    simp [is]
  | cons second points ih =>
    intro last is
    rw [List.getLast?_cons_cons] at is
    have later := ih (regular.sublist (List.sublist_cons_self ..)) last is
    have next := ((List.pairwise_cons.mp regular.apart).1 second List.mem_cons_self).1
    simp only [List.length_cons, Nat.cast_add, Nat.cast_one, Int.add_mul, Int.one_mul]
    omega

theorem Regular.few (fits : periods.maxPeriod < maxStatePoints * periods.pushInterval)
    (regular : Regular periods points) : points.length ≤ maxStatePoints := by
  cases points with
  | nil => exact Nat.zero_le _
  | cons first points =>
    obtain ⟨last, is⟩ := Option.ne_none_iff_exists'.mp
      (mt List.getLast?_eq_none_iff.mp (List.cons_ne_nil first points))
    have span := regular.span last is
    have within : last.time ≤ first.time + periods.maxPeriod := by
      have nonneg := periods.nonneg.1
      rcases List.mem_cons.mp (List.mem_of_getLast? is) with rfl | member
      · omega
      · exact ((List.pairwise_cons.mp regular.apart).1 last member).2
    by_contra many
    have more : (maxStatePoints : Int) ≤ points.length := by
      simp only [List.length_cons] at many
      omega
    have most := Int.mul_le_mul_of_nonneg_right more periods.nonneg.2
    omega

theorem Regular.ordered (regular : Regular periods points) :
    points.Pairwise fun older newer => older.time ≤ newer.time := by
  have interval := periods.nonneg.2
  exact regular.apart.imp fun both => by omega

theorem Regular.last_le {older : List StatPointDto} {last : StatPointDto}
    (regular : Regular periods (older ++ [last])) :
    ∀ point ∈ older ++ [last], point.time ≤ last.time := by
  intro point member
  rcases List.mem_append.mp member with old | new
  · exact (List.pairwise_append.mp regular.ordered).2.2 point old last (List.mem_singleton_self _)
  · rw [List.mem_singleton.mp new]

theorem ranged_fill {s : Statistics} {point : StatPointDto} (counters : ∀ counter, s.counters counter < 2 ^ 64)
    (stamped : ∃ timestamp, point.timestamp = some timestamp ∧ 0 < timestamp ∧ timestamp < 2 ^ 63) :
    Ranged (s.fill point) where
  timestamp := stamped
  value counter := ⟨_, rfl, counters counter⟩

/-- A sample of regular points ends with what it found. -/
theorem sampled_recorded {s : Statistics} (regular : Regular periods s.dataPoints)
    (counters : ∀ counter, s.counters counter < 2 ^ 64) (positive : 0 < now) (small : now < 2 ^ 63) :
    Recorded periods (s.takeSample periods now).dataPoints s.counters := by
  have nonneg := periods.nonneg.1
  obtain ⟨ranged, apart⟩ := regular
  cases takeSample_sampled periods s now with
  | @refreshed older last before _ shape =>
    rw [before] at ranged apart
    rw [shape]
    refine { ranged := fun point member => ?_, apart := ?_, newest := ⟨older, _, rfl, rfl⟩ }
    · rcases List.mem_append.mp member with old | new
      · exact ranged point (List.mem_append_left _ old)
      · rw [List.mem_singleton.mp new]
        exact ranged_fill counters (ranged last (by simp)).timestamp
    · obtain ⟨first, -, across⟩ := List.pairwise_append.mp apart
      refine List.pairwise_append.mpr ⟨first, List.pairwise_singleton .., fun point member new is => ?_⟩
      rw [List.mem_singleton.mp is, fill_time]
      exact across point member last (List.mem_singleton_self _)
  | @pushed popped kept before late loop shape =>
    have left : kept.Sublist s.dataPoints := by
      rw [before]
      exact List.sublist_append_right ..
    have order := Regular.ordered ⟨ranged, apart⟩
    rw [shape]
    refine { ranged := fun point member => ?_, apart := ?_, newest := ⟨kept, _, rfl, rfl⟩ }
    · rcases List.mem_append.mp member with old | new
      · exact ranged point (left.subset old)
      · rw [List.mem_singleton.mp new]
        exact ranged_fill counters ⟨now, rfl, positive, small⟩
    · refine List.pairwise_append.mpr ⟨apart.sublist left, List.pairwise_singleton .., fun point member new is => ?_⟩
      rw [List.mem_singleton.mp is, newPoint_time]
      constructor
      · -- the last of the old points is at least an interval old, and no other is younger
        rcases List.eq_nil_or_concat s.dataPoints with empty | ⟨older, last, whole⟩
        · rw [empty] at left
          rw [List.sublist_nil.mp left] at member
          exact absurd member List.not_mem_nil
        · rw [List.concat_eq_append] at whole
          have regular : Regular periods (older ++ [last]) := whole ▸ ⟨ranged, apart⟩
          have behind := regular.last_le point (whole ▸ left.subset member)
          have interval := late last (by simp [whole])
          omega
      · -- the first point that is left is within the period, and no other is older
        cases kept with
        | nil => exact absurd member List.not_mem_nil
        | cons first rest =>
          rw [shape, List.cons_append] at loop
          have within := popBeyond_first periods loop
          have oldest : first.time ≤ point.time := by
            rcases List.mem_cons.mp member with rfl | later
            · exact Int.le_refl _
            · exact (List.pairwise_cons.mp (order.sublist left)).1 point later
          omega

end Regular

section Loading
variable {periods : Periods} {points : List StatPointDto} {record : Record} {cast : Json.Numeral → Int}

theorem Regular.returned (regular : Regular periods points) : Regular periods (points.map returned) where
  ranged point member := by
    obtain ⟨old, inside, rfl⟩ := List.mem_map.mp member
    exact (regular.ranged old inside).returned
  apart := by
    rw [List.pairwise_map]
    refine regular.apart.imp_of_mem fun older newer both => ?_
    rwa [returned_time (regular.ranged _ older), returned_time (regular.ranged _ newer)]

/-- A state file of regular points is loaded. -/
theorem recorded_loads (fits : periods.maxPeriod < maxStatePoints * periods.pushInterval)
    (recorded : Recorded periods points record) (s : Statistics) (now : Int) :
    ∃ newest, (points.map Statistics.returned).getLast? = some newest ∧
      newest.value = (fun counter => some (reached (record counter))) ∧
      s.loadState (stateMapper cast) periods (.content (writePoints points)) now =
        (restore periods (points.map Statistics.returned) newest now, .loaded) := by
  have regular := recorded.toRegular
  have few := regular.few fits
  obtain ⟨clean, positive, short⟩ := writePoints_sized regular.ranged few
  obtain ⟨older, newest, split, values⟩ := recorded.newest
  have after := regular.returned
  have read : (stateMapper cast).read (writePoints points) =
      some (some ((points.map Statistics.returned).map some)) := by
    rw [points_return, List.map_map]
    rfl
  have last : (points.map Statistics.returned).getLast? = some (Statistics.returned newest) := by
    rw [split, List.map_append, List.map_singleton, List.getLast?_concat]
  have nonempty : points.map Statistics.returned ≠ [] := by simp [split]
  have loaded := readState_text ⟨positive, short⟩ clean read nonempty
    (fun point member => (after.ranged point member).valid)
    after.ordered
  rw [if_pos (by rwa [List.length_map])] at loaded
  refine ⟨_, last, ?_, ?_⟩
  · funext counter
    simp [Statistics.returned, values]
  · simp only [loadState, loaded, last]

theorem restored_regular (regular : Regular periods points) (newest : StatPointDto) (now : Int) :
    Regular periods (restore periods points newest now).dataPoints :=
  regular.sublist List.filter_sublist

end Loading

section Steps
variable {periods : Periods} {cast : Json.Numeral → Int} {s t : Service} {l : ServiceLabel} {p : Process}

/-- What is loaded from a stored file is regular, with the counters that the file holds. -/
theorem stored_loads (fits : periods.maxPeriod < maxStatePoints * periods.pushInterval) {file : StateFile}
    {record : Record}
    {loaded : Statistics} (stored : Stored periods file record)
    (is : ({} : Statistics).loadState (stateMapper cast) periods file now = (loaded, result)) :
    result ≠ .invalid ∧ Regular periods loaded.dataPoints ∧
    loaded.counters = fun counter => reached (record counter) := by
  cases stored with
  | missing =>
    cases is
    exact ⟨by decide, ⟨nofun, .nil⟩, rfl⟩
  | content recorded =>
    obtain ⟨newest, -, values, loads⟩ := @recorded_loads _ _ _ cast fits recorded {} now
    rw [loads] at is
    cases is
    refine ⟨by decide, restored_regular recorded.toRegular.returned newest now, ?_⟩
    funext counter
    simp [restore, values]

theorem Healthy.sample (healthy : Healthy periods p) (positive : 0 < now) (small : now < 2 ^ 63) :
    Healthy periods (p.sample periods now) where
  persistent := healthy.persistent
  points := sampled_recorded healthy.points.toRegular healthy.counters positive small
  counters := by
    intro counter
    rw [Process.sample, takeSample_counters]
    exact healthy.counters counter
  stores := healthy.stores

theorem Healthy.count (healthy : Healthy periods p) : Healthy periods (p.count counter amount) where
  persistent := healthy.persistent
  points := healthy.points
  counters := by
    intro other
    by_cases same : other = counter
    · subst same
      simp only [Process.count, Statistics.count, Function.update_self]
      exact Nat.mod_lt _ (by decide)
    · simp only [Process.count, Statistics.count, Function.update_of_ne same]
      exact healthy.counters other
  stores := healthy.stores

theorem Healthy.change (healthy : Healthy periods p) {stage : Stage} {writing : Option Writing} {saved : Bool}
    (stores : Stores periods writing) : Healthy periods { p with stage, writing, saved } where
  persistent := healthy.persistent
  points := healthy.points
  counters := healthy.counters
  stores := stores

theorem Survives.run (survives : Survives periods s) (healthy : Healthy periods p) : Survives periods (s.run p) where
  file := survives.file
  older := survives.older
  process := by
    rintro _ ⟨⟩
    exact healthy

theorem Survives.ended (survives : Survives periods s) : Survives periods s.ended where
  file := survives.file
  older := survives.older
  process := nofun

theorem survives_step (fits : periods.maxPeriod < maxStatePoints * periods.pushInterval)
    (survives : Survives periods s)
    (step : ServiceStep (stateMapper cast) periods s l t) : Survives periods t := by
  have healthy := survives.process
  have writes : ∀ {p writing}, s.process = some p → p.writing = some writing → Stores periods (some writing) := by
    intro p writing known is
    have stores := (healthy p known).stores
    rwa [is] at stores
  cases step with
  | start idle positive small loads =>
    rename_i now loadedAt loaded result
    obtain ⟨valid, regular, counters⟩ := stored_loads fits survives.file loads
    have bounded : ∀ counter, loaded.counters counter < 2 ^ 64 := by
      intro counter
      simp only [counters, reached]
      omega
    refine survives.run ⟨by simpa [Process.sample] using valid, sampled_recorded regular bounded positive small,
      ?_, trivial⟩
    intro counter
    rw [Process.sample, takeSample_counters]
    exact bounded counter
  | count known => exact survives.run (healthy _ known).count
  | sample known _ positive small => exact survives.run ((healthy _ known).sample positive small)
  | skip known _ idle =>
    refine survives.run ((healthy _ known).change ?_)
    rw [idle]
    trivial
  | save known =>
    exact survives.run ((healthy _ known).change ⟨List.nil_prefix, _, rfl, (healthy _ known).points⟩)
  | write known writing =>
    obtain ⟨start, stores⟩ := writes known writing
    refine survives.run ((healthy _ known).change ⟨?_, stores⟩)
    obtain ⟨rest, rfl⟩ := start
    rw [List.drop_left]
    exact (List.prefix_append_right_inj _).mpr (List.take_prefix ..)
  | flush known writing whole =>
    obtain ⟨start, points, rfl, recorded⟩ := writes known writing
    obtain rfl := start.eq_of_length_le whole
    exact survives.run ((healthy _ known).change ⟨points, rfl, recorded⟩)
  | rename known writing =>
    obtain ⟨points, rfl, recorded⟩ := writes known writing
    refine ⟨.content recorded, ?_, ?_⟩
    · intro entry member
      rcases List.mem_cons.mp member with rfl | old
      · exact survives.file
      · exact survives.older entry old
    · rintro _ ⟨⟩
      exact (healthy _ known).change trivial
  | sync known =>
    refine ⟨survives.file, by simp, ?_⟩
    rintro _ ⟨⟩
    exact (healthy _ known).change trivial
  | abandon known => exact survives.run ((healthy _ known).change trivial)
  | stop known _ idle _ positive small =>
    have sampled := (healthy _ known).sample positive small
    refine survives.run (sampled.change ?_)
    exact sampled.stores
  | quit => exact survives.ended
  | exit => exact survives.ended
  | crash => exact survives.ended
  | powerLoss member =>
    refine ⟨?_, by simp, by simp⟩
    rcases List.mem_cons.mp member with rfl | old
    · exact survives.file
    · exact survives.older _ old

theorem survives (fits : periods.maxPeriod < maxStatePoints * periods.pushInterval)
    (reached : (restarts (stateMapper cast) periods .missing).Reachable s) : Survives periods s := by
  refine reached.invariant ?_ fun _ survives step => survives_step fits survives step
  rintro _ rfl
  exact ⟨.missing, by simp, nofun⟩

/-- The last save of a process holds what its last sample found. -/
def Final (s : Service) : Prop :=
  ∀ p, s.process = some p → p.stage = .saving →
    match p.writing with
    | none => p.saved = true → s.recorded = p.sampled ∧ s.older = []
    | some (.filling _ _ record) => record = p.sampled
    | some (.flushed _ record) => record = p.sampled
    | some .renamed => s.recorded = p.sampled

theorem final_step {mapper : PointMapper} (final : Final s) (step : ServiceStep mapper periods s l t) : Final t := by
  cases step with
  | start =>
    rintro _ ⟨⟩ late
    cases late
  | count known =>
    have before := final _ known
    rintro _ ⟨⟩ late
    exact before late
  | sample known early =>
    rintro _ ⟨⟩ late
    have running : Stage.running = .saving := early.symm.trans late
    cases running
  | skip _ _ idle =>
    rintro _ ⟨⟩ late
    simp only [idle]
    nofun
  | save =>
    rintro _ ⟨⟩ late
    rfl
  | write known writing =>
    rintro _ ⟨⟩ late
    have same := final _ known late
    rw [writing] at same
    exact same
  | flush known writing =>
    rintro _ ⟨⟩ late
    have same := final _ known late
    rw [writing] at same
    exact same
  | rename known writing =>
    rintro _ ⟨⟩ late
    have same := final _ known late
    rw [writing] at same
    exact same
  | sync known writing =>
    rintro _ ⟨⟩ late
    have same := final _ known late
    rw [writing] at same
    exact fun _ => ⟨same, rfl⟩
  | abandon =>
    rintro _ ⟨⟩ late
    nofun
  | stop =>
    rintro _ ⟨⟩ late
    cases late
  | quit => nofun
  | exit => nofun
  | crash => nofun
  | powerLoss => nofun

theorem final {mapper : PointMapper} {file : StateFile} (reached : (restarts mapper periods file).Reachable s) :
    Final s := by
  refine reached.invariant ?_ fun _ final step => final_step final step
  rintro _ rfl p known
  cases known

/-- A state file that no load takes. -/
def Refused (mapper : PointMapper) : StateFile → Prop
  | .missing => False
  | .unreadable => True
  | .content content => readState mapper content = none

/-- It is left alone, for the process that found it saves nothing. -/
structure Untouched (file : StateFile) (older : List (StateFile × Record)) (s : Service) : Prop where
  file : s.file = file
  older : s.older ⊆ older
  process : ∀ p, s.process = some p → p.persistent = false ∧ p.writing = none

theorem refused_loads {mapper : PointMapper} {file : StateFile} (refused : Refused mapper file) (s : Statistics)
    (now : Int) :
    s.loadState mapper periods file now = (s, .invalid) := by
  cases file with
  | missing => cases refused
  | unreadable => rfl
  | content content =>
    have unread : readState mapper content = none := refused
    simp only [loadState, unread]

theorem untouched_step {mapper : PointMapper} {file : StateFile} {older : List (StateFile × Record)}
    (refused : Refused mapper file) (untouched : Untouched file older s)
    (step : ServiceStep mapper periods s l t) (left : ∀ found, l = .powerLoss found → found = file) :
    Untouched file older t := by
  obtain ⟨same, fewer, process⟩ := untouched
  cases step with
  | start _ _ _ loads =>
    rw [same, refused_loads refused] at loads
    cases loads
    refine ⟨same, fewer, ?_⟩
    rintro _ ⟨⟩
    exact ⟨rfl, rfl⟩
  | count known =>
    have before := process _ known
    refine ⟨same, fewer, ?_⟩
    rintro _ ⟨⟩
    exact before
  | sample known =>
    have before := process _ known
    refine ⟨same, fewer, ?_⟩
    rintro _ ⟨⟩
    exact before
  | skip known persistent => exact absurd ((process _ known).1.symm.trans persistent) Bool.false_ne_true
  | save known persistent => exact absurd ((process _ known).1.symm.trans persistent) Bool.false_ne_true
  | stop known _ _ persistent => exact absurd ((process _ known).1.symm.trans persistent) Bool.false_ne_true
  | write known writing => cases (process _ known).2.symm.trans writing
  | flush known writing => cases (process _ known).2.symm.trans writing
  | rename known writing => cases (process _ known).2.symm.trans writing
  | sync known writing => cases (process _ known).2.symm.trans writing
  | abandon known writing => cases (process _ known).2.symm.trans writing
  | quit => exact ⟨same, fewer, nofun⟩
  | exit => exact ⟨same, fewer, nofun⟩
  | crash => exact ⟨same, fewer, nofun⟩
  | powerLoss => exact ⟨left _ rfl, List.nil_subset _, nofun⟩

/-- A first file that is refused is left alone, for no power loss can bring another one. -/
theorem untouched {mapper : PointMapper} {file : StateFile} (refused : Refused mapper file)
    (reached : (restarts mapper periods file).Reachable s) : Untouched file [] s := by
  refine reached.invariant ?_ fun {s l t} _ untouched step => untouched_step refused untouched step ?_
  · rintro _ rfl
    exact ⟨rfl, List.Subset.refl _, nofun⟩
  · rintro found rfl
    cases step with
    | powerLoss member =>
      rw [List.subset_nil.mp untouched.older, List.mem_singleton] at member
      rw [member]
      exact untouched.file

end Steps

/-- A process that has counted a peer and is about to save for the last time. -/
def peerCounted : Process :=
  { (Process.count (Process.sample { statistics := {}, persistent := true, sampled := fun _ => 0 } {} 1)
      .evPeerConnected 1).sample {} 2 with stage := .stopping }

theorem exit_saved {mapper : PointMapper} {periods : Periods} {s : Service} {p : Process} (known : s.process = some p)
    (late : p.stage = .saving) (idle : p.writing = none) (saved : p.saved = true) :
    ServiceStep mapper periods s (.exit true) s.ended := by
  rw [← saved]
  exact .exit known late idle

theorem restarted {cast : Json.Numeral → Int} {s : Service} (idle : s.process = none) :
    ∃ result t, ServiceStep (stateMapper cast) {} s (.start result) t :=
  ⟨_, _, @ServiceStep.start (stateMapper cast) {} 3 3 _ _ s idle (by decide) (by decide) rfl⟩

/-- Statistics survive restarts. When there was no state file at first, then in every history of starts,
samples, saves, stops, crashes and power losses each start takes the file that it finds and goes on
from the counters of the newest sample in it, and what is retained can always be saved. In every history
an orderly stop whose save returns true leaves the last sample of the process, and no power loss undoes it;
and a file that is refused is never written over, as long as no power loss brings an older one back. -/
theorem statistics_survive {cast : Json.Numeral → Int} {periods : Periods} {file : StateFile} {s : Service}
    (fits : periods.maxPeriod < maxStatePoints * periods.pushInterval)
    (reached : (restarts (stateMapper cast) periods file).Reachable s) :
    (file = .missing →
      (∀ result t, ServiceStep (stateMapper cast) periods s (.start result) t → ∃ p, t.process = some p ∧
        p.persistent = true ∧ ∀ counter, p.statistics.counters counter = min (s.recorded counter) (2 ^ 63 - 1)) ∧
      (∀ p, s.process = some p → p.stage = .saving → p.writing = some .renamed → s.recorded = p.sampled) ∧
      ∀ p, s.process = some p → p.statistics.dataPoints.length ≤ maxStatePoints ∧
        ∀ path written, path ≠ [] → p.statistics.saveState (stateMapper cast) path written = written) ∧
    (∀ t, ServiceStep (stateMapper cast) periods s (.exit true) t → ∃ p, s.process = some p ∧
      t.recorded = p.sampled ∧ t.older = []) ∧
    (Refused (stateMapper cast) file → s.file = file ∧ ∀ p, s.process = some p → p.persistent = false) ∧
    (s.process = none → Refused (stateMapper cast) s.file → ∀ t,
      Relation.ReflTransGen (fun a b => ∃ l, ServiceStep (stateMapper cast) periods a l b ∧
        ∀ found, l = .powerLoss found → found = s.file) s t →
      t.file = s.file ∧ ∀ p, t.process = some p → p.persistent = false) := by
  refine ⟨?_, fun t step => ?_, fun refused => ?_, fun idle refused t path => ?_⟩
  · rintro rfl
    have kept := survives fits reached
    refine ⟨?_, ?_, ?_⟩
    · intro result t step
      cases step with
      | start _ _ _ loads =>
        obtain ⟨valid, -, counters⟩ := stored_loads fits kept.file loads
        refine ⟨_, rfl, by simpa [Process.sample] using valid, fun counter => ?_⟩
        rw [Process.sample, takeSample_counters, counters]
        rfl
    · intro p known late writing
      have same := final reached p known late
      rwa [writing] at same
    · intro p known
      have healthy := (kept.process p known).points
      have few := healthy.toRegular.few fits
      obtain ⟨-, positive, short⟩ := writePoints_sized healthy.ranged few
      refine ⟨few, fun path written named => ?_⟩
      have text : p.statistics.getJsonData (stateMapper cast) = writePoints p.statistics.dataPoints := rfl
      have nonempty : (writePoints p.statistics.dataPoints).isEmpty = false := by
        simpa [List.isEmpty_eq_false_iff, List.length_eq_zero_iff] using positive
      have isNamed : path.isEmpty = false := List.isEmpty_eq_false_iff.mpr named
      simp [saveState, text, nonempty, isNamed, Nat.not_lt.mpr short]
  · generalize label : ServiceLabel.exit true = l at step
    cases step with
    | exit known late idle =>
      have last := final reached _ known late
      rw [idle] at last
      injection label with saved
      exact ⟨_, known, last saved.symm⟩
    | _ => cases label
  · have untouched := untouched refused reached
    exact ⟨untouched.file, fun p known => (untouched.process p known).1⟩
  · have untouched : Untouched s.file s.older t := by
      induction path with
      | refl => exact ⟨rfl, List.Subset.refl _, by simp [idle]⟩
      | tail _ step ih =>
        obtain ⟨l, step, left⟩ := step
        exact untouched_step refused ih step left
    exact ⟨untouched.file, fun p known => (untouched.process p known).1⟩

/-- The peer is counted after an orderly stop and a power loss. -/
theorem statistics_survive_first : ∃ s t u v result p, (restarts (stateMapper fun _ => 0) {} .missing).Reachable s ∧
    ServiceStep (stateMapper fun _ => 0) {} s (.exit true) t ∧
    ServiceStep (stateMapper fun _ => 0) {} t (.powerLoss t.file) u ∧
    ServiceStep (stateMapper fun _ => 0) {} u (.start result) v ∧
    v.process = some p ∧ p.persistent = true ∧ p.statistics.counters .evPeerConnected = 1 := by
  have fits : ({} : Periods).maxPeriod < maxStatePoints * ({} : Periods).pushInterval := by decide
  have begun : (restarts (stateMapper fun _ => 0) {} .missing).Reachable { file := .missing } := .start rfl
  have started := begun.next (@ServiceStep.start _ _ 1 1 _ _ _ rfl (by decide) (by decide) rfl)
  have counted := started.next (@ServiceStep.count _ _ _ _ .evPeerConnected 1 rfl)
  have stopped := counted.next (@ServiceStep.stop _ _ _ 2 _ rfl rfl rfl rfl (by decide) (by decide))
  have fit := ((statistics_survive fits stopped).1 rfl).2.2 _ rfl
  have saved := fit.2 (ascii "state") true (by decide)
  have saving := stopped.next (@ServiceStep.save _ _ _ _ _ (ascii "state") rfl rfl rfl rfl saved)
  have written := saving.next
    (@ServiceStep.write _ _ _ _ _ _ _ (writePoints peerCounted.statistics.dataPoints).length rfl rfl)
  have flushed := written.next (@ServiceStep.flush _ _ _ _ _ _ _ rfl rfl (by
    simp only [List.length_nil, List.drop_zero, List.nil_append, List.length_take]
    exact Nat.le_of_eq (Nat.min_self _).symm))
  have renamed := flushed.next (@ServiceStep.rename _ _ _ _ _ _ rfl rfl)
  have synced := renamed.next (@ServiceStep.sync _ _ _ _ rfl rfl)
  obtain ⟨s, t, p, reached, exits, known, one⟩ : ∃ s t p,
      (restarts (stateMapper fun _ => 0) {} .missing).Reachable s ∧
      ServiceStep (stateMapper fun _ => 0) {} s (.exit true) t ∧ s.process = some p ∧
      p.sampled .evPeerConnected = 1 :=
    ⟨_, _, _, synced, exit_saved rfl rfl rfl rfl, rfl, rfl⟩
  obtain ⟨q, same, recorded, -⟩ := (statistics_survive fits reached).2.1 t exits
  have lost := @ServiceStep.powerLoss (stateMapper fun _ => 0) {} _ t List.mem_cons_self
  have after := (reached.next exits).next lost
  obtain ⟨result, v, start⟩ := @restarted (fun _ => 0) { file := t.file, recorded := t.recorded } rfl
  obtain ⟨again, runs, persistent, counters⟩ := ((statistics_survive fits after).1 rfl).1 _ _ start
  refine ⟨s, t, _, v, result, again, reached, exits, lost, start, runs, persistent, ?_⟩
  cases same.symm.trans known
  rw [counters, recorded, one]
  rfl

end Conspire.Statistics
