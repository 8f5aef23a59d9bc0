import Mathlib.Data.List.TakeWhile
import Conspire.Library.Machine
import Conspire.Server.Boundaries

/-! The statistics of the process and their state file (`utils/Statistics.hpp`,
`utils/Statistics.cpp`). The JSON mapper and the clock are parameters; the twelve
counters and the columns of a point have one index. -/
namespace Conspire
open Transition

inductive Counter where
  | evFrontpageLoaded | evPeerConnected | evPeerDisconnected | evPeerZombieDropped
  | evPeerTransportClosed | evPeerResumed | evSessionExpired | evPeerSendMessage
  | evPeerShareFile | evRoomCreated | evRoomDeleted | fileServedBytes
  deriving DecidableEq, Repr

namespace Counter

def all : List Counter :=
  [evFrontpageLoaded, evPeerConnected, evPeerDisconnected, evPeerZombieDropped,
    evPeerTransportClosed, evPeerResumed, evSessionExpired, evPeerSendMessage,
    evPeerShareFile, evRoomCreated, evRoomDeleted, fileServedBytes]

/-- The metrics that a retained state may lack. -/
def optional : Counter → Bool
  | evPeerTransportClosed | evPeerResumed | evSessionExpired => true
  | _ => false

end Counter

structure StatPointDto where
  timestamp : Option Int
  value : Counter → Option Nat

def maxStateBytes : Nat := 1024 * 1024
def maxStatePoints : Nat := 1000

def validPoint (point : Option StatPointDto) : Bool :=
  match point with
  | none => false
  | some point =>
    Counter.all.all (fun counter => counter.optional || (point.value counter).isSome) &&
      match point.timestamp with
      | none => false
      | some timestamp => 0 < timestamp

/-- The constructor's arguments in microseconds. -/
structure Periods where
  maxPeriod : Int := 7 * 24 * 3600 * 1000000
  pushInterval : Int := 3600 * 1000000
  nonneg : 0 ≤ maxPeriod ∧ 0 ≤ pushInterval := by decide

/-- The JSON mapper on lists of points: `none` is an exception, and the list
and its elements may be null. -/
structure PointMapper where
  write : List StatPointDto → Bytes
  read : Bytes → Option (Option (List (Option StatPointDto)))

inductive StateFile where
  | missing
  | unreadable
  | content (bytes : Bytes)

inductive StateLoadResult where
  | loaded | missing | invalid
  deriving DecidableEq, Repr

structure Statistics where
  counters : Counter → Nat := fun _ => 0
  dataPoints : List StatPointDto := []

namespace StatPointDto

/-- `*point->timestamp` -/
def time (point : StatPointDto) : Int := point.timestamp.getD 0

end StatPointDto

namespace Statistics
variable (mapper : PointMapper) (periods : Periods) (s : Statistics)

/-- `counter += amount` on a `v_uint64` -/
def count (counter : Counter) (amount : Nat) : Statistics :=
  { s with counters := Function.update s.counters counter ((s.counters counter + amount) % 2 ^ 64) }

/-- `point` with the columns of the current counters. -/
def fill (point : StatPointDto) : StatPointDto :=
  { point with value := fun counter => some (s.counters counter) }

/-- A new point, and the points beyond the period popped from the front. -/
def pushPoint (now : Int) : Statistics :=
  let point := s.fill { timestamp := some now, value := fun _ => none }
  let beyond := fun point : StatPointDto => decide (periods.maxPeriod < now - point.time)
  { s with dataPoints := (s.dataPoints ++ [point]).dropWhile beyond }

def takeSample (now : Int) : Statistics :=
  match s.dataPoints.getLast? with
  | none => s.pushPoint periods now
  | some last =>
    if now - last.time < periods.pushInterval then
      { s with dataPoints := s.dataPoints.dropLast ++ [s.fill last] }
    else s.pushPoint periods now

def getJsonData : Bytes := mapper.write s.dataPoints

/-- `content.c_str()` -/
def cString (content : Bytes) : Bytes := content.takeWhile (· ≠ 0)

/-- The loop over the loaded points. -/
def checkPoints (previousTimestamp : Int) : List (Option StatPointDto) → Bool
  | [] => true
  | point :: rest =>
    validPoint point &&
      match point with
      | none => false
      | some point => previousTimestamp ≤ point.time && checkPoints point.time rest

/-- `loaded`, when every check on the file has passed. -/
def readState (content : Bytes) : Option (List StatPointDto) :=
  if content.length = 0 || maxStateBytes < content.length then none
  else
    match mapper.read (cString content) with
    | none | some none => none
    | some (some loaded) =>
      if loaded.isEmpty || maxStatePoints < loaded.length then none
      else if !checkPoints 0 loaded then none
      else some loaded.reduceOption

def restore (loaded : List StatPointDto) (latest : StatPointDto) (now : Int) : Statistics where
  counters counter := (latest.value counter).getD 0
  dataPoints := loaded.filter fun point =>
    now - periods.maxPeriod ≤ point.time && point.time ≤ now

def loadState (file : StateFile) (now : Int) : Statistics × StateLoadResult :=
  match file with
  | .missing => (s, .missing)
  | .unreadable => (s, .invalid)
  | .content content =>
    match readState mapper content with
    | none => (s, .invalid)
    | some loaded =>
      match loaded.getLast? with
      | none => (s, .invalid)
      | some latest => (restore periods loaded latest now, .loaded)

/-- `written` is what `writeAtomically` returns for the path. -/
def saveState (path : Bytes) (written : Bool) : Bool :=
  let json := s.getJsonData mapper
  if path.isEmpty then false
  else if json.isEmpty || maxStateBytes < json.length then false
  else written

end Statistics

inductive StatisticsLabel where
  | count (counter : Counter) (amount : Nat)
  | sample (now : Int)
  | load (file : StateFile) (now : Int)

inductive StatisticsStep (mapper : PointMapper) (periods : Periods) :
    Statistics → StatisticsLabel → Statistics → Prop where
  | count : StatisticsStep mapper periods s (.count counter amount) (s.count counter amount)
  | sample : 0 < now → StatisticsStep mapper periods s (.sample now) (s.takeSample periods now)
  | load : StatisticsStep mapper periods s (.load file now) (s.loadState mapper periods file now).1

/-- All histories of one process's statistics. -/
def collector (mapper : PointMapper) (periods : Periods) : Machine Statistics StatisticsLabel where
  init s := s = {}
  step := StatisticsStep mapper periods

/-- The points in memory would pass the checks of `loadState`, their number apart. -/
structure Statistics.Loadable (s : Statistics) : Prop where
  valid : ∀ point ∈ s.dataPoints, validPoint (some point) = true
  ordered : s.dataPoints.Pairwise fun first second => first.time ≤ second.time

namespace Statistics
variable {mapper : PointMapper} {periods : Periods} {s : Statistics}

theorem validPoint_time (valid : validPoint (some point) = true) : 0 < point.time := by
  simp only [validPoint, Bool.and_eq_true] at valid
  unfold StatPointDto.time
  cases known : point.timestamp with
  | none => simp [known] at valid
  | some timestamp => simpa [known] using valid.2

theorem validPoint_fill (s : Statistics) (positive : 0 < point.time) :
    validPoint (some (s.fill point)) = true := by
  unfold StatPointDto.time at positive
  cases known : point.timestamp with
  | none => simp [known] at positive
  | some timestamp => simpa [validPoint, fill, known] using positive

@[simp] theorem fill_time (s : Statistics) (point : StatPointDto) :
    (s.fill point).time = point.time := rfl

/-- The loop accepts exactly the valid points in order of time. -/
theorem checkPoints_iff (points : List (Option StatPointDto)) (previous : Int) :
    checkPoints previous points = true ↔
      ∃ known : List StatPointDto, points = known.map some ∧ (∀ point ∈ known, validPoint (some point) = true) ∧
        (∀ point ∈ known, previous ≤ point.time) ∧
        known.Pairwise fun first second => first.time ≤ second.time := by
  induction points generalizing previous with
  | nil =>
    constructor
    · intro _
      exact ⟨[], rfl, by simp, by simp, .nil⟩
    · intro _
      rfl
  | cons point rest ih =>
    constructor
    · intro checked
      cases point with
      | none => simp [checkPoints] at checked
      | some point =>
        simp only [checkPoints, Bool.and_eq_true, decide_eq_true_eq] at checked
        obtain ⟨valid, later, checked⟩ := checked
        obtain ⟨known, rfl, valids, laters, ordered⟩ := (ih _).mp checked
        refine ⟨point :: known, rfl, ?_, ?_, List.pairwise_cons.mpr ⟨laters, ordered⟩⟩
        · intro other member
          cases member with
          | head => exact valid
          | tail _ member => exact valids other member
        · intro other member
          cases member with
          | head => exact later
          | tail _ member =>
            have := laters other member
            omega
    · rintro ⟨known, shape, valids, laters, ordered⟩
      cases known with
      | nil => simp at shape
      | cons first known =>
        simp only [List.map_cons, List.cons.injEq] at shape
        obtain ⟨rfl, rfl⟩ := shape
        obtain ⟨least, ordered⟩ := List.pairwise_cons.mp ordered
        simp only [checkPoints, Bool.and_eq_true, decide_eq_true_eq]
        refine ⟨valids first (.head _), laters first (.head _), (ih _).mpr ⟨known, rfl, ?_, least, ordered⟩⟩
        exact fun point member => valids point (.tail _ member)

/-- What a file must hold to be loaded. -/
theorem readState_eq_some (read : readState mapper content = some loaded) :
    mapper.read (cString content) = some (some (loaded.map some)) ∧ loaded ≠ [] ∧
    (∀ point ∈ loaded, validPoint (some point) = true) ∧
      loaded.Pairwise fun first second => first.time ≤ second.time := by
  unfold readState at read
  split at read
  · contradiction
  · split at read
    · contradiction
    · contradiction
    · rename_i parsed
      split at read
      · contradiction
      · rename_i within
        split at read
        · contradiction
        · rename_i checked
          simp only [Bool.not_eq_true', Bool.not_eq_false] at checked
          obtain ⟨known, rfl, valid, _, ordered⟩ := (checkPoints_iff _ _).mp checked
          simp only [Boundaries.reduceOption_map_some, Option.some.injEq] at read
          cases read
          refine ⟨parsed, ?_, valid, ordered⟩
          rintro rfl
          simp at within

/-- Loading exactly the text of a list of valid points in order. -/
theorem readState_text (size : content.length ≠ 0 ∧ content.length ≤ maxStateBytes)
    (text : 0 ∉ content) (read : mapper.read content = some (some (points.map some)))
    (nonempty : points ≠ []) (valid : ∀ point ∈ points, validPoint (some point) = true)
    (ordered : points.Pairwise fun first second => first.time ≤ second.time) :
    readState mapper content = if points.length ≤ maxStatePoints then some points else none := by
  have whole : cString content = content := by
    apply List.takeWhile_eq_self_iff.mpr
    intro byte member
    simpa using ne_of_mem_of_not_mem member text
  have checked : checkPoints 0 (points.map some) = true := by
    refine (checkPoints_iff _ _).mpr ⟨points, rfl, valid, ?_, ordered⟩
    exact fun point member => Int.le_of_lt (validPoint_time (valid point member))
  have sized : (content.length = 0 || maxStateBytes < content.length) = false := by
    simp [size.1, size.2]
  rw [readState, sized, whole, read]
  by_cases fits : points.length ≤ maxStatePoints
  · simp [checked, nonempty, fits]
  · simp [nonempty, fits]

namespace Loadable

theorem filtered (loadable : s.Loadable) (keep : StatPointDto → Bool) (counters : Counter → Nat) :
    Loadable { counters, dataPoints := s.dataPoints.filter keep } where
  valid point member := loadable.valid point (List.mem_of_mem_filter member)
  ordered := loadable.ordered.filter _

/-- A point at least as late as all the others. -/
theorem pushed (loadable : s.Loadable) (positive : 0 < now) (latest : ∀ point ∈ s.dataPoints, point.time ≤ now) :
    (s.pushPoint periods now).Loadable where
  valid point member := by
    have member := (List.dropWhile_sublist _).subset member
    rw [List.mem_append, List.mem_singleton] at member
    rcases member with old | rfl
    · exact loadable.valid point old
    · exact validPoint_fill s positive
  ordered := by
    apply List.Pairwise.sublist (List.dropWhile_sublist _)
    rw [List.pairwise_append]
    refine ⟨loadable.ordered, List.pairwise_singleton .., ?_⟩
    intro first old last is
    rw [List.mem_singleton] at is
    rw [is]
    exact latest first old

theorem sampled (loadable : s.Loadable) (positive : 0 < now) :
    (s.takeSample periods now).Loadable := by
  unfold takeSample
  cases known : s.dataPoints.getLast? with
  | none =>
    rw [List.getLast?_eq_none_iff] at known
    exact loadable.pushed positive (by simp [known])
  | some last =>
    obtain ⟨before, shape⟩ := List.getLast?_eq_some_iff.mp known
    have ordered := loadable.ordered
    rw [shape, List.pairwise_append] at ordered
    have valid := loadable.valid
    rw [shape] at valid
    dsimp only
    split
    · rw [shape, List.dropLast_concat]
      constructor
      · intro point member
        rw [List.mem_append, List.mem_singleton] at member
        rcases member with old | rfl
        · exact valid point (List.mem_append_left _ old)
        · exact validPoint_fill s (validPoint_time (valid last (by simp)))
      · rw [List.pairwise_append]
        refine ⟨ordered.1, List.pairwise_singleton .., ?_⟩
        intro first old second is
        rw [List.mem_singleton] at is
        rw [is, fill_time]
        exact ordered.2.2 first old last (by simp)
    · rename_i interval
      have := periods.nonneg.2
      apply loadable.pushed positive
      intro point member
      rw [shape, List.mem_append, List.mem_singleton] at member
      rcases member with old | rfl
      · have := ordered.2.2 point old last (by simp)
        omega
      · omega

theorem loaded (loadable : s.Loadable) : (s.loadState mapper periods file now).1.Loadable := by
  unfold loadState
  cases file with
  | missing => exact loadable
  | unreadable => exact loadable
  | content content =>
    dsimp only
    cases read : readState mapper content with
    | none => exact loadable
    | some points =>
      obtain ⟨-, -, valid, ordered⟩ := readState_eq_some read
      have all : Loadable { dataPoints := points } := ⟨valid, ordered⟩
      dsimp only
      cases points.getLast? with
      | none => exact loadable
      | some latest => exact all.filtered _ _

end Loadable

theorem loadable (reached : (collector mapper periods).Reachable s) : s.Loadable := by
  apply reached.invariant
  · rintro s rfl
    exact ⟨by simp, .nil⟩
  · intro s label next _ loadable step
    cases step with
    | count => exact ⟨loadable.valid, loadable.ordered⟩
    | sample positive => exact loadable.sampled positive
    | load => exact loadable.loaded

/-- What was saved is loaded again exactly when no more points were saved than
a load admits. -/
theorem saved_loads (reached : (collector mapper periods).Reachable s) (points : s.dataPoints ≠ [])
    (roundTrip : mapper.read (s.getJsonData mapper) = some (some (s.dataPoints.map some)))
    (text : 0 ∉ s.getJsonData mapper) (saved : s.saveState mapper path written = true)
    (target : Statistics) (now : Int) :
    ((target.loadState mapper periods (.content (s.getJsonData mapper)) now).2 = .loaded ∧
        ∃ newest, s.dataPoints.getLast? = some newest ∧ ∀ counter,
          (target.loadState mapper periods (.content (s.getJsonData mapper)) now).1.counters counter =
            (newest.value counter).getD 0) ↔
      s.dataPoints.length ≤ maxStatePoints := by
  have size : (s.getJsonData mapper).length ≠ 0 ∧ (s.getJsonData mapper).length ≤ maxStateBytes := by
    simp only [saveState] at saved
    split at saved
    · contradiction
    · split at saved
      · contradiction
      · rename_i within
        simpa using within
  obtain ⟨valid, ordered⟩ := loadable reached
  have read := readState_text size text roundTrip points valid ordered
  obtain ⟨newest, last⟩ := Option.ne_none_iff_exists'.mp (mt List.getLast?_eq_none_iff.mp points)
  unfold loadState
  by_cases fits : s.dataPoints.length ≤ maxStatePoints
  · rw [if_pos fits] at read
    simp only [read, last]
    exact iff_of_true ⟨trivial, newest, rfl, fun _ => rfl⟩ fits
  · rw [if_neg fits] at read
    simp only [read]
    exact iff_of_false (fun outcome => by cases outcome.1) fits

def columnName : Counter → Bytes
  | .evFrontpageLoaded => ascii "ev_front_page_loaded"
  | .evPeerConnected => ascii "ev_peer_connected"
  | .evPeerDisconnected => ascii "ev_peer_disconnected"
  | .evPeerZombieDropped => ascii "ev_peer_zombie_dropped"
  | .evPeerTransportClosed => ascii "ev_peer_transport_closed"
  | .evPeerResumed => ascii "ev_peer_resumed"
  | .evSessionExpired => ascii "ev_session_expired"
  | .evPeerSendMessage => ascii "ev_peer_send_message"
  | .evPeerShareFile => ascii "ev_peer_share_file"
  | .evRoomCreated => ascii "ev_room_created"
  | .evRoomDeleted => ascii "ev_room_deleted"
  | .fileServedBytes => ascii "file_served_bytes"

def writeNumber (number : Option Int) : Bytes :=
  match number with
  | none => ascii "null"
  | some number => ascii (toString number)

def writeColumn (name : Bytes) (number : Option Int) : Bytes :=
  ascii "\"" ++ name ++ ascii "\":" ++ writeNumber number

def separated : List Bytes → Bytes
  | [] => []
  | [text] => text
  | text :: rest => text ++ ascii "," ++ separated rest

/-- The JSON text of a point, its columns in the order of the DTO. -/
def writePoint (point : StatPointDto) : Bytes :=
  ascii "\x7b" ++ separated (writeColumn (ascii "timestamp") point.timestamp ::
    Counter.all.map fun counter =>
      writeColumn (columnName counter) ((point.value counter).map Int.ofNat)) ++ ascii "\x7d"

def writePoints (points : List StatPointDto) : Bytes :=
  ascii "[" ++ separated (points.map writePoint) ++ ascii "]"

/-- A mapper that writes JSON and reads the texts it is given a list for. -/
def mapperOf (known : List (Bytes × List StatPointDto)) : PointMapper where
  write := writePoints
  read content := (known.lookup content).map fun points => some (points.map some)

theorem mem_separated (texts : List Bytes) (clean : ∀ text ∈ texts, byte ∉ text)
    (other : byte ∉ ascii ",") : byte ∉ separated texts := by
  induction texts using separated.induct with
  | case1 => simp [separated]
  | case2 text => simpa [separated] using clean
  | case3 text rest _ ih =>
    have later := ih fun text member => clean text (.tail _ member)
    have first := clean text (.head _)
    simp_all [separated]

theorem length_separated (texts : List Bytes) (bounded : ∀ text ∈ texts, text.length ≤ bound) :
    (separated texts).length ≤ texts.length * (bound + 1) := by
  induction texts using separated.induct with
  | case1 => simp [separated]
  | case2 text =>
    have := bounded text (.head _)
    simp only [separated, List.length_singleton]
    omega
  | case3 text rest _ ih =>
    have later := ih fun text member => bounded text (.tail _ member)
    have first := bounded text (.head _)
    have comma : (ascii ",").length = 1 := rfl
    simp only [separated, List.length_append, List.length_cons, comma, Nat.add_mul] at later ⊢
    omega

theorem writePoints_clean (clean : ∀ point ∈ points, 0 ∉ writePoint point) : 0 ∉ writePoints points := by
  have inside : 0 ∉ separated (points.map writePoint) := by
    apply mem_separated _ _ (by decide)
    intro text member
    obtain ⟨point, known, rfl⟩ := List.mem_map.mp member
    exact clean point known
  simp only [writePoints, List.mem_append, not_or]
  exact ⟨⟨by decide, inside⟩, by decide⟩

theorem writePoints_length (bounded : ∀ point ∈ points, (writePoint point).length ≤ bound) :
    (writePoints points).length ≤ points.length * (bound + 1) + 2 := by
  have inside : (separated (points.map writePoint)).length ≤ (points.map writePoint).length * (bound + 1) := by
    apply length_separated
    intro text member
    obtain ⟨point, known, rfl⟩ := List.mem_map.mp member
    exact bounded point known
  have brackets : (ascii "[").length = 1 ∧ (ascii "]").length = 1 := ⟨rfl, rfl⟩
  simp only [writePoints, List.length_append, List.length_map, brackets.1, brackets.2] at inside ⊢
  omega

def pointFirst (timestamp : Int) : StatPointDto := fill {} { timestamp := some timestamp, value := fun _ => none }

theorem pointFirst_text : (0 ∉ writePoint (pointFirst 1) ∧ (writePoint (pointFirst 1)).length ≤ 400) ∧
    0 ∉ writePoint (pointFirst 3600000001) ∧ (writePoint (pointFirst 3600000001)).length ≤ 400 := by
  decide +kernel

theorem mapperOf_saves (fits : (writePoints s.dataPoints).length ≤ maxStateBytes) :
    s.saveState (mapperOf known) (ascii "state") true = true := by
  have path : (ascii "state").isEmpty = false := by decide
  have nonempty : (writePoints s.dataPoints).isEmpty = false := by simp [writePoints, ascii]
  have within : ¬ maxStateBytes < (writePoints s.dataPoints).length := Nat.not_lt.mpr fits
  have json : s.getJsonData (mapperOf known) = writePoints s.dataPoints := rfl
  simp only [saveState, json, path, nonempty, within, decide_false, Bool.or_self, Bool.false_eq_true, if_false]

/-- One sample at the first microsecond, saved and loaded. -/
theorem saved_loads_first : ∃ (s target : Statistics) (mapper : PointMapper),
    (collector mapper {}).Reachable s ∧ s.dataPoints.length = 1 ∧
      (target.loadState mapper {} (.content (s.getJsonData mapper)) 2).2 = .loaded := by
  have reached : (collector (mapperOf [(writePoints [pointFirst 1], [pointFirst 1])]) {}).Reachable
      { dataPoints := [pointFirst 1] } := .next (.start rfl) (.sample (by decide : (0 : Int) < 1))
  have short : (writePoints [pointFirst 1]).length ≤ [pointFirst 1].length * (400 + 1) + 2 :=
    writePoints_length (by simp [pointFirst_text])
  have loads := saved_loads reached (by simp) (by simp [getJsonData, mapperOf])
    (writePoints_clean (by simp [pointFirst_text])) (mapperOf_saves (Nat.le_trans short (by decide))) {} 2
  exact ⟨_, {}, _, reached, rfl, (loads.mpr (by decide)).1⟩

/-- The points of a state file that is as full as a load admits, and those
after one more sample, an hour later. -/
structure Full (points : List StatPointDto) : Prop where
  same : ∀ point ∈ points, point = pointFirst 1
  length : points.length = maxStatePoints

def next (points : List StatPointDto) : List StatPointDto := points ++ [pointFirst 3600000001]

/-- The state file: the text of the points after a blank. -/
def fileOf (points : List StatPointDto) : Bytes := 32 :: writePoints points

def mapperFirst (points : List StatPointDto) : PointMapper :=
  mapperOf [(fileOf points, points), (writePoints (next points), next points)]

namespace Full

theorem mem_next (full : Full points) (member : point ∈ next points) :
    point = pointFirst 1 ∨ point = pointFirst 3600000001 := by
  rw [next, List.mem_append, List.mem_singleton] at member
  rcases member with old | last
  · exact .inl (full.same point old)
  · exact .inr last

theorem length_next (full : Full points) : (next points).length = maxStatePoints + 1 := by
  rw [next, List.length_append, full.length, List.length_singleton]

theorem ne_nil (full : Full points) : points ≠ [] := by
  rintro rfl
  cases full.length

theorem next_ne_nil (points : List StatPointDto) : next points ≠ [] := by simp [next]

theorem last (full : Full points) : points.getLast? = some (pointFirst 1) := by
  obtain ⟨newest, last⟩ := Option.ne_none_iff_exists'.mp (mt List.getLast?_eq_none_iff.mp full.ne_nil)
  rw [last, full.same newest (List.mem_of_getLast? last)]

theorem next_text (full : Full points) :
    0 ∉ writePoints (next points) ∧ (writePoints (next points)).length ≤ maxStateBytes := by
  have clean : 0 ∉ writePoints (next points) := by
    apply writePoints_clean
    intro point member
    rcases full.mem_next member with rfl | rfl
    · exact pointFirst_text.1.1
    · exact pointFirst_text.2.1
  have short : (writePoints (next points)).length ≤ (next points).length * (400 + 1) + 2 := by
    apply writePoints_length
    intro point member
    rcases full.mem_next member with rfl | rfl
    · exact pointFirst_text.1.2
    · exact pointFirst_text.2.2
  rw [full.length_next, maxStatePoints] at short
  refine ⟨clean, ?_⟩
  rw [maxStateBytes]
  omega

theorem read (full : Full points) : readState (mapperFirst points) (fileOf points) = some points := by
  have clean : 0 ∉ writePoints points := by
    apply writePoints_clean
    intro point member
    rw [full.same point member]
    exact pointFirst_text.1.1
  have short : (writePoints points).length ≤ points.length * (400 + 1) + 2 := by
    apply writePoints_length
    intro point member
    rw [full.same point member]
    exact pointFirst_text.1.2
  have size : (fileOf points).length ≠ 0 ∧ (fileOf points).length ≤ maxStateBytes := by
    rw [full.length, maxStatePoints] at short
    rw [fileOf, List.length_cons, maxStateBytes]
    omega
  have known : (mapperFirst points).read (fileOf points) = some (some (points.map some)) := by
    simp [mapperFirst, mapperOf]
  rw [readState_text size (by simp [fileOf, clean]) known full.ne_nil]
  · rw [if_pos (Nat.le_of_eq full.length)]
  · intro point member
    rw [full.same point member]
    rfl
  · apply List.pairwise_of_forall_mem_list
    intro first member second member'
    exact Int.le_of_eq (by rw [full.same first member, full.same second member'])

theorem loaded (full : Full points) :
    (loadState (mapperFirst points) {} {} (.content (fileOf points)) 1).1 = { dataPoints := points } := by
  have kept : restore {} points (pointFirst 1) 1 = { dataPoints := points } := by
    have stays : points.filter (fun point =>
        decide (1 - ({} : Periods).maxPeriod ≤ point.time) && decide (point.time ≤ 1)) = points := by
      rw [List.filter_eq_self]
      intro point member
      rw [full.same point member]
      decide
    rw [restore, stays]
    rfl
  simp only [loadState, full.read, full.last]
  exact kept

theorem sampled (full : Full points) :
    takeSample {} { dataPoints := points } 3600000001 = { dataPoints := next points } := by
  have pushed : pushPoint {} { dataPoints := points } 3600000001 = { dataPoints := next points } := by
    have stays : (points ++ [pointFirst 3600000001]).dropWhile (fun point =>
        decide (({} : Periods).maxPeriod < 3600000001 - point.time)) = next points := by
      obtain ⟨first, rest, rfl⟩ := List.exists_cons_of_ne_nil full.ne_nil
      rw [full.same first (.head _), List.cons_append, List.dropWhile_cons_of_neg (by decide)]
      rfl
    calc pushPoint {} { dataPoints := points } 3600000001
        = { dataPoints := (points ++ [pointFirst 3600000001]).dropWhile fun point =>
              decide (({} : Periods).maxPeriod < 3600000001 - point.time) } := rfl
      _ = { dataPoints := next points } := by rw [stays]
  have interval : ¬ 3600000001 - (pointFirst 1).time < ({} : Periods).pushInterval := by decide
  simp only [takeSample, full.last, interval, if_false]
  exact pushed

theorem reached (full : Full points) :
    (collector (mapperFirst points) {}).Reachable { dataPoints := next points } := by
  have start : (collector (mapperFirst points) {}).Reachable { dataPoints := points } := by
    have step : StatisticsStep (mapperFirst points) {} {} (.load (.content (fileOf points)) 1) _ := .load
    rw [full.loaded] at step
    exact .next (.start rfl) step
  have step : StatisticsStep (mapperFirst points) {} { dataPoints := points } (.sample 3600000001) _ :=
    .sample (by decide)
  rw [full.sampled] at step
  exact .next start step

theorem read_next (points : List StatPointDto) : (mapperFirst points).read (writePoints (next points)) =
    some (some ((next points).map some)) := by
  have other : (writePoints (next points) == fileOf points) = false := by
    simp [writePoints, fileOf, ascii]
  simp [mapperFirst, mapperOf, List.lookup_cons, other]

theorem refused (full : Full points) : readState (mapperFirst points) (writePoints (next points)) = none := by
  have size : (writePoints (next points)).length ≠ 0 ∧
      (writePoints (next points)).length ≤ maxStateBytes :=
    ⟨by simp [writePoints, ascii], full.next_text.2⟩
  obtain ⟨valid, ordered⟩ := loadable full.reached
  rw [readState_text size full.next_text.1 (read_next points) (next_ne_nil points) valid ordered,
    if_neg (by rw [full.length_next]; exact Nat.not_succ_le_self _)]

end Full

/-- The state that was saved is refused when it is loaded. -/
theorem saved_refused : ∃ (s target : Statistics) (mapper : PointMapper),
    (collector mapper {}).Reachable s ∧ s.dataPoints ≠ [] ∧
      mapper.read (s.getJsonData mapper) = some (some (s.dataPoints.map some)) ∧
      s.saveState mapper (ascii "state") true = true ∧
      (target.loadState mapper {} (.content (s.getJsonData mapper)) 3600000001).2 = .invalid := by
  have full : ∃ points, Full points :=
    ⟨_, fun _ => List.eq_of_mem_replicate, List.length_replicate⟩
  obtain ⟨points, full⟩ := full
  have content : getJsonData (mapperFirst points) { dataPoints := next points } =
      writePoints (next points) := rfl
  refine ⟨{ dataPoints := next points }, {}, mapperFirst points, full.reached,
    Full.next_ne_nil points, Full.read_next points, mapperOf_saves full.next_text.2, ?_⟩
  simp only [loadState, content, full.refused]

end Statistics
end Conspire
