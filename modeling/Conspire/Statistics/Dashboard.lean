import Conspire.Statistics.Restarts

/-! The dashboard (`dashboard/app.js`): how it takes statistics from the server or from a file, and the
tables it makes of them. The server's answer and the state file are both shown whole, each counter as the
double nearest to it; what the browser writes for a number and for a time is a parameter. -/
namespace Conspire.Statistics
open Frames Transition
open Json (Numeral Spelling Value units places)

section Page

def maxStatsBytes : Nat := 1024 * 1024
def maxStatsPoints : Nat := 1000
def requiredStatFields : List String := ["timestamp", "ev_peer_connected", "ev_peer_disconnected"]

structure Field where
  label : String
  field : String
  unit : String := ""

structure Metric where
  id : String
  fields : List Field

def metrics : List Metric :=
  [{ id := "peer"
     fields :=
       [{ label := "Peers Connected", field := "ev_peer_connected" },
        { label := "Peers Disconnected", field := "ev_peer_disconnected" },
        { label := "Heartbeat Timeouts", field := "ev_peer_zombie_dropped" },
        { label := "Transport Closed", field := "ev_peer_transport_closed" },
        { label := "Peers Resumed", field := "ev_peer_resumed" },
        { label := "Sessions Expired", field := "ev_session_expired" }] },
   { id := "room"
     fields :=
       [{ label := "Rooms Created", field := "ev_room_created" },
        { label := "Rooms Deleted", field := "ev_room_deleted" }] },
   { id := "communication"
     fields :=
       [{ label := "Messages Sent", field := "ev_peer_send_message" },
        { label := "Files Shared", field := "ev_peer_share_file" }] },
   { id := "system"
     fields :=
       [{ label := "Front Page Loads", field := "ev_front_page_loaded" },
        { label := "Data Served", field := "file_served_bytes", unit := "MB" }] }]

/-- `point[field]` -/
def column (point : Value) (field : String) : Option Value := point.get (units field)

/-- `Number.isFinite` -/
def isFinite : Option Value → Bool
  | some (.number numeral) => numeral.double < 2 ^ 1024 * 2 ^ places
  | _ => false

def validStats : Value → Bool
  | .array points => !points.isEmpty && points.length ≤ maxStatsPoints &&
      points.all fun point => requiredStatFields.all fun field => isFinite (column point field)
  | _ => false

/-- A double: its sign, and its magnitude in units of the last place. -/
structure Double where
  negative : Bool
  magnitude : Nat

/-- `value / divisor` -/
def Double.divide (value : Double) (divisor : Nat) : Double :=
  { value with magnitude := Rounding.roundQuotient value.magnitude divisor }

/-- What the browser brings: the texts of its exceptions, `Intl.NumberFormat` by its
`maximumFractionDigits`, `Intl.DateTimeFormat` on the milliseconds of a `Date`, and whether `Chart` is
loaded. -/
structure Browser where
  syntaxError : List Nat → String
  rangeError : String
  numberFormat : Nat → Double → String
  dateFormat : Int → String
  chart : Bool

/-- What the page shows of a metric: the text of its summary, and its table. -/
structure Chart where
  summary : String := ""
  header : List String := []
  rows : List (String × List String) := []

section Render
variable (browser : Browser)

/-- The milliseconds of `new Date(timestamp / 1000)`; `none` is no time. -/
def dateOf : Option Value → Option Int
  | some (.number numeral) =>
    let milliseconds := Double.divide ⟨numeral.negative, numeral.double⟩ 1000
    let whole : Int := (milliseconds.magnitude / 2 ^ places : Nat)
    if milliseconds.magnitude ≤ 8640000000000000 * 2 ^ places then
      some (if milliseconds.negative then -whole else whole)
    else none
  | _ => none

/-- `none` is the `RangeError` of a `Date` without a time. -/
def formatTimestamp (timestamp : Option Value) : Option String := (dateOf timestamp).map browser.dateFormat

def formatValue (value : Option Value) (unit : String) : String :=
  match value with
  | some (.number numeral) =>
    if isFinite value then
      let number : Double := ⟨numeral.negative, numeral.double⟩
      let displayed := if unit = "MB" then (number.divide 1024).divide 1024 else number
      browser.numberFormat (if unit = "MB" then 2 else 0) displayed ++ if unit = "" then "" else " " ++ unit
    else "—"
  | _ => "—"

/-- The chart after `renderSemanticChart`, and what is thrown. -/
def renderSemanticChart (metric : Metric) (statsData : List Value) (chart : Chart) : Chart × Option String :=
  let latest := statsData.getLast?
  let values := metric.fields.map fun field =>
    field.label ++ ": " ++ formatValue browser (latest.bind fun latest => column latest field.field) field.unit
  let summary :=
    match latest with
    | none => some "No data is available for this metric."
    | some latest => (formatTimestamp browser (column latest "timestamp")).map fun time =>
        "Latest at " ++ time ++ ". " ++ "; ".intercalate values ++ "."
  match summary with
  | none => (chart, some browser.rangeError)
  | some summary =>
    let header := "Timestamp" :: metric.fields.map fun field =>
      if field.unit = "" then field.label else field.label ++ " (" ++ field.unit ++ ")"
    let rows := statsData.mapM fun point =>
      (formatTimestamp browser (column point "timestamp")).map fun time =>
        (time, metric.fields.map fun field => formatValue browser (column point field.field) field.unit)
    match rows with
    | none => ({ chart with summary, header }, some browser.rangeError)
    | some rows => ({ summary, header, rows }, none)

/-- `METRICS.forEach(renderSemanticChart)` on the charts by their ids. -/
def renderCharts (statsData : List Value) (charts : String → Chart) :
    List Metric → (String → Chart) × Option String
  | [] => (charts, none)
  | metric :: rest =>
    match renderSemanticChart browser metric statsData (charts metric.id) with
    | (chart, some thrown) => (Function.update charts metric.id chart, some thrown)
    | (chart, none) => renderCharts statsData (Function.update charts metric.id chart) rest

end Render

inductive StatusKind where
  | info | success | warning | error
  deriving DecidableEq

structure Dashboard where
  statsData : List Value := []
  charts : String → Chart := fun _ => {}
  kind : StatusKind := .info
  message : String := ""

/-- A source of statistics by its name, and the messages that depend on it. -/
structure Source where
  name : String
  noRecords : String
  schema : String

def network : Source where
  name := "network"
  noRecords := "No statistics are available yet. Refresh when the service has recorded data."
  schema := "Statistics data must contain up to 1,000 numeric records in the expected schema."

def localFile (name : String) : Source where
  name := name
  noRecords := "This file contains no statistics records. Choose another file or refresh the data source."
  schema := "The file does not match the required numeric statistics schema."

structure Response where
  ok : Bool
  status : Nat
  contentLength : Nat
  text : List Nat

structure Url where
  protocol : String
  hostname : String

structure StatsFile where
  type : String
  name : String
  size : Nat
  text : List Nat

/-- `safeStatsUrl`; `none` is a text that is no URL. -/
def safeStatsUrl (url : Option Url) : Option Url :=
  match url with
  | none => none
  | some url =>
    if url.protocol ∉ ["https:", "http:"] then none
    else if url.protocol = "http:" ∧ url.hostname ∉ ["localhost", "127.0.0.1", "[::1]"] then none
    else some url

namespace Dashboard
variable (browser : Browser) (d : Dashboard)

def setDashboardStatus (kind : StatusKind) (message : String) : Dashboard := { d with kind, message }

/-- The second component is what is thrown. -/
def initializeCharts : Dashboard × Option String :=
  if d.statsData.isEmpty then (d, none)
  else
    match renderCharts browser d.statsData d.charts metrics with
    | (charts, some thrown) => ({ d with charts }, some thrown)
    | (charts, none) =>
      if !browser.chart then
        ({ d with charts }.setDashboardStatus .error
          "Chart rendering is unavailable. The data tables below remain available.", none)
      else ({ d with charts }, none)

/-- Both sources, from `JSON.parse` on. -/
def showStats (source : Source) (text : List Nat) : Dashboard × Option String :=
  match Json.parse text with
  | none => (d, some (browser.syntaxError text))
  | some (.array points) =>
    if points.isEmpty then
      ({ d with statsData := [], charts := (renderCharts browser [] d.charts metrics).1 }.setDashboardStatus
        .warning source.noRecords, none)
    else if !validStats (.array points) then (d, some source.schema)
    else
      match { d with statsData := points }.initializeCharts browser with
      | (d, some thrown) => (d, some thrown)
      | (d, none) =>
        (d.setDashboardStatus .success
          (toString points.length ++ " statistics records loaded from " ++ source.name ++ "."), none)
  | some _ => (d, some source.schema)

/-- `response` is what `fetch` comes to; a network error is thrown with its message. -/
def fetchStatsData (url : Option Url) (response : Except String Response) : Dashboard × Option String :=
  match safeStatsUrl url with
  | none => (d, some "Statistics URL must be HTTPS, or HTTP on localhost.")
  | some _ =>
    let d := d.setDashboardStatus .info "Loading dashboard data."
    match response with
    | .error thrown => (d, some thrown)
    | .ok response =>
      if !response.ok then (d, some ("The statistics service returned " ++ toString response.status ++ "."))
      else if maxStatsBytes < response.contentLength then
        (d, some "Statistics response is larger than the 1 MiB limit.")
      else if maxStatsBytes < response.text.length then (d, some "Statistics response is larger than the 1 MiB limit.")
      else d.showStats browser network response.text

def refreshDashboard (url : Option Url) (response : Except String Response) : Dashboard :=
  match d.fetchStatsData browser url response with
  | (d, none) => d
  | (d, some thrown) =>
    d.setDashboardStatus .error
      ("Unable to load dashboard data: " ++ thrown ++ " Check the data source and try again.")

/-- With the `onload` of the reader. -/
def loadJsonFile (file : StatsFile) : Dashboard :=
  if file.type ≠ "application/json" && !".json".toList.isSuffixOf file.name.toList then
    d.setDashboardStatus .error "Choose a JSON statistics file."
  else if maxStatsBytes < file.size then
    d.setDashboardStatus .error "The selected file is larger than the 1 MiB limit."
  else
    match d.showStats browser (localFile file.name) file.text with
    | (d, none) => d
    | (d, some thrown) => d.setDashboardStatus .error ("Unable to load this file: " ++ thrown)

end Dashboard

end Page

section Parsed
variable {points : List StatPointDto} {point : StatPointDto}

/-- A number of the server as the browser reads it. -/
def numeral (n : Nat) : Numeral := ⟨false, n, 0⟩

def numberValue : Option Int → Value
  | none => .null
  | some value => .number ⟨decide (value < 0), value.natAbs, 0⟩

def pointColumns (point : StatPointDto) : List (String × Option Int) :=
  ("timestamp", point.timestamp) ::
    Counter.all.map fun counter => (fieldName counter, (point.value counter).map Int.ofNat)

/-- What the browser reads for a point. -/
def pointValue (point : StatPointDto) : Value :=
  .object ((pointColumns point).map fun entry => (units entry.1, numberValue entry.2))

/-- The text of a name is its code units. -/
theorem name_units : ∀ name ∈ "timestamp" :: Counter.all.map fieldName,
    Plain (ascii name) ∧ (ascii name).map UInt8.toNat = units name := by
  decide

theorem pointColumns_names (point : StatPointDto) :
    (pointColumns point).map Prod.fst = "timestamp" :: Counter.all.map fieldName := by
  simp [pointColumns, Function.comp_def]

theorem plainPieces_meaning (plain : Plain key) :
    (plainPieces key).mapM Json.Piece.unit = some (key.map UInt8.toNat) := by
  obtain ⟨split, each⟩ := plain.chunks
  have same : pieces key = plainPieces key := by
    rw [pieces, split, List.flatMap_map, plainPieces]
    refine List.flatMap_congr fun byte member => ?_
    obtain ⟨visible, small, unmarked⟩ := each byte member
    rw [chunkPieces, if_neg visible, if_pos small, if_neg (by simp [unmarked])]
  rw [← same, plain.meaning]

theorem numberSpelling_meaning (number : Option Int) :
    (numberSpelling number).meaning = some (numberValue number) := by
  cases number with
  | none => rw [numberSpelling, Option.elim_none, Spelling.meaning, numberValue]
  | some value => rw [numberSpelling, Option.elim_some, Spelling.meaning, numberValue]

theorem columns_meaning {entries : List (String × Option Int)}
    (named : ∀ entry ∈ entries, Plain (ascii entry.1) ∧ (ascii entry.1).map UInt8.toNat = units entry.1) :
    Json.meaningMembers (entries.map fun entry => member entry.1 (numberSpelling entry.2)) =
      some (entries.map fun entry => (units entry.1, numberValue entry.2)) := by
  induction entries with
  | nil => exact Json.meaningMembers_nil
  | cons entry entries ih =>
    obtain ⟨⟨plain, same⟩, others⟩ := List.forall_mem_cons.mp named
    rw [List.map_cons, List.map_cons, member, Json.meaningMembers_cons, plainPieces_meaning plain, Option.bind_some,
      numberSpelling_meaning, Option.bind_some, ih others, same]
    rfl

theorem point_meaning (point : StatPointDto) : (pointSpelling point).meaning = some (pointValue point) := by
  have entries : (pointMembers point).map (fun entry => member entry.1 entry.2) =
      (pointColumns point).map fun entry => member entry.1 (numberSpelling entry.2) := by
    simp [pointMembers, pointColumns, counterMember, Function.comp_def]
  have named : ∀ entry ∈ pointColumns point,
      Plain (ascii entry.1) ∧ (ascii entry.1).map UInt8.toNat = units entry.1 := by
    intro entry inside
    apply name_units
    rw [← pointColumns_names point]
    exact List.mem_map_of_mem inside
  rw [pointSpelling, objectSpelling, entries, Spelling.meaning, columns_meaning named]
  rfl

theorem points_meaning (points : List StatPointDto) :
    (pointsSpelling points).meaning = some (.array (points.map pointValue)) := by
  have items : Json.meaningItems (points.map pointSpelling) = some (points.map pointValue) := by
    induction points with
    | nil => exact Json.meaningItems_nil
    | cons point points ih =>
      rw [List.map_cons, Json.meaningItems_cons, point_meaning, Option.bind_some, ih]
      rfl
  rw [pointsSpelling, Spelling.meaning, items]
  rfl

/-- The browser reads the server's text. -/
theorem points_parsed (points : List StatPointDto) :
    Json.parse ((writePoints points).map UInt8.toNat) = some (.array (points.map pointValue)) := by
  rw [points_text, Json.parse_render, points_meaning]

theorem pointValue_column (inside : (name, number) ∈ pointColumns point) :
    column (pointValue point) name = some (numberValue number) := by
  apply Json.get_of_nodup
  · have names : ((pointColumns point).map fun entry => (units entry.1, numberValue entry.2)).map Prod.fst =
        ((pointColumns point).map Prod.fst).map units := by
      simp [Function.comp_def]
    rw [names, pointColumns_names]
    decide
  · exact List.mem_map_of_mem (f := fun entry : String × Option Int => (units entry.1, numberValue entry.2)) inside

theorem timestamp_column (point : StatPointDto) :
    column (pointValue point) "timestamp" = some (numberValue point.timestamp) :=
  pointValue_column List.mem_cons_self

theorem counter_column (point : StatPointDto) (counter : Counter) :
    column (pointValue point) (fieldName counter) = some (numberValue ((point.value counter).map Int.ofNat)) := by
  apply pointValue_column
  exact List.mem_cons_of_mem _
    (List.mem_map_of_mem (f := fun counter => (fieldName counter, (point.value counter).map Int.ofNat)) (mem_all counter))

end Parsed

section Ascii

theorem not_mem_ascii {byte : UInt8} (high : 0x80 ≤ byte.toNat) {text : Bytes} (plain : text.all (· < 0x80) = true) :
    byte ∉ text := by
  intro member
  have low := List.all_eq_true.mp plain byte member
  rw [decide_eq_true_eq, UInt8.lt_iff_toNat_lt] at low
  exact absurd high (Nat.not_le_of_lt low)

theorem writeNumber_ascii {byte : UInt8} (high : 0x80 ≤ byte.toNat) (number : Option Int) :
    byte ∉ writeNumber number := by
  cases number with
  | none => exact not_mem_ascii high (by decide)
  | some value =>
    intro member
    have digit := Json.decimal_ascii value byte.toNat
    rw [← decimal_text] at digit
    exact absurd (digit (List.mem_map_of_mem member)) (Nat.not_lt.mpr high)

theorem writeColumn_ascii {byte : UInt8} (high : 0x80 ≤ byte.toNat) (number : Option Int)
    (plain : name.all (· < 0x80) = true) : byte ∉ writeColumn name number := by
  simp only [writeColumn, List.mem_append, not_or]
  exact ⟨⟨⟨not_mem_ascii high (by decide), not_mem_ascii high plain⟩, not_mem_ascii high (by decide)⟩,
    writeNumber_ascii high number⟩

theorem columnName_ascii (counter : Counter) : (columnName counter).all (· < 0x80) = true := by
  cases counter <;> decide

theorem writePoint_ascii {byte : UInt8} (high : 0x80 ≤ byte.toNat) (point : StatPointDto) :
    byte ∉ writePoint point := by
  simp only [writePoint, List.mem_append, not_or]
  refine ⟨⟨not_mem_ascii high (by decide), mem_separated _ ?_ (not_mem_ascii high (by decide))⟩,
    not_mem_ascii high (by decide)⟩
  intro text member
  rcases List.mem_cons.mp member with rfl | member
  · exact writeColumn_ascii high _ (by decide)
  · obtain ⟨counter, -, rfl⟩ := List.mem_map.mp member
    exact writeColumn_ascii high _ (columnName_ascii counter)

theorem writePoints_ascii (points : List StatPointDto) : ∀ byte ∈ writePoints points, byte.toNat < 0x80 := by
  intro byte member
  by_contra high
  have high := Nat.not_lt.mp high
  revert member
  simp only [writePoints, List.mem_append, imp_false, not_or]
  refine ⟨⟨not_mem_ascii high (by decide), mem_separated _ ?_ (not_mem_ascii high (by decide))⟩,
    not_mem_ascii high (by decide)⟩
  intro text inside
  obtain ⟨point, -, rfl⟩ := List.mem_map.mp inside
  exact writePoint_ascii high point

end Ascii

section Shown
variable {points : List StatPointDto} {point : StatPointDto} {record : Record} {browser : Browser} {source : Source}
  {metric : Metric} {d : Dashboard}

/-- The last microsecond that a `Date` has. -/
def lastDate : Int := 8640000000000000000

/-- The counter of a column. -/
def counterNamed (name : String) : Option Counter := Counter.all.find? fun counter => fieldName counter = name

/-- Every counter stands in one column of the tables, and nothing else does. -/
theorem metrics_counters : ((metrics.flatMap Metric.fields).map fun field => counterNamed field.field).Perm
    (Counter.all.map some) := by
  decide

/-- What is shown for a counter: the double nearest to it, and of bytes the 2^20th part of that. -/
def counterText (browser : Browser) (unit : String) (n : Nat) : String :=
  if unit = "MB" then browser.numberFormat 2 ⟨false, Rounding.roundNearest n * 2 ^ (places - 20)⟩ ++ " MB"
  else browser.numberFormat 0 ⟨false, Rounding.roundNearest n * 2 ^ places⟩

/-- The milliseconds that are shown for a number of microseconds. -/
def milliseconds (n : Nat) : Nat := Rounding.roundQuotient (Rounding.roundNearest n * 2 ^ places) 1000 / 2 ^ places

def timeText (browser : Browser) (time : Int) : String := browser.dateFormat (milliseconds time.toNat)

/-- Into the twenty-third century they are the whole ones. -/
theorem milliseconds_exact (near : n < 1000 * 2 ^ 43) : milliseconds n = n / 1000 := by
  have small : n < 2 ^ Rounding.precision := Nat.lt_trans near (by decide)
  have short : n / 1000 < 2 ^ 43 := Nat.div_lt_of_lt_mul near
  have whole := Nat.div_add_mod n 1000
  have rest := Nat.mod_lt n (show 1000 > 0 by decide)
  rw [milliseconds, Rounding.roundNearest_exact small]
  have unit : 2 ^ places = 1024 * 2 ^ (places - 10) := by
    rw [show 1024 = 2 ^ 10 from rfl, ← Nat.pow_add]
    exact congrArg (2 ^ ·) (by decide)
  apply Nat.div_eq_of_lt_le
  · -- the whole milliseconds are a double
    apply Rounding.le_roundQuotient (n / 1000) places (Nat.lt_trans short (by decide)) (by decide)
    rw [Nat.mul_right_comm]
    exact Nat.mul_le_mul_right _ (by omega)
  · -- and so is the last one before the next of them
    have below : ((n / 1000 + 1) * 1024 - 1) * 2 ^ (places - 10) < (n / 1000 + 1) * 2 ^ places := by
      rw [unit, ← Nat.mul_assoc]
      exact Nat.mul_lt_mul_of_pos_right (by omega) (Nat.two_pow_pos _)
    refine Nat.lt_of_le_of_lt ?_ below
    apply Rounding.roundQuotient_le _ (places - 10) (by unfold Rounding.precision; omega) (by decide)
    rw [unit, Nat.mul_right_comm _ (2 ^ (places - 10)), ← Nat.mul_assoc]
    exact Nat.mul_le_mul_right _ (by omega)

theorem numberValue_nat (n : Nat) : numberValue (some (n : Int)) = .number (numeral n) := by
  simp [numberValue, numeral]

theorem numeral_double (n : Nat) : (numeral n).double = Rounding.roundNearest n * 2 ^ places := by
  rw [← Rounding.roundQuotient_scaled]
  simp [Numeral.double, numeral]

theorem numeral_le (m k : Nat) (small : m < 2 ^ Rounding.precision) (below : n ≤ m * 2 ^ k) :
    (numeral n).double ≤ m * 2 ^ k * 2 ^ places := by
  rw [numeral_double, ← Rounding.roundQuotient_scaled, Nat.mul_assoc, ← Nat.pow_add]
  apply Rounding.roundQuotient_le m (k + places) small Nat.one_pos
  rw [Nat.mul_one, Nat.pow_add, ← Nat.mul_assoc]
  exact Nat.mul_le_mul_right _ below

theorem numeral_finite (small : n < 2 ^ 64) : isFinite (some (.number (numeral n))) = true := by
  have below := numeral_le 1 64 (by decide) (n := n) (by omega)
  simp only [isFinite, decide_eq_true_eq]
  refine Nat.lt_of_le_of_lt below ?_
  exact Nat.mul_lt_mul_of_pos_right (by decide +kernel) (Nat.two_pow_pos places)

/-- A point's time is shown. -/
theorem formatTimestamp_numeral {n : Nat} (early : (n : Int) ≤ lastDate) :
    formatTimestamp browser (some (.number (numeral n))) = some (timeText browser n) := by
  have whole : 4119873046875 * 2 ^ 21 = 8640000000000000 * 1000 := by decide
  have below : n ≤ 4119873046875 * 2 ^ 21 := by
    simp only [lastDate] at early
    omega
  have rounded := numeral_le 4119873046875 21 (by decide) below
  rw [whole, Nat.mul_right_comm] at rounded
  have early : Rounding.roundQuotient (numeral n).double 1000 ≤ 8640000000000000 * 2 ^ places :=
    Rounding.roundQuotient_le 8640000000000000 places (by decide) (by decide) rounded
  have sign : (numeral n).negative = false := rfl
  rw [numeral_double] at early
  simp only [formatTimestamp, dateOf, Double.divide, numeral_double, sign, if_pos early, Bool.false_eq_true, if_false,
    Option.map_some, timeText, milliseconds, Int.toNat_natCast]

/-- Dividing by 1024 twice is exact. -/
theorem divide_mega (n : Nat) : ((⟨false, Rounding.roundNearest n * 2 ^ places⟩ : Double).divide 1024).divide 1024 =
    ⟨false, Rounding.roundNearest n * 2 ^ (places - 20)⟩ := by
  obtain ⟨m, k, small, is⟩ := Rounding.roundNearest_bits n
  have part : ∀ p, Rounding.roundQuotient (m * 2 ^ k * 2 ^ (p + 10)) 1024 = m * 2 ^ k * 2 ^ p := by
    intro p
    have exact := Rounding.roundQuotient_exact m (k + p) small (show 0 < 1024 by decide)
    rwa [Nat.pow_add 2 k p, ← Nat.mul_assoc, show 1024 = 2 ^ 10 from rfl, Nat.mul_assoc _ (2 ^ p), ← Nat.pow_add]
      at exact
  rw [is]
  simp only [Double.divide]
  have all : places = places - 20 + 10 + 10 := by decide
  have first := part (places - 20 + 10)
  rw [← all] at first
  rw [first, part]

/-- A counter's value is shown, in the unit of its field. -/
theorem formatValue_numeral (small : n < 2 ^ 64) (known : unit = "" ∨ unit = "MB") :
    formatValue browser (some (.number (numeral n))) unit = counterText browser unit n := by
  have sign : (numeral n).negative = false := rfl
  simp only [formatValue, numeral_finite small, if_true, numeral_double, sign, counterText]
  rcases known with rfl | rfl
  · simp
  · simp only [divide_mega, if_true]
    rfl

theorem counterNamed_spec (named : counterNamed name = some counter) : fieldName counter = name := by
  have found := List.find?_some named
  simpa using found

theorem metrics_named : ∀ metric ∈ metrics, ∀ field ∈ metric.fields, (counterNamed field.field).isSome = true := by
  intro metric inside field member
  have among : counterNamed field.field ∈ (metrics.flatMap Metric.fields).map fun field => counterNamed field.field :=
    List.mem_map_of_mem (f := fun field : Field => counterNamed field.field) (List.mem_flatMap_of_mem inside member)
  obtain ⟨counter, -, is⟩ := List.mem_map.mp (metrics_counters.mem_iff.mp among)
  rw [← is]
  rfl

theorem metrics_units : ∀ metric ∈ metrics, ∀ field ∈ metric.fields, field.unit = "" ∨ field.unit = "MB" := by
  decide

/-- The cell of a field is the value of a counter. -/
theorem point_cell (ranged : Ranged point) (inside : metric ∈ metrics) (member : field ∈ metric.fields) :
    ∃ counter n, counterNamed field.field = some counter ∧ point.value counter = some n ∧
      formatValue browser (column (pointValue point) field.field) field.unit = counterText browser field.unit n := by
  obtain ⟨counter, named⟩ := Option.isSome_iff_exists.mp (metrics_named metric inside field member)
  obtain ⟨n, is, small⟩ := ranged.value counter
  refine ⟨counter, n, named, is, ?_⟩
  rw [← counterNamed_spec named, counter_column, is, Option.map_some, Int.ofNat_eq_natCast, numberValue_nat,
    formatValue_numeral small (metrics_units metric inside field member)]

theorem point_timestamp (ranged : Ranged point) : ∃ n : Nat, point.timestamp = some (n : Int) ∧ n < 2 ^ 64 ∧
    column (pointValue point) "timestamp" = some (.number (numeral n)) := by
  obtain ⟨timestamp, is, positive, small⟩ := ranged.timestamp
  obtain ⟨n, rfl⟩ := Int.eq_ofNat_of_zero_le (Int.le_of_lt positive)
  refine ⟨n, is, by omega, ?_⟩
  rw [timestamp_column, is, numberValue_nat]

theorem point_time (ranged : Ranged point) (date : point.time ≤ lastDate) :
    formatTimestamp browser (column (pointValue point) "timestamp") = some (timeText browser point.time) := by
  obtain ⟨n, is, -, timed⟩ := point_timestamp ranged
  simp only [StatPointDto.time, is, Option.getD_some] at date ⊢
  rw [timed, formatTimestamp_numeral date]

theorem points_valid (ranged : ∀ point ∈ points, Ranged point) (nonempty : points ≠ [])
    (few : points.length ≤ maxStatePoints) :
    validStats (.array (points.map pointValue)) = true := by
  simp only [validStats, Bool.and_eq_true, List.isEmpty_map, List.length_map, decide_eq_true_eq, List.all_eq_true,
    Bool.not_eq_true', List.isEmpty_eq_false_iff]
  refine ⟨⟨nonempty, few⟩, ?_⟩
  intro value member field required
  obtain ⟨point, inside, rfl⟩ := List.mem_map.mp member
  have counted : ∀ counter, isFinite (column (pointValue point) (fieldName counter)) = true := by
    intro counter
    obtain ⟨value, is, small⟩ := (ranged point inside).value counter
    rw [counter_column, is, Option.map_some, Int.ofNat_eq_natCast, numberValue_nat]
    exact numeral_finite small
  simp only [requiredStatFields, List.mem_cons, List.not_mem_nil, or_false] at required
  rcases required with rfl | rfl | rfl
  · obtain ⟨n, -, small, is⟩ := point_timestamp (ranged point inside)
    rw [is]
    exact numeral_finite small
  · exact counted .evPeerConnected
  · exact counted .evPeerDisconnected

/-- The chart of a metric shows these points, and in its summary this record at this time. -/
structure Charted (browser : Browser) (metric : Metric) (points : List StatPointDto) (time : Int) (record : Record)
    (chart : Chart) : Prop where
  header : chart.header = "Timestamp" :: metric.fields.map fun field =>
    if field.unit = "" then field.label else field.label ++ " (" ++ field.unit ++ ")"
  rows : List.Forall₂ (fun point row => row.1 = timeText browser point.time ∧
    List.Forall₂ (fun (field : Field) cell => ∃ counter n, counterNamed field.field = some counter ∧
      point.value counter = some n ∧ cell = counterText browser field.unit n) metric.fields row.2) points chart.rows
  summary : ∃ texts, chart.summary =
      "Latest at " ++ timeText browser time ++ ". " ++ "; ".intercalate texts ++ "." ∧
    List.Forall₂ (fun (field : Field) text => ∃ counter, counterNamed field.field = some counter ∧
      text = field.label ++ ": " ++ counterText browser field.unit (record counter)) metric.fields texts

theorem renderSemanticChart_points (browser : Browser) {older : List StatPointDto} {newest : StatPointDto}
    (split : points = older ++ [newest]) (values : newest.value = fun counter => some (record counter))
    (ranged : ∀ point ∈ points, Ranged point) (dates : ∀ point ∈ points, point.time ≤ lastDate)
    (inside : metric ∈ metrics) (chart : Chart) :
    ∃ drawn, renderSemanticChart browser metric (points.map pointValue) chart = (drawn, none) ∧
      Charted browser metric points newest.time record drawn := by
  have last : (points.map pointValue).getLast? = some (pointValue newest) := by
    rw [split, List.map_append, List.map_singleton, List.getLast?_concat]
  have among : newest ∈ points := by simp [split]
  have times := fun point member => @point_time point browser (ranged point member) (dates point member)
  have cells := fun point member field => @point_cell point browser metric field (ranged point member) inside
  have rows : (points.map pointValue).mapM (fun point =>
      (formatTimestamp browser (column point "timestamp")).map fun time =>
        (time, metric.fields.map fun field => formatValue browser (column point field.field) field.unit)) =
      some (points.map fun point => (timeText browser point.time,
        metric.fields.map fun field => formatValue browser (column (pointValue point) field.field) field.unit)) := by
    clear among last split
    induction points with
    | nil => rfl
    | cons first rest ih =>
      obtain ⟨ranged, others⟩ := List.forall_mem_cons.mp ranged
      obtain ⟨date, later⟩ := List.forall_mem_cons.mp dates
      rw [List.map_cons, List.mapM_cons, point_time ranged date,
        ih others later (fun point member => times point (.tail _ member))
          fun point member => cells point (.tail _ member)]
      rfl
  simp only [renderSemanticChart, last, times newest among, Option.map_some, rows, Option.bind_some]
  refine ⟨_, rfl, rfl, ?_, _, rfl, ?_⟩
  · rw [List.forall₂_map_right_iff, List.forall₂_same]
    refine fun point member => ⟨rfl, ?_⟩
    rw [List.forall₂_map_right_iff, List.forall₂_same]
    exact cells point member
  · rw [List.forall₂_map_right_iff, List.forall₂_same]
    intro field member
    obtain ⟨counter, n, named, is, shown⟩ := cells newest among field member
    rw [values] at is
    cases is
    exact ⟨counter, named, by rw [shown]⟩

/-- Charts with different ids are rendered one after the other: induction on the list of metrics. -/
theorem renderCharts_points (browser : Browser) {older : List StatPointDto} {newest : StatPointDto}
    (split : points = older ++ [newest]) (values : newest.value = fun counter => some (record counter))
    (ranged : ∀ point ∈ points, Ranged point) (dates : ∀ point ∈ points, point.time ≤ lastDate) :
    ∀ (list : List Metric) (charts : String → Chart), list ⊆ metrics → (list.map Metric.id).Nodup →
      ∃ drawn, renderCharts browser (points.map pointValue) charts list = (drawn, none) ∧
        (∀ metric ∈ list, Charted browser metric points newest.time record (drawn metric.id)) ∧
        ∀ id ∉ list.map Metric.id, drawn id = charts id := by
  intro list
  induction list with
  | nil => exact fun charts _ _ => ⟨charts, rfl, nofun, fun _ _ => rfl⟩
  | cons metric rest ih =>
    intro charts among distinct
    rw [List.map_cons, List.nodup_cons] at distinct
    obtain ⟨chart, first, charted⟩ := renderSemanticChart_points browser split values ranged dates
      (among List.mem_cons_self) (charts metric.id)
    obtain ⟨drawn, others, each, kept⟩ := ih (Function.update charts metric.id chart)
      (fun _ member => among (.tail _ member)) distinct.2
    refine ⟨drawn, ?_, List.forall_mem_cons.mpr ⟨?_, each⟩, ?_⟩
    · rw [renderCharts, first]
      exact others
    · rw [kept metric.id distinct.1, Function.update_self]
      exact charted
    · intro id outside
      rw [List.map_cons, List.mem_cons, not_or] at outside
      rw [kept id outside.2, Function.update_of_ne outside.1]

/-- The dashboard shows these points, the last of them with this record: every chart has a row for each
of them and the counters of its fields, and each counter is a field of one chart. -/
structure Shows (browser : Browser) (points : List StatPointDto) (record : Record) (source : Source)
    (d : Dashboard) : Prop where
  status : d.kind = .success ∧
    d.message = toString points.length ++ " statistics records loaded from " ++ source.name ++ "."
  charts : ∃ older newest, points = older ++ [newest] ∧
    ∀ metric ∈ metrics, Charted browser metric points newest.time record (d.charts metric.id)
  columns : ((metrics.flatMap Metric.fields).map fun field => counterNamed field.field).Perm (Counter.all.map some)

theorem shows_points {periods : Periods} (recorded : Recorded periods points record)
    (few : points.length ≤ maxStatePoints)
    (dates : ∀ point ∈ points, point.time ≤ lastDate) :
    ∃ shown, d.showStats browser source ((writePoints points).map UInt8.toNat) = (shown, none) ∧
      Shows browser points record source shown := by
  obtain ⟨older, newest, split, values⟩ := recorded.newest
  have nonempty : points ≠ [] := by simp [split]
  have data : (points.map pointValue).isEmpty = false := by simpa using nonempty
  have valid := points_valid recorded.ranged nonempty few
  obtain ⟨charts, drawn, charted, -⟩ := renderCharts_points browser split values recorded.ranged dates
    metrics d.charts (List.Subset.refl _) (by decide)
  have rendered : ∃ shown, { d with statsData := points.map pointValue }.initializeCharts browser = (shown, none) ∧
      shown.charts = charts := by
    simp only [Dashboard.initializeCharts, data, drawn, Bool.false_eq_true, if_false]
    split
    · exact ⟨_, rfl, rfl⟩
    · exact ⟨_, rfl, rfl⟩
  obtain ⟨shown, initialized, kept⟩ := rendered
  refine ⟨shown.setDashboardStatus .success
    (toString points.length ++ " statistics records loaded from " ++ source.name ++ "."), ?_,
    ⟨rfl, rfl⟩, ⟨older, newest, split, fun metric inside => ?_⟩, metrics_counters⟩
  · simp only [Dashboard.showStats, points_parsed, data, valid, initialized, Bool.not_true, Bool.false_eq_true,
      if_false, List.length_map]
  · simp only [Dashboard.setDashboardStatus, kept]
    exact charted metric inside

end Shown

section Served

/-- `Stats` of the server's `StatisticsController`; `decode` is what the browser makes of the bytes. -/
def stats (mapper : PointMapper) (decode : Bytes → List Nat) (p : Process) : Response :=
  let json := p.statistics.getJsonData mapper
  { ok := true, status := 200, contentLength := json.length, text := decode json }

/-- A file with this content that the page takes for JSON. -/
structure Chosen (decode : Bytes → List Nat) (content : Bytes) (file : StatsFile) : Prop where
  named : file.type = "application/json" ∨ ".json".toList.isSuffixOf file.name.toList = true
  size : file.size = content.length
  text : file.text = decode content

variable {cast : Numeral → Int} {periods : Periods} {s : Service} {browser : Browser} {decode : Bytes → List Nat}

/-- The dashboard agrees with the server. In every history of the service, what the endpoint answers and
what the state file holds is shown, every counter of each point in one column, none as a dash, and the
summaries are those of the last sample and of the last save. -/
theorem statistics_shown (fits : periods.maxPeriod < maxStatePoints * periods.pushInterval)
    (ascii : ∀ bytes : Bytes, (∀ byte ∈ bytes, byte.toNat < 0x80) → decode bytes = bytes.map UInt8.toNat)
    (reached : (restarts (stateMapper cast) periods .missing).Reachable s) :
    (∀ p, s.process = some p → (∀ point ∈ p.statistics.dataPoints, point.time ≤ lastDate) →
      ∀ (d : Dashboard) url, (safeStatsUrl url).isSome = true →
        Shows browser p.statistics.dataPoints p.sampled network
          (d.refreshDashboard browser url (.ok (stats (stateMapper cast) decode p)))) ∧
    ∀ content, s.file = .content content → ∃ points, content = writePoints points ∧
      ((∀ point ∈ points, point.time ≤ lastDate) → ∀ (d : Dashboard) file, Chosen decode content file →
        Shows browser points s.recorded (localFile file.name) (d.loadJsonFile browser file)) := by
  have kept := survives fits reached
  constructor
  · intro p known dates d url safe
    have recorded := (kept.process p known).points
    have few := recorded.toRegular.few fits
    obtain ⟨-, -, short⟩ := writePoints_sized recorded.ranged few
    have json : p.statistics.getJsonData (stateMapper cast) = writePoints p.statistics.dataPoints := rfl
    obtain ⟨target, is⟩ := Option.isSome_iff_exists.mp safe
    obtain ⟨shown, loads, renders⟩ :=
      @shows_points _ _ browser network (d.setDashboardStatus .info "Loading dashboard data.") _ recorded few dates
    have small : ¬ maxStatsBytes < (writePoints p.statistics.dataPoints).length := Nat.not_lt.mpr short
    have fetched : d.fetchStatsData browser url (.ok (stats (stateMapper cast) decode p)) = (shown, none) := by
      simp only [Dashboard.fetchStatsData, is, stats, json, ascii _ (writePoints_ascii _), List.length_map, loads,
        small, Bool.not_true, Bool.false_eq_true, if_false]
    simp only [Dashboard.refreshDashboard, fetched]
    exact renders
  · intro content stored
    have file := kept.file
    rw [stored] at file
    obtain ⟨points, recorded, rfl⟩ : ∃ points, Recorded periods points s.recorded ∧ content = writePoints points := by
      generalize s.recorded = record at file
      cases file with
      | content recorded => exact ⟨_, recorded, rfl⟩
    refine ⟨points, rfl, fun dates d file chosen => ?_⟩
    have few := recorded.toRegular.few fits
    obtain ⟨-, -, short⟩ := writePoints_sized recorded.ranged few
    obtain ⟨shown, loads, renders⟩ := @shows_points _ _ browser (localFile file.name) d _ recorded few dates
    have known : (decide (file.type ≠ "application/json") &&
        !".json".toList.isSuffixOf file.name.toList) = false := by
      rcases chosen.named with type | name
      · rw [type]
        rfl
      · rw [name, Bool.not_true, Bool.and_false]
    have large : ¬ maxStatsBytes < file.size := by
      rw [chosen.size]
      exact Nat.not_lt.mpr short
    simp only [Dashboard.loadJsonFile, known, large, chosen.text, ascii _ (writePoints_ascii _), loads,
      Bool.false_eq_true,
      if_false]
    exact renders

/-- A browser that writes whole numbers and milliseconds. -/
def browserFirst : Browser where
  syntaxError _ := ""
  rangeError := ""
  numberFormat _ number := toString (number.magnitude / 2 ^ places)
  dateFormat time := toString time
  chart := true

/-- A process that has served 3 MiB is shown. -/
theorem statistics_shown_first : ∃ s p, (restarts (stateMapper fun _ => 0) {} .missing).Reachable s ∧
    s.process = some p ∧ p.sampled .fileServedBytes = 3145728 ∧
      Shows browserFirst p.statistics.dataPoints p.sampled network
        (Dashboard.refreshDashboard browserFirst {} (some ⟨"http:", "localhost"⟩)
          (.ok (stats (stateMapper fun _ => 0) (fun bytes => (payload bytes).getD []) p))) := by
  have fits : ({} : Periods).maxPeriod < maxStatePoints * ({} : Periods).pushInterval := by decide
  have begun : (restarts (stateMapper fun _ => 0) {} .missing).Reachable { file := .missing } := .start rfl
  have started := begun.next (@ServiceStep.start _ _ 1 1 _ _ _ rfl (by decide) (by decide) rfl)
  have served := started.next (@ServiceStep.count _ _ _ _ .fileServedBytes 3145728 rfl)
  have sampled := served.next (@ServiceStep.sample _ _ _ 3600000001 _ rfl rfl (by decide) (by decide))
  refine ⟨_, _, sampled, rfl, rfl, ?_⟩
  have ascii : ∀ bytes : Bytes, (∀ byte ∈ bytes, byte.toNat < 0x80) →
      (payload bytes).getD [] = bytes.map UInt8.toNat := by
    intro bytes small
    rw [payload_ascii small]
    rfl
  exact (statistics_shown fits ascii sampled).1 _ rfl (by decide) {} _ (by decide)

end Served

end Conspire.Statistics
