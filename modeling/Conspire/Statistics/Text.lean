import Conspire.Frames.Stringify
import Conspire.Server.Statistics

/-! The text of the state file. The mapper writes every column of a point, an absent one as `null`; what
it reads in this text are the same points, but for the numbers that `strtoll` does not reach. -/
namespace Conspire.Statistics
open Frames
open Json (Spelling Piece)

section Reading
variable (cast : Json.Numeral → Int)

/-- A field of a `StatPointDto` by its name in the text. -/
def setPointField (point : StatPointDto) (key : Bytes) (node : Node) : Option StatPointDto :=
  if key = ascii "timestamp" then do some { point with timestamp := ← readInt64 cast node }
  else
    match Counter.all.find? fun counter => columnName counter = key with
    | some counter => do
      let value ← readUInt64 cast node
      some { point with value := Function.update point.value counter value }
    | none => some point

def emptyPoint : StatPointDto := { timestamp := none, value := fun _ => none }

/-- `readFromString<oatpp::List<oatpp::Object<StatPointDto>>>`. -/
def readPoints (content : Bytes) : Option (Option (List (Option StatPointDto))) := do
  let (node, _) ← deserialize content.length (content.map UInt8.toNat)
  readList (readObject (setPointField cast) emptyPoint) node

def stateMapper : PointMapper where
  write := writePoints
  read := readPoints cast

end Reading

section Spelled

/-- The names of the columns. -/
def fieldName : Counter → String
  | .evFrontpageLoaded => "ev_front_page_loaded"
  | .evPeerConnected => "ev_peer_connected"
  | .evPeerDisconnected => "ev_peer_disconnected"
  | .evPeerZombieDropped => "ev_peer_zombie_dropped"
  | .evPeerTransportClosed => "ev_peer_transport_closed"
  | .evPeerResumed => "ev_peer_resumed"
  | .evSessionExpired => "ev_session_expired"
  | .evPeerSendMessage => "ev_peer_send_message"
  | .evPeerShareFile => "ev_peer_share_file"
  | .evRoomCreated => "ev_room_created"
  | .evRoomDeleted => "ev_room_deleted"
  | .fileServedBytes => "file_served_bytes"

def numberSpelling (number : Option Int) : Spelling := number.elim .null .integer

def counterMember (point : StatPointDto) (counter : Counter) : String × Spelling :=
  (fieldName counter, numberSpelling ((point.value counter).map Int.ofNat))

def pointMembers (point : StatPointDto) : List (String × Spelling) :=
  ("timestamp", numberSpelling point.timestamp) :: Counter.all.map (counterMember point)

def pointSpelling (point : StatPointDto) : Spelling := objectSpelling (pointMembers point)

theorem columnName_eq (counter : Counter) : columnName counter = ascii (fieldName counter) := by
  cases counter <;> rfl

theorem pointMembers_distinct (point : StatPointDto) : Distinct (pointMembers point) := by
  apply Distinct.of_names ("timestamp" :: Counter.all.map fieldName)
  · simp [pointMembers, counterMember, Function.comp_def]
  · decide

theorem digits_text (n : Nat) : ascii (toString n) = (Json.digits n).map UInt8.ofNat := by
  rw [ascii, Nat.toString_eq_repr, Nat.toList_repr, Json.digits, List.map_map]
  rfl

/-- A number is written as the other writer writes it. -/
theorem integer_text (value : Int) : ascii (toString value) = serializeInteger value := by
  cases value with
  | ofNat n => exact digits_text n
  | negSucc n =>
    have sign : ascii (toString (Int.negSucc n)) = 0x2d :: ascii (toString (n + 1)) := by
      have text : (toString (Int.negSucc n)).toList = '-' :: (toString (n + 1)).toList := by
        change ("-" ++ toString (n + 1)).toList = _
        rw [String.toList_append]
        rfl
      rw [ascii, text]
      rfl
    rw [sign, digits_text]
    rfl

theorem decimal_text (value : Int) : (ascii (toString value)).map UInt8.toNat = Json.decimal value := by
  rw [integer_text, serializeInteger, List.map_map]
  refine (List.map_congr_left fun unit member => ?_).trans (List.map_id _)
  have small := Json.decimal_ascii value unit member
  rw [Function.comp_apply, UInt8.toNat_ofNat', id_eq]
  omega

theorem number_text (number : Option Int) :
    (writeNumber number).map UInt8.toNat = (numberSpelling number).render := by
  cases number with
  | none => decide
  | some value => exact decimal_text value

/-- A text that spells a member. -/
def Spells (text : Bytes) (member : List Piece × Spelling) : Prop :=
  text.map UInt8.toNat = Json.renderText member.1 ++ Json.colon :: member.2.render

theorem column_text (name : String) (plain : Plain (ascii name)) (number : Option Int) :
    Spells (writeColumn (ascii name) number) (member name (numberSpelling number)) := by
  simp only [Spells, writeColumn, member, List.map_append, number_text, Json.renderText, plain_render plain.inside]
  have marks : (ascii "\"").map UInt8.toNat = [Json.quote] ∧
      (ascii "\":").map UInt8.toNat = [Json.quote, Json.colon] := by
    decide
  rw [marks.1, marks.2]
  simp

theorem separated_next (text next : Bytes) (texts : List Bytes) :
    (separated (text :: next :: texts)).map UInt8.toNat =
      text.map UInt8.toNat ++ Json.comma :: (separated (next :: texts)).map UInt8.toNat := by
  have comma : (ascii ",").map UInt8.toNat = [Json.comma] := by decide
  have split : separated (text :: next :: texts) = text ++ ascii "," ++ separated (next :: texts) := rfl
  rw [split, List.map_append, List.map_append, comma, List.append_assoc]
  rfl

theorem members_text {texts : List Bytes} {members : List (List Piece × Spelling)}
    (each : List.Forall₂ Spells texts members) : (separated texts).map UInt8.toNat = Json.renderMembers members := by
  induction each with
  | nil => rfl
  | @cons text member texts members first others ih =>
    cases others with
    | nil => exact first
    | @cons next entry texts members second rest =>
      rw [separated_next, first, ih, Json.renderMembers, List.append_assoc, List.cons_append]

theorem items_text {texts : List Bytes} {items : List Spelling}
    (each : List.Forall₂ (fun text item => text.map UInt8.toNat = Spelling.render item) texts items) :
    (separated texts).map UInt8.toNat = Json.renderItems items := by
  induction each with
  | nil => rfl
  | @cons text item texts items first others ih =>
    cases others with
    | nil => exact first
    | @cons next entry texts items second rest =>
      rw [separated_next, first, ih, Json.renderItems]

theorem point_text (point : StatPointDto) : (writePoint point).map UInt8.toNat = (pointSpelling point).render := by
  have plain := (pointMembers_distinct point).2
  have columns : List.Forall₂ Spells
      (writeColumn (ascii "timestamp") point.timestamp ::
        Counter.all.map fun counter => writeColumn (columnName counter) ((point.value counter).map Int.ofNat))
      ((pointMembers point).map fun entry => member entry.1 entry.2) := by
    rw [pointMembers, List.map_cons, List.map_map]
    refine .cons (column_text _ (plain _ List.mem_cons_self) _) ?_
    rw [List.forall₂_map_left_iff, List.forall₂_map_right_iff, List.forall₂_same]
    intro counter inside
    rw [columnName_eq]
    exact column_text _ (plain _ (List.mem_cons_of_mem _ (List.mem_map_of_mem inside))) _
  have braces : (ascii "\x7b").map UInt8.toNat = [Json.openBrace] ∧
      (ascii "\x7d").map UInt8.toNat = [Json.closeBrace] := by
    decide
  rw [writePoint, List.map_append, List.map_append, members_text columns, braces.1, braces.2, pointSpelling,
    objectSpelling, Spelling.render]
  rfl

def pointsSpelling (points : List StatPointDto) : Spelling := .array (points.map pointSpelling)

theorem points_text (points : List StatPointDto) :
    (writePoints points).map UInt8.toNat = (pointsSpelling points).render := by
  have items : List.Forall₂ (fun text item => text.map UInt8.toNat = Spelling.render item)
      (points.map writePoint) (points.map pointSpelling) := by
    rw [List.forall₂_map_left_iff, List.forall₂_map_right_iff, List.forall₂_same]
    exact fun point _ => point_text point
  have brackets : (ascii "[").map UInt8.toNat = [Json.openBracket] ∧
      (ascii "]").map UInt8.toNat = [Json.closeBracket] := by
    decide
  rw [writePoints, List.map_append, List.map_append, items_text items, brackets.1, brackets.2, pointsSpelling,
    Spelling.render]
  rfl

end Spelled

section Returned
variable {cast : Json.Numeral → Int}

/-- What a counter beyond the reach of `strtoll` is read as. -/
def reached (value : Nat) : Nat := min value (2 ^ 63 - 1)

/-- A point as it is read back. -/
def returned (point : StatPointDto) : StatPointDto where
  timestamp := point.timestamp.map clamp
  value counter := (point.value counter).map reached

def numberNode (number : Option Int) : Node := number.elim .null fun value => .integer (clamp value)

def counterNode (point : StatPointDto) (counter : Counter) : Node := numberNode ((point.value counter).map Int.ofNat)

def pointNode (point : StatPointDto) : Node :=
  .map ((ascii "timestamp", numberNode point.timestamp) ::
    Counter.all.map fun counter => (columnName counter, counterNode point counter))

theorem nodeOf_number (number : Option Int) : nodeOf (numberSpelling number) = some (numberNode number) := by
  cases number <;> rfl

theorem readInt64_number (number : Option Int) : readInt64 cast (numberNode number) = some (number.map clamp) := by
  cases number <;> rfl

theorem readUInt64_counter (point : StatPointDto) (counter : Counter) :
    readUInt64 cast (counterNode point counter) = some ((point.value counter).map reached) := by
  rw [readUInt64, counterNode, readInt64_number]
  cases point.value counter with
  | none => rfl
  | some value =>
    simp only [Option.map_some, Option.some.injEq, clamp, reached, Int.ofNat_eq_natCast]
    omega

theorem setPointField_timestamp (point : StatPointDto) (number : Option Int) :
    setPointField cast point (ascii "timestamp") (numberNode number) =
      some { point with timestamp := number.map clamp } := by
  rw [setPointField, if_pos rfl, readInt64_number]
  rfl

theorem columnName_known (counter : Counter) : columnName counter ≠ ascii "timestamp" ∧
    (Counter.all.find? fun other => columnName other = columnName counter) = some counter := by
  cases counter <;> decide

theorem setPointField_column (point source : StatPointDto) (counter : Counter) :
    setPointField cast point (columnName counter) (counterNode source counter) =
      some { point with value := Function.update point.value counter ((source.value counter).map reached) } := by
  obtain ⟨other, found⟩ := columnName_known counter
  rw [setPointField, if_neg other, found]
  dsimp only
  rw [readUInt64_counter]
  rfl

/-- The columns that were read have the values of the text, the others those of before. -/
theorem fields_read (point source : StatPointDto) (counters : List Counter) :
    (counters.foldlM
      (fun point counter => setPointField cast point (columnName counter) (counterNode source counter)) point) =
      some { point with
        value := fun counter =>
          if counter ∈ counters then (source.value counter).map reached else point.value counter } := by
  induction counters generalizing point with
  | nil => rfl
  | cons counter counters ih =>
    rw [List.foldlM_cons, setPointField_column, Option.bind_eq_bind, Option.bind_some, ih]
    congr 2
    funext other
    by_cases later : other ∈ counters
    · simp [later]
    · by_cases here : other = counter
      · subst here
        simp [later]
      · simp [later, here]

theorem mem_all (counter : Counter) : counter ∈ Counter.all := by
  cases counter <;> decide

theorem mapM_total (f : α → β) (list : List α) : (list.mapM fun item => some (f item)) = some (list.map f) := by
  induction list with
  | nil => rfl
  | cons item list ih => simp [List.mapM_cons, ih]

theorem nodeOf_point (point : StatPointDto) : nodeOf (pointSpelling point) = some (pointNode point) := by
  rw [pointSpelling, nodeOf_object (pointMembers_distinct point)]
  have columns : (Counter.all.mapM fun counter =>
      (nodeOf (counterMember point counter).2).map (ascii (counterMember point counter).1, ·)) =
        some (Counter.all.map fun counter => (columnName counter, counterNode point counter)) := by
    simp only [counterMember, nodeOf_number, Option.map_some, ← columnName_eq]
    exact mapM_total _ _
  have nodes : ((pointMembers point).mapM fun entry => (nodeOf entry.2).map (ascii entry.1, ·)) =
      some ((ascii "timestamp", numberNode point.timestamp) ::
        Counter.all.map fun counter => (columnName counter, counterNode point counter)) := by
    rw [pointMembers, List.mapM_cons, nodeOf_number, List.mapM_map]
    simp only [Function.comp_def, columns]
    rfl
  rw [nodes]
  rfl

theorem readObject_point (point : StatPointDto) :
    readObject (setPointField cast) emptyPoint (pointNode point) = some (some (returned point)) := by
  have columns := @fields_read cast { emptyPoint with timestamp := point.timestamp.map clamp } point Counter.all
  rw [pointNode, readObject]
  change Option.map some ((setPointField cast emptyPoint (ascii "timestamp") (numberNode point.timestamp)).bind fun first =>
    List.foldlM (fun object (field : Bytes × Node) => setPointField cast object field.1 field.2) first
      (Counter.all.map fun counter => (columnName counter, counterNode point counter))) = _
  rw [setPointField_timestamp, Option.bind_some, List.foldlM_map, columns]
  simp [mem_all, returned]

theorem nodesOf_points (points : List StatPointDto) :
    nodesOf (points.map pointSpelling) = some (points.map pointNode) := by
  induction points with
  | nil => rfl
  | cons point points ih =>
    rw [List.map_cons, nodesOf_cons, nodeOf_point, ih]
    rfl

/-- What was written is read, number for number as far as `strtoll` reaches. -/
theorem points_return (points : List StatPointDto) :
    (stateMapper cast).read (writePoints points) = some (some (points.map fun point => some (returned point))) := by
  have text := points_text points
  have length : (writePoints points).length = (pointsSpelling points).render.length := by rw [← text, List.length_map]
  have read := deserialize_render (pointsSpelling points) (writePoints points).length
    (Nat.le_of_eq length.symm) [] .nil
  have each : (points.map pointNode).mapM (readObject (setPointField cast) emptyPoint) =
      some (points.map fun point => some (returned point)) := by
    rw [List.mapM_map]
    simp only [Function.comp_def, readObject_point]
    exact mapM_total _ _
  have node : nodeOf (pointsSpelling points) = some (.vector (points.map pointNode)) := by
    rw [pointsSpelling, nodeOf, nodesOf_points]
    rfl
  rw [List.append_nil, node] at read
  change readPoints cast (writePoints points) = _
  rw [readPoints, text, read]
  simp only [Option.map_some, Option.bind_eq_bind, Option.bind_some, readList, each]

end Returned

section Sizes
variable {point : StatPointDto}

/-- A point whose columns are all there, as their types hold them. -/
structure Ranged (point : StatPointDto) : Prop where
  timestamp : ∃ timestamp, point.timestamp = some timestamp ∧ 0 < timestamp ∧ timestamp < 2 ^ 63
  value : ∀ counter, ∃ value, point.value counter = some value ∧ value < 2 ^ 64

theorem Ranged.numbers (ranged : Ranged point) : (∃ n : Nat, point.timestamp = some (n : Int) ∧ n < 10 ^ 20) ∧
    ∀ counter, ∃ n : Nat, (point.value counter).map Int.ofNat = some (n : Int) ∧ n < 10 ^ 20 := by
  constructor
  · obtain ⟨timestamp, is, positive, small⟩ := ranged.timestamp
    refine ⟨timestamp.toNat, ?_, by omega⟩
    rw [is, Int.toNat_of_nonneg (by omega)]
  · intro counter
    obtain ⟨value, is, small⟩ := ranged.value counter
    exact ⟨value, by rw [is]; rfl, by omega⟩

theorem writeColumn_sized (name : Bytes) {n : Nat} (small : n < 10 ^ 20) (clean : 0 ∉ name)
    (short : name.length ≤ 24) :
    0 ∉ writeColumn name (some (n : Int)) ∧ (writeColumn name (some (n : Int))).length ≤ 47 := by
  have digits : writeNumber (some (n : Int)) = (Json.digits n).map UInt8.ofNat := digits_text n
  have marks : (0 ∉ ascii "\"" ∧ (ascii "\"").length = 1) ∧ 0 ∉ ascii "\":" ∧ (ascii "\":").length = 2 := by decide
  rw [writeColumn, digits]
  constructor
  · simp only [List.mem_append, List.mem_map, not_or, not_exists, not_and]
    refine ⟨⟨⟨marks.1.1, clean⟩, marks.2.1⟩, fun unit member zero => ?_⟩
    have digit := Json.digits_all n unit member
    simp only [Json.isDigit, Bool.and_eq_true, decide_eq_true_eq] at digit
    have value := congrArg UInt8.toNat zero
    rw [UInt8.toNat_ofNat'] at value
    simp only [UInt8.toNat_zero] at value
    omega
  · have length : (Json.digits n).length ≤ 20 := by
      rw [Json.digits, List.length_map]
      exact (Nat.length_toDigits_le_iff (by decide) (by decide)).mpr small
    simp only [List.length_append, List.length_map, marks.1.2, marks.2.2]
    omega

theorem columnName_short (counter : Counter) : 0 ∉ columnName counter ∧ (columnName counter).length ≤ 24 := by
  cases counter <;> decide

theorem writePoint_sized (ranged : Ranged point) : 0 ∉ writePoint point ∧ (writePoint point).length ≤ 626 := by
  obtain ⟨⟨time, timestamp, early⟩, values⟩ := ranged.numbers
  have columns : ∀ text ∈ writeColumn (ascii "timestamp") point.timestamp ::
      Counter.all.map fun counter => writeColumn (columnName counter) ((point.value counter).map Int.ofNat),
      0 ∉ text ∧ text.length ≤ 47 := by
    intro text member
    rcases List.mem_cons.mp member with rfl | member
    · rw [timestamp]
      exact writeColumn_sized _ early (by decide) (by decide)
    · obtain ⟨counter, -, rfl⟩ := List.mem_map.mp member
      obtain ⟨n, is, small⟩ := values counter
      rw [is]
      exact writeColumn_sized _ small (columnName_short counter).1 (columnName_short counter).2
  have clean := mem_separated _ (fun text member => (columns text member).1) (by decide)
  have short := length_separated _ fun text member => (columns text member).2
  have braces : (0 ∉ ascii "\x7b" ∧ (ascii "\x7b").length = 1) ∧ 0 ∉ ascii "\x7d" ∧
      (ascii "\x7d").length = 1 := by decide
  have count : Counter.all.length = 12 := rfl
  rw [List.length_cons, List.length_map, count] at short
  constructor
  · simp only [writePoint, List.mem_append, not_or]
    exact ⟨⟨braces.1.1, clean⟩, braces.2.1⟩
  · simp only [writePoint, List.length_append, braces.1.2, braces.2.2]
    omega

/-- The text of so many points is one that a load looks at. -/
theorem writePoints_sized {points : List StatPointDto} (ranged : ∀ point ∈ points, Ranged point)
    (few : points.length ≤ maxStatePoints) :
    0 ∉ writePoints points ∧ (writePoints points).length ≠ 0 ∧ (writePoints points).length ≤ maxStateBytes := by
  have short := writePoints_length fun point member => (writePoint_sized (ranged point member)).2
  refine ⟨writePoints_clean fun point member => (writePoint_sized (ranged point member)).1,
    by simp [writePoints, ascii], ?_⟩
  simp only [maxStatePoints, maxStateBytes] at few ⊢
  omega

theorem returned_time (ranged : Ranged point) : (returned point).time = point.time := by
  obtain ⟨timestamp, is, positive, small⟩ := ranged.timestamp
  simp only [returned, StatPointDto.time, is, Option.map_some, Option.getD_some, clamp]
  omega

theorem Ranged.returned (ranged : Ranged point) : Ranged (returned point) where
  timestamp := by
    obtain ⟨timestamp, is, positive, small⟩ := ranged.timestamp
    refine ⟨timestamp, ?_, positive, small⟩
    simp only [Statistics.returned, is, Option.map_some, clamp, Option.some.injEq]
    omega
  value counter := by
    obtain ⟨value, is, small⟩ := ranged.value counter
    refine ⟨reached value, by simp [Statistics.returned, is], ?_⟩
    simp only [reached]
    omega

theorem Ranged.valid (ranged : Ranged point) : validPoint (some point) = true := by
  obtain ⟨timestamp, is, positive, -⟩ := ranged.timestamp
  have columns : ∀ counter, (point.value counter).isSome = true := by
    intro counter
    obtain ⟨value, here, -⟩ := ranged.value counter
    rw [here]
    rfl
  simp [validPoint, columns, is, positive]

end Sizes

end Conspire.Statistics
