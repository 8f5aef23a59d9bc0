import Conspire.Files.Integrity
import Conspire.Frames.Arrival

/-! A request for a part of a file and its answer as frames: what the page makes of the request, and what
the server reads in the text that comes back. -/
namespace Conspire.Files
open Frames Session
open Json (Spelling Value places units)

section Page

/-- A number without a fraction that a double holds exactly. -/
def safeInteger : Option Value → Option Int
  | some (.number numeral) =>
    let whole := numeral.double / 2 ^ places
    if numeral.double % 2 ^ places = 0 && whole < 2 ^ Rounding.precision then
      some (if numeral.negative then -(whole : Int) else whole)
    else none
  | _ => none

def partMembers (serverFileId subscriberId chunkPosition chunkSize chunkRequestId : Int) (data : Bytes) :
    List (String × Spelling) :=
  [("serverFileId", .integer serverFileId), ("subscriberId", .integer subscriberId),
    ("chunkPosition", .integer chunkPosition), ("chunkSize", .integer chunkSize),
    ("chunkRequestId", .integer chunkRequestId), ("data", .text (plainPieces data))]

def partSpelling (members : List (String × Spelling)) : Spelling :=
  objectSpelling [("code", .integer MessageCodes.fileChunkData.value), ("files", .array [objectSpelling members])]

/-- `JSON.stringify(createFileChunkMessage(..))` -/
def wirePart (members : List (String × Spelling)) : Bytes := (partSpelling members).render.map UInt8.ofNat

/-- `sendFileChunks` for one file of a frame. -/
def sendPart (filesMap : Int → Option Bytes) (chunkInfo : Value) : Option Bytes := do
  let field (name : String) : Option Int := safeInteger (chunkInfo.get (units name))
  let file ← filesMap (← field "clientFileId")
  let position ← field "chunkPosition"
  let posEnd := min (position + (← field "chunkSize")) file.length
  some (wirePart (partMembers (← field "serverFileId") (← field "subscriberId") position (posEnd - position)
    (← field "chunkRequestId") (Base64.btoa (slice file position posEnd))))

/-- What is sent for the message of a frame. -/
def sendParts (filesMap : Int → Option Bytes) (message : Value) : List Bytes :=
  match message.get (units "files") with
  | some (.array [chunkInfo]) => (sendPart filesMap chunkInfo).toList
  | _ => []

end Page

section Numbers

theorem safeInteger_number (small : value.natAbs < 2 ^ Rounding.precision) :
    safeInteger (some (number value)) = some value := by
  have double := Json.Numeral.double_small (decide (value < 0)) value.natAbs small
  have positive := Nat.two_pow_pos places
  simp only [safeInteger, number, double, Nat.mul_mod_left, Nat.mul_div_cancel _ positive, small, decide_true,
    Bool.and_self, if_true, Option.some.injEq, decide_eq_true_eq]
  split <;> omega

end Numbers

section Texts
variable {serverFileId subscriberId chunkPosition chunkSize : Int} {chunkRequestId : Nat} {data : Bytes}

/-- The characters of the encoder need no escape. -/
theorem character_inside : ∀ n < 64, (Base64.character n).toNat ≠ Json.quote ∧
    (Base64.character n).toNat ≠ Json.backslash := by
  decide +kernel

theorem btoa_inside (bytes : Bytes) : ∀ byte ∈ Base64.btoa bytes, byte.toNat ≠ Json.quote ∧
    byte.toNat ≠ Json.backslash := by
  intro byte member
  rw [Base64.btoa_eq] at member
  rcases List.mem_append.mp member with inside | padding
  · obtain ⟨n, among, rfl⟩ := List.mem_map.mp inside
    exact character_inside n (Regrouping.words_lt 6 _ n among)
  · rw [List.eq_of_mem_replicate padding]
    decide

theorem partMembers_distinct :
    Distinct (partMembers serverFileId subscriberId chunkPosition chunkSize chunkRequestId data) := by
  apply Distinct.of_names ["serverFileId", "subscriberId", "chunkPosition", "chunkSize", "chunkRequestId", "data"]
  · exact List.Sublist.refl _
  · decide

theorem partSpelling_distinct (files : Spelling) :
    Distinct [("code", .integer MessageCodes.fileChunkData.value), ("files", files)] := by
  apply Distinct.of_names ["code", "files"]
  · exact List.Sublist.refl _
  · decide

theorem partSpelling_bytewise :
    Bytewise (partSpelling (partMembers serverFileId subscriberId chunkPosition chunkSize chunkRequestId data)) := by
  apply Bytewise.members
  intro entry member
  simp only [List.mem_cons, List.not_mem_nil, or_false] at member
  rcases member with rfl | rfl
  · exact .integer _
  · refine .array fun item inside => ?_
    rw [List.mem_singleton.mp inside]
    apply Bytewise.members
    intro field among
    simp only [partMembers, List.mem_cons, List.not_mem_nil, or_false] at among
    rcases among with rfl | rfl | rfl | rfl | rfl | rfl
    · exact .integer _
    · exact .integer _
    · exact .integer _
    · exact .integer _
    · exact .integer _
    · exact .text (.plain _)

/-- The message that the server reads. -/
def partMessage (serverFileId subscriberId chunkPosition chunkSize : Int) (chunkRequestId : Nat) (data : Bytes) :
    MessageDto :=
  { code := some .fileChunkData
    files := some [some { serverFileId := some serverFileId
                          subscriberId := some subscriberId
                          chunkPosition := some chunkPosition
                          chunkSize := some chunkSize
                          chunkRequestId := some chunkRequestId
                          data := some data }] }

theorem clamp_small (small : value.natAbs < 2 ^ Rounding.precision) : clamp value = value := by
  simp only [Rounding.precision] at small
  rw [clamp]
  omega

theorem readUInt64_small (cast : Json.Numeral → Int) (small : chunkRequestId < 2 ^ Rounding.precision) :
    readUInt64 cast (.integer (clamp chunkRequestId)) = some (some chunkRequestId) := by
  have same := @clamp_small chunkRequestId (by simpa using small)
  simp only [Rounding.precision] at small
  rw [same, readUInt64, readInt64]
  simp only [Option.map_some, Option.some.injEq]
  omega

/-- A field of a part by its name. -/
theorem setFileField_part (cast : Json.Numeral → Int) (file : FileDto) (value : Int) :
    setFileField cast file (ascii "serverFileId") (.integer value) = some { file with serverFileId := some value } ∧
      setFileField cast file (ascii "subscriberId") (.integer value) = some { file with subscriberId := some value } ∧
      setFileField cast file (ascii "chunkPosition") (.integer value) = some { file with chunkPosition := some value } ∧
      setFileField cast file (ascii "chunkSize") (.integer value) = some { file with chunkSize := some value } := by
  refine ⟨?_, ?_, ?_, ?_⟩
  · rw [setFileField, if_neg (by decide), if_pos rfl]
    rfl
  · rw [setFileField]
    iterate 7 rw [if_neg (by decide)]
    rw [if_pos rfl]
    rfl
  · rw [setFileField]
    iterate 5 rw [if_neg (by decide)]
    rw [if_pos rfl]
    rfl
  · rw [setFileField]
    iterate 6 rw [if_neg (by decide)]
    rw [if_pos rfl]
    rfl

theorem setFileField_requestId (cast : Json.Numeral → Int) (file : FileDto)
    (small : chunkRequestId < 2 ^ Rounding.precision) :
    setFileField cast file (ascii "chunkRequestId") (.integer (clamp chunkRequestId)) =
      some { file with chunkRequestId := some chunkRequestId } := by
  rw [setFileField]
  iterate 8 rw [if_neg (by decide)]
  rw [if_pos rfl, readUInt64_small cast small]
  rfl

theorem setFileField_data (cast : Json.Numeral → Int) (file : FileDto) (text : Bytes) :
    setFileField cast file (ascii "data") (.string text) = some { file with data := some text } := by
  rw [setFileField]
  iterate 10 rw [if_neg (by decide)]
  rw [if_pos rfl]
  rfl

/-- The server reads the part that the page wrote. -/
theorem readPart (cast : Json.Numeral → Int) (ids : serverFileId.natAbs < 2 ^ Rounding.precision)
    (subscriber : subscriberId.natAbs < 2 ^ Rounding.precision)
    (position : chunkPosition.natAbs < 2 ^ Rounding.precision)
    (size : chunkSize.natAbs < 2 ^ Rounding.precision) (request : chunkRequestId < 2 ^ Rounding.precision)
    (inside : ∀ byte ∈ data, byte.toNat ≠ Json.quote ∧ byte.toNat ≠ Json.backslash) :
    readFromString cast (wirePart (partMembers serverFileId subscriberId chunkPosition chunkSize chunkRequestId data)) =
      some (some (partMessage serverFileId subscriberId chunkPosition chunkSize chunkRequestId data)) := by
  have spelled : (wirePart (partMembers serverFileId subscriberId chunkPosition chunkSize chunkRequestId data)).map
      UInt8.toNat = (partSpelling
        (partMembers serverFileId subscriberId chunkPosition chunkSize chunkRequestId data)).render := by
    rw [wirePart, List.map_map]
    refine (List.map_congr_left fun unit member => ?_).trans (List.map_id _)
    have small := partSpelling_bytewise.render unit member
    rw [Function.comp_apply, UInt8.toNat_ofNat', id_eq]
    omega
  have notHistory : ascii "code" ≠ ascii "history" ∧ ascii "files" ≠ ascii "history" := by decide
  obtain ⟨notCode, notFiles⟩ := notHistory
  have text := stringOf_plain inside
  have part : (nodeOf (objectSpelling (partMembers serverFileId subscriberId chunkPosition chunkSize chunkRequestId data))) =
      some (.map [(ascii "serverFileId", .integer serverFileId), (ascii "subscriberId", .integer subscriberId),
        (ascii "chunkPosition", .integer chunkPosition), (ascii "chunkSize", .integer chunkSize),
        (ascii "chunkRequestId", .integer (clamp chunkRequestId)), (ascii "data", .string data)]) := by
    rw [nodeOf_object partMembers_distinct]
    simp [partMembers, nodeOf, text, clamp_small ids, clamp_small subscriber, clamp_small position, clamp_small size]
  have file : readObject (setFileField cast) {} (.map [(ascii "serverFileId", .integer serverFileId),
      (ascii "subscriberId", .integer subscriberId), (ascii "chunkPosition", .integer chunkPosition),
        (ascii "chunkSize", .integer chunkSize), (ascii "chunkRequestId", .integer (clamp chunkRequestId)),
        (ascii "data", .string data)]) = some (some { serverFileId := some serverFileId, subscriberId := some subscriberId
                                                      chunkPosition := some chunkPosition, chunkSize := some chunkSize
                                                      chunkRequestId := some chunkRequestId, data := some data }) := by
    simp only [readObject, List.foldlM_cons, List.foldlM_nil, (setFileField_part cast _ _).1,
      (setFileField_part cast _ _).2.1, (setFileField_part cast _ _).2.2.1, (setFileField_part cast _ _).2.2.2,
      setFileField_requestId cast _ request, setFileField_data]
    rfl
  have noNodes : nodesOf [] = some [] := by rw [nodesOf]
  rw [readFromString_spelled cast _ _ spelled, partSpelling, nodeOf_object (partSpelling_distinct _)]
  simp [nodeOf, nodesOf_cons, noNodes, part, readMessage, readMessageFields, notCode, notFiles, setMessageField_code,
    setMessageField_files, file, partMessage]

/-- A part takes the characters of its content and of its numbers. -/
theorem length_wirePart (inside : ∀ byte ∈ data, byte.toNat ≠ Json.quote ∧ byte.toNat ≠ Json.backslash) :
    (wirePart (partMembers serverFileId subscriberId chunkPosition chunkSize chunkRequestId data)).length =
      data.length + ((Json.decimal serverFileId).length + (Json.decimal subscriberId).length +
        (Json.decimal chunkPosition).length + (Json.decimal chunkSize).length +
        (Json.decimal chunkRequestId).length) + 112 := by
  have names : ∀ entry ∈ [("code", 4), ("files", 5), ("serverFileId", 12),
      ("subscriberId", 12), ("chunkPosition", 13),
      ("chunkSize", 9), ("chunkRequestId", 14), ("data", 4)],
      (∀ byte ∈ ascii entry.1, byte.toNat ≠ Json.quote ∧ byte.toNat ≠ Json.backslash) ∧
        (ascii entry.1).length = entry.2 := by decide +kernel
  have key : ∀ name count, (name, count) ∈ [("code", 4), ("files", 5), ("serverFileId", 12), ("subscriberId", 12),
      ("chunkPosition", 13), ("chunkSize", 9), ("chunkRequestId", 14), ("data", 4)] →
      (Json.renderText (plainPieces (ascii name))).length = count + 2 := by
    intro name count known
    rw [length_renderText (names _ known).1, (names _ known).2]
  have one : (Json.decimal (MessageCodes.fileChunkData.value : Int)).length = 1 := by decide
  have code := key "code" 4 (by simp)
  have files := key "files" 5 (by simp)
  have ids := key "serverFileId" 12 (by simp)
  have subscriber := key "subscriberId" 12 (by simp)
  have position := key "chunkPosition" 13 (by simp)
  have size := key "chunkSize" 9 (by simp)
  have request := key "chunkRequestId" 14 (by simp)
  have content := key "data" 4 (by simp)
  simp only [wirePart, partSpelling, objectSpelling, partMembers, List.map_cons,
    List.map_nil, member, Spelling.render,
    Json.renderMembers, Json.renderItems, List.length_map, List.length_append, List.length_cons, List.length_nil,
    length_renderText inside, code, files, ids, subscriber, position, size, request, content, one]
  omega

end Texts

section Requests
variable {filesMap : Int → Option Bytes} {file : File} {subscriber position size : Int} {requestId : Nat}
  {value : Value}

/-- A request whose numbers a double holds. -/
structure Safe (file : File) (subscriber position size : Int) (requestId : Nat) : Prop where
  clientFileId : file.clientFileId.natAbs < 2 ^ Rounding.precision
  serverFileId : file.serverFileId < 2 ^ Rounding.precision
  subscriber : subscriber.natAbs < 2 ^ Rounding.precision
  position : position.natAbs < 2 ^ Rounding.precision
  size : size.natAbs < 2 ^ Rounding.precision
  requestId : requestId < 2 ^ Rounding.precision

theorem lookup_filter {members : List (List Nat × Value)} {keep : List Nat → Bool} {name : List Nat}
    (kept : keep name = true) : (members.filter fun member => keep member.1).lookup name = members.lookup name := by
  induction members with
  | nil => rfl
  | cons member members ih =>
    obtain ⟨other, value⟩ := member
    by_cases here : name = other
    · subst here
      rw [List.filter_cons, if_pos kept, List.lookup_cons, List.lookup_cons, beq_self_eq_true]
    · have different : (name == other) = false := by simpa using here
      rw [List.filter_cons, List.lookup_cons, different]
      split
      · rw [List.lookup_cons, different]
        exact ih
      · exact ih

/-- Cleaning takes the media type at most. -/
theorem cleanFile_get {name : List Nat} (other : name ≠ units "mediaType") :
    (cleanFile value).get name = value.get name := by
  cases value with
  | object members =>
    rw [cleanFile]
    split
    · rfl
    · have kept := @lookup_filter members.reverse (fun name => decide (name ≠ units "mediaType")) name
        (by simpa using other)
      rw [Value.get, Value.get, ← List.filter_reverse]
      exact kept
  | _ => rfl

theorem fileNames_distinct : (["clientFileId", "serverFileId", "name", "size", "mediaType", "chunkPosition",
    "chunkSize", "subscriberId", "chunkRequestId", "available", "data"].map ascii).Nodup := by
  decide

theorem request_legible : (messageTree (requestMessage file subscriber position size requestId)).legible = true := by
  have plain : ∀ (field : String × Option Tree), field.1 ∈ messageNames → Frames.Plain (ascii field.1) :=
    fun field => messageNames_named.2 field.1
  have files :
      (vector fileTree (((requestMessage file subscriber position size requestId).files).getD [])).legible = true := by
    simp only [requestMessage, Option.getD_some, vector, List.reduceOption_cons_of_some, List.reduceOption_nil,
      Tree.legible,
      legibleItems_map, List.all_cons, List.all_nil, Bool.and_true, fileTree]
    rw [object_legible]
    · rfl
    · exact fun field member => fileNames_plain field.1 (List.mem_map_of_mem (f := Prod.fst) member)
  simp only [requestMessage, Option.getD_some] at files
  rw [requestMessage, messageTree, object_legible]
  · simp only [historyTree, List.all_cons, List.all_nil, Option.map_some, Option.map_none, Option.all_some,
      Option.all_none, natural, files, Tree.legible, Bool.and_true]
  · exact fun field member => plain field (List.mem_map_of_mem (f := Prod.fst) member)

theorem request_width (safe : Safe file subscriber position size requestId) :
    (messageTree (requestMessage file subscriber position size requestId)).width ≤ 8192 := by
  have short : ∀ value : Int, value.natAbs < 2 ^ Rounding.precision → (Json.decimal value).length ≤ 17 := by
    intro value small
    exact (Json.decimal_length 16 (Nat.lt_trans small (by decide)) (by decide)).2
  have one := short file.clientFileId safe.clientFileId
  have two := short file.serverFileId safe.serverFileId
  have three := short subscriber safe.subscriber
  have four := short position safe.position
  have five := short size safe.size
  have six := short requestId safe.requestId
  have names : stringWidth (ascii "code") = 6 ∧ stringWidth (ascii "files") = 7 ∧
      stringWidth (ascii "clientFileId") = 14 ∧ stringWidth (ascii "serverFileId") = 14 ∧
      stringWidth (ascii "subscriberId") = 14 ∧ stringWidth (ascii "chunkPosition") = 15 ∧
      stringWidth (ascii "chunkSize") = 11 ∧ stringWidth (ascii "chunkRequestId") = 16 ∧
      (Json.decimal (MessageCodes.fileRequestChunk.value : Int)).length = 1 := by decide +kernel
  obtain ⟨code, files, clientId, serverId, subscriberId, positionName, sizeName, request, digit⟩ := names
  simp only [requestMessage, messageTree, historyTree, object_width, vector, List.reduceOption_cons_of_some,
    List.reduceOption_nil, List.map_cons, List.map_nil, List.sum_cons, List.sum_nil, Option.map_some, Option.map_none,
    Option.elim_some, Option.elim_none, natural, Tree.width, itemsWidth, fileTree, fieldWidth, code, files, clientId,
    serverId, subscriberId, positionName, sizeName, request, digit]
  omega

/-- The fields of the file of a request. -/
def requestFields (file : File) (subscriber position size : Int) (requestId : Nat) : List (String × Option Tree) :=
  [("clientFileId", some (.integer file.clientFileId)), ("serverFileId", some (.integer file.serverFileId)),
    ("name", none), ("size", none), ("mediaType", none), ("chunkPosition", some (.integer position)),
    ("chunkSize", some (.integer size)), ("subscriberId", some (.integer subscriber)),
    ("chunkRequestId", some (natural requestId)), ("available", none), ("data", none)]

theorem requestFields_named : WellNamed (requestFields file subscriber position size requestId) := by
  constructor
  · exact fileNames_distinct
  · exact fun field inside => fileNames_plain field.1 (List.mem_map_of_mem (f := Prod.fst) inside)

/-- What the page finds in a request. -/
theorem request_received (safe : Safe file subscriber position size requestId) :
    ∃ value chunkInfo, receive (writeToString (requestMessage file subscriber position size requestId)) = some value ∧
      value.get (units "files") = some (.array [chunkInfo]) ∧
      ∀ name amount, (name, amount) ∈ [("clientFileId", file.clientFileId),
        ("serverFileId", (file.serverFileId : Int)), ("subscriberId", subscriber), ("chunkPosition", position),
        ("chunkSize", size), ("chunkRequestId", (requestId : Int))] →
        chunkInfo.get (units name) = some (number amount) := by
  have seen := (receive_message (requestMessage file subscriber position size requestId) rfl).mpr
    ⟨request_legible, request_width safe⟩
  obtain ⟨value, seen⟩ := Option.isSome_iff_exists.mp seen
  obtain ⟨items, meant, found⟩ := (message_fields seen).2.2.2 _ rfl
  simp only [List.reduceOption_cons_of_some, List.reduceOption_nil, List.map_cons, List.map_nil, spelledItems,
    Json.meaningItems_cons, Json.meaningItems_nil] at meant
  obtain ⟨item, meaning, is⟩ := Option.bind_eq_some_iff.mp meant
  cases is
  refine ⟨value, cleanFile item, seen, found, fun name amount member => ?_⟩
  have names : ∀ name ∈ ["clientFileId", "serverFileId", "subscriberId", "chunkPosition", "chunkSize",
      "chunkRequestId"],
      (ascii name).map UInt8.toNat = units name ∧ units name ≠ units "mediaType" := by decide
  have field : ∀ {name : String} {amount : Int}, name ∈ ["clientFileId", "serverFileId", "subscriberId",
      "chunkPosition",
      "chunkSize", "chunkRequestId"] →
      (name, some (Tree.integer amount)) ∈ requestFields file subscriber position size requestId →
      (cleanFile item).get (units name) = some (number amount) := by
    intro name amount known inside
    obtain ⟨-, -, inner, meant, found⟩ := object_get requestFields_named meaning inside
    cases meant
    obtain ⟨same, other⟩ := names name known
    rwa [cleanFile_get other, ← same]
  simp only [List.mem_cons, Prod.mk.injEq, List.not_mem_nil, or_false] at member
  rcases member with ⟨rfl, rfl⟩ | ⟨rfl, rfl⟩ | ⟨rfl, rfl⟩ | ⟨rfl, rfl⟩ | ⟨rfl, rfl⟩ | ⟨rfl, rfl⟩
  · exact field (by simp) (by simp [requestFields])
  · exact field (by simp) (by simp [requestFields])
  · exact field (by simp) (by simp [requestFields])
  · exact field (by simp) (by simp [requestFields])
  · exact field (by simp) (by simp [requestFields])
  · exact field (by simp) (by simp [requestFields, natural])

theorem length_slice {content : Bytes} {position size : Int} (low : 0 ≤ position) (sized : 0 ≤ size) :
    ((slice content position (min (position + size) content.length)).length : Int) ≤ size ∧
      (position + size ≤ content.length →
        ((slice content position (min (position + size) content.length)).length : Int) = size) := by
  have bound : ¬ min (position + size) (content.length : Int) < 0 := by omega
  simp only [slice, List.length_take, List.length_drop, if_neg (Int.not_lt.mpr low), if_neg bound]
  constructor <;> omega

/-- A request for a part of a file that the page has is answered with one text, in which the server reads
that part. A part of as many bytes as the server's buffer (4096) fits in a message; one of more than 6054
never does, though the handler takes up to 65536. -/
theorem part_arrives {content : Bytes} (cast : Json.Numeral → Int) (has : filesMap file.clientFileId = some content)
    (held : content.length < 2 ^ Rounding.precision) (safe : Safe file subscriber position size requestId)
    (low : 0 ≤ position) (sized : 0 ≤ size) :
    ∃ value text message,
      receive (writeToString (requestMessage file subscriber position size requestId)) = some value ∧
      sendParts filesMap value = [text] ∧
      sendFileChunks filesMap (requestMessage file subscriber position size requestId) = [message] ∧
      readFromString cast text = some (some message) ∧
      (size ≤ 5994 → text.length ≤ ({} : ConfigDto).maxMessageSizeBytes) ∧
      (position + size ≤ content.length → 6054 < size → ({} : ConfigDto).maxMessageSizeBytes < text.length) := by
  obtain ⟨value, chunkInfo, seen, files, fields⟩ := request_received safe
  let posEnd := min (position + size) (content.length : Int)
  let data := Base64.btoa (slice content position posEnd)
  let text := wirePart (partMembers file.serverFileId subscriber position (posEnd - position) requestId data)
  have serverFileId : (file.serverFileId : Int).natAbs < 2 ^ Rounding.precision := safe.serverFileId
  have request : (requestId : Int).natAbs < 2 ^ Rounding.precision := safe.requestId
  have rest : (posEnd - position).natAbs < 2 ^ Rounding.precision := by
    have start := safe.position
    simp only [Rounding.precision] at held start ⊢
    simp only [posEnd]
    omega
  have answered : sendPart filesMap chunkInfo = some text := by
    simp only [sendPart, fields "clientFileId" file.clientFileId (by simp),
      fields "serverFileId" file.serverFileId (by simp), fields "subscriberId" subscriber (by simp),
      fields "chunkPosition" position (by simp), fields "chunkSize" size (by simp),
      fields "chunkRequestId" requestId (by simp), safeInteger_number safe.clientFileId,
        safeInteger_number serverFileId,
      safeInteger_number safe.subscriber, safeInteger_number safe.position, safeInteger_number safe.size,
      safeInteger_number request, Option.bind_eq_bind, Option.bind_some, has]
    rfl
  have length := @length_wirePart file.serverFileId subscriber position (posEnd - position) requestId data
    (btoa_inside _)
  have encoded : data.length = ((slice content position posEnd).length + 2) / 3 * 4 := Base64.length_btoa _
  obtain ⟨most, full⟩ : ((slice content position posEnd).length : Int) ≤ size ∧
      (position + size ≤ content.length → ((slice content position posEnd).length : Int) = size) :=
    length_slice low sized
  have digits : ∀ {value : Int}, value.natAbs < 2 ^ Rounding.precision →
      0 < (Json.decimal value).length ∧ (Json.decimal value).length ≤ 17 :=
    fun small => Json.decimal_length 16 (Nat.lt_trans small (by decide)) (by decide)
  have one := digits serverFileId
  have two := digits safe.subscriber
  have three := digits safe.position
  have four := digits rest
  have five := digits request
  refine ⟨value, text, partMessage file.serverFileId subscriber position (posEnd - position) requestId data,
    seen, ?_, ?_,
    readPart cast serverFileId safe.subscriber safe.position rest safe.requestId (btoa_inside _), ?_, ?_⟩
  · simp only [sendParts, files, answered, Option.toList_some]
  · simp only [sendFileChunks, requestMessage, sendFileChunk, Option.bind_eq_bind, Option.bind_some, has,
    Option.toList_some]
    rfl
  · intro small
    simp only [text, length]
    omega
  · intro whole large
    have count := full whole
    simp only [text, length]
    omega

/-- The host has a larger file. -/
def chosenLarge (_ : Int) : Option Bytes := some (List.replicate 8000 9)

/-- A part of two bytes fits in a message, and one of 6100 does not. -/
theorem part_arrives_first :
    (∃ value text message,
      receive (writeToString (requestMessage fileWhole 1 1 2 1)) = some value ∧
      sendParts chosenFirst value = [text] ∧
      sendFileChunks chosenFirst (requestMessage fileWhole 1 1 2 1) = [message] ∧
      readFromString (fun _ => 0) text = some (some message) ∧
      text.length ≤ ({} : ConfigDto).maxMessageSizeBytes) ∧
    ∃ value text message,
      receive (writeToString (requestMessage fileWhole 1 1000 6100 1)) = some value ∧
      sendParts chosenLarge value = [text] ∧
      sendFileChunks chosenLarge (requestMessage fileWhole 1 1000 6100 1) = [message] ∧
      readFromString (fun _ => 0) text = some (some message) ∧
      ({} : ConfigDto).maxMessageSizeBytes < text.length := by
  have safe : Safe fileWhole 1 1 2 1 := by constructor <;> decide
  have safeLarge : Safe fileWhole 1 1000 6100 1 := by constructor <;> decide
  have length : (List.replicate 8000 (9 : UInt8)).length = 8000 := List.length_replicate
  obtain ⟨value, text, message, seen, sent, same, read, fits, -⟩ :=
    @part_arrives chosenFirst fileWhole 1 1 2 1 [9, 8, 7] (fun _ => 0) rfl (by decide) safe (by decide) (by decide)
  obtain ⟨value', text', message', seen', sent', same', read', -, large⟩ :=
    @part_arrives chosenLarge fileWhole 1 1000 6100 1 (List.replicate 8000 9) (fun _ => 0) rfl
      (by rw [length]; decide) safeLarge (by decide) (by decide)
  refine ⟨⟨value, text, message, seen, sent, same, read, fits (by decide)⟩,
    value', text', message', seen', sent', same', read', large ?_ (by decide)⟩
  rw [length]
  decide

end Requests

end Conspire.Files
