import Conspire.Frames.Fidelity
import Conspire.Frames.Settled

/-! What the other browsers find in the event of a command: the text that was typed, the files that were
chosen, and nothing else in their place. -/
namespace Conspire.Frames
open Session Browser
open Json (Piece Spelling Value)

section Members
variable {fields : List (String × Option Tree)} {node : Tree} {value : Value}

def number (value : Int) : Value := .number ⟨decide (value < 0), value.natAbs, 0⟩

/-- What is handed on of a member. -/
def handed (name : List Nat) (value : Value) : Value :=
  if name = Json.units "files" then cleanFiles value else value

theorem lookup_handed (members : List (List Nat × Value)) (name : List Nat) :
    (members.map fun member => (member.1, handed member.1 member.2)).lookup name =
      (members.lookup name).map (handed name) := by
  induction members with
  | nil => rfl
  | cons member members ih =>
    obtain ⟨other, value⟩ := member
    rw [List.map_cons, List.lookup_cons, List.lookup_cons, ih]
    cases same : name == other with
    | false => rfl
    | true =>
      rw [eq_of_beq same]
      rfl

/-- A field that is sent is found under its name. -/
theorem receive_field (named : WellNamed fields) (seen : receive (object fields).serialize = some value)
    (member : (name, some node) ∈ fields) :
    ∃ inner, node.spelled.meaning = some inner ∧
      value.get ((ascii name).map UInt8.toNat) = some (handed ((ascii name).map UInt8.toNat) inner) := by
  rcases serialize_written (object fields) with ⟨small, units, meant⟩ | ⟨undecodable, -⟩
  · rw [receive, payload_ascii small, Option.bind_some, units, parseProtocolMessage, Json.parse_render] at seen
    split at seen
    · contradiction
    · cases meaning : (object fields).spelled.meaning with
      | none => simp [meaning] at seen
      | some whole =>
        obtain ⟨members, rfl, inner, meant, found⟩ := object_get named meaning member
        rw [meaning] at seen
        dsimp only at seen
        split at seen
        · cases seen
          refine ⟨inner, meant, ?_⟩
          have kept : (members.map fun member => (member.1, handed member.1 member.2)).reverse.lookup
              ((ascii name).map UInt8.toNat) = some (handed ((ascii name).map UInt8.toNat) inner) := by
            rw [← List.map_reverse, lookup_handed, show members.reverse.lookup _ = some inner from found]
            rfl
          exact kept
        · contradiction
  · rw [receive, payload_none undecodable.broken] at seen
    contradiction

theorem names_units : ∀ name ∈ messageNames, (ascii name).map UInt8.toNat = Json.units name := by
  decide

theorem message_field {message : MessageDto} (is : messageTree message = object fields)
    (names : fields.map Prod.fst = messageNames) (seen : receive (writeToString message) = some value)
    (member : (name, some node) ∈ fields) :
    ∃ inner, node.spelled.meaning = some inner ∧
      value.get (Json.units name) = some (handed (Json.units name) inner) := by
  have known : name ∈ messageNames := names ▸ List.mem_map_of_mem (f := Prod.fst) member
  have named : WellNamed fields := by
    obtain ⟨distinct, plain⟩ := messageNames_named
    constructor
    · rwa [← names, List.map_map] at distinct
    · exact fun field inside => plain field.1 (names ▸ List.mem_map_of_mem (f := Prod.fst) inside)
  rw [writeToString, is] at seen
  have field := receive_field named seen member
  rwa [names_units name known] at field

/-- The fields of a message of the server. -/
theorem message_fields {message : MessageDto} (seen : receive (writeToString message) = some value) :
    (∀ peerId ∈ message.peerId, value.get (Json.units "peerId") = some (number peerId)) ∧
      (∀ text ∈ message.message, ∃ units, spelledUnits text = some units ∧
        value.get (Json.units "message") = some (.text units)) ∧
      (∀ id ∈ message.clientMessageId, ∃ units, spelledUnits id = some units ∧
        value.get (Json.units "clientMessageId") = some (.text units)) ∧
      ∀ files ∈ message.files, ∃ items,
        Json.meaningItems (spelledItems (files.reduceOption.map fileTree)) = some items ∧
        value.get (Json.units "files") = some (.array (items.map cleanFile)) := by
  have others : Json.units "peerId" ≠ Json.units "files" ∧ Json.units "message" ≠ Json.units "files" ∧
      Json.units "clientMessageId" ≠ Json.units "files" := by decide
  obtain ⟨notPeerId, notMessage, notId⟩ := others
  obtain ⟨fields, is, names, peerIds, messages, ids, lists⟩ : ∃ fields, messageTree message = object fields ∧
      fields.map Prod.fst = messageNames ∧ ("peerId", message.peerId.map .integer) ∈ fields ∧
      ("message", message.message.map .string) ∈ fields ∧
      ("clientMessageId", message.clientMessageId.map .string) ∈ fields ∧
      ("files", message.files.map (vector fileTree)) ∈ fields := by
    cases message
    exact ⟨_, by rw [messageTree], rfl, by simp, by simp, by simp, by simp⟩
  refine ⟨fun peerId known => ?_, fun text known => ?_, fun id known => ?_, fun files known => ?_⟩
  · rw [Option.mem_def.mp known] at peerIds
    obtain ⟨inner, meant, found⟩ := message_field is names seen peerIds
    cases meant
    rwa [handed, if_neg notPeerId] at found
  · rw [Option.mem_def.mp known] at messages
    obtain ⟨inner, meant, found⟩ := message_field is names seen messages
    obtain ⟨units, spelled, rfl⟩ := Option.map_eq_some_iff.mp meant
    rw [handed, if_neg notMessage] at found
    exact ⟨units, spelled, found⟩
  · rw [Option.mem_def.mp known] at ids
    obtain ⟨inner, meant, found⟩ := message_field is names seen ids
    obtain ⟨units, spelled, rfl⟩ := Option.map_eq_some_iff.mp meant
    rw [handed, if_neg notId] at found
    exact ⟨units, spelled, found⟩
  · rw [Option.mem_def.mp known] at lists
    obtain ⟨inner, meant, found⟩ := message_field is names seen lists
    obtain ⟨items, spelled, rfl⟩ := Option.map_eq_some_iff.mp meant
    rw [handed, if_pos rfl] at found
    exact ⟨items, spelled, found⟩

end Members

section Files
variable {host : PeerId} {fileId : Nat} {descriptor : FileDto} {file : JsFile}

/-- A shared file as the other browsers are told of it. -/
def announced (fileId : Nat) (name : List Nat) (size : Int) (mediaType : Option (List Nat)) : Value :=
  .object ([(Json.units "serverFileId", number fileId), (Json.units "name", .text name),
    (Json.units "size", number size)] ++
      (mediaType.map fun mediaType => (Json.units "mediaType", Value.text mediaType)).toList)

theorem sharedFile_value {mediaType : Option (List Nat)}
    (kept : (descriptor.mediaType.filter Boundaries.validImageMediaType).mapM spelledUnits = some mediaType) :
    (fileTree (sharedFile (File.create host fileId descriptor))).spelled.meaning =
      (spelledUnits (descriptor.name.getD [])).map fun name =>
        announced fileId name (descriptor.size.getD 0) mediaType := by
  have names : ∀ name ∈ ["serverFileId", "name", "size", "mediaType"],
      Plain (ascii name) ∧ (ascii name).map UInt8.toNat = Json.units name := by decide
  have key : ∀ name ∈ ["serverFileId", "name", "size", "mediaType"],
      (pieces (ascii name)).mapM Piece.unit = some (Json.units name) :=
    fun name known => (names name known).1.meaning.trans (congrArg some (names name known).2)
  have ids := key "serverFileId" (by simp)
  have texts := key "name" (by simp)
  have sizes := key "size" (by simp)
  have types := key "mediaType" (by simp)
  cases filtered : descriptor.mediaType.filter Boundaries.validImageMediaType with
  | none =>
    rw [filtered] at kept
    cases kept
    simp only [fileTree, sharedFile, File.create, filtered, object, present, List.filterMap_cons, List.filterMap_nil,
      Option.map_some, Option.map_none, Tree.spelled, spelledFields, Spelling.meaning, Json.meaningMembers_cons,
      Json.meaningMembers_nil, ids, texts, sizes, Option.bind_some]
    rw [← spelledUnits]
    cases spelledUnits (descriptor.name.getD []) <;> rfl
  | some bytes =>
    rw [filtered, Option.mapM_some] at kept
    obtain ⟨media, spelled, is⟩ := Option.map_eq_some_iff.mp kept
    cases is
    simp only [fileTree, sharedFile, File.create, filtered, object, present, List.filterMap_cons, List.filterMap_nil,
      Option.map_some, Option.map_none, Tree.spelled, spelledFields, Spelling.meaning, Json.meaningMembers_cons,
      Json.meaningMembers_nil, ids, texts, sizes, types, Option.bind_some]
    rw [← spelledUnits, ← spelledUnits, spelled]
    cases spelledUnits (descriptor.name.getD []) <;> rfl

theorem cleanFile_announced {name : List Nat} {size : Int} {mediaType : Option (List Nat)}
    (images : ∀ known ∈ mediaType, isImageCandidate (some (.text known)) = true) :
    cleanFile (announced fileId name size mediaType) = announced fileId name size mediaType := by
  have different : Json.units "mediaType" ≠ Json.units "serverFileId" ∧ Json.units "mediaType" ≠ Json.units "name" ∧
      Json.units "mediaType" ≠ Json.units "size" := by decide
  obtain ⟨notId, notName, notSize⟩ := different
  cases mediaType with
  | none =>
    have absent : (announced fileId name size none).get (Json.units "mediaType") = none := by
      rw [announced, Value.get, List.lookup_eq_none_iff]
      simp [notId, notName, notSize]
    rw [announced] at absent ⊢
    rw [cleanFile, absent, if_neg (by simp [isImageCandidate])]
    simp [notId.symm, notName.symm, notSize.symm]
  | some known =>
    have found : (announced fileId name size (some known)).get (Json.units "mediaType") = some (.text known) := by
      simp [announced, Value.get]
    rw [announced] at found ⊢
    rw [cleanFile, found, if_pos (images known rfl)]

theorem paired_basic {text : JsString} (basic : ∀ unit ∈ text, isHighSurrogate unit = false) : Paired text := by
  induction text using codePoints.induct with
  | case1 => trivial
  | case2 unit => exact basic unit List.mem_cons_self
  | case3 high low rest pair ih =>
    rw [basic high List.mem_cons_self] at pair
    contradiction
  | case4 high low rest alone ih =>
    obtain ⟨first, others⟩ := List.forall_mem_cons.mp basic
    rw [Paired, if_neg alone]
    exact ⟨first, ih others⟩

/-- A type that the browser recognizes is kept by the server, and recognized again. -/
theorem mediaType_returns : ∀ mediaType ∈ Browser.imageMediaTypes,
    (∀ unit ∈ mediaType, isHighSurrogate unit = false) ∧
      (received mediaType).all Boundaries.validImageMediaType = true ∧
      isImageCandidate (some (.text (mediaType.map UInt16.toNat))) = true := by
  have checked : Browser.imageMediaTypes.all (fun mediaType => mediaType.all (fun unit => !isHighSurrogate unit) &&
      (received mediaType).all Boundaries.validImageMediaType &&
        isImageCandidate (some (.text (mediaType.map UInt16.toNat)))) = true := by decide +kernel
  intro mediaType member
  have known := List.all_eq_true.mp checked mediaType member
  simp only [Bool.and_eq_true, List.all_eq_true, Bool.not_eq_true'] at known
  exact ⟨known.1.1, known.1.2, known.2⟩

/-- A chosen file as the other browsers are told of it, but for its name. -/
theorem file_value (read : receivedFile file = some descriptor) (small : file.size ≤ maxFileBytes.toNat)
    (images : ∀ mediaType ∈ file.mediaType, mediaType ∈ Browser.imageMediaTypes) :
    ∃ name, received file.name = some name ∧
      ((fileTree (sharedFile (File.create host fileId descriptor))).spelled.meaning.map cleanFile) =
        (spelledUnits name).map fun name =>
          announced fileId name file.size (file.mediaType.map fun mediaType => mediaType.map UInt16.toNat) := by
  obtain ⟨name, known, types, same, is⟩ : ∃ name, received file.name = some name ∧
      ∃ types, file.mediaType.mapM received = some types ∧
        { name := some name, clientFileId := some (clamp file.clientFileId), size := some (clamp file.size)
          mediaType := types : FileDto } = descriptor := by
    simp only [receivedFile, Option.bind_eq_bind, Option.bind_eq_some_iff, Option.some.injEq] at read
    exact read
  have size : descriptor.size.getD 0 = file.size := by
    rw [← is, Option.getD_some, clamp]
    simp only [maxFileBytes] at small
    omega
  have kept : (descriptor.mediaType.filter Boundaries.validImageMediaType).mapM spelledUnits =
      some (file.mediaType.map fun mediaType => mediaType.map UInt16.toNat) := by
    rw [← is]
    cases typed : file.mediaType with
    | none =>
      rw [typed] at same
      cases same
      rfl
    | some mediaType =>
      rw [typed, Option.mapM_some] at same
      obtain ⟨bytes, taken, rfl⟩ := Option.map_eq_some_iff.mp same
      obtain ⟨basic, valid, -⟩ := mediaType_returns mediaType (images mediaType typed)
      rw [taken, Option.all_some] at valid
      have back := (text_returns_iff taken).mpr (paired_basic basic)
      rw [Option.filter_some_pos valid, Option.mapM_some, back]
      rfl
  have named : descriptor.name.getD [] = name := by
    rw [← is]
    rfl
  refine ⟨name, known, ?_⟩
  rw [sharedFile_value kept, named, size, Option.map_map]
  refine congrArg (fun make => (spelledUnits name).map make) (funext fun units => cleanFile_announced ?_)
  intro other typed
  obtain ⟨mediaType, chosen, rfl⟩ := Option.map_eq_some_iff.mp typed
  exact (mediaType_returns mediaType (images mediaType chosen)).2.2

theorem announced_name {name other : List Nat} {size : Int} {mediaType : Option (List Nat)} :
    announced fileId name size mediaType = announced fileId other size mediaType ↔ name = other := by
  constructor
  · intro same
    simp only [announced, List.cons_append, List.nil_append, Value.object.injEq, List.cons.injEq, Prod.mk.injEq,
      Value.text.injEq, true_and] at same
    exact same.1
  · rintro rfl
    rfl

/-- A chosen file as it is meant. -/
def chosen (fileId : Nat) (file : JsFile) : Value :=
  announced fileId (file.name.map UInt16.toNat) file.size
    (file.mediaType.map fun mediaType => mediaType.map UInt16.toNat)

/-- The files of an announcement are the chosen ones if and only if their names are. -/
theorem files_value {files : List JsFile} {descriptors : List FileDto} {items : List Value} (ids : Nat → Nat)
    (read : files.mapM receivedFile = some descriptors) (small : ∀ file ∈ files, file.size ≤ maxFileBytes.toNat)
    (images : ∀ file ∈ files, ∀ mediaType ∈ file.mediaType, mediaType ∈ Browser.imageMediaTypes)
    (spelled : Json.meaningItems (spelledItems (descriptors.mapIdx fun index descriptor =>
      fileTree (sharedFile (File.create host (ids index) descriptor)))) = some items) :
    items.map cleanFile = files.mapIdx (fun index file => chosen (ids index) file) ↔
      ∀ file ∈ files, Paired file.name := by
  induction files generalizing descriptors items ids with
  | nil =>
    rw [List.mapM_nil] at read
    obtain rfl : [] = descriptors := Option.some.inj read
    rw [List.mapIdx_nil, spelledItems, Json.meaningItems_nil] at spelled
    cases spelled
    simp
  | cons file files ih =>
    rw [List.mapM_cons] at read
    obtain ⟨descriptor, first, read⟩ := Option.bind_eq_some_iff.mp read
    obtain ⟨others, rest, is⟩ := Option.bind_eq_some_iff.mp read
    cases is
    obtain ⟨smallFirst, small⟩ := List.forall_mem_cons.mp small
    obtain ⟨imagesFirst, images⟩ := List.forall_mem_cons.mp images
    rw [List.mapIdx_cons, spelledItems, Json.meaningItems_cons] at spelled
    obtain ⟨item, meant, spelled⟩ := Option.bind_eq_some_iff.mp spelled
    obtain ⟨behind, following, rfl⟩ := Option.map_eq_some_iff.mp spelled
    obtain ⟨name, taken, value⟩ := @file_value host (ids 0) _ _ first smallFirst imagesFirst
    rw [meant] at value
    obtain ⟨units, back, same⟩ := Option.map_eq_some_iff.mp value.symm
    have typed : units = file.name.map UInt16.toNat ↔ Paired file.name := by
      rw [← text_returns_iff taken, back, Option.some.injEq]
    rw [List.map_cons, List.mapIdx_cons, List.cons.injEq, List.forall_mem_cons, ← typed, ← same, chosen,
      announced_name, ih (fun index => ids (index + 1)) rest small images following]

end Files

section Arrival
variable {config : ConfigDto} {peer after : Peer} {s : Surroundings} {command : Command} {event reply : MessageDto}
  {room : Room} {value : Value} {cast : Json.Numeral → Int} {socket : Socket} {now : TimePoint} {parts : List Bytes}

theorem queued_sizes (queued : Queued command) : ∀ files ∈ command.files, ∀ file ∈ files,
    file.size ≤ maxFileBytes.toNat := by
  cases queued with
  | message _ submitted =>
    unfold submitMessage at submitted
    split at submitted
    · contradiction
    · cases submitted
      exact fun _ none => absurd none (by simp)
  | files handled =>
    unfold handleFiles at handled
    split at handled
    · contradiction
    · rename_i fine
      cases handled
      intro files listed file member
      cases listed
      obtain ⟨index, within, rfl⟩ := List.mem_mapIdx.mp member
      simp only [Bool.or_eq_true, Bool.not_eq_true', not_or, Bool.not_eq_false, List.all_eq_true] at fine
      have valid := fine.2 _ (List.getElem_mem within)
      unfold isValid at valid
      split at valid
      · contradiction
      · rename_i size is
        simp only [Bool.and_eq_true, decide_eq_true_eq] at valid
        rw [is, Option.getD_some]
        exact Int.toNat_le_toNat valid.2

theorem receivedCommand_fields {message : MessageDto} (read : receivedCommand command = some message) :
    message.code = some command.code ∧ message.clientMessageId = some command.clientMessageId ∧
      command.message.mapM received = some message.message ∧
      ∃ lists, (command.files.mapM fun files => files.mapM receivedFile) = some lists ∧
        message.files = lists.map fun files => files.map some := by
  simp only [receivedCommand, Option.bind_eq_bind, Option.bind_eq_some_iff, Option.some.injEq] at read
  obtain ⟨text, taken, lists, listed, rfl⟩ := read
  exact ⟨rfl, rfl, taken, lists, listed, rfl⟩

theorem base64Url_plain : ∀ byte : UInt8, isBase64Url byte = true →
    (0x20 ≤ byte && byte < 0x80 && !isMarked byte) = true := by
  intro byte digit
  simp only [isBase64Url, Bool.or_eq_true, Bool.and_eq_true, decide_eq_true_eq, UInt8.le_iff_toNat_le,
    ← UInt8.toNat_inj] at digit
  simp at digit
  have unmarked : isMarked byte = false := by
    rw [← Bool.not_eq_true, isMarked_iff]
    omega
  simp only [unmarked, Bool.and_eq_true, decide_eq_true_eq, UInt8.le_iff_toNat_le, UInt8.lt_iff_toNat_lt,
    Bool.not_false,
    and_true]
  simp
  omega

theorem clientMessageId_plain {id : Bytes} (valid : validClientMessageId id = true) : Plain id := by
  simp only [validClientMessageId, validBase64UrlId, Bool.and_eq_true, List.all_eq_true] at valid
  exact List.all_eq_true.mpr fun byte member => base64Url_plain byte (valid.2.2 byte member)

/-- The event has its author, and the text of the command or its files with their ids in the room. -/
def Carries (peer : Peer) (s : Surroundings) (command : Command) (event : MessageDto) : Prop :=
  ∃ message, receivedCommand command = some message ∧ event.peerId = some (peer.peerId : Int) ∧
    if command.code = .fileShare then
      event.files = some ((((message.files.getD []).reduceOption.mapIdx fun index descriptor =>
        File.create peer.peerId (s.room.fileIdCounter + index) descriptor)).map fun file => some (sharedFile file))
    else event.message = message.message ∧ event.clientMessageId = message.clientMessageId

/-- What is published for a command that was read. -/
theorem acknowledged_event (queued : Queued command) (fresh : peer.messageBuffer = [])
    (solid : ∀ part ∈ parts, part ≠ []) (sent : parts.flatten = wireCommand command)
    (acknowledged : answer cast config peer socket now s parts = (.acknowledge reply (some event), after, room)) :
    Carries peer s command event := by
  have shape := shape_of_queued queued
  by_cases current : peer.socket = some socket
  · obtain ⟨next, kept, is⟩ := answer_current config cast now s current fresh solid
    rw [acknowledged, sent] at is
    split at is
    · cases is
    · rw [readWhole, readCommand cast command (stringOf_plain (clientMessageId_inside shape.id))] at is
      cases received : receivedCommand command with
      | none =>
        rw [received] at is
        cases is
      | some message =>
        rw [received] at is
        obtain ⟨-, handled⟩ := handleMessage_acknowledged is.symm
        obtain ⟨registered, host, base, prepared, rfl⟩ := handleCommand_event handled
        have published := prepare_eq_some prepared
        have code := (receivedCommand_fields received).1
        refine ⟨message, received, ?_⟩
        by_cases share : command.code = .fileShare
        · rw [if_pos (show (next.stamp message s.received).code = _ from code.trans (congrArg some share))] at published
          rw [if_pos share, published]
          rw [← kept.peerId]
          exact ⟨rfl, rfl⟩
        · rw [if_neg (show ¬ (next.stamp message s.received).code = _ from fun is =>
            share (Option.some.inj (code.symm.trans is)))] at published
          rw [if_neg share, published, ← kept.peerId]
          exact ⟨rfl, rfl, rfl⟩
  · rw [answer_other cast s current] at acknowledged
    cases acknowledged

/-- The other browsers are shown a text as it was typed, unless it has half a pair of surrogates that
stands before no second one. -/
theorem text_arrives {text : JsString} (queued : Queued command) (typed : command.message = some text)
    (fresh : peer.messageBuffer = []) (solid : ∀ part ∈ parts, part ≠ []) (sent : parts.flatten = wireCommand command)
    (acknowledged : answer cast config peer socket now s parts = (.acknowledge reply (some event), after, room))
    (seen : receive (writeToString event) = some value) :
    value.get (Json.units "peerId") = some (number peer.peerId) ∧
      value.get (Json.units "clientMessageId") = some (.text (command.clientMessageId.map UInt8.toNat)) ∧
      (value.get (Json.units "message") = some (.text (text.map UInt16.toNat)) ↔ Paired text) := by
  obtain ⟨message, read, author, is⟩ := acknowledged_event queued fresh solid sent acknowledged
  have code : command.code ≠ .fileShare := by
    cases queued with
    | message _ submitted =>
      unfold submitMessage at submitted
      split at submitted
      · contradiction
      · cases submitted
        exact fun same => nomatch same
    | files handled =>
      unfold handleFiles at handled
      split at handled
      · contradiction
      · cases handled
        cases typed
  rw [if_neg code] at is
  obtain ⟨-, named, taken, -⟩ := receivedCommand_fields read
  rw [typed, Option.mapM_some] at taken
  obtain ⟨bytes, taken, sameText⟩ := Option.map_eq_some_iff.mp taken
  obtain ⟨authors, texts, ids, -⟩ := message_fields seen
  obtain ⟨units, back, shown⟩ := texts bytes (is.1.trans sameText.symm)
  obtain ⟨letters, spelled, given⟩ := ids command.clientMessageId (is.2.trans named)
  have plain := (clientMessageId_plain (shape_of_queued queued).id).meaning
  rw [← spelledUnits, spelled] at plain
  refine ⟨authors _ author, by rw [given, Option.some.inj plain], ?_⟩
  · rw [shown, ← text_returns_iff taken, back]
    simp

/-- And the files as they were chosen, unless a name has such a half. -/
theorem files_arrive {files : List JsFile} (queued : Queued command) (selected : command.files = some files)
    (fresh : peer.messageBuffer = []) (solid : ∀ part ∈ parts, part ≠ []) (sent : parts.flatten = wireCommand command)
    (acknowledged : answer cast config peer socket now s parts = (.acknowledge reply (some event), after, room))
    (seen : receive (writeToString event) = some value) :
    value.get (Json.units "peerId") = some (number peer.peerId) ∧
      (value.get (Json.units "files") =
          some (.array (files.mapIdx fun index file => chosen (s.room.fileIdCounter + index) file)) ↔
        ∀ file ∈ files, Paired file.name) := by
  obtain ⟨message, read, author, is⟩ := acknowledged_event queued fresh solid sent acknowledged
  have code : command.code = .fileShare := by
    cases queued with
    | message _ submitted =>
      unfold submitMessage at submitted
      split at submitted
      · contradiction
      · cases submitted
        cases selected
    | files handled =>
      unfold handleFiles at handled
      split at handled
      · contradiction
      · cases handled
        rfl
  rw [if_pos code] at is
  obtain ⟨-, -, -, lists, listed, given⟩ := receivedCommand_fields read
  rw [selected, Option.mapM_some] at listed
  obtain ⟨descriptors, taken, rfl⟩ := Option.map_eq_some_iff.mp listed
  obtain ⟨authors, -, -, shared⟩ := message_fields seen
  obtain ⟨items, spelled, shown⟩ := shared _ is
  refine ⟨authors _ author, ?_⟩
  have described : (message.files.getD []).reduceOption = descriptors := by
    rw [given, Option.map_some, Option.getD_some, Boundaries.reduceOption_map_some]
  have images := (shape_of_queued queued).mediaTypes files selected
  have sizes := queued_sizes queued files selected
  have listing : ((((message.files.getD []).reduceOption.mapIdx fun index descriptor =>
      File.create peer.peerId (s.room.fileIdCounter + index) descriptor).map fun file =>
        some (sharedFile file)).reduceOption.map fileTree) = descriptors.mapIdx fun index descriptor =>
          fileTree (sharedFile (File.create peer.peerId (s.room.fileIdCounter + index) descriptor)) := by
    rw [described]
    refine (Tree.vector.inj (vector_map fileTree sharedFile _)).trans ?_
    simp only [List.mapIdx_eq_zipIdx_map, List.map_map]
    rfl
  rw [listing] at spelled
  have same := files_value (fun index => s.room.fileIdCounter + index) taken sizes images spelled
  rw [shown, ← same]
  simp

end Arrival

section Examples

def Answer.event : Answer → Option MessageDto
  | .acknowledge _ event => event
  | .error _ | .thrown | .unanswered => none

theorem Answer.event_some {answer : Answer} {event : MessageDto} (is : answer.event = some event) :
    ∃ reply, answer = .acknowledge reply (some event) := by
  cases answer with
  | acknowledge reply published =>
    cases is
    exact ⟨reply, rfl⟩
  | error reply => cases is
  | thrown => cases is
  | unanswered => cases is

/-- What the others are handed when Anna sends a command in a room of her own. -/
def handedOn (command : Command) : Option Value :=
  (answer (fun _ => 0) {} anna 0 0 alone [wireCommand command]).1.event.bind fun event =>
    receive (writeToString event)

theorem handedOn_some {command : Command} {value : Value} (is : handedOn command = some value) :
    ∃ reply event after room, answer (fun _ => 0) {} anna 0 0 alone [wireCommand command] =
      (.acknowledge reply (some event), after, room) ∧ receive (writeToString event) = some value := by
  obtain ⟨event, published, seen⟩ := Option.bind_eq_some_iff.mp is
  obtain ⟨reply, acknowledged⟩ := Answer.event_some published
  exact ⟨reply, event, _, _, Prod.ext acknowledged rfl, seen⟩

/-- A musical symbol, which takes a pair. -/
def clef : Command :=
  { code := .peerMessage, message := some [0xd834, 0xdd1e], clientMessageId := randomId (Vector.replicate 16 0) }

theorem clef_queued : Queued clef :=
  .message (by decide) (show submitMessage [0xd834, 0xdd1e] (Vector.replicate 16 0) = some clef from rfl)

theorem clef_arrives : ∃ value, handedOn clef = some value ∧
    value.get (Json.units "message") = some (.text [0xd834, 0xdd1e]) := by
  obtain ⟨value, is⟩ := Option.isSome_iff_exists.mp (show (handedOn clef).isSome = true by decide +kernel)
  obtain ⟨reply, event, after, room, acknowledged, seen⟩ := handedOn_some is
  have solid : ∀ part ∈ [wireCommand clef], part ≠ [] := by decide
  obtain ⟨-, -, shown⟩ := text_arrives clef_queued rfl rfl solid List.flatten_singleton acknowledged seen
  exact ⟨value, is, shown.mpr trivial⟩

def picture : JsFile := { name := [0xe9], clientFileId := 1, size := 3, mediaType := some (jsString "image/png") }

def gallery : Command :=
  { code := .fileShare, files := some [picture], clientMessageId := randomId (Vector.replicate 16 0) }

theorem gallery_queued : Queued gallery := by
  have handled : handleFiles [{ name := [0xe9], size := some 3, type := jsString "image/png" }] 1
      (Vector.replicate 16 0) = some gallery := by decide
  exact .files handled

theorem gallery_arrives : ∃ value, handedOn gallery = some value ∧
    value.get (Json.units "files") = some (.array [chosen alone.room.fileIdCounter picture]) := by
  obtain ⟨value, is⟩ := Option.isSome_iff_exists.mp (show (handedOn gallery).isSome = true by decide +kernel)
  obtain ⟨reply, event, after, room, acknowledged, seen⟩ := handedOn_some is
  have solid : ∀ part ∈ [wireCommand gallery], part ≠ [] := by decide
  obtain ⟨-, shown⟩ := files_arrive gallery_queued rfl rfl solid List.flatten_singleton acknowledged seen
  refine ⟨value, is, shown.mpr ?_⟩
  intro file member
  rw [List.mem_singleton.mp member]
  exact (rfl : isHighSurrogate 0xe9 = false)

end Examples

end Conspire.Frames
