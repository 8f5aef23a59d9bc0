import Conspire.Frames.Delivery
import Conspire.Frames.Dispatch
import Conspire.Frames.Stringify

/-! The durable frame of an acknowledged command at the browsers. The server bounds the bytes of the
command, the browser the characters of the frame; what the frame takes is known from the command, from
what the server fills in and from the escapes of the strings. -/
namespace Conspire.Frames
open Session Browser

/-- The room as `publishDurable` finds it. -/
def Surroundings.ordering (s : Surroundings) (peer : Peer) (message : MessageDto) : Room :=
  s.meanwhile (((prepare peer s.room message s.shared).map Prod.fst).getD s.room)

/-- A message without the fields that the server fills in. -/
def unassigned (message : MessageDto) : MessageDto :=
  { message with peerId := none, peerName := none, timestamp := none, serverSeq := none }

/-- The characters of these fields. -/
def assignedWidth (peer : Peer) (timestamp : Int) (sequence : Nat) : Nat :=
  fieldWidth "peerId" (Json.decimal peer.peerId).length + fieldWidth "peerName" (stringWidth peer.nickname) +
    fieldWidth "timestamp" (Json.decimal timestamp).length + fieldWidth "serverSeq" (Json.decimal sequence).length

/-- The characters of a shared file's descriptor in its announcement. -/
def announcedWidth (fileId : Nat) (descriptor : FileDto) : Nat :=
  1 + (fieldWidth "serverFileId" (Json.decimal fileId).length +
    fieldWidth "name" (stringWidth (descriptor.name.getD [])) +
    fieldWidth "size" (Json.decimal (descriptor.size.getD 0)).length +
    (descriptor.mediaType.filter Boundaries.validImageMediaType).elim 0 fun mediaType =>
      fieldWidth "mediaType" (stringWidth mediaType))

/-- The characters of an announcement but for the fields of every durable message. -/
def filesWidth (room : Room) (descriptors : List FileDto) : Nat :=
  1 + (fieldWidth "code" 1 + fieldWidth "files"
    (1 + max 1
      (descriptors.mapIdx fun index descriptor => announcedWidth (room.fileIdCounter + index) descriptor + 1).sum))

/-- The strings can be spelled and the frame is not too long. -/
def Fits (peer : Peer) (s : Surroundings) (message : MessageDto) : Prop :=
  let descriptors := (message.files.getD []).reduceOption
  let sequence := (s.ordering peer message).sequencer.latest + 1
  legible peer.nickname = true ∧
    if message.code = some .fileShare then
      (∀ descriptor ∈ descriptors, legible (descriptor.name.getD []) = true) ∧
        filesWidth s.room descriptors + assignedWidth peer s.shared sequence ≤ 8192
    else
      (messageTree (unassigned message)).legible = true ∧
        (messageTree (unassigned message)).width + assignedWidth peer s.received sequence ≤ 8192

section Trees
variable {message : MessageDto} {peerId timestamp : Int} {peerName : Bytes} {sequence : Nat}

theorem messageTree_width (code : message.code = some c) (peer : message.peerId = some peerId)
    (nickname : message.peerName = some peerName) (clock : message.timestamp = some timestamp)
    (numbered : message.serverSeq = some sequence) :
    (messageTree message).width = (messageTree (unassigned message)).width +
      (fieldWidth "peerId" (Json.decimal peerId).length + fieldWidth "peerName" (stringWidth peerName) +
        fieldWidth "timestamp" (Json.decimal timestamp).length +
        fieldWidth "serverSeq" (Json.decimal sequence).length) := by
  cases message
  cases code
  cases peer
  cases nickname
  cases clock
  cases numbered
  simp only [unassigned, messageTree, object_width, List.map_cons, List.map_nil, List.sum_cons, List.sum_nil,
    Option.map_some, Option.map_none, Option.elim_some, Option.elim_none, natural, Tree.width]
  have positive : 0 < fieldWidth "code" (Json.decimal c.value).length := Nat.succ_pos _
  omega

theorem integers_legible (value : Option Int) : (value.map Tree.integer).all Tree.legible = true := by
  cases value <;> rfl

theorem naturals_legible (value : Option Nat) : (value.map natural).all Tree.legible = true := by
  cases value <;> rfl

theorem messageTree_legible (nickname : message.peerName = some peerName) :
    (messageTree message).legible = true ↔
      legible peerName = true ∧ (messageTree (unassigned message)).legible = true := by
  cases message
  cases nickname
  have plain : ∀ (field : String × Option Tree), field.1 ∈ messageNames → Plain (ascii field.1) :=
    fun field => messageNames_named.2 field.1
  rw [unassigned, messageTree, messageTree, object_legible, object_legible]
  · simp only [List.all_cons, List.all_nil, Option.map_some, Option.map_none, Option.all_some, Option.all_none,
      integers_legible, naturals_legible, Tree.legible, Bool.and_eq_true, true_and]
  · exact fun field member => plain field (List.mem_map_of_mem (f := Prod.fst) member)
  · exact fun field member => plain field (List.mem_map_of_mem (f := Prod.fst) member)

/-- A media type that a file keeps is ASCII. -/
theorem mediaTypes_legible (mediaType : Option Bytes) :
    ((mediaType.filter Boundaries.validImageMediaType).map Tree.string).all Tree.legible = true := by
  rw [Option.all_map, Option.all_eq_true]
  intro mediaType kept
  have valid := (Option.filter_eq_some_iff.mp kept).2
  simp only [Boundaries.validImageMediaType, Bool.and_eq_true, List.all_eq_true, decide_eq_true_eq] at valid
  apply legible_ascii
  intro byte member
  have small := valid.1.2 byte member
  simp only [UInt8.le_iff_toNat_le, UInt8.lt_iff_toNat_lt] at small ⊢
  exact Nat.lt_succ_of_le small

theorem fileNames_plain : ∀ name ∈ ["clientFileId", "serverFileId", "name", "size", "mediaType", "chunkPosition",
    "chunkSize", "subscriberId", "chunkRequestId", "available", "data"], Plain (ascii name) := by
  decide

theorem sharedFile_tree (host : PeerId) (fileId : Nat) (descriptor : FileDto) :
    (fileTree (sharedFile (File.create host fileId descriptor))).width = announcedWidth fileId descriptor ∧
      ((fileTree (sharedFile (File.create host fileId descriptor))).legible = true ↔
        legible (descriptor.name.getD []) = true) := by
  constructor
  · simp only [fileTree, sharedFile, File.create, object_width, List.map_cons, List.map_nil, List.sum_cons,
      List.sum_nil, Option.map_some, Option.map_none, Option.elim_some, Option.elim_none, Tree.width,
      announcedWidth, Option.elim_map, Function.comp_def]
    have positive : 0 < fieldWidth "name" (stringWidth (descriptor.name.getD [])) := Nat.succ_pos _
    omega
  · rw [fileTree, object_legible]
    · simp only [sharedFile, File.create, List.all_cons, List.all_nil, Option.map_some, Option.map_none,
        Option.all_some, Option.all_none, Tree.legible, Bool.and_eq_true, true_and, and_true,
        mediaTypes_legible]
    · exact fun field member => fileNames_plain field.1 (List.mem_map_of_mem (f := Prod.fst) member)

theorem vector_map (tree : β → Tree) (make : α → β) (list : List α) :
    vector tree (list.map fun element => some (make element)) = .vector (list.map fun element => tree (make element)) := by
  have present : (list.map fun element => some (make element)) = (list.map make).map some := by
    rw [List.map_map]
    rfl
  rw [vector, present, Boundaries.reduceOption_map_some, List.map_map]
  rfl

theorem fileMessage_tree (peer : Peer) (timestamp : Int) (room : Room) (descriptors : List FileDto) :
    let files := descriptors.mapIdx fun index descriptor =>
      File.create peer.peerId (room.fileIdCounter + index) descriptor
    (messageTree (unassigned (fileMessage peer timestamp files))).width = filesWidth room descriptors ∧
      ((messageTree (unassigned (fileMessage peer timestamp files))).legible = true ↔
        ∀ descriptor ∈ descriptors, legible (descriptor.name.getD []) = true) := by
  intro files
  have plain : ∀ (field : String × Option Tree), field.1 ∈ messageNames → Plain (ascii field.1) :=
    fun field => messageNames_named.2 field.1
  constructor
  · have each : (files.map fun file => (fileTree (sharedFile file)).width + 1) =
        descriptors.mapIdx fun index descriptor => announcedWidth (room.fileIdCounter + index) descriptor + 1 := by
      simp only [files, List.mapIdx_eq_zipIdx_map, List.map_map]
      apply List.map_congr_left
      intro entry _
      rw [Function.comp_apply, (sharedFile_tree _ _ _).1]
    have code : (Json.decimal (MessageCodes.peerMessageFile.value : Int)).length = 1 := by decide
    simp only [unassigned, fileMessage, messageTree, historyTree, object_width, List.map_cons, List.map_nil,
      List.sum_cons, List.sum_nil, Option.map_some, Option.map_none, Option.elim_some, Option.elim_none, natural,
      Tree.width, vector_map, itemsWidth_map, each, code, filesWidth]
    have positive : 0 < fieldWidth "code" 1 := Nat.succ_pos _
    omega
  · rw [unassigned, fileMessage, messageTree, object_legible]
    · simp only [historyTree, List.all_cons, List.all_nil, Option.map_some, Option.map_none, Option.all_some,
        Option.all_none, natural, Tree.legible, Bool.and_eq_true, true_and, and_true, vector_map,
        legibleItems_map, List.all_eq_true]
      constructor
      · intro all descriptor member
        obtain ⟨index, within, rfl⟩ := List.getElem_of_mem member
        exact (sharedFile_tree _ _ _).2.mp (all _ (List.mem_mapIdx.mpr ⟨index, within, rfl⟩))
      · intro all file member
        obtain ⟨index, within, rfl⟩ := List.mem_mapIdx.mp member
        exact (sharedFile_tree _ _ _).2.mpr (all _ (List.getElem_mem within))
    · exact fun field member => plain field (List.mem_map_of_mem (f := Prod.fst) member)

end Trees

section Events
variable {config : ConfigDto} {peer next : Peer} {s : Surroundings} {message event reply : MessageDto} {room : Room}

/-- An event that was published is the prepared one with the next number of its room. -/
theorem handleCommand_event
    (handled : handleCommand config peer s message = (.acknowledge reply (some event), next, room)) :
    ∃ registered host base, prepare peer s.room message s.shared = some (registered, host, base) ∧
      event = { base with serverSeq := some ((s.meanwhile registered).sequencer.latest + 1) } := by
  unfold handleCommand at handled
  split at handled
  · cases handled
  · dsimp only at handled
    split at handled
    · cases handled
    · split at handled
      · cases handled
      · split at handled
        · cases handled
        · rename_i registered host base prepared
          split at handled
          · cases handled
          · rename_i after published added
            split at handled
            · cases handled
            · cases handled
              exact ⟨registered, host, base, prepared, (Room.addHistoryMessage_eq_some added).1⟩

/-- A PEER_MESSAGE is published itself, a FILE_SHARE as the announcement of its files. -/
theorem prepare_eq_some (prepared : prepare peer room message now = some (registered, host, base)) :
    base = if message.code = some .fileShare then
      fileMessage peer now ((message.files.getD []).reduceOption.mapIdx fun index descriptor =>
        File.create peer.peerId (room.fileIdCounter + index) descriptor)
      else message := by
  unfold prepare at prepared
  split at prepared
  · rename_i share
    obtain ⟨⟨after, owner, files⟩, shared, is⟩ := Option.map_eq_some_iff.mp prepared
    cases is
    rw [if_pos share]
    unfold Room.shareFiles at shared
    split at shared
    · contradiction
    · cases shared
      rfl
  · rename_i other
    cases prepared
    rw [if_neg other]

/-- A durable message at the browsers, by what the server fills in. -/
theorem numbered_received {timestamp : Int} {sequence : Nat} (code : event.code = some c)
    (peerId : event.peerId = some (peer.peerId : Int)) (peerName : event.peerName = some peer.nickname)
    (clock : event.timestamp = some timestamp) (numbered : event.serverSeq = some sequence) :
    (receive (writeToString event)).isSome ↔
      legible peer.nickname = true ∧ (messageTree (unassigned event)).legible = true ∧
        (messageTree (unassigned event)).width + assignedWidth peer timestamp sequence ≤ 8192 := by
  rw [receive_message _ code, messageTree_legible peerName, messageTree_width code peerId peerName clock numbered,
    assignedWidth, and_assoc]

theorem stamp_ordering (other : Peer) (now : Int) :
    s.ordering peer (other.stamp message now) = s.ordering peer message := by
  unfold Surroundings.ordering prepare
  by_cases share : message.code = some .fileShare
  · rw [if_pos (show (other.stamp message now).code = _ from share), if_pos share]
    rfl
  · rw [if_neg (show ¬ (other.stamp message now).code = _ from share), if_neg share]
    rfl

/-- The event of a command at the browsers. -/
theorem handleCommand_received (code : message.code = some .peerMessage ∨ message.code = some .fileShare)
    (handled : handleCommand config peer s (peer.stamp message s.received) =
      (.acknowledge reply (some event), next, room)) :
    (receive (writeToString event)).isSome ↔ Fits peer s message := by
  obtain ⟨registered, host, base, prepared, rfl⟩ := handleCommand_event handled
  have ordering : s.ordering peer message = s.meanwhile registered := by
    rw [← stamp_ordering peer s.received, Surroundings.ordering, prepared]
    rfl
  have is := prepare_eq_some prepared
  rw [Fits, ordering]
  by_cases share : message.code = some .fileShare
  · obtain ⟨width, fine⟩ := fileMessage_tree peer s.shared s.room (message.files.getD []).reduceOption
    rw [if_pos (show (peer.stamp message s.received).code = _ from share)] at is
    rw [is, numbered_received rfl rfl rfl rfl rfl, if_pos share, ← width, ← fine]
    rfl
  · have text : message.code = some .peerMessage := code.resolve_right share
    rw [if_neg (show ¬ (peer.stamp message s.received).code = _ from share)] at is
    rw [is, if_neg share]
    exact numbered_received text rfl rfl rfl rfl

/-- Only the two commands are acknowledged. -/
theorem handleMessage_acknowledged
    (handled : handleMessage config peer s message = (.acknowledge reply published, next, room)) :
    (message.code = some .peerMessage ∨ message.code = some .fileShare) ∧
      handleCommand config peer s message = (.acknowledge reply published, next, room) := by
  unfold handleMessage at handled
  split at handled
  · cases handled
  · rename_i text
    exact ⟨.inl text, handled⟩
  · rename_i share
    exact ⟨.inr share, handled⟩
  · cases handled
  · cases handled
  · cases handled

theorem Kept.ordering (kept : Kept peer next) : s.ordering next message = s.ordering peer message := by
  simp only [Surroundings.ordering, prepare, Room.shareFiles, kept.peerId, kept.files]
  split
  · split <;> rfl
  · rfl

theorem Kept.fits (kept : Kept peer next) : Fits next s message ↔ Fits peer s message := by
  simp only [Fits, kept.ordering, assignedWidth, kept.nickname, kept.peerId]

end Events

section Chat
variable {config : ConfigDto} {peer : Peer} {s : Surroundings} {command : Command} {text : JsString}

/-- A message of the browser in characters that it need not escape. -/
structure Chat (command : Command) (text : JsString) : Prop where
  code : command.code = .peerMessage
  message : command.message = some text
  files : command.files = none
  id : validClientMessageId command.clientMessageId = true
  whole : ∀ unit ∈ text, Whole unit
  inside : ∀ byte ∈ encoded text, byte.toNat ≠ Json.quote ∧ byte.toNat ≠ Json.backslash
  content : Boundaries.validMessageContent (encoded text) = true

/-- The event of such a message, without its sequence. -/
def chatEvent (peer : Peer) (command : Command) (text : JsString) (now : Int) : MessageDto :=
  peer.stamp { code := some .peerMessage, message := some (encoded text)
               clientMessageId := some command.clientMessageId } now

theorem Chat.length (chat : Chat command text) :
    (wireCommand command).length = (encoded text).length + command.clientMessageId.length + 44 :=
  length_wireCommand chat.code chat.files chat.message chat.whole chat.inside (clientMessageId_inside chat.id)

theorem Chat.nonempty (chat : Chat command text) : ∀ part ∈ [wireCommand command], part ≠ [] := by
  intro part member empty
  have long := chat.length
  rw [← List.mem_singleton.mp member, empty, List.length_nil] at long
  omega

theorem Chat.read (chat : Chat command text) (cast : Json.Numeral → Int) : readFromString cast (wireCommand command) =
    some (some { code := some .peerMessage, message := some (encoded text)
                 clientMessageId := some command.clientMessageId }) := by
  have message : receivedCommand command = some { code := some .peerMessage, message := some (encoded text)
                                                  clientMessageId := some command.clientMessageId } := by
    simp [receivedCommand, chat.code, chat.message, chat.files, received_whole chat.whole chat.inside]
  rw [readCommand cast command (stringOf_plain (clientMessageId_inside chat.id)), message]
  rfl

/-- It is acknowledged if it is new and there is room for it. -/
theorem Chat.answer (config : ConfigDto) (chat : Chat command text) (cast : Json.Numeral → Int) {socket : Socket}
    (now : TimePoint) (s : Surroundings) (current : peer.socket = some socket) (fresh : peer.messageBuffer = [])
    (fits : (encoded text).length + command.clientMessageId.length + 44 ≤ config.maxMessageSizeBytes)
    (new : peer.dedupe.find command.clientMessageId = none) (space : peer.dedupe.full = false)
    (unexhausted : (s.meanwhile s.room).sequencer.latest ≠ maxSequence) :
    let sequence := (s.meanwhile s.room).sequencer.latest + 1
    let event := chatEvent peer command text s.received
    ∃ next room dedupe, Kept peer next ∧
      (s.meanwhile s.room).addHistoryMessage config event = some (room, { event with serverSeq := some sequence }) ∧
      peer.dedupe.remember command.clientMessageId sequence = some dedupe ∧
      answer cast config peer socket now s [wireCommand command] =
        (.acknowledge (messageAck command.clientMessageId sequence) (some { event with serverSeq := some sequence }),
          { next with dedupe }, room) := by
  intro sequence event
  obtain ⟨next, kept, is⟩ := answer_current config cast now s current fresh chat.nonempty
  have within : ¬ config.maxMessageSizeBytes < [wireCommand command].flatten.length := by
    rw [List.flatten_singleton, chat.length]
    exact Nat.not_lt.mpr fits
  have read := chat.read cast
  have stamped : next.stamp { code := some .peerMessage, message := some (encoded text)
                              clientMessageId := some command.clientMessageId } s.received = event := by
    simp only [event, chatEvent, Peer.stamp, kept.nickname, kept.peerId]
  have checked : checkCommand event = none := by
    simp [checkCommand, checkPeerMessage, event, chatEvent, Peer.stamp, chat.content, chat.id]
  obtain ⟨room, dedupe, added, recorded, handled⟩ := handleCommand_published config
    checked rfl (by rw [kept.dedupe, new]) (by rw [kept.dedupe, space])
    (show prepare next s.room event s.shared = some (s.room, next, event) from rfl) unexhausted
  rw [kept.dedupe] at recorded
  refine ⟨next, room, dedupe, kept, added, recorded, ?_⟩
  rw [is, if_neg within, List.flatten_singleton, readWhole, read]
  simp only [stamped]
  exact handled

end Chat

/-- An acknowledged event reaches the other participants if and only if its frame can be spelled and
is no longer than the browser admits. -/
theorem acknowledged_received {cast : Json.Numeral → Int} {socket : Socket} {now : TimePoint} {parts : List Bytes}
    (fresh : peer.messageBuffer = []) (solid : ∀ part ∈ parts, part ≠ [])
    (read : readFromString cast parts.flatten = some (some message))
    (acknowledged : answer cast config peer socket now s parts = (.acknowledge reply (some event), after, room)) :
    (receive (writeToString event)).isSome ↔ Fits peer s message := by
  by_cases current : peer.socket = some socket
  · obtain ⟨next, kept, is⟩ := answer_current config cast now s current fresh solid
    rw [acknowledged] at is
    split at is
    · cases is
    · rw [readWhole, read] at is
      obtain ⟨code, handled⟩ := handleMessage_acknowledged is.symm
      rw [← kept.fits]
      exact handleCommand_received code handled
  · rw [answer_other cast s current] at acknowledged
    cases acknowledged

section Examples

/-- 1400 characters of three bytes each, which are escaped with six. -/
def ideographs : Command :=
  { code := .peerMessage, message := some (List.replicate 1400 0x4e00), clientMessageId := List.replicate 22 0x41 }

def anna : Peer := Peer.create 0 0 (ascii "Anna") 1 0

/-- A room with Anna, and nothing in between. -/
def alone : Surroundings :=
  { room := { name := ascii "x", peerById := [1] }, meanwhile := id, received := 0, shared := 0 }

theorem encoded_ideographs (n : Nat) :
    encoded (List.replicate n 0x4e00) = (List.replicate n [0xE4, 0xB8, 0x80]).flatten := by
  have character : String.utf8EncodeChar (Char.ofNat (0x4e00 : UInt16).toNat) = [0xE4, 0xB8, 0x80] := by decide
  rw [encoded, List.flatMap_replicate, character]

theorem length_ideographs (n : Nat) :
    (List.replicate n ([0xE4, 0xB8, 0x80] : Bytes)).flatten.length = n * 3 := by
  rw [List.length_flatten, List.map_replicate, List.sum_replicate_nat]
  rfl

theorem ideographs_bytes {n : Nat} : ∀ byte ∈ encoded (List.replicate n 0x4e00),
    byte.toNat ≠ Json.quote ∧ byte.toNat ≠ Json.backslash ∧ Boundaries.isControl byte = false := by
  intro byte member
  rw [encoded_ideographs, List.mem_flatten] at member
  obtain ⟨part, inside, here⟩ := member
  rw [(List.mem_replicate.mp inside).2] at here
  simp only [List.mem_cons, List.not_mem_nil, or_false] at here
  rcases here with rfl | rfl | rfl <;> decide

theorem ideographs_whole {n : Nat} : ∀ unit ∈ List.replicate n 0x4e00, Whole unit := by
  intro unit member
  rw [(List.mem_replicate.mp member).2]
  decide

theorem ideographs_chat : Chat ideographs (List.replicate 1400 0x4e00) where
  code := rfl
  message := rfl
  files := rfl
  id := by decide
  whole := ideographs_whole
  inside byte member := ⟨(ideographs_bytes byte member).1, (ideographs_bytes byte member).2.1⟩
  content := by
    rw [Boundaries.validMessageContent, Bool.and_eq_true, decide_eq_true_eq, Bool.not_eq_true']
    constructor
    · rw [encoded_ideographs, length_ideographs]
      decide
    · rw [Boundaries.containsControl, List.any_eq_false]
      exact fun byte member => by simp [(ideographs_bytes byte member).2.2]

/-- Its event is too long for the browser. -/
theorem ideographs_long (timestamp : Int) :
    8192 < (messageTree (unassigned (chatEvent anna ideographs (List.replicate 1400 0x4e00) timestamp))).width := by
  have escaped : escapedSize (encoded (List.replicate 1400 0x4e00)) = 1400 * 6 := by
    rw [encoded_ideographs, escapedSize_replicate 0xE4 [0xB8, 0x80] (by decide)]
    rfl
  simp only [unassigned, chatEvent, Peer.stamp, messageTree, object_width, List.map_cons, List.map_nil, List.sum_cons,
    List.sum_nil, Option.map_some, Option.map_none, Option.elim_some, Option.elim_none, Tree.width]
  have text : 8192 < fieldWidth "message" (stringWidth (encoded (List.replicate 1400 0x4e00))) := by
    simp only [fieldWidth, stringWidth, escaped]
    omega
  omega

theorem ideographs_acknowledged (cast : Json.Numeral → Int) : ∃ next room,
    answer cast {} anna 0 0 alone [wireCommand ideographs] =
      (.acknowledge (messageAck ideographs.clientMessageId 1)
        (some { chatEvent anna ideographs (List.replicate 1400 0x4e00) 0 with serverSeq := some 1 }),
          next, room) := by
  have fits : (encoded (List.replicate 1400 0x4e00)).length + ideographs.clientMessageId.length + 44 ≤ 8 * 1024 := by
    rw [encoded_ideographs, length_ideographs]
    decide
  obtain ⟨next, room, dedupe, -, -, -, is⟩ := ideographs_chat.answer {} cast 0 alone
    (show anna.socket = some 0 from rfl) rfl fits rfl rfl (by decide)
  exact ⟨_, _, is⟩

/-- A message that the server accepts and acknowledges, and that nobody else sees. -/
theorem acknowledged_unseen : ¬ ∀ (config : ConfigDto) (cast : Json.Numeral → Int) (peer after : Peer)
    (socket : Socket)
    (now : TimePoint) (s : Surroundings) (parts : List Bytes) (reply event : MessageDto) (room : Room),
    peer.messageBuffer = [] → (∀ part ∈ parts, part ≠ []) → parts.flatten.length ≤ config.maxMessageSizeBytes →
    answer cast config peer socket now s parts = (.acknowledge reply (some event), after, room) →
    (receive (writeToString event)).isSome := by
  intro all
  obtain ⟨next, room, is⟩ := ideographs_acknowledged fun _ => 0
  have long : (wireCommand ideographs).length = 1400 * 3 + 22 + 44 := by
    rw [ideographs_chat.length, encoded_ideographs, length_ideographs]
    rfl
  have seen := all {} (fun _ => 0) anna next 0 0 alone [wireCommand ideographs] _ _ room rfl
    ideographs_chat.nonempty (by rw [List.flatten_singleton, long]; decide) is
  obtain ⟨-, -, short⟩ := (numbered_received (show _ = some MessageCodes.peerMessage from rfl)
    (show _ = some (anna.peerId : Int) from rfl) rfl (show _ = some (0 : Int) from rfl)
    (show _ = some 1 from rfl)).mp seen
  have width := ideographs_long 0
  have same : unassigned { chatEvent anna ideographs (List.replicate 1400 0x4e00) 0 with serverSeq := some 1 } =
      unassigned (chatEvent anna ideographs (List.replicate 1400 0x4e00) 0) := rfl
  rw [same] at short
  omega

/-- The run of this message. -/
theorem acknowledged_received_first : ∃ message event reply after room,
    answer (fun _ => 0) {} anna 0 0 alone [wireCommand ideographs] = (.acknowledge reply (some event), after, room) ∧
      ((receive (writeToString event)).isSome ↔ Fits anna alone message) := by
  obtain ⟨next, room, is⟩ := ideographs_acknowledged fun _ => 0
  exact ⟨_, _, _, _, _, is, acknowledged_received rfl ideographs_chat.nonempty
    (by rw [List.flatten_singleton]; exact ideographs_chat.read _) is⟩

end Examples

end Conspire.Frames
