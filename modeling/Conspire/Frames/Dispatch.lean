import Conspire.Frames.Reader
import Conspire.Server.Handlers
import Conspire.Server.History
import Conspire.Transport.Inbound

/-! A command at the server, from the parts of its message (`Peer::readMessage`) through the handlers
of `Peer::handleMessage` to the answer. Other threads may change the room between two sections of a
handler. -/
namespace Conspire.Frames
open Session

/-- What a message is answered with; an acknowledgement comes with the event that was published for
it, unless the command was known. An exception of a handler answers nothing. -/
inductive Answer where
  | error (reply : MessageDto)
  | acknowledge (reply : MessageDto) (event : Option MessageDto)
  | thrown
  | unanswered

/-- What a handler finds: the room, what becomes of it between `shareFiles` and `publishDurable`, and
the clock when the message is read and when its files are announced. -/
structure Surroundings where
  room : Room
  meanwhile : Room → Room
  received : Int
  shared : Int

/-- The event of a command without its sequence, for which a FILE_SHARE registers its files. -/
def prepare (peer : Peer) (room : Room) (message : MessageDto) (now : Int) : Option (Room × Peer × MessageDto) :=
  if message.code = some .fileShare then
    (room.shareFiles peer (message.files.getD []).reduceOption).map fun (room, peer, files) =>
      (room, peer, fileMessage peer now files)
  else some (room, peer, message)

/-- The handlers of PEER_MESSAGE and FILE_SHARE. -/
def handleCommand (config : ConfigDto) (peer : Peer) (s : Surroundings) (message : MessageDto) :
    Answer × Peer × Room :=
  match checkCommand message with
  | some error => (.error error, peer, s.room)
  | none =>
    let id := message.clientMessageId.getD []
    match peer.dedupe.find id with
    | some prior => (.acknowledge (messageAck id prior) none, peer, s.room)
    | none =>
      if peer.dedupe.full then (.error (capacityError message), peer, s.room)
      else
        match prepare peer s.room message s.shared with
        | none => (.error (fileLimitError message), peer, s.room)
        | some (room, peer, event) =>
          match (s.meanwhile room).addHistoryMessage config event with
          | none => (.thrown, peer, s.meanwhile room)
          | some (room, event) =>
            match peer.dedupe.remember id (event.serverSeq.getD 0) with
            | none => (.thrown, peer, room)
            | some dedupe =>
              (.acknowledge (messageAck id (event.serverSeq.getD 0)) (some event), { peer with dedupe }, room)

/-- The typing indicator and file chunks publish nothing. -/
def handleMessage (config : ConfigDto) (peer : Peer) (s : Surroundings) (message : MessageDto) :
    Answer × Peer × Room :=
  match message.code with
  | none => (.error (apiError (ascii "No message code provided.") none), peer, s.room)
  | some .peerMessage | some .fileShare => handleCommand config peer s message
  | some .peerIsTyping | some .fileChunkData => (.unanswered, peer, s.room)
  | some _ => (.error (apiError (ascii "Invalid client message code.") none), peer, s.room)

section Reading
variable (cast : Json.Numeral → Int)

/-- `readMessage` at the end of a message. -/
def readWhole (config : ConfigDto) (peer : Peer) (s : Surroundings) (data : Bytes) : Answer × Peer × Room :=
  match readFromString cast data with
  | none => (.error (apiError (ascii "Can't parse message") none), peer, s.room)
  | some none => (.error (apiError (ascii "No message provided.") none), peer, s.room)
  | some (some message) => handleMessage config peer s (peer.stamp message s.received)

/-- The parts of a message and then its end, up to the one that is answered. -/
def receiveParts (config : ConfigDto) (peer : Peer) (socket : Socket) (now : TimePoint) :
    List Bytes → Peer × Inbound
  | [] => peer.receive config socket [] now
  | part :: rest =>
    match peer.receive config socket part now with
    | (next, .stored) => receiveParts config next socket now rest
    | other => other

def sizeError : MessageDto := apiError (ascii "Message size exceeds max allowed size.") none

/-- `readMessage` for all parts of a message. -/
def answer (config : ConfigDto) (peer : Peer) (socket : Socket) (now : TimePoint) (s : Surroundings)
    (parts : List Bytes) : Answer × Peer × Room :=
  match receiveParts config peer socket now parts with
  | (next, .whole data) => readWhole cast config next s data
  | (next, .tooLarge) => (.error sizeError, next, s.room)
  | (next, _) => (.unanswered, next, s.room)

end Reading

section Parts
variable {config : ConfigDto} {peer next after : Peer} {socket : Socket} {now : TimePoint} {parts : List Bytes}

/-- What a transport's parts leave of a peer. -/
structure Kept (peer next : Peer) : Prop where
  socket : next.socket = peer.socket
  room : next.room = peer.room
  nickname : next.nickname = peer.nickname
  peerId : next.peerId = peer.peerId
  files : next.files = peer.files
  dedupe : next.dedupe = peer.dedupe

theorem Kept.trans (first : Kept peer next) (second : Kept next after) : Kept peer after :=
  ⟨second.socket.trans first.socket, second.room.trans first.room, second.nickname.trans first.nickname,
    second.peerId.trans first.peerId, second.files.trans first.files, second.dedupe.trans first.dedupe⟩

theorem receive_kept (config : ConfigDto) (peer : Peer) (socket : Socket) (data : Bytes) (now : TimePoint) :
    Kept peer (peer.receive config socket data now).1 := by
  unfold Peer.receive
  split
  · exact ⟨rfl, rfl, rfl, rfl, rfl, rfl⟩
  · dsimp only
    split
    · exact ⟨rfl, rfl, rfl, rfl, rfl, rfl⟩
    · split <;> exact ⟨rfl, rfl, rfl, rfl, rfl, rfl⟩

/-- The parts of a message that is not too large are put together. -/
theorem receiveParts_current (config : ConfigDto) (now : TimePoint) (current : peer.socket = some socket)
    (solid : ∀ part ∈ parts, part ≠ [])
    (within : peer.messageBuffer.length ≤ config.maxMessageSizeBytes) :
    ∃ next, Kept peer next ∧ receiveParts config peer socket now parts =
      (next, if config.maxMessageSizeBytes < (peer.messageBuffer ++ parts.flatten).length then .tooLarge
        else .whole (peer.messageBuffer ++ parts.flatten)) := by
  induction parts generalizing peer with
  | nil =>
    rw [List.flatten_nil, List.append_nil, if_neg (Nat.not_lt.mpr within)]
    exact ⟨_, receive_kept _ _ _ [] _, Prod.ext rfl (by simp [receiveParts, Peer.receive, current])⟩
  | cons part rest ih =>
    have some_part := solid part List.mem_cons_self
    by_cases large : config.maxMessageSizeBytes < peer.messageBuffer.length + part.length
    · have refused : config.maxMessageSizeBytes < peer.messageBuffer.length ∨
          config.maxMessageSizeBytes - peer.messageBuffer.length < part.length := by omega
      have total : config.maxMessageSizeBytes < (peer.messageBuffer ++ (part :: rest).flatten).length := by
        simp only [List.flatten_cons, List.length_append]
        omega
      have outcome : (peer.receive config socket part now).2 = .tooLarge := by
        simp [Peer.receive, current, some_part, refused]
      have is : peer.receive config socket part now = ((peer.receive config socket part now).1, .tooLarge) :=
        Prod.ext rfl outcome
      rw [if_pos total]
      exact ⟨_, receive_kept _ _ _ part _, by rw [receiveParts, is]⟩
    · have taken : ¬ (config.maxMessageSizeBytes < peer.messageBuffer.length ∨
          config.maxMessageSizeBytes - peer.messageBuffer.length < part.length) := by omega
      have buffer : (peer.receive config socket part now).1.messageBuffer = peer.messageBuffer ++ part := by
        simp [Peer.receive, current, some_part, taken]
      have outcome : (peer.receive config socket part now).2 = .stored := by
        simp [Peer.receive, current, some_part, taken]
      have stored : peer.receive config socket part now = ((peer.receive config socket part now).1, .stored) :=
        Prod.ext rfl outcome
      have first := receive_kept config peer socket part now
      obtain ⟨next, kept, is⟩ := ih (first.socket.trans current)
        (fun part member => solid part (List.mem_cons_of_mem _ member)) (by rw [buffer, List.length_append]; omega)
      refine ⟨next, first.trans kept, ?_⟩
      rw [receiveParts, stored, List.flatten_cons, ← List.append_assoc, ← buffer]
      exact is

/-- Nothing else is read. -/
theorem receiveParts_other (other : peer.socket ≠ some socket) :
    receiveParts config peer socket now parts = (peer, .ignored) := by
  cases parts with
  | nil => simp [receiveParts, Peer.receive, Ne.symm other]
  | cons part rest => simp [receiveParts, Peer.receive, Ne.symm other]

/-- A new message of the current transport. -/
theorem answer_current (config : ConfigDto) (cast : Json.Numeral → Int) (now : TimePoint) (s : Surroundings)
    (current : peer.socket = some socket)
    (fresh : peer.messageBuffer = []) (solid : ∀ part ∈ parts, part ≠ []) :
    ∃ next, Kept peer next ∧ answer cast config peer socket now s parts =
      if config.maxMessageSizeBytes < parts.flatten.length then (.error sizeError, next, s.room)
      else readWhole cast config next s parts.flatten := by
  obtain ⟨next, kept, is⟩ := receiveParts_current config now current solid (by simp [fresh])
  rw [fresh, List.nil_append] at is
  refine ⟨next, kept, ?_⟩
  rw [answer, is]
  by_cases large : config.maxMessageSizeBytes < parts.flatten.length
  · simp only [if_pos large]
  · simp only [if_neg large]

/-- What is answered came on the current transport. -/
theorem answer_other (cast : Json.Numeral → Int) (s : Surroundings) (other : peer.socket ≠ some socket) :
    answer cast config peer socket now s parts = (.unanswered, peer, s.room) := by
  rw [answer, receiveParts_other other]

end Parts

section Handlers
variable {config : ConfigDto} {peer next host : Peer} {s : Surroundings} {message base : MessageDto} {room : Room}

/-- Sharing files leaves the window of commands as it is. -/
theorem prepare_dedupe (prepared : prepare peer room message now = some (registered, host, base)) :
    host.dedupe = peer.dedupe := by
  unfold prepare at prepared
  split at prepared
  · obtain ⟨⟨after, owner, files⟩, shared, is⟩ := Option.map_eq_some_iff.mp prepared
    cases is
    rw [(Room.shareFiles_eq_some shared).1]
    rfl
  · cases prepared
    rfl

theorem addHistoryMessage_open (config : ConfigDto) (unexhausted : room.sequencer.latest ≠ maxSequence)
    (message : MessageDto) :
    ∃ after, room.addHistoryMessage config message =
      some (after, { message with serverSeq := some (room.sequencer.latest + 1) }) := by
  unfold Room.addHistoryMessage RoomSequencer.next
  rw [if_neg unexhausted]
  dsimp only
  split
  · exact ⟨_, rfl⟩
  · exact ⟨_, rfl⟩
  · exact ⟨_, rfl⟩

/-- A command that is new and has room is published in a room with a number left, and acknowledged. -/
theorem handleCommand_published (config : ConfigDto) {id : Bytes} (checked : checkCommand message = none)
    (known : message.clientMessageId = some id) (new : peer.dedupe.find id = none)
    (space : peer.dedupe.full = false) (prepared : prepare peer s.room message s.shared = some (registered, host, base))
    (unexhausted : (s.meanwhile registered).sequencer.latest ≠ maxSequence) :
    let sequence := (s.meanwhile registered).sequencer.latest + 1
    let event := { base with serverSeq := some sequence }
    ∃ room dedupe, (s.meanwhile registered).addHistoryMessage config base = some (room, event) ∧
      peer.dedupe.remember id sequence = some dedupe ∧ handleCommand config peer s message =
        (.acknowledge (messageAck id sequence) (some event), { host with dedupe }, room) := by
  intro sequence event
  obtain ⟨room, added⟩ := addHistoryMessage_open config unexhausted base
  obtain ⟨given, is, valid⟩ := checkCommand_id checked
  rw [known] at is
  cases is
  have same := prepare_dedupe prepared
  obtain ⟨dedupe, recorded⟩ := DedupeWindow.remember_isSome valid
    (Nat.succ_pos (s.meanwhile registered).sequencer.latest) new space
  refine ⟨room, dedupe, added, recorded, ?_⟩
  simp [handleCommand, checked, known, new, space, prepared, added, same, recorded, sequence, event]

end Handlers

end Conspire.Frames
