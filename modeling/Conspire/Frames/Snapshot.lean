import Conspire.Frames.Acknowledged
import Conspire.Lobby.Admission
import Mathlib.Algebra.Order.BigOperators.Group.List

/-! The SESSION_READY of an accepted hello at its browser. It holds the members of the room and the
retained events after the cursor; the server bounds their numbers and the bytes of one command, the
browser the characters of the whole frame. -/
namespace Conspire.Frames
open Session Browser Sessions

section Widths
variable {lobby : Lobby} {host : Peer}

/-- The peers that `getPeers` lists. -/
def members (lobby : Lobby) (room : RoomId) : List Peer := (lobby.room room).peerById.filterMap lobby.peer

def truthWidth (value : Bool) : Nat := if value then 4 else 5

/-- The characters of an array whose elements take so many. -/
def listWidth (widths : List Nat) : Nat := 1 + max 1 (widths.map (· + 1)).sum

/-- The characters of a peer in the list of members. -/
def memberWidth (peer : Peer) : Nat :=
  1 + (fieldWidth "peerId" (Json.decimal peer.peerId).length + fieldWidth "peerName" (stringWidth peer.nickname))

/-- The characters of a SESSION_READY. -/
def snapshotWidth (lobby : Lobby) (host : Peer) (resumed : Bool) (token : Bytes) (cursor : Nat) : Nat :=
  let room := lobby.room host.room
  let (history, resyncRequired) := room.getHistoryAfter cursor
  1 + (fieldWidth "peerId" (Json.decimal host.peerId).length + fieldWidth "peerName" (stringWidth host.nickname) +
    fieldWidth "code" 2 + fieldWidth "latestServerSeq" (Json.decimal room.latestServerSeq).length +
    fieldWidth "protocolVersion" 1 + fieldWidth "resumeToken" (stringWidth token) +
    fieldWidth "resumed" (truthWidth resumed) + fieldWidth "resyncRequired" (truthWidth resyncRequired) +
    fieldWidth "peers" (listWidth ((members lobby host.room).map memberWidth)) +
    fieldWidth "history" (listWidth (history.map fun event => (messageTree event).width)))

/-- The strings can be spelled and the frame is not too long. -/
def SnapshotFits (lobby : Lobby) (host : Peer) (resumed : Bool) (token : Bytes) (cursor : Nat) : Prop :=
  (legible host.nickname = true ∧ legible token = true ∧
    (∀ peer ∈ members lobby host.room, legible peer.nickname = true) ∧
    ∀ event ∈ ((lobby.room host.room).getHistoryAfter cursor).1, (messageTree event).legible = true) ∧
  snapshotWidth lobby host resumed token cursor ≤ 8192

theorem peerTree_members (lobby : Lobby) (room : RoomId) :
    vector peerTree ((lobby.getPeers room).map some) = .vector ((members lobby room).map fun peer =>
      peerTree { peerId := some peer.peerId, peerName := some peer.nickname }) := by
  rw [vector, Boundaries.reduceOption_map_some, Lobby.getPeers, members, ← List.map_filterMap, List.map_map]
  rfl

theorem messageTrees_some (history : List MessageDto) :
    messageTrees (history.map some) = history.map messageTree := by
  induction history with
  | nil => rw [List.map_nil, messageTrees, List.map_nil]
  | cons event history ih => rw [List.map_cons, messageTrees, ih, List.map_cons]

theorem memberTree (peer : Peer) :
    let tree := peerTree { peerId := some peer.peerId, peerName := some peer.nickname }
    tree.width = memberWidth peer ∧ tree.legible = legible peer.nickname := by
  constructor
  · simp only [peerTree, object_width, List.map_cons, List.map_nil, List.sum_cons, List.sum_nil, Option.map_some,
      Option.elim_some, Tree.width, memberWidth]
    have positive : 0 < fieldWidth "peerId" (Json.decimal peer.peerId).length := Nat.succ_pos _
    omega
  · have plain : ∀ name ∈ ["peerId", "peerName"], Plain (ascii name) := by decide
    rw [peerTree, object_legible]
    · simp only [List.all_cons, List.all_nil, Option.map_some, Option.all_some, Tree.legible, Bool.true_and,
        Bool.and_true]
    · exact fun field member => plain field.1 (List.mem_map_of_mem (f := Prod.fst) member)

theorem vectorTree_width (trees : List Tree) : (Tree.vector trees).width = listWidth (trees.map Tree.width) := by
  have items := itemsWidth_map (fun tree : Tree => tree) trees
  rw [List.map_id'] at items
  rw [Tree.width, items, listWidth, List.map_map]
  rfl

theorem vectorTree_legible (trees : List Tree) :
    (Tree.vector trees).legible = true ↔ ∀ tree ∈ trees, tree.legible = true := by
  have items := legibleItems_map (fun tree : Tree => tree) trees
  rw [List.map_id'] at items
  rw [Tree.legible, items, List.all_eq_true]

theorem ready_width (lobby : Lobby) (host : Peer) (resumed : Bool) (token : Bytes) (cursor : Nat) :
    (messageTree (lobby.ready host resumed token cursor)).width = snapshotWidth lobby host resumed token cursor := by
  have code : (Json.decimal (MessageCodes.sessionReady.value : Int)).length = 2 := by decide
  have version : (Json.decimal 2).length = 1 := by decide
  have peers : (members lobby host.room).map (Tree.width ∘ fun peer =>
      peerTree { peerId := some peer.peerId, peerName := some peer.nickname }) =
        (members lobby host.room).map memberWidth :=
    List.map_congr_left fun peer _ => (memberTree peer).1
  simp only [Lobby.ready, messageTree, historyTree, object_width, List.map_cons, List.map_nil, List.sum_cons,
    List.sum_nil, Option.map_some, Option.map_none, Option.elim_some, Option.elim_none, natural, peerTree_members,
    messageTrees_some, vectorTree_width, List.map_map, peers]
  simp only [Tree.width, snapshotWidth, truthWidth, Function.comp_def, code, version]
  have positive : 0 < fieldWidth "code" 2 := Nat.succ_pos _
  omega

theorem ready_legible (lobby : Lobby) (host : Peer) (resumed : Bool) (token : Bytes) (cursor : Nat) :
    (messageTree (lobby.ready host resumed token cursor)).legible = true ↔
      legible host.nickname = true ∧ legible token = true ∧
        (∀ peer ∈ members lobby host.room, legible peer.nickname = true) ∧
        ∀ event ∈ ((lobby.room host.room).getHistoryAfter cursor).1, (messageTree event).legible = true := by
  have plain : ∀ (field : String × Option Tree), field.1 ∈ messageNames → Plain (ascii field.1) :=
    fun field => messageNames_named.2 field.1
  have peers : ((Tree.vector ((members lobby host.room).map fun peer =>
      peerTree { peerId := some peer.peerId, peerName := some peer.nickname })).legible = true) ↔
        ∀ peer ∈ members lobby host.room, legible peer.nickname = true := by
    rw [vectorTree_legible, List.forall_mem_map]
    simp only [(memberTree _).2]
  have history : ((Tree.vector (((lobby.room host.room).getHistoryAfter cursor).1.map messageTree)).legible = true) ↔
      ∀ event ∈ ((lobby.room host.room).getHistoryAfter cursor).1, (messageTree event).legible = true := by
    rw [vectorTree_legible, List.forall_mem_map]
  rw [Lobby.ready, messageTree, object_legible]
  · simp only [historyTree, List.all_cons, List.all_nil, Option.map_some, Option.map_none, Option.all_some,
      Option.all_none, natural, peerTree_members, messageTrees_some]
    rw [← peers, ← history]
    simp only [Tree.legible, Bool.and_eq_true, Bool.true_and, Bool.and_true]
  · exact fun field member => plain field (List.mem_map_of_mem (f := Prod.fst) member)

/-- A SESSION_READY is handed to the page if and only if it fits. -/
theorem ready_received (lobby : Lobby) (host : Peer) (resumed : Bool) (token : Bytes) (cursor : Nat) :
    (receive (writeToString (lobby.ready host resumed token cursor))).isSome ↔
      SnapshotFits lobby host resumed token cursor := by
  rw [receive_message _ (show _ = some MessageCodes.sessionReady from rfl), ready_width, ready_legible, SnapshotFits]

end Widths

section Hellos
variable {config : ConfigDto} {digest : Bytes → Bytes} {lobby after : Lobby} {accepted : Accepted} {who : PeerId}
  {token : Bytes} {fields : HelloFields}

/-- The SESSION_READY is made of the lobby that the hello leaves. -/
theorem greet_ready (greeted : lobby.greet config who resumed token fields = (after, some accepted)) :
    ∃ host, after.peer accepted.peer = some host ∧
      accepted.ready = after.ready host accepted.resumed token fields.lastServerSeq := by
  unfold Lobby.greet at greeted
  generalize lobby.setFileCapability who (some fields.fileCapabilityId) = capable at greeted
  dsimp only at greeted
  generalize (if capable.2 = true then capable.1.takeFiles who else (capable.1, [])) = emptied at greeted
  split at greeted
  · cases greeted
  · rename_i host known
    split at greeted
    · cases greeted
    · rename_i last announced
      cases greeted
      refine ⟨host, ?_, rfl⟩
      split at announced
      · cases announced
        exact known
      · rw [(publish_keeps announced).1]
        exact known

theorem acceptFresh_ready {made : Option Bytes}
    (result : lobby.acceptFresh config digest socket roomName nickname fields made now = (after, some accepted)) :
    ∃ host, after.peer accepted.peer = some host ∧
      accepted.ready = after.ready host accepted.resumed (made.getD []) fields.lastServerSeq := by
  unfold Lobby.acceptFresh at result
  split at result
  · cases result
  · split at result
    · cases result
    · split at result
      · cases result
      · dsimp only at result
        split at result
        · cases result
        · split at result
          · cases result
          · exact greet_ready result

theorem acceptResume_ready
    (result : lobby.acceptResume config digest socket roomName fields token now = (after, some accepted)) :
    ∃ host, after.peer accepted.peer = some host ∧
      accepted.ready = after.ready host accepted.resumed token fields.lastServerSeq := by
  unfold Lobby.acceptResume at result
  split at result
  · cases result
  · split at result
    · cases result
    · exact greet_ready result

/-- So it is for any hello that is accepted. -/
theorem acceptSessionHello_ready (checked : checkHello hello = some fields)
    (result : lobby.acceptSessionHello config digest socket roomName nickname hello made now = (after, some accepted)) :
    ∃ host, after.peer accepted.peer = some host ∧ accepted.ready =
      after.ready host accepted.resumed ((fields.resumeToken.or made).getD []) fields.lastServerSeq := by
  unfold Lobby.acceptSessionHello at result
  rw [checked] at result
  dsimp only at result
  split at result
  · cases result
  · split at result
    · rename_i token carried
      rw [carried]
      exact acceptResume_ready result
    · rename_i carried
      rw [carried]
      exact acceptFresh_ready result

end Hellos

section Runs
variable (config : ConfigDto) (digest : Bytes → Bytes) (cast : Json.Numeral → Int)

/-- A hello that was accepted: the lobby it found and the one it left, the names it came with, its
fields, and the token that was made for it. -/
structure Greeting where
  before : Lobby
  lobby : Lobby
  roomName : Bytes
  nickname : Bytes
  fields : HelloFields
  made : Option Bytes
  accepted : Accepted

/-- The snapshot of the greeting can be spelled and is not too long. -/
def Greeting.Fits (greeting : Greeting) : Prop :=
  ∃ host, greeting.lobby.peer greeting.accepted.peer = some host ∧
    SnapshotFits greeting.lobby host greeting.accepted.resumed
      ((greeting.fields.resumeToken.or greeting.made).getD []) greeting.fields.lastServerSeq

/-- The lobbies that transports, hellos, messages and lost transports lead to, one at a time, with the
hellos that were accepted on the way. -/
inductive Visited : Lobby → List Greeting → Prop where
  | start : Visited {} []
  | create {lobby : Lobby} : Visited lobby greetings → Visited (lobby.await socket now) greetings
  | reject {lobby after : Lobby} : Visited lobby greetings →
      lobby.acceptSessionHello config digest socket roomName nickname hello made now = (after, none) →
      Visited after greetings
  | accept {lobby after : Lobby} : Visited lobby greetings → checkHello hello = some fields →
      lobby.acceptSessionHello config digest socket roomName nickname hello made now = (after, some accepted) →
      Visited after (greetings ++ [⟨lobby, after, roomName, nickname, fields, made, accepted⟩])
  | message {lobby : Lobby} : Visited lobby greetings → lobby.peer who = some peer →
      answer cast config peer socket now ⟨lobby.room peer.room, fun room => room, clock, later⟩ parts =
        (outcome, next, room) →
      Visited ((lobby.setPeer who next).setRoom peer.room room) greetings
  | lose {lobby : Lobby} : Visited lobby greetings → lobby.peer who = some peer →
      peer.detachIfCurrent socket = (next, true) →
      Visited ((lobby.setPeer who next).detachLease who now) greetings

variable {config : ConfigDto} {digest : Bytes → Bytes} {cast : Json.Numeral → Int} {lobby : Lobby}
  {greetings : List Greeting} {greeting : Greeting}

/-- Every SESSION_READY of a run was made of the lobby its hello left. -/
theorem Visited.ready (visited : Visited config digest cast lobby greetings) (member : greeting ∈ greetings) :
    ∃ host, greeting.lobby.peer greeting.accepted.peer = some host ∧ greeting.accepted.ready =
      greeting.lobby.ready host greeting.accepted.resumed ((greeting.fields.resumeToken.or greeting.made).getD [])
        greeting.fields.lastServerSeq := by
  induction visited with
  | start => exact absurd member List.not_mem_nil
  | create _ ih => exact ih member
  | reject _ _ ih => exact ih member
  | accept _ checked result ih =>
    rcases List.mem_append.mp member with before | last
    · exact ih before
    · cases List.mem_singleton.mp last
      exact acceptSessionHello_ready checked result
  | message _ _ _ ih => exact ih member
  | lose _ _ _ ih => exact ih member

/-- In every run a snapshot is read by its browser if and only if it fits. -/
theorem snapshot_received (visited : Visited config digest cast lobby greetings) (member : greeting ∈ greetings) :
    (receive (writeToString greeting.accepted.ready)).isSome ↔ greeting.Fits := by
  obtain ⟨host, known, is⟩ := visited.ready member
  rw [is, ready_received]
  constructor
  · exact fun fits => ⟨host, known, fits⟩
  · rintro ⟨other, here, fits⟩
    rw [known] at here
    cases here
    exact fits

end Runs

section Examples
variable {config : ConfigDto} {digest : Bytes → Bytes} {lobby : Lobby} {host : Peer} {room : RoomId}

/-- The events of a snapshot are in its frame. -/
theorem snapshotWidth_events {events : List MessageDto} (resumed : Bool) (token : Bytes)
    (replayed : events.Sublist ((lobby.room host.room).getHistoryAfter cursor).1) :
    (events.map fun event => (messageTree event).width).sum ≤ snapshotWidth lobby host resumed token cursor := by
  have widths := (replayed.map fun event => (messageTree event).width + 1).sum_le_sum fun _ _ => Nat.zero_le _
  have smaller : (events.map fun event => (messageTree event).width).sum ≤
      (events.map fun event => (messageTree event).width + 1).sum :=
    List.sum_le_sum fun event _ => Nat.le_succ _
  simp only [snapshotWidth, fieldWidth, listWidth, List.map_map, Function.comp_def]
  omega

/-- Retained events after the cursor are replayed. -/
theorem getHistoryAfter_sublist {room : Room} {events : List MessageDto} (retained : events.Sublist room.history)
    (later : ∀ event ∈ events, Room.isAfter cursor event = true) :
    events.Sublist (room.getHistoryAfter cursor).1 := by
  have all : events.filter (fun event => (room.getHistoryAfter cursor).2 || Room.isAfter cursor event) = events :=
    List.filter_eq_self.mpr fun event member => by rw [later event member, Bool.or_true]
  rw [← all]
  exact retained.filter _

theorem messageTree_text {message : MessageDto} (text : message.message = some content) :
    stringWidth content ≤ (messageTree message).width := by
  cases message
  cases text
  simp only [messageTree, object_width, List.map_cons, List.map_nil, List.sum_cons, List.sum_nil, Option.map_some,
    Option.elim_some, Tree.width]
  have field : stringWidth content ≤ fieldWidth "message" (stringWidth content) := by
    rw [fieldWidth]
    omega
  omega

/-- A hello without a token joins a room with space in it and a number left for it. -/
theorem acceptFresh_joins (config : ConfigDto) (digest : Bytes → Bytes) (socket : Socket) (nickname token : Bytes)
    (now : TimePoint) (fields : HelloFields) (found : lobby.rooms.lookup roomName = some room)
    (capacity : (lobby.room room).hasPeerCapacity = true)
    (new : lobby.peerIdCounter ∉ (lobby.room room).peerById)
    (unexhausted : (lobby.room room).sequencer.latest ≠ maxSequence) :
    ∃ after accepted joined event host,
      lobby.acceptFresh config digest socket roomName nickname fields (some token) now = (after, some accepted) ∧
      Room.addHistoryMessage config
        { lobby.room room with peerById := (lobby.room room).peerById ++ [lobby.peerIdCounter] }
        (joinedMessage lobby.peerIdCounter nickname) = some (joined, event) ∧
      after.room room = joined ∧ after.peer accepted.peer = some host ∧ host.room = room := by
  have known : lobby.getOrCreateRoom roomName = (lobby, some room) := by simp [Lobby.getOrCreateRoom, found]
  obtain ⟨created, made, owner, kept, registry⟩ := @createPeer_spec lobby socket room nickname now
  have joins := @addPeer_spec created lobby.peerIdCounter room (by rw [kept, capacity]) (by rw [kept]; exact new)
  rw [kept] at joins
  obtain ⟨full, is⟩ : ∃ full : Room, full =
      { lobby.room room with peerById := (lobby.room room).peerById ++ [lobby.peerIdCounter] } := ⟨_, rfl⟩
  rw [← is] at joins
  obtain ⟨joined, added⟩ := addHistoryMessage_open config (show full.sequencer.latest ≠ maxSequence by rwa [is])
    (joinedMessage lobby.peerIdCounter nickname)
  obtain ⟨registered, is'⟩ : ∃ registered, registered = (created.setRoom room full).insertSession
      { room, peer := lobby.peerIdCounter, digest := digest token } := ⟨_, rfl⟩
  have here : registered.room room = full := by simp [is', (insertSession_keeps _).2, Lobby.setRoom]
  have published : registered.publish config room (joinedMessage lobby.peerIdCounter nickname) =
      some (registered.setRoom room joined) := by
    rw [Lobby.publish, here, added]
    rfl
  have bound : (registered.setRoom room joined).peer lobby.peerIdCounter =
      some (Peer.create socket room nickname lobby.peerIdCounter now) := by
    simp [is', Lobby.setRoom, (insertSession_keeps _).1, owner]
  obtain ⟨ready, greeted⟩ := @greet_fresh config _ _ _ bound rfl false token fields
  have accepts : lobby.acceptFresh config digest socket roomName nickname fields (some token) now =
      ((registered.setRoom room joined).setPeer lobby.peerIdCounter
        { Peer.create socket room nickname lobby.peerIdCounter now with fileCapabilityId := fields.fileCapabilityId },
        some { peer := lobby.peerIdCounter, resumed := false, ready }) := by
    simp only [Lobby.acceptFresh, known, capacity, Bool.not_true, Bool.false_eq_true, if_false, made, joins, ← is',
      published]
    exact greeted
  refine ⟨_, _, joined, _, _, accepts, by rw [← is]; exact added, ?_, Function.update_self .., rfl⟩
  exact Function.update_self ..

theorem hello_joins (config : ConfigDto) (digest : Bytes → Bytes) (socket : Socket) (nickname token : Bytes)
    (now : TimePoint) {fields : HelloFields} (checked : checkHello hello = some fields)
    (tokenless : fields.resumeToken = none) (unheard : lobby.pending.lookup socket = none)
    (found : lobby.rooms.lookup roomName = some room) (capacity : (lobby.room room).hasPeerCapacity = true)
    (new : lobby.peerIdCounter ∉ (lobby.room room).peerById)
    (unexhausted : (lobby.room room).sequencer.latest ≠ maxSequence) :
    ∃ after accepted joined event host,
      (lobby.await socket now).acceptSessionHello config digest socket roomName nickname hello (some token) now =
        (after, some accepted) ∧
      Room.addHistoryMessage config
        { lobby.room room with peerById := (lobby.room room).peerById ++ [lobby.peerIdCounter] }
        (joinedMessage lobby.peerIdCounter nickname) = some (joined, event) ∧
      after.room room = joined ∧ after.peer accepted.peer = some host ∧ host.room = room := by
  have taken : (lobby.await socket now).takePending socket now = some ((lobby.await socket now).forgetPending socket) :=
    takePending_cases.resolve_left (takePending_await unheard)
  have bare : ((lobby.await socket now).forgetPending socket).rooms.lookup roomName = some room := found
  obtain ⟨after, accepted, joined, event, host, accepts, rest⟩ :=
    acceptFresh_joins config digest socket nickname token now fields bare capacity new unexhausted
  refine ⟨after, accepted, joined, event, host, ?_, rest⟩
  rw [Lobby.acceptSessionHello, checked]
  dsimp only
  rw [taken]
  dsimp only
  rw [tokenless]
  exact accepts

theorem encoded_letters (n : Nat) : encoded (List.replicate n 0x61) = (List.replicate n [0x61]).flatten := by
  have character : String.utf8EncodeChar (Char.ofNat (0x61 : UInt16).toNat) = [0x61] := by decide
  rw [encoded, List.flatMap_replicate, character]

theorem length_letters (n : Nat) : (encoded (List.replicate n 0x61)).length = n := by
  rw [encoded_letters, List.length_flatten, List.map_replicate, List.sum_replicate_nat]
  exact Nat.mul_one n

theorem letters_bytes {n : Nat} : ∀ byte ∈ encoded (List.replicate n 0x61), byte = 0x61 := by
  intro byte member
  rw [encoded_letters, List.mem_flatten] at member
  obtain ⟨part, inside, here⟩ := member
  rw [(List.mem_replicate.mp inside).2] at here
  exact List.mem_singleton.mp here

theorem letters_width (n : Nat) : stringWidth (encoded (List.replicate n 0x61)) = n + 2 := by
  rw [stringWidth, encoded_letters, escapedSize_replicate 0x61 [] (by decide)]
  exact congrArg (· + 2) (Nat.mul_one n)

/-- A text of 4096 letters, as many as the text area takes. -/
def letters : Command :=
  { code := .peerMessage, message := some (List.replicate 4096 0x61), clientMessageId := List.replicate 22 0x41 }

theorem letters_chat : Chat letters (List.replicate 4096 0x61) where
  code := rfl
  message := rfl
  files := rfl
  id := by decide
  whole unit member := by
    rw [(List.mem_replicate.mp member).2]
    decide
  inside byte member := by
    rw [letters_bytes byte member]
    decide
  content := by
    rw [Boundaries.validMessageContent, length_letters, Bool.and_eq_true, Bool.not_eq_true',
      Boundaries.containsControl,
      List.any_eq_false]
    refine ⟨by decide, fun byte member => ?_⟩
    rw [letters_bytes byte member]
    decide

/-- A participant who has sent nothing. -/
def silent (socket : Socket) (nickname : Bytes) (who : PeerId) : Peer :=
  { Peer.create socket 0 nickname who 0 with fileCapabilityId := capabilityFirst }

/-- The event of a participant's 4096 letters. -/
def lettersEvent (peer : Peer) (sequence : Nat) : MessageDto :=
  { chatEvent peer letters (List.replicate 4096 0x61) 0 with serverSeq := some sequence }

theorem lettersEvent_width (peer : Peer) (sequence : Nat) :
    4098 ≤ (messageTree (lettersEvent peer sequence)).width := by
  have text := messageTree_text (show (lettersEvent peer sequence).message = some _ from rfl)
  rwa [letters_width] at text

theorem silent_posts {greetings : List Greeting} {cast : Json.Numeral → Int} (socket : Socket)
    (visited : Visited {} digest cast lobby greetings) (known : lobby.peer who = some (silent socket nickname who))
    (unexhausted : (lobby.room 0).sequencer.latest ≠ maxSequence) :
    ∃ next room, Visited {} digest cast ((lobby.setPeer who next).setRoom 0 room) greetings ∧
      room.peerById = (lobby.room 0).peerById ∧ room.sequencer = { latest := (lobby.room 0).sequencer.latest + 1 } ∧
      room.history = Boundaries.retainLast ((lobby.room 0).history ++
        [lettersEvent (silent socket nickname who) ((lobby.room 0).sequencer.latest + 1)]) 100 := by
  have fits : (encoded (List.replicate 4096 0x61)).length + letters.clientMessageId.length + 44 ≤ 8 * 1024 := by
    rw [length_letters]
    decide
  obtain ⟨next, room, dedupe, -, added, -, is⟩ := letters_chat.answer {} cast 0 ⟨lobby.room 0, fun room => room, 0, 0⟩
    (show (silent socket nickname who).socket = some socket from rfl) rfl fits rfl rfl unexhausted
  obtain ⟨-, rfl⟩ := Room.addHistoryMessage_eq_some added
  exact ⟨_, _, .message visited known is, rfl, rfl, rfl⟩

def greetingFirst : HelloFields :=
  { lastServerSeq := 0, fileCapabilityId := capabilityFirst, resumeToken := none }

/-- Two hellos of one room. -/
theorem two_join (cast : Json.Numeral → Int) : ∃ lobby greetings, Visited {} digestFirst cast lobby greetings ∧
    lobby.rooms = [([0x78], 0)] ∧ lobby.pending = [] ∧ lobby.peerIdCounter = 3 ∧
    lobby.peer 1 = some (silent 0 [0x41] 1) ∧ lobby.peer 2 = some (silent 1 [0x42] 2) ∧
    (lobby.room 0).peerById = [1, 2] ∧ (lobby.room 0).sequencer = { latest := 2 } ∧
    (lobby.room 0).history = [{ joinedMessage 1 [0x41] with serverSeq := some 1 },
      { joinedMessage 2 [0x42] with serverSeq := some 2 }] := by
  have checked : checkHello (some helloFirst) = some greetingFirst := rfl
  have waiting : Visited {} digestFirst cast (Lobby.await {} 0 0) [] := .create .start
  have first := waiting.accept checked
    (show Lobby.acceptSessionHello {} digestFirst _ 0 [0x78] [0x41] _ (some tokenFirst) 0 = (_, some _) from rfl)
  have waits : Visited {} digestFirst cast (Lobby.await _ 1 0) _ := first.create
  have second := waits.accept checked
    (show Lobby.acceptSessionHello {} digestFirst _ 1 [0x78] [0x42] _ (some (List.replicate 43 0x42)) 0 =
      (_, some _) from rfl)
  exact ⟨_, _, second, rfl, rfl, rfl, rfl, rfl, rfl, rfl, rfl⟩

/-- And a text of each. -/
theorem two_write (cast : Json.Numeral → Int) : ∃ lobby greetings, Visited {} digestFirst cast lobby greetings ∧
    lobby.rooms = [([0x78], 0)] ∧ lobby.pending = [] ∧ lobby.peerIdCounter = 3 ∧
    (lobby.room 0).peerById = [1, 2] ∧ (lobby.room 0).sequencer = { latest := 4 } ∧
    (lobby.room 0).history = [{ joinedMessage 1 [0x41] with serverSeq := some 1 },
      { joinedMessage 2 [0x42] with serverSeq := some 2 }, lettersEvent (silent 0 [0x41] 1) 3,
      lettersEvent (silent 1 [0x42] 2) 4] := by
  have unexhausted : ∀ n < 10, n ≠ maxSequence := by
    intro n small
    rw [maxSequence]
    omega
  obtain ⟨lobby, greetings, joined, rooms, pending, counter, one, two, members, sequencer, history⟩ := two_join cast
  obtain ⟨next, room, written, listed, numbered, kept⟩ :=
    silent_posts 0 joined one (by rw [sequencer]; exact unexhausted 2 (by omega))
  have here : ((lobby.setPeer 1 next).setRoom 0 room).room 0 = room := by simp [Lobby.setRoom]
  have other : ((lobby.setPeer 1 next).setRoom 0 room).peer 2 = some (silent 1 [0x42] 2) := by
    simp [Lobby.setRoom, Lobby.setPeer, two]
  obtain ⟨last, after, answered, listed', numbered', kept'⟩ :=
    silent_posts 1 written other (by rw [here, numbered, sequencer]; exact unexhausted 3 (by omega))
  rw [here, listed, members] at listed'
  rw [here, numbered, sequencer] at numbered'
  rw [here, kept, numbered, sequencer, history] at kept'
  have final : ((((lobby.setPeer 1 next).setRoom 0 room).setPeer 2 last).setRoom 0 after).room 0 = after := by
    simp [Lobby.setRoom]
  exact ⟨_, _, answered, rooms, pending, counter, by rw [final, listed'], by rw [final, numbered'],
    by rw [final, kept']; rfl⟩

/-- Two members have each written a text, and for a third the room has become too large. -/
theorem room_overfull : ∃ lobby greetings greeting, Visited {} digestFirst (fun _ => 0) lobby greetings ∧
    greeting ∈ greetings ∧ ¬ greeting.Fits := by
  obtain ⟨lobby, greetings, written, rooms, pending, counter, members, sequencer, history⟩ := two_write fun _ => 0
  have capacity : (lobby.room 0).hasPeerCapacity = true := by
    rw [Room.hasPeerCapacity, members]
    rfl
  have outside : lobby.peerIdCounter ∉ (lobby.room 0).peerById := by
    rw [counter, members]
    decide
  have unexhausted : (lobby.room 0).sequencer.latest ≠ maxSequence := by
    rw [sequencer]
    decide
  have checked : checkHello (some helloFirst) = some greetingFirst := rfl
  obtain ⟨after, accepted, joined, event, host, result, added, here, known, home⟩ :=
    hello_joins {} digestFirst 2 [0x43] (List.replicate 43 0x43) 0 checked rfl (by rw [pending]; rfl)
      (show lobby.rooms.lookup [0x78] = some 0 by rw [rooms]; rfl) capacity outside unexhausted
  have waiting : Visited {} digestFirst (fun _ => 0) (lobby.await 2 0) greetings := .create written
  have visited := waiting.accept checked result
  refine ⟨_, _, _, visited, List.mem_append_right _ (List.mem_singleton_self _), ?_⟩
  rintro ⟨other, known', fits⟩
  rw [known] at known'
  cases known'
  have kept : joined.history = Boundaries.retainLast ((lobby.room 0).history ++ [event]) 100 := by
    have limit : ¬ historyLimit {} = 0 := by decide
    rw [(Room.addHistoryMessage_eq_some added).2, if_neg limit]
    rfl
  have replayed : [lettersEvent (silent 0 [0x41] 1) 3, lettersEvent (silent 1 [0x42] 2) 4].Sublist
      ((after.room host.room).getHistoryAfter 0).1 := by
    have both : [lettersEvent (silent 0 [0x41] 1) 3, lettersEvent (silent 1 [0x42] 2) 4].Sublist joined.history := by
      rw [kept, history]
      exact .cons _ (.cons _ (.cons_cons _ (.cons_cons _ (List.nil_sublist _))))
    rw [home, here]
    exact getHistoryAfter_sublist both (by decide)
  have long := snapshotWidth_events accepted.resumed (List.replicate 43 0x43) replayed
  have first := lettersEvent_width (silent 0 [0x41] 1) 3
  have second := lettersEvent_width (silent 1 [0x42] 2) 4
  simp only [List.map_cons, List.map_nil, List.sum_cons, List.sum_nil] at long
  have short : snapshotWidth after host accepted.resumed (List.replicate 43 0x43) 0 ≤ 8192 := fits.2
  omega

/-- The third member cannot read the room. -/
theorem snapshot_unseen : ∃ lobby greetings greeting, Visited {} digestFirst (fun _ => 0) lobby greetings ∧
    greeting ∈ greetings ∧ ¬ (receive (writeToString greeting.accepted.ready)).isSome := by
  obtain ⟨lobby, greetings, greeting, visited, member, overfull⟩ := room_overfull
  exact ⟨lobby, greetings, greeting, visited, member,
    fun read => overfull ((snapshot_received visited member).mp read)⟩

end Examples

end Conspire.Frames
