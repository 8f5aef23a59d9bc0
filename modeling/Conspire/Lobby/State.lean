import Conspire.Server.Handlers
import Conspire.Server.History
import Mathlib.Data.List.Nodup
import Mathlib.Logic.Function.Basic

/-! The lobby (`rooms/Lobby.hpp`, `rooms/Lobby.cpp`): its rooms, the sessions by
the digest of their resume token, and the transports that have yet to send their
hello. Each function is one lock-delimited section; `acceptSessionHello` is what
they do when no other thread comes in between. -/
namespace Conspire
open Session Boundaries

structure SessionRecord where
  room : RoomId
  peer : PeerId
  digest : Bytes
  lease : SessionLease := {}
  deriving DecidableEq

/-- Room and peer objects are kept by their ids; a room may outlive its entry in
`m_rooms`. `invalidated` are the transports a resume has replaced. -/
@[ext]
structure Lobby where
  peerIdCounter : Nat := 1
  rooms : List (Bytes × RoomId) := []
  sessions : List (Bytes × SessionRecord) := []
  pending : List (Socket × TimePoint) := []
  room : RoomId → Room := fun _ => { name := [] }
  created : Nat := 0
  peer : PeerId → Option Peer := fun _ => none
  invalidated : List Socket := []

namespace Lobby
variable (lobby : Lobby)

def setRoom (id : RoomId) (room : Room) : Lobby :=
  { lobby with room := Function.update lobby.room id room }

def setPeer (id : PeerId) (peer : Peer) : Lobby :=
  { lobby with peer := Function.update lobby.peer id (some peer) }

def getOrCreateRoom (roomName : Bytes) : Lobby × Option RoomId :=
  match lobby.rooms.lookup roomName with
  | some id => (lobby, some id)
  | none =>
    if !hasCapacity lobby.rooms.length Limits.rooms then (lobby, none)
    else
      ({ lobby.setRoom lobby.created { name := roomName } with
          created := lobby.created + 1
          rooms := lobby.rooms ++ [(roomName, lobby.created)] }, some lobby.created)

def deleteRoomIfEmpty (room : RoomId) : Lobby :=
  if lobby.rooms.lookup (lobby.room room).name = some room && (lobby.room room).isEmpty then
    { lobby with rooms := lobby.rooms.filter fun entry => entry.1 ≠ (lobby.room room).name }
  else lobby

/-- `onAfterCreate_NonBlocking`. -/
def await (socket : Socket) (now : TimePoint) : Lobby :=
  { lobby with pending := lobby.pending ++ [(socket, now + pendingHelloPeriod)] }

/-- `m_pending.erase(socket.get())`. -/
def forgetPending (socket : Socket) : Lobby :=
  { lobby with pending := lobby.pending.filter fun entry => entry.1 ≠ socket }

/-- Exactly one application hello per transport. -/
def takePending (socket : Socket) (now : TimePoint) : Option Lobby :=
  match lobby.pending.lookup socket with
  | none => none
  | some deadline =>
    if deadline ≤ now then none
    else some (lobby.forgetPending socket)

def setSession (key : Bytes) (record : SessionRecord) : Lobby :=
  { lobby with sessions := lobby.sessions.map fun entry =>
      if entry.1 = key then (key, record) else entry }

/-- The registry section of a resume. -/
def resumeLease (digest roomName : Bytes) (now : TimePoint) : Option (Lobby × PeerId) :=
  match lobby.sessions.lookup digest with
  | none => none
  | some record =>
    if record.digest ≠ digest || (lobby.room record.room).name ≠ roomName then none
    else
      (record.lease.resume now).map fun lease =>
        (lobby.setSession digest { record with lease }, record.peer)

/-- `replaceSocket` on the peer; a transport it replaced is invalidated. -/
def replaceSocket (id : PeerId) (socket : Socket) (now : TimePoint) : Lobby :=
  match lobby.peer id with
  | none => lobby
  | some peer =>
    let (peer, replaced) := peer.replaceSocket socket now
    { lobby.setPeer id peer with
      invalidated := lobby.invalidated ++ (replaced.filter (· ≠ socket)).toList }

/-- A new peer is constructed. -/
def createPeer (socket : Socket) (room : RoomId) (nickname : Bytes) (now : TimePoint) :
    Lobby × PeerId :=
  let id := lobby.peerIdCounter
  ({ lobby.setPeer id (Peer.create socket room nickname id now) with peerIdCounter := id + 1 }, id)

def addPeer (room : RoomId) (peer : PeerId) : Option Lobby :=
  ((lobby.room room).addPeer peer).map (lobby.setRoom room)

/-- The membership section of `removePeerById`. -/
def erasePeer (room : RoomId) (peer : PeerId) : Lobby :=
  lobby.setRoom room ((lobby.room room).erasePeer peer)

/-- `m_sessions.emplace`: a known key keeps its record. -/
def insertSession (record : SessionRecord) : Lobby :=
  if (lobby.sessions.lookup record.digest).isSome then lobby
  else { lobby with sessions := lobby.sessions ++ [(record.digest, record)] }

/-- `publishDurable` as far as the room is concerned; `none` is its exception. -/
def publish (config : ConfigDto) (room : RoomId) (message : MessageDto) : Option Lobby :=
  ((lobby.room room).addHistoryMessage config message).map fun added => lobby.setRoom room added.1

def setFileCapability (id : PeerId) (capabilityId : Option Bytes) : Lobby × Bool :=
  match lobby.peer id with
  | none => (lobby, false)
  | some peer =>
    let (peer, changed) := peer.setFileCapability capabilityId
    (lobby.setPeer id peer, changed)

/-- The files of a peer leave both indexes. -/
def takeFiles (id : PeerId) : Lobby × List File :=
  match lobby.peer id with
  | none => (lobby, [])
  | some peer =>
    let (next, files) := peer.takeFilesSnapshot
    let room := lobby.room peer.room
    ((lobby.setPeer id next).setRoom peer.room
      { room with fileById := room.fileById.filter fun entry =>
          entry.1 ∉ files.map (·.serverFileId) }, files)

/-- The first session of the peer, if there is one, is detached. -/
def detachLease (id : PeerId) (now : TimePoint) : Lobby :=
  match lobby.sessions.find? fun entry => entry.2.peer = id with
  | none => lobby
  | some (key, record) => lobby.setSession key { record with lease := record.lease.detach now }

/-- The registry section of `expireSessions`, with the sessions it took out. -/
def expire (now : TimePoint) : Lobby × List SessionRecord :=
  ({ lobby with
      pending := lobby.pending.filter fun entry => now < entry.2
      sessions := lobby.sessions.filter fun entry => !entry.2.lease.expires now },
    (lobby.sessions.filter fun entry => entry.2.lease.expires now).map (·.2))

/-- `getPeers`. -/
def getPeers (room : RoomId) : List PeerDto :=
  (lobby.room room).peerById.filterMap fun id =>
    (lobby.peer id).map fun peer => { peerId := some peer.peerId, peerName := some peer.nickname }

end Lobby

/-- The announcement of `withdrawPeerFiles`, without its sequence. -/
def unavailableMessage (peer : Peer) (files : List File) : MessageDto :=
  { code := some .peerMessageFile, peerId := some peer.peerId, peerName := some peer.nickname
    files := some (files.map fun file =>
      some { serverFileId := some file.serverFileId, name := some file.fileName
             size := some file.fileSize, available := some false }) }

/-- A SESSION_HELLO whose fields are in order. -/
structure HelloFields where
  lastServerSeq : Nat
  fileCapabilityId : Bytes
  resumeToken : Option Bytes
  deriving DecidableEq

/-- The first checks of `acceptSessionHello`. -/
def checkHello (hello : Option MessageDto) : Option HelloFields :=
  match hello with
  | none => none
  | some hello =>
    if hello.code = some .sessionHello && hello.protocolVersion = some 2 then
      match hello.lastServerSeq, hello.fileCapabilityId with
      | some lastServerSeq, some fileCapabilityId =>
        if validBase64UrlId fileCapabilityId 16 then
          some { lastServerSeq, fileCapabilityId, resumeToken := hello.resumeToken }
        else none
      | _, _ => none
    else none

/-- The peer a hello was accepted for, and its SESSION_READY. -/
structure Accepted where
  peer : PeerId
  resumed : Bool
  ready : MessageDto

namespace Lobby
variable (config : ConfigDto) (digest : Bytes → Bytes)

/-- The SESSION_READY of a peer. -/
def ready (lobby : Lobby) (peer : Peer) (resumed : Bool) (token : Bytes) (cursor : Nat) : MessageDto :=
  let room := lobby.room peer.room
  let (history, resyncRequired) := room.getHistoryAfter cursor
  { code := some .sessionReady, protocolVersion := some 2, resumed := some resumed
    peerId := some peer.peerId, peerName := some peer.nickname
    peers := some ((lobby.getPeers peer.room).map some)
    latestServerSeq := some room.latestServerSeq
    history := some (history.map some), resyncRequired := some resyncRequired
    resumeToken := some token }

/-- The rest of `acceptSessionHello` for a peer that is bound to the socket. -/
def greet (lobby : Lobby) (id : PeerId) (resumed : Bool) (token : Bytes) (hello : HelloFields) :
    Lobby × Option Accepted :=
  let (lobby, changed) := lobby.setFileCapability id (some hello.fileCapabilityId)
  let (lobby, files) := if changed then lobby.takeFiles id else (lobby, [])
  match lobby.peer id with
  | none => (lobby, none)
  | some peer =>
    let announced :=
      if files.isEmpty then some lobby
      else lobby.publish config peer.room (unavailableMessage peer files)
    match announced with
    | none => (lobby, none)
    | some lobby =>
      (lobby, some { peer := id, resumed, ready := lobby.ready peer resumed token hello.lastServerSeq })

/-- A hello without a token; `made` is what `makeResumeToken` made. -/
def acceptFresh (lobby : Lobby) (socket : Socket) (roomName nickname : Bytes) (hello : HelloFields)
    (made : Option Bytes) (now : TimePoint) : Lobby × Option Accepted :=
  match made with
  | none => (lobby, none)
  | some token =>
    match lobby.getOrCreateRoom roomName with
    | (lobby, none) => (lobby, none)
    | (lobby, some room) =>
      if !(lobby.room room).hasPeerCapacity then (lobby, none)
      else
        let (lobby, id) := lobby.createPeer socket room nickname now
        match lobby.addPeer room id with
        | none => (lobby, none)
        | some lobby =>
          let lobby := lobby.insertSession { room, peer := id, digest := digest token }
          match lobby.publish config room (joinedMessage id nickname) with
          | none => (lobby, none)
          | some lobby => lobby.greet config id false token hello

/-- A hello with a token. -/
def acceptResume (lobby : Lobby) (socket : Socket) (roomName : Bytes) (hello : HelloFields)
    (token : Bytes) (now : TimePoint) : Lobby × Option Accepted :=
  if !validBase64UrlId token 32 then (lobby, none)
  else
    match lobby.resumeLease (digest token) roomName now with
    | none => (lobby, none)
    | some (lobby, id) => (lobby.replaceSocket id socket now).greet config id true token hello

/-- Without a peer the hello is rejected; a sequence that is exhausted throws, and
the hello is then rejected too. -/
def acceptSessionHello (lobby : Lobby) (socket : Socket) (roomName nickname : Bytes)
    (hello : Option MessageDto) (made : Option Bytes) (now : TimePoint) : Lobby × Option Accepted :=
  match checkHello hello with
  | none => (lobby, none)
  | some hello =>
    match lobby.takePending socket now with
    | none => (lobby, none)
    | some lobby =>
      match hello.resumeToken with
      | some token => lobby.acceptResume config digest socket roomName hello token now
      | none => lobby.acceptFresh config digest socket roomName nickname hello made now

end Lobby
end Conspire
