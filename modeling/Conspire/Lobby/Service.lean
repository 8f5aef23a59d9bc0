import Conspire.Library.Machine
import Conspire.Lobby.State

/-! The lobby under all its threads: hellos, frames, lost transports and passes of
`expireSessions`, with any step of one between two sections of another. -/
namespace Conspire.Sessions
open Session Boundaries Transition

/-- The sections a hello has left behind. -/
inductive Stage where
  | arrived
  | admitted
  -- with a token
  | leased (peer : PeerId)
  -- without one
  | placed (token : Bytes) (room : RoomId)
  | spacious (token : Bytes) (room : RoomId)
  | built (token : Bytes) (room : RoomId) (peer : PeerId)
  | added (token : Bytes) (room : RoomId) (peer : PeerId)
  | registered (room : RoomId) (peer : PeerId)
  -- both
  | bound (peer : PeerId)
  | changed (peer : PeerId)
  | withdrawing (peer : PeerId) (files : List File)
  | greeting (peer : PeerId)

structure Hello where
  roomName : Bytes
  nickname : Bytes
  fields : HelloFields
  now : TimePoint

/-- What the handler of a socket is doing. Between `serving` and `dispatching` it
takes and releases the `m_transportLock` of its peer. -/
inductive Role where
  | unborn
  | waiting (roomName nickname : Bytes)
  | hello (hello : Hello) (stage : Stage)
  | refused
  | serving (peer : PeerId)
  | dispatching (peer : PeerId)
  | losing (peer : PeerId)
  | gone

/-- No handler holds a section, nor has it left one with more to come. -/
def Role.idle : Role → Bool
  | .hello .. | .dispatching _ | .losing _ => false
  | _ => true

/-- A socket that no peer listens on. -/
def Role.homeless : Role → Bool
  | .waiting .. | .refused => true
  | _ => false

/-- How far `expireSessions` is with a session it took out of the registry. -/
inductive Departure where
  | expired
  | removed
  | forgotten
  | left
  deriving DecidableEq

/-- `issued` are the tokens that were ever made, `bearer` those of the sessions. -/
@[ext]
structure Service where
  lobby : Lobby := {}
  clock : TimePoint := 0
  role : Socket → Role := fun _ => .unborn
  departing : PeerId → Option (SessionRecord × Departure) := fun _ => none
  issued : List Bytes := []
  bearer : PeerId → Option Bytes := fun _ => none

inductive Label where
  | opened (peer : PeerId)
  | published (room : RoomId) (message : MessageDto)
  | detached (peer : PeerId) (time : TimePoint)
  | resumed (peer : PeerId)
  | expired (peers : List PeerId) (now : TimePoint)
  | deleted (room : RoomId)
  | internal

namespace Service
variable (s : Service)

def setLobby (lobby : Lobby) : Service := { s with lobby }

/-- A handler is done with a section. -/
def move (socket : Socket) (lobby : Lobby) (role : Role) : Service :=
  { s with lobby, role := Function.update s.role socket role }

/-- As `move`, for a pass of `expireSessions`. -/
def depart (who : PeerId) (lobby : Lobby) (departure : Option (SessionRecord × Departure)) :
    Service :=
  { s with lobby, departing := Function.update s.departing who departure }

/-- The sessions one pass took out. -/
def expel (lobby : Lobby) (records : List SessionRecord) : Service :=
  { s with lobby, departing := fun who =>
      match records.find? fun record => record.peer = who with
      | some record => some (record, .expired)
      | none => s.departing who }

/-- The `m_transportLock` of the peer is free. -/
def fenced (who : PeerId) : Prop := ∀ socket, s.role socket ≠ .dispatching who

/-- No operation is in progress. -/
def quiet : Prop := (∀ socket, (s.role socket).idle = true) ∧ ∀ who, s.departing who = none

end Service

/-- The codes of what a session itself publishes. -/
def authored (message : MessageDto) : Prop :=
  message.code = some .peerMessage ∨ message.code = some .peerMessageFile

variable (config : ConfigDto) (digest : Bytes → Bytes)

/-- A publication that finds the room's sequence exhausted is no step. -/
inductive Step : Service → Label → Service → Prop where
  | tick : s.clock ≤ later → Step s .internal { s with clock := later }
  -- a transport and its hello
  | create : s.role socket = .unborn →
      Step s .internal (s.move socket (s.lobby.await socket s.clock) (.waiting roomName nickname))
  | malformed : s.role socket = .waiting roomName nickname → checkHello message = none →
      Step s .internal (s.move socket s.lobby .refused)
  | arrive : s.role socket = .waiting roomName nickname → checkHello message = some fields →
      Step s .internal
        (s.move socket s.lobby (.hello { roomName, nickname, fields, now := s.clock } .arrived))
  | late : s.role socket = .hello hello .arrived →
      s.lobby.takePending socket hello.now = none →
      Step s .internal (s.move socket s.lobby .refused)
  | accept : s.role socket = .hello hello .arrived →
      s.lobby.takePending socket hello.now = some lobby →
      Step s .internal (s.move socket lobby (.hello hello .admitted))
  -- a hello with a token
  | forged : s.role socket = .hello hello .admitted → hello.fields.resumeToken = some token →
      validBase64UrlId token 32 = false →
      Step s .internal (s.move socket s.lobby .refused)
  | unknown : s.role socket = .hello hello .admitted → hello.fields.resumeToken = some token →
      validBase64UrlId token 32 = true →
      s.lobby.resumeLease (digest token) hello.roomName hello.now = none →
      Step s .internal (s.move socket s.lobby .refused)
  | lease : s.role socket = .hello hello .admitted → hello.fields.resumeToken = some token →
      validBase64UrlId token 32 = true →
      s.lobby.resumeLease (digest token) hello.roomName hello.now = some (lobby, who) →
      Step s (.resumed who) (s.move socket lobby (.hello hello (.leased who)))
  | replace : s.role socket = .hello hello (.leased who) → s.fenced who →
      Step s .internal
        (s.move socket (s.lobby.replaceSocket who socket s.clock) (.hello hello (.bound who)))
  -- a hello without one
  | tokenless : s.role socket = .hello hello .admitted → hello.fields.resumeToken = none →
      Step s .internal (s.move socket s.lobby .refused)
  | place : s.role socket = .hello hello .admitted → hello.fields.resumeToken = none →
      validBase64UrlId token 32 = true → token ∉ s.issued →
      s.lobby.getOrCreateRoom hello.roomName = (lobby, some room) →
      Step s .internal
        { s.move socket lobby (.hello hello (.placed token room)) with issued := s.issued ++ [token] }
  | crowded : s.role socket = .hello hello .admitted → hello.fields.resumeToken = none →
      s.lobby.getOrCreateRoom hello.roomName = (lobby, none) →
      Step s .internal (s.move socket lobby .refused)
  | full : s.role socket = .hello hello (.placed token room) →
      (s.lobby.room room).hasPeerCapacity = false →
      Step s .internal (s.move socket s.lobby .refused)
  | spacious : s.role socket = .hello hello (.placed token room) →
      (s.lobby.room room).hasPeerCapacity = true →
      Step s .internal (s.move socket s.lobby (.hello hello (.spacious token room)))
  | build : s.role socket = .hello hello (.spacious token room) →
      s.lobby.createPeer socket room hello.nickname s.clock = (lobby, who) →
      Step s .internal (s.move socket lobby (.hello hello (.built token room who)))
  | overrun : s.role socket = .hello hello (.built token room who) →
      s.lobby.addPeer room who = none →
      Step s .internal (s.move socket s.lobby .refused)
  | add : s.role socket = .hello hello (.built token room who) →
      s.lobby.addPeer room who = some lobby →
      Step s .internal (s.move socket lobby (.hello hello (.added token room who)))
  | register : s.role socket = .hello hello (.added token room who) →
      Step s (.opened who)
        { s.move socket (s.lobby.insertSession { room, peer := who, digest := digest token })
            (.hello hello (.registered room who)) with
          bearer := Function.update s.bearer who (some token) }
  | welcome : s.role socket = .hello hello (.registered room who) → s.lobby.peer who = some peer →
      s.lobby.publish config room (joinedMessage who peer.nickname) = some lobby →
      Step s (.published room (joinedMessage who peer.nickname))
        (s.move socket lobby (.hello hello (.bound who)))
  -- both
  | capability : s.role socket = .hello hello (.bound who) →
      s.lobby.setFileCapability who (some hello.fields.fileCapabilityId) = (lobby, changed) →
      Step s .internal
        (s.move socket lobby (.hello hello (if changed then .changed who else .greeting who)))
  | take : s.role socket = .hello hello (.changed who) → s.lobby.takeFiles who = (lobby, files) →
      Step s .internal
        (s.move socket lobby
          (.hello hello (if files.isEmpty then .greeting who else .withdrawing who files)))
  | withdraw : s.role socket = .hello hello (.withdrawing who files) →
      s.lobby.peer who = some peer →
      s.lobby.publish config peer.room (unavailableMessage peer files) = some lobby →
      Step s (.published peer.room (unavailableMessage peer files))
        (s.move socket lobby (.hello hello (.greeting who)))
  | greet : s.role socket = .hello hello (.greeting who) →
      Step s .internal (s.move socket s.lobby (.serving who))
  -- frames of a session's transport
  | dispatch : s.role socket = .serving who → s.fenced who → s.lobby.peer who = some peer →
      peer.socket = some socket →
      Step s .internal (s.move socket s.lobby (.dispatching who))
  | author {who : PeerId} : s.role socket = .dispatching who → s.lobby.peer who = some peer →
      message.peerId = some (who : Int) → authored message →
      s.lobby.publish config peer.room message = some lobby →
      Step s (.published peer.room message) (s.setLobby lobby)
  | share : s.role socket = .dispatching who → s.lobby.peer who = some peer →
      (s.lobby.room peer.room).shareFiles peer descriptors = some (room, next, files) →
      Step s .internal (s.setLobby ((s.lobby.setPeer who next).setRoom peer.room room))
  | finish : s.role socket = .dispatching who →
      Step s .internal (s.move socket s.lobby (.serving who))
  -- a transport is destroyed
  | drop : (s.role socket).homeless = true →
      Step s .internal (s.move socket (s.lobby.forgetPending socket) .gone)
  | stale : s.role socket = .serving who → s.fenced who → s.lobby.peer who = some peer →
      peer.detachIfCurrent socket = (next, false) →
      Step s .internal (s.move socket s.lobby .gone)
  | lose : s.role socket = .serving who → s.fenced who → s.lobby.peer who = some peer →
      peer.detachIfCurrent socket = (next, true) →
      Step s .internal (s.move socket (s.lobby.setPeer who next) (.losing who))
  | detach : s.role socket = .losing who →
      Step s (.detached who s.clock) (s.move socket (s.lobby.detachLease who s.clock) .gone)
  -- expireSessions
  | expire : now ≤ s.clock → s.lobby.expire now = (lobby, records) →
      Step s (.expired (records.map (·.peer)) now) (s.expel lobby records)
  | remove : s.departing who = some (record, .expired) →
      Step s .internal (s.depart who (s.lobby.erasePeer record.room who) (some (record, .removed)))
  | forget : s.departing who = some (record, .removed) → s.lobby.takeFiles who = (lobby, files) →
      Step s .internal (s.depart who lobby (some (record, .forgotten)))
  | goodbye : s.departing who = some (record, .forgotten) → s.lobby.peer who = some peer →
      s.lobby.publish config record.room (leftMessage who peer.nickname) = some lobby →
      Step s (.published record.room (leftMessage who peer.nickname))
        (s.depart who lobby (some (record, .left)))
  | delete : s.departing who = some (record, .left) →
      Step s (.deleted record.room) (s.depart who (s.lobby.deleteRoomIfEmpty record.room) none)

/-- All runs of the service, from a lobby without rooms. -/
def service : Machine Service Label where
  init s := s = {}
  step := Step config digest

end Conspire.Sessions
