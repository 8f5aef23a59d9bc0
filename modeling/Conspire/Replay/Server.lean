import Conspire.Library.Machine
import Conspire.Server.History
import Mathlib.Logic.Function.Basic

/-! One room under concurrent publishers, hellos and departures. A step is one
lock-delimited section of `Lobby`, `Room` or `Peer`; the program counters of the
threads between two sections are part of the state. Which session a resume token
names, the clock and every scheduling decision are left open, so the runs here
include all of the server's. The calls that throw once a room's sequence is
exhausted are threads that take no further step. -/
namespace Conspire.Replay
open Session Transition

/-- What the handler of a socket's SESSION_HELLO has done, and after it the
destruction of the socket. -/
inductive Phase where
  | joined | registered | welcoming            -- a fresh session
  | resuming                                    -- a lease was resumed
  | bound | listed | counted | copied | captured
  | answered | detaching | closed
  deriving DecidableEq, Repr

/-- Between these sections the peer's transport is the handler's socket. -/
def Phase.binds : Phase → Bool
  | .resuming | .detaching | .closed => false
  | _ => true

/-- Has the handler copied the history? -/
def Phase.hasCopied : Phase → Bool
  | .copied | .captured | .answered | .detaching | .closed => true
  | _ => false

/-- An admitted hello with the locals of its handler. `since` and `upTo` are the room's
latest sequences when the peers were listed and when the history was copied. -/
structure Hello where
  peer : PeerId
  resumed : Bool
  token : Bytes
  cursor : Nat
  phase : Phase
  peers : List PeerDto := []
  latest : Nat := 0
  history : List MessageDto := []
  resync : Bool := false
  binding : Option (Socket × Nat) := none
  since : Nat := 0
  upTo : Nat := 0

inductive Handler where
  | pending
  | refused
  | running (hello : Hello)

/-- Where `Room::sendMessageAsync` stands for a durable event. -/
inductive Fanout where
  | unread
  | sending (rest : List PeerId)
  | captured (peer : PeerId) (socket : Socket) (generation : Nat) (rest : List PeerId)

/-- The holder of `m_durablePublishLock`. -/
structure Publish where
  event : MessageDto
  excluded : Option PeerId
  fanout : Fanout

/-- A `sendMessageAsync` of another thread, after its first section. -/
structure Send where
  peer : PeerId
  frame : OutboundFrame

/-- The progress of an expired session's removal. -/
inductive Leaving where
  | staying | expired | removed | gone
  deriving DecidableEq, Repr

/-- `leases` is `m_sessions` by the session's peer, `draining` the frame each
drain coroutine holds with whether its binding was checked, `wire` what was
handed to each socket (nothing from a failed write on reaches the other side),
`invalidated` the transports lost to an overflow or a replacement, and `log` all
events the room has published. -/
structure Server where
  room : Room
  peers : PeerId → Option Peer := fun _ => none
  leases : PeerId → Option SessionLease := fun _ => none
  leaving : PeerId → Leaving := fun _ => .staying
  handler : Socket → Handler := fun _ => .pending
  publishing : Option Publish := none
  sends : List Send := []
  draining : PeerId → Option (OutboundFrame × Bool) := fun _ => none
  wire : Socket → List MessageDto := fun _ => []
  invalidated : Socket → Bool := fun _ => false
  log : List MessageDto := []

/-- The SESSION_READY of an answered hello. -/
def Hello.ready (hello : Hello) (nickname : Bytes) : MessageDto :=
  { code := some .sessionReady, protocolVersion := some 2, resumed := some hello.resumed
    peerId := some hello.peer, peerName := some nickname
    peers := some (hello.peers.map some), latestServerSeq := some hello.latest
    history := some (hello.history.map some), resyncRequired := some hello.resync
    resumeToken := some hello.token }

def sessionUnavailable : MessageDto :=
  { code := some .apiError, message := some (ascii "Session unavailable.") }

/-- Codes of the messages the server queues besides durable events and READY. -/
def transient (code : Option MessageCodes) : Bool :=
  code = some .peerIsTyping || code = some .messageAck ||
    code = some .peerConnectionState || code = some .fileRequestChunk

namespace Server
variable (s : Server)

def setHello (socket : Socket) (hello : Hello) : Server :=
  { s with handler := Function.update s.handler socket (.running hello) }

def setPeer (id : PeerId) (peer : Peer) : Server :=
  { s with peers := Function.update s.peers id (some peer) }

def write (socket : Socket) (message : MessageDto) : Server :=
  { s with wire := Function.update s.wire socket (s.wire socket ++ [message]) }

def invalidate (socket : Option Socket) : Server :=
  match socket with
  | none => s
  | some socket => { s with invalidated := Function.update s.invalidated socket true }

/-- `Room::getPeers` over the members in some order of the hash map. -/
def getPeers (members : List PeerId) : List PeerDto :=
  members.filterMap fun id =>
    (s.peers id).map fun peer => { peerId := some peer.peerId, peerName := some peer.nickname }

/-- The second section of `sendMessageAsync`; a refused push invalidates the
transport it was captured from if that is still current. -/
def post (written : MessageDto → Nat) (id : PeerId) (frame : OutboundFrame) : Server :=
  match s.peers id with
  | none => s
  | some peer =>
    match peer.enqueue written frame with
    | some peer => s.setPeer id peer
    | none =>
      let (peer, socket) := peer.invalidateSocketIfCurrent frame.generation .writeError
      (s.setPeer id peer).invalidate socket

/-- The sections of a hello that read the room or its peer; `members` is the
order in which the members are listed. -/
def advance (members : List PeerId) (hello : Hello) : Option Hello :=
  match hello.phase with
  | .bound => some { hello with
      phase := .listed, peers := s.getPeers members, since := s.room.sequencer.latest }
  | .listed => some { hello with phase := .counted, latest := s.room.latestServerSeq }
  | .counted =>
    let (history, resync) := s.room.getHistoryAfter hello.cursor
    some { hello with phase := .copied, history, resync, upTo := s.room.sequencer.latest }
  | .copied => (s.peers hello.peer).map fun peer =>
      { hello with phase := .captured, binding := peer.capture }
  | _ => none

end Server

/-- The steps that a composed system has to know by name. -/
inductive Label where
  | fresh (socket : Socket) (token : Bytes) (cursor : Nat)
  | resume (socket : Socket) (token : Bytes) (cursor : Nat)
  | refuse (socket : Socket)
  | post (peer : PeerId) (frame : OutboundFrame)
  | apiError (socket : Socket) (message : MessageDto)
  | detach (socket : Socket)
  | write (socket : Socket) (ok : Bool)
  | internal

variable (config : ConfigDto) (written : MessageDto → Nat)

inductive Step : Server → Label → Server → Prop where
  -- publishDurable: history insertion, member list, then one member at a time
  | publish : s.publishing = none →
      message.code = some .peerMessage ∨ message.code = some .peerMessageFile →
      s.room.addHistoryMessage config message = some (room, event) →
      Step s .internal { s with room, log := s.log ++ [event]
                                publishing := some ⟨event, none, .unread⟩ }
  | welcome : s.publishing = none → s.handler socket = .running hello → hello.phase = .registered →
      s.peers hello.peer = some peer →
      s.room.addHistoryMessage config (joinedMessage hello.peer peer.nickname) = some (room, event) →
      Step s .internal
        ({ s with room, log := s.log ++ [event]
                  publishing := some ⟨event, some hello.peer, .unread⟩ }.setHello socket
          { hello with phase := .welcoming })
  | goodbye : s.publishing = none → s.leaving member = .removed → s.peers member = some peer →
      s.room.addHistoryMessage config (leftMessage member peer.nickname) = some (room, event) →
      Step s .internal { s with room, log := s.log ++ [event]
                                publishing := some ⟨event, none, .unread⟩
                                leaving := Function.update s.leaving member .gone }
  | members : s.publishing = some ⟨event, excluded, .unread⟩ → members.Perm s.room.peerById →
      Step s .internal { s with publishing := some ⟨event, excluded, .sending members⟩ }
  | skip : s.publishing = some ⟨event, excluded, .sending (member :: rest)⟩ →
      (excluded = some member ∨ ∀ peer, s.peers member = some peer → peer.capture = none) →
      Step s .internal { s with publishing := some ⟨event, excluded, .sending rest⟩ }
  | capture : s.publishing = some ⟨event, excluded, .sending (member :: rest)⟩ → excluded ≠ some member →
      s.peers member = some peer → peer.capture = some (socket, generation) →
      Step s .internal
        { s with publishing := some ⟨event, excluded, .captured member socket generation rest⟩ }
  | push : s.publishing = some ⟨event, excluded, .captured member socket generation rest⟩ →
      Step s (.post member ⟨socket, generation, event⟩)
        ({ s with publishing := some ⟨event, excluded, .sending rest⟩ }.post written member
          ⟨socket, generation, event⟩)
  | finish : s.publishing = some ⟨event, none, .sending []⟩ →
      Step s .internal { s with publishing := none }
  | welcomed : s.publishing = some ⟨event, some hello.peer, .sending []⟩ →
      s.handler socket = .running hello → hello.phase = .welcoming →
      Step s .internal ({ s with publishing := none }.setHello socket { hello with phase := .bound })
  -- acceptSessionHello
  | join : s.handler socket = .pending → validBase64UrlId token 32 = true →
      s.peers member = none → 0 < member → s.room.addPeer member = some room →
      Step s (.fresh socket token cursor)
        (({ s with room }.setPeer member (Peer.create socket roomId nickname member now)).setHello socket
          { peer := member, resumed := false, token, cursor, phase := .joined })
  | register : s.handler socket = .running hello → hello.phase = .joined →
      Step s .internal
        ({ s with leases := Function.update s.leases hello.peer (some {}) }.setHello socket
          { hello with phase := .registered })
  | resume : s.handler socket = .pending → validBase64UrlId token 32 = true →
      s.leases member = some lease → lease.resume now = some resumed →
      Step s (.resume socket token cursor)
        ({ s with leases := Function.update s.leases member (some resumed) }.setHello socket
          { peer := member, resumed := true, token, cursor, phase := .resuming })
  | bind : s.handler socket = .running hello → hello.phase = .resuming →
      s.peers hello.peer = some peer →
      Step s .internal
        (((s.setPeer hello.peer (peer.replaceSocket socket now).1).invalidate
          ((peer.replaceSocket socket now).2.filter (· ≠ socket))).setHello socket
            { hello with phase := .bound })
  | refuse : s.handler socket = .pending →
      Step s (.refuse socket)
        ({ s with handler := Function.update s.handler socket .refused }.write socket sessionUnavailable)
  | advance : s.handler socket = .running hello → members.Perm s.room.peerById →
      s.advance members hello = some next →
      Step s .internal (s.setHello socket next)
  | answer : s.handler socket = .running hello → hello.phase = .captured →
      hello.binding = some (target, generation) → s.peers hello.peer = some peer →
      Step s (.post hello.peer ⟨target, generation, hello.ready peer.nickname⟩)
        ((s.post written hello.peer ⟨target, generation, hello.ready peer.nickname⟩).setHello socket
          { hello with phase := .answered })
  -- transient messages of any thread
  | beginSend : s.peers member = some peer → peer.capture = some (socket, generation) →
      transient message.code = true →
      Step s .internal { s with sends := ⟨member, ⟨socket, generation, message⟩⟩ :: s.sends }
  | endSend : s.sends = front ++ send :: back →
      Step s (.post send.peer send.frame)
        ({ s with sends := front ++ back }.post written send.peer send.frame)
  -- a peer's drain coroutine
  | take : s.peers member = some peer → s.draining member = none →
      peer.takeOutboundFrame written = (next, some frame) →
      Step s .internal
        { s.setPeer member next with draining := Function.update s.draining member (some (frame, false)) }
  | check : s.peers member = some peer → s.draining member = some (frame, false) →
      peer.isCurrentBinding frame = true →
      Step s .internal { s with draining := Function.update s.draining member (some (frame, true)) }
  | drop : s.peers member = some peer → s.draining member = some (frame, false) →
      peer.isCurrentBinding frame = false →
      Step s .internal { s with draining := Function.update s.draining member none }
  | write : s.draining member = some (frame, true) →
      Step s (.write frame.socket ok)
        ({ s with draining := Function.update s.draining member none }.write frame.socket frame.payload)
  -- onApiError writes past the queue
  | apiError : s.handler socket = .running hello → hello.phase.binds = true →
      message.code = some .apiError → Step s (.apiError socket message) (s.write socket message)
  -- detachSessionTransport and expireSessions
  | detach : s.handler socket = .running hello → hello.phase = .answered →
      s.peers hello.peer = some peer → peer.detachIfCurrent socket = (next, true) →
      Step s (.detach socket)
        ((s.setPeer hello.peer next).setHello socket { hello with phase := .detaching })
  | unlease : s.handler socket = .running hello → hello.phase = .detaching →
      s.leases hello.peer = some lease →
      Step s .internal
        ({ s with leases := Function.update s.leases hello.peer (some (lease.detach now)) }.setHello
          socket { hello with phase := .closed })
  | expire : s.leases member = some lease → lease.expires now = true →
      Step s .internal { s with leases := Function.update s.leases member none
                                leaving := Function.update s.leaving member .expired }
  | remove : s.leaving member = .expired →
      Step s .internal { s with room := s.room.erasePeer member
                                leaving := Function.update s.leaving member .removed }

/-- All runs of one room, from its creation. -/
def server : Machine Server Label where
  init s := ∃ name, s = { room := { name } }
  step := Step config written

end Conspire.Replay
