import Conspire.Server.Dto
import Conspire.Server.Heartbeat

/-! The logical peer and its transport binding (`rooms/Peer.hpp`, `rooms/Peer.cpp`).
Each function here is one lock-delimited section of the class: an interleaving
may put steps of other threads between any two of them. -/
namespace Conspire
open Session

/-- The address of an `AsyncWebSocket`. -/
abbrev Socket := Nat
abbrev PeerId := Nat
abbrev RoomId := Nat

/-- The fields a `File` is constructed with; they never change. -/
structure File where
  host : PeerId
  clientFileId : Int
  serverFileId : Nat
  fileName : Bytes
  fileSize : Int
  mediaType : Option Bytes := none
  deriving DecidableEq, Repr

inductive CloseReason where
  | none | heartbeatTimeout | writeError | protocolError | serverShutdown | remoteClose
  deriving DecidableEq, Repr

/-- A frame waiting in the outbound queue. The payload is kept as the message
it was written from. -/
structure OutboundFrame where
  socket : Socket
  generation : Nat
  payload : MessageDto

structure Peer where
  messageBuffer : Bytes := []
  socket : Option Socket
  room : RoomId
  nickname : Bytes
  peerId : PeerId
  heartbeat : Heartbeat
  transportGeneration : TransportGeneration
  socketGeneration : Nat
  closeReason : CloseReason := .none
  closeAccounting : TerminalCloseAccounting := {}
  closeCode : Nat := 0
  closeDetail : Bytes := []
  files : List File := []
  fileCapabilityId : Bytes := []
  dedupe : DedupeWindow := {}
  outboundFrames : List OutboundFrame := []
  outboundBytes : Nat := 0
  outboundDrainActive : Bool := false

namespace Peer

/-- The constructor: the transport it is built around is generation 1. -/
def create (socket : Socket) (room : RoomId) (nickname : Bytes) (peerId : PeerId)
    (now : TimePoint) : Peer :=
  let (fence, generation) := TransportGeneration.replace {} socket
  { socket := some socket, room, nickname, peerId, heartbeat := Heartbeat.create now
    transportGeneration := fence, socketGeneration := generation }

def maxOutboundFrames : Nat := 256
def maxOutboundBytes : Nat := 2 * 1024 * 1024

/-- First section of `sendMessageAsync`: the binding read under `m_stateLock`. -/
def capture (peer : Peer) : Option (Socket × Nat) :=
  peer.socket.map fun socket => (socket, peer.socketGeneration)

/-- Second section of `sendMessageAsync`, under `m_outboundLock`; `none` is an
overflow. `written` is the size of `writeToString(message)`. -/
def enqueue (written : MessageDto → Nat) (peer : Peer) (frame : OutboundFrame) : Option Peer :=
  let payloadBytes := written frame.payload
  if maxOutboundFrames ≤ peer.outboundFrames.length ||
      payloadBytes > maxOutboundBytes - min peer.outboundBytes maxOutboundBytes then none
  else some { peer with outboundFrames := peer.outboundFrames ++ [frame]
                        outboundBytes := peer.outboundBytes + payloadBytes
                        outboundDrainActive := true }

/-- The drain coroutine's next frame; without one the drain ends. -/
def takeOutboundFrame (written : MessageDto → Nat) (peer : Peer) : Peer × Option OutboundFrame :=
  match peer.outboundFrames with
  | [] => ({ peer with outboundDrainActive := false }, none)
  | frame :: rest =>
    ({ peer with outboundFrames := rest
                 outboundBytes := peer.outboundBytes - written frame.payload }, some frame)

def isCurrentBinding (peer : Peer) (frame : OutboundFrame) : Bool :=
  some frame.socket = peer.socket && frame.generation = peer.socketGeneration

def selectCloseReasonLocked (peer : Peer) (reason : CloseReason) : Peer × Bool :=
  let (accounting, account) := peer.closeAccounting.accountOnce
  ({ peer with closeReason := if peer.closeReason = .none then reason else peer.closeReason
               closeAccounting := accounting }, account)

/-- The locked part of `invalidateSocketIfCurrent`: the socket whose connection
is then invalidated, if the generation is still current. -/
def invalidateSocketIfCurrent (peer : Peer) (generation : Nat) (reason : CloseReason) :
    Peer × Option Socket :=
  if generation ≠ peer.socketGeneration then (peer, none)
  else ((peer.selectCloseReasonLocked reason).1, peer.socket)

/-- Bind a new transport; the previous one is returned. -/
def replaceSocket (peer : Peer) (socket : Socket) (now : TimePoint) : Peer × Option Socket :=
  let (fence, generation) := peer.transportGeneration.replace socket
  ({ peer with socket := some socket
               transportGeneration := fence
               socketGeneration := generation
               messageBuffer := []
               closeReason := .none
               closeAccounting := {}
               heartbeat := peer.heartbeat.activate now generation }, peer.socket)

def detachIfCurrent (peer : Peer) (socket : Socket) : Peer × Bool :=
  if !peer.transportGeneration.isCurrent (some socket) peer.socketGeneration ||
      some socket ≠ peer.socket then (peer, false)
  else
    ({ peer with socket := none
                 transportGeneration :=
                   (peer.transportGeneration.detachIfCurrent (some socket) peer.socketGeneration).1 },
     true)

def addFiles (peer : Peer) (files : List File) : Peer := { peer with files := peer.files ++ files }

def getFilesSnapshot (peer : Peer) : List File := peer.files

def takeFilesSnapshot (peer : Peer) : Peer × List File := ({ peer with files := [] }, peer.files)

/-- A changed page capability means its in-memory `File` objects are gone. -/
def setFileCapability (peer : Peer) (capabilityId : Option Bytes) : Peer × Bool :=
  let next := capabilityId.getD []
  let changed := !peer.fileCapabilityId.isEmpty && peer.fileCapabilityId ≠ next
  ({ peer with fileCapabilityId := next }, changed)

/-- A detach takes the transport away from its current socket, or does nothing. -/
theorem detachIfCurrent_eq {peer next : Peer} {lost : Socket}
    (detached : peer.detachIfCurrent lost = (next, known)) :
    known = false ∧ next = peer ∨
      known = true ∧ peer.socket = some lost ∧ next.socket = none ∧
        next.messageBuffer = peer.messageBuffer := by
  unfold detachIfCurrent at detached
  split at detached
  · cases detached
    exact .inl ⟨rfl, rfl⟩
  · rename_i current
    cases detached
    simp only [Bool.or_eq_true, decide_eq_true_eq, not_or, not_not] at current
    exact .inr ⟨rfl, current.2.symm, rfl, rfl⟩

theorem detachIfCurrent_dedupe {peer next : Peer} {lost : Socket}
    (detached : peer.detachIfCurrent lost = (next, known)) : next.dedupe = peer.dedupe := by
  unfold detachIfCurrent at detached
  split at detached <;> cases detached <;> rfl

theorem detachIfCurrent_room {peer next : Peer} {lost : Socket}
    (detached : peer.detachIfCurrent lost = (next, known)) :
    next.room = peer.room ∧ next.peerId = peer.peerId := by
  unfold detachIfCurrent at detached
  split at detached <;> cases detached <;> exact ⟨rfl, rfl⟩

end Peer
end Conspire
