import Conspire.Server.Peer

/-! A room (`rooms/Room.hpp`, `rooms/Room.cpp`): its members, its durable event
log and its file index. As in `Peer`, a function is one lock-delimited section. -/
namespace Conspire
open Session Boundaries

structure Room where
  name : Bytes
  fileIdCounter : Nat := 1
  fileById : List (Nat × File) := []
  peerById : List PeerId := []
  history : List MessageDto := []
  sequencer : RoomSequencer := {}

namespace Room

def hasPeerCapacity (room : Room) : Bool := hasCapacity room.peerById.length Limits.peersPerRoom

/-- `m_peerById[peer->getPeerId()] = peer`, refused when the room is full. -/
def addPeer (room : Room) (peer : PeerId) : Option Room :=
  if !room.hasPeerCapacity then none
  else some { room with peerById := if peer ∈ room.peerById then room.peerById
                                    else room.peerById ++ [peer] }

def isEmpty (room : Room) : Bool := room.peerById.isEmpty

/-- The membership part of `removePeerById`. -/
def erasePeer (room : Room) (peer : PeerId) : Room :=
  { room with peerById := room.peerById.filter (· ≠ peer) }

/-- Sequence assignment and history insertion under `m_historyLock`; `none` is
the `overflow_error` of an exhausted room. -/
def addHistoryMessage (config : ConfigDto) (room : Room) (message : MessageDto) :
    Option (Room × MessageDto) :=
  match room.sequencer.next with
  | none => none
  | some (sequencer, sequence) =>
    let message := { message with serverSeq := some sequence }
    match config.maxRoomHistoryMessages with
    | none | some 0 => some ({ room with sequencer }, message)
    | some limit =>
      some ({ room with sequencer, history := retainLast (room.history ++ [message]) limit }, message)

def latestServerSeq (room : Room) : Nat := room.sequencer.latest

/-- `message->serverSeq && *message->serverSeq > cursor` -/
def isAfter (cursor : Nat) (message : MessageDto) : Bool :=
  match message.serverSeq with
  | none => false
  | some sequence => cursor < sequence

def earliestRetained (room : Room) : Option Nat :=
  match room.history with
  | [] => none
  | first :: _ => first.serverSeq

/-- The retained events after a cursor, and whether the cursor's replay is
incomplete so that all retained events are returned for a resync. -/
def getHistoryAfter (room : Room) (cursor : Nat) : List MessageDto × Bool :=
  let resyncRequired := requiresReplayResync cursor room.sequencer.latest room.earliestRetained
  (room.history.filter fun message => resyncRequired || isAfter cursor message, resyncRequired)

def getFileById (room : Room) (fileId : Nat) : Option File := room.fileById.lookup fileId

end Room

def joinedText : Bytes := ascii " - joined room"
def leftText : Bytes := ascii " - left room"

/-- The announcement `welcomePeer` publishes, without its sequence. -/
def joinedMessage (peer : PeerId) (nickname : Bytes) : MessageDto :=
  { code := some .peerJoined, peerId := some peer, peerName := some nickname
    message := some (nickname ++ joinedText) }

/-- The announcement `goodbyePeer` publishes, without its sequence. -/
def leftMessage (peer : PeerId) (nickname : Bytes) : MessageDto :=
  { code := some .peerLeft, peerId := some peer, message := some (nickname ++ leftText) }

def connectionStateMessage (peer : PeerId) (connected : Bool) : MessageDto :=
  { code := some .peerConnectionState, peerId := some peer, connected := some connected }

end Conspire
