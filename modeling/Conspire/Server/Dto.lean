import Conspire.Server.Boundaries

/-! The wire objects (`dto/DTOs.hpp`) and the configuration they are checked
against (`dto/Config.hpp`). Every field of a DTO may be null, and so may the
elements of its lists. -/
namespace Conspire

inductive MessageCodes where
  | info | peerJoined | peerLeft | peerMessage | peerMessageFile | peerIsTyping
  | fileShare | fileRequestChunk | fileChunkData | apiError
  | sessionHello | sessionReady | messageAck | peerConnectionState
  deriving DecidableEq, Repr

def MessageCodes.value : MessageCodes → Nat
  | .info => 0
  | .peerJoined => 1
  | .peerLeft => 2
  | .peerMessage => 3
  | .peerMessageFile => 4
  | .peerIsTyping => 5
  | .fileShare => 6
  | .fileRequestChunk => 7
  | .fileChunkData => 8
  | .apiError => 9
  | .sessionHello => 10
  | .sessionReady => 11
  | .messageAck => 12
  | .peerConnectionState => 13

/-- The codes of the events a room sequences and retains. -/
def durableCode (code : Option MessageCodes) : Bool :=
  code = some .peerJoined || code = some .peerLeft ||
    code = some .peerMessage || code = some .peerMessageFile

structure PeerDto where
  peerId : Option Int := none
  peerName : Option Bytes := none
  deriving DecidableEq, Repr

structure FileDto where
  clientFileId : Option Int := none
  serverFileId : Option Int := none
  name : Option Bytes := none
  size : Option Int := none
  mediaType : Option Bytes := none
  chunkPosition : Option Int := none
  chunkSize : Option Int := none
  subscriberId : Option Int := none
  chunkRequestId : Option Nat := none
  available : Option Bool := none
  data : Option Bytes := none
  deriving DecidableEq, Repr

structure MessageDto where
  peerId : Option Int := none
  peerName : Option Bytes := none
  code : Option MessageCodes := none
  message : Option Bytes := none
  timestamp : Option Int := none
  serverSeq : Option Nat := none
  lastServerSeq : Option Nat := none
  latestServerSeq : Option Nat := none
  protocolVersion : Option Int := none
  resumeToken : Option Bytes := none
  fileCapabilityId : Option Bytes := none
  clientMessageId : Option Bytes := none
  resumed : Option Bool := none
  resyncRequired : Option Bool := none
  connected : Option Bool := none
  peers : Option (List (Option PeerDto)) := none
  history : Option (List (Option MessageDto)) := none
  files : Option (List (Option FileDto)) := none

structure ConfigDto where
  maxMessageSizeBytes : Nat := 8 * 1024
  maxRoomHistoryMessages : Option Nat := some 100
  deriving DecidableEq, Repr

end Conspire
