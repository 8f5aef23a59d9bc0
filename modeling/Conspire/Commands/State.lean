import Conspire.Library.Machine
import Conspire.Server.Handlers
import Conspire.Server.History
import Mathlib.Logic.Function.Basic

/-! Retryable commands on the server. A thread handles one command of a session;
its stage says which sections it has left behind and which locks it holds. The
label of a step names the command and what the step has done for it. -/
namespace Conspire.Commands
open Session Transition

/-- Where a handler stands. From `holding` to `announced` it has `m_commandLock`,
from `ordering` to `recorded` also `m_durablePublishLock`. -/
inductive Stage where
  | dispatched
  | admitted
  | holding
  | prepared
  | ordering
  | sequenced (sequence : Nat)
  | recorded (sequence : Nat)
  | announced (sequence : Nat)
  | ended
  deriving DecidableEq, Repr

def Stage.holds : Stage → Bool
  | .dispatched | .admitted | .ended => false
  | _ => true

/-- `event` is what will be published: the message itself, or the announcement
of the files it has shared. -/
structure Thread where
  peer : PeerId
  message : MessageDto
  event : MessageDto
  stage : Stage := .dispatched

/-- `count` commands have been dispatched; thread `k` handles the `k`-th. -/
structure State where
  room : Room
  peers : PeerId → Option Peer := fun _ => none
  threads : Nat → Option Thread := fun _ => none
  count : Nat := 0
  commandLock : PeerId → Option Nat := fun _ => none
  publishing : Bool := false

inductive Label where
  | receive (command : Nat) (peer : PeerId) (socket : Socket) (message : MessageDto)
  | share (command : Nat) (files : List File)
  | sequence (command : Nat) (peer : PeerId) (id : Bytes) (event : MessageDto)
  | record (command : Nat) (peer : PeerId) (id : Bytes) (sequence : Nat)
  | acknowledge (command : Nat) (peer : PeerId) (id : Bytes) (sequence : Nat)
  | refuse (command : Nat) (peer : PeerId) (error : MessageDto)
  | bind (peer : PeerId) (socket : Socket)
  | detach (peer : PeerId) (socket : Socket)
  | leave (peer : PeerId)
  | announce (event : MessageDto)
  | internal

namespace State
variable (s : State)

def setThread (command : Nat) (thread : Thread) : State :=
  { s with threads := Function.update s.threads command (some thread) }

def setPeer (id : PeerId) (peer : Peer) : State :=
  { s with peers := Function.update s.peers id (some peer) }

def lock (peer : PeerId) (command : Nat) : State :=
  { s with commandLock := Function.update s.commandLock peer (some command) }

def unlock (peer : PeerId) : State :=
  { s with commandLock := Function.update s.commandLock peer none }

end State

/-- The command's id, once it has been checked. -/
def Thread.id (thread : Thread) : Bytes := thread.message.clientMessageId.getD []

def Thread.at (thread : Thread) (stage : Stage) : Thread := { thread with stage }

variable (config : ConfigDto)

inductive Step : State → Label → State → Prop where
  -- readMessage hands a command of the current transport to its handler
  | receive : s.peers member = some peer → peer.socket = some socket →
      message.code = some .peerMessage ∨ message.code = some .fileShare →
      Step s (.receive s.count member socket message)
        { s.setThread s.count
            { peer := member, message := peer.stamp message now, event := peer.stamp message now } with
          count := s.count + 1 }
  | reject : s.threads k = some thread → thread.stage = .dispatched →
      checkCommand thread.message = some error →
      Step s (.refuse k thread.peer error) (s.setThread k (thread.at .ended))
  | accept : s.threads k = some thread → thread.stage = .dispatched →
      checkCommand thread.message = none →
      Step s .internal (s.setThread k (thread.at .admitted))
  -- m_commandLock is taken and the dedupe window consulted
  | again : s.threads k = some thread → thread.stage = .admitted → s.commandLock thread.peer = none →
      s.peers thread.peer = some peer → peer.dedupe.find thread.id = some prior →
      Step s (.acknowledge k thread.peer thread.id prior) (s.setThread k (thread.at .ended))
  | full : s.threads k = some thread → thread.stage = .admitted → s.commandLock thread.peer = none →
      s.peers thread.peer = some peer → peer.dedupe.find thread.id = none → peer.dedupe.full = true →
      Step s (.refuse k thread.peer (capacityError thread.message)) (s.setThread k (thread.at .ended))
  | hold : s.threads k = some thread → thread.stage = .admitted → s.commandLock thread.peer = none →
      s.peers thread.peer = some peer → peer.dedupe.find thread.id = none → peer.dedupe.full = false →
      Step s .internal ((s.lock thread.peer k).setThread k (thread.at .holding))
  -- a FILE_SHARE registers its files
  | share : s.threads k = some thread → thread.stage = .holding →
      thread.message.code = some .fileShare → s.peers thread.peer = some peer →
      s.room.shareFiles peer ((thread.message.files.getD []).reduceOption) = some (room, host, files) →
      Step s (.share k files)
        ({ s with room }.setPeer thread.peer host |>.setThread k
          { thread with stage := .prepared, event := fileMessage peer timestamp files })
  | limit : s.threads k = some thread → thread.stage = .holding →
      thread.message.code = some .fileShare → s.peers thread.peer = some peer →
      s.room.shareFiles peer ((thread.message.files.getD []).reduceOption) = none →
      Step s (.refuse k thread.peer (fileLimitError thread.message))
        ((s.unlock thread.peer).setThread k (thread.at .ended))
  | prepare : s.threads k = some thread → thread.stage = .holding →
      thread.message.code = some .peerMessage →
      Step s .internal (s.setThread k (thread.at .prepared))
  -- publishDurable
  | order : s.threads k = some thread → thread.stage = .prepared → s.publishing = false →
      Step s .internal ({ s with publishing := true }.setThread k (thread.at .ordering))
  | sequence {sequence : Nat} : s.threads k = some thread → thread.stage = .ordering →
      s.room.addHistoryMessage config thread.event = some (room, event) →
      event.serverSeq = some sequence →
      Step s (.sequence k thread.peer thread.id event)
        ({ s with room }.setThread k { thread with stage := .sequenced sequence, event })
  | exhausted : s.threads k = some thread → thread.stage = .ordering →
      s.room.addHistoryMessage config thread.event = none →
      Step s .internal
        ({ s.unlock thread.peer with publishing := false }.setThread k (thread.at .ended))
  | record {sequence : Nat} : s.threads k = some thread → thread.stage = .sequenced sequence →
      s.peers thread.peer = some peer → peer.dedupe.remember thread.id sequence = some dedupe →
      Step s (.record k thread.peer thread.id sequence)
        ((s.setPeer thread.peer { peer with dedupe }).setThread k (thread.at (.recorded sequence)))
  | unrecorded {sequence : Nat} : s.threads k = some thread → thread.stage = .sequenced sequence →
      s.peers thread.peer = some peer → peer.dedupe.remember thread.id sequence = none →
      Step s .internal
        ({ s.unlock thread.peer with publishing := false }.setThread k (thread.at .ended))
  | broadcast {sequence : Nat} : s.threads k = some thread → thread.stage = .recorded sequence →
      Step s .internal ({ s with publishing := false }.setThread k (thread.at (.announced sequence)))
  | acknowledge {sequence : Nat} : s.threads k = some thread → thread.stage = .announced sequence →
      Step s (.acknowledge k thread.peer thread.id sequence)
        ((s.unlock thread.peer).setThread k (thread.at .ended))
  -- what else happens in the room: announcements, members, transports, withdrawn files
  | announce : s.publishing = false → durableCode message.code = true →
      s.room.addHistoryMessage config message = some (room, event) →
      Step s (.announce event) { s with room }
  | join : s.peers member = none → s.room.addPeer member = some room →
      Step s (.bind member socket)
        ({ s with room }.setPeer member (Peer.create socket roomId nickname member now))
  | bind : s.peers member = some peer →
      Step s (.bind member socket) (s.setPeer member (peer.replaceSocket socket now).1)
  | detach : s.peers member = some peer → peer.detachIfCurrent socket = (next, true) →
      Step s (.detach member socket) (s.setPeer member next)
  | leave : s.peers member = some peer →
      Step s (.leave member)
        ({ s with room := { s.room.erasePeer member with
                  fileById := s.room.fileById.filter fun entry => entry.2 ∉ peer.files } }.setPeer member
          { peer with files := [] })
  | withdraw : s.peers member = some peer →
      Step s .internal
        ({ s with room := { s.room with
                  fileById := s.room.fileById.filter fun entry => entry.2 ∉ peer.files } }.setPeer member
          { peer with files := [] })

def commands : Machine State Label where
  init s := ∃ name, s = { room := { name } }
  step := Step config

end Conspire.Commands
