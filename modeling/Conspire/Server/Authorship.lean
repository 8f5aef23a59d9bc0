import Conspire.Library.Machine
import Conspire.Lobby.State
import Mathlib.Logic.Function.Basic

/-! Who a room's frames are from. A thread handles one frame of a client and is in one
lock-delimited section after the other (`Peer::readMessage`, `Peer::handleMessage`,
`Peer::handleFilesMessage`); what a client puts into a frame is arbitrary. -/
namespace Conspire.Authorship
open Session Transition

/-- What `handleMessage` does with a code. -/
inductive Dispatch where
  | refused (error : MessageDto)
  | command
  | typing
  | chunk

def handleMessage (message : MessageDto) : Dispatch :=
  match message.code with
  | none => .refused (apiError (ascii "No message code provided.") none)
  | some .peerMessage | some .fileShare =>
    match checkCommand message with
    | some error => .refused error
    | none => .command
  | some .peerIsTyping => .typing
  | some .fileChunkData => .chunk
  | _ => .refused (apiError (ascii "Invalid client message code.") none)

/-- From `holding` to `fanned` a thread has `m_commandLock`, while it is `ordered` or `recorded`
also `m_durablePublishLock`. -/
inductive Stage where
  | dispatched
  | holding
  | prepared (event : MessageDto)
  | ordered (event : MessageDto)
  | recorded (event : MessageDto)
  | fanned (event : MessageDto)
  | ended

/-- `message` is the frame as `readMessage` hands it on. -/
structure Thread where
  peer : PeerId
  message : MessageDto
  stage : Stage := .dispatched

/-- `announcing` is an announcement of the server's own, in the history but not yet sent. -/
structure Floor where
  room : Room
  clock : Int := 0
  peers : PeerId → Option Peer := fun _ => none
  threads : Nat → Option Thread := fun _ => none
  count : Nat := 0
  commandLock : PeerId → Bool := fun _ => false
  publishing : Bool := false
  announcing : Option MessageDto := none

inductive Label where
  | received (who : PeerId) (socket : Socket) (message : MessageDto)
  | answered (who : PeerId) (reply : MessageDto)
  | published (event : MessageDto)
  | fanned (frame : MessageDto)
  | replayed (history : List MessageDto)
  | internal

namespace Floor
variable (s : Floor)

def setThread (k : Nat) (thread : Thread) : Floor :=
  { s with threads := Function.update s.threads k (some thread) }

def setPeer (who : PeerId) (peer : Peer) : Floor :=
  { s with peers := Function.update s.peers who (some peer) }

def lock (who : PeerId) (held : Bool) : Floor :=
  { s with commandLock := Function.update s.commandLock who held }

end Floor

def Thread.at (thread : Thread) (stage : Stage) : Thread := { thread with stage }

def Thread.id (thread : Thread) : Bytes := thread.message.clientMessageId.getD []

/-- What the server publishes of its own accord, without its sequence. -/
inductive Own (s : Floor) : MessageDto → Prop where
  | joined {who : PeerId} {peer : Peer} : s.peers who = some peer → Own s (joinedMessage who peer.nickname)
  | left {who : PeerId} {peer : Peer} : s.peers who = some peer → Own s (leftMessage who peer.nickname)
  | withdrawn {who : PeerId} {peer : Peer} {files : List File} : s.peers who = some peer →
      Own s (unavailableMessage peer files)

inductive Step (config : ConfigDto) : Floor → Label → Floor → Prop where
  | tick {s : Floor} : s.clock ≤ later → Step config s .internal { s with clock := later }
  | receive {s : Floor} {who : PeerId} {peer : Peer} {socket : Socket} {message : MessageDto} :
      s.peers who = some peer → peer.socket = some socket →
      Step config s (.received who socket message)
        { s.setThread s.count { peer := who, message := peer.stamp message s.clock } with
          count := s.count + 1 }
  | refuse {s : Floor} {thread : Thread} : s.threads k = some thread → thread.stage = .dispatched →
      handleMessage thread.message = .refused error →
      Step config s (.answered thread.peer error) (s.setThread k (thread.at .ended))
  | typing {s : Floor} {thread : Thread} : s.threads k = some thread → thread.stage = .dispatched →
      handleMessage thread.message = .typing →
      Step config s (.fanned thread.message) (s.setThread k (thread.at .ended))
  -- file contents go to the subscriber of the file only
  | chunk {s : Floor} {thread : Thread} : s.threads k = some thread → thread.stage = .dispatched →
      handleMessage thread.message = .chunk →
      Step config s .internal (s.setThread k (thread.at .ended))
  | again {s : Floor} {thread : Thread} {peer : Peer} : s.threads k = some thread →
      thread.stage = .dispatched → handleMessage thread.message = .command →
      s.commandLock thread.peer = false → s.peers thread.peer = some peer →
      peer.dedupe.find thread.id = some prior →
      Step config s (.answered thread.peer (messageAck thread.id prior)) (s.setThread k (thread.at .ended))
  | full {s : Floor} {thread : Thread} {peer : Peer} : s.threads k = some thread →
      thread.stage = .dispatched → handleMessage thread.message = .command →
      s.commandLock thread.peer = false → s.peers thread.peer = some peer →
      peer.dedupe.find thread.id = none → peer.dedupe.full = true →
      Step config s (.answered thread.peer (capacityError thread.message)) (s.setThread k (thread.at .ended))
  | hold {s : Floor} {thread : Thread} {peer : Peer} : s.threads k = some thread →
      thread.stage = .dispatched → handleMessage thread.message = .command →
      s.commandLock thread.peer = false → s.peers thread.peer = some peer →
      peer.dedupe.find thread.id = none → peer.dedupe.full = false →
      Step config s .internal ((s.lock thread.peer true).setThread k (thread.at .holding))
  | prepare {s : Floor} {thread : Thread} : s.threads k = some thread → thread.stage = .holding →
      thread.message.code = some .peerMessage →
      Step config s .internal (s.setThread k (thread.at (.prepared thread.message)))
  | share {s : Floor} {thread : Thread} {peer host : Peer} {room : Room} : s.threads k = some thread →
      thread.stage = .holding → thread.message.code = some .fileShare →
      s.peers thread.peer = some peer →
      s.room.shareFiles peer ((thread.message.files.getD []).reduceOption) = some (room, host, files) →
      Step config s .internal
        (({ s with room }.setPeer thread.peer host).setThread k
          (thread.at (.prepared (fileMessage peer s.clock files))))
  | limit {s : Floor} {thread : Thread} {peer : Peer} : s.threads k = some thread →
      thread.stage = .holding → thread.message.code = some .fileShare →
      s.peers thread.peer = some peer →
      s.room.shareFiles peer ((thread.message.files.getD []).reduceOption) = none →
      Step config s (.answered thread.peer (fileLimitError thread.message))
        ((s.lock thread.peer false).setThread k (thread.at .ended))
  -- publishDurable
  | order {s : Floor} {thread : Thread} {room : Room} : s.threads k = some thread →
      thread.stage = .prepared message → s.publishing = false →
      s.room.addHistoryMessage config message = some (room, event) →
      Step config s (.published event)
        ({ s with room, publishing := true }.setThread k (thread.at (.ordered event)))
  | exhausted {s : Floor} {thread : Thread} : s.threads k = some thread →
      thread.stage = .prepared message → s.publishing = false →
      s.room.addHistoryMessage config message = none →
      Step config s .internal ((s.lock thread.peer false).setThread k (thread.at .ended))
  | record {s : Floor} {thread : Thread} {peer : Peer} : s.threads k = some thread →
      thread.stage = .ordered event → s.peers thread.peer = some peer →
      peer.dedupe.remember thread.id (event.serverSeq.getD 0) = some dedupe →
      Step config s .internal
        ((s.setPeer thread.peer { peer with dedupe }).setThread k (thread.at (.recorded event)))
  | unrecorded {s : Floor} {thread : Thread} {peer : Peer} : s.threads k = some thread →
      thread.stage = .ordered event → s.peers thread.peer = some peer →
      peer.dedupe.remember thread.id (event.serverSeq.getD 0) = none →
      Step config s .internal
        ({ s.lock thread.peer false with publishing := false }.setThread k (thread.at .ended))
  | broadcast {s : Floor} {thread : Thread} : s.threads k = some thread → thread.stage = .recorded event →
      Step config s (.fanned event) ({ s with publishing := false }.setThread k (thread.at (.fanned event)))
  | acknowledge {s : Floor} {thread : Thread} : s.threads k = some thread → thread.stage = .fanned event →
      Step config s (.answered thread.peer (messageAck thread.id (event.serverSeq.getD 0)))
        ((s.lock thread.peer false).setThread k (thread.at .ended))
  -- what the server announces itself, and what it replays
  | announce {s : Floor} {room : Room} : s.publishing = false → Own s message →
      s.room.addHistoryMessage config message = some (room, event) →
      Step config s (.published event) { s with room, publishing := true, announcing := some event }
  | announced {s : Floor} : s.announcing = some event →
      Step config s (.fanned event) { s with publishing := false, announcing := none }
  | connection {s : Floor} {who : PeerId} {peer : Peer} : s.peers who = some peer →
      Step config s (.fanned (connectionStateMessage who connected)) s
  | replay {s : Floor} : Step config s (.replayed (s.room.getHistoryAfter cursor).1) s
  -- members, transports, files
  | join {s : Floor} {who : PeerId} {room : Room} : s.peers who = none → s.room.addPeer who = some room →
      Step config s .internal ({ s with room }.setPeer who (Peer.create socket roomId nickname who now))
  | bind {s : Floor} {who : PeerId} {peer : Peer} : s.peers who = some peer →
      Step config s .internal (s.setPeer who (peer.replaceSocket socket now).1)
  | detach {s : Floor} {who : PeerId} {peer next : Peer} : s.peers who = some peer →
      peer.detachIfCurrent socket = (next, known) → Step config s .internal (s.setPeer who next)
  | leave {s : Floor} {who : PeerId} : Step config s .internal { s with room := s.room.erasePeer who }
  | withdraw {s : Floor} {who : PeerId} {peer : Peer} : s.peers who = some peer →
      Step config s .internal
        ({ s with room := { s.room with
              fileById := s.room.fileById.filter fun entry => entry.2 ∉ peer.files } }.setPeer who
          { peer with files := [] })
  -- heartbeats, queued frames, the buffer and what else a peer keeps
  | elsewhere {s : Floor} {who : PeerId} {peer next : Peer} : s.peers who = some peer →
      next.peerId = peer.peerId → next.nickname = peer.nickname → next.socket = peer.socket →
      next.files = peer.files → next.dedupe = peer.dedupe → Step config s .internal (s.setPeer who next)

def floor (config : ConfigDto) : Machine Floor Label where
  init s := ∃ name, s = { room := { name } }
  step := Step config

/-- The room's publication order. -/
def published (labels : List Label) : List MessageDto :=
  labels.filterMap fun
    | .published event => some event
    | _ => none

/-! ## Whose frames they are -/

section
variable (config : ConfigDto) (labels : List Label)

/-- The frame came over the transport that was the session's current one, at that time. -/
def Sent (who : PeerId) (nickname : Bytes) (message : MessageDto) (time : Int) : Prop :=
  ∃ before after s peer socket, labels = before ++ .received who socket message :: after ∧
    (floor config).Run before s ∧ s.peers who = some peer ∧ peer.socket = some socket ∧
    peer.nickname = nickname ∧ s.clock = time

/-- There was a session of that name, when the server's clock showed the time. -/
def Known (who : PeerId) (nickname : Bytes) (time : Int) : Prop :=
  ∃ before after s peer, labels = before ++ after ∧ (floor config).Run before s ∧
    s.peers who = some peer ∧ peer.nickname = nickname ∧ s.clock = time

/-- What `readMessage` makes of a client's message. -/
def stamped (who : PeerId) (nickname : Bytes) (message : MessageDto) (time : Int) : MessageDto :=
  { message with peerName := some nickname, peerId := some (who : Int), timestamp := some time }

/-- A frame as the server may send it to a whole room: a client's with its author's id and name
and the server's time, or one of the server's own. `number` is what the server put there. -/
inductive Authentic : MessageDto → Prop where
  | chat {number : Option Nat} : Sent config labels who nickname message time →
      message.code = some .peerMessage →
      Authentic { stamped who nickname message time with serverSeq := number }
  | typing : Sent config labels who nickname message time → message.code = some .peerIsTyping →
      Authentic (stamped who nickname message time)
  | shared {number : Option Nat} {files : List File} : Sent config labels who nickname message time →
      message.code = some .fileShare → Known config labels who nickname later →
      Authentic
        { code := some .peerMessageFile, peerId := some (who : Int), peerName := some nickname
          timestamp := some later, files := some (files.map fun file => some (sharedFile file))
          serverSeq := number }
  | withdrawn {number : Option Nat} {files : List (Option FileDto)} : Known config labels who nickname time →
      Authentic
        { code := some .peerMessageFile, peerId := some (who : Int), peerName := some nickname
          files := some files, serverSeq := number }
  | joined {number : Option Nat} : Known config labels who nickname time →
      Authentic { joinedMessage who nickname with serverSeq := number }
  | left {number : Option Nat} : Known config labels who nickname time →
      Authentic { leftMessage who nickname with serverSeq := number }
  | connection : Known config labels who nickname time → Authentic (connectionStateMessage who connected)

/-- A message that is authentic under any sequence. -/
def Draft (message : MessageDto) : Prop :=
  ∀ number, Authentic config labels { message with serverSeq := number } ∧ durableCode message.code = true

end

section
variable {config : ConfigDto} {labels : List Label} {l : Label} {s t : Floor}

theorem Sent.snoc (sent : Sent config labels who nickname message time) :
    Sent config (labels ++ [l]) who nickname message time := by
  obtain ⟨before, after, s, peer, socket, rfl, rest⟩ := sent
  exact ⟨before, after ++ [l], s, peer, socket, by simp, rest⟩

theorem Known.snoc (known : Known config labels who nickname time) :
    Known config (labels ++ [l]) who nickname time := by
  obtain ⟨before, after, s, peer, rfl, rest⟩ := known
  exact ⟨before, after ++ [l], s, peer, by simp, rest⟩

theorem Authentic.snoc (authentic : Authentic config labels frame) : Authentic config (labels ++ [l]) frame := by
  cases authentic with
  | chat sent code => exact .chat sent.snoc code
  | typing sent code => exact .typing sent.snoc code
  | shared sent code known => exact .shared sent.snoc code known.snoc
  | withdrawn known => exact .withdrawn known.snoc
  | joined known => exact .joined known.snoc
  | left known => exact .left known.snoc
  | connection known => exact .connection known.snoc

theorem Draft.snoc (draft : Draft config labels message) : Draft config (labels ++ [l]) message :=
  fun number => ⟨(draft number).1.snoc, (draft number).2⟩

theorem published_snoc (labels : List Label) (l : Label) :
    published (labels ++ [l]) = published labels ++ published [l] :=
  List.filterMap_append

/-- Where a thread stands, its message is the client's and its event is authentic. -/
def Stage.Fits (config : ConfigDto) (labels : List Label) : Stage → Prop
  | .dispatched | .holding | .ended => True
  | .prepared message => Draft config labels message
  | .ordered event | .recorded event | .fanned event => event ∈ published labels

structure Thread.Fits (config : ConfigDto) (labels : List Label) (s : Floor) (thread : Thread) : Prop where
  sent : ∃ nickname message time, Sent config labels thread.peer nickname message time ∧
    thread.message = stamped thread.peer nickname message time ∧
    ∃ peer, s.peers thread.peer = some peer ∧ peer.nickname = nickname
  stage : thread.stage.Fits config labels

/-- Sessions keep their ids and names. -/
def Keeps (s t : Floor) : Prop :=
  ∀ who peer, s.peers who = some peer → ∃ next, t.peers who = some next ∧ next.nickname = peer.nickname

theorem Stage.Fits.snoc {stage : Stage} (fits : stage.Fits config labels) : stage.Fits config (labels ++ [l]) := by
  cases stage with
  | dispatched | holding | ended => trivial
  | prepared message => exact Draft.snoc fits
  | ordered event | recorded event | fanned event =>
    rw [Stage.Fits, published_snoc]
    exact List.mem_append_left _ fits

theorem Thread.Fits.snoc {thread : Thread} (fits : thread.Fits config labels s) (keeps : Keeps s t) :
    thread.Fits config (labels ++ [l]) t where
  sent := by
    obtain ⟨nickname, message, time, sent, is, peer, known, same⟩ := fits.sent
    obtain ⟨next, known, same'⟩ := keeps _ _ known
    exact ⟨nickname, message, time, sent.snoc, is, next, known, same'.trans same⟩
  stage := fits.stage.snoc

theorem Thread.Fits.at {thread : Thread} {stage : Stage} (fits : thread.Fits config labels s)
    (stands : stage.Fits config labels) : (thread.at stage).Fits config labels s := ⟨fits.sent, stands⟩

theorem Keeps.refl (s : Floor) : Keeps s s := fun _ peer known => ⟨peer, known, rfl⟩

theorem keeps_setPeer {who : PeerId} {peer next : Peer} (known : s.peers who = some peer)
    (same : next.nickname = peer.nickname) : Keeps s (s.setPeer who next) := by
  intro q before is
  by_cases here : q = who
  · subst here
    cases known.symm.trans is
    exact ⟨next, Function.update_self _ _ _, same⟩
  · exact ⟨before, (Function.update_of_ne here _ _).trans is, rfl⟩

structure Genuine (config : ConfigDto) (labels : List Label) (s : Floor) : Prop where
  ids : ∀ who peer, s.peers who = some peer → peer.peerId = who
  threads : ∀ k thread, s.threads k = some thread → thread.Fits config labels s
  retains : s.room.Retains config (published labels)
  events : ∀ event ∈ published labels, Authentic config labels event ∧ durableCode event.code = true
  announcing : ∀ event, s.announcing = some event → event ∈ published labels

theorem Genuine.start : Genuine config [] { room := { name } } where
  ids _ _ known := by cases known
  threads _ _ known := by cases known
  retains := .start name
  events _ member := by cases member
  announcing _ is := by cases is

/-- A step that publishes nothing. -/
theorem Genuine.quiet (genuine : Genuine config labels s) (nothing : published [l] = []) (keeps : Keeps s t)
    (ids : ∀ who peer, t.peers who = some peer → peer.peerId = who)
    (log : t.room.sequencer = s.room.sequencer ∧ t.room.history = s.room.history)
    (announcing : ∀ event, t.announcing = some event → s.announcing = some event)
    (threads : ∀ k thread, t.threads k = some thread →
      s.threads k = some thread ∨ thread.Fits config (labels ++ [l]) t) :
    Genuine config (labels ++ [l]) t := by
  have same : published (labels ++ [l]) = published labels := by
    rw [published_snoc, nothing, List.append_nil]
  refine ⟨ids, fun k thread is => ?_, ?_, ?_, ?_⟩
  · rcases threads k thread is with old | new
    · exact (genuine.threads k thread old).snoc keeps
    · exact new
  · obtain ⟨latest, numbered, history⟩ := genuine.retains
    rw [same]
    exact ⟨log.1 ▸ latest, numbered, log.2 ▸ history⟩
  · rw [same]
    exact fun event member => ⟨(genuine.events event member).1.snoc, (genuine.events event member).2⟩
  · rw [same]
    exact fun event is => genuine.announcing event (announcing event is)

/-- A thread goes on. -/
theorem Genuine.move {thread : Thread} (genuine : Genuine config labels s) (nothing : published [l] = [])
    (keeps : Keeps s t) (ids : ∀ who peer, t.peers who = some peer → peer.peerId = who)
    (log : t.room.sequencer = s.room.sequencer ∧ t.room.history = s.room.history)
    (announcing : t.announcing = s.announcing)
    (threads : t.threads = Function.update s.threads k (some thread)) (fits : thread.Fits config labels s) :
    Genuine config (labels ++ [l]) t := by
  refine genuine.quiet nothing keeps ids log (by simp [announcing]) ?_
  intro j other is
  rw [threads] at is
  by_cases here : j = k
  · subst here
    rw [Function.update_self] at is
    cases is
    exact .inr (fits.snoc keeps)
  · rw [Function.update_of_ne here] at is
    exact .inl is

/-- A thread goes on while the room and the peers stay as they are. -/
theorem Genuine.turn {thread : Thread} (genuine : Genuine config labels s) (nothing : published [l] = [])
    (peers : t.peers = s.peers) (room : t.room = s.room) (announcing : t.announcing = s.announcing)
    (threads : t.threads = Function.update s.threads k (some thread)) (fits : thread.Fits config labels s) :
    Genuine config (labels ++ [l]) t :=
  genuine.move nothing (fun _ peer known => ⟨peer, peers ▸ known, rfl⟩) (peers ▸ genuine.ids)
    (room ▸ ⟨rfl, rfl⟩) announcing threads fits

theorem Genuine.ids_setPeer {who : PeerId} {peer next : Peer} (genuine : Genuine config labels s)
    (known : s.peers who = some peer) (same : next.peerId = peer.peerId) :
    ∀ q other, (s.setPeer who next).peers q = some other → other.peerId = q := by
  intro q other is
  by_cases here : q = who
  · subst here
    cases (Function.update_self _ _ _).symm.trans is
    exact same.trans (genuine.ids q peer known)
  · exact genuine.ids q other ((Function.update_of_ne here _ _).symm.trans is)

/-- A step of a member alone. -/
theorem Genuine.member {who : PeerId} {peer next : Peer} (genuine : Genuine config labels s)
    (known : s.peers who = some peer) (same : next.peerId = peer.peerId) (name : next.nickname = peer.nickname)
    (log : room.sequencer = s.room.sequencer ∧ room.history = s.room.history) :
    Genuine config (labels ++ [.internal]) ({ s with room }.setPeer who next) :=
  genuine.quiet rfl (keeps_setPeer (s := { s with room }) known name) (genuine.ids_setPeer known same) log
    (fun _ is => is) fun _ _ => .inl

/-- A publication. -/
theorem Genuine.publish (genuine : Genuine config labels s) (draft : Draft config labels message)
    (adds : s.room.addHistoryMessage config message = some (room, event))
    (peers : t.peers = s.peers) (is : t.room = room)
    (announcing : ∀ other, t.announcing = some other → s.announcing = some other ∨ other = event)
    (threads : ∀ k thread, t.threads k = some thread →
      s.threads k = some thread ∨ thread.Fits config (labels ++ [.published event]) t) :
    Genuine config (labels ++ [.published event]) t := by
  have more : published (labels ++ [.published event]) = published labels ++ [event] := published_snoc _ _
  have keeps : Keeps s t := fun who peer known => ⟨peer, peers ▸ known, rfl⟩
  obtain ⟨sequenced, _⟩ := Room.addHistoryMessage_eq_some adds
  refine ⟨peers ▸ genuine.ids, fun k thread is => ?_, ?_, ?_, ?_⟩
  · rcases threads k thread is with old | new
    · exact (genuine.threads k thread old).snoc keeps
    · exact new
  · rw [more, is]
    exact genuine.retains.publish adds
  · rw [more]
    intro other member
    rcases List.mem_append.mp member with old | new
    · exact ⟨(genuine.events other old).1.snoc, (genuine.events other old).2⟩
    · rw [List.mem_singleton.mp new, sequenced]
      exact ⟨(draft _).1.snoc, (draft none).2⟩
  · rw [more]
    intro other announces
    rcases announcing other announces with old | new
    · exact List.mem_append_left _ (genuine.announcing other old)
    · exact List.mem_append_right _ (List.mem_singleton.mpr new)

theorem handleMessage_typing {message : MessageDto} (typing : handleMessage message = .typing) :
    message.code = some .peerIsTyping := by
  unfold handleMessage at typing
  split at typing
  · cases typing
  · split at typing <;> cases typing
  · split at typing <;> cases typing
  · assumption
  · cases typing
  · cases typing

theorem detachIfCurrent_name {peer next : Peer} (detached : peer.detachIfCurrent socket = (next, known)) :
    next.peerId = peer.peerId ∧ next.nickname = peer.nickname := by
  unfold Peer.detachIfCurrent at detached
  split at detached <;> cases detached <;> exact ⟨rfl, rfl⟩

/-- The server's own announcements are of sessions there are. -/
theorem Own.draft (own : Own s message) (run : (floor config).Run labels s)
    (ids : ∀ who peer, s.peers who = some peer → peer.peerId = who) : Draft config labels message := by
  have here {who peer} (known : s.peers who = some peer) : Known config labels who peer.nickname s.clock :=
    ⟨labels, [], s, peer, (List.append_nil _).symm, run, known, rfl, rfl⟩
  intro number
  cases own with
  | joined known => exact ⟨.joined (here known), rfl⟩
  | left known => exact ⟨.left (here known), rfl⟩
  | @withdrawn who peer files known =>
    have withdrawn := @Authentic.withdrawn config labels who peer.nickname s.clock number
      (files.map fun file => some
        { serverFileId := some file.serverFileId, name := some file.fileName
          size := some file.fileSize, available := some false }) (here known)
    rw [← ids who peer known] at withdrawn
    exact ⟨withdrawn, rfl⟩

theorem Genuine.step (genuine : Genuine config labels s) (run : (floor config).Run labels s)
    (step : Step config s l t) : Genuine config (labels ++ [l]) t := by
  cases step with
  | tick => exact genuine.quiet rfl (Keeps.refl s) genuine.ids ⟨rfl, rfl⟩ (fun _ is => is) fun _ _ => .inl
  | @receive _ who peer socket message known current =>
    refine genuine.quiet rfl (Keeps.refl s) genuine.ids ⟨rfl, rfl⟩ (fun _ is => is) fun j thread is => ?_
    by_cases here : j = s.count
    · subst here
      cases (Function.update_self _ _ _).symm.trans is
      have stamp : peer.stamp message s.clock = stamped who peer.nickname message s.clock := by
        rw [Peer.stamp, genuine.ids who peer known]
        rfl
      exact .inr ⟨⟨_, message, s.clock, ⟨labels, [], s, peer, socket, rfl, run, known, current, rfl, rfl⟩,
        stamp, peer, known, rfl⟩, trivial⟩
    · exact .inl ((Function.update_of_ne here _ _).symm.trans is)
  | refuse is | typing is | chunk is | again is | full is | hold is | limit is | exhausted is | unrecorded is
  | acknowledge is => exact genuine.turn rfl rfl rfl rfl rfl ((genuine.threads _ _ is).at trivial)
  | @prepare k _ thread is stands code =>
    have fits := genuine.threads _ _ is
    obtain ⟨nickname, message, time, sent, stamp, _⟩ := fits.sent
    refine genuine.turn rfl rfl rfl rfl rfl (fits.at fun number => ⟨?_, ?_⟩)
    · rw [stamp] at code ⊢
      exact .chat sent code
    · rw [code]
      rfl
  | @share k files _ thread peer host room is stands code known shared =>
    have fits := genuine.threads _ _ is
    obtain ⟨nickname, message, time, sent, stamp, current, known', name⟩ := fits.sent
    cases known.symm.trans known'
    obtain ⟨rfl, log⟩ := Room.shareFiles_eq_some shared
    refine genuine.move rfl (keeps_setPeer (s := { s with room }) known rfl)
      (genuine.ids_setPeer known rfl) log rfl rfl (fits.at fun number => ⟨?_, rfl⟩)
    rw [stamp] at code
    have here : Known config labels thread.peer nickname s.clock :=
      ⟨labels, [], s, peer, (List.append_nil _).symm, run, known, name, rfl⟩
    have announced := @Authentic.shared config labels thread.peer nickname message time s.clock number files
      sent code here
    rw [← genuine.ids _ peer known, ← name] at announced
    exact announced
  | @order k message event _ thread room is stands free adds =>
    have fits := genuine.threads _ _ is
    have draft : Draft config labels message := by
      have stage := fits.stage
      rwa [stands] at stage
    refine genuine.publish draft adds rfl rfl (fun _ => .inl) fun j other is' => ?_
    by_cases here : j = k
    · subst here
      cases (Function.update_self _ _ _).symm.trans is'
      refine .inr ⟨(fits.snoc (Keeps.refl s)).sent, ?_⟩
      rw [Thread.at, Stage.Fits, published_snoc]
      exact List.mem_append_right _ (List.mem_singleton_self _)
    · exact .inl ((Function.update_of_ne here _ _).symm.trans is')
  | @record k event dedupe _ thread peer is stands known remembers =>
    have fits := genuine.threads _ _ is
    have stage := fits.stage
    rw [stands] at stage
    exact genuine.move rfl (keeps_setPeer known rfl) (genuine.ids_setPeer known rfl) ⟨rfl, rfl⟩ rfl rfl
      (fits.at (show (Stage.recorded event).Fits config labels from stage))
  | @broadcast k event _ thread is stands =>
    have fits := genuine.threads _ _ is
    have stage := fits.stage
    rw [stands] at stage
    exact genuine.turn rfl rfl rfl rfl rfl (fits.at (show (Stage.fanned event).Fits config labels from stage))
  | announce free own adds =>
    refine genuine.publish (own.draft run genuine.ids) adds rfl rfl (fun other is => ?_) fun _ _ => .inl
    cases is
    exact .inr rfl
  | announced announces =>
    exact genuine.quiet rfl (Keeps.refl s) genuine.ids ⟨rfl, rfl⟩ (fun _ is => by cases is) fun _ _ => .inl
  | connection | replay =>
    exact genuine.quiet rfl (Keeps.refl s) genuine.ids ⟨rfl, rfl⟩ (fun _ is => is) fun _ _ => .inl
  | @join socket roomId nickname now _ who room fresh adds =>
    refine genuine.quiet rfl ?_ ?_ (Room.addPeer_log adds) (fun _ is => is) fun _ _ => .inl
    · intro q peer known
      have other : q ≠ who := by
        rintro rfl
        cases fresh.symm.trans known
      exact ⟨peer, (Function.update_of_ne other _ _).trans known, rfl⟩
    · intro q peer is
      by_cases here : q = who
      · subst here
        cases (Function.update_self _ _ _).symm.trans is
        rfl
      · exact genuine.ids q peer ((Function.update_of_ne here _ _).symm.trans is)
  | bind known => exact genuine.member known rfl rfl ⟨rfl, rfl⟩
  | detach known detached =>
    obtain ⟨same, name⟩ := detachIfCurrent_name detached
    exact genuine.member known same name ⟨rfl, rfl⟩
  | leave => exact genuine.quiet rfl (Keeps.refl s) genuine.ids ⟨rfl, rfl⟩ (fun _ is => is) fun _ _ => .inl
  | withdraw known => exact genuine.member known rfl rfl ⟨rfl, rfl⟩
  | elsewhere known same name => exact genuine.member known same name ⟨rfl, rfl⟩

theorem run_genuine (run : (floor config).Run labels s) : Genuine config labels s := by
  induction run with
  | start initial =>
    obtain ⟨name, rfl⟩ := initial
    exact .start
  | next run step ih => exact ih.step run step

/-- What is sent to the room is authentic, and durable events are among the published ones. -/
theorem fanned_authentic (run : (floor config).Run labels s) (step : Step config s (.fanned frame) t) :
    Authentic config labels frame ∧ (durableCode frame.code = true → frame ∈ published labels) := by
  have genuine := run_genuine run
  have event (member : frame ∈ published labels) : Authentic config labels frame ∧
      (durableCode frame.code = true → frame ∈ published labels) :=
    ⟨(genuine.events frame member).1, fun _ => member⟩
  cases step with
  | typing is _ typing =>
    obtain ⟨nickname, message, time, sent, stamp, _⟩ := (genuine.threads _ _ is).sent
    have code := handleMessage_typing typing
    refine ⟨?_, fun durable => ?_⟩
    · rw [stamp] at code ⊢
      exact .typing sent code
    · rw [code] at durable
      cases durable
  | broadcast is stands =>
    have stage := (genuine.threads _ _ is).stage
    rw [stands] at stage
    exact event stage
  | announced announces => exact event (genuine.announcing frame announces)
  | @connection connected _ who peer known =>
    refine ⟨.connection ⟨labels, [], s, peer, (List.append_nil _).symm, run, known, rfl, rfl⟩, fun durable => ?_⟩
    cases durable

/-- The events are numbered in the order of their publication. -/
theorem published_position (run : (floor config).Run labels s) {i : Nat}
    (is : (published labels)[i]? = some event) : event.serverSeq = some (i + 1) := by
  have key := (run_genuine run).retains.numbered.getElem? is
  rwa [Nat.zero_add, Nat.add_comm] at key

theorem authorship_unforged (run : (floor config).Run labels s) :
    (∀ front frame back, labels = front ++ .fanned frame :: back →
      Authentic config front frame ∧ (durableCode frame.code = true →
        ∃ i, (published front)[i]? = some frame ∧ frame.serverSeq = some (i + 1))) ∧
    (∀ front history back, labels = front ++ .replayed history :: back → ∀ frame ∈ history,
      Authentic config front frame ∧
        ∃ i, (published front)[i]? = some frame ∧ frame.serverSeq = some (i + 1)) ∧
    ∀ i event, (published labels)[i]? = some event → event.serverSeq = some (i + 1) := by
  refine ⟨?_, ?_, fun _ _ => published_position run⟩
  · rintro front frame back rfl
    obtain ⟨before, _, run, step⟩ := run.inside
    obtain ⟨authentic, durable⟩ := fanned_authentic run step
    refine ⟨authentic, fun is => ?_⟩
    obtain ⟨i, found⟩ := List.mem_iff_getElem?.mp (durable is)
    exact ⟨i, found, published_position run found⟩
  · rintro front history back rfl frame member
    obtain ⟨before, _, run, step⟩ := run.inside
    have genuine := run_genuine run
    have kept : frame ∈ published front := by
      cases step
      have retained := (List.mem_filter.mp member).1
      rw [genuine.retains.history] at retained
      exact List.mem_of_mem_drop retained
    obtain ⟨i, found⟩ := List.mem_iff_getElem?.mp kept
    exact ⟨(genuine.events frame kept).1, i, found, published_position run found⟩

end

/-- A client that says it is another one, and at another place in the history. -/
def forged : MessageDto :=
  { code := some .peerIsTyping, peerId := some 9, peerName := some [0x62], serverSeq := some 7 }

theorem authorship_unforged_typing :
    Authentic {} [.internal, .received 1 5 forged] (stamped 1 [0x61] forged 0) := by
  have start : (floor {}).Run [] { room := { name := [] } } := .start ⟨[], rfl⟩
  have joined := start.next (@Step.join {} 5 0 [0x61] 0 _ 1 _ (by rfl) (by rfl))
  have received := joined.next (@Step.receive {} _ 1 _ 5 forged (by rfl) (by rfl))
  have sent := received.next (@Step.typing {} 0 _ _ (by rfl) (by rfl) (by rfl))
  exact ((authorship_unforged sent).1 [.internal, .received 1 5 forged] _ [] (by rfl)).1

end Conspire.Authorship
