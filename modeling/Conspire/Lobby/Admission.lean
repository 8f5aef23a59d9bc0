import Conspire.Lobby.Lifecycle

/-! One hello from beginning to end, while no other operation is in progress: it is
rejected without a trace, it binds its socket to the peer whose token it carries, or
it makes one new session. -/
namespace Conspire.Sessions
open Session Boundaries Transition

variable {config : ConfigDto} {digest : Bytes → Bytes} {lobby next : Lobby} {who : PeerId}

def Exhausted (room : Room) : Prop := room.sequencer.latest = maxSequence

theorem addHistoryMessage_eq_none {room : Room} :
    room.addHistoryMessage config message = none ↔ Exhausted room := by
  simp only [Room.addHistoryMessage, RoomSequencer.next, Exhausted]
  by_cases full : room.sequencer.latest = maxSequence
  · simp [full]
  · simp only [full, if_false, iff_false]
    split <;> simp

theorem publish_eq_none {room : RoomId} :
    lobby.publish config room message = none ↔ Exhausted (lobby.room room) := by
  rw [Lobby.publish, Option.map_eq_none_iff, addHistoryMessage_eq_none]

theorem publish_keeps {room : RoomId} (published : lobby.publish config room message = some next) :
    next.peer = lobby.peer ∧ next.sessions = lobby.sessions ∧ next.invalidated = lobby.invalidated := by
  obtain ⟨added, _, rfl⟩ := Option.map_eq_some_iff.mp published
  exact ⟨rfl, rfl, rfl⟩

/-- The hello of a page with another capability has files to announce as withdrawn. -/
def Withdraws (peer : Peer) (capability : Bytes) : Prop :=
  (peer.setFileCapability (some capability)).2 = true ∧ peer.files ≠ []

theorem takeFiles_spec {peer : Peer} (known : lobby.peer who = some peer) :
    ∃ next after, lobby.takeFiles who = (next, peer.files) ∧ next.peer who = some after ∧
      after.socket = peer.socket ∧ after.room = peer.room ∧ next.invalidated = lobby.invalidated ∧
      ∀ room, (next.room room).sequencer = (lobby.room room).sequencer := by
  simp only [Lobby.takeFiles, known]
  refine ⟨_, peer.takeFilesSnapshot.1, rfl, by simp [Lobby.setPeer, Lobby.setRoom], rfl, rfl, rfl,
    fun room => ?_⟩
  by_cases here : room = peer.room
  · subst here
    simp [Lobby.setPeer, Lobby.setRoom]
  · simp [Lobby.setPeer, Lobby.setRoom, here]

/-- What the last part of a hello comes to: it fails if and only if it has files to
withdraw and no sequence to do it with. -/
theorem greet_spec {peer : Peer} (known : lobby.peer who = some peer) (resumed : Bool)
    (token : Bytes) (hello : HelloFields) :
    ((lobby.greet config who resumed token hello).2 = none ↔
      Withdraws peer hello.fileCapabilityId ∧ Exhausted (lobby.room peer.room)) ∧
    (∀ accepted, (lobby.greet config who resumed token hello).2 = some accepted →
      accepted.peer = who ∧ accepted.resumed = resumed) ∧
    (lobby.greet config who resumed token hello).1.socketOf who = some peer.socket ∧
    (lobby.greet config who resumed token hello).1.invalidated = lobby.invalidated := by
  obtain ⟨bound, is⟩ : ∃ bound, bound = (peer.setFileCapability (some hello.fileCapabilityId)).1 :=
    ⟨_, rfl⟩
  have files : bound.files = peer.files := by rw [is]; rfl
  have room : bound.room = peer.room := by rw [is]; rfl
  have binding : bound.socket = peer.socket := by rw [is]; rfl
  have set : lobby.setFileCapability who (some hello.fileCapabilityId) =
      (lobby.setPeer who bound, (peer.setFileCapability (some hello.fileCapabilityId)).2) := by
    simp only [Lobby.setFileCapability, known, is]
  have here : (lobby.setPeer who bound).peer who = some bound := by simp [Lobby.setPeer]
  simp only [Lobby.greet, set, Withdraws]
  cases changed : (peer.setFileCapability (some hello.fileCapabilityId)).2 with
  | false =>
    simp only [Bool.false_eq_true, if_false, here, List.isEmpty_nil, if_true, false_and, iff_false]
    refine ⟨by simp, fun accepted made => ?_, by simp [Lobby.socketOf, here, binding], rfl⟩
    cases made
    exact ⟨rfl, rfl⟩
  | true =>
    obtain ⟨next, after, taken, owner, socket, home, replaced, sequencers⟩ := takeFiles_spec here
    rw [binding] at socket
    rw [room] at home
    have bindings : next.socketOf who = some peer.socket := by simp [Lobby.socketOf, owner, socket]
    have sequence : Exhausted (next.room peer.room) ↔ Exhausted (lobby.room peer.room) := by
      rw [Exhausted, sequencers]
      rfl
    simp only [if_true, taken, owner, true_and, files, home]
    by_cases empty : peer.files = []
    · simp only [empty, List.isEmpty_nil, if_true, ne_eq, not_true, false_and, iff_false]
      refine ⟨by simp, fun accepted made => ?_, bindings, replaced⟩
      cases made
      exact ⟨rfl, rfl⟩
    · simp only [List.isEmpty_iff, empty, if_false, ne_eq, not_false_eq_true, true_and]
      cases published : next.publish config peer.room (unavailableMessage after peer.files) with
      | none =>
        have full := sequence.mp (publish_eq_none.mp published)
        exact ⟨by simpa using full, by simp, bindings, replaced⟩
      | some last =>
        have full : ¬Exhausted (lobby.room peer.room) := by
          intro full
          rw [publish_eq_none.mpr (sequence.mpr full)] at published
          contradiction
        obtain ⟨peers, _, invalidated⟩ := publish_keeps published
        refine ⟨by simpa using full, fun accepted made => ?_, ?_, invalidated.trans replaced⟩
        · cases made
          exact ⟨rfl, rfl⟩
        · simpa only [Lobby.socketOf, peers] using bindings

/-- The room a hello without a token gets, as it was before. -/
def Obtains (lobby : Lobby) (roomName : Bytes) (room : RoomId) (before : Room) : Prop :=
  lobby.rooms.lookup roomName = some room ∧ before = lobby.room room ∨
    lobby.rooms.lookup roomName = none ∧ room = lobby.created ∧ before = { name := roomName }

theorem getOrCreateRoom_spec :
    (lobby.getOrCreateRoom roomName = (lobby, none)) ∨
      ∃ next room before, lobby.getOrCreateRoom roomName = (next, some room) ∧
        Obtains lobby roomName room before ∧ next.room = Function.update lobby.room room before ∧
        next.sessions = lobby.sessions ∧ next.peer = lobby.peer ∧
        next.peerIdCounter = lobby.peerIdCounter ∧
        (lobby.rooms.lookup roomName = some room → next = lobby) := by
  simp only [Lobby.getOrCreateRoom, Obtains]
  cases known : lobby.rooms.lookup roomName with
  | some room =>
    exact .inr ⟨_, room, _, rfl, .inl ⟨rfl, rfl⟩, by simp, rfl, rfl, rfl, fun _ => rfl⟩
  | none =>
    cases hasCapacity lobby.rooms.length Limits.rooms with
    | false => exact .inl rfl
    | true =>
      exact .inr ⟨_, _, { name := roomName }, rfl, .inr ⟨rfl, rfl, rfl⟩, rfl, rfl, rfl, rfl, by simp⟩

theorem greet_fresh {peer : Peer} (known : lobby.peer who = some peer)
    (unused : peer.fileCapabilityId = []) (resumed : Bool) (token : Bytes) (hello : HelloFields) :
    ∃ ready, lobby.greet config who resumed token hello =
      (lobby.setPeer who { peer with fileCapabilityId := hello.fileCapabilityId },
        some { peer := who, resumed, ready }) := by
  have set : lobby.setFileCapability who (some hello.fileCapabilityId) =
      (lobby.setPeer who { peer with fileCapabilityId := hello.fileCapabilityId }, false) := by
    simp [Lobby.setFileCapability, known, Peer.setFileCapability, unused]
  have here : ∀ p, (lobby.setPeer who p).peer who = some p := by simp [Lobby.setPeer]
  simp only [Lobby.greet, set, Bool.false_eq_true, if_false, here, List.isEmpty_nil, if_true]
  exact ⟨_, rfl⟩

/-- The hello makes one peer, one session and one announcement, and changes nothing
else of peers, sessions and rooms. -/
structure Joins (config : ConfigDto) (digest : Bytes → Bytes) (lobby : Lobby) (socket : Socket)
    (roomName nickname token : Bytes) (accepted : Accepted) (after : Lobby) : Prop where
  fresh : accepted.resumed = false
  counted : accepted.peer = lobby.peerIdCounter
  peer : ∃ peer, after.peer = Function.update lobby.peer accepted.peer (some peer) ∧
    peer.socket = some socket
  joined : ∃ room before joined event, Obtains lobby roomName room before ∧
    Room.addHistoryMessage config { before with peerById := before.peerById ++ [accepted.peer] }
      (joinedMessage accepted.peer nickname) = some (joined, event) ∧
    after.room = Function.update lobby.room room joined ∧
    after.sessions = lobby.sessions ++
      [(digest token, { room, peer := accepted.peer, digest := digest token })]

theorem createPeer_spec (socket : Socket) (room : RoomId) (nickname : Bytes) (now : TimePoint) :
    ∃ after, lobby.createPeer socket room nickname now = (after, lobby.peerIdCounter) ∧
      after.peer = Function.update lobby.peer lobby.peerIdCounter
        (some (Peer.create socket room nickname lobby.peerIdCounter now)) ∧
      after.room = lobby.room ∧ after.sessions = lobby.sessions :=
  ⟨_, rfl, rfl, rfl, rfl⟩

theorem addPeer_spec {room : RoomId} (capacity : (lobby.room room).hasPeerCapacity = true)
    (new : who ∉ (lobby.room room).peerById) :
    lobby.addPeer room who = some (lobby.setRoom room
      { lobby.room room with peerById := (lobby.room room).peerById ++ [who] }) := by
  simp [Lobby.addPeer, Room.addPeer, capacity, new]

theorem addPeer_peer {room : RoomId} (joined : lobby.addPeer room who = some next) :
    next.peer = lobby.peer := by
  obtain ⟨_, _, rfl⟩ := Option.map_eq_some_iff.mp joined
  rfl

theorem insertSession_keeps (record : SessionRecord) :
    (lobby.insertSession record).peer = lobby.peer ∧ (lobby.insertSession record).room = lobby.room := by
  unfold Lobby.insertSession
  split <;> exact ⟨rfl, rfl⟩

/-- A hello without a token makes a session or leaves everything as it was. -/
theorem acceptFresh_spec {socket : Socket} {nickname : Bytes} (hello : HelloFields)
    (outside : ∀ room, lobby.peerIdCounter ∉ (lobby.room room).peerById)
    (new : lobby.sessions.lookup (digest token) = none)
    (unexhausted : ∀ room, ¬Exhausted (lobby.room room)) :
    lobby.acceptFresh config digest socket roomName nickname hello (some token) now = (lobby, none) ∨
      ∃ after accepted,
        lobby.acceptFresh config digest socket roomName nickname hello (some token) now =
          (after, some accepted) ∧
        Joins config digest lobby socket roomName nickname token accepted after := by
  rcases @getOrCreateRoom_spec lobby roomName with
    found | ⟨next, room, before, found, obtains, rooms, sessions, peers, counter, known⟩
  · exact .inl (by simp only [Lobby.acceptFresh, found])
  have here : next.room room = before := by simp [rooms]
  by_cases capacity : before.hasPeerCapacity = true
  · have unheard : lobby.peerIdCounter ∉ before.peerById := by
      rcases obtains with ⟨_, rfl⟩ | ⟨_, _, rfl⟩
      · exact outside room
      · nofun
    have sequence : ¬Exhausted before := by
      rcases obtains with ⟨_, rfl⟩ | ⟨_, _, rfl⟩
      · exact unexhausted room
      · simp [Exhausted, maxSequence]
    obtain ⟨created, made, owner, kept, registry⟩ := @createPeer_spec next socket room
      nickname now
    rw [counter] at made owner
    have joins := @addPeer_spec created _ _ (by rw [kept, here, capacity])
      (by rw [kept, here]; exact unheard)
    rw [kept, here] at joins
    obtain ⟨member, is⟩ : ∃ member, member = created.setRoom room
        { before with peerById := before.peerById ++ [lobby.peerIdCounter] } := ⟨_, rfl⟩
    rw [← is] at joins
    obtain ⟨registered, is'⟩ : ∃ registered : Lobby, registered = { member with sessions := lobby.sessions ++
        [(digest token, { room, peer := lobby.peerIdCounter, digest := digest token })] } := ⟨_, rfl⟩
    have inserted : member.insertSession { room, peer := lobby.peerIdCounter, digest := digest token } =
        registered := by
      have unchanged : member.sessions = lobby.sessions := by
        rw [is, ← sessions, ← registry]
        rfl
      simp [Lobby.insertSession, unchanged, new, is']
    obtain ⟨⟨joined, event⟩, announced⟩ := Option.ne_none_iff_exists'.mp
      (mt (@addHistoryMessage_eq_none config (joinedMessage lobby.peerIdCounter nickname)
        { before with peerById := before.peerById ++ [lobby.peerIdCounter] }).mp sequence)
    have published : registered.publish config room (joinedMessage lobby.peerIdCounter nickname) =
        some (registered.setRoom room joined) := by
      rw [Lobby.publish, is', is]
      simp [Lobby.setRoom, announced]
    have bound : (registered.setRoom room joined).peer lobby.peerIdCounter =
        some (Peer.create socket room nickname lobby.peerIdCounter now) := by
      rw [is', is]
      simp [Lobby.setRoom, owner]
    obtain ⟨ready, greeted⟩ := @greet_fresh config _ _ _ bound rfl false token hello
    have accepts : lobby.acceptFresh config digest socket roomName nickname hello (some token) now =
        ((registered.setRoom room joined).setPeer lobby.peerIdCounter
          { Peer.create socket room nickname lobby.peerIdCounter now with
            fileCapabilityId := hello.fileCapabilityId },
          some { peer := lobby.peerIdCounter, resumed := false, ready }) := by
      simp only [Lobby.acceptFresh, found, here, capacity, Bool.not_true, Bool.false_eq_true,
        if_false, made, joins, inserted, published, greeted]
    refine .inr ⟨_, _, accepts, rfl, rfl,
      ⟨{ Peer.create socket room nickname lobby.peerIdCounter now with
          fileCapabilityId := hello.fileCapabilityId }, ?_, rfl⟩,
      room, before, joined, event, obtains, announced, ?_, ?_⟩
    · rw [is', is]
      simp [Lobby.setPeer, Lobby.setRoom, owner, peers]
    · rw [is', is]
      simp [Lobby.setPeer, Lobby.setRoom, kept, rooms]
    · rw [is']
      rfl
  · rcases obtains with ⟨is, _⟩ | ⟨_, _, rfl⟩
    · obtain rfl := known is
      exact .inl (by simp [Lobby.acceptFresh, found, here, capacity])
    · exact absurd rfl capacity

section
variable {s : Service} {st : PeerId → Standing} {record : SessionRecord} {socket : Socket}

/-- The session of a bearer is the one its token finds. -/
theorem Consistent.lookup (free : CollisionFree digest) (tokened : Tokened s)
    (c : Consistent digest s st) (member : (key, record) ∈ s.lobby.sessions)
    (bearer : s.bearer record.peer = some token) :
    s.lobby.sessions.lookup (digest token) = some record ∧ record.digest = digest token := by
  obtain ⟨_, _, other, _, _, borne, is, records⟩ := c.entry member
  obtain rfl := Option.some.inj (borne.symm.trans bearer)
  obtain ⟨here, same⟩ := Prod.mk.inj is
  refine ⟨?_, by rw [same]⟩
  cases found : s.lobby.sessions.lookup (digest other) with
  | none =>
    have absent := List.lookup_eq_none_iff.mp found _ member
    simp [here] at absent
  | some first =>
    have owner : first.peer = record.peer :=
      c.keyed free tokened bearer _ (mem_of_lookup found) rfl
    have listed : (digest other, first) ∈ s.lobby.records record.peer := by
      simp [Lobby.records, mem_of_lookup found, owner]
    rw [records] at listed
    exact congrArg some (Prod.mk.inj (List.mem_singleton.mp listed)).2

/-- What the token of a hello finds. -/
structure Finds (digest : Bytes → Bytes) (s : Service) (roomName token : Bytes) (now : TimePoint)
    (record : SessionRecord) (peer : Peer) : Prop where
  session : s.lobby.sessions.lookup (digest token) = some record
  named : (s.lobby.room record.room).name = roomName
  resumable : record.lease.canResume now = true
  bearer : s.bearer record.peer = some token
  known : s.lobby.peer record.peer = some peer
  room : peer.room = record.room
  unbound : peer.socket = none

theorem finds_of_resumeLease {next : Lobby} (free : CollisionFree digest) (tokened : Tokened s)
    (c : Consistent digest s st) (valid : validBase64UrlId token 32 = true)
    (resumed : s.lobby.resumeLease (digest token) roomName now = some (next, who)) :
    ∃ record peer, Finds digest s roomName token now record peer ∧ who = record.peer ∧
      next.peer = s.lobby.peer ∧ next.room = s.lobby.room ∧
      next.invalidated = s.lobby.invalidated := by
  obtain ⟨record, lease, member, named, resumes, rfl, rfl⟩ := resumeLease_eq resumed
  obtain ⟨has, room, other, leased, sited, bearer, entry, _⟩ := c.entry member
  obtain ⟨key, is⟩ := Prod.mk.inj entry
  obtain rfl := free _ _ valid (tokened.borne _ _ bearer).2 key
  have sameLease : record.lease = has := by rw [is]
  have sameRoom : record.room = room := by rw [is]
  obtain ⟨since, stands, -, -⟩ := resume_eq leased (sameLease ▸ resumes)
  have socket := (c.fits record.peer).socket
  rw [stands] at socket
  obtain ⟨peer, known, unbound⟩ := Option.map_eq_some_iff.mp socket
  have sited : peer.room = room := by simpa [Lobby.roomOf, known] using sited
  refine ⟨record, peer, ⟨(c.lookup free tokened member bearer).1, named, ?_, bearer, known,
    sited.trans sameRoom.symm, unbound⟩, rfl, rfl, rfl, rfl⟩
  by_contra stale
  simp [SessionLease.resume, stale] at resumes

theorem resumeLease_of_finds (found : lobby.sessions.lookup key = some record)
    (keyed : record.digest = key) (named : (lobby.room record.room).name = roomName) :
    lobby.resumeLease key roomName now = none ↔ record.lease.canResume now = false := by
  simp only [Lobby.resumeLease, found, keyed, named, ne_eq, not_true, decide_false, Bool.or_self,
    Bool.false_eq_true, if_false, Option.map_eq_none_iff, SessionLease.resume]
  cases record.lease.canResume now <;> simp

/-- The result of a hello whose token finds a session. -/
theorem resume_spec {next : Lobby} {peer : Peer} (known : next.peer who = some peer)
    (hello : HelloFields) (token : Bytes) (now : TimePoint) :
    ((next.replaceSocket who socket now).greet config who true token hello).1.socketOf who =
        some (some socket) ∧
      (((next.replaceSocket who socket now).greet config who true token hello).2 = none ↔
        Withdraws peer hello.fileCapabilityId ∧ Exhausted (next.room peer.room)) ∧
      ∀ accepted, ((next.replaceSocket who socket now).greet config who true token hello).2 =
        some accepted → accepted.peer = who ∧ accepted.resumed = true := by
  have replaced : (next.replaceSocket who socket now).peer who =
      some (peer.replaceSocket socket now).1 := by
    simp [Lobby.replaceSocket, known, Lobby.setPeer]
  have rooms : (next.replaceSocket who socket now).room = next.room := by
    simp [Lobby.replaceSocket, known, Lobby.setPeer]
  obtain ⟨fails, accepts, bound, _⟩ := @greet_spec config _ _ _ replaced true token hello
  refine ⟨bound, ?_, accepts⟩
  rw [fails, rooms]
  rfl

end

theorem checkHello_token {fields : HelloFields} (checked : checkHello hello = some fields) :
    ∃ message, hello = some message ∧ fields.resumeToken = message.resumeToken := by
  unfold checkHello at checked
  split at checked
  · contradiction
  · rename_i message
    split at checked
    · split at checked
      · split at checked
        · cases checked
          exact ⟨message, rfl, rfl⟩
        · contradiction
      · contradiction
    · contradiction

/-- The hello binds its socket to the peer whose token it carries. -/
structure Resumes (s : Service) (socket : Socket) (roomName : Bytes) (hello : Option MessageDto)
    (accepted : Accepted) (after : Lobby) : Prop where
  resumed : accepted.resumed = true
  token : ∃ message token, hello = some message ∧ message.resumeToken = some token ∧
    s.bearer accepted.peer = some token
  room : ∃ room, s.lobby.roomOf accepted.peer = some room ∧ (s.lobby.room room).name = roomName
  bound : after.socketOf accepted.peer = some (some socket)

theorem takePending_cases {socket : Socket} :
    lobby.takePending socket now = none ∨ lobby.takePending socket now = some (lobby.forgetPending socket) := by
  cases taken : lobby.takePending socket now with
  | none => exact .inl rfl
  | some next => exact .inr (congrArg some (takePending_eq taken))

section
variable {s : Service} {st : PeerId → Standing} {socket : Socket} {roomName nickname : Bytes}
  {made : Option Bytes} {now : TimePoint}

/-- A hello whose token finds a session of its room. -/
theorem acceptResume_cases (free : CollisionFree digest) (tokened : Tokened s)
    (c : Consistent digest s st) (unexhausted : ∀ room, ¬Exhausted (s.lobby.room room))
    (hello : HelloFields) (token : Bytes) :
    s.lobby.acceptResume config digest socket roomName hello token now = (s.lobby, none) ∨
      ∃ record peer accepted after,
        s.lobby.acceptResume config digest socket roomName hello token now = (after, some accepted) ∧
        Finds digest s roomName token now record peer ∧ accepted.peer = record.peer ∧
        accepted.resumed = true ∧ after.socketOf record.peer = some (some socket) := by
  cases valid : validBase64UrlId token 32 with
  | false => exact .inl (by simp [Lobby.acceptResume, valid])
  | true =>
    cases resumed : s.lobby.resumeLease (digest token) roomName now with
    | none => exact .inl (by simp [Lobby.acceptResume, valid, resumed])
    | some found =>
      obtain ⟨next, who⟩ := found
      obtain ⟨record, peer, finds, rfl, peers, rooms, _⟩ := finds_of_resumeLease free tokened c valid resumed
      obtain ⟨bound, fails, accepts⟩ := @resume_spec config _ socket _ _
        (peers ▸ finds.known) hello token now
      have is : s.lobby.acceptResume config digest socket roomName hello token now =
          (next.replaceSocket record.peer socket now).greet config record.peer true token hello := by
        simp [Lobby.acceptResume, valid, resumed]
      rw [is]
      cases outcome : ((next.replaceSocket record.peer socket now).greet config record.peer true token
          hello).2 with
      | none => exact absurd (rooms ▸ (fails.mp outcome).2) (unexhausted _)
      | some accepted =>
        obtain ⟨owner, resumes⟩ := accepts accepted outcome
        exact .inr ⟨record, peer, accepted, _, Prod.ext rfl outcome, finds, owner, resumes, bound⟩

/-- The three ways a hello ends. -/
inductive Outcome (config : ConfigDto) (digest : Bytes → Bytes) (s : Service) (socket : Socket)
    (roomName nickname : Bytes) (hello : Option MessageDto) (made : Option Bytes) (now : TimePoint) :
    Lobby → Option Accepted → Prop where
  | rejected : after = s.lobby ∨ after = s.lobby.forgetPending socket →
      Outcome config digest s socket roomName nickname hello made now after none
  | resumed : hello = some message → message.resumeToken = some token →
      Finds digest s roomName token now record peer → accepted.peer = record.peer →
      accepted.resumed = true → after.socketOf record.peer = some (some socket) →
      Outcome config digest s socket roomName nickname hello made now after (some accepted)
  | joined : hello = some message → message.resumeToken = none → made = some token →
      Joins config digest s.lobby socket roomName nickname token accepted after →
      Outcome config digest s socket roomName nickname hello made now after (some accepted)

theorem hello_outcome (free : CollisionFree digest) (tokened : Tokened s)
    (c : Consistent digest s st) (unexhausted : ∀ room, ¬Exhausted (s.lobby.room room))
    (fresh : ∀ token, made = some token → validBase64UrlId token 32 = true ∧ token ∉ s.issued)
    (result : s.lobby.acceptSessionHello config digest socket roomName nickname hello made now =
      (after, outcome)) :
    Outcome config digest s socket roomName nickname hello made now after outcome := by
  simp only [Lobby.acceptSessionHello] at result
  split at result
  · cases result
    exact .rejected (.inl rfl)
  rename_i fields checked
  obtain ⟨message, is, carried⟩ := checkHello_token checked
  rcases @takePending_cases s.lobby now socket with taken | taken
  · simp only [taken] at result
    cases result
    exact .rejected (.inl rfl)
  simp only [taken] at result
  have c := c.still (t := s.setLobby (s.lobby.forgetPending socket)) local_forgetPending rfl rfl rfl
  have tokened : Tokened (s.setLobby (s.lobby.forgetPending socket)) :=
    ⟨tokened.flying, tokened.apart, tokened.borne, tokened.owned⟩
  split at result
  · rename_i token carries
    rcases @acceptResume_cases config _ _ _ socket roomName now free tokened c unexhausted fields
      token with rejects | ⟨record, peer, accepted, next, accepts, finds, owner, resumed, bound⟩
    · cases rejects.symm.trans result
      exact .rejected (.inr rfl)
    · cases accepts.symm.trans result
      exact .resumed is (carried ▸ carries) ⟨finds.session, finds.named, finds.resumable, finds.bearer,
        finds.known, finds.room, finds.unbound⟩ owner resumed bound
  · rename_i carries
    cases made with
    | none =>
      simp only [Lobby.acceptFresh] at result
      cases result
      exact .rejected (.inr rfl)
    | some token =>
      obtain ⟨valid, unissued⟩ := fresh token rfl
      have new := c.unregistered free tokened valid fun who borne =>
        unissued (tokened.borne who token borne).1
      have outside : ∀ room, s.lobby.peerIdCounter ∉ (s.lobby.room room).peerById := by
        intro room member
        have absent : st s.lobby.peerIdCounter = .absent := c.fresh _ le_rfl
        have is := (((c.fits s.lobby.peerIdCounter).member room).mp member).1
        rw [absent] at is
        cases is
      rcases @acceptFresh_spec config _ (s.lobby.forgetPending socket) _ _ _ _ _ fields outside
        new unexhausted with rejects | ⟨next, accepted, accepts, joins⟩
      · cases rejects.symm.trans result
        exact .rejected (.inr rfl)
      · cases accepts.symm.trans result
        exact .joined is (carried ▸ carries) rfl ⟨joins.fresh, joins.counted, joins.peer, joins.joined⟩

end

/-- A hello is rejected and changes at most its own pending record and the counter of
ids, or it resumes the session whose token it carries in the room of that session, or
it makes one session of a peer nobody has heard of. A token that finds no session of
that room, or one that expires, is rejected. -/
theorem hello_all_or_nothing (free : CollisionFree digest)
    (run : (service config digest).Run labels s) (unexhausted : ∀ room, ¬Exhausted (s.lobby.room room))
    (fresh : ∀ token, made = some token → validBase64UrlId token 32 = true ∧ token ∉ s.issued)
    (result : s.lobby.acceptSessionHello config digest socket roomName nickname hello made now =
      (after, outcome)) :
    (outcome = none → ∃ pending counter,
      after = { s.lobby with pending, peerIdCounter := counter } ∧
      ∀ entry, entry.1 ≠ socket → (entry ∈ pending ↔ entry ∈ s.lobby.pending)) ∧
    (∀ accepted, outcome = some accepted →
      Resumes s socket roomName hello accepted after ∨
      (∃ token, made = some token ∧
        Joins config digest s.lobby socket roomName nickname token accepted after ∧
        s.lobby.peer accepted.peer = none ∧ story accepted.peer labels = [])) ∧
    (∀ message token, hello = some message → message.resumeToken = some token →
      (∀ record, s.lobby.sessions.lookup (digest token) = some record →
        (s.lobby.room record.room).name ≠ roomName ∨ record.lease.expires now = true) →
      outcome = none ∧ after.sessions = s.lobby.sessions) := by
  obtain ⟨tokened, st, c, lives⟩ := standings free run
  cases hello_outcome free tokened c unexhausted fresh result with
  | rejected is =>
    refine ⟨fun _ => ?_, nofun, fun _ _ _ _ _ => ⟨rfl, ?_⟩⟩
    · rcases is with rfl | rfl
      · exact ⟨s.lobby.pending, s.lobby.peerIdCounter, rfl, fun _ _ => Iff.rfl⟩
      · refine ⟨_, s.lobby.peerIdCounter, rfl, fun entry other => ?_⟩
        simp [other]
    · rcases is with rfl | rfl <;> rfl
  | @resumed message token record peer accepted _ is carries finds owner resumed bound =>
    refine ⟨nofun, ?_, fun message' token' is' carries' useless => ?_⟩
    · rintro _ ⟨⟩
      rw [← owner] at bound
      exact .inl ⟨resumed, ⟨message, token, is, carries, owner ▸ finds.bearer⟩,
        ⟨record.room, by simp [Lobby.roomOf, owner, finds.known, finds.room], finds.named⟩, bound⟩
    · obtain rfl := Option.some.inj (is'.symm.trans is)
      obtain rfl := Option.some.inj (carries'.symm.trans carries)
      rcases useless record finds.session with other | expired
      · exact absurd finds.named other
      · have live := finds.resumable
        simp [SessionLease.canResume_eq, expired] at live
  | joined is carries makes joins =>
    refine ⟨nofun, ?_, fun message' token' is' carries' _ => ?_⟩
    · rintro _ ⟨⟩
      have absent := c.fresh s.lobby.peerIdCounter le_rfl
      refine .inr ⟨_, makes, joins, ?_, ?_⟩
      · have socket := (c.fits s.lobby.peerIdCounter).socket
        rw [absent] at socket
        rw [joins.counted]
        exact Option.map_eq_none_iff.mp socket
      · have told := (lifecycle_lawful (lives s.lobby.peerIdCounter)).2
        rw [absent, ← story_eq] at told
        rw [joins.counted]
        exact told
    · obtain rfl := Option.some.inj (is'.symm.trans is)
      rw [carries] at carries'
      cases carries'

/-- The first hello of a lobby makes its first session. -/
theorem hello_all_or_nothing_first : ∃ labels s after accepted,
    (service {} digestFirst).Run labels s ∧
    s.lobby.acceptSessionHello {} digestFirst 0 [] [] (some helloFirst) (some tokenFirst) 0 =
      (after, some accepted) ∧
    (Resumes s 0 [] (some helloFirst) accepted after ∨
      ∃ token, some tokenFirst = some token ∧
        Joins {} digestFirst s.lobby 0 [] [] token accepted after ∧
        s.lobby.peer accepted.peer = none ∧ story accepted.peer labels = []) := by
  have start : (service {} digestFirst).Run [] {} := .start rfl
  have created := start.next (@Step.create _ _ _ 0 [] [] rfl)
  have fresh : ∀ token, some tokenFirst = some token →
      validBase64UrlId token 32 = true ∧ token ∉ ([] : List Bytes) := by
    rintro _ ⟨⟩
    exact ⟨by decide, nofun⟩
  obtain ⟨after, accepted, result⟩ : ∃ after accepted,
      (Lobby.await {} 0 0).acceptSessionHello {} digestFirst 0 [] [] (some helloFirst)
        (some tokenFirst) 0 = (after, some accepted) := ⟨_, _, rfl⟩
  exact ⟨_, _, after, accepted, created, result,
    (hello_all_or_nothing digestFirst_free created (fun _ => nofun) fresh result).2.1 accepted rfl⟩

/-- A bearer gets its session back if and only if the loss of its last transport was
noticed, unless it has files to withdraw in a room without a sequence for that. -/
theorem bearer_resumes (free : CollisionFree digest) (run : (service config digest).Run labels s)
    (member : (key, record) ∈ s.lobby.sessions) (unexpired : record.lease.expires now = false)
    (bearer : s.bearer record.peer = some token) (checked : checkHello hello = some fields)
    (carries : fields.resumeToken = some token)
    (named : (s.lobby.room record.room).name = roomName)
    (pending : s.lobby.takePending socket now ≠ none)
    (result : s.lobby.acceptSessionHello config digest socket roomName nickname hello made now =
      (after, outcome)) :
    (∃ accepted, outcome = some accepted ∧ accepted.peer = record.peer ∧ accepted.resumed = true ∧
      after.socketOf record.peer = some (some socket) ∧
      ∀ old, s.lobby.socketOf record.peer = some (some old) → old ∈ after.invalidated) ↔
    record.lease.disconnected = true ∧
      ∀ peer, s.lobby.peer record.peer = some peer → Withdraws peer fields.fileCapabilityId →
        ¬Exhausted (s.lobby.room record.room) := by
  obtain ⟨tokened, st, c, -⟩ := standings free run
  rcases @takePending_cases s.lobby now socket with taken | taken
  · exact absurd taken pending
  have valid := (tokened.borne record.peer token bearer).2
  have c' := c.still (t := s.setLobby (s.lobby.forgetPending socket)) local_forgetPending rfl rfl rfl
  have tokened' : Tokened (s.setLobby (s.lobby.forgetPending socket)) :=
    ⟨tokened.flying, tokened.apart, tokened.borne, tokened.owned⟩
  obtain ⟨found, keyed⟩ := c.lookup free tokened member bearer
  have resumes : (s.lobby.forgetPending socket).resumeLease (digest token) roomName now = none ↔
      record.lease.disconnected = false := by
    have found : (s.lobby.forgetPending socket).sessions.lookup (digest token) = some record := found
    rw [resumeLease_of_finds found keyed named, SessionLease.canResume_eq, unexpired]
    simp
  simp only [Lobby.acceptSessionHello, checked, taken, carries] at result
  cases resumed : (s.lobby.forgetPending socket).resumeLease (digest token) roomName now with
  | none =>
    have noticed := resumes.mp resumed
    simp only [Lobby.acceptResume, valid, Bool.not_true, Bool.false_eq_true, if_false, resumed] at result
    cases result
    simp [noticed]
  | some next =>
    obtain ⟨next, who⟩ := next
    have noticed : record.lease.disconnected = true := by
      by_contra unnoticed
      rw [resumes.mpr (by simpa using unnoticed)] at resumed
      contradiction
    obtain ⟨same, peer, finds, rfl, peers, rooms, _⟩ :=
      finds_of_resumeLease free tokened' c' valid resumed
    obtain rfl := Option.some.inj (finds.session.symm.trans found)
    obtain ⟨bound, fails, accepts⟩ := @resume_spec config _ socket _ _
      (peers ▸ finds.known) fields token now
    have known : s.lobby.peer same.peer = some peer := finds.known
    have unbound : s.lobby.socketOf same.peer = some none := by
      simp [Lobby.socketOf, known, finds.unbound]
    simp only [Lobby.acceptResume, valid, Bool.not_true, Bool.false_eq_true, if_false, resumed] at result
    rw [result] at bound fails accepts
    rw [rooms, finds.room] at fails
    constructor
    · rintro ⟨accepted, rfl, -⟩
      refine ⟨noticed, fun other is withdraws full => ?_⟩
      obtain rfl := Option.some.inj (is.symm.trans known)
      cases fails.mpr ⟨withdraws, full⟩
    · rintro ⟨-, able⟩
      cases outcome with
      | none =>
        obtain ⟨withdraws, full⟩ := fails.mp rfl
        exact absurd full (able peer known withdraws)
      | some accepted =>
        obtain ⟨owner, resumed⟩ := accepts accepted rfl
        refine ⟨accepted, rfl, owner, resumed, bound, fun old was => ?_⟩
        rw [unbound] at was
        cases was

def resumeFirst : MessageDto := { helloFirst with resumeToken := some tokenFirst }

def resumeFieldsFirst : HelloFields :=
  { lastServerSeq := 0, fileCapabilityId := capabilityFirst, resumeToken := some tokenFirst }

/-- A transport may send its hello right away. -/
theorem takePending_await (unknown : lobby.pending.lookup socket = none) :
    (lobby.await socket now).takePending socket now ≠ none := by
  have early : ¬ now + pendingHelloPeriod ≤ now :=
    Nat.not_le.mpr (Nat.lt_add_of_pos_right (by decide))
  simp [Lobby.takePending, Lobby.await, List.lookup_append, unknown, early]

/-- A page whose loss was noticed comes back on another transport. -/
theorem bearer_resumes_first : ∃ labels s after accepted, (service {} digestFirst).Run labels s ∧
    s.lobby.acceptSessionHello {} digestFirst 9 [] [] (some resumeFirst) none s.clock =
      (after, some accepted) ∧
    accepted.peer = 1 ∧ accepted.resumed = true ∧ after.socketOf 1 = some (some 9) := by
  obtain ⟨_, run, -⟩ := first_session
  have lost := run.next (@Step.lose _ _ peerFirst (peerFirst.detachIfCurrent 0).1 _ 0 1 rfl
    fenced_first rfl rfl)
  have detached := lost.next (@Step.detach _ _ _ 1 0 rfl)
  have awaited := detached.next (@Step.create _ _ _ 9 [] [] rfl)
  have unexpired : SessionLease.expires ⟨some (0 + gracePeriod)⟩ 0 = false := by decide
  obtain ⟨accepted, is, owner, resumed, bound, -⟩ :=
    (bearer_resumes digestFirst_free awaited (List.mem_singleton_self _) unexpired rfl
      (show checkHello (some resumeFirst) = some resumeFieldsFirst from rfl) rfl rfl
      (takePending_await rfl) Prod.mk.eta.symm).mpr
      ⟨rfl, fun peer is withdraws => by
        cases is
        exact absurd rfl withdraws.2⟩
  exact ⟨_, _, _, accepted, awaited, Prod.ext rfl is, owner, resumed, bound⟩

/-- A page whose connection is gone before the server has noticed comes back on
another one, and is told that its session is unavailable. -/
theorem bearer_refused : ∃ labels s, (service {} digestFirst).Run labels s ∧
    (digestFirst tokenFirst, recordFirst) ∈ s.lobby.sessions ∧
    recordFirst.lease.expires s.clock = false ∧ s.bearer recordFirst.peer = some tokenFirst ∧
    (s.lobby.room recordFirst.room).name = [] ∧ s.lobby.takePending 9 s.clock ≠ none ∧
    checkHello (some resumeFirst) = some resumeFieldsFirst ∧
    (s.lobby.acceptSessionHello {} digestFirst 9 [] [] (some resumeFirst) none s.clock).2 = none := by
  obtain ⟨_, run, -⟩ := first_session
  have created := run.next (@Step.create _ _ _ 9 [] [] rfl)
  exact ⟨_, _, created, List.mem_singleton_self _, rfl, rfl, rfl, takePending_await rfl, rfl,
    Option.isNone_iff_eq_none.mp (by decide)⟩

end Conspire.Sessions
