import Conspire.Lobby.Standing

/-! What a lobby says about a peer: its socket, its room, the rooms it is a member
of and its sessions. A section changes this for one peer at most. -/
namespace Conspire
open Session Boundaries

namespace Lobby
variable (lobby : Lobby)

def socketOf (who : PeerId) : Option (Option Socket) := (lobby.peer who).map (·.socket)

def roomOf (who : PeerId) : Option RoomId := (lobby.peer who).map (·.room)

def records (who : PeerId) : List (Bytes × SessionRecord) :=
  lobby.sessions.filter fun entry => entry.2.peer = who

/-- A room that has yet to be created has no members, no peers and no entry; a
peer has its own id. -/
structure Sound : Prop where
  vacant : ∀ room, lobby.created ≤ room → (lobby.room room).peerById = []
  lodged : ∀ who room, lobby.roomOf who = some room → room < lobby.created
  housed : ∀ entry ∈ lobby.rooms, entry.2 < lobby.created
  numbered : ∀ who peer, lobby.peer who = some peer → peer.peerId = who

/-- A key holds sessions of one peer only. -/
def Keyed (key : Bytes) (who : PeerId) : Prop :=
  ∀ entry ∈ lobby.sessions, entry.1 = key → entry.2.peer = who

end Lobby

namespace Sessions
variable {lobby : Lobby}

/-- The second lobby says of a peer what the first one does. -/
structure Same (a b : Lobby) (who : PeerId) : Prop where
  socket : b.socketOf who = a.socketOf who
  room : b.roomOf who = a.roomOf who
  member : ∀ room, who ∈ (b.room room).peerById ↔ who ∈ (a.room room).peerById
  records : b.records who = a.records who

/-- Of one peer at most the second lobby says something else. -/
structure Local (a b : Lobby) (who : Option PeerId) : Prop where
  same : ∀ q, some q ≠ who → Same a b q
  created : a.created ≤ b.created
  counter : a.peerIdCounter ≤ b.peerIdCounter
  named : ∀ room < a.created, (b.room room).name = (a.room room).name
  sound : a.Sound → b.Sound

theorem mem_of_lookup {α β : Type} [BEq α] [LawfulBEq α] {entries : List (α × β)}
    {key : α} {value : β}
    (found : entries.lookup key = some value) : (key, value) ∈ entries := by
  obtain ⟨_, _, rfl, _⟩ := List.lookup_eq_some_iff.mp found
  simp

theorem Same.of_eq {a b : Lobby} (sessions : b.sessions = a.sessions) (room : b.room = a.room)
    (peer : b.peer = a.peer) : Same a b who := by
  constructor <;> simp [Lobby.socketOf, Lobby.roomOf, Lobby.records, sessions, room, peer]

theorem Same.trans {a b c : Lobby} (one : Same a b who) (two : Same b c who) : Same a c who where
  socket := two.socket.trans one.socket
  room := two.room.trans one.room
  member room := (two.member room).trans (one.member room)
  records := two.records.trans one.records

theorem Local.trans {a b c : Lobby} (one : Local a b who) (two : Local b c who) : Local a c who where
  same q other := (one.same q other).trans (two.same q other)
  created := one.created.trans two.created
  counter := one.counter.trans two.counter
  named room early :=
    (two.named room (early.trans_le one.created)).trans (one.named room early)
  sound := two.sound ∘ one.sound

theorem Local.weaken {a b : Lobby} (change : Local a b none) : Local a b (some who) where
  same q _ := change.same q nofun
  created := change.created
  counter := change.counter
  named := change.named
  sound := change.sound

theorem Local.refl : Local lobby lobby none :=
  ⟨fun _ _ => .of_eq rfl rfl rfl, le_rfl, le_rfl, fun _ _ => rfl, id⟩

/-- Only the transports that wait, the names of rooms or the counters are others. -/
theorem Local.to {a b c : Lobby} (change : Local a b who) (sessions : c.sessions = b.sessions)
    (room : c.room = b.room) (peer : c.peer = b.peer)
    (rooms : ∀ entry ∈ c.rooms, entry ∈ b.rooms ∨ entry.2 < c.created)
    (created : b.created ≤ c.created) (counter : b.peerIdCounter ≤ c.peerIdCounter) :
    Local a c who where
  same q other := (change.same q other).trans (.of_eq sessions room peer)
  created := change.created.trans created
  counter := change.counter.trans counter
  named here early := by rw [room, change.named here early]
  sound sound :=
    { vacant := fun here later => by
        rw [room]
        exact (change.sound sound).vacant here (created.trans later)
      lodged := fun q here is => by
        simp only [Lobby.roomOf, peer] at is
        exact ((change.sound sound).lodged q here is).trans_le created
      housed := fun entry member => by
        rcases rooms entry member with old | early
        · exact ((change.sound sound).housed entry old).trans_le created
        · exact early
      numbered := by
        rw [peer]
        exact (change.sound sound).numbered }

/-- Only the sessions of one peer are others. -/
theorem Local.of_sessions {a b : Lobby} (sessions : ∀ q ≠ who, b.records q = a.records q)
    (room : b.room = a.room) (peer : b.peer = a.peer) (rooms : b.rooms = a.rooms)
    (created : b.created = a.created) (counter : b.peerIdCounter = a.peerIdCounter) :
    Local a b (some who) where
  same q other := by
    have other : q ≠ who := fun same => other (same ▸ rfl)
    constructor <;> simp [Lobby.socketOf, Lobby.roomOf, room, peer, sessions q other]
  created := created.ge
  counter := counter.ge
  named here _ := by rw [room]
  sound sound := by
    constructor
    · simpa [room, created] using sound.vacant
    · simpa [Lobby.roomOf, peer, created] using sound.lodged
    · simpa [rooms, created] using sound.housed
    · simpa [peer] using sound.numbered

theorem local_setPeer {peer : Peer}
    (early : lobby.Sound → peer.room < lobby.created ∧ peer.peerId = who) :
    Local lobby (lobby.setPeer who peer) (some who) where
  same q other := by
    have other : q ≠ who := fun same => other (same ▸ rfl)
    constructor <;> simp [Lobby.socketOf, Lobby.roomOf, Lobby.records, Lobby.setPeer, other]
  created := le_rfl
  counter := le_rfl
  named _ _ := rfl
  sound sound := by
    refine ⟨sound.vacant, fun q room is => ?_, sound.housed, fun q other is => ?_⟩
    · by_cases here : q = who
      · subst here
        obtain rfl : peer.room = room := by simpa [Lobby.roomOf, Lobby.setPeer] using is
        exact (early sound).1
      · exact sound.lodged q room (by simpa [Lobby.roomOf, Lobby.setPeer, here] using is)
    · by_cases here : q = who
      · subst here
        obtain rfl : peer = other := by simpa [Lobby.setPeer] using is
        exact (early sound).2
      · exact sound.numbered q other (by simpa [Lobby.setPeer, here] using is)

/-- Another peer object with the socket and the room of the one before. -/
theorem same_setPeer {old peer : Peer} (known : lobby.peer who = some old)
    (socket : peer.socket = old.socket) (room : peer.room = old.room)
    (id : peer.peerId = old.peerId) : Local lobby (lobby.setPeer who peer) none := by
  have change : Local lobby (lobby.setPeer who peer) (some who) := by
    refine local_setPeer fun sound => ⟨?_, id.trans (sound.numbered who old known)⟩
    exact sound.lodged who _ (by simp [Lobby.roomOf, known, room])
  refine ⟨fun q _ => ?_, change.created, change.counter, change.named, change.sound⟩
  by_cases here : q = who
  · subst here
    constructor <;>
      simp [Lobby.socketOf, Lobby.roomOf, Lobby.records, Lobby.setPeer, known, socket, room]
  · exact change.same q (by simpa using here)

/-- Another room object, whose members differ in one peer at most. -/
theorem local_setRoom {after : Room}
    (members : ∀ q, some q ≠ who → (q ∈ after.peerById ↔ q ∈ (lobby.room room).peerById))
    (named : room < lobby.created → after.name = (lobby.room room).name)
    (vacant : lobby.Sound → lobby.created ≤ room → after.peerById = []) :
    Local lobby (lobby.setRoom room after) who where
  same q other := by
    constructor <;> simp only [Lobby.socketOf, Lobby.roomOf, Lobby.records, Lobby.setRoom]
    intro here
    by_cases same : here = room
    · subst same
      simpa using members q other
    · simp [same]
  created := le_rfl
  counter := le_rfl
  named here early := by
    by_cases same : here = room
    · subst same
      simpa [Lobby.setRoom] using named early
    · simp [Lobby.setRoom, same]
  sound sound := by
    refine ⟨fun here later => ?_, sound.lodged, sound.housed, sound.numbered⟩
    by_cases same : here = room
    · subst same
      simpa [Lobby.setRoom] using vacant sound later
    · simpa [Lobby.setRoom, same] using sound.vacant here later

/-- Another room object with the name and the members of the one before. -/
theorem same_setRoom {after : Room} (name : after.name = (lobby.room room).name)
    (members : after.peerById = (lobby.room room).peerById) :
    Local lobby (lobby.setRoom room after) none :=
  local_setRoom (fun q _ => by rw [members]) (fun _ => name)
    fun sound later => members.trans (sound.vacant room later)

theorem local_await : Local lobby (lobby.await socket now) none :=
  Local.refl.to rfl rfl rfl (fun _ => .inl) le_rfl le_rfl

theorem local_forgetPending : Local lobby (lobby.forgetPending socket) none :=
  Local.refl.to rfl rfl rfl (fun _ => .inl) le_rfl le_rfl

theorem takePending_eq {next : Lobby} (taken : lobby.takePending socket now = some next) :
    next = lobby.forgetPending socket := by
  simp only [Lobby.takePending] at taken
  split at taken
  · contradiction
  · split at taken
    · contradiction
    · exact (Option.some.inj taken).symm

theorem local_deleteRoomIfEmpty : Local lobby (lobby.deleteRoomIfEmpty room) none := by
  unfold Lobby.deleteRoomIfEmpty
  split
  · exact Local.refl.to rfl rfl rfl (fun _ member => .inl (List.mem_filter.mp member).1) le_rfl le_rfl
  · exact Local.refl

theorem local_getOrCreateRoom (sound : lobby.Sound)
    (found : lobby.getOrCreateRoom roomName = (next, place)) :
    Local lobby next none ∧ ∀ room, place = some room → room < next.created := by
  simp only [Lobby.getOrCreateRoom] at found
  split at found
  · rename_i known
    cases found
    refine ⟨Local.refl, ?_⟩
    rintro _ ⟨⟩
    exact sound.housed _ (mem_of_lookup known)
  · split at found
    · cases found
      exact ⟨Local.refl, nofun⟩
    · cases found
      have change : Local lobby (lobby.setRoom lobby.created { name := roomName }) none :=
        local_setRoom (fun q _ => by simp [sound.vacant lobby.created le_rfl])
          (fun early => absurd early (Nat.lt_irrefl _)) fun _ _ => rfl
      refine ⟨change.to rfl rfl rfl ?_ (Nat.le_succ _) le_rfl, ?_⟩
      · intro entry member
        rcases List.mem_append.mp member with old | new
        · exact .inl old
        · obtain rfl := List.mem_singleton.mp new
          exact .inr (Nat.lt_succ_self _)
      · rintro _ ⟨⟩
        exact Nat.lt_succ_self _

theorem addHistoryMessage_eq {room after : Room}
    (added : room.addHistoryMessage config message = some (after, event)) :
    after.name = room.name ∧ after.peerById = room.peerById := by
  simp only [Room.addHistoryMessage] at added
  split at added
  · contradiction
  · split at added <;> cases added <;> exact ⟨rfl, rfl⟩

theorem local_publish {next : Lobby} (published : lobby.publish config room message = some next) :
    Local lobby next none := by
  obtain ⟨⟨after, event⟩, added, rfl⟩ := Option.map_eq_some_iff.mp published
  exact same_setRoom (addHistoryMessage_eq added).1 (addHistoryMessage_eq added).2

theorem local_setFileCapability {next : Lobby}
    (set : lobby.setFileCapability who capability = (next, changed)) : Local lobby next none := by
  simp only [Lobby.setFileCapability] at set
  split at set
  · cases set
    exact Local.refl.to rfl rfl rfl (fun _ => .inl) le_rfl le_rfl
  · rename_i peer known
    cases set
    exact same_setPeer known rfl rfl rfl

theorem local_takeFiles {next : Lobby} (taken : lobby.takeFiles who = (next, files)) :
    Local lobby next none := by
  simp only [Lobby.takeFiles] at taken
  split at taken
  · cases taken
    exact Local.refl.to rfl rfl rfl (fun _ => .inl) le_rfl le_rfl
  · rename_i peer known
    cases taken
    refine (@same_setPeer _ _ _ peer.takeFilesSnapshot.1 known rfl rfl rfl).trans ?_
    exact same_setRoom rfl rfl

theorem shareFiles_eq {room after : Room} {peer next : Peer}
    (shared : room.shareFiles peer descriptors = some (after, next, files)) :
    after.name = room.name ∧ after.peerById = room.peerById := by
  simp only [Room.shareFiles] at shared
  split at shared
  · contradiction
  · cases shared
    exact ⟨rfl, rfl⟩

theorem local_shareFiles {room : Room} {peer next : Peer} (known : lobby.peer who = some peer)
    (shared : (lobby.room peer.room).shareFiles peer descriptors = some (room, next, files)) :
    Local lobby ((lobby.setPeer who next).setRoom peer.room room) none := by
  have host := (Room.shareFiles_eq_some shared).1
  subst host
  refine (@same_setPeer _ _ _ (peer.addFiles files) known rfl rfl rfl).trans ?_
  exact same_setRoom (shareFiles_eq shared).1 (shareFiles_eq shared).2

theorem local_replaceSocket : Local lobby (lobby.replaceSocket who socket now) (some who) := by
  simp only [Lobby.replaceSocket]
  split
  · exact Local.refl.weaken
  · rename_i peer known
    have change : Local lobby (lobby.setPeer who (peer.replaceSocket socket now).1) (some who) := by
      refine local_setPeer fun sound => ⟨?_, sound.numbered who peer known⟩
      exact sound.lodged who _ (by simp [Lobby.roomOf, known, Peer.replaceSocket])
    exact change.to rfl rfl rfl (fun _ => .inl) le_rfl le_rfl

theorem local_createPeer (early : room < lobby.created)
    (created : lobby.createPeer socket room nickname now = (next, who)) :
    Local lobby next (some who) := by
  cases created
  have change : Local lobby (lobby.setPeer lobby.peerIdCounter
      (Peer.create socket room nickname lobby.peerIdCounter now)) (some lobby.peerIdCounter) :=
    local_setPeer fun _ => ⟨early, rfl⟩
  exact change.to rfl rfl rfl (fun _ => .inl) le_rfl (Nat.le_succ _)

theorem mem_addPeer {room after : Room} (added : room.addPeer who = some after) :
    after.name = room.name ∧ ∀ q, q ∈ after.peerById ↔ q ∈ room.peerById ∨ q = who := by
  simp only [Room.addPeer] at added
  split at added
  · contradiction
  · cases added
    refine ⟨rfl, fun q => ?_⟩
    split
    · rename_i member
      exact ⟨.inl, fun either => either.elim id (· ▸ member)⟩
    · simp

theorem local_addPeer {next : Lobby} (early : room < lobby.created)
    (added : lobby.addPeer room who = some next) : Local lobby next (some who) := by
  obtain ⟨after, joined, rfl⟩ := Option.map_eq_some_iff.mp added
  refine local_setRoom (fun q other => ?_) (fun _ => (mem_addPeer joined).1)
    fun _ later => absurd early (Nat.not_lt.mpr later)
  have other : q ≠ who := fun same => other (same ▸ rfl)
  rw [(mem_addPeer joined).2]
  simp [other]

theorem mem_erasePeer {room : Room} {q who : PeerId} :
    q ∈ (room.erasePeer who).peerById ↔ q ∈ room.peerById ∧ q ≠ who := by
  simp [Room.erasePeer]

theorem local_erasePeer : Local lobby (lobby.erasePeer room who) (some who) := by
  refine local_setRoom (fun q other => ?_) (fun _ => rfl) fun sound later => ?_
  · have other : q ≠ who := fun same => other (same ▸ rfl)
    simp [mem_erasePeer, other]
  · simp [Room.erasePeer, sound.vacant room later]

theorem local_insertSession : Local lobby (lobby.insertSession record) (some record.peer) := by
  unfold Lobby.insertSession
  split
  · exact (Local.refl.to rfl rfl rfl (fun _ => .inl) le_rfl le_rfl).weaken
  · refine .of_sessions (fun q other => ?_) rfl rfl rfl rfl rfl
    simp [Lobby.records, List.filter_append, Ne.symm other]

theorem records_setSession {record : SessionRecord} (keyed : lobby.Keyed key record.peer)
    (q : PeerId) :
    (lobby.setSession key record).records q =
      (lobby.records q).map fun entry => if entry.1 = key then (key, record) else entry := by
  simp only [Lobby.records, Lobby.setSession, List.filter_map]
  congr 1
  apply List.filter_congr
  intro entry member
  simp only [Function.comp_apply]
  split
  · rename_i here
    rw [keyed entry member here]
  · rfl

theorem local_setSession {record : SessionRecord} (keyed : lobby.Keyed key record.peer) :
    Local lobby (lobby.setSession key record) (some record.peer) := by
  refine .of_sessions (fun q other => ?_) rfl rfl rfl rfl rfl
  rw [records_setSession keyed]
  refine (List.map_congr_left fun entry member => ?_).trans (List.map_id _)
  split
  · rename_i here
    have member := List.mem_filter.mp member
    have peer := keyed entry member.1 here
    exact absurd (peer.symm.trans (of_decide_eq_true member.2)) other.symm
  · rfl

end Sessions
end Conspire
