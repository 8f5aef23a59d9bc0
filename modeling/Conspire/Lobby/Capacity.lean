import Conspire.Files.Capacity
import Conspire.Lobby.Lifecycle

/-! The limits of the process: its rooms, and in each room the members, the files of a
peer and the subscribers of a file. -/
namespace Conspire
open Session Boundaries

/-- The bounds the sections of the lobby keep. -/
structure Lobby.Limited (lobby : Lobby) : Prop where
  rooms : lobby.rooms.length ≤ Limits.rooms
  members : ∀ id, (lobby.room id).peerById.length ≤ Limits.peersPerRoom
  files : ∀ id peer, lobby.peer id = some peer → peer.files.length ≤ Limits.filesPerPeer

namespace Lobby.Limited
variable {lobby next : Lobby} {config : ConfigDto} {place : RoomId} {who : PeerId}

theorem setRoom {room : Room} (limited : lobby.Limited) (members : room.peerById.length ≤ Limits.peersPerRoom) :
    (lobby.setRoom place room).Limited where
  rooms := limited.rooms
  members here := by
    simp only [Lobby.setRoom, Function.update_apply]
    split
    · exact members
    · exact limited.members here
  files := limited.files

theorem setPeer {peer : Peer} (limited : lobby.Limited) (files : peer.files.length ≤ Limits.filesPerPeer) :
    (lobby.setPeer who peer).Limited where
  rooms := limited.rooms
  members := limited.members
  files here other is := by
    simp only [Lobby.setPeer, Function.update_apply] at is
    split at is
    · cases is
      exact files
    · exact limited.files here other is

/-- The registries of sessions and transports have no part in the bounds. -/
theorem of_eq (limited : lobby.Limited) (rooms : next.rooms = lobby.rooms) (room : next.room = lobby.room)
    (peer : next.peer = lobby.peer) : next.Limited := by
  obtain ⟨few, members, files⟩ := limited
  refine ⟨?_, ?_, ?_⟩
  · rwa [rooms]
  · rwa [room]
  · rwa [peer]

theorem getOrCreateRoom (limited : lobby.Limited) (found : lobby.getOrCreateRoom name = (next, outcome)) :
    next.Limited := by
  unfold Lobby.getOrCreateRoom at found
  split at found
  · cases found
    exact limited
  · split at found
    · cases found
      exact limited
    · rename_i capacity
      cases found
      have below : lobby.rooms.length < Limits.rooms := by
        apply hasCapacity_iff.mp
        simpa using capacity
      have fresh : (lobby.setRoom lobby.created { name }).Limited := limited.setRoom (Nat.zero_le _)
      refine ⟨?_, fresh.members, fresh.files⟩
      rw [List.length_append, List.length_singleton]
      exact below

theorem deleteRoomIfEmpty (limited : lobby.Limited) (room : RoomId) : (lobby.deleteRoomIfEmpty room).Limited := by
  unfold Lobby.deleteRoomIfEmpty
  split
  · exact ⟨Nat.le_trans (List.length_filter_le ..) limited.rooms, limited.members, limited.files⟩
  · exact limited

theorem addPeer (limited : lobby.Limited) (added : lobby.addPeer place who = some next) : next.Limited := by
  obtain ⟨after, admitted, rfl⟩ := Option.map_eq_some_iff.mp added
  exact limited.setRoom (Room.addPeer_length admitted)

theorem erasePeer (limited : lobby.Limited) : (lobby.erasePeer place who).Limited := by
  apply limited.setRoom
  exact Nat.le_trans (List.length_filter_le ..) (limited.members place)

theorem publish (limited : lobby.Limited) (published : lobby.publish config place message = some next) :
    next.Limited := by
  obtain ⟨⟨after, event⟩, added, rfl⟩ := Option.map_eq_some_iff.mp published
  apply limited.setRoom
  rw [Room.addHistoryMessage_members added]
  exact limited.members place

theorem setFileCapability (limited : lobby.Limited)
    (set : lobby.setFileCapability who capability = (next, changed)) : next.Limited := by
  unfold Lobby.setFileCapability at set
  split at set
  · cases set
    exact limited
  · rename_i peer known
    cases set
    exact limited.setPeer (limited.files who peer known)

theorem takeFiles (limited : lobby.Limited) (took : lobby.takeFiles who = (next, taken)) :
    next.Limited := by
  unfold Lobby.takeFiles at took
  split at took
  · cases took
    exact limited
  · rename_i peer known
    cases took
    exact (limited.setPeer (Nat.zero_le _)).setRoom (limited.members peer.room)

theorem replaceSocket (limited : lobby.Limited) (who : PeerId) (socket : Socket) (now : TimePoint) :
    (lobby.replaceSocket who socket now).Limited := by
  unfold Lobby.replaceSocket
  split
  · exact limited
  · rename_i peer known
    have files : (peer.replaceSocket socket now).1.files.length ≤ Limits.filesPerPeer :=
      limited.files who peer known
    exact (limited.setPeer files).of_eq rfl rfl rfl

theorem insertSession (limited : lobby.Limited) (record : SessionRecord) :
    (lobby.insertSession record).Limited := by
  unfold Lobby.insertSession
  split
  · exact limited
  · exact limited.of_eq rfl rfl rfl

theorem detachLease (limited : lobby.Limited) (who : PeerId) (now : TimePoint) :
    (lobby.detachLease who now).Limited := by
  unfold Lobby.detachLease
  split
  · exact limited
  · exact limited.of_eq rfl rfl rfl

theorem resumeLease (limited : lobby.Limited) (resumed : lobby.resumeLease key name now = some (next, who)) :
    next.Limited := by
  unfold Lobby.resumeLease at resumed
  split at resumed
  · contradiction
  · split at resumed
    · contradiction
    · obtain ⟨lease, _, is⟩ := Option.map_eq_some_iff.mp resumed
      cases is
      exact limited.of_eq rfl rfl rfl

/-- A batch fits beside the files that the peer has. -/
theorem shareFiles {peer next : Peer} {after : Room} (limited : lobby.Limited)
    (shared : (lobby.room peer.room).shareFiles peer descriptors = some (after, next, batch)) :
    ((lobby.setPeer who next).setRoom peer.room after).Limited := by
  unfold Room.shareFiles at shared
  split at shared
  · contradiction
  · rename_i capacity
    cases shared
    simp only [Bool.or_eq_true, not_or, Bool.not_eq_true', Bool.not_eq_false] at capacity
    have fits := hasCapacityFor_le capacity.2
    refine (limited.setPeer ?_).setRoom (limited.members peer.room)
    simpa [Peer.addFiles] using fits

end Lobby.Limited

namespace Sessions
open Transition
variable {config : ConfigDto} {digest : Bytes → Bytes} {s t : Service} {l : Label}

theorem detachIfCurrent_files {peer next : Peer} (detached : peer.detachIfCurrent lost = (next, known)) :
    next.files = peer.files := (Files.detach_kept detached).1

theorem limited_step (limited : s.lobby.Limited) (step : Step config digest s l t) : t.lobby.Limited := by
  cases step with
  | create | drop => exact limited.of_eq rfl rfl rfl
  | accept _ taken =>
    obtain rfl := takePending_eq taken
    exact limited.of_eq rfl rfl rfl
  | lease _ _ _ resumed => exact limited.resumeLease resumed
  | replace => exact limited.replaceSocket ..
  | place _ _ _ _ found => exact limited.getOrCreateRoom found
  | crowded _ _ found => exact limited.getOrCreateRoom found
  | build _ built =>
    cases built
    exact (limited.setPeer (Nat.zero_le _)).of_eq rfl rfl rfl
  | add _ added => exact limited.addPeer added
  | register => exact limited.insertSession _
  | welcome _ _ published => exact limited.publish published
  | capability _ set => exact limited.setFileCapability set
  | take _ taken => exact limited.takeFiles taken
  | withdraw _ _ published => exact limited.publish published
  | author _ _ _ _ published => exact limited.publish published
  | share _ _ shared => exact limited.shareFiles shared
  | lose _ _ known lost =>
    apply limited.setPeer
    rw [detachIfCurrent_files lost]
    exact limited.files _ _ known
  | detach => exact limited.detachLease ..
  | expire _ expired =>
    cases expired
    exact limited.of_eq rfl rfl rfl
  | remove => exact limited.erasePeer
  | forget _ taken => exact limited.takeFiles taken
  | goodbye _ _ published => exact limited.publish published
  | delete => exact limited.deleteRoomIfEmpty _
  | _ => exact limited

theorem limited_start : Lobby.Limited {} where
  rooms := Nat.zero_le _
  members _ := Nat.zero_le _
  files _ _ := nofun

end Sessions

/-- The lobby beside the files and downloads of each room. The sections of one are free
of those of the others: no lock orders them. -/
structure Process where
  service : Sessions.Service := {}
  rooms : RoomId → Files.Streams

inductive ProcessLabel where
  | session (label : Sessions.Label)
  | room (id : RoomId) (label : Files.StreamsLabel)

section
open Transition
variable (config : ConfigDto) (digest : Bytes → Bytes) (decode : Bytes → Option Bytes)
  (size : MessageDto → Nat)

inductive ProcessStep : Process → ProcessLabel → Process → Prop where
  | session : Sessions.Step config digest s.service l service →
      ProcessStep s (.session l) { s with service }
  | room {id : RoomId} : Files.StreamsStep decode size (s.rooms id) l room →
      ProcessStep s (.room id l) { s with rooms := Function.update s.rooms id room }

/-- All runs of the process. -/
def process : Machine Process ProcessLabel where
  init s := s.service = {} ∧ ∀ id, ∃ name, s.rooms id = { index := { room := { name } } }
  step := ProcessStep config digest decode size

variable {config digest decode size}

theorem process_room {s : Process} (reached : (process config digest decode size).Reachable s) (id : RoomId) :
    (Files.streams decode size).Reachable (s.rooms id) := by
  induction reached with
  | start initial => exact .start (initial.2 id)
  | next _ step ih =>
    cases step with
    | session => exact ih
    | @room _ _ next other moved =>
      dsimp only
      rw [Function.update_apply]
      split
      · rename_i here
        subst here
        exact ih.next moved
      · exact ih

theorem process_lobby {s : Process} (reached : (process config digest decode size).Reachable s) :
    s.service.lobby.Limited := by
  induction reached with
  | start initial =>
    rw [initial.1]
    exact Sessions.limited_start
  | next _ step ih =>
    cases step with
    | session moved => exact Sessions.limited_step ih moved
    | room => exact ih

/-- The limits hold in every state of the process, and no share is taken in part. -/
theorem resource_limits {s : Process} (reached : (process config digest decode size).Reachable s) :
    s.service.lobby.rooms.length ≤ 256 ∧
      (∀ id, (s.service.lobby.room id).peerById.length ≤ 64) ∧
      (∀ who peer, s.service.lobby.peer who = some peer → peer.files.length ≤ 32) ∧
      ∀ id, (s.rooms id).index.room.peerById.length ≤ 64 ∧
        (∀ host, ((s.rooms id).index.held host).length ≤ 32) ∧
        (∀ file, ((s.rooms id).subscribers file).ids.length ≤ 32) ∧
        ∀ l t, (process config digest decode size).step s l t →
          Files.Whole (s.rooms id).index (t.rooms id).index := by
  obtain ⟨rooms, members, files⟩ := process_lobby reached
  refine ⟨rooms, members, files, fun id => ?_⟩
  have here := process_room reached id
  have limited := Files.limited here
  refine ⟨limited.fitting.members, limited.fitting.files, limited.subscribers, ?_⟩
  intro l t step
  cases step with
  | session => exact .still rfl rfl rfl
  | @room _ _ next other moved =>
    dsimp only
    rw [Function.update_apply]
    split
    · rename_i same
      subst same
      exact Files.whole (Files.filed here) moved
    · exact .still rfl rfl rfl

/-- Neither half of the process waits for the other. -/
theorem process_reached {room : Files.Streams} {service : Sessions.Service} (id : RoomId)
    (serves : (Sessions.service config digest).Reachable service)
    (streams : (Files.streams decode size).Reachable room) :
    ∃ s, (process config digest decode size).Reachable s ∧ s.service = service ∧ s.rooms id = room := by
  induction streams with
  | start initial =>
    obtain ⟨name, rfl⟩ := initial
    let empty : RoomId → Files.Streams := fun _ => { index := { room := { name } } }
    have reached : (process config digest decode size).Reachable { service, rooms := empty } := by
      induction serves with
      | start initial => exact .start ⟨initial, fun _ => ⟨name, rfl⟩⟩
      | next _ step ih => exact ih.next (.session step)
    exact ⟨_, reached, rfl, rfl⟩
  | next _ step ih =>
    obtain ⟨s, reached, rfl, rfl⟩ := ih
    exact ⟨_, reached.next (.room step), rfl, Function.update_self ..⟩

section First
open Files
variable {size : MessageDto → Nat}

/-- A second member has come and downloads the file of the first. -/
theorem subscribed_first : ∃ s, (streams some size).Reachable s ∧
    s.index.room.peerById = [1, 2] ∧ s.index.held 1 = [fileFirst] ∧ (s.subscribers 1).ids = [1] := by
  have hosted : (streams some size).Reachable hostedFirst :=
    (@hostedFirst_reachable _ _ (fun _ _ => True) fun _ _ _ => trivial).of_restrict
  have joined := hosted.next
    (.files (@IndexStep.join _ _ 2 (Peer.create 6 0 [] 2 0) rfl rfl rfl) (.join rfl))
  have found := joined.next (@StreamsStep.find _ _ 1 fileFirst _ (by decide))
  have subscribed := found.next (.subscribe (List.mem_singleton_self _) rfl rfl)
  exact ⟨_, subscribed, rfl, rfl, rfl⟩

/-- The first session of a lobby shares a file. -/
theorem shared_first : ∃ s peer, (Sessions.service {} Sessions.digestFirst).Reachable s ∧
    s.lobby.rooms.length = 1 ∧ s.lobby.peer 1 = some peer ∧ peer.files = [fileFirst] := by
  obtain ⟨_, session, _⟩ := Sessions.first_session
  have dispatch := session.reachable.next (.dispatch rfl Sessions.fenced_first rfl rfl)
  have shared := dispatch.next (@Sessions.Step.share _ _ _ _ _ _ _ 1 0 [sharedFirst] rfl rfl rfl)
  exact ⟨_, _, shared, rfl, rfl, rfl⟩

/-- A session has a room and a file, and a second member downloads the file of the first. -/
theorem resource_limits_first : ∃ s peer, (process {} Sessions.digestFirst some fun _ => 0).Reachable s ∧
    s.service.lobby.rooms.length = 1 ∧ s.service.lobby.rooms.length ≤ 256 ∧
    s.service.lobby.peer 1 = some peer ∧ peer.files = [fileFirst] ∧ peer.files.length ≤ 32 ∧
    (s.rooms 0).index.room.peerById = [1, 2] ∧ (s.rooms 0).index.room.peerById.length ≤ 64 ∧
    (s.rooms 0).index.held 1 = [fileFirst] ∧ ((s.rooms 0).index.held 1).length ≤ 32 ∧
    ((s.rooms 0).subscribers 1).ids = [1] ∧ ((s.rooms 0).subscribers 1).ids.length ≤ 32 := by
  obtain ⟨service, peer, shares, one, known, shared⟩ := shared_first
  obtain ⟨room, downloads, members, held, ids⟩ := subscribed_first
  obtain ⟨s, reached, rfl, rfl⟩ := process_reached 0 shares downloads
  obtain ⟨rooms, _, files, within⟩ := resource_limits reached
  obtain ⟨few, batch, subscribers, _⟩ := within 0
  exact ⟨s, peer, reached, one, rooms, known, shared, files 1 peer known, members, few, held, batch 1,
    ids, subscribers 1⟩

end First

end
end Conspire
