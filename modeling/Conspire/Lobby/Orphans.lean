import Conspire.Lobby.Lifecycle

/-! The rooms of the sessions and the registry of rooms. A hello obtains its room, asks
for its capacity and joins it in three sections; between them a pass may find the room
empty and take it out of the registry. -/
namespace Conspire
open Session Boundaries

namespace Lobby
variable (lobby : Lobby)

def getRoom (roomName : Bytes) : Option RoomId := lobby.rooms.lookup roomName

/-- The peers one `runPingIteration` comes to. -/
def pinged : List PeerId := lobby.rooms.flatMap fun entry => (lobby.room entry.2).peerById

/-- The room is the one `m_rooms` has under its name. -/
def Registered (room : RoomId) : Prop := lobby.getRoom (lobby.room room).name = some room

end Lobby

namespace Sessions
open Transition

/-- The room a hello in progress has obtained and has yet to join. -/
def Role.obtained : Role → Option RoomId
  | .hello _ (.placed _ room) | .hello _ (.spacious _ room) | .hello _ (.built _ room _) => some room
  | _ => none

/-- No room is taken out of the registry that a hello in progress is about to join. -/
def Spares (s : Service) : Label → Prop
  | .deleted room => s.lobby.Registered room → (s.lobby.room room).isEmpty = true →
      ∀ socket, (s.role socket).obtained ≠ some room
  | _ => True

/-- The second lobby has the rooms of the first, with no new members. -/
structure Homes (a b : Lobby) : Prop where
  rooms : b.rooms = a.rooms
  created : a.created ≤ b.created
  named : ∀ room < a.created, (b.room room).name = (a.room room).name
  members : ∀ room, (b.room room).peerById ⊆ (a.room room).peerById

/-- A room with members, or with one on the way, is registered, and rooms are
registered under their names. -/
structure Sheltered (s : Service) : Prop where
  named : ∀ entry ∈ s.lobby.rooms, (s.lobby.room entry.2).name = entry.1
  joined : ∀ room, (s.lobby.room room).peerById ≠ [] → s.lobby.Registered room
  obtained : ∀ socket room, (s.role socket).obtained = some room →
    room < s.lobby.created ∧ s.lobby.Registered room

variable {config : ConfigDto} {digest : Bytes → Bytes} {s t : Service} {l : Label}
  {lobby next : Lobby} {who : PeerId}

theorem Homes.of_eq {a b : Lobby} (rooms : b.rooms = a.rooms) (room : b.room = a.room)
    (created : b.created = a.created) : Homes a b where
  rooms := rooms
  created := created.ge
  named _ _ := by rw [room]
  members _ := by rw [room]; exact List.Subset.refl _

theorem Homes.setRoom {room : RoomId} {after : Room} (name : after.name = (lobby.room room).name)
    (members : after.peerById ⊆ (lobby.room room).peerById) : Homes lobby (lobby.setRoom room after) where
  rooms := rfl
  created := le_rfl
  named here _ := by
    by_cases same : here = room
    · subst same
      simpa [Lobby.setRoom] using name
    · simp [Lobby.setRoom, same]
  members here := by
    by_cases same : here = room
    · subst same
      simpa [Lobby.setRoom] using members
    · simp [Lobby.setRoom, same]

theorem Homes.trans {a b c : Lobby} (one : Homes a b) (two : Homes b c) : Homes a c where
  rooms := two.rooms.trans one.rooms
  created := one.created.trans two.created
  named room early := (two.named room (early.trans_le one.created)).trans (one.named room early)
  members room := List.Subset.trans (two.members room) (one.members room)

theorem Homes.registered {a b : Lobby} (homes : Homes a b) {room : RoomId} (early : room < a.created)
    (registered : a.Registered room) : b.Registered room := by
  rw [Lobby.Registered, Lobby.getRoom, homes.rooms, homes.named room early]
  exact registered

/-- A section that obtains no room and adds no member. -/
theorem Sheltered.stay (sheltered : Sheltered s) (sound : s.lobby.Sound)
    (homes : Homes s.lobby t.lobby) (role : ∀ k room, (t.role k).obtained = some room →
      (s.role k).obtained = some room) : Sheltered t where
  named entry member := by
    rw [homes.rooms] at member
    rw [homes.named _ (sound.housed entry member), sheltered.named entry member]
  joined room inhabited := by
    have before : (s.lobby.room room).peerById ≠ [] := by
      intro deserted
      exact inhabited (List.subset_nil.mp (deserted ▸ homes.members room))
    have early : room < s.lobby.created := by
      by_contra late
      exact before (sound.vacant room (Nat.not_lt.mp late))
    exact homes.registered early (sheltered.joined room before)
  obtained k room is := by
    obtain ⟨early, registered⟩ := sheltered.obtained k room (role k room is)
    exact ⟨early.trans_le homes.created, homes.registered early registered⟩

theorem Homes.refl : Homes lobby lobby := .of_eq rfl rfl rfl

theorem homes_publish {room : RoomId} (published : lobby.publish config room message = some next) :
    Homes lobby next := by
  obtain ⟨⟨after, event⟩, added, rfl⟩ := Option.map_eq_some_iff.mp published
  obtain ⟨name, members⟩ := addHistoryMessage_eq added
  exact .setRoom name (members ▸ List.Subset.refl _)

theorem homes_replaceSocket : Homes lobby (lobby.replaceSocket who socket now) := by
  simp only [Lobby.replaceSocket]
  split <;> exact .of_eq rfl rfl rfl

theorem homes_setFileCapability (set : lobby.setFileCapability who capability = (next, changed)) :
    Homes lobby next := by
  simp only [Lobby.setFileCapability] at set
  split at set <;> cases set <;> exact .of_eq rfl rfl rfl

theorem homes_takeFiles (taken : lobby.takeFiles who = (next, files)) : Homes lobby next := by
  simp only [Lobby.takeFiles] at taken
  split at taken
  · cases taken
    exact .refl
  · rename_i peer _
    cases taken
    refine .trans (b := lobby.setPeer who peer.takeFilesSnapshot.1) (.of_eq rfl rfl rfl) ?_
    exact .setRoom rfl (List.Subset.refl _)

theorem homes_insertSession : Homes lobby (lobby.insertSession record) := by
  unfold Lobby.insertSession
  split <;> exact .of_eq rfl rfl rfl

theorem homes_detachLease : Homes lobby (lobby.detachLease who now) := by
  unfold Lobby.detachLease
  split <;> exact .of_eq rfl rfl rfl

theorem homes_resumeLease (resumed : lobby.resumeLease key roomName now = some (next, who)) :
    Homes lobby next := by
  obtain ⟨_, _, _, _, _, _, rfl⟩ := resumeLease_eq resumed
  exact .of_eq rfl rfl rfl

theorem homes_shareFiles {room : Room} {peer after : Peer}
    (shared : (lobby.room peer.room).shareFiles peer descriptors = some (room, after, files)) :
    Homes lobby ((lobby.setPeer who after).setRoom peer.room room) := by
  obtain ⟨name, members⟩ := shareFiles_eq shared
  refine .trans (b := lobby.setPeer who after) (.of_eq rfl rfl rfl) ?_
  exact .setRoom name (members ▸ List.Subset.refl _)

/-- Handlers at other stages have obtained nothing. -/
theorem obtained_move {r : Role} (kept : ∀ room, r.obtained = some room →
    (s.role socket).obtained = some room) (k : Socket) (room : RoomId)
    (is : ((Function.update s.role socket r) k).obtained = some room) :
    (s.role k).obtained = some room := by
  by_cases here : k = socket
  · subst here
    exact kept room (by simpa using is)
  · simpa [here] using is

theorem lookup_filter {α β : Type} [BEq α] [LawfulBEq α] {entries : List (α × β)} {key : α}
    {p : α × β → Bool} (kept : ∀ entry ∈ entries, entry.1 = key → p entry = true) :
    (entries.filter p).lookup key = entries.lookup key := by
  induction entries with
  | nil => rfl
  | cons entry rest ih =>
    have ih := ih fun other member => kept other (List.mem_cons_of_mem _ member)
    obtain ⟨name, value⟩ := entry
    by_cases here : name = key
    · subst here
      rw [List.filter_cons_of_pos (kept _ List.mem_cons_self rfl), List.lookup_cons, List.lookup_cons]
      simp
    · have other : (key == name) = false := by simpa using Ne.symm here
      rw [List.lookup_cons, other, List.filter_cons]
      split
      · rw [List.lookup_cons, other]
        exact ih
      · exact ih

theorem getOrCreateRoom_none (full : lobby.getOrCreateRoom roomName = (next, none)) :
    next = lobby := by
  simp only [Lobby.getOrCreateRoom] at full
  split at full
  · cases full
  · split at full <;> cases full
    rfl

/-- A hello obtains its room. -/
theorem sheltered_place (sheltered : Sheltered s) (sound : s.lobby.Sound)
    (found : s.lobby.getOrCreateRoom roomName = (next, some room)) (lobby : t.lobby = next)
    (role : t.role = Function.update s.role socket r) (obtained : r.obtained = some room) :
    Sheltered t := by
  have obtains : (∀ room, room < s.lobby.created → s.lobby.Registered room → next.Registered room) →
      s.lobby.created ≤ next.created → room < next.created → next.Registered room →
      ∀ k here, (t.role k).obtained = some here → here < t.lobby.created ∧ t.lobby.Registered here := by
    intro keeps grows early registered k here is
    rw [lobby]
    by_cases same : k = socket
    · subst same
      obtain rfl : room = here := by simpa [role, obtained] using is
      exact ⟨early, registered⟩
    · obtain ⟨early, registered⟩ := sheltered.obtained k here (by simpa [role, same] using is)
      exact ⟨early.trans_le grows, keeps here early registered⟩
  simp only [Lobby.getOrCreateRoom] at found
  split at found
  · rename_i known
    cases found
    have entry := mem_of_lookup known
    have registered : s.lobby.Registered room := by
      rw [Lobby.Registered, sheltered.named _ entry]
      exact known
    exact ⟨lobby ▸ sheltered.named, lobby ▸ sheltered.joined,
      obtains (fun _ _ => id) le_rfl (sound.housed _ entry) registered⟩
  · rename_i unknown
    split at found
    · cases found
    · obtain ⟨is, same⟩ := Prod.mk.inj found
      obtain rfl := Option.some.inj same
      have rooms : next.rooms = s.lobby.rooms ++ [(roomName, s.lobby.created)] := by rw [← is]
      have created : next.created = s.lobby.created + 1 := by rw [← is]
      have new : next.room s.lobby.created = { name := roomName } := by
        rw [← is]
        simp [Lobby.setRoom]
      have old : ∀ here, here ≠ s.lobby.created → next.room here = s.lobby.room here := by
        intro here other
        rw [← is]
        simp [Lobby.setRoom, other]
      have keeps : ∀ here, here < s.lobby.created → s.lobby.Registered here → next.Registered here := by
        intro here early registered
        simp only [Lobby.Registered, Lobby.getRoom] at registered ⊢
        rw [old here early.ne, rooms, List.lookup_append, registered]
        rfl
      have registered : next.Registered s.lobby.created := by
        simp [Lobby.Registered, Lobby.getRoom, new, rooms, List.lookup_append, unknown]
      refine ⟨fun entry member => ?_, fun here inhabited => ?_,
        obtains keeps (created ▸ Nat.le_succ _) (created ▸ Nat.lt_succ_self _) registered⟩
      · rw [lobby, rooms] at member
        rw [lobby]
        rcases List.mem_append.mp member with before | last
        · rw [old _ (sound.housed entry before).ne, sheltered.named entry before]
        · obtain rfl := List.mem_singleton.mp last
          simp [new]
      · rw [lobby] at inhabited ⊢
        by_cases same : here = s.lobby.created
        · subst same
          exact registered
        · rw [old here same] at inhabited
          have early : here < s.lobby.created := by
            by_contra late
            exact inhabited (sound.vacant here (Nat.not_lt.mp late))
          exact keeps here early (sheltered.joined here inhabited)

/-- A hello joins the room it has obtained. -/
theorem sheltered_add (sheltered : Sheltered s) (obtained : (s.role socket).obtained = some room)
    (added : s.lobby.addPeer room who = some next) (lobby : t.lobby = next)
    (role : t.role = Function.update s.role socket r) (joined : r.obtained = none) :
    Sheltered t := by
  obtain ⟨after, joins, rfl⟩ := Option.map_eq_some_iff.mp added
  have name := (mem_addPeer joins).1
  have names : ∀ here, (t.lobby.room here).name = (s.lobby.room here).name := by
    intro here
    rw [lobby]
    by_cases same : here = room
    · subst same
      simpa [Lobby.setRoom] using name
    · simp [Lobby.setRoom, same]
  have keeps : ∀ here, s.lobby.Registered here → t.lobby.Registered here := by
    intro here registered
    rw [Lobby.Registered, names, lobby]
    exact registered
  refine ⟨fun entry member => ?_, fun here inhabited => ?_, fun k here is => ?_⟩
  · rw [names]
    exact sheltered.named entry (by rwa [lobby] at member)
  · by_cases same : here = room
    · subst same
      exact keeps here (sheltered.obtained socket here obtained).2
    · refine keeps here (sheltered.joined here ?_)
      simpa [lobby, Lobby.setRoom, same] using inhabited
  · have before : (s.role k).obtained = some here :=
      obtained_move (by simp [joined]) k here (role ▸ is)
    obtain ⟨early, registered⟩ := sheltered.obtained k here before
    exact ⟨by rw [lobby]; exact early, keeps here registered⟩

/-- A pass takes a room out of the registry that nobody is about to join. -/
theorem sheltered_delete (sheltered : Sheltered s) (spares : Spares s (.deleted room))
    (lobby : t.lobby = s.lobby.deleteRoomIfEmpty room) (role : t.role = s.role) : Sheltered t := by
  by_cases erases : s.lobby.rooms.lookup (s.lobby.room room).name = some room ∧
      (s.lobby.room room).isEmpty = true
  · obtain ⟨registered, empty⟩ := erases
    have is : t.lobby = { s.lobby with rooms := s.lobby.rooms.filter fun entry =>
        entry.1 ≠ (s.lobby.room room).name } := by
      rw [lobby, Lobby.deleteRoomIfEmpty]
      simp [registered, empty]
    have keeps : ∀ here, here ≠ room → s.lobby.Registered here → t.lobby.Registered here := by
      intro here other known
      simp only [Lobby.Registered, Lobby.getRoom, is] at known ⊢
      rw [lookup_filter, known]
      intro entry _ key
      have different : entry.1 ≠ (s.lobby.room room).name := by
        intro same
        rw [key] at same
        rw [same, registered] at known
        exact other (Option.some.inj known).symm
      simpa using different
    refine ⟨fun entry member => ?_, fun here inhabited => ?_, fun k here obtained => ?_⟩
    · rw [is] at member ⊢
      exact sheltered.named entry (List.mem_filter.mp member).1
    · rw [is] at inhabited
      refine keeps here ?_ (sheltered.joined here inhabited)
      rintro rfl
      exact inhabited (List.isEmpty_iff.mp empty)
    · rw [role] at obtained
      obtain ⟨early, known⟩ := sheltered.obtained k here obtained
      refine ⟨by rw [is]; exact early, keeps here ?_ known⟩
      rintro rfl
      exact spares registered empty k obtained
  · have same : t.lobby = s.lobby := by
      rw [lobby, Lobby.deleteRoomIfEmpty]
      simpa using fun registered empty => absurd ⟨registered, empty⟩ erases
    exact ⟨same ▸ sheltered.named, same ▸ sheltered.joined, by rw [same, role]; exact sheltered.obtained⟩

theorem sheltered_step (sheltered : Sheltered s) (sound : s.lobby.Sound)
    (spares : Spares s l) (step : Step config digest s l t) : Sheltered t := by
  cases step with
  | tick => exact sheltered.stay sound .refl fun _ _ => id
  | create | drop => exact sheltered.stay sound (.of_eq rfl rfl rfl) (obtained_move nofun)
  | malformed | arrive | late | forged | unknown | tokenless | full | overrun | greet | dispatch
  | finish | stale => exact sheltered.stay sound .refl (obtained_move nofun)
  | accept _ taken =>
    obtain rfl := takePending_eq taken
    exact sheltered.stay sound (.of_eq rfl rfl rfl) (obtained_move nofun)
  | lease _ _ _ resumed => exact sheltered.stay sound (homes_resumeLease resumed) (obtained_move nofun)
  | replace => exact sheltered.stay sound homes_replaceSocket (obtained_move nofun)
  | place _ _ _ _ found => exact sheltered_place sheltered sound found rfl rfl rfl
  | crowded _ _ found =>
    obtain rfl := getOrCreateRoom_none found
    exact sheltered.stay sound .refl (obtained_move nofun)
  | spacious is => exact sheltered.stay sound .refl (obtained_move (by simp [Role.obtained, is]))
  | build is built =>
    cases built
    exact sheltered.stay sound (.of_eq rfl rfl rfl) (obtained_move (by simp [Role.obtained, is]))
  | add is added => exact sheltered_add sheltered (by rw [is]; rfl) added rfl rfl rfl
  | register => exact sheltered.stay sound homes_insertSession (obtained_move nofun)
  | welcome _ _ published => exact sheltered.stay sound (homes_publish published) (obtained_move nofun)
  | capability _ set =>
    exact sheltered.stay sound (homes_setFileCapability set) (obtained_move (by split <;> nofun))
  | take _ taken =>
    exact sheltered.stay sound (homes_takeFiles taken) (obtained_move (by split <;> nofun))
  | withdraw _ _ published =>
    exact sheltered.stay sound (homes_publish published) (obtained_move nofun)
  | author _ _ _ _ published => exact sheltered.stay sound (homes_publish published) fun _ _ => id
  | share _ _ shared => exact sheltered.stay sound (homes_shareFiles shared) fun _ _ => id
  | lose => exact sheltered.stay sound (.of_eq rfl rfl rfl) (obtained_move nofun)
  | detach => exact sheltered.stay sound homes_detachLease (obtained_move nofun)
  | expire _ expired =>
    cases expired
    exact sheltered.stay sound (.of_eq rfl rfl rfl) fun _ _ => id
  | remove =>
    refine sheltered.stay sound (.setRoom rfl ?_) fun _ _ => id
    exact List.filter_subset_self _
  | forget _ taken => exact sheltered.stay sound (homes_takeFiles taken) fun _ _ => id
  | goodbye _ _ published => exact sheltered.stay sound (homes_publish published) fun _ _ => id
  | delete => exact sheltered_delete sheltered spares rfl rfl

theorem sheltered_start : Sheltered {} where
  named := nofun
  joined _ inhabited := absurd rfl inhabited
  obtained := nofun

theorem sheltered_reachable (free : CollisionFree digest)
    (reached : ((service config digest).restrict Spares).Reachable s) : Sheltered s := by
  apply reached.invariant (P := Sheltered)
  case start =>
    rintro _ ⟨⟩
    exact sheltered_start
  case preserved =>
    intro s l t before sheltered step
    obtain ⟨_, run⟩ := before.of_restrict.run
    obtain ⟨_, _, c, _⟩ := standings free run
    exact sheltered_step sheltered c.sound step.2 step.1

/-- While no pass takes out a room that a hello has obtained and not yet joined, every
session is in the room `m_rooms` has under its room's name: sessions in rooms of one name
share it, the pings come to every session, and downloads find its files. -/
theorem rooms_sheltered (free : CollisionFree digest)
    (reached : ((service config digest).restrict Spares).Reachable s) :
    (∀ entry ∈ s.lobby.sessions, s.lobby.Registered entry.2.room) ∧
    (∀ one ∈ s.lobby.sessions, ∀ two ∈ s.lobby.sessions,
      (s.lobby.room one.2.room).name = (s.lobby.room two.2.room).name → one.2.room = two.2.room) ∧
    (∀ entry ∈ s.lobby.sessions, entry.2.peer ∈ s.lobby.pinged) ∧
    ∀ entry ∈ s.lobby.sessions, ∀ fileId,
      ((s.lobby.getRoom (s.lobby.room entry.2.room).name).bind fun room =>
        (s.lobby.room room).getFileById fileId) = (s.lobby.room entry.2.room).getFileById fileId := by
  have sheltered := sheltered_reachable free reached
  obtain ⟨_, run⟩ := reached.of_restrict.run
  obtain ⟨_, st, c, _⟩ := standings free run
  have member : ∀ entry ∈ s.lobby.sessions, entry.2.peer ∈ (s.lobby.room entry.2.room).peerById :=
    fun entry listed => c.session_member listed
  have registered : ∀ entry ∈ s.lobby.sessions, s.lobby.Registered entry.2.room :=
    fun entry listed => sheltered.joined _ (List.ne_nil_of_mem (member entry listed))
  refine ⟨registered, fun one first two second same => ?_, fun entry listed => ?_,
    fun entry listed fileId => ?_⟩
  · have here := registered one first
    have there := registered two second
    rw [Lobby.Registered, same, there] at here
    exact (Option.some.inj here).symm
  · have known := mem_of_lookup (registered entry listed)
    exact List.mem_flatMap.mpr ⟨_, known, member entry listed⟩
  · rw [registered entry listed]
    rfl

/-- The first session of a lobby is in a registered room. -/
theorem rooms_sheltered_first :
    ((service {} digestFirst).restrict Spares).Reachable serviceFirst ∧
    serviceFirst.lobby.Registered recordFirst.room ∧ 1 ∈ serviceFirst.lobby.pinged := by
  obtain ⟨_, run, _, keeps⟩ := first_session
  have reached : ((service {} digestFirst).restrict Spares).Reachable serviceFirst := by
    apply run.restrict
    intro l member s
    cases l with
    | deleted room => exact absurd member (keeps room)
    | _ => trivial
  obtain ⟨registered, _, pinged, _⟩ := rooms_sheltered digestFirst_free reached
  have listed : (digestFirst tokenFirst, recordFirst) ∈ serviceFirst.lobby.sessions :=
    List.mem_singleton_self _
  exact ⟨reached, registered _ listed, pinged _ listed⟩

def tokenSecond : Bytes := List.replicate 43 0x42

/-- A pass takes out the room of an expired session after a second hello has found
capacity in it: the second session is in no room of `m_rooms`, and gets no pings. -/
theorem room_orphaned : ∃ s, (service {} digestFirst).Reachable s ∧
    ∃ entry ∈ s.lobby.sessions, ¬ s.lobby.Registered entry.2.room ∧
      entry.2.peer ∉ s.lobby.pinged := by
  obtain ⟨_, run, -⟩ := first_session
  have lost := run.reachable.next (@Step.lose _ _ peerFirst (peerFirst.detachIfCurrent 0).1 _ 0 1 rfl
    fenced_first rfl rfl)
  have detached := lost.next (@Step.detach _ _ _ 1 0 rfl)
  have later := detached.next (@Step.tick _ _ gracePeriod _ (Nat.zero_le _))
  -- the second hello, up to `hasPeerCapacity`
  have created := later.next (@Step.create _ _ _ 9 [] [] rfl)
  have arrived := created.next (@Step.arrive _ _ (some helloFirst) _ _ 9 [] [] rfl rfl)
  have admitted := arrived.next (@Step.accept _ _ _ _ 9 _ rfl rfl)
  have placed := admitted.next (@Step.place _ _ tokenSecond _ _ _ 9 _ rfl rfl rfl (by decide) rfl)
  have spacious := placed.next (@Step.spacious _ _ _ 9 _ _ _ rfl rfl)
  -- a whole pass
  have expired := spacious.next (@Step.expire _ _ gracePeriod _ _ _ (le_refl _) rfl)
  have removed := expired.next (@Step.remove _ _ _ _ 1 rfl)
  have forgotten := removed.next (@Step.forget _ _ _ _ _ _ 1 rfl rfl)
  have left := forgotten.next (@Step.goodbye _ _ _ _ _ _ 1 rfl rfl rfl)
  have deleted := left.next (@Step.delete _ _ _ _ 1 rfl)
  -- and the rest of the hello
  have built := deleted.next (@Step.build _ _ _ 2 _ 9 _ _ _ rfl rfl)
  have added := built.next (@Step.add _ _ _ _ 9 _ _ _ _ rfl rfl)
  have registered := added.next (@Step.register _ _ _ _ 9 _ _ _ rfl)
  exact ⟨_, registered, _, List.mem_singleton_self _, nofun, nofun⟩

end Sessions
end Conspire
