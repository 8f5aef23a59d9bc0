import Conspire.Lobby.Consistency

/-! The lifecycle of a session: every run of the service takes each peer along its
standings, so its announcements, detaches, resumes and its expiry come in order. -/
namespace Conspire.Sessions
open Session Boundaries Transition

/-- What a step does in a peer's name. -/
def deed (who : PeerId) : Label → Option Deed
  | .opened peer => if peer = who then some .opened else none
  | .published _ message =>
    if message.peerId = some (who : Int) then
      match message.code with
      | some .peerJoined => some .joined
      | some .peerLeft => some .left
      | _ => some .authored
    else none
  | .detached peer time => if peer = who then some (.detached time) else none
  | .resumed peer => if peer = who then some .resumed else none
  | .expired peers now => if who ∈ peers then some (.expired now) else none
  | .deleted _ | .internal => none

def story (who : PeerId) (labels : List Label) : List Deed := labels.filterMap (deed who)

variable {config : ConfigDto} {digest : Bytes → Bytes} {s t : Service} {l : Label}
  {st : PeerId → Standing}

theorem deed_published {who q : PeerId} (owner : message.peerId = some (who : Int))
    (other : q ≠ who) : deed q (.published room message) = none := by
  simp only [deed, owner, Option.some.injEq, ite_eq_right_iff]
  intro same
  exact absurd (Int.ofNat.inj same).symm other

theorem Consistent.still (c : Consistent digest s st) (change : Local s.lobby t.lobby none)
    (role : t.role = s.role) (bearer : t.bearer = s.bearer) (departing : t.departing = s.departing) :
    Consistent digest t st where
  sound := change.sound c.sound
  fits q := (c.fits q).same (change.same q nofun) (by rw [bearer]) (by rw [departing])
  claims := role ▸ c.claims
  owned := role ▸ c.owned
  listens := role ▸ c.listens
  fresh q later := c.fresh q (change.counter.trans later)
  sited k room is := (c.sited k room (role ▸ is)).trans_le change.created

theorem advance_of {y : Standing} (moves : Advance (st who) (deed who l) y)
    (others : ∀ q ≠ who, deed q l = none) (q : PeerId) :
    Advance (st q) (deed q l) (Function.update st who y q) := by
  by_cases here : q = who
  · subst here
    simpa using moves
  · simpa [here, others q here] using Advance.stay

/-- Which standings a step leads to. -/
def Moves (digest : Bytes → Bytes) (st : PeerId → Standing) (l : Label) (t : Service) : Prop :=
  ∃ next, Consistent digest t next ∧ ∀ q, Advance (st q) (deed q l) (next q)

theorem Consistent.moves_not (c : Consistent digest t st) (undone : ∀ q, deed q l = none) :
    Moves digest st l t := by
  refine ⟨st, c, fun q => ?_⟩
  rw [undone q]
  exact .stay

/-- Another standing of a peer of which the lobby says the same. -/
theorem Fits.turn {x y : Standing} (fits : Fits digest s who x) (same : Same s.lobby t.lobby who)
    (bearer : t.bearer = s.bearer) (socket : y.socket = x.socket)
    (room : ∀ room, y.room = some room → x.room = some room) (member : y.member = x.member)
    (lease : y.lease = x.lease) (stays : y.departure = none → t.departing who = none)
    (departing : ∀ departure, y.departure = some departure →
      ∃ record, t.departing who = some (record, departure) ∧
        s.lobby.roomOf who = some record.room) : Fits digest t who y where
  socket := by rw [same.socket, fits.socket, socket]
  housed here is := by rw [same.room, fits.housed here (room here is)]
  member := by simpa [same.room, same.member, member] using fits.member
  absent := by simpa [same.records, lease] using fits.absent
  record := by simpa [same.room, same.records, bearer, lease] using fits.record
  stays := stays
  departing := by simpa [same.room] using departing

/-- A peer with another transport binding. -/
theorem Fits.rebound {x y : Standing} {next : Peer} (fits : Fits digest s who x)
    (known : s.lobby.peer who = some peer) (kept : next.room = peer.room)
    (peers : t.lobby.peer = Function.update s.lobby.peer who (some next))
    (rooms : t.lobby.room = s.lobby.room) (sessions : t.lobby.sessions = s.lobby.sessions)
    (bearer : t.bearer = s.bearer) (departing : t.departing = s.departing)
    (socket : y.socket = some next.socket) (room : y.room = none) (member : y.member = x.member)
    (lease : y.lease = x.lease) (stays : x.departure = none) (staying : y.departure = none) :
    Fits digest t who y := by
  have sited : t.lobby.roomOf who = s.lobby.roomOf who := by
    simp [Lobby.roomOf, peers, known, kept]
  have records : t.lobby.records who = s.lobby.records who := by
    simp [Lobby.records, sessions]
  constructor
  · simp [Lobby.socketOf, peers, socket]
  · simp [room]
  · simpa [rooms, sited, member] using fits.member
  · simpa [records, lease] using fits.absent
  · simpa [records, sited, bearer, lease] using fits.record
  · rw [departing]
    exact fun _ => fits.stays stays
  · simp [staying]

section
variable {socket : Socket} {who : PeerId} {room : RoomId}

theorem moves_build {next : Lobby} (c : Consistent digest s st)
    (is : s.role socket = .hello hello (.spacious token room))
    (built : s.lobby.createPeer socket room nickname now = (next, who)) :
    Moves digest st .internal (s.move socket next (.hello hello (.built token room who))) := by
  have early : room < s.lobby.created := c.sited socket room (by rw [is]; rfl)
  have change := local_createPeer early built
  cases built
  have absent : st s.lobby.peerIdCounter = .absent := c.fresh _ le_rfl
  have fits := c.fits s.lobby.peerIdCounter
  rw [absent] at fits
  refine ⟨Function.update st s.lobby.peerIdCounter (.built socket room), ?_,
    advance_of (absent ▸ .build) fun q _ => rfl⟩
  refine c.move change rfl (fun _ _ => rfl) rfl ?_ ?_ ?_ ?_ ?_ rfl ?_ rfl (Nat.lt_succ_self _)
  · have created : (s.lobby.createPeer socket room nickname now).1.roomOf s.lobby.peerIdCounter =
        some room := by
      simp [Lobby.createPeer, Lobby.setPeer, Lobby.roomOf, Peer.create]
    have outside : ∀ here, s.lobby.peerIdCounter ∉ (s.lobby.room here).peerById := by
      intro here member
      exact Bool.noConfusion ((fits.member here).mp member).1
    constructor
    · simp [Service.move, Lobby.setPeer, Lobby.socketOf, Peer.create, Standing.socket]
    · rintro _ ⟨⟩
      exact created
    · intro here
      exact ⟨fun member => absurd member (outside here), fun is => Bool.noConfusion is.1⟩
    · exact fun _ => fits.absent rfl
    · rintro _ ⟨⟩
    · exact fun _ => fits.stays rfl
    · rintro _ ⟨⟩
  · simp [absent, Standing.place, Standing.owner]
  · simp [is, Role.claims]
  · rintro q x ⟨⟩
    exact ⟨rfl, rfl⟩
  · rintro k ⟨⟩
    exact ⟨rfl, rfl⟩
  · simp [absent, Standing.joined]

/-- What is known of a peer that a handler works for. -/
theorem Consistent.claimed {x : Standing} (c : Consistent digest s st)
    (claims : (s.role socket).claims socket = some (who, x)) :
    st who = x ∧ Fits digest s who x ∧ (∀ k, (st who).place = some k → k = socket) ∧
      (∀ q x, (s.role socket).claims socket = some (q, x) → q = who) ∧
      who < s.lobby.peerIdCounter := by
  have stands := c.claims socket who x claims
  have place := Role.place_of_claims claims
  refine ⟨stands, stands ▸ c.fits who, ?_, ?_, ?_⟩
  · rw [stands, place]
    rintro k ⟨⟩
    rfl
  · rw [claims]
    rintro q x ⟨⟩
    rfl
  · by_contra later
    have absent := c.fresh who (Nat.not_lt.mp later)
    rw [← stands, absent] at place
    cases place

theorem moves_overrun (c : Consistent digest s st)
    (is : s.role socket = .hello hello (.built token room who)) :
    Moves digest st .internal (s.move socket s.lobby .refused) := by
  obtain ⟨stands, fits, near, held, counter⟩ :=
    c.claimed (show (s.role socket).claims socket = some (who, .built socket room) by rw [is]; rfl)
  refine ⟨Function.update st who (.dropped socket), ?_, advance_of (stands ▸ .drop) fun q _ => rfl⟩
  refine c.move Local.refl.weaken rfl (fun _ _ => rfl) rfl ?_ near held nofun nofun rfl ?_ rfl counter
  · exact fits.turn (.of_eq rfl rfl rfl) rfl rfl nofun rfl rfl (fun _ => fits.stays rfl) nofun
  · simp [stands, Standing.joined]

theorem moves_add {next : Lobby} (c : Consistent digest s st)
    (is : s.role socket = .hello hello (.built token room who))
    (added : s.lobby.addPeer room who = some next) :
    Moves digest st .internal (s.move socket next (.hello hello (.added token room who))) := by
  obtain ⟨stands, fits, near, held, counter⟩ :=
    c.claimed (show (s.role socket).claims socket = some (who, .built socket room) by rw [is]; rfl)
  have sited := fits.housed room rfl
  have early : room < s.lobby.created := c.sound.lodged who room sited
  have change := local_addPeer early added
  obtain ⟨after, joined, rfl⟩ := Option.map_eq_some_iff.mp added
  refine ⟨Function.update st who (.added socket room), ?_, advance_of (stands ▸ .add) fun q _ => rfl⟩
  refine c.move change rfl (fun _ _ => rfl) rfl ?_ near held ?_ ?_ rfl ?_ rfl counter
  · refine ⟨fits.socket, fits.housed, fun here => ?_, fun _ => fits.absent rfl, nofun,
      fun _ => fits.stays rfl, nofun⟩
    have outside : who ∉ (s.lobby.room here).peerById := by
      intro member
      exact Bool.noConfusion ((fits.member here).mp member).1
    change who ∈ ((s.lobby.setRoom room after).room here).peerById ↔
      true = true ∧ s.lobby.roomOf who = some here
    rw [sited]
    by_cases same : here = room
    · subst same
      simp [Lobby.setRoom, (mem_addPeer joined).2]
    · simp [Lobby.setRoom, same, outside, Ne.symm same]
  · rintro q x ⟨⟩
    exact ⟨rfl, rfl⟩
  · rintro k ⟨⟩
    exact ⟨rfl, rfl⟩
  · simp [stands, Standing.joined]

theorem moves_register (free : CollisionFree digest) (tokened : Tokened s) (c : Consistent digest s st)
    (is : s.role socket = .hello hello (.added token room who)) :
    Moves digest st (.opened who)
      { s.move socket (s.lobby.insertSession { room, peer := who, digest := digest token })
          (.hello hello (.registered room who)) with
        bearer := Function.update s.bearer who (some token) } := by
  obtain ⟨stands, fits, near, held, counter⟩ :=
    c.claimed (show (s.role socket).claims socket = some (who, .added socket room) by rw [is]; rfl)
  obtain ⟨-, valid, unborne⟩ := tokened.flying socket token (by rw [is]; rfl)
  have new := c.unregistered free tokened valid unborne
  have inserted : s.lobby.insertSession { room, peer := who, digest := digest token } =
      { s.lobby with sessions := s.lobby.sessions ++
          [(digest token, { room, peer := who, digest := digest token })] } := by
    simp [Lobby.insertSession, new]
  refine ⟨Function.update st who (.opened socket room), ?_,
    advance_of (by simpa [stands, deed] using .opens) fun q other => by simp [deed, Ne.symm other]⟩
  refine c.move local_insertSession rfl (fun q other => by simp [other]) rfl ?_ near held ?_ ?_ rfl ?_
    rfl (by rw [inserted]; exact counter)
  · rw [inserted]
    refine ⟨fits.socket, fits.housed, fits.member, nofun, ?_, fun _ => fits.stays rfl, nofun⟩
    rintro _ ⟨⟩
    refine ⟨room, token, fits.housed room rfl, by simp, ?_⟩
    have before := fits.absent rfl
    simp only [Lobby.records, Service.move] at before ⊢
    simp [List.filter_append, before]
  · rintro q x ⟨⟩
    exact ⟨rfl, rfl⟩
  · rintro k ⟨⟩
    exact ⟨rfl, rfl⟩
  · simp [stands, Standing.joined]

theorem moves_welcome {next : Lobby} {nickname : Bytes} (c : Consistent digest s st)
    (is : s.role socket = .hello hello (.registered room who))
    (published : s.lobby.publish config room (joinedMessage who nickname) = some next) :
    Moves digest st (.published room (joinedMessage who nickname))
      (s.move socket next (.hello hello (.bound who))) := by
  obtain ⟨stands, fits, near, held, counter⟩ :=
    c.claimed (show (s.role socket).claims socket = some (who, .opened socket room) by rw [is]; rfl)
  have change := local_publish published
  refine ⟨Function.update st who (.bound socket), ?_, advance_of ?_ fun q other => ?_⟩
  · refine c.move change.weaken rfl (fun _ _ => rfl) rfl ?_ near held ?_ nofun rfl (fun _ => rfl) rfl
      (counter.trans_le change.counter)
    · exact fits.turn (change.same who nofun) rfl rfl nofun rfl rfl (fun _ => fits.stays rfl) nofun
    · rintro q x ⟨⟩
      exact ⟨rfl, rfl⟩
  · simpa [stands, deed, joinedMessage] using Advance.join
  · exact deed_published rfl other

theorem moves_lease {next : Lobby} (free : CollisionFree digest) (tokened : Tokened s)
    (c : Consistent digest s st) (is : s.role socket = .hello hello .admitted)
    (resumed : s.lobby.resumeLease key roomName now = some (next, who)) :
    Moves digest st (.resumed who) (s.move socket next (.hello hello (.leased who))) := by
  obtain ⟨⟨here, peer, digest', before⟩, lease, member, _, resumes, same, rfl⟩ :=
    resumeLease_eq resumed
  obtain rfl : peer = who := same
  obtain ⟨has, room, token, leased, sited, bearer, entry, _⟩ := c.entry member
  simp only [Prod.mk.injEq, SessionRecord.mk.injEq, true_and] at entry
  obtain ⟨rfl, rfl, rfl, rfl⟩ := entry
  have keyed := c.keyed free tokened bearer
  obtain ⟨since, stands, -, rfl⟩ := resume_eq leased resumes
  refine ⟨Function.update st peer (.leased socket), ?_,
    advance_of (by simpa [stands, deed] using .resume) fun q other => by simp [deed, Ne.symm other]⟩
  have fits := c.fits peer
  rw [stands] at fits leased
  refine c.move (local_setSession keyed) rfl (fun _ _ => rfl) rfl ?_ ?_ ?_ ?_ ?_ rfl ?_ rfl ?_
  · exact fits.leased keyed leased bearer sited rfl rfl rfl rfl rfl rfl rfl rfl rfl
  · simp [stands, Standing.place, Standing.owner]
  · simp [is, Role.claims]
  · rintro q x ⟨⟩
    exact ⟨rfl, rfl⟩
  · rintro k ⟨⟩
    exact ⟨rfl, rfl⟩
  · exact fun _ => rfl
  · by_contra later
    have absent := c.fresh peer (Nat.not_lt.mp later)
    rw [stands] at absent
    cases absent

theorem moves_replace (c : Consistent digest s st)
    (is : s.role socket = .hello hello (.leased who)) :
    Moves digest st .internal
      (s.move socket (s.lobby.replaceSocket who socket s.clock) (.hello hello (.bound who))) := by
  obtain ⟨stands, fits, near, held, counter⟩ :=
    c.claimed (show (s.role socket).claims socket = some (who, .leased socket) by rw [is]; rfl)
  refine ⟨Function.update st who (.bound socket), ?_, advance_of (stands ▸ .bind) fun q _ => rfl⟩
  have change : Local s.lobby (s.lobby.replaceSocket who socket s.clock) (some who) :=
    local_replaceSocket
  refine c.move change rfl (fun _ _ => rfl) rfl ?_ near held ?_ nofun rfl (fun _ => rfl) rfl
    (counter.trans_le change.counter)
  · obtain ⟨peer, known, _⟩ := Option.map_eq_some_iff.mp fits.socket
    have replaced : s.lobby.replaceSocket who socket s.clock =
        { s.lobby.setPeer who (peer.replaceSocket socket s.clock).1 with
          invalidated := s.lobby.invalidated ++
            ((peer.replaceSocket socket s.clock).2.filter (· ≠ socket)).toList } := by
      simp [Lobby.replaceSocket, known]
    rw [replaced]
    exact @Fits.rebound _ _ _ _ _ _ _ (peer.replaceSocket socket s.clock).1 fits known rfl rfl rfl rfl
      rfl rfl rfl
      rfl rfl rfl rfl rfl
  · rintro q x ⟨⟩
    exact ⟨rfl, rfl⟩

/-- A peer whose listener finds itself on the current socket is bound to it. -/
theorem Consistent.bound (c : Consistent digest s st)
    (listens : (s.role socket).listens = some who) (known : s.lobby.peer who = some peer)
    (current : peer.socket = some socket) : st who = .bound socket := by
  have joined := c.listens socket who listens
  have here := (c.fits who).socket
  simp only [Lobby.socketOf, known, current, Option.map_some] at here
  cases x : st who <;> rw [x] at joined here <;> cases joined <;> cases here
  rfl

theorem moves_lose (c : Consistent digest s st) (is : s.role socket = .serving who)
    (known : s.lobby.peer who = some peer) (lost : peer.detachIfCurrent socket = (next, true)) :
    Moves digest st .internal (s.move socket (s.lobby.setPeer who next) (.losing who)) := by
  obtain ⟨no, _⟩ | ⟨_, current, unbound, _⟩ := Peer.detachIfCurrent_eq lost
  · exact absurd no nofun
  obtain ⟨room, id⟩ := Peer.detachIfCurrent_room lost
  have stands := c.bound (by rw [is]; rfl) known current
  have fits := stands ▸ c.fits who
  refine ⟨Function.update st who (.losing socket), ?_, advance_of (stands ▸ .lose) fun q _ => rfl⟩
  refine c.move (local_setPeer fun sound => ⟨?_, ?_⟩) rfl (fun _ _ => rfl) rfl ?_ ?_ ?_ ?_ ?_ rfl
    (fun _ => rfl) rfl ?_
  · exact room ▸ sound.lodged who _ (by simp [Lobby.roomOf, known])
  · exact id.trans (sound.numbered who peer known)
  · exact fits.rebound known room rfl rfl rfl rfl rfl (by rw [unbound]; rfl) rfl rfl rfl rfl rfl
  · rw [stands]
    rintro k ⟨⟩
    rfl
  · simp [is, Role.claims]
  · rintro q x ⟨⟩
    exact ⟨rfl, rfl⟩
  · rintro k ⟨⟩
    exact ⟨rfl, rfl⟩
  · by_contra later
    have absent := c.fresh who (Nat.not_lt.mp later)
    rw [stands] at absent
    cases absent

/-- The peer's session is the first one `detachSessionTransport` finds. -/
theorem moves_detach (free : CollisionFree digest) (tokened : Tokened s) (c : Consistent digest s st)
    (is : s.role socket = .losing who) :
    Moves digest st (.detached who s.clock)
      (s.move socket (s.lobby.detachLease who s.clock) .gone) := by
  obtain ⟨stands, fits, near, held, counter⟩ :=
    c.claimed (show (s.role socket).claims socket = some (who, .losing socket) by rw [is]; rfl)
  obtain ⟨room, token, sited, bearer, records⟩ := fits.record {} rfl
  have keyed := c.keyed free tokened bearer
  have found : s.lobby.detachLease who s.clock = s.lobby.setSession (digest token)
      { room, peer := who, digest := digest token, lease := ⟨some (s.clock + gracePeriod)⟩ } := by
    have first : s.lobby.sessions.find? (fun entry => decide (entry.2.peer = who)) =
        some (digest token, { room, peer := who, digest := digest token }) := by
      rw [← List.head?_filter]
      exact congrArg List.head? records
    simp [Lobby.detachLease, first, SessionLease.detach]
  rw [found]
  refine ⟨Function.update st who (.offline s.clock), ?_,
    advance_of (by simpa [stands, deed] using .detach) fun q other => by simp [deed, Ne.symm other]⟩
  refine c.move (local_setSession keyed) rfl (fun _ _ => rfl) rfl ?_ near held nofun nofun rfl
    (fun _ => rfl) rfl counter
  exact fits.leased keyed rfl bearer sited rfl rfl rfl rfl rfl rfl rfl rfl rfl

/-- The standing of a session that was taken out. -/
theorem Consistent.departs (c : Consistent digest s st)
    (is : s.departing who = some (record, departure)) :
    st who = .departing departure ∧ s.lobby.roomOf who = some record.room := by
  have fits := c.fits who
  cases departs : (st who).departure with
  | none => simp [fits.stays departs] at is
  | some other =>
    obtain ⟨_, held, sited⟩ := fits.departing other departs
    obtain ⟨rfl, rfl⟩ := Prod.mk.inj (Option.some.inj (held.symm.trans is))
    cases x : st who <;> rw [x] at departs <;> cases departs
    exact ⟨rfl, sited⟩

theorem moves_remove (c : Consistent digest s st)
    (is : s.departing who = some (record, .expired)) :
    Moves digest st .internal
      (s.depart who (s.lobby.erasePeer record.room who) (some (record, .removed))) := by
  obtain ⟨stands, sited⟩ := c.departs is
  have fits := stands ▸ c.fits who
  refine ⟨Function.update st who (.departing .removed), ?_,
    advance_of (stands ▸ .remove) fun q _ => rfl⟩
  refine c.depart local_erasePeer rfl rfl (fun q other => by simp [Service.depart, other]) ?_
    (by simp [stands, Standing.place, Standing.owner]) rfl rfl (by simp [stands])
  refine ⟨fits.socket, nofun, fun here => ?_, fun _ => fits.absent rfl, nofun, nofun, ?_⟩
  · change who ∈ ((s.lobby.erasePeer record.room who).room here).peerById ↔ false = true ∧ _
    have before : who ∈ (s.lobby.room here).peerById → here = record.room := by
      intro member
      exact Option.some.inj (((fits.member here).mp member).2.symm.trans sited)
    by_cases same : here = record.room
    · subst same
      simp [Lobby.erasePeer, Lobby.setRoom, mem_erasePeer]
    · simpa [Lobby.erasePeer, Lobby.setRoom, same] using mt before same
  · rintro _ ⟨⟩
    exact ⟨record, by simp [Service.depart], sited⟩

/-- The pass comes to the next of its sections for a session. -/
theorem moves_depart {next : Lobby} (c : Consistent digest s st)
    (is : s.departing who = some (record, departure)) (change : Local s.lobby next none)
    (removed : (Standing.departing departure).member = false) (after : Departure)
    (later : (Standing.departing after).member = false)
    (moves : Advance (.departing departure) (deed who l) (.departing after))
    (others : ∀ q ≠ who, deed q l = none) :
    Moves digest st l (s.depart who next (some (record, after))) := by
  obtain ⟨stands, sited⟩ := c.departs is
  have fits := stands ▸ c.fits who
  refine ⟨Function.update st who (.departing after), ?_, advance_of (stands ▸ moves) others⟩
  refine c.depart change.weaken rfl rfl (fun q other => by simp [Service.depart, other]) ?_
    (by simp [stands, Standing.place, Standing.owner]) rfl rfl (by simp [stands])
  refine fits.turn (change.same who nofun) rfl rfl nofun (later.trans removed.symm) rfl nofun ?_
  rintro _ ⟨⟩
  exact ⟨record, by simp [Service.depart], sited⟩

theorem moves_delete {next : Lobby} (c : Consistent digest s st)
    (is : s.departing who = some (record, .left)) (change : Local s.lobby next none) :
    Moves digest st (.deleted room) (s.depart who next none) := by
  obtain ⟨stands, sited⟩ := c.departs is
  have fits := stands ▸ c.fits who
  refine ⟨Function.update st who .ended, ?_, advance_of (stands ▸ .finish) fun q _ => rfl⟩
  refine c.depart change.weaken rfl rfl (fun q other => by simp [Service.depart, other]) ?_
    (by simp [stands, Standing.place, Standing.owner]) rfl rfl (by simp [stands])
  exact fits.turn (change.same who nofun) rfl rfl nofun rfl rfl
    (fun _ => by simp [Service.depart]) nofun

/-- Where a pass leaves the peer of a session. -/
def Standing.expire (now : TimePoint) : Standing → Standing
  | .offline since => if since + gracePeriod ≤ now then .departing .expired else .offline since
  | x => x

theorem Standing.expire_eq {x : Standing} (now : TimePoint) :
    x.expire now = x ∨ ∃ since, x = .offline since ∧ since + gracePeriod ≤ now ∧
      x.expire now = .departing .expired := by
  cases x with
  | offline since =>
    by_cases late : since + gracePeriod ≤ now
    · exact .inr ⟨since, rfl, late, by simp [Standing.expire, late]⟩
    · exact .inl (by simp [Standing.expire, late])
  | _ => exact .inl rfl

/-- The sessions of a peer that a pass takes out. -/
theorem find_expired {sessions : List (Bytes × SessionRecord)} (p : Bytes × SessionRecord → Bool) :
    ((sessions.filter p).map (·.2)).find? (fun record => decide (record.peer = who)) =
      ((((sessions.filter fun entry => entry.2.peer = who).filter p).map (·.2)).head?) := by
  rw [← List.head?_filter, List.filter_map, List.filter_filter, List.filter_filter]
  congr 2
  apply List.filter_congr
  intro entry _
  exact Bool.and_comm _ _

/-- A peer that a pass leaves where it is has no session that expires. -/
theorem Consistent.stays_expire (c : Consistent digest s st) (same : (st who).expire now = st who) :
    ((s.lobby.records who).filter fun entry => entry.2.lease.expires now) = [] := by
  cases has : (st who).lease with
  | none => simp [(c.fits who).absent has]
  | some lease =>
    obtain ⟨_, _, _, _, records⟩ := (c.fits who).record lease has
    have lasts : lease.expires now = false := by
      cases x : st who <;> rw [x] at has same <;> cases has
      case offline since =>
        by_contra late
        have late : since + gracePeriod ≤ now := by simpa [SessionLease.expires] using late
        simp [Standing.expire, late] at same
      all_goals rfl
    simp [records, lasts]

/-- A peer that a pass moves on has one session, and it expires. -/
theorem Consistent.moves_on (c : Consistent digest s st) (stands : st who = .offline since)
    (late : since + gracePeriod ≤ now) :
    ∃ key record, s.lobby.records who = [(key, record)] ∧ record.lease.expires now = true ∧
      record.peer = who ∧ s.lobby.roomOf who = some record.room := by
  obtain ⟨room, token, sited, _, records⟩ := (c.fits who).record _ (by rw [stands]; rfl)
  exact ⟨_, _, records, by simpa [SessionLease.expires] using late, rfl, sited⟩

/-- What a pass leaves of a peer's sessions, and what it takes out. -/
theorem expire_records {next : Lobby} (expired : s.lobby.expire now = (next, records))
    (who : PeerId) :
    next.records who =
        (s.lobby.records who).filter (fun entry => !entry.2.lease.expires now) ∧
      records.find? (fun record => decide (record.peer = who)) =
        (((s.lobby.records who).filter fun entry => entry.2.lease.expires now).map (·.2)).head? := by
  cases expired
  refine ⟨?_, find_expired _⟩
  simp only [Lobby.records, List.filter_filter, Bool.and_comm]

/-- Nothing but the registry changes in a pass. -/
theorem expire_eq {next : Lobby} (expired : s.lobby.expire now = (next, records)) :
    next.peer = s.lobby.peer ∧ next.room = s.lobby.room ∧ next.created = s.lobby.created ∧
      next.peerIdCounter = s.lobby.peerIdCounter ∧ (s.lobby.Sound → next.Sound) := by
  cases expired
  exact ⟨rfl, rfl, rfl, rfl, fun sound => ⟨sound.vacant, sound.lodged, sound.housed, sound.numbered⟩⟩

/-- One pass moves on every session whose time has come. -/
theorem moves_expire {next : Lobby} (c : Consistent digest s st)
    (expired : s.lobby.expire now = (next, records)) :
    Moves digest st (.expired (records.map (·.peer)) now) (s.expel next records) := by
  obtain ⟨peers, rooms, created, counter, sound⟩ := expire_eq expired
  have sockets : ∀ q, next.socketOf q = s.lobby.socketOf q := by simp [Lobby.socketOf, peers]
  have sites : ∀ q, next.roomOf q = s.lobby.roomOf q := by simp [Lobby.roomOf, peers]
  refine ⟨fun q => (st q).expire now,
    ⟨sound c.sound, fun q => ?_, fun k q x is => ?_, fun q k owner => ?_, fun k q is => ?_,
      fun q later => ?_, fun k room is => created.symm ▸ c.sited k room is⟩, fun q => ?_⟩
  · have fits := c.fits q
    obtain ⟨left, taken⟩ := expire_records expired q
    rcases Standing.expire_eq (x := st q) now with same | ⟨since, stands, late, moves⟩
    · have unexpired := c.stays_expire same
      have all : (s.lobby.records q).filter (fun entry => !entry.2.lease.expires now) =
          s.lobby.records q :=
        List.filter_eq_self.mpr fun entry member => by
          simpa using List.filter_eq_nil_iff.mp unexpired entry member
      simp only [same]
      refine fits.same ⟨sockets q, sites q, fun room => ?_, left.trans all⟩ rfl ?_
      · simp [Service.expel, rooms]
      · simp [Service.expel, taken, unexpired]
    · obtain ⟨key, record, was, expires, rfl, sited⟩ := c.moves_on stands late
      rw [stands] at fits
      simp only [moves]
      refine ⟨(sockets _).trans fits.socket,
        by rintro _ ⟨⟩, fun room => ?_, fun _ => ?_, by rintro _ ⟨⟩, by rintro ⟨⟩, ?_⟩
      · simp only [Service.expel, rooms, sites]
        exact fits.member room
      · exact left.trans (by simp [was, expires])
      · rintro _ ⟨⟩
        exact ⟨record, by simp [Service.expel, taken, was, expires], (sites _).trans sited⟩
  · have stands := c.claims k q x is
    rcases Standing.expire_eq (x := st q) now with same | ⟨since, other, _, _⟩
    · exact same.trans stands
    · have place := Role.place_of_claims is
      rw [← stands, other] at place
      cases place
  · rcases Standing.expire_eq (x := st q) now with same | ⟨_, _, _, moves⟩
    · simp only [same] at owner ⊢
      exact c.owned q k owner
    · simp [moves, Standing.owner] at owner
  · rcases Standing.expire_eq (x := st q) now with same | ⟨_, _, _, moves⟩
    · simpa only [same] using c.listens k q is
    · simp [moves, Standing.joined]
  · simp only [c.fresh q (counter ▸ later)]
    rfl
  · obtain ⟨left, taken⟩ := expire_records expired q
    rcases Standing.expire_eq (x := st q) now with same | ⟨since, stands, late, moves⟩
    · have unexpired := c.stays_expire same
      have outside : q ∉ records.map (·.peer) := by
        rw [unexpired] at taken
        simpa using taken
      simpa only [same, deed, outside, if_false] using Advance.stay
    · obtain ⟨key, record, was, expires, rfl, _⟩ := c.moves_on stands late
      have inside : record.peer ∈ records.map (·.peer) := by
        rw [was] at taken
        exact List.mem_map_of_mem (List.mem_of_find?_eq_some (taken.trans (by simp [expires])))
      simp only [deed, inside, if_true, stands]
      rw [← stands, moves, stands]
      exact .expire late

theorem Role.claims_of_homeless {r : Role} (socket : Socket) (homeless : r.homeless = true) :
    r.claims socket = none := by
  cases r <;> first | rfl | contradiction

/-- The handler of a bound peer goes on, or is done. -/
theorem Consistent.serve (c : Consistent digest s st) (change : Local s.lobby t.lobby none)
    (role : t.role = Function.update s.role socket r) (bearer : t.bearer = s.bearer)
    (departing : t.departing = s.departing)
    (before : (s.role socket).claims socket = some (who, .bound socket))
    (after : ∀ q x, r.claims socket = some (q, x) → q = who ∧ x = .bound socket)
    (listens : ∀ q, r.listens = some q → q = who) (site : r.site = none) :
    Consistent digest t st := by
  have stands := c.claims socket who _ before
  refine c.rest change role bearer departing ?_ ?_ ?_ (by simp [site])
  · intro q x claim
    obtain ⟨rfl, rfl⟩ := after q x claim
    exact stands
  · intro q x claim owner
    rw [before] at claim
    cases claim
    cases owner
  · intro q listen
    rw [listens q listen, stands]
    rfl

/-- A bound peer publishes. -/
theorem moves_author (c : Consistent digest t st) (stands : st who = .bound socket)
    (owner : message.peerId = some (who : Int)) (isAuthored : authored message) :
    Moves digest st (.published room message) t := by
  refine ⟨st, c, fun q => ?_⟩
  by_cases here : q = who
  · subst here
    have does : deed q (.published room message) = some .authored := by
      rcases isAuthored with code | code <;> simp [deed, owner, code]
    rw [does, stands]
    exact .author
  · rw [deed_published owner here]
    exact .stay

theorem moves_withdraw {next : Lobby} (c : Consistent digest s st)
    (is : s.role socket = .hello hello (.withdrawing who files))
    (known : s.lobby.peer who = some peer)
    (published : s.lobby.publish config peer.room (unavailableMessage peer files) = some next) :
    Moves digest st (.published peer.room (unavailableMessage peer files))
      (s.move socket next (.hello hello (.greeting who))) := by
  have claims : (s.role socket).claims socket = some (who, .bound socket) := by rw [is]; rfl
  refine @moves_author _ _ _ socket _ _ _ (c.serve (local_publish published) rfl rfl rfl claims ?_
    nofun rfl) (c.claims socket who _ claims) ?_ (.inr rfl)
  · rintro q x ⟨⟩
    exact ⟨rfl, rfl⟩
  · simp [unavailableMessage, c.sound.numbered who peer known]

/-- A step moves peers along their standings. -/
theorem moves_step (free : CollisionFree digest) (tokened : Tokened s) (c : Consistent digest s st)
    (step : Step config digest s l t) : Moves digest st l t := by
  cases step with
  | tick => exact Consistent.moves_not (c.still Local.refl rfl rfl rfl) fun _ => rfl
  | create is =>
    refine Consistent.moves_not (c.rest local_await rfl rfl rfl ?_ ?_ ?_ ?_) fun _ => rfl <;>
      simp [is, Role.claims, Role.listens, Role.site]
  | malformed is | arrive is | late is | forged is | unknown is | tokenless is | full is =>
    refine Consistent.moves_not (c.rest Local.refl rfl rfl rfl ?_ ?_ ?_ ?_) fun _ => rfl <;>
      simp [is, Role.claims, Role.listens, Role.site]
  | accept is taken =>
    obtain rfl := takePending_eq taken
    refine Consistent.moves_not (c.rest local_forgetPending rfl rfl rfl ?_ ?_ ?_ ?_) fun _ => rfl <;>
      simp [is, Role.claims, Role.listens, Role.site]
  | lease is _ _ resumed => exact moves_lease free tokened c is resumed
  | replace is => exact moves_replace c is
  | place is _ _ _ found =>
    obtain ⟨change, early⟩ := local_getOrCreateRoom c.sound found
    refine Consistent.moves_not (c.rest change rfl rfl rfl ?_ ?_ ?_ ?_) fun _ => rfl
    case refine_4 =>
      rintro _ ⟨⟩
      exact early _ rfl
    all_goals simp [is, Role.claims, Role.listens]
  | crowded is _ found =>
    have change := (local_getOrCreateRoom c.sound found).1
    refine Consistent.moves_not (c.rest change rfl rfl rfl ?_ ?_ ?_ ?_) fun _ => rfl <;>
      simp [is, Role.claims, Role.listens, Role.site]
  | spacious is =>
    refine Consistent.moves_not (c.rest Local.refl rfl rfl rfl ?_ ?_ ?_ ?_) fun _ => rfl
    case refine_4 =>
      rintro _ ⟨⟩
      exact c.sited _ _ (by rw [is]; rfl)
    all_goals simp [is, Role.claims, Role.listens]
  | build is built => exact moves_build c is built
  | overrun is => exact moves_overrun c is
  | add is added => exact moves_add c is added
  | register is => exact moves_register free tokened c is
  | welcome is _ published => exact moves_welcome c is published
  | capability is set =>
    refine Consistent.moves_not (c.serve (local_setFileCapability set) rfl rfl rfl
      (by rw [is]; rfl) ?_ ?_ ?_) fun _ => rfl <;> split <;>
      simp [Role.claims, Role.listens, Role.site]
  | take is taken =>
    refine Consistent.moves_not (c.serve (local_takeFiles taken) rfl rfl rfl
      (by rw [is]; rfl) ?_ ?_ ?_) fun _ => rfl <;> split <;>
      simp [Role.claims, Role.listens, Role.site]
  | withdraw is known published => exact moves_withdraw c is known published
  | greet is =>
    refine Consistent.moves_not (c.serve Local.refl rfl rfl rfl (by rw [is]; rfl) ?_ ?_ ?_)
      fun _ => rfl <;> simp [Role.claims, Role.listens, Role.site]
  | dispatch is _ known current =>
    have stands := c.bound (by rw [is]; rfl) known current
    refine Consistent.moves_not (c.rest Local.refl rfl rfl rfl ?_ ?_ ?_ ?_) fun _ => rfl <;>
      simp [is, stands, Role.claims, Role.listens, Role.site, Standing.joined]
  | author is known owner authored published =>
    have stands := c.claims _ _ _ (show _ = some (_, .bound _) by rw [is]; rfl)
    exact moves_author (c.still (local_publish published) rfl rfl rfl) stands owner authored
  | share is known shared =>
    exact Consistent.moves_not (c.still (local_shareFiles known shared) rfl rfl rfl) fun _ => rfl
  | finish is =>
    refine Consistent.moves_not (c.serve Local.refl rfl rfl rfl (by rw [is]; rfl) ?_ ?_ ?_)
      fun _ => rfl <;> simp [Role.claims, Role.listens, Role.site]
  | drop homeless =>
    refine Consistent.moves_not (c.rest local_forgetPending rfl rfl rfl ?_ ?_ ?_ ?_) fun _ => rfl
    case refine_2 =>
      intro q x claims
      simp [Role.claims_of_homeless _ homeless] at claims
    all_goals simp [Role.claims, Role.listens, Role.site]
  | stale is =>
    refine Consistent.moves_not (c.rest Local.refl rfl rfl rfl ?_ ?_ ?_ ?_) fun _ => rfl <;>
      simp [is, Role.claims, Role.listens, Role.site]
  | lose is _ known lost => exact moves_lose c is known lost
  | detach is => exact moves_detach free tokened c is
  | expire _ expired => exact moves_expire c expired
  | remove is => exact moves_remove c is
  | forget is taken =>
    exact moves_depart c is (local_takeFiles taken) rfl .forgotten rfl .forget fun _ _ => rfl
  | goodbye is known published =>
    refine moves_depart c is (local_publish published) rfl .left rfl ?_ fun q => deed_published rfl
    simpa [deed, leftMessage] using Advance.leave
  | delete is => exact moves_delete c is local_deleteRoomIfEmpty

end

theorem consistent_start : Consistent digest {} fun _ => .absent where
  sound := ⟨fun _ _ => rfl, nofun, nofun, nofun⟩
  fits _ := ⟨rfl, nofun, fun _ => ⟨nofun, fun is => Bool.noConfusion is.1⟩, fun _ => rfl, nofun,
    fun _ => rfl, nofun⟩
  claims := nofun
  owned := nofun
  listens := nofun
  fresh _ _ := rfl
  sited := nofun

/-- Every run takes every peer along a life of its own. -/
theorem standings (free : CollisionFree digest) (run : (service config digest).Run labels s) :
    Tokened s ∧ ∃ st, Consistent digest s st ∧ ∀ who, lifecycle.Run (labels.map (deed who)) (st who) := by
  induction run with
  | start initial =>
    cases initial
    exact ⟨⟨nofun, nofun, nofun, nofun⟩, _, consistent_start, fun _ => .start rfl⟩
  | next _ step ih =>
    obtain ⟨tokened, st, c, lives⟩ := ih
    obtain ⟨next, consistent, advances⟩ := moves_step free tokened c step
    refine ⟨tokened_step tokened step, next, consistent, fun who => ?_⟩
    rw [List.map_append]
    exact (lives who).next (advances who)

theorem story_eq (who : PeerId) (labels : List Label) :
    story who labels = (labels.map (deed who)).filterMap id := by
  simp [story, List.filterMap_map]

/-- Without a handler or a pass at work, nobody stands where one would move it on. -/
theorem Consistent.settled (c : Consistent digest s st) (quiet : s.quiet) :
    (st who).owner = none ∧ (st who).departure = none := by
  constructor
  · cases owner : (st who).owner with
    | none => rfl
    | some socket =>
      have claims := c.owned who socket owner
      have idle := quiet.1 socket
      cases role : s.role socket <;> rw [role] at claims idle <;> contradiction
  · cases departs : (st who).departure with
    | none => rfl
    | some departure =>
      obtain ⟨_, is, _⟩ := (c.fits who).departing departure departs
      rw [quiet.2 who] at is
      contradiction

theorem Role.registered_of_claims {r : Role} (claims : r.claims socket = some (who, .opened k room)) :
    ∃ hello, r = .hello hello (.registered room who) := by
  unfold Role.claims at claims
  split at claims <;> cases claims
  exact ⟨_, rfl⟩

/-- Only a session whose transport is gone expires. -/
theorem expires_eq {x : Standing} {lease : SessionLease} (has : x.lease = some lease)
    (expires : lease.expires now = true) : ∃ since, x = .offline since := by
  cases x with
  | offline since => exact ⟨since, rfl⟩
  | _ => cases has <;> cases expires

/-- A member whom nothing is about to move on has a session. -/
theorem Standing.lease_of_settled {x : Standing} (member : x.member = true) (unowned : x.owner = none)
    (stays : x.departure = none) : ∃ lease, x.lease = some lease := by
  cases x with
  | bound | offline => exact ⟨_, rfl⟩
  | departing => cases stays
  | absent | built | dropped | ended => cases member
  | added | opened | losing | leased => cases unowned

/-- The peers of the sessions are in their rooms. -/
theorem Consistent.session_member (c : Consistent digest s st) {entry : Bytes × SessionRecord}
    (member : entry ∈ s.lobby.sessions) : entry.2.peer ∈ (s.lobby.room entry.2.room).peerById := by
  obtain ⟨lease, room, _, has, sited, _, is, _⟩ := c.entry member
  rw [is]
  apply ((c.fits entry.2.peer).member room).mpr
  refine ⟨?_, sited⟩
  cases x : st entry.2.peer <;> rw [x] at has <;> cases has <;> rfl

/-- Every session announces itself once and before everything else it publishes,
and takes its leave at most once and after everything else; it resumes only after a
detach of its own and expires only after one that is `gracePeriod` old; no pass takes
out a session that is bound; and while nothing is in progress the members of the
rooms are the peers of the sessions. -/
theorem session_lifecycle (free : CollisionFree digest)
    (run : (service config digest).Run labels s) :
    (∀ who, Lawful (story who labels)) ∧
    (∀ who, .opened ∈ story who labels →
      (∀ socket hello room, s.role socket ≠ .hello hello (.registered room who)) →
      (story who labels).count .joined = 1) ∧
    (∀ now, ∀ record ∈ (s.lobby.expire now).2, s.lobby.socketOf record.peer = some none) ∧
    (s.quiet →
      (∀ entry ∈ s.lobby.sessions, entry.2.peer ∈ (s.lobby.room entry.2.room).peerById) ∧
      ∀ room, ∀ who ∈ (s.lobby.room room).peerById,
        ∃ entry, s.lobby.records who = [entry] ∧ entry.2.room = room) := by
  obtain ⟨tokened, st, c, lives⟩ := standings free run
  have told : ∀ who, Lawful (story who labels) ∧ (st who).Told (story who labels) := by
    intro who
    rw [story_eq]
    exact lifecycle_lawful (lives who)
  refine ⟨fun who => (told who).1, fun who opened past => ?_, fun now record taken => ?_,
    fun quiet => ⟨fun entry member => ?_, fun room who member => ?_⟩⟩
  · have joined : Deed.joined ∈ story who labels := by
      refine (told who).2.joined opened fun socket room stands => ?_
      have claims := c.owned who socket (by rw [stands]; rfl)
      obtain ⟨hello, is⟩ := Role.registered_of_claims (stands ▸ claims)
      exact past socket hello room is
    have once := (told who).1.joinedOnce
    have counted := List.count_pos_iff.mpr joined
    omega
  · obtain ⟨entry, member, rfl⟩ := List.mem_map.mp taken
    obtain ⟨member, expires⟩ := List.mem_filter.mp member
    obtain ⟨lease, _, _, has, _, _, is, _⟩ := c.entry member
    rw [is] at expires
    obtain ⟨since, stands⟩ := expires_eq has expires
    rw [(c.fits _).socket, stands]
    rfl
  · exact c.session_member member
  · obtain ⟨is, sited⟩ := ((c.fits who).member room).mp member
    obtain ⟨unowned, stays⟩ := c.settled quiet
    obtain ⟨lease, has⟩ := Standing.lease_of_settled is unowned stays
    obtain ⟨here, _, known, _, records⟩ := (c.fits who).record lease has
    exact ⟨_, records, Option.some.inj (known.symm.trans sited)⟩

/-- A token, the digest it has, and a file capability. -/
def tokenFirst : Bytes := List.replicate 43 0x41

def digestFirst (token : Bytes) : Bytes :=
  if token = tokenFirst then
    [15, 0, 115, 133, 182, 249, 212, 183, 238, 178, 116, 134, 5, 175, 225, 169,
      132, 160, 163, 191, 163, 240, 20, 208, 158, 42, 120, 76, 233, 229, 205, 26]
  else token

def capabilityFirst : Bytes := List.replicate 22 0x41

def helloFirst : MessageDto :=
  { code := some .sessionHello, protocolVersion := some 2, lastServerSeq := some 0
    fileCapabilityId := some capabilityFirst }

theorem digestFirst_free : CollisionFree digestFirst := by
  have long : ∀ a, validBase64UrlId a 32 = true → a.length = 43 := by
    intro a valid
    simp only [validBase64UrlId, Bool.and_eq_true, decide_eq_true_eq] at valid
    exact valid.1
  intro a b one two same
  have one := long a one
  have two := long b two
  unfold digestFirst at same
  split at same <;> split at same
  · rename_i first second
    rw [first, second]
  · rw [← same] at two
    contradiction
  · rw [same] at one
    contradiction
  · exact same

def peerFirst : Peer := { Peer.create 0 0 [] 1 0 with fileCapabilityId := capabilityFirst }

def recordFirst : SessionRecord := { room := 0, peer := 1, digest := digestFirst tokenFirst }

def roomFirst : Room :=
  { name := [], peerById := [1]
    history := [{ joinedMessage 1 [] with serverSeq := some 1 }], sequencer := { latest := 1 } }

/-- The service when its first hello is over. -/
def serviceFirst : Service :=
  { lobby :=
    { peerIdCounter := 2, rooms := [([], 0)]
      sessions := [(digestFirst tokenFirst, recordFirst)]
      room := Function.update (fun _ => { name := [] }) 0 roomFirst, created := 1
      peer := Function.update (fun _ => none) 1 (some peerFirst) }
    role := Function.update (fun _ => .unborn) 0 (.serving 1)
    issued := [tokenFirst]
    bearer := Function.update (fun _ => none) 1 (some tokenFirst) }

/-- One hello on a new transport, up to its SESSION_READY. -/
theorem first_session : ∃ labels, (service {} digestFirst).Run labels serviceFirst ∧
    .opened ∈ story 1 labels ∧ ∀ room, .deleted room ∉ labels := by
  have start : (service {} digestFirst).Run [] {} := .start rfl
  have created := start.next (@Step.create _ _ _ 0 [] [] rfl)
  have arrived := created.next (@Step.arrive _ _ (some helloFirst) _ _ 0 [] [] rfl rfl)
  have admitted := arrived.next (@Step.accept _ _ _ _ 0 _ rfl rfl)
  have placed := admitted.next (@Step.place _ _ tokenFirst _ _ _ 0 _ rfl rfl rfl nofun rfl)
  have spacious := placed.next (@Step.spacious _ _ _ 0 _ _ _ rfl rfl)
  have built := spacious.next (@Step.build _ _ _ 1 _ 0 _ _ _ rfl rfl)
  have added := built.next (@Step.add _ _ _ _ 0 _ _ _ _ rfl rfl)
  have registered := added.next (@Step.register _ _ _ _ 0 _ _ _ rfl)
  have bound := registered.next (@Step.welcome _ _ _ _ _ _ _ 0 _ rfl rfl rfl)
  have capable := bound.next (@Step.capability _ _ _ _ _ 0 _ _ rfl rfl)
  have serving := capable.next (@Step.greet _ _ _ 0 _ _ rfl)
  obtain ⟨labels, s, run, is, told⟩ : ∃ labels s, (service {} digestFirst).Run labels s ∧
      s = serviceFirst ∧ .opened ∈ story 1 labels ∧ ∀ room, .deleted room ∉ labels := by
    refine ⟨_, _, serving, ?_, by simp [story, deed], by simp⟩
    refine Service.ext (Lobby.ext rfl rfl rfl rfl ?_ rfl ?_ rfl) rfl ?_ rfl rfl ?_
    all_goals
      funext key
      match key with
      | 0 | 1 | _ + 2 => rfl
  exact ⟨labels, is ▸ run, told⟩

theorem quiet_first : serviceFirst.quiet := by
  refine ⟨fun socket => ?_, fun _ => rfl⟩
  match socket with
  | 0 | _ + 1 => rfl

theorem fenced_first : serviceFirst.fenced 1 := by
  intro socket
  match socket with
  | 0 | _ + 1 => nofun

/-- The first session of a lobby joins once, and is a member of its room. -/
theorem session_lifecycle_first : ∃ labels, (service {} digestFirst).Run labels serviceFirst ∧
    (story 1 labels).count .joined = 1 ∧
    ∀ entry ∈ serviceFirst.lobby.sessions,
      entry.2.peer ∈ (serviceFirst.lobby.room entry.2.room).peerById := by
  obtain ⟨labels, run, opened, -⟩ := first_session
  obtain ⟨_, joined, _, members⟩ := session_lifecycle digestFirst_free run
  refine ⟨labels, run, joined 1 opened fun socket hello room is => ?_, (members quiet_first).1⟩
  have idle := quiet_first.1 socket
  rw [is] at idle
  cases idle

end Conspire.Sessions
