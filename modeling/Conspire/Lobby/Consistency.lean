import Conspire.Lobby.Registry

/-! The service and the standings of its peers: what a standing means in the
lobby, which handler is responsible for it, and how one section moves it on. -/
namespace Conspire.Sessions
open Session Boundaries Transition

namespace Role

/-- The peer a handler is working for and the standing it has left that peer in. -/
def claims (socket : Socket) : Role → Option (PeerId × Standing)
  | .hello _ (.built _ room who) => some (who, .built socket room)
  | .hello _ (.added _ room who) => some (who, .added socket room)
  | .hello _ (.registered room who) => some (who, .opened socket room)
  | .hello _ (.leased who) => some (who, .leased socket)
  | .hello _ (.bound who) | .hello _ (.changed who) | .hello _ (.withdrawing who _)
  | .hello _ (.greeting who) | .dispatching who => some (who, .bound socket)
  | .losing who => some (who, .losing socket)
  | _ => none

/-- The peer that listens on the socket. -/
def listens : Role → Option PeerId
  | .serving who | .dispatching who => some who
  | _ => none

/-- The room a hello has obtained for a peer it has yet to construct. -/
def site : Role → Option RoomId
  | .hello _ (.placed _ room) | .hello _ (.spacious _ room) => some room
  | _ => none

/-- The token a hello has made for a session it has yet to register. -/
def token : Role → Option Bytes
  | .hello _ (.placed token _) | .hello _ (.spacious token _) | .hello _ (.built token _ _)
  | .hello _ (.added token _ _) => some token
  | _ => none

end Role

namespace Standing

/-- `m_socket` of the peer. -/
def socket : Standing → Option (Option Socket)
  | .absent => none
  | .built socket _ | .dropped socket | .added socket _ | .opened socket _ | .bound socket =>
    some (some socket)
  | _ => some none

def room : Standing → Option RoomId
  | .built _ room | .added _ room | .opened _ room => some room
  | _ => none

def member : Standing → Bool
  | .added .. | .opened .. | .bound _ | .losing _ | .offline _ | .leased _
  | .departing .expired => true
  | _ => false

def lease : Standing → Option SessionLease
  | .opened .. | .bound _ | .losing _ | .leased _ => some {}
  | .offline since => some ⟨some (since + gracePeriod)⟩
  | _ => none

def departure : Standing → Option Departure
  | .departing departure => some departure
  | _ => none

/-- The socket whose handler has to move the peer on. -/
def owner : Standing → Option Socket
  | .built socket _ | .added socket _ | .opened socket _ | .leased socket | .losing socket =>
    some socket
  | _ => none

/-- The socket whose handler may be working for the peer. -/
def place : Standing → Option Socket
  | .bound socket => some socket
  | x => x.owner

/-- The session has been announced. -/
def joined : Standing → Bool
  | .bound _ | .losing _ | .offline _ | .leased _ | .departing _ | .ended => true
  | _ => false

end Standing

variable {config : ConfigDto} {digest : Bytes → Bytes} {s t : Service} {l : Label}

/-- Tokens differ from hello to hello and from session to session. -/
structure Tokened (s : Service) : Prop where
  flying : ∀ socket token, (s.role socket).token = some token →
    token ∈ s.issued ∧ validBase64UrlId token 32 = true ∧ ∀ who, s.bearer who ≠ some token
  apart : ∀ a b token, (s.role a).token = some token → (s.role b).token = some token → a = b
  borne : ∀ who token, s.bearer who = some token →
    token ∈ s.issued ∧ validBase64UrlId token 32 = true
  owned : ∀ a b token, s.bearer a = some token → s.bearer b = some token → a = b

theorem Tokened.move (tokened : Tokened s) (role : t.role = Function.update s.role socket r)
    (issued : t.issued = s.issued) (bearer : t.bearer = s.bearer)
    (kept : ∀ token, r.token = some token → (s.role socket).token = some token) : Tokened t := by
  have before : ∀ k token, (t.role k).token = some token → (s.role k).token = some token := by
    intro k token is
    by_cases here : k = socket
    · subst here
      exact kept token (by simpa [role] using is)
    · simpa [role, here] using is
  constructor
  · intro k token is
    rw [issued, bearer]
    exact tokened.flying k token (before k token is)
  · intro a b token one two
    exact tokened.apart a b token (before a token one) (before b token two)
  · rw [issued, bearer]
    exact tokened.borne
  · rw [bearer]
    exact tokened.owned

/-- A token that was never made before goes to one hello. -/
theorem Tokened.place (tokened : Tokened s) (new : token ∉ s.issued)
    (valid : validBase64UrlId token 32 = true) (flies : r.token = some token)
    (role : t.role = Function.update s.role socket r) (issued : t.issued = s.issued ++ [token])
    (bearer : t.bearer = s.bearer) : Tokened t := by
  have elsewhere : ∀ k other, k ≠ socket → (t.role k).token = some other →
      (s.role k).token = some other ∧ other ≠ token := by
    intro k other here is
    have is : (s.role k).token = some other := by simpa [role, here] using is
    refine ⟨is, ?_⟩
    rintro rfl
    exact new (tokened.flying k other is).1
  have own : (t.role socket).token = some token := by simp [role, flies]
  constructor
  · intro k other is
    rw [issued, bearer]
    by_cases here : k = socket
    · subst here
      obtain rfl := Option.some.inj (own.symm.trans is)
      exact ⟨by simp, valid, fun who is => new (tokened.borne who _ is).1⟩
    · have known := tokened.flying k other (elsewhere k other here is).1
      exact ⟨List.mem_append_left _ known.1, known.2⟩
  · intro a b other one two
    by_cases first : a = socket <;> by_cases second : b = socket
    · rw [first, second]
    · subst first
      exact absurd (Option.some.inj (one.symm.trans own)) (elsewhere b other second two).2
    · subst second
      exact absurd (Option.some.inj (two.symm.trans own)) (elsewhere a other first one).2
    · exact tokened.apart a b other (elsewhere a other first one).1 (elsewhere b other second two).1
  · intro who other is
    rw [bearer] at is
    rw [issued]
    exact ⟨List.mem_append_left _ (tokened.borne who other is).1, (tokened.borne who other is).2⟩
  · rw [bearer]
    exact tokened.owned

/-- The token of a hello becomes the one of its session. -/
theorem Tokened.bear (tokened : Tokened s) (flew : (s.role socket).token = some token)
    (lands : r.token = none) (role : t.role = Function.update s.role socket r)
    (issued : t.issued = s.issued)
    (bearer : t.bearer = Function.update s.bearer who (some token)) : Tokened t := by
  obtain ⟨made, valid, free⟩ := tokened.flying socket token flew
  have before : ∀ k other, (t.role k).token = some other →
      k ≠ socket ∧ (s.role k).token = some other := by
    intro k other is
    by_cases here : k = socket
    · subst here
      simp [role, lands] at is
    · exact ⟨here, by simpa [role, here] using is⟩
  have borne : ∀ w other, t.bearer w = some other →
      w = who ∧ other = token ∨ w ≠ who ∧ s.bearer w = some other := by
    intro w other is
    by_cases here : w = who
    · subst here
      exact .inl ⟨rfl, by simpa [bearer, eq_comm] using is⟩
    · exact .inr ⟨here, by simpa [bearer, here] using is⟩
  constructor
  · intro k other is
    obtain ⟨here, is⟩ := before k other is
    have known := tokened.flying k other is
    refine ⟨issued ▸ known.1, known.2.1, fun w held => ?_⟩
    rcases borne w other held with ⟨_, rfl⟩ | ⟨_, held⟩
    · exact here (tokened.apart k socket other is flew)
    · exact known.2.2 w held
  · intro a b other one two
    exact tokened.apart a b other (before a other one).2 (before b other two).2
  · intro w other is
    rw [issued]
    rcases borne w other is with ⟨_, rfl⟩ | ⟨_, is⟩
    · exact ⟨made, valid⟩
    · exact tokened.borne w other is
  · intro a b other one two
    rcases borne a other one with ⟨rfl, rfl⟩ | ⟨_, one⟩ <;>
      rcases borne b _ two with ⟨rfl, same⟩ | ⟨_, two⟩
    · rfl
    · exact absurd two (free b)
    · subst same
      exact absurd one (free a)
    · exact tokened.owned a b other one two

theorem tokened_step (tokened : Tokened s) (step : Step config digest s l t) : Tokened t := by
  cases step with
  | tick | author | share | expire | remove | forget | goodbye | delete =>
    exact ⟨tokened.flying, tokened.apart, tokened.borne, tokened.owned⟩
  | place is _ valid new => exact tokened.place new valid rfl rfl rfl rfl
  | register is => exact tokened.bear (by rw [is]; rfl) rfl rfl rfl rfl
  | capability is _ | take is _ =>
    exact tokened.move rfl rfl rfl (by split <;> simp [Role.token])
  | full is | overrun is | spacious is | build is | add is =>
    exact tokened.move rfl rfl rfl (by simp [Role.token, is])
  | _ => exact tokened.move rfl rfl rfl (by simp [Role.token])

/-- What a standing means in the lobby. -/
structure Fits (digest : Bytes → Bytes) (s : Service) (who : PeerId) (x : Standing) : Prop where
  socket : s.lobby.socketOf who = x.socket
  housed : ∀ room, x.room = some room → s.lobby.roomOf who = some room
  member : ∀ room, who ∈ (s.lobby.room room).peerById ↔
    x.member = true ∧ s.lobby.roomOf who = some room
  absent : x.lease = none → s.lobby.records who = []
  record : ∀ lease, x.lease = some lease → ∃ room token, s.lobby.roomOf who = some room ∧
    s.bearer who = some token ∧
    s.lobby.records who = [(digest token, { room, peer := who, digest := digest token, lease })]
  stays : x.departure = none → s.departing who = none
  departing : ∀ departure, x.departure = some departure →
    ∃ record, s.departing who = some (record, departure) ∧ s.lobby.roomOf who = some record.room

theorem Fits.same {x : Standing} (fits : Fits digest s who x) (same : Same s.lobby t.lobby who)
    (bearer : t.bearer who = s.bearer who) (departing : t.departing who = s.departing who) :
    Fits digest t who x := by
  constructor
  · rw [same.socket, fits.socket]
  · simpa [same.room] using fits.housed
  · simpa [same.room, same.member] using fits.member
  · simpa [same.records] using fits.absent
  · simpa [same.room, same.records, bearer] using fits.record
  · simpa [departing] using fits.stays
  · simpa [same.room, departing] using fits.departing

/-- The standings of all peers, as the lobby and the handlers bear them out. -/
structure Consistent (digest : Bytes → Bytes) (s : Service) (st : PeerId → Standing) : Prop where
  sound : s.lobby.Sound
  fits : ∀ who, Fits digest s who (st who)
  claims : ∀ socket who x, (s.role socket).claims socket = some (who, x) → st who = x
  owned : ∀ who socket, (st who).owner = some socket →
    (s.role socket).claims socket = some (who, st who)
  listens : ∀ socket who, (s.role socket).listens = some who → (st who).joined = true
  fresh : ∀ who, s.lobby.peerIdCounter ≤ who → st who = .absent
  sited : ∀ socket room, (s.role socket).site = some room → room < s.lobby.created

section
variable {st : PeerId → Standing} {r : Role} {socket : Socket} {who : PeerId} {y : Standing}

theorem Role.place_of_claims {x : Standing} (claims : r.claims socket = some (who, x)) :
    x.place = some socket := by
  unfold Role.claims at claims
  split at claims <;> cases claims <;> rfl

/-- A section that leaves every peer where it stands. -/
theorem Consistent.rest (c : Consistent digest s st) (change : Local s.lobby t.lobby none)
    (role : t.role = Function.update s.role socket r) (bearer : t.bearer = s.bearer)
    (departing : t.departing = s.departing)
    (claims : ∀ q x, r.claims socket = some (q, x) → st q = x)
    (kept : ∀ q x, (s.role socket).claims socket = some (q, x) → x.owner = some socket →
      r.claims socket = some (q, x))
    (listens : ∀ q, r.listens = some q → (st q).joined = true)
    (sited : ∀ room, r.site = some room → room < t.lobby.created) : Consistent digest t st where
  sound := change.sound c.sound
  fits q := (c.fits q).same (change.same q nofun) (by rw [bearer]) (by rw [departing])
  claims k q x is := by
    by_cases here : k = socket
    · subst here
      exact claims q x (by simpa [role] using is)
    · exact c.claims k q x (by simpa [role, here] using is)
  owned q k owner := by
    have before := c.owned q k owner
    by_cases here : k = socket
    · subst here
      simpa [role] using kept q _ before owner
    · simpa [role, here] using before
  listens k q is := by
    by_cases here : k = socket
    · subst here
      exact listens q (by simpa [role] using is)
    · exact c.listens k q (by simpa [role, here] using is)
  fresh q later := c.fresh q (change.counter.trans later)
  sited k room is := by
    by_cases here : k = socket
    · subst here
      exact sited room (by simpa [role] using is)
    · exact (c.sited k room (by simpa [role, here] using is)).trans_le change.created

/-- A section that moves one peer on. -/
theorem Consistent.move (c : Consistent digest s st) (change : Local s.lobby t.lobby (some who))
    (role : t.role = Function.update s.role socket r)
    (bearer : ∀ q ≠ who, t.bearer q = s.bearer q) (departing : t.departing = s.departing)
    (fits : Fits digest t who y)
    (near : ∀ k, (st who).place = some k → k = socket)
    (held : ∀ q x, (s.role socket).claims socket = some (q, x) → q = who)
    (claims : ∀ q x, r.claims socket = some (q, x) → q = who ∧ x = y)
    (owned : ∀ k, y.owner = some k → k = socket ∧ r.claims socket = some (who, y))
    (listens : r.listens = none) (joined : (st who).joined = true → y.joined = true)
    (site : r.site = none) (counter : who < t.lobby.peerIdCounter) :
    Consistent digest t (Function.update st who y) where
  sound := change.sound c.sound
  fits q := by
    by_cases here : q = who
    · subst here
      simpa using fits
    · simpa [here] using
        (c.fits q).same (change.same q (by simpa using here)) (bearer q here) (by rw [departing])
  claims k q x is := by
    by_cases here : k = socket
    · subst here
      obtain ⟨rfl, rfl⟩ := claims q x (by simpa [role] using is)
      simp
    · have is : (s.role k).claims k = some (q, x) := by simpa [role, here] using is
      have before := c.claims k q x is
      by_cases same : q = who
      · subst same
        exact absurd (near k (before ▸ Role.place_of_claims is)) here
      · simpa [same] using before
  owned q k owner := by
    by_cases same : q = who
    · subst same
      obtain ⟨rfl, is⟩ := owned k (by simpa using owner)
      simpa [role] using is
    · have before := c.owned q k (by simpa [same] using owner)
      by_cases here : k = socket
      · subst here
        exact absurd (held q _ before) same
      · simpa [role, here, same] using before
  listens k q is := by
    have here : k ≠ socket := by
      rintro rfl
      simp [role, listens] at is
    have before := c.listens k q (by simpa [role, here] using is)
    by_cases same : q = who
    · subst same
      simpa using joined before
    · simpa [same] using before
  fresh q later := by
    have same : q ≠ who := by
      rintro rfl
      exact absurd counter (Nat.not_lt.mpr later)
    simpa [same] using c.fresh q (change.counter.trans later)
  sited k room is := by
    have here : k ≠ socket := by
      rintro rfl
      simp [role, site] at is
    exact (c.sited k room (by simpa [role, here] using is)).trans_le change.created

/-- A section of a pass that has taken sessions out. -/
theorem Consistent.depart (c : Consistent digest s st) (change : Local s.lobby t.lobby (some who))
    (role : t.role = s.role) (bearer : t.bearer = s.bearer)
    (departing : ∀ q ≠ who, t.departing q = s.departing q) (fits : Fits digest t who y)
    (unplaced : (st who).place = none) (unowned : y.owner = none) (joined : y.joined = true)
    (known : st who ≠ .absent) : Consistent digest t (Function.update st who y) where
  sound := change.sound c.sound
  fits q := by
    by_cases here : q = who
    · subst here
      simpa using fits
    · simpa [here] using
        (c.fits q).same (change.same q (by simpa using here)) (by rw [bearer]) (departing q here)
  claims k q x is := by
    rw [role] at is
    have before := c.claims k q x is
    have same : q ≠ who := by
      rintro rfl
      rw [before, Role.place_of_claims is] at unplaced
      contradiction
    simpa [same] using before
  owned q k owner := by
    have same : q ≠ who := by
      rintro rfl
      simp [unowned] at owner
    simpa [role, same] using c.owned q k (by simpa [same] using owner)
  listens k q is := by
    by_cases same : q = who
    · subst same
      simpa using joined
    · simpa [same] using c.listens k q (by simpa [role] using is)
  fresh q later := by
    have before := c.fresh q (change.counter.trans later)
    have same : q ≠ who := by
      rintro rfl
      exact known before
    simpa [same] using before
  sited k room is := (c.sited k room (by simpa [role] using is)).trans_le change.created

end

/-- Different tokens have different digests. -/
def CollisionFree (digest : Bytes → Bytes) : Prop :=
  ∀ a b, validBase64UrlId a 32 = true → validBase64UrlId b 32 = true → digest a = digest b → a = b

variable {st : PeerId → Standing}

/-- Every session is the one its peer's standing asks for. -/
theorem Consistent.entry (c : Consistent digest s st) {entry : Bytes × SessionRecord}
    (member : entry ∈ s.lobby.sessions) :
    ∃ lease room token, (st entry.2.peer).lease = some lease ∧
      s.lobby.roomOf entry.2.peer = some room ∧ s.bearer entry.2.peer = some token ∧
      entry = (digest token, { room, peer := entry.2.peer, digest := digest token, lease }) ∧
      s.lobby.records entry.2.peer = [entry] := by
  have listed : entry ∈ s.lobby.records entry.2.peer := by simp [Lobby.records, member]
  cases has : (st entry.2.peer).lease with
  | none =>
    rw [(c.fits _).absent has] at listed
    contradiction
  | some lease =>
    obtain ⟨room, token, sited, bearer, records⟩ := (c.fits _).record lease has
    rw [records] at listed
    have is := List.mem_singleton.mp listed
    exact ⟨lease, room, token, rfl, sited, bearer, is, records.trans (by rw [← is])⟩

theorem Consistent.keyed (free : CollisionFree digest) (tokened : Tokened s)
    (c : Consistent digest s st) (bearer : s.bearer who = some token) :
    s.lobby.Keyed (digest token) who := by
  intro entry member key
  obtain ⟨_, _, other, _, _, borne, is, _⟩ := c.entry member
  have same : digest other = digest token := by rw [← key, is]
  obtain rfl := free _ _ (tokened.borne _ _ borne).2 (tokened.borne _ _ bearer).2 same
  exact tokened.owned _ _ _ borne bearer

/-- A token that no session bears finds none. -/
theorem Consistent.unregistered (free : CollisionFree digest) (tokened : Tokened s)
    (c : Consistent digest s st) (valid : validBase64UrlId token 32 = true)
    (unborne : ∀ who, s.bearer who ≠ some token) :
    s.lobby.sessions.lookup (digest token) = none := by
  refine List.lookup_eq_none_iff.mpr fun entry member => ?_
  obtain ⟨_, _, other, _, _, borne, is, _⟩ := c.entry member
  simp only [bne_iff_ne, ne_eq]
  intro same
  have digests : digest token = digest other := by rw [same, is]
  obtain rfl := free _ _ valid (tokened.borne _ _ borne).2 digests
  exact unborne _ borne

theorem resumeLease_eq {lobby next : Lobby}
    (resumed : lobby.resumeLease key roomName now = some (next, who)) :
    ∃ record lease, (key, record) ∈ lobby.sessions ∧ (lobby.room record.room).name = roomName ∧
      record.lease.resume now = some lease ∧ record.peer = who ∧
      next = lobby.setSession key { record with lease } := by
  simp only [Lobby.resumeLease] at resumed
  split at resumed
  · contradiction
  · rename_i record found
    split at resumed
    · contradiction
    · rename_i admitted
      obtain ⟨lease, resumes, is⟩ := Option.map_eq_some_iff.mp resumed
      simp only [Bool.or_eq_true, decide_eq_true_eq, not_or, not_not] at admitted
      cases is
      exact ⟨record, lease, mem_of_lookup found, admitted.2, resumes, rfl, rfl⟩

/-- Only a session whose transport is gone resumes, and then it is not expiring. -/
theorem resume_eq {x : Standing} {lease next : SessionLease} (has : x.lease = some lease)
    (resumed : lease.resume now = some next) :
    ∃ since, x = .offline since ∧ now < since + gracePeriod ∧ next = {} := by
  obtain ⟨deadline⟩ := lease
  cases deadline with
  | none => simp [SessionLease.resume, SessionLease.canResume] at resumed
  | some deadline =>
    simp only [SessionLease.resume, SessionLease.canResume, decide_eq_true_eq,
      Option.ite_none_right_eq_some, Option.some.injEq] at resumed
    cases x with
    | offline since =>
      cases has
      exact ⟨since, rfl, resumed.1, resumed.2.symm⟩
    | _ => cases has

/-- Where a peer is after its session has another lease. -/
theorem Fits.leased {x y : Standing} {lease : SessionLease} {room : RoomId} (fits : Fits digest s who x)
    (keyed : s.lobby.Keyed (digest token) who) (has : x.lease = some before)
    (bearer : s.bearer who = some token) (sited : s.lobby.roomOf who = some room)
    (lobby : t.lobby = s.lobby.setSession (digest token)
      { room, peer := who, digest := digest token, lease })
    (borne : t.bearer = s.bearer) (departing : t.departing = s.departing)
    (socket : y.socket = x.socket) (roomless : y.room = none) (member : y.member = x.member)
    (next : y.lease = some lease) (stays : x.departure = none) (staying : y.departure = none) :
    Fits digest t who y := by
  obtain ⟨here, held, is, known, records⟩ := fits.record before has
  obtain rfl := Option.some.inj (is.symm.trans sited)
  obtain rfl := Option.some.inj (known.symm.trans bearer)
  have after := @records_setSession s.lobby _
    { room := here, peer := who, digest := digest held, lease } keyed who
  constructor
  · rw [socket, ← fits.socket, lobby]
    rfl
  · simp [roomless]
  · rw [member, lobby]
    exact fits.member
  · simp [next]
  · rintro _ asked
    obtain rfl := Option.some.inj (next.symm.trans asked)
    refine ⟨here, held, ?_, by rw [borne, known], ?_⟩
    · rw [lobby]
      exact is
    · rw [lobby, after, records]
      simp
  · intro _
    rw [departing]
    exact fits.stays stays
  · simp [staying]

end Conspire.Sessions
