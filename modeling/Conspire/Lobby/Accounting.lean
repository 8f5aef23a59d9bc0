import Conspire.Lobby.Admission
import Conspire.Server.Statistics
import Mathlib.Data.List.Perm.Subperm

/-! The counters of the sessions (`EVENT_PEER_CONNECTED`, `EVENT_PEER_RESUMED`,
`EVENT_PEER_DISCONNECTED`, `EVENT_SESSION_EXPIRED`). Each is bumped after the section
it counts has released its lock, so a step of another thread may come in between. -/
namespace Conspire.Sessions
open Session Boundaries Transition

/-- Who has a counter to bump. -/
inductive Debtor where
  | handler (socket : Socket)
  | pass (who : PeerId)
  deriving DecidableEq

/-- The service with what its counters have counted since the process started, and the
increments that are still to come. -/
structure Tally where
  service : Service := {}
  counters : Counter → Nat := fun _ => 0
  owed : List (Debtor × Counter) := []

/-- What a section leaves its thread to count. -/
def Service.incurs (s : Service) (l : Label) (socket : Socket) : List (Debtor × Counter) :=
  match l with
  | .opened _ => [(.handler socket, .evPeerConnected)]
  | .resumed _ => [(.handler socket, .evPeerResumed)]
  | .detached who _ =>
    -- `if (room)`: only a session that was found is counted
    if s.lobby.sessions.any fun entry => entry.2.peer = who then
      [(.handler socket, .evPeerDisconnected)]
    else []
  | .expired peers _ => peers.map fun who => (.pass who, .evSessionExpired)
  | _ => []

namespace Tally
variable (s : Tally)

/-- The thread has come to its increment: a hello behind its SESSION_READY, a lost
transport behind its registry section, a pass between the goodbye and the room. -/
def due : Debtor → Prop
  | .handler socket => (s.service.role socket).idle = true
  | .pass who => ∃ record, s.service.departing who = some (record, .left)

/-- The thread stays where it is. -/
def stays (t : Service) : Debtor → Prop
  | .handler socket => t.role socket = s.service.role socket
  | .pass who => t.departing who = s.service.departing who

def bump (debt : Debtor × Counter) : Tally :=
  { s with
    counters := Function.update s.counters debt.2 (s.counters debt.2 + 1)
    owed := s.owed.erase debt }

/-- No operation is in progress. -/
def quiet : Prop := s.service.quiet ∧ s.owed = []

/-- What has happened, counted or not. -/
def incurred (counter : Counter) : Nat :=
  s.counters counter + s.owed.countP fun debt => debt.2 = counter

end Tally

variable (config : ConfigDto) (digest : Bytes → Bytes)

/-- A thread at its increment goes no further without it. -/
inductive Count : Tally → Label → Tally → Prop where
  | act : Step config digest s.service l t → (∀ k ≠ socket, t.role k = s.service.role k) →
      (∀ debt ∈ s.owed, s.due debt.1 → s.stays t debt.1) →
      Count s l { s with service := t, owed := s.owed ++ s.service.incurs l socket }
  | bump : debt ∈ s.owed → s.due debt.1 → Count s .internal (s.bump debt)

/-- All runs of the service with its counters. -/
def accounting : Machine Tally Label where
  init s := s = {}
  step := Count config digest

end Conspire.Sessions

namespace Conspire.Lobby
variable (lobby : Lobby)

/-- The sessions whose lease is not running out. -/
def attached : Nat := lobby.sessions.countP fun entry => !entry.2.lease.disconnected

/-- The sessions that wait for a resume. -/
def detached : Nat := lobby.sessions.countP fun entry => entry.2.lease.disconnected

/-- The sessions whose peer has a transport. -/
def bound : Nat := lobby.sessions.countP fun entry => (lobby.peer entry.2.peer).any (·.socket.isSome)

end Conspire.Lobby

namespace Conspire.Sessions
open Session Boundaries Transition
variable {config : ConfigDto} {digest : Bytes → Bytes} {s t : Service} {l : Label}
  {st : PeerId → Standing} {lobby next : Lobby}

/-! What each section does to the sessions of the registry. -/

theorem sessions_publish (published : lobby.publish config room message = some next) :
    next.sessions = lobby.sessions := by
  obtain ⟨_, _, rfl⟩ := Option.map_eq_some_iff.mp published
  rfl

theorem sessions_takeFiles (taken : lobby.takeFiles who = (next, files)) :
    next.sessions = lobby.sessions := by
  unfold Lobby.takeFiles at taken
  split at taken <;> cases taken <;> rfl

theorem sessions_setFileCapability (set : lobby.setFileCapability who capability = (next, changed)) :
    next.sessions = lobby.sessions := by
  unfold Lobby.setFileCapability at set
  split at set <;> cases set <;> rfl

theorem sessions_getOrCreateRoom (found : lobby.getOrCreateRoom name = (next, outcome)) :
    next.sessions = lobby.sessions := by
  unfold Lobby.getOrCreateRoom at found
  split at found
  · cases found
    rfl
  · split at found <;> cases found <;> rfl

theorem sessions_replaceSocket :
    (lobby.replaceSocket who socket now).sessions = lobby.sessions := by
  unfold Lobby.replaceSocket
  split <;> rfl

theorem sessions_deleteRoomIfEmpty : (lobby.deleteRoomIfEmpty room).sessions = lobby.sessions := by
  unfold Lobby.deleteRoomIfEmpty
  split <;> rfl

/-- A key that one session has: it is the one `setSession` replaces. -/
theorem setSession_split {record before : SessionRecord} (keyed : lobby.Keyed key who)
    (records : lobby.records who = [(key, before)]) :
    ∃ front back, lobby.sessions = front ++ (key, before) :: back ∧
      (lobby.setSession key record).sessions = front ++ (key, record) :: back := by
  obtain ⟨front, back, is, skipped, rest⟩ := List.filter_eq_cons_iff.mp records
  have other : ∀ entry ∈ front ++ back, entry.1 ≠ key := by
    intro entry member same
    have listed : entry ∈ lobby.sessions := by
      rw [is]
      rcases List.mem_append.mp member with here | here
      · exact List.mem_append_left _ here
      · exact List.mem_append_right _ (List.mem_cons_of_mem _ here)
    have peer := decide_eq_true (keyed entry listed same)
    rcases List.mem_append.mp member with here | here
    · exact absurd peer (skipped entry here)
    · exact absurd peer (List.filter_eq_nil_iff.mp rest.2 entry here)
  refine ⟨front, back, is, ?_⟩
  have kept : ∀ part : List (Bytes × SessionRecord), (∀ entry ∈ part, entry.1 ≠ key) →
      part.map (fun entry => if entry.1 = key then (key, record) else entry) = part := by
    intro part free
    refine (List.map_congr_left fun entry member => ?_).trans (List.map_id _)
    exact if_neg (free entry member)
  simp only [Lobby.setSession, is, List.map_append, List.map_cons, if_true]
  rw [kept front fun entry member => other entry (List.mem_append_left _ member),
    kept back fun entry member => other entry (List.mem_append_right _ member)]

/-- How many sessions there are after some have come, resumed, lost their transport or
expired. -/
structure Turnover (before after : Lobby) (opened resumed lost expired : Nat) : Prop where
  attached : after.attached + lost = before.attached + opened + resumed
  detached : after.detached + resumed + expired = before.detached + lost

theorem turnover_of_eq (same : next.sessions = lobby.sessions) : Turnover lobby next 0 0 0 0 := by
  constructor <;> simp [Lobby.attached, Lobby.detached, same]

theorem turnover_insert (new : lobby.sessions.lookup record.digest = none)
    (lease : record.lease = {}) : Turnover lobby (lobby.insertSession record) 1 0 0 0 := by
  have inserted : (lobby.insertSession record).sessions =
      lobby.sessions ++ [(record.digest, record)] := by
    simp [Lobby.insertSession, new]
  constructor <;> simp [Lobby.attached, Lobby.detached, inserted, lease, SessionLease.disconnected]

theorem turnover_resume {record before : SessionRecord} (keyed : lobby.Keyed key who)
    (records : lobby.records who = [(key, before)]) (was : before.lease.disconnected = true)
    (is : record.lease.disconnected = false) : Turnover lobby (lobby.setSession key record) 0 1 0 0 := by
  obtain ⟨front, back, old, new⟩ := @setSession_split _ _ _ record _ keyed records
  constructor <;> simp [Lobby.attached, Lobby.detached, old, new, was, is] <;> omega

theorem turnover_detach {record before : SessionRecord} (keyed : lobby.Keyed key who)
    (records : lobby.records who = [(key, before)]) (was : before.lease.disconnected = false)
    (is : record.lease.disconnected = true) : Turnover lobby (lobby.setSession key record) 0 0 1 0 := by
  obtain ⟨front, back, old, new⟩ := @setSession_split _ _ _ record _ keyed records
  constructor <;> simp [Lobby.attached, Lobby.detached, old, new, was, is] <;> omega

/-- Only sessions that wait for a resume expire. -/
theorem disconnected_of_expires {lease : SessionLease} (expires : lease.expires now = true) :
    lease.disconnected = true := by
  obtain ⟨deadline⟩ := lease
  cases deadline with
  | none => cases expires
  | some deadline => rfl

theorem turnover_expire (expired : lobby.expire now = (next, records)) :
    Turnover lobby next 0 0 0 records.length := by
  cases expired
  constructor
  · simp only [Lobby.attached, List.countP_filter, Nat.add_zero]
    apply List.countP_congr
    intro entry _
    cases expires : entry.2.lease.expires now with
    | false => simp
    | true => simp [disconnected_of_expires expires]
  · have parted := List.countP_eq_countP_filter_add lobby.sessions
      (fun entry => entry.2.lease.disconnected) fun entry => !entry.2.lease.expires now
    have all : (lobby.sessions.filter fun entry => !!entry.2.lease.expires now).countP
        (fun entry => entry.2.lease.disconnected) =
          (lobby.sessions.filter fun entry => entry.2.lease.expires now).length := by
      simp only [Bool.not_not]
      apply List.countP_eq_length.mpr
      intro entry member
      exact disconnected_of_expires (List.mem_filter.mp member).2
    simp only [Lobby.detached, List.length_map, Nat.add_zero]
    rw [parted]
    simpa using all.symm

/-- A step's sections make as much as they leave to be counted. -/
def Counted (before after : Lobby) (debts : List (Debtor × Counter)) : Prop :=
  Turnover before after (debts.countP fun debt => debt.2 = .evPeerConnected)
    (debts.countP fun debt => debt.2 = .evPeerResumed)
    (debts.countP fun debt => debt.2 = .evPeerDisconnected)
    (debts.countP fun debt => debt.2 = .evSessionExpired)

theorem counted_none (same : next.sessions = lobby.sessions) : Counted lobby next [] :=
  turnover_of_eq same

section
variable {socket : Socket} {who : PeerId} {room : RoomId}

theorem counted_register (free : CollisionFree digest) (tokened : Tokened s)
    (c : Consistent digest s st) (is : s.role socket = .hello hello (.added token room who)) :
    Turnover s.lobby (s.lobby.insertSession { room, peer := who, digest := digest token }) 1 0 0 0 := by
  obtain ⟨-, valid, unborne⟩ := tokened.flying socket token (by rw [is]; rfl)
  exact turnover_insert (c.unregistered free tokened valid unborne) rfl

theorem counted_lease (free : CollisionFree digest) (tokened : Tokened s) (c : Consistent digest s st)
    (resumed : s.lobby.resumeLease key roomName now = some (next, who)) :
    Turnover s.lobby next 0 1 0 0 := by
  obtain ⟨record, lease, member, _, resumes, same, rfl⟩ := resumeLease_eq resumed
  obtain ⟨_, _, _, _, _, bearer, entry, records⟩ := c.entry member
  have keyed := c.keyed free tokened bearer
  rw [← (Prod.mk.inj entry).1] at keyed
  simp only [SessionLease.resume, Option.ite_none_right_eq_some, Option.some.injEq] at resumes
  rw [SessionLease.canResume_eq, Bool.and_eq_true] at resumes
  obtain ⟨⟨was, -⟩, rfl⟩ := resumes
  exact turnover_resume keyed records was rfl

/-- The session of a lost transport is found, and it was attached. -/
theorem counted_detach (free : CollisionFree digest) (tokened : Tokened s)
    (c : Consistent digest s st) (is : s.role socket = .losing who) :
    s.lobby.sessions.any (fun entry => entry.2.peer = who) = true ∧
      Turnover s.lobby (s.lobby.detachLease who now) 0 0 1 0 := by
  obtain ⟨stands, fits, -⟩ :=
    c.claimed (show (s.role socket).claims socket = some (who, .losing socket) by rw [is]; rfl)
  obtain ⟨room, token, _, bearer, records⟩ := fits.record {} rfl
  have keyed := c.keyed free tokened bearer
  have first : s.lobby.sessions.find? (fun entry => decide (entry.2.peer = who)) =
      some (digest token, { room, peer := who, digest := digest token }) := by
    rw [← List.head?_filter]
    exact congrArg List.head? records
  constructor
  · apply List.any_eq_true.mpr
    exact ⟨_, List.mem_of_find?_eq_some first, decide_eq_true rfl⟩
  · simp only [Lobby.detachLease, first]
    exact turnover_detach keyed records rfl rfl

theorem countP_passes (records : List SessionRecord) (counter : Counter) :
    (records.map fun record => (Debtor.pass record.peer, Counter.evSessionExpired)).countP
      (fun debt => debt.2 = counter) = if counter = .evSessionExpired then records.length else 0 := by
  simp only [List.countP_map]
  split
  · rename_i same
    subst same
    exact List.countP_eq_length.mpr fun _ _ => by simp
  · rename_i other
    exact List.countP_eq_zero.mpr fun _ _ same => other (of_decide_eq_true same).symm

/-- A step makes as many sessions come, resume, lose their transport and expire as it
leaves to be counted. -/
theorem counted_step (free : CollisionFree digest) (tokened : Tokened s) (c : Consistent digest s st)
    (step : Step config digest s l t) (socket : Socket) :
    Counted s.lobby t.lobby (s.incurs l socket) := by
  cases step with
  | register is => exact counted_register free tokened c is
  | lease _ _ _ resumed => exact counted_lease free tokened c resumed
  | detach is =>
    obtain ⟨found, turnover⟩ := @counted_detach _ _ _ _ _ s.clock free tokened c is
    simp only [Service.incurs, found, if_true]
    exact turnover
  | expire _ expired =>
    simp only [Counted, Service.incurs, List.map_map, Function.comp_def, countP_passes, reduceCtorEq,
      if_false, if_true]
    exact turnover_expire expired
  | accept is taken =>
    obtain rfl := takePending_eq taken
    exact counted_none rfl
  | place _ _ _ _ found | crowded _ _ found => exact counted_none (sessions_getOrCreateRoom found)
  | build _ built =>
    cases built
    exact counted_none rfl
  | add _ added =>
    obtain ⟨_, _, rfl⟩ := Option.map_eq_some_iff.mp added
    exact counted_none rfl
  | welcome _ _ published | withdraw _ _ published | author _ _ _ _ published | goodbye _ _ published =>
    exact counted_none (sessions_publish published)
  | capability _ set => exact counted_none (sessions_setFileCapability set)
  | take _ taken | forget _ taken => exact counted_none (sessions_takeFiles taken)
  | replace => exact counted_none sessions_replaceSocket
  | delete => exact counted_none sessions_deleteRoomIfEmpty
  | _ => exact counted_none rfl

end

/-- The peer whose session a handler has registered or leased, up to its increment. -/
def Role.greets : Role → Option PeerId
  | .hello _ (.registered _ who) | .hello _ (.leased who) | .hello _ (.bound who)
  | .hello _ (.changed who) | .hello _ (.withdrawing who _) | .hello _ (.greeting who)
  | .serving who => some who
  | _ => none

theorem Role.greets_of_homeless (r : Role) (homeless : r.homeless = true) : r.greets = none := by
  cases r with
  | waiting | refused => rfl
  | _ => cases homeless

/-- A handler that moves on, moves on with the peer it greets. -/
theorem greets_move {r : Role} (moved : t.role = Function.update s.role socket r)
    (greets : (s.role k).greets = some who)
    (kept : k = socket → (s.role socket).greets = some who → r.greets = some who) :
    (t.role k).greets = some who := by
  rw [moved, Function.update_apply]
  split
  · rename_i same
    exact kept same (same ▸ greets)
  · exact greets

/-- A handler that greets a peer goes on to, until it has counted. -/
theorem greets_step (step : Step config digest s l t) (greets : (s.role k).greets = some who)
    (held : (s.role k).idle = true → t.role k = s.role k) : (t.role k).greets = some who := by
  by_cases idle : (s.role k).idle = true
  · rw [held idle, greets]
  · cases step with
    | tick | author | share | expire | remove | forget | goodbye | delete => exact greets
    | capability is | take is =>
      apply greets_move rfl greets
      intro _ before
      rw [is] at before
      split <;> exact before
    | drop homeless =>
      apply greets_move rfl greets
      rintro rfl before
      rw [Role.greets_of_homeless _ homeless] at before
      cases before
    | stale is | lose is | dispatch is =>
      apply greets_move rfl greets
      rintro rfl _
      rw [is] at idle
      exact absurd rfl idle
    | create is | malformed is | arrive is | late is | accept is | forged is | unknown is
    | lease is | tokenless is | place is | crowded is | full is | spacious is | build is
    | overrun is | add is | register is | finish is | detach is =>
      apply greets_move rfl greets
      intro _ before
      rw [is] at before
      cases before
    | replace is | welcome is | withdraw is | greet is =>
      apply greets_move rfl greets
      intro _ before
      rw [is] at before
      exact before

/-- The standings of a peer between its session and the increment of its hello. -/
inductive Standing.Greeted (socket : Socket) : Standing → Prop where
  | opened (room : RoomId) : Greeted socket (.opened socket room)
  | leased : Greeted socket (.leased socket)
  | bound : Greeted socket (.bound socket)

theorem Role.greeted_of_claims {r : Role} {x : Standing} (greets : r.greets = some who)
    (claims : r.claims k = some (q, x)) : x.Greeted k := by
  unfold Role.claims at claims
  split at claims <;> cases claims
  all_goals first | exact .opened _ | exact .leased | exact .bound | exact absurd greets nofun

theorem Consistent.greeted (c : Consistent digest s st) (greets : (s.role k).greets = some who)
    (place : (st who).place = some k) : (st who).Greeted k := by
  have owned := c.owned who k
  cases stands : st who <;> rw [stands] at place owned <;> cases place
  case bound => exact .bound
  all_goals exact Role.greeted_of_claims greets (owned rfl)

theorem Standing.Greeted.place {x : Standing} (greeted : x.Greeted k) : x.place = some k := by
  cases greeted <;> rfl

theorem Standing.Greeted.lease {x : Standing} (greeted : x.Greeted k) : x.lease = some {} := by
  cases greeted <;> rfl

theorem Standing.Greeted.advance {x y : Standing} {done : Option Deed} (greeted : x.Greeted k)
    (moves : Advance x done y) : y.place = some k := by
  cases greeted <;> cases moves <;> rfl

/-- A debt of a hello. -/
def joining (debt : Debtor × Counter) : Bool :=
  debt.2 = .evPeerConnected || debt.2 = .evPeerResumed

/-- Every hello that has yet to be counted is of a handler of its own, and that
handler's peer has not lost the transport. -/
structure Greeting (s : Tally) (st : PeerId → Standing) : Prop where
  greets : ∀ debt ∈ s.owed, joining debt = true → ∃ socket who, debt.1 = .handler socket ∧
    (s.service.role socket).greets = some who ∧ (st who).place = some socket
  once : ((s.owed.filter joining).map Prod.fst).Nodup

theorem mover_eq {r : Role} (moved : t.role = Function.update s.role k r) (other : r ≠ s.role k)
    (still : ∀ j ≠ socket, t.role j = s.role j) : k = socket := by
  by_contra different
  apply other
  simpa [moved] using still k different

/-- The hello that a section leaves to be counted. -/
theorem incurs_joining (step : Step config digest s l t) (still : ∀ k ≠ socket, t.role k = s.role k)
    {debt : Debtor × Counter} (member : debt ∈ s.incurs l socket) (joins : joining debt = true) :
    debt.1 = .handler socket ∧ (s.role socket).greets = none ∧
      ∃ who x, (t.role socket).greets = some who ∧ (t.role socket).claims socket = some (who, x) := by
  cases step with
  | register is | lease is =>
    obtain rfl := mover_eq rfl (by simp [is]) still
    rw [List.mem_singleton.mp member]
    exact ⟨rfl, by rw [is]; rfl, _, _, by simp [Service.move]; rfl, by simp [Service.move]; rfl⟩
  | detach =>
    simp only [Service.incurs] at member
    split at member
    · rw [List.mem_singleton.mp member] at joins
      cases joins
    · cases member
  | expire =>
    obtain ⟨_, _, rfl⟩ := List.mem_map.mp member
    cases joins
  | _ => cases member

theorem incurs_once (s : Service) (l : Label) (socket : Socket) :
    (((s.incurs l socket).filter joining).map Prod.fst).Nodup := by
  cases l with
  | opened | resumed => exact List.nodup_singleton _
  | detached =>
    simp only [Service.incurs]
    split <;> exact List.nodup_nil
  | expired peers =>
    have unjoined : (Service.incurs s (.expired peers ‹_›) socket).filter joining = [] := by
      apply List.filter_eq_nil_iff.mpr
      intro debt member
      obtain ⟨_, _, rfl⟩ := List.mem_map.mp member
      exact nofun
    rw [unjoined]
    exact List.nodup_nil
  | _ => exact List.nodup_nil

variable {a b : Tally}

theorem Greeting.act {after : PeerId → Standing} (greeting : Greeting a st)
    (c : Consistent digest a.service st) (step : Step config digest a.service l t)
    (still : ∀ k ≠ socket, t.role k = a.service.role k)
    (stays : ∀ debt ∈ a.owed, a.due debt.1 → a.stays t debt.1) (later : Consistent digest t after)
    (moves : ∀ q, Advance (st q) (deed q l) (after q)) :
    Greeting { a with service := t, owed := a.owed ++ a.service.incurs l socket } after where
  greets debt member joins := by
    rcases List.mem_append.mp member with old | new
    · obtain ⟨k, who, debtor, greets, place⟩ := greeting.greets debt old joins
      have held : (a.service.role k).idle = true → t.role k = a.service.role k := by
        intro idle
        have stays := stays debt old
        rw [debtor] at stays
        exact stays idle
      exact ⟨k, who, debtor, greets_step step greets held, (c.greeted greets place).advance (moves who)⟩
    · obtain ⟨debtor, -, who, x, greets, claims⟩ := incurs_joining step still new joins
      refine ⟨socket, who, debtor, greets, ?_⟩
      rw [later.claims socket who x claims]
      exact Role.place_of_claims claims
  once := by
    rw [List.filter_append, List.map_append]
    refine greeting.once.append (incurs_once a.service l socket) ?_
    intro debtor one two
    obtain ⟨old, member, rfl⟩ := List.mem_map.mp one
    obtain ⟨new, incurred, same⟩ := List.mem_map.mp two
    obtain ⟨member, joins⟩ := List.mem_filter.mp member
    obtain ⟨incurred, joining⟩ := List.mem_filter.mp incurred
    obtain ⟨k, who, debtor, greets, -⟩ := greeting.greets old member joins
    obtain ⟨mover, unjoined, -⟩ := incurs_joining step still incurred joining
    obtain rfl : socket = k := by
      rw [mover, debtor] at same
      exact Debtor.handler.inj same
    rw [unjoined] at greets
    cases greets

theorem Greeting.bump (greeting : Greeting a st) (debt : Debtor × Counter) :
    Greeting (a.bump debt) st where
  greets other member := greeting.greets other (List.mem_of_mem_erase member)
  once := by
    have fewer := (List.erase_sublist (a := debt) (l := a.owed)).filter joining
    exact List.Nodup.sublist (fewer.map Prod.fst) greeting.once

/-- The hellos that have yet to be counted are among the sessions that are attached. -/
theorem Greeting.attached (greeting : Greeting a st) (c : Consistent digest a.service st) :
    a.owed.countP joining ≤ a.service.lobby.attached := by
  let place := fun entry : Bytes × SessionRecord => (st entry.2.peer).place.map Debtor.handler
  have nodup : (((a.owed.filter joining).map Prod.fst).map some).Nodup :=
    greeting.once.map (Option.some_injective _)
  have within : ((a.owed.filter joining).map Prod.fst).map some ⊆
      (a.service.lobby.sessions.filter fun entry => !entry.2.lease.disconnected).map place := by
    intro _ held
    obtain ⟨_, debtor, rfl⟩ := List.mem_map.mp held
    obtain ⟨debt, owes, rfl⟩ := List.mem_map.mp debtor
    obtain ⟨member, joins⟩ := List.mem_filter.mp owes
    obtain ⟨socket, who, debtor, greets, stands⟩ := greeting.greets debt member joins
    obtain ⟨room, token, -, -, records⟩ := (c.fits who).record {} (c.greeted greets stands).lease
    have listed : (digest token, { room, peer := who, digest := digest token }) ∈
        a.service.lobby.records who := by
      rw [records]
      exact List.mem_singleton_self _
    refine List.mem_map.mpr ⟨_, List.mem_filter.mpr ⟨(List.mem_filter.mp listed).1, rfl⟩, ?_⟩
    simp only [place, stands, debtor, Option.map_some]
  have few := (nodup.subperm within).length_le
  simpa only [List.length_map, ← List.countP_eq_length_filter, Lobby.attached] using few

/-- The sessions of the registry are those that came or resumed and did not lose their
transport since, and those that lost it and neither resumed nor expired. -/
structure Balanced (s : Tally) : Prop where
  attached : s.service.lobby.attached + s.incurred .evPeerDisconnected =
    s.incurred .evPeerConnected + s.incurred .evPeerResumed
  detached : s.service.lobby.detached + s.incurred .evPeerResumed + s.incurred .evSessionExpired =
    s.incurred .evPeerDisconnected

theorem Balanced.act (balanced : Balanced a)
    (counted : Counted a.service.lobby t.lobby (a.service.incurs l socket)) :
    Balanced { a with service := t, owed := a.owed ++ a.service.incurs l socket } := by
  obtain ⟨attached, detached⟩ := balanced
  obtain ⟨come, gone⟩ := counted
  simp only [Tally.incurred] at attached detached
  constructor <;> simp only [Tally.incurred, List.countP_append] <;> omega

/-- An increment counts what has happened before. -/
theorem incurred_bump {debt : Debtor × Counter} (member : debt ∈ a.owed) (counter : Counter) :
    (a.bump debt).incurred counter = a.incurred counter := by
  have whole := (List.perm_cons_erase member).countP_eq fun debt => debt.2 = counter
  simp only [List.countP_cons] at whole
  simp only [Tally.incurred, Tally.bump, Function.update_apply]
  split
  · rename_i same
    simp only [same, decide_true, if_true] at whole
    subst same
    omega
  · rename_i other
    simp only [Ne.symm other, decide_false, Bool.false_eq_true, if_false] at whole
    omega

theorem Balanced.bump {debt : Debtor × Counter} (balanced : Balanced a) (member : debt ∈ a.owed) :
    Balanced (a.bump debt) where
  attached := by
    simp only [incurred_bump member]
    exact balanced.attached
  detached := by
    simp only [incurred_bump member]
    exact balanced.detached

/-- What holds of the service and its counters in every run. -/
theorem accounts (free : CollisionFree digest) (reached : (accounting config digest).Reachable a) :
    Tokened a.service ∧ Balanced a ∧ ∃ st, Consistent digest a.service st ∧ Greeting a st := by
  induction reached with
  | start initial =>
    cases initial
    exact ⟨⟨nofun, nofun, nofun, nofun⟩, ⟨rfl, rfl⟩, _, consistent_start, nofun, List.nodup_nil⟩
  | next _ step ih =>
    obtain ⟨tokened, balanced, st, c, greeting⟩ := ih
    cases step with
    | act step still stays =>
      obtain ⟨after, later, moves⟩ := moves_step free tokened c step
      exact ⟨tokened_step tokened step, balanced.act (counted_step free tokened c step _), after, later,
        greeting.act c step still stays later moves⟩
    | bump member => exact ⟨tokened, balanced.bump member, st, c, greeting.bump _⟩

/-- While nothing is in progress the attached sessions are those with a transport. -/
theorem Consistent.bound_eq (c : Consistent digest s st) (quiet : s.quiet) :
    s.lobby.bound = s.lobby.attached := by
  apply List.countP_congr
  intro entry member
  obtain ⟨lease, _, _, has, _, _, is, _⟩ := c.entry member
  have ⟨unowned, stays⟩ : (st entry.2.peer).owner = none ∧ (st entry.2.peer).departure = none := c.settled quiet
  have socket := (c.fits entry.2.peer).socket
  have leased : entry.2.lease = lease := by rw [is]
  rw [leased]
  cases stands : st entry.2.peer <;> rw [stands] at has socket unowned <;> cases has <;> cases unowned
  all_goals
    obtain ⟨peer, known, is⟩ := Option.map_eq_some_iff.mp socket
    simp [known, is, SessionLease.disconnected]

theorem countP_joining (owed : List (Debtor × Counter)) :
    owed.countP joining = owed.countP (fun debt => debt.2 = .evPeerConnected) +
      owed.countP fun debt => debt.2 = .evPeerResumed := by
  induction owed with
  | nil => rfl
  | cons debt rest ih =>
    obtain ⟨debtor, counter⟩ := debt
    simp only [List.countP_cons, ih]
    cases counter <;> simp [joining] <;> omega

/-- Counting from the start of the process: transports were never lost more often than
peers connected or resumed. Whenever no operation is in progress, the sessions with a
transport are those that connected or resumed less those that lost it, the detached ones
those that lost it less those that resumed or expired, and both differences are counts. -/
theorem session_accounting (free : CollisionFree digest)
    (reached : (accounting config digest).Reachable a) :
    (0 : Int) ≤ a.counters .evPeerConnected + a.counters .evPeerResumed -
        a.counters .evPeerDisconnected ∧
      (a.quiet →
        (a.service.lobby.bound : Int) = a.counters .evPeerConnected + a.counters .evPeerResumed -
            a.counters .evPeerDisconnected ∧
        (a.service.lobby.detached : Int) = a.counters .evPeerDisconnected -
            a.counters .evPeerResumed - a.counters .evSessionExpired ∧
        (0 : Int) ≤ a.counters .evPeerDisconnected - a.counters .evPeerResumed -
            a.counters .evSessionExpired) := by
  obtain ⟨-, ⟨attached, detached⟩, st, c, greeting⟩ := accounts free reached
  have few := greeting.attached c
  rw [countP_joining] at few
  simp only [Tally.incurred] at attached detached
  refine ⟨by omega, fun quiet => ?_⟩
  obtain ⟨still, settled⟩ := quiet
  have bound := c.bound_eq still
  simp only [settled, List.countP_nil] at attached detached
  refine ⟨?_, ?_, ?_⟩ <;> omega

/-- A handler goes on that has nothing to count. -/
theorem acts {r : Role} (reached : (accounting config digest).Reachable a)
    (step : Step config digest a.service l t) (moved : t.role = Function.update a.service.role socket r)
    (others : ∀ debt ∈ a.owed, a.due debt.1 → ∃ k ≠ socket, debt.1 = .handler k) :
    (accounting config digest).Reachable
      { a with service := t, owed := a.owed ++ a.service.incurs l socket } := by
  have still : ∀ k ≠ socket, t.role k = a.service.role k := by
    intro k other
    rw [moved, Function.update_of_ne other]
  refine reached.next (Count.act step still fun debt member due => ?_)
  obtain ⟨k, other, debtor⟩ := others debt member due
  rw [debtor]
  exact still k other

/-- A handler with one debt goes on until it is due. -/
theorem acts_busy {r : Role} (reached : (accounting config digest).Reachable a)
    (step : Step config digest a.service l t) (moved : t.role = Function.update a.service.role socket r)
    (owes : a.owed = [(.handler socket, counter)]) (busy : (a.service.role socket).idle = false) :
    (accounting config digest).Reachable
      { a with service := t, owed := a.owed ++ a.service.incurs l socket } := by
  apply acts reached step moved
  intro debt member due
  rw [owes] at member
  rw [List.mem_singleton.mp member] at due
  have idle : (a.service.role socket).idle = true := due
  rw [busy] at idle
  contradiction

/-- The first session has come and is counted. -/
def tallyFirst : Tally :=
  { service := serviceFirst
    counters := Function.update (fun _ => 0) .evPeerConnected 1 }

theorem tallyFirst_reachable : (accounting {} digestFirst).Reachable tallyFirst := by
  have start : (accounting {} digestFirst).Reachable {} := .start rfl
  have created := acts start (@Step.create _ _ _ 0 [] [] rfl) rfl nofun
  have arrived := acts created (@Step.arrive _ _ (some helloFirst) _ _ 0 [] [] rfl rfl) rfl nofun
  have admitted := acts arrived (@Step.accept _ _ _ _ 0 _ rfl rfl) rfl nofun
  have placed := acts admitted (@Step.place _ _ tokenFirst _ _ _ 0 _ rfl rfl rfl nofun rfl) rfl nofun
  have spacious := acts placed (@Step.spacious _ _ _ 0 _ _ _ rfl rfl) rfl nofun
  have built := acts spacious (@Step.build _ _ _ 1 _ 0 _ _ _ rfl rfl) rfl nofun
  have added := acts built (@Step.add _ _ _ _ 0 _ _ _ _ rfl rfl) rfl nofun
  have registered := acts added (@Step.register _ _ _ _ 0 _ _ _ rfl) rfl nofun
  have bound := acts_busy registered (@Step.welcome _ _ _ _ _ _ _ 0 _ rfl rfl rfl) rfl rfl rfl
  have capable := acts_busy bound (@Step.capability _ _ _ _ _ 0 _ _ rfl rfl) rfl rfl rfl
  have serving := acts_busy capable (@Step.greet _ _ _ 0 _ _ rfl) rfl rfl rfl
  have counted := serving.next (@Count.bump _ _ (.handler 0, .evPeerConnected) _
    (List.mem_singleton_self _) rfl)
  obtain ⟨a, reached, service, counters, owed⟩ : ∃ a, (accounting {} digestFirst).Reachable a ∧
      a.service = serviceFirst ∧ a.counters = tallyFirst.counters ∧ a.owed = [] := by
    refine ⟨_, counted, ?_, rfl, rfl⟩
    refine Service.ext (Lobby.ext rfl rfl rfl rfl ?_ rfl ?_ rfl) rfl ?_ rfl rfl ?_
    all_goals
      funext key
      match key with
      | 0 | 1 | _ + 2 => rfl
  obtain ⟨_, _, _⟩ := a
  cases service
  cases counters
  cases owed
  exact reached

/-- The first session is bound, and was counted once. -/
theorem session_accounting_first : (tallyFirst.service.lobby.bound : Int) = 1 + 0 - 0 ∧
    (tallyFirst.service.lobby.detached : Int) = 0 - 0 - 0 := by
  obtain ⟨-, settled⟩ := session_accounting digestFirst_free tallyFirst_reachable
  obtain ⟨bound, detached, -⟩ := settled ⟨quiet_first, rfl⟩
  exact ⟨bound, detached⟩

theorem resumeLease_spec {record : SessionRecord} (found : lobby.sessions.lookup key = some record)
    (keyed : record.digest = key) (named : (lobby.room record.room).name = roomName)
    (can : record.lease.canResume now = true) :
    lobby.resumeLease key roomName now =
      some (lobby.setSession key { record with lease := { record.lease with deadline := none } },
        record.peer) := by
  simp [Lobby.resumeLease, found, keyed, named, SessionLease.resume, can]

theorem takePending_spec (unknown : lobby.pending = []) :
    (lobby.await socket now).takePending socket now =
      some ((lobby.await socket now).forgetPending socket) := by
  have early : ¬ now + pendingHelloPeriod ≤ now :=
    Nat.not_le.mpr (Nat.lt_add_of_pos_right (by decide))
  simp [Lobby.takePending, Lobby.await, unknown, early]

/-- The thread that lost the first transport has yet to count when a resume already has. -/
theorem session_accounting_late : ∃ a, (accounting {} digestFirst).Reachable a ∧
    (a.counters .evPeerDisconnected : Int) - a.counters .evPeerResumed -
      a.counters .evSessionExpired < 0 := by
  have lost := acts tallyFirst_reachable
    (@Step.lose _ _ _ _ _ 0 1 rfl fenced_first rfl rfl) rfl nofun
  have detached := acts lost (@Step.detach _ _ _ _ 0 rfl) rfl nofun
  have other : ∀ {s : Tally}, s.owed = [(.handler 0, .evPeerDisconnected)] →
      ∀ debt ∈ s.owed, s.due debt.1 → ∃ k ≠ 1, debt.1 = .handler k := by
    intro s owes debt member _
    rw [owes] at member
    rw [List.mem_singleton.mp member]
    exact ⟨0, nofun, rfl⟩
  have created := acts detached (@Step.create _ _ _ 1 [] [] rfl) rfl (other rfl)
  have arrived := acts created (@Step.arrive _ _ (some resumeFirst) _ _ 1 [] [] rfl rfl) rfl (other rfl)
  have admitted := acts arrived (@Step.accept _ _ _ _ 1 _ rfl (takePending_spec rfl)) rfl (other rfl)
  have lease : SessionLease.canResume ⟨some (0 + gracePeriod)⟩ 0 = true := by decide
  have leased := acts admitted (@Step.lease _ _ tokenFirst _ 1 _ 1 _ rfl rfl rfl
    (@resumeLease_spec _ _ _ _ { recordFirst with lease := ⟨some (0 + gracePeriod)⟩ }
      List.lookup_cons_self rfl rfl lease)) rfl (other rfl)
  have busy : ∀ {s : Tally}, s.owed = [(.handler 0, .evPeerDisconnected), (.handler 1, .evPeerResumed)] →
      (s.service.role 1).idle = false →
      ∀ debt ∈ s.owed, s.due debt.1 → ∃ k ≠ 1, debt.1 = .handler k := by
    intro s owes busy debt member due
    rw [owes] at member
    rcases List.mem_cons.mp member with rfl | last
    · exact ⟨0, nofun, rfl⟩
    · rw [List.mem_singleton.mp last] at due
      have idle : (s.service.role 1).idle = true := due
      rw [busy] at idle
      contradiction
  have replaced := acts leased (@Step.replace _ _ _ 1 1 _ rfl (by
    intro socket
    match socket with
    | 0 | 1 | _ + 2 => nofun)) rfl (busy rfl rfl)
  have capable := acts replaced (@Step.capability _ _ _ _ _ 1 _ 1 rfl rfl) rfl (busy rfl rfl)
  have serving := acts capable (@Step.greet _ _ _ 1 1 _ rfl) rfl (busy rfl rfl)
  have counted := serving.next (@Count.bump _ _ (.handler 1, .evPeerResumed) _
    (List.mem_cons_of_mem _ (List.mem_singleton_self _)) rfl)
  exact ⟨_, counted, by decide⟩

end Conspire.Sessions
