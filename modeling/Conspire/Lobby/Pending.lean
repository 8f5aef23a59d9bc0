import Conspire.Lobby.Service

/-! Transports that have yet to send their hello: the listener and the pending records of
`rooms/Lobby.cpp`, beside the `PendingHelloLease` of `utils/SessionReliability.hpp`. -/
namespace Conspire.Pending
open Session Transition

/-- The listener of a new socket. -/
structure PendingHello where
  roomName : Bytes
  nickname : Bytes
  buffer : Bytes := []
  consumed : Bool := false

/-- What a call of `readMessage` comes to. -/
inductive Received where
  | invalidated
  | more (hello : PendingHello)
  | whole (text : Bytes) (hello : PendingHello)

/-- No data marks the end of a message. -/
def PendingHello.readMessage (config : ConfigDto) (hello : PendingHello) (data : Bytes) : Received :=
  if hello.consumed then .invalidated
  else if data ≠ [] then
    let position := hello.buffer.length
    if config.maxMessageSizeBytes < position ∨ config.maxMessageSizeBytes - position < data.length then
      .invalidated
    else .more { hello with buffer := hello.buffer ++ data }
  else .whole hello.buffer { hello with consumed := true }

/-- What the coroutine of a socket is doing. -/
inductive Handler where
  | unborn
  | listening (hello : PendingHello)
  -- `acceptSessionHello` before it looks for the record, and after it took the record out
  | looking (hello : PendingHello) (fields : HelloFields) (now : TimePoint)
  | answering (hello : PendingHello) (fields : HelloFields)
  -- a peer listens
  | serving
  | gone

/-- `expired` are the sockets that passes of `expireSessions` have yet to invalidate. -/
structure Gate where
  lobby : Lobby := {}
  clock : TimePoint := 0
  handler : Socket → Handler := fun _ => .unborn
  expired : List Socket := []

inductive Event where
  | created (socket : Socket) (time : TimePoint)
  | processed (socket : Socket)
  | taken (socket : Socket) (now : TimePoint)
  | missed (socket : Socket) (now : TimePoint)
  | accepted (socket : Socket)
  | expired (sockets : List Socket) (now : TimePoint)
  | invalidated (socket : Socket)
  | destroyed (socket : Socket) (removed : Bool)
  | internal

def Gate.move (s : Gate) (socket : Socket) (lobby : Lobby) (handler : Handler) : Gate :=
  { s with lobby, handler := Function.update s.handler socket handler }

/-- The sockets a pass takes out. -/
def unanswered (lobby : Lobby) (now : TimePoint) : List Socket :=
  (lobby.pending.filter fun entry => entry.2 ≤ now).map Prod.fst

/-- One lock-delimited section of a socket's coroutine or of a pass. `read` is the parser of
messages, `none` where it throws. -/
inductive Step (config : ConfigDto) (read : Bytes → Option MessageDto) : Gate → Event → Gate → Prop where
  | tick {s : Gate} : s.clock ≤ later → Step config read s .internal { s with clock := later }
  -- whatever the rest of the server does, also the later sections of `acceptSessionHello`
  | elsewhere {s : Gate} {lobby : Lobby} : lobby.pending = s.lobby.pending →
      Step config read s .internal { s with lobby }
  | create {s : Gate} {socket : Socket} : s.handler socket = .unborn →
      Step config read s (.created socket s.clock)
        (s.move socket (s.lobby.await socket s.clock) (.listening { roomName, nickname }))
  | refuse {s : Gate} {socket : Socket} : s.handler socket = .listening hello →
      hello.readMessage config data = .invalidated → Step config read s .internal s
  | piece {s : Gate} {socket : Socket} : s.handler socket = .listening hello →
      hello.readMessage config data = .more hello' →
      Step config read s .internal (s.move socket s.lobby (.listening hello'))
  | malformed {s : Gate} {socket : Socket} : s.handler socket = .listening hello →
      hello.readMessage config data = .whole text hello' → checkHello (read text) = none →
      Step config read s (.processed socket) (s.move socket s.lobby (.listening hello'))
  | arrive {s : Gate} {socket : Socket} : s.handler socket = .listening hello →
      hello.readMessage config data = .whole text hello' → checkHello (read text) = some fields →
      Step config read s (.processed socket) (s.move socket s.lobby (.looking hello' fields s.clock))
  | miss {s : Gate} {socket : Socket} : s.handler socket = .looking hello fields now →
      s.lobby.takePending socket now = none →
      Step config read s (.missed socket now) (s.move socket s.lobby (.listening hello))
  | take {s : Gate} {socket : Socket} {lobby : Lobby} : s.handler socket = .looking hello fields now →
      s.lobby.takePending socket now = some lobby →
      Step config read s (.taken socket now) (s.move socket lobby (.answering hello fields))
  | reject {s : Gate} {socket : Socket} : s.handler socket = .answering hello fields →
      Step config read s .internal (s.move socket s.lobby (.listening hello))
  | accept {s : Gate} {socket : Socket} : s.handler socket = .answering hello fields →
      Step config read s (.accepted socket) (s.move socket s.lobby .serving)
  | destroy {s : Gate} {socket : Socket} :
      (∃ hello, s.handler socket = .listening hello) ∨ s.handler socket = .serving →
      Step config read s (.destroyed socket (s.lobby.pending.lookup socket).isSome)
        (s.move socket (s.lobby.forgetPending socket) .gone)
  -- a pass took its time before it had the lock
  | expire {s : Gate} : now ≤ s.clock →
      Step config read s (.expired (unanswered s.lobby now) now)
        { s with lobby := (s.lobby.expire now).1, expired := s.expired ++ unanswered s.lobby now }
  | invalidate {s : Gate} {socket : Socket} : socket ∈ s.expired →
      Step config read s (.invalidated socket) { s with expired := s.expired.erase socket }

def gate (config : ConfigDto) (read : Bytes → Option MessageDto) : Machine Gate Event where
  init s := s = {}
  step := Step config read

/-! ## The rest of the server -/

theorem pending_replaceSocket (lobby : Lobby) (id : PeerId) (socket : Socket) (now : TimePoint) :
    (lobby.replaceSocket id socket now).pending = lobby.pending := by
  unfold Lobby.replaceSocket
  split <;> rfl

theorem pending_publish {lobby after : Lobby} {config : ConfigDto}
    (is : lobby.publish config room message = some after) :
    after.pending = lobby.pending := by
  obtain ⟨_, _, rfl⟩ := Option.map_eq_some_iff.mp is
  rfl

theorem pending_getOrCreateRoom {lobby after : Lobby} (is : lobby.getOrCreateRoom roomName = (after, room)) :
    after.pending = lobby.pending := by
  unfold Lobby.getOrCreateRoom at is
  split at is
  · cases is
    rfl
  · split at is <;> (cases is; rfl)

theorem pending_resumeLease {lobby after : Lobby} (is : lobby.resumeLease key roomName now = some (after, who)) :
    after.pending = lobby.pending := by
  unfold Lobby.resumeLease at is
  split at is
  · cases is
  · split at is
    · cases is
    · obtain ⟨_, _, same⟩ := Option.map_eq_some_iff.mp is
      cases same
      rfl

theorem pending_setFileCapability {lobby after : Lobby}
    (is : lobby.setFileCapability who capability = (after, changed)) :
    after.pending = lobby.pending := by
  unfold Lobby.setFileCapability at is
  split at is <;> (cases is; rfl)

theorem pending_takeFiles {lobby after : Lobby} (is : lobby.takeFiles who = (after, files)) :
    after.pending = lobby.pending := by
  unfold Lobby.takeFiles at is
  split at is <;> (cases is; rfl)

theorem pending_addPeer {lobby after : Lobby} (is : lobby.addPeer room who = some after) :
    after.pending = lobby.pending := by
  obtain ⟨_, _, rfl⟩ := Option.map_eq_some_iff.mp is
  rfl

theorem pending_insertSession (lobby : Lobby) (record : SessionRecord) :
    (lobby.insertSession record).pending = lobby.pending := by
  unfold Lobby.insertSession
  split <;> rfl

theorem pending_detachLease (lobby : Lobby) (who : PeerId) (now : TimePoint) :
    (lobby.detachLease who now).pending = lobby.pending := by
  unfold Lobby.detachLease
  split <;> rfl

theorem pending_deleteRoomIfEmpty (lobby : Lobby) (room : RoomId) :
    (lobby.deleteRoomIfEmpty room).pending = lobby.pending := by
  unfold Lobby.deleteRoomIfEmpty
  split <;> rfl

/-- Four sections of the service touch the records; for a socket the others are what `elsewhere` admits. -/
theorem service_pending {config : ConfigDto} {digest : Bytes → Bytes} (step : Sessions.Step config digest s l t) :
    t.lobby.pending = s.lobby.pending ∨ (∃ socket, t.lobby = s.lobby.await socket s.clock) ∨
      (∃ socket now, s.lobby.takePending socket now = some t.lobby) ∨
      (∃ socket, t.lobby = s.lobby.forgetPending socket) ∨ ∃ now, t.lobby = (s.lobby.expire now).1 := by
  cases step with
  | create => exact .inr (.inl ⟨_, rfl⟩)
  | accept _ taken => exact .inr (.inr (.inl ⟨_, _, taken⟩))
  | drop => exact .inr (.inr (.inr (.inl ⟨_, rfl⟩)))
  | expire _ taken => exact .inr (.inr (.inr (.inr ⟨_, (congrArg Prod.fst taken).symm⟩)))
  | lease _ _ _ resumes => exact .inl (pending_resumeLease resumes)
  | replace => exact .inl (pending_replaceSocket _ _ _ _)
  | place _ _ _ _ placed => exact .inl (pending_getOrCreateRoom placed)
  | crowded _ _ placed => exact .inl (pending_getOrCreateRoom placed)
  | build _ built =>
    cases built
    exact .inl rfl
  | add _ added => exact .inl (pending_addPeer added)
  | register => exact .inl (pending_insertSession _ _)
  | welcome _ _ published => exact .inl (pending_publish published)
  | capability _ changes => exact .inl (pending_setFileCapability changes)
  | take _ takes => exact .inl (pending_takeFiles takes)
  | withdraw _ _ published => exact .inl (pending_publish published)
  | author _ _ _ _ published => exact .inl (pending_publish published)
  | detach => exact .inl (pending_detachLease _ _ _)
  | forget _ takes => exact .inl (pending_takeFiles takes)
  | goodbye _ _ published => exact .inl (pending_publish published)
  | delete => exact .inl (pending_deleteRoomIfEmpty _ _)
  | _ => exact .inl rfl

/-! ## The tested lease -/

/-- What happens to one socket. -/
inductive Deed where
  | created (time : TimePoint)
  | processed
  | taken (now : TimePoint)
  | missed (now : TimePoint)
  | accepted
  | expired (now : TimePoint)
  | invalidated
  | destroyed (removed : Bool)
  deriving DecidableEq

/-- The record of the socket goes. -/
def Deed.removes : Deed → Bool
  | .taken _ | .expired _ => true
  | .destroyed removed => removed
  | _ => false

def deed (k : Socket) : Event → Option Deed
  | .created socket time => if socket = k then some (.created time) else none
  | .processed socket => if socket = k then some .processed else none
  | .taken socket now => if socket = k then some (.taken now) else none
  | .missed socket now => if socket = k then some (.missed now) else none
  | .accepted socket => if socket = k then some .accepted else none
  | .expired sockets now => if k ∈ sockets then some (.expired now) else none
  | .invalidated socket => if socket = k then some .invalidated else none
  | .destroyed socket removed => if socket = k then some (.destroyed removed) else none
  | .internal => none

def story (k : Socket) (events : List Event) : List Deed := events.filterMap (deed k)

/-- A lease, and what it was asked. -/
structure Account where
  lease : PendingHelloLease
  hellos : Nat := 0
  removals : Nat := 0
  unanswered : Bool := false

/-- The lease decides: it is asked whether it accepts and whether it expires. -/
inductive Tested : Option Account → Deed → Option Account → Prop where
  | created : Tested none (.created time) (some { lease := .create time })
  | processed {a : Account} : a.hellos = 0 → Tested (some a) .processed (some { a with hellos := 1 })
  | taken {a : Account} : a.removals = 0 → a.lease.accept now = some lease →
      Tested (some a) (.taken now) (some { a with lease, removals := 1 })
  | missed {a : Account} : Tested (some a) (.missed now) (some a)
  | accepted {a : Account} : a.lease.consumed = true → Tested (some a) .accepted (some a)
  | expired {a : Account} : a.removals = 0 → a.lease.expires now = true →
      Tested (some a) (.expired now) (some { a with removals := 1, unanswered := true })
  | invalidated {a : Account} : a.unanswered = true → Tested (some a) .invalidated (some a)
  | destroyed {a : Account} : removed = decide (a.removals = 0) →
      Tested (some a) (.destroyed removed) (some { a with removals := 1 })

def tested : Machine (Option Account) Deed where
  init a := a = none
  step := Tested

/-- What a history of the lease says of it. -/
structure Told (deeds : List Deed) (a : Account) : Prop where
  created : ∃ time, .created time ∈ deeds ∧ a.lease.deadline = time + pendingHelloPeriod
  hellos : deeds.count .processed = a.hellos ∧ a.hellos ≤ 1
  removals : deeds.countP Deed.removes = a.removals ∧ a.removals ≤ 1
  taken : a.lease.consumed = true → a.removals = 1 ∧ a.unanswered = false ∧
    ∃ now, .taken now ∈ deeds ∧ now < a.lease.deadline
  unanswered : a.unanswered = true → a.removals = 1 ∧ ∃ now, .expired now ∈ deeds ∧ a.lease.deadline ≤ now
  accepted : .accepted ∈ deeds → a.lease.consumed = true
  invalidated : .invalidated ∈ deeds → a.unanswered = true
  destroyed : ∀ removed, .destroyed removed ∈ deeds → a.removals = 1

theorem told_created : Told [.created time] { lease := .create time } where
  created := ⟨time, List.mem_singleton_self _, rfl⟩
  hellos := ⟨rfl, Nat.zero_le _⟩
  removals := ⟨rfl, Nat.zero_le _⟩
  taken consumed := by cases consumed
  unanswered is := by cases is
  accepted member := by simp at member
  invalidated member := by simp at member
  destroyed removed member := by simp at member

theorem accept_eq_some {lease next : PendingHelloLease} (accepts : lease.accept now = some next) :
    lease.consumed = false ∧ now < lease.deadline ∧ next = { lease with consumed := true } := by
  unfold PendingHelloLease.accept at accepts
  split at accepts
  · cases accepts
  · rename_i available
    cases accepts
    simp only [Bool.or_eq_true, decide_eq_true_eq, not_or, Bool.not_eq_true, Nat.not_le] at available
    exact ⟨available.1, available.2, rfl⟩

theorem expires_iff {lease : PendingHelloLease} :
    lease.expires now = true ↔ lease.consumed = false ∧ lease.deadline ≤ now := by
  simp [PendingHelloLease.expires]

theorem Told.step (told : Told deeds a) (step : Tested (some a) d (some b)) : Told (deeds ++ [d]) b := by
  obtain ⟨⟨time, made, deadline⟩, ⟨hellos, few⟩, ⟨removals, once⟩, taken, unanswered, accepted, invalidated,
    destroyed⟩ := told
  have since : .created time ∈ deeds ++ [d] := List.mem_append_left _ made
  cases step with
  | processed unheard =>
    refine ⟨⟨time, since, deadline⟩,
      by simp [hellos, unheard], by simp [removals, once, Deed.removes], ?_, ?_, ?_, ?_, ?_⟩
    all_goals grind
  | taken standing accepts =>
    obtain ⟨unconsumed, early, rfl⟩ := accept_eq_some accepts
    refine ⟨⟨time, since, deadline⟩,
      by simp [hellos, few], by simp [removals, standing, Deed.removes], ?_, ?_, ?_, ?_, ?_⟩
    all_goals grind
  | missed =>
    refine ⟨⟨time, since, deadline⟩,
      by simp [hellos, few], by simp [removals, once, Deed.removes], ?_, ?_, ?_, ?_, ?_⟩
    all_goals grind
  | accepted consumed =>
    refine ⟨⟨time, since, deadline⟩,
      by simp [hellos, few], by simp [removals, once, Deed.removes], ?_, ?_, ?_, ?_, ?_⟩
    all_goals grind
  | expired standing expires =>
    obtain ⟨unconsumed, late⟩ := expires_iff.mp expires
    refine ⟨⟨time, since, deadline⟩,
      by simp [hellos, few], by simp [removals, standing, Deed.removes], ?_, ?_, ?_, ?_, ?_⟩
    all_goals grind
  | invalidated noticed =>
    refine ⟨⟨time, since, deadline⟩,
      by simp [hellos, few], by simp [removals, once, Deed.removes], ?_, ?_, ?_, ?_, ?_⟩
    all_goals grind
  | destroyed is =>
    refine ⟨⟨time, since, deadline⟩, by simp [hellos, few], ?_, ?_, ?_, ?_, ?_, ?_⟩
    all_goals grind [Deed.removes]

theorem tested_told (run : tested.Run deeds a) :
    (a = none → deeds = []) ∧ ∀ account, a = some account → Told deeds account := by
  induction run with
  | start initial =>
    cases initial
    exact ⟨fun _ => rfl, by simp⟩
  | @next deeds before d after _ step ih =>
    refine ⟨fun none => ?_, fun account is => ?_⟩
    · cases step <;> cases none
    · cases is
      cases before with
      | none =>
        rw [ih.1 rfl]
        cases step
        exact told_created
      | some before => exact (ih.2 _ rfl).step step

/-! ## The lobby and the lease -/

/-- Where the coroutine of a socket is when its account stands so. -/
def Account.Fits (a : Account) : Handler → Prop
  | .unborn => False
  | .listening hello => a.hellos = if hello.consumed then 1 else 0
  | .looking hello .. => hello.consumed = true ∧ a.hellos = 1
  | .answering hello .. => hello.consumed = true ∧ a.hellos = 1 ∧ a.lease.consumed = true
  | .serving | .gone => True

structure Related (s : Gate) (k : Socket) (a : Option Account) : Prop where
  unborn : a = none ↔ s.handler k = .unborn
  fits : ∀ account, a = some account → account.Fits (s.handler k)
  record : ∀ deadline, (k, deadline) ∈ s.lobby.pending ↔
    ∃ account, a = some account ∧ account.removals = 0 ∧ deadline = account.lease.deadline
  expired : k ∈ s.expired → ∃ account, a = some account ∧ account.unanswered = true

/-- What leaves a socket, its record and its place in the passes as they are. -/
theorem Related.frame (related : Related s k a) (handler : t.handler k = s.handler k)
    (record : ∀ deadline, (k, deadline) ∈ t.lobby.pending ↔ (k, deadline) ∈ s.lobby.pending)
    (expired : k ∈ t.expired → k ∈ s.expired) : Related t k a where
  unborn := handler ▸ related.unborn
  fits := handler ▸ related.fits
  record deadline := (record deadline).trans (related.record deadline)
  expired member := related.expired (expired member)

/-- A step of another socket. -/
theorem Related.beside (related : Related s k a) (other : k ≠ socket)
    (record : ∀ deadline, (k, deadline) ∈ lobby.pending ↔ (k, deadline) ∈ s.lobby.pending) :
    Related (s.move socket lobby handler) k a :=
  related.frame (Function.update_of_ne other _ _) record id

theorem mem_forget (lobby : Lobby) (k socket : Socket) (deadline : TimePoint) :
    (k, deadline) ∈ (lobby.forgetPending socket).pending ↔ k ≠ socket ∧ (k, deadline) ∈ lobby.pending := by
  simp [Lobby.forgetPending, and_comm]

theorem takePending_eq_some {lobby after : Lobby} (taken : lobby.takePending socket now = some after) :
    ∃ deadline, (socket, deadline) ∈ lobby.pending ∧ now < deadline ∧ after = lobby.forgetPending socket := by
  unfold Lobby.takePending at taken
  split at taken
  · cases taken
  · rename_i deadline found
    split at taken
    · cases taken
    · rename_i early
      cases taken
      obtain ⟨front, back, is, _⟩ := List.lookup_eq_some_iff.mp found
      refine ⟨deadline, ?_, Nat.not_le.mp early, rfl⟩
      rw [is]
      exact List.mem_append_right _ (List.mem_cons_self)

theorem lookup_isSome (lobby : Lobby) (socket : Socket) :
    (lobby.pending.lookup socket).isSome = true ↔ ∃ deadline, (socket, deadline) ∈ lobby.pending := by
  rw [List.lookup_isSome_iff]
  constructor
  · rintro ⟨⟨key, deadline⟩, member, same⟩
    exact ⟨deadline, (eq_of_beq same) ▸ member⟩
  · rintro ⟨deadline, member⟩
    exact ⟨_, member, beq_self_eq_true _⟩

theorem mem_unanswered (lobby : Lobby) (now : TimePoint) :
    k ∈ unanswered lobby now ↔ ∃ deadline, (k, deadline) ∈ lobby.pending ∧ deadline ≤ now := by
  simp [unanswered]

/-- What an event does to a socket's account. -/
def Follows (k : Socket) (a : Option Account) (e : Event) (t : Gate) : Prop :=
  match deed k e with
  | none => Related t k a
  | some d => ∃ b, Tested a d b ∧ Related t k b

theorem Follows.of_none (quiet : deed k e = none) (related : Related t k a) : Follows k a e t := by
  rw [Follows, quiet]
  exact related

theorem Follows.of_some (does : deed k e = some d) (step : Tested a d b) (related : Related t k b) :
    Follows k a e t := by
  rw [Follows, does]
  exact ⟨b, step, related⟩

/-- The record of a socket is that of an account no one has removed it from. -/
theorem Related.standing (related : Related s k (some a)) (member : (k, deadline) ∈ s.lobby.pending) :
    a.removals = 0 ∧ deadline = a.lease.deadline := by
  obtain ⟨_, ⟨⟩, fresh, is⟩ := (related.record deadline).mp member
  exact ⟨fresh, is⟩

theorem Related.known (related : Related s k a) (handler : s.handler k = h) (born : h ≠ .unborn) :
    ∃ account, a = some account ∧ account.Fits h := by
  cases a with
  | none => exact absurd (handler ▸ related.unborn.mp rfl) born
  | some account => exact ⟨account, rfl, handler ▸ related.fits account rfl⟩

/-- A step of the socket that leaves its record alone. -/
theorem Related.moved {a b : Account} (related : Related s k (some a)) (fits : b.Fits handler)
    (born : handler ≠ .unborn) (removals : b.removals = a.removals) (lease : b.lease = a.lease)
    (unanswered : b.unanswered = a.unanswered) : Related (s.move k s.lobby handler) k (some b) where
  unborn := by simp [Gate.move, born]
  fits := by simpa [Gate.move] using fits
  record deadline := by
    rw [show (s.move k s.lobby handler).lobby = s.lobby from rfl, related.record]
    simp [removals, lease]
  expired member := by
    obtain ⟨_, ⟨⟩, is⟩ := related.expired member
    exact ⟨b, rfl, unanswered.trans is⟩

/-- The record of the socket is gone. -/
theorem Related.removed {a b : Account} (related : Related s k (some a)) (fits : b.Fits handler)
    (born : handler ≠ .unborn) (removals : b.removals = 1) (unanswered : b.unanswered = a.unanswered) :
    Related (s.move k (s.lobby.forgetPending k) handler) k (some b) where
  unborn := by simp [Gate.move, born]
  fits := by simpa [Gate.move] using fits
  record deadline := by
    refine (mem_forget s.lobby k k deadline).trans ?_
    simp [removals]
  expired member := by
    obtain ⟨_, ⟨⟩, is⟩ := related.expired member
    exact ⟨b, rfl, unanswered.trans is⟩

theorem Related.forgotten (related : Related s k a) (other : k ≠ socket) :
    Related (s.move socket (s.lobby.forgetPending socket) handler) k a := by
  refine related.beside other fun deadline => ?_
  rw [mem_forget]
  exact and_iff_right other

theorem read_more {hello hello' : PendingHello} (more : hello.readMessage config data = .more hello') :
    hello'.consumed = hello.consumed := by
  unfold PendingHello.readMessage at more
  split at more
  · cases more
  · dsimp only at more
    split at more
    · split at more
      · cases more
      · cases more
        rfl
    · cases more

theorem read_whole {hello hello' : PendingHello} (whole : hello.readMessage config data = .whole text hello') :
    hello.consumed = false ∧ hello'.consumed = true := by
  unfold PendingHello.readMessage at whole
  split at whole
  · cases whole
  · rename_i fresh
    dsimp only at whole
    split at whole
    · split at whole
      · cases whole
      · cases whole
    · cases whole
      exact ⟨by simpa using fresh, rfl⟩

theorem related_step {config : ConfigDto} {read : Bytes → Option MessageDto} (related : Related s k a)
    (sound : ∀ account, a = some account → account.lease.consumed = true → account.removals = 1)
    (step : Step config read s e t) : Follows k a e t := by
  cases step with
  | tick => exact .of_none rfl (related.frame rfl (fun _ => Iff.rfl) id)
  | elsewhere same => exact .of_none rfl (related.frame rfl (fun _ => by rw [same]) id)
  | @create roomName nickname _ socket unborn =>
    by_cases here : socket = k
    · subst here
      cases related.unborn.mpr unborn
      refine .of_some (if_pos rfl) .created ⟨by simp [Gate.move], ?_, fun deadline => ?_, fun member => ?_⟩
      · rintro _ ⟨⟩
        simp [Gate.move, Account.Fits]
      · have absent : (socket, deadline) ∉ s.lobby.pending := by
          rw [related.record]
          rintro ⟨_, ⟨⟩, _⟩
        simp [Gate.move, Lobby.await, absent, PendingHelloLease.create]
      · obtain ⟨_, ⟨⟩, _⟩ := related.expired member
    · refine .of_none (if_neg here) (related.beside (Ne.symm here) fun deadline => ?_)
      simp [Lobby.await, Ne.symm here]
  | refuse => exact .of_none rfl related
  | @piece hello data hello' _ socket listens more =>
    refine .of_none rfl ?_
    by_cases here : socket = k
    · subst here
      obtain ⟨account, rfl, fits⟩ := related.known listens (by simp)
      refine related.moved ?_ (by simp) rfl rfl rfl
      rwa [Account.Fits, read_more more]
    · exact related.beside (Ne.symm here) fun _ => Iff.rfl
  | @malformed hello data text hello' _ socket listens whole bad =>
    by_cases here : socket = k
    · subst here
      obtain ⟨account, rfl, fits⟩ := related.known listens (by simp)
      obtain ⟨fresh, consumed⟩ := read_whole whole
      rw [Account.Fits, fresh] at fits
      refine .of_some (if_pos rfl) (.processed fits) (related.moved ?_ (by simp) rfl rfl rfl)
      rw [Account.Fits, consumed]
      rfl
    · exact .of_none (if_neg here) (related.beside (Ne.symm here) fun _ => Iff.rfl)
  | @arrive hello data text hello' fields _ socket listens whole good =>
    by_cases here : socket = k
    · subst here
      obtain ⟨account, rfl, fits⟩ := related.known listens (by simp)
      obtain ⟨fresh, consumed⟩ := read_whole whole
      rw [Account.Fits, fresh] at fits
      exact .of_some (if_pos rfl) (.processed fits) (related.moved ⟨consumed, rfl⟩ (by simp) rfl rfl rfl)
    · exact .of_none (if_neg here) (related.beside (Ne.symm here) fun _ => Iff.rfl)
  | @miss hello fields now _ socket looks absent =>
    by_cases here : socket = k
    · subst here
      obtain ⟨account, rfl, consumed, heard⟩ := related.known looks (by simp)
      refine .of_some (if_pos rfl) .missed (related.moved ?_ (by simp) rfl rfl rfl)
      rw [Account.Fits, consumed, heard]
      rfl
    · exact .of_none (if_neg here) (related.beside (Ne.symm here) fun _ => Iff.rfl)
  | @take hello fields now _ socket lobby looks taken =>
    obtain ⟨deadline, member, early, rfl⟩ := takePending_eq_some taken
    by_cases here : socket = k
    · subst here
      obtain ⟨account, rfl, heard⟩ := related.known looks (by simp)
      obtain ⟨standing, rfl⟩ := related.standing member
      have unconsumed : account.lease.consumed = false := by
        by_contra consumed
        have removed := sound account rfl (by simpa using consumed)
        omega
      have accepts : account.lease.accept now = some { account.lease with consumed := true } := by
        simp [PendingHelloLease.accept, unconsumed, Nat.not_le.mpr early]
      exact .of_some (if_pos rfl) (.taken standing accepts)
        (related.removed ⟨heard.1, heard.2, rfl⟩ (by simp) rfl rfl)
    · exact .of_none (if_neg here) (related.forgotten (Ne.symm here))
  | @reject hello fields _ socket answers =>
    refine .of_none rfl ?_
    by_cases here : socket = k
    · subst here
      obtain ⟨account, rfl, consumed, heard, _⟩ := related.known answers (by simp)
      refine related.moved ?_ (by simp) rfl rfl rfl
      rw [Account.Fits, consumed, heard]
      rfl
    · exact related.beside (Ne.symm here) fun _ => Iff.rfl
  | @accept hello fields _ socket answers =>
    by_cases here : socket = k
    · subst here
      obtain ⟨account, rfl, _, _, consumed⟩ := related.known answers (by simp)
      exact .of_some (if_pos rfl) (.accepted consumed) (related.moved trivial (by simp) rfl rfl rfl)
    · exact .of_none (if_neg here) (related.beside (Ne.symm here) fun _ => Iff.rfl)
  | @destroy _ socket alive =>
    by_cases here : socket = k
    · subst here
      have born : ∃ h, s.handler socket = h ∧ h ≠ .unborn := by
        rcases alive with ⟨hello, listens⟩ | serves
        · exact ⟨_, listens, by simp⟩
        · exact ⟨_, serves, by simp⟩
      obtain ⟨h, is, born⟩ := born
      obtain ⟨account, rfl, _⟩ := related.known is born
      have stood : (s.lobby.pending.lookup socket).isSome = decide (account.removals = 0) := by
        rw [Bool.eq_iff_iff, lookup_isSome, decide_eq_true_eq]
        constructor
        · rintro ⟨deadline, member⟩
          exact (related.standing member).1
        · exact fun standing => ⟨_, (related.record _).mpr ⟨account, rfl, standing, rfl⟩⟩
      exact .of_some (if_pos rfl) (.destroyed stood) (related.removed trivial (by simp) rfl rfl)
    · exact .of_none (if_neg here) (related.forgotten (Ne.symm here))
  | @expire now _ past =>
    have kept : ∀ deadline, (k, deadline) ∈ (s.lobby.expire now).1.pending ↔
        (k, deadline) ∈ s.lobby.pending ∧ now < deadline := by
      simp [Lobby.expire]
    by_cases late : k ∈ unanswered s.lobby now
    · obtain ⟨deadline, member, late'⟩ := (mem_unanswered s.lobby now).mp late
      obtain ⟨account, rfl, standing, rfl⟩ := (related.record deadline).mp member
      have unconsumed : account.lease.consumed = false := by
        by_contra consumed
        have removed := sound account rfl (by simpa using consumed)
        omega
      refine .of_some (if_pos late) (.expired standing (expires_iff.mpr ⟨unconsumed, late'⟩)) ⟨?_, ?_, ?_, ?_⟩
      · simpa using related.unborn
      · rintro _ ⟨⟩
        exact related.fits account rfl
      · intro deadline
        refine (kept deadline).trans ⟨?_, ?_⟩
        · rintro ⟨member', early⟩
          obtain ⟨_, rfl⟩ := related.standing member'
          exact absurd early (Nat.not_lt.mpr late')
        · rintro ⟨_, ⟨⟩, fresh, _⟩
          cases fresh
      · exact fun _ => ⟨_, rfl, rfl⟩
    · refine .of_none (if_neg late) (related.frame rfl (fun deadline => (kept deadline).trans ?_) fun member => ?_)
      · refine and_iff_left_of_imp fun member => ?_
        by_contra early
        exact late ((mem_unanswered s.lobby now).mpr ⟨deadline, member, Nat.not_lt.mp early⟩)
      · exact (List.mem_append.mp member).resolve_right late
  | @invalidate _ socket due =>
    by_cases here : socket = k
    · subst here
      obtain ⟨account, rfl, noticed⟩ := related.expired due
      exact .of_some (if_pos rfl) (.invalidated noticed)
        (related.frame rfl (fun _ => Iff.rfl) List.mem_of_mem_erase)
    · exact .of_none (if_neg here) (related.frame rfl (fun _ => Iff.rfl) List.mem_of_mem_erase)

/-- Every run of the lobby is, for each socket, one of the lease. -/
theorem run_tested {config : ConfigDto} {read : Bytes → Option MessageDto}
    (run : (gate config read).Run events s) (k : Socket) :
    ∃ a, tested.Run (story k events) a ∧ Related s k a := by
  induction run with
  | start initial =>
    cases initial
    refine ⟨none, .start rfl, by simp, by simp, by simp, by simp⟩
  | @next events s e t _ step ih =>
    obtain ⟨a, run, related⟩ := ih
    have told := (tested_told run).2
    have follows : Follows k a e t :=
      related_step related (fun account is consumed => ((told account is).taken consumed).1) step
    unfold Follows at follows
    rw [story, List.filterMap_append]
    split at follows
    · rename_i quiet
      rw [List.filterMap_cons_none quiet, List.filterMap_nil, List.append_nil]
      exact ⟨a, run, follows⟩
    · rename_i d does
      obtain ⟨b, step, related⟩ := follows
      rw [List.filterMap_cons_some does, List.filterMap_nil]
      exact ⟨b, .next run step, related⟩

/-- The history of a socket, by what a lease of the same age says. -/
structure Honest (deeds : List Deed) : Prop where
  once : deeds.count .processed ≤ 1
  accepted : .accepted ∈ deeds → ∃ time now, .created time ∈ deeds ∧ .taken now ∈ deeds ∧
    ((PendingHelloLease.create time).accept now).isSome = true
  invalidated : .invalidated ∈ deeds → .accepted ∉ deeds ∧ ∃ time now, .created time ∈ deeds ∧
    .expired now ∈ deeds ∧ (PendingHelloLease.create time).expires now = true
  removed : deeds.countP Deed.removes ≤ 1 ∧
    ∀ removed, .destroyed removed ∈ deeds → deeds.countP Deed.removes = 1

theorem Told.honest (told : Told deeds a) : Honest deeds := by
  obtain ⟨time, made, deadline⟩ := told.created
  constructor
  · rw [told.hellos.1]
    exact told.hellos.2
  · intro accepted
    obtain ⟨_, _, now, taken, early⟩ := told.taken (told.accepted accepted)
    refine ⟨time, now, made, taken, ?_⟩
    have unexpired : ¬ time + pendingHelloPeriod ≤ now := Nat.not_le.mpr (deadline ▸ early)
    simp [PendingHelloLease.accept, PendingHelloLease.create, unexpired]
  · intro invalidated
    have noticed := told.invalidated invalidated
    obtain ⟨_, now, expired, late⟩ := told.unanswered noticed
    refine ⟨fun accepted => ?_, time, now, made, expired, ?_⟩
    · have answered := (told.taken (told.accepted accepted)).2.1
      cases noticed.symm.trans answered
    · rw [deadline] at late
      exact expires_iff.mpr ⟨rfl, late⟩
  · rw [told.removals.1]
    exact ⟨told.removals.2, told.destroyed⟩

theorem honest_nil : Honest [] where
  once := Nat.zero_le _
  accepted member := by simp at member
  invalidated member := by simp at member
  removed := ⟨Nat.zero_le _, by simp⟩

/-- Under any interleaving a socket is treated as the tested lease would have it: its history is
one of the lease, and its record is there until it is removed. -/
theorem pending_refines_lease {config : ConfigDto} {read : Bytes → Option MessageDto}
    (run : (gate config read).Run events s) (k : Socket) :
    (∃ a, tested.Run (story k events) a) ∧ Honest (story k events) ∧
      ∀ time, .created time ∈ story k events → (story k events).countP Deed.removes =
        if (s.lobby.pending.lookup k).isSome then 0 else 1 := by
  obtain ⟨a, run, related⟩ := run_tested run k
  obtain ⟨silent, told⟩ := tested_told run
  cases a with
  | none =>
    rw [silent rfl] at run ⊢
    exact ⟨⟨_, run⟩, honest_nil, by simp⟩
  | some account =>
    have told := told account rfl
    refine ⟨⟨_, run⟩, told.honest, fun time _ => ?_⟩
    rw [told.removals.1]
    by_cases stands : account.removals = 0
    · have found : (s.lobby.pending.lookup k).isSome = true :=
        (lookup_isSome _ _).mpr ⟨_, (related.record _).mpr ⟨account, rfl, stands, rfl⟩⟩
      rw [found, stands]
      rfl
    · have lost : ¬ (s.lobby.pending.lookup k).isSome = true := by
        rw [lookup_isSome]
        rintro ⟨deadline, member⟩
        exact stands (related.standing member).1
      have := told.removals.2
      rw [if_neg lost]
      omega

def helloPlain : MessageDto :=
  { code := some .sessionHello, protocolVersion := some 2, lastServerSeq := some 0
    fileCapabilityId := some (List.replicate 22 0x41) }

def fieldsPlain : HelloFields :=
  { lastServerSeq := 0, fileCapabilityId := List.replicate 22 0x41, resumeToken := none }

theorem pending_refines_lease_served :
    Honest [.created 0, .processed, .taken 0, .accepted, .destroyed false] := by
  have start : (gate {} fun _ => some helloPlain).Run [] {} := .start rfl
  have created := start.next (@Step.create {} _ [] [] {} 7 (by rfl))
  have arrived := created.next (@Step.arrive {} _ ⟨[], [], [], false⟩ [] [] ⟨[], [], [], true⟩ fieldsPlain _ 7
    (by rfl) (by rfl) (by decide))
  have taken := arrived.next (@Step.take {} _ ⟨[], [], [], true⟩ fieldsPlain 0 _ 7 _ (by rfl) (by rfl))
  have accepted := taken.next (@Step.accept {} _ ⟨[], [], [], true⟩ fieldsPlain _ 7 (by rfl))
  have destroyed := accepted.next (@Step.destroy {} _ _ 7 (.inr (by rfl)))
  exact (pending_refines_lease destroyed 7).2.1

end Conspire.Pending
