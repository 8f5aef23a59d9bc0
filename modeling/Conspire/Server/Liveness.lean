import Conspire.Library.Machine
import Conspire.Server.Peer
import Mathlib.Data.List.Nodup

/-! The transports of one peer over time: `Room::pingAllPeers`, inbound traffic, the writes
of pings, and everything that closes, detaches or replaces a transport. Each step is one
section under `m_stateLock`; what a thread does behind it is a step of its own. -/
namespace Conspire
open Session Transition

/-- What a tick saw that reported EXPIRED. -/
structure Observation where
  generation : Nat
  seenAt : TimePoint
  activated : TimePoint
  heard : Option TimePoint

/-- Neither activated nor heard within the deadline. -/
structure Observation.Silent (seen : Observation) : Prop where
  activated : seen.activated + Heartbeat.deadline ≤ seen.seenAt
  heard : ∀ t, seen.heard = some t → t + Heartbeat.deadline ≤ seen.seenAt

/-- Where `pingAllPeers` stands with this peer. -/
inductive Iteration where
  | sampled (generation : Nat)
  | expired (generation : Nat) (seen : Observation)

/-- `pings` are the generations of the pings whose write has not completed, `owedClosed` and
`owedDropped` those of the increments that a thread is about to make. From `bound` on it is a
record of what has happened; `expired` are the attached transports that a tick found expired. -/
structure Liveness where
  peer : Peer
  now : TimePoint
  reading : Option Socket := none
  iterations : List Iteration := []
  pings : List Nat := []
  failed : List Nat := []
  owedClosed : List Nat := []
  closed : List Nat := []
  owedDropped : List Nat := []
  dropped : List Nat := []
  bound : List Socket
  activated : Nat → TimePoint
  heard : Nat → Option TimePoint := fun _ => none
  selected : List (Nat × CloseReason) := []
  queued : List (Nat × TimePoint) := []
  expired : List Nat := []
  timeouts : List (Nat × Observation) := []

namespace Liveness
variable (s : Liveness)

/-- A peer around its first transport. -/
def create (socket : Socket) (room : RoomId) (nickname : Bytes) (peerId : PeerId) (now : TimePoint) : Liveness where
  peer := Peer.create socket room nickname peerId now
  now := now
  bound := [socket]
  activated := fun _ => now

def generation : Nat := s.peer.socketGeneration

/-- `selectCloseReasonLocked`, and the increment that its caller then makes. -/
def select (reason : CloseReason) (counts : Bool) : Liveness :=
  let selected := s.peer.selectCloseReasonLocked reason
  { s with
    peer := selected.1
    selected := s.selected ++ [(s.generation, reason)]
    owedClosed := if selected.2 && counts then s.generation :: s.owedClosed else s.owedClosed }

/-- `invalidateSocketIfCurrent` -/
def invalidate (generation : Nat) (reason : CloseReason) : Liveness :=
  if generation ≠ s.generation then s else s.select reason s.peer.socket.isSome

/-- Traffic that arrived on a socket. -/
def hear (socket : Socket) : Liveness :=
  if s.peer.socket = some socket then
    { s with
      peer := { s.peer with heartbeat := (s.peer.heartbeat.inbound s.now s.generation).1 }
      heard := Function.update s.heard s.generation (some s.now) }
  else s

/-- `sendPingAsync` of an iteration; `others` are the iterations apart from it. -/
def tick (generation : Nat) (others : List Iteration) : Liveness :=
  match s.peer.heartbeat.tick s.now with
  | (_, .expired) =>
    { s with
      iterations := .expired generation ⟨s.generation, s.now,
        s.activated s.generation, s.heard s.generation⟩ :: others
      expired := if s.peer.socket.isSome then s.generation :: s.expired else s.expired }
  | (_, .none) => { s with iterations := others }
  | (heartbeat, .queuePing) =>
    { s with
      peer := { s.peer with heartbeat }
      iterations := others
      pings := if s.peer.socket.isSome then s.generation :: s.pings else s.pings
      queued := if s.peer.socket.isSome then s.queued ++ [(s.generation, s.now)] else s.queued }

/-- The invalidation at the end of an iteration whose tick reported EXPIRED. -/
def drop (generation : Nat) (seen : Observation) : Liveness :=
  let t := s.invalidate generation .heartbeatTimeout
  if generation = s.generation ∧ s.peer.socket.isSome then
    { t with owedDropped := generation :: t.owedDropped, timeouts := (generation, seen) :: t.timeouts }
  else t

/-- `pingWriteCompleted`; a failed write of the current transport is invalidated next. -/
def completePing (generation : Nat) (success : Bool) (others : List Nat) : Liveness :=
  let completed := s.peer.heartbeat.writeCompleted generation success
  { s with
    peer := { s.peer with heartbeat := completed.1 }
    pings := others
    failed := if completed.2 && !success then generation :: s.failed else s.failed }

def replace (socket : Socket) : Liveness :=
  let peer := (s.peer.replaceSocket socket s.now).1
  { s with
    peer
    bound := s.bound ++ [socket]
    activated := Function.update s.activated peer.socketGeneration s.now }

end Liveness

inductive LivenessLabel where
  | clock (now : TimePoint)
  | replace (socket : Socket)
  | detach (socket : Socket)
  | frame (socket : Socket)
  | handled
  | protocolError
  | control (socket : Socket)
  | remoteClose (socket : Socket)
  | sample
  | tick (generation : Nat)
  | drop (generation : Nat)
  | pingWritten (generation : Nat) (success : Bool)
  | pingFailed (generation : Nat)
  | writeError (generation : Nat)
  | shutdown
  | countClosed
  | countDropped

/-- A transport is handed over or detached only while no frame is being handled, for both
hold `m_transportLock`. -/
inductive LivenessStep : Liveness → LivenessLabel → Liveness → Prop where
  | clock : s.now ≤ later → LivenessStep s (.clock later) { s with now := later }
  | replace : s.reading = none → socket ∉ s.bound → LivenessStep s (.replace socket) (s.replace socket)
  | detach : s.reading = none →
      LivenessStep s (.detach socket) { s with peer := (s.peer.detachIfCurrent socket).1 }
  -- readMessage
  | frame : s.reading = none → s.peer.socket = some socket →
      LivenessStep s (.frame socket) { s.hear socket with reading := some socket }
  | stale : s.reading = none → s.peer.socket ≠ some socket → LivenessStep s (.frame socket) s
  | handled : LivenessStep s .handled { s with reading := none }
  | protocolError : s.reading = some socket → LivenessStep s .protocolError (s.select .protocolError true)
  -- onPing, onPong
  | control : LivenessStep s (.control socket) (s.hear socket)
  -- onClose
  | remoteClose : s.peer.socket = some socket → LivenessStep s (.remoteClose socket) (s.select .remoteClose true)
  -- pingAllPeers
  | sample : LivenessStep s .sample { s with iterations := .sampled s.generation :: s.iterations }
  | tick : s.iterations = front ++ .sampled generation :: back →
      LivenessStep s (.tick generation) (s.tick generation (front ++ back))
  | drop : s.iterations = front ++ .expired generation seen :: back →
      LivenessStep s (.drop generation) (Liveness.drop { s with iterations := front ++ back } generation seen)
  -- SendPingCoroutine
  | pingWritten : s.pings = front ++ generation :: back →
      LivenessStep s (.pingWritten generation success) (s.completePing generation success (front ++ back))
  | pingFailed : s.failed = front ++ generation :: back →
      LivenessStep s (.pingFailed generation)
        (Liveness.invalidate { s with failed := front ++ back } generation .writeError)
  -- an overflow of the queue or a failed write of the drain
  | writeError : LivenessStep s (.writeError generation) (s.invalidate generation .writeError)
  -- invalidateSocket
  | shutdown : LivenessStep s .shutdown (s.select .serverShutdown s.peer.socket.isSome)
  | countClosed : s.owedClosed = front ++ generation :: back →
      LivenessStep s .countClosed { s with owedClosed := front ++ back, closed := generation :: s.closed }
  | countDropped : s.owedDropped = front ++ generation :: back →
      LivenessStep s .countDropped { s with owedDropped := front ++ back, dropped := generation :: s.dropped }

/-- Any history of one peer's transports. -/
def liveness : Machine Liveness LivenessLabel where
  init s := ∃ socket room nickname peerId now, s = Liveness.create socket room nickname peerId now
  step := LivenessStep

namespace Liveness
variable {s t : Liveness} {g : Nat} {reason : CloseReason} {counts : Bool} {socket : Socket}

@[simp] theorem select_generation : (s.select reason counts).generation = s.generation := rfl

@[simp] theorem hear_generation : (s.hear socket).generation = s.generation := by
  rw [hear]
  split <;> rfl

theorem invalidate_cases (s : Liveness) (g : Nat) (reason : CloseReason) :
    s.invalidate g reason = s ∨
      g = s.generation ∧ s.invalidate g reason = s.select reason s.peer.socket.isSome := by
  rw [invalidate]
  split
  · exact .inl rfl
  · rename_i same
    exact .inr ⟨not_not.mp same, rfl⟩

theorem detach_generation (peer : Peer) (socket : Socket) :
    (peer.detachIfCurrent socket).1.socketGeneration = peer.socketGeneration ∧
    (peer.detachIfCurrent socket).1.transportGeneration.generation = peer.transportGeneration.generation ∧
    (peer.detachIfCurrent socket).1.heartbeat = peer.heartbeat ∧
    (peer.detachIfCurrent socket).1.closeReason = peer.closeReason ∧
    (peer.detachIfCurrent socket).1.closeAccounting = peer.closeAccounting ∧
    ∀ bound, (peer.detachIfCurrent socket).1.socket = some bound → peer.socket = some bound := by
  rw [Peer.detachIfCurrent]
  split
  · exact ⟨rfl, rfl, rfl, rfl, rfl, fun _ is => is⟩
  · refine ⟨rfl, ?_, rfl, rfl, rfl, nofun⟩
    simp only [TransportGeneration.detachIfCurrent]
    split <;> rfl

theorem writeCompleted_same (heartbeat : Heartbeat) (g : Nat) (success : Bool) :
    (heartbeat.writeCompleted g success).1.generation = heartbeat.generation ∧
    (heartbeat.writeCompleted g success).1.lastInbound = heartbeat.lastInbound ∧
    (heartbeat.writeCompleted g success).1.lastProbe = heartbeat.lastProbe := by
  rw [Heartbeat.writeCompleted]
  split <;> exact ⟨rfl, rfl, rfl⟩

theorem writeCompleted_other {heartbeat : Heartbeat} {success : Bool} (other : g ≠ heartbeat.generation) :
    heartbeat.writeCompleted g success = (heartbeat, false) := by
  simp [Heartbeat.writeCompleted, other]

/-- What a tick that queues a ping has found. -/
theorem tick_queuePing {heartbeat next : Heartbeat} {now : TimePoint}
    (is : heartbeat.tick now = (next, .queuePing)) :
    heartbeat.pingQueued = false ∧ Heartbeat.probeInterval ≤ now - heartbeat.lastProbe ∧
      next = { heartbeat with pingQueued := true, lastProbe := now } := by
  rw [Heartbeat.tick] at is
  split at is
  · cases is
  split at is
  · cases is
  · rename_i free
    cases is
    simp only [Bool.or_eq_true, decide_eq_true_eq, not_or, Bool.not_eq_true, Nat.not_lt] at free
    exact ⟨free.1.1, free.2, rfl⟩

theorem tick_expired {heartbeat next : Heartbeat} {now : TimePoint}
    (is : heartbeat.tick now = (next, .expired)) : Heartbeat.deadline ≤ now - heartbeat.lastInbound := by
  rw [Heartbeat.tick] at is
  split at is
  · assumption
  split at is <;> cases is

/-- The generations of peer, fence and heartbeat agree, and the heartbeat has not missed
what was heard on its transport. -/
structure Beating (s : Liveness) : Prop where
  fence : s.peer.transportGeneration.generation = s.generation
  beat : s.peer.heartbeat.generation = s.generation
  inbound : s.peer.heartbeat.lastInbound ≤ s.now
  probe : s.peer.heartbeat.lastProbe ≤ s.now
  activated : s.activated s.generation ≤ s.peer.heartbeat.lastInbound
  heard : ∀ t, s.heard s.generation = some t → t ≤ s.peer.heartbeat.lastInbound
  unheard : ∀ later, s.generation < later → s.heard later = none

namespace Beating

theorem select (beating : s.Beating) : (s.select reason counts).Beating :=
  ⟨beating.fence, beating.beat, beating.inbound, beating.probe, beating.activated, beating.heard,
    beating.unheard⟩

theorem invalidate (beating : s.Beating) : (s.invalidate g reason).Beating := by
  rcases s.invalidate_cases g reason with is | ⟨-, is⟩
  · rwa [is]
  · rw [is]
    exact beating.select

theorem hear (beating : s.Beating) (socket : Socket) : (s.hear socket).Beating := by
  rw [Liveness.hear]
  split
  · have is : s.peer.heartbeat.inbound s.now s.generation =
        ({ s.peer.heartbeat with lastInbound := s.now, pingQueued := false, pingOutstanding := false }, true) := by
      simp [Heartbeat.inbound, beating.beat]
    refine ⟨beating.fence, ?_, ?_, ?_, ?_, ?_, ?_⟩
    · rw [is]
      exact beating.beat
    · simpa only [is] using Nat.le_refl s.now
    · rw [is]
      exact beating.probe
    · rw [is]
      exact Nat.le_trans beating.activated beating.inbound
    · rw [is]
      intro t known
      change Function.update s.heard s.generation (some s.now) s.generation = some t at known
      rw [Function.update_self, Option.some.injEq] at known
      exact Nat.le_of_eq known.symm
    · intro later beyond
      have apart : later ≠ s.generation := Nat.ne_of_gt beyond
      change Function.update s.heard s.generation (some s.now) later = none
      rw [Function.update_of_ne apart]
      exact beating.unheard later beyond
  · exact beating

theorem tick (beating : s.Beating) (others : List Iteration) : (s.tick g others).Beating := by
  rw [Liveness.tick]
  split
  · exact ⟨beating.fence, beating.beat, beating.inbound, beating.probe, beating.activated, beating.heard,
    beating.unheard⟩
  · exact ⟨beating.fence, beating.beat, beating.inbound, beating.probe, beating.activated, beating.heard,
    beating.unheard⟩
  · rename_i next is
    obtain ⟨-, -, rfl⟩ := tick_queuePing is
    exact ⟨beating.fence, beating.beat, beating.inbound, Nat.le_refl _, beating.activated, beating.heard,
    beating.unheard⟩

theorem completePing (beating : s.Beating) (success : Bool) (others : List Nat) :
    (s.completePing g success others).Beating := by
  obtain ⟨generation, inbound, probe⟩ := writeCompleted_same s.peer.heartbeat g success
  exact ⟨beating.fence, generation.trans beating.beat, inbound ▸ beating.inbound, probe ▸ beating.probe,
    inbound ▸ beating.activated, inbound ▸ beating.heard, beating.unheard⟩

theorem replace (beating : s.Beating) : (s.replace socket).Beating := by
  have next : (s.replace socket).generation = s.generation + 1 := by
    rw [← beating.fence]
    rfl
  refine ⟨rfl, rfl, Nat.le_refl _, Nat.le_refl _, ?_, ?_, ?_⟩
  · exact Nat.le_of_eq (Function.update_self ..)
  · intro t known
    have unheard := beating.unheard (s.replace socket).generation (by omega)
    exact absurd (unheard.symm.trans known) nofun
  · exact fun later beyond => beating.unheard later (by omega)

end Beating

theorem drop_cases (s : Liveness) (g : Nat) (seen : Observation) :
    s.drop g seen = s.invalidate g .heartbeatTimeout ∨
      g = s.generation ∧ s.peer.socket.isSome ∧ s.drop g seen =
        { s.invalidate g .heartbeatTimeout with
          owedDropped := g :: s.owedDropped, timeouts := (g, seen) :: s.timeouts } := by
  rw [drop]
  split
  · rename_i current
    refine .inr ⟨current.1, current.2, ?_⟩
    rcases s.invalidate_cases g .heartbeatTimeout with is | ⟨-, is⟩
    · rw [is]
    · rw [is]
      rfl
  · exact .inl rfl

theorem Beating.drop (beating : s.Beating) {seen : Observation} : (s.drop g seen).Beating := by
  have invalid : (s.invalidate g .heartbeatTimeout).Beating := beating.invalidate
  rcases s.drop_cases g seen with is | ⟨-, -, is⟩
  · rwa [is]
  · rw [is]
    exact ⟨invalid.fence, invalid.beat, invalid.inbound, invalid.probe, invalid.activated, invalid.heard,
      invalid.unheard⟩

theorem beating (reached : liveness.Reachable s) : s.Beating := by
  apply reached.invariant
  · rintro s ⟨socket, room, nickname, peerId, now, rfl⟩
    exact ⟨rfl, rfl, Nat.le_refl _, Nat.le_refl _, Nat.le_refl _, nofun, fun _ _ => rfl⟩
  · intro s label t _ beating step
    cases step with
    | clock later =>
      exact ⟨beating.fence, beating.beat, Nat.le_trans beating.inbound later, Nat.le_trans beating.probe later,
        beating.activated, beating.heard, beating.unheard⟩
    | replace => exact beating.replace
    | @detach _ socket =>
      obtain ⟨generation, fence, heartbeat, -⟩ := detach_generation s.peer socket
      refine ⟨?_, ?_, ?_, ?_, ?_, ?_, ?_⟩ <;> simp only [Liveness.generation, generation, fence, heartbeat]
      · exact beating.fence
      · exact beating.beat
      · exact beating.inbound
      · exact beating.probe
      · exact beating.activated
      · exact beating.heard
      · exact beating.unheard
    | frame =>
      rename_i socket _ _
      have heard := beating.hear socket
      exact ⟨heard.fence, heard.beat, heard.inbound, heard.probe, heard.activated, heard.heard, heard.unheard⟩
    | stale => exact beating
    | handled | sample | countClosed | countDropped =>
      exact ⟨beating.fence, beating.beat, beating.inbound, beating.probe, beating.activated, beating.heard,
        beating.unheard⟩
    | protocolError | remoteClose | shutdown => exact beating.select
    | control => exact beating.hear _
    | tick => exact beating.tick _
    | drop =>
      apply Beating.drop
      exact ⟨beating.fence, beating.beat, beating.inbound, beating.probe, beating.activated, beating.heard,
        beating.unheard⟩
    | pingFailed =>
      apply Beating.invalidate
      exact ⟨beating.fence, beating.beat, beating.inbound, beating.probe, beating.activated, beating.heard,
        beating.unheard⟩
    | pingWritten => exact beating.completePing _ _
    | writeError => exact beating.invalidate

/-- What is known of the iterations, and of the invalidations they have led to. -/
structure Watched (s : Liveness) : Prop where
  sampled : ∀ g, .sampled g ∈ s.iterations → g ≤ s.generation
  expired : ∀ g seen, .expired g seen ∈ s.iterations → g ≤ seen.generation ∧ seen.generation ≤ s.generation ∧
    seen.activated = s.activated seen.generation ∧ seen.Silent
  timeouts : ∀ g seen, (g, seen) ∈ s.timeouts → seen.generation = g ∧ seen.generation ≤ s.generation ∧
    seen.activated = s.activated seen.generation ∧ seen.Silent

namespace Watched

/-- Steps that leave the iterations as they are, or end some of them. -/
theorem fewer (watched : s.Watched) (iterations : ∀ i ∈ t.iterations, i ∈ s.iterations)
    (generation : t.generation = s.generation) (activated : t.activated = s.activated)
    (timeouts : t.timeouts = s.timeouts) : t.Watched where
  sampled g member := generation ▸ watched.sampled g (iterations _ member)
  expired g seen member := by
    rw [generation, activated]
    exact watched.expired g seen (iterations _ member)
  timeouts g seen member := by
    rw [generation, activated]
    exact watched.timeouts g seen (timeouts ▸ member)

theorem invalidate (watched : s.Watched) : (s.invalidate g reason).Watched := by
  rcases s.invalidate_cases g reason with is | ⟨-, is⟩
  · rwa [is]
  · rw [is]
    exact watched.fewer (fun _ => id) rfl rfl rfl

theorem hear (watched : s.Watched) (socket : Socket) : (s.hear socket).Watched := by
  rw [Liveness.hear]
  split
  · exact watched.fewer (fun _ => id) rfl rfl rfl
  · exact watched

theorem tick (watched : s.Watched) (beating : s.Beating) {front back : List Iteration}
    (is : s.iterations = front ++ .sampled g :: back) : (s.tick g (front ++ back)).Watched := by
  have others : ∀ i ∈ front ++ back, i ∈ s.iterations := by
    intro i member
    rw [is]
    rcases List.mem_append.mp member with old | new
    · exact List.mem_append_left _ old
    · exact List.mem_append_right _ (List.mem_cons_of_mem _ new)
  rw [Liveness.tick]
  split
  · rename_i late
    have silent := Nat.add_le_of_le_sub' beating.inbound (tick_expired late)
    have seen : Observation.Silent ⟨s.generation, s.now, s.activated s.generation, s.heard s.generation⟩ := by
      constructor
      · exact Nat.le_trans (Nat.add_le_add_right beating.activated _) silent
      · exact fun t known => Nat.le_trans (Nat.add_le_add_right (beating.heard t known) _) silent
    refine ⟨fun h member => ?_, fun h seen member => ?_, watched.timeouts⟩
    · rcases List.mem_cons.mp member with new | old
      · cases new
      · exact watched.sampled h (others _ old)
    · rcases List.mem_cons.mp member with new | old
      · cases new
        exact ⟨watched.sampled g (by simp [is]), Nat.le_refl _, rfl, seen⟩
      · exact watched.expired h seen (others _ old)
  · exact watched.fewer others rfl rfl rfl
  · exact watched.fewer others rfl rfl rfl

theorem replace (watched : s.Watched) (beating : s.Beating) : (s.replace socket).Watched := by
  have next : (s.replace socket).generation = s.generation + 1 := by
    rw [← beating.fence]
    rfl
  have same : ∀ h ≤ s.generation, (s.replace socket).activated h = s.activated h := by
    intro h old
    have apart : h ≠ (s.replace socket).generation := by omega
    exact Function.update_of_ne apart ..
  refine ⟨fun h member => ?_, fun h seen member => ?_, fun h seen member => ?_⟩
  · have old := watched.sampled h member
    omega
  · obtain ⟨order, old, activated, silent⟩ := watched.expired h seen member
    exact ⟨order, by omega, by rw [same _ old, activated], silent⟩
  · obtain ⟨order, old, activated, silent⟩ := watched.timeouts h seen member
    exact ⟨order, by omega, by rw [same _ old, activated], silent⟩

/-- An iteration that invalidates the current transport has ticked on it. -/
theorem drop {seen : Observation} (watched : s.Watched)
    (own : g ≤ seen.generation ∧ seen.generation ≤ s.generation ∧
      seen.activated = s.activated seen.generation ∧ seen.Silent) : (s.drop g seen).Watched := by
  have invalid : (s.invalidate g .heartbeatTimeout).Watched := watched.invalidate
  rcases s.drop_cases g seen with is | ⟨current, -, is⟩
  · rwa [is]
  · obtain ⟨before, behind, activated, silent⟩ := own
    rw [is]
    refine ⟨invalid.sampled, invalid.expired, fun h seen' member => ?_⟩
    have same : (s.invalidate g .heartbeatTimeout).generation = s.generation ∧
        (s.invalidate g .heartbeatTimeout).activated = s.activated ∧
        (s.invalidate g .heartbeatTimeout).timeouts = s.timeouts := by
      rcases s.invalidate_cases g .heartbeatTimeout with is | ⟨-, is⟩ <;> rw [is] <;> exact ⟨rfl, rfl, rfl⟩
    change seen'.generation = h ∧ seen'.generation ≤ (s.invalidate g .heartbeatTimeout).generation ∧
      seen'.activated = (s.invalidate g .heartbeatTimeout).activated seen'.generation ∧ seen'.Silent
    rw [same.1, same.2.1]
    rcases List.mem_cons.mp member with new | old
    · cases new
      exact ⟨by omega, behind, activated, silent⟩
    · exact watched.timeouts h seen' old

end Watched

theorem watched (reached : liveness.Reachable s) : s.Watched := by
  apply reached.invariant
  · rintro s ⟨socket, room, nickname, peerId, now, rfl⟩
    exact ⟨nofun, nofun, nofun⟩
  · intro s label t reached watched step
    have beating := beating reached
    cases step with
    | clock | handled | countClosed | countDropped | stale =>
      exact watched.fewer (fun _ => id) rfl rfl rfl
    | replace => exact watched.replace beating
    | @detach _ socket =>
      exact watched.fewer (fun _ => id) (detach_generation s.peer socket).1 rfl rfl
    | frame =>
      exact (watched.hear _).fewer (fun _ => id) rfl rfl rfl
    | protocolError | remoteClose | shutdown => exact watched.fewer (fun _ => id) rfl rfl rfl
    | control => exact watched.hear _
    | sample =>
      refine ⟨fun g member => ?_, fun g seen member => ?_, watched.timeouts⟩
      · rcases List.mem_cons.mp member with new | old
        · cases new
          exact Nat.le_refl _
        · exact watched.sampled g old
      · rcases List.mem_cons.mp member with new | old
        · cases new
        · exact watched.expired g seen old
    | tick is => exact watched.tick beating is
    | drop is =>
      have own := watched.expired _ _ (by rw [is]; exact List.mem_append_right _ (List.mem_cons_self ..))
      refine Watched.drop (watched.fewer (fun i member => ?_) rfl rfl rfl) own
      rw [is]
      rcases List.mem_append.mp member with old | new
      · exact List.mem_append_left _ old
      · exact List.mem_append_right _ (List.mem_cons_of_mem _ new)
    | pingWritten => exact watched.fewer (fun _ => id) rfl rfl rfl
    | pingFailed => exact Watched.invalidate (watched.fewer (fun _ => id) rfl rfl rfl)
    | writeError => exact watched.invalidate

/-- The sockets bound so far, one for each generation. -/
structure Bound (s : Liveness) : Prop where
  count : s.bound.length = s.generation
  distinct : s.bound.Nodup
  current : ∀ socket, s.peer.socket = some socket → s.bound.getLast? = some socket

theorem Bound.same (bound : s.Bound) (sockets : t.bound = s.bound) (generation : t.generation = s.generation)
    (socket : ∀ x, t.peer.socket = some x → s.peer.socket = some x) : t.Bound where
  count := by rw [sockets, generation, bound.count]
  distinct := sockets ▸ bound.distinct
  current x is := sockets ▸ bound.current x (socket x is)

theorem invalidate_bound (s : Liveness) (g : Nat) (reason : CloseReason) :
    (s.invalidate g reason).bound = s.bound ∧ (s.invalidate g reason).generation = s.generation ∧
      (s.invalidate g reason).peer.socket = s.peer.socket ∧
      (s.invalidate g reason).peer.heartbeat = s.peer.heartbeat := by
  rcases s.invalidate_cases g reason with is | ⟨-, is⟩ <;> rw [is] <;> exact ⟨rfl, rfl, rfl, rfl⟩

theorem drop_bound (s : Liveness) (g : Nat) (seen : Observation) :
    (s.drop g seen).bound = s.bound ∧ (s.drop g seen).generation = s.generation ∧
      (s.drop g seen).peer.socket = s.peer.socket := by
  obtain ⟨bound, generation, socket, -⟩ := s.invalidate_bound g .heartbeatTimeout
  rcases s.drop_cases g seen with is | ⟨-, -, is⟩ <;> rw [is] <;> exact ⟨bound, generation, socket⟩

theorem hear_bound (s : Liveness) (socket : Socket) :
    (s.hear socket).bound = s.bound ∧ (s.hear socket).peer.socket = s.peer.socket := by
  rw [hear]
  split <;> exact ⟨rfl, rfl⟩

theorem tick_bound (s : Liveness) (g : Nat) (others : List Iteration) :
    (s.tick g others).bound = s.bound ∧ (s.tick g others).generation = s.generation ∧
      (s.tick g others).peer.socket = s.peer.socket := by
  rw [tick]
  split <;> exact ⟨rfl, rfl, rfl⟩

theorem sockets_bound (reached : liveness.Reachable s) : s.Bound := by
  apply reached.invariant
  · rintro s ⟨socket, room, nickname, peerId, now, rfl⟩
    exact ⟨rfl, List.nodup_singleton _, fun x is => is⟩
  · intro s label t reached bound step
    cases step with
    | clock | handled | countClosed | countDropped | stale | sample | protocolError | remoteClose | shutdown
    | pingWritten => exact bound.same rfl rfl fun _ => id
    | replace _ fresh =>
      rename_i socket _
      have next : (s.replace socket).generation = s.generation + 1 := by
        rw [← (beating reached).fence]
        rfl
      refine ⟨?_, ?_, fun x is => ?_⟩
      · rw [next, ← bound.count]
        exact List.length_append
      · exact List.nodup_append.mpr ⟨bound.distinct, List.nodup_singleton _, fun a before b last => by
          rintro rfl
          exact fresh (List.mem_singleton.mp last ▸ before)⟩
      · cases is
        exact List.getLast?_concat
    | @detach _ socket =>
      obtain ⟨generation, -, -, -, -, kept⟩ := detach_generation s.peer socket
      exact bound.same rfl generation kept
    | frame =>
      rename_i socket _ _
      obtain ⟨sockets, same⟩ := s.hear_bound socket
      exact bound.same sockets hear_generation fun x is => same ▸ is
    | control =>
      rename_i socket
      obtain ⟨sockets, same⟩ := s.hear_bound socket
      exact bound.same sockets hear_generation fun x is => same ▸ is
    | tick is =>
      obtain ⟨sockets, generation, same⟩ := s.tick_bound _ _
      exact bound.same sockets generation fun x is => same ▸ is
    | drop is =>
      obtain ⟨sockets, generation, same⟩ := drop_bound _ _ _
      exact bound.same sockets generation fun x is => same ▸ is
    | pingFailed is =>
      obtain ⟨sockets, generation, same, -⟩ := invalidate_bound _ _ _
      exact bound.same sockets generation fun x is => same ▸ is
    | writeError =>
      obtain ⟨sockets, generation, same, -⟩ := invalidate_bound _ _ _
      exact bound.same sockets generation fun x is => same ▸ is

/-- The socket of an older generation is not the current one. -/
theorem Bound.older (bound : s.Bound) {h : Nat} (is : s.bound[h]? = some socket) (older : h + 1 < s.generation) :
    s.peer.socket ≠ some socket := by
  intro current
  have last := bound.current socket current
  rw [List.getLast?_eq_getElem?] at last
  rw [← bound.count] at older
  have same := (List.getElem?_inj (by omega) bound.distinct).mp (is.trans last.symm)
  omega

/-- Traffic on another socket than the current one is not heard. -/
theorem hear_other (other : s.peer.socket ≠ some socket) : s.hear socket = s := by
  rw [hear, if_neg other]

/-- A heartbeat timeout only hits a transport that was current at the tick that reported it
and had neither been activated nor heard for the deadline; and what arrives late for an older
transport leaves the heartbeat as it is. -/
theorem heartbeat_spares (s : Liveness) (reached : liveness.Reachable s) :
    (∀ g seen, (g, seen) ∈ s.timeouts → seen.generation = g ∧ seen.activated = s.activated g ∧
      seen.activated + seconds 120 ≤ seen.seenAt ∧ ∀ t, seen.heard = some t → t + seconds 120 ≤ seen.seenAt) ∧
    ∀ label t, liveness.step s label t →
      (∀ g success, label = .pingWritten g success → g ≠ s.generation → t.peer.heartbeat = s.peer.heartbeat) ∧
      (∀ g, label = .pingFailed g → t.peer.heartbeat = s.peer.heartbeat) ∧
      (∀ socket h, label = .frame socket ∨ label = .control socket → s.bound[h]? = some socket →
        h + 1 < s.generation → t.peer.heartbeat = s.peer.heartbeat) := by
  have beating := beating reached
  have bound := sockets_bound reached
  refine ⟨fun g seen member => ?_, fun label t step => ⟨?_, ?_, ?_⟩⟩
  · obtain ⟨rfl, -, activated, silent⟩ := (watched reached).timeouts g seen member
    exact ⟨rfl, activated, silent.activated, silent.heard⟩
  · rintro g success rfl other
    cases step with
    | pingWritten =>
      have stale : s.peer.heartbeat.writeCompleted g success = _ := writeCompleted_other (beating.beat ▸ other)
      simp only [completePing, stale]
  · rintro g rfl
    cases step with
    | pingFailed => exact (invalidate_bound _ _ _).2.2.2
  · rintro socket h kind is older
    have other := bound.older is older
    rcases kind with rfl | rfl
    · cases step with
      | frame _ current => exact absurd current other
      | stale => rfl
    · cases step with
      | control => rw [hear_other other]

/-- One iteration of `pingAllPeers` with nothing between its steps. -/
def iterate (s : Liveness) (seen : Observation) : Liveness :=
  let ticked := Liveness.tick { s with iterations := [.sampled s.generation] } s.generation ([] ++ [])
  Liveness.drop { ticked with iterations := [] ++ [] } s.generation seen

theorem iterate_run {ok : Liveness → LivenessLabel → Prop} {seen : Observation}
    (reached : (liveness.restrict ok).Reachable s) (idle : s.iterations = [])
    (expired : (Liveness.tick { s with iterations := [.sampled s.generation] } s.generation ([] ++ [])).iterations =
      [] ++ .expired s.generation seen :: [])
    (meets : ok s .sample ∧ ok { s with iterations := [.sampled s.generation] } (.tick s.generation) ∧
      ∀ t, ok t (.drop s.generation)) : (liveness.restrict ok).Reachable (s.iterate seen) := by
  have sampled : liveness.step s .sample { s with iterations := [.sampled s.generation] } := by
    have step := @LivenessStep.sample s
    rwa [idle] at step
  exact ((reached.next ⟨sampled, meets.1⟩).next ⟨.tick (List.nil_append _).symm, meets.2.1⟩).next
    ⟨.drop expired, meets.2.2 _⟩

/-- A peer whose first transport has been silent for the deadline. -/
def silent : Liveness := { create 0 0 [] 0 0 with now := seconds 120 }

theorem silent_run {ok : Liveness → LivenessLabel → Prop} (clock : ∀ s later, ok s (.clock later)) :
    (liveness.restrict ok).Reachable silent :=
  .next (.start ⟨0, 0, [], 0, 0, rfl⟩) ⟨.clock (Nat.zero_le (seconds 120)), clock _ _⟩

theorem heartbeat_spares_first :
    let seen : Observation := ⟨1, seconds 120, 0, none⟩
    (1, seen) ∈ (silent.iterate seen).timeouts ∧ seen.activated + seconds 120 ≤ seen.seenAt := by
  intro seen
  have member : (1, seen) ∈ (silent.iterate seen).timeouts := List.mem_cons_self ..
  have reached := (@iterate_run silent (fun _ _ => True) seen (silent_run fun _ _ => trivial) rfl rfl
    ⟨trivial, trivial, fun _ => trivial⟩).of_restrict
  exact ⟨member, ((heartbeat_spares (silent.iterate seen) reached).1 1 seen member).2.2.1⟩

end Liveness
end Conspire
