import Mathlib.Algebra.GroupWithZero.Nat
import Conspire.Library.Machine
import Conspire.Server.History

/-! Messages out of a peer (`Peer::sendMessageAsync` and its drain). Threads
capture the binding, queue a frame under `m_outboundLock`, and start the drain
when they have set its flag; the drain takes one frame after the other, checks
its binding and writes it to the socket it was queued for. -/
namespace Conspire.Transport
open Session Transition

/-- Where a drain stands: before its coroutine runs, before its next frame, and
with a frame before and after the binding was checked, or after a failed write. -/
inductive Drain where
  | starting | ready
  | taken (frame : OutboundFrame)
  | writing (frame : OutboundFrame)
  | failed (frame : OutboundFrame)

/-- The frame a drain has yet to write. -/
def Drain.held : Drain → List OutboundFrame
  | .taken frame | .writing frame => [frame]
  | _ => []

/-- The fan-out of a durable event, as far as this peer is concerned. -/
inductive Fanning where
  | unread (event : MessageDto)
  | captured (frame : OutboundFrame)

/-- `queued` are all frames that were ever enqueued and `wire` the writes that
were started, both oldest first. -/
structure Outbox where
  peer : Peer
  room : Room
  sends : List OutboundFrame := []
  fanning : Option Fanning := none
  drains : List Drain := []
  queued : List OutboundFrame := []
  wire : List (Socket × OutboundFrame) := []

namespace Outbox
variable (s : Outbox)

/-- The second section of `sendMessageAsync`; `startDrain` is a thread that has
set the flag, an overflow invalidates the binding that was captured. -/
def post (size : MessageDto → Nat) (frame : OutboundFrame) : Outbox :=
  match s.peer.enqueue size frame with
  | some peer => { s with peer, queued := s.queued ++ [frame]
                          drains := if s.peer.outboundDrainActive then s.drains
                                    else s.drains ++ [.starting] }
  | none => { s with peer := (s.peer.invalidateSocketIfCurrent frame.generation .writeError).1 }

end Outbox

variable (config : ConfigDto) (size : MessageDto → Nat)

inductive OutboxStep : Outbox → Unit → Outbox → Prop where
  -- sendMessageAsync for anything but a durable event
  | capture : s.peer.capture = some (socket, generation) → durableCode message.code = false →
      OutboxStep s () { s with sends := ⟨socket, generation, message⟩ :: s.sends }
  | push : s.sends = front ++ frame :: back →
      OutboxStep s () ({ s with sends := front ++ back }.post size frame)
  -- publishDurable, one at a time: the event, then the fan-out's visit of this peer
  | publish : s.fanning = none → durableCode message.code = true →
      s.room.addHistoryMessage config message = some (room, event) →
      OutboxStep s () { s with room, fanning := some (.unread event) }
  | pass : s.fanning = some (.unread event) → OutboxStep s () { s with fanning := none }
  | read : s.fanning = some (.unread event) → s.peer.capture = some (socket, generation) →
      OutboxStep s () { s with fanning := some (.captured ⟨socket, generation, event⟩) }
  | fan : s.fanning = some (.captured frame) →
      OutboxStep s () ({ s with fanning := none }.post size frame)
  -- drain coroutines
  | start : s.drains = front ++ .starting :: back →
      OutboxStep s () { s with drains := front ++ .ready :: back }
  | take : s.drains = front ++ .ready :: back → s.peer.takeOutboundFrame size = (peer, some frame) →
      OutboxStep s () { s with peer, drains := front ++ .taken frame :: back }
  | stop : s.drains = front ++ .ready :: back → s.peer.takeOutboundFrame size = (peer, none) →
      OutboxStep s () { s with peer, drains := front ++ back }
  | stale : s.drains = front ++ .taken frame :: back → s.peer.isCurrentBinding frame = false →
      OutboxStep s () { s with drains := front ++ .ready :: back }
  | check : s.drains = front ++ .taken frame :: back → s.peer.isCurrentBinding frame = true →
      OutboxStep s () { s with drains := front ++ .writing frame :: back }
  | write {ok : Bool} : s.drains = front ++ .writing frame :: back →
      OutboxStep s () { s with drains := front ++ (if ok then .ready else .failed frame) :: back
                               wire := s.wire ++ [(frame.socket, frame)] }
  | recover : s.drains = front ++ .failed frame :: back →
      OutboxStep s () { s with drains := front ++ .ready :: back
                               peer := (s.peer.invalidateSocketIfCurrent frame.generation .writeError).1 }
  -- the transport changes
  | bind : OutboxStep s () { s with peer := (s.peer.replaceSocket socket now).1 }
  | detach : s.peer.detachIfCurrent socket = (peer, known) → OutboxStep s () { s with peer }
  | invalidate : OutboxStep s () { s with peer := (s.peer.invalidateSocketIfCurrent generation reason).1 }

/-- All runs of one peer in its room, from its construction. -/
def outbox : Machine Outbox Unit where
  init s := ∃ socket nickname id now room, s = { peer := Peer.create socket 0 nickname id now, room }
  step := OutboxStep config size

/-- The queue with its byte count and its flag. -/
structure Queue where
  frames : List OutboundFrame
  bytes : Nat
  active : Bool

def queue (peer : Peer) : Queue := ⟨peer.outboundFrames, peer.outboundBytes, peer.outboundDrainActive⟩

def total (size : MessageDto → Nat) (frames : List OutboundFrame) : Nat :=
  (frames.map fun frame => size frame.payload).sum

def frameSeqs (frames : List OutboundFrame) : List Nat := seqs (frames.map (·.payload))

/-- The durable events in the queue's history are numbered upwards, and the one
being published comes after them. -/
def Ascending (queued : List OutboundFrame) (latest : Nat) : Option Fanning → Prop
  | none => (frameSeqs queued).Pairwise (· < ·) ∧ ∀ n ∈ frameSeqs queued, n ≤ latest
  | some (.unread event) | some (.captured ⟨_, _, event⟩) =>
    (frameSeqs queued).Pairwise (· < ·) ∧ (∀ n ∈ frameSeqs queued, n < latest) ∧
      durableSeq event = some latest

/-- Everything that is written, held and queued, in the order it was queued. -/
def Outbox.stream (s : Outbox) : List OutboundFrame :=
  s.wire.map (·.2) ++ s.drains.flatMap Drain.held ++ s.peer.outboundFrames

structure Disciplined (size : MessageDto → Nat) (s : Outbox) : Prop where
  bytes : s.peer.outboundBytes = total size s.peer.outboundFrames
  frames : s.peer.outboundFrames.length ≤ Peer.maxOutboundFrames
  limit : s.peer.outboundBytes ≤ Peer.maxOutboundBytes
  active : s.peer.outboundFrames ≠ [] → s.peer.outboundDrainActive = true
  drains : s.drains.length = if s.peer.outboundDrainActive then 1 else 0
  own : ∀ entry ∈ s.wire, entry.1 = entry.2.socket
  order : s.stream.Sublist s.queued
  sends : ∀ frame ∈ s.sends, durableCode frame.payload.code = false
  ascending : Ascending s.queued s.room.sequencer.latest s.fanning

variable {config : ConfigDto} {size : MessageDto → Nat} {s next : Outbox} {peer : Peer} {frame : OutboundFrame}

/-- What a successful enqueue does to the queue. -/
theorem enqueue_eq_some (h : s.peer.enqueue size frame = some peer) :
    s.peer.outboundFrames.length < Peer.maxOutboundFrames ∧
      s.peer.outboundBytes + size frame.payload ≤ max s.peer.outboundBytes Peer.maxOutboundBytes ∧
      queue peer = ⟨s.peer.outboundFrames ++ [frame], s.peer.outboundBytes + size frame.payload, true⟩ := by
  unfold Peer.enqueue at h
  dsimp only at h
  split at h
  · contradiction
  · rename_i fits
    cases h
    simp only [Bool.or_eq_true, decide_eq_true_eq, not_or, Nat.not_le, gt_iff_lt, Nat.not_lt] at fits
    refine ⟨fits.1, ?_, rfl⟩
    have := fits.2
    omega

theorem takeOutboundFrame_eq_some (h : s.peer.takeOutboundFrame size = (peer, some frame)) :
    ∃ rest, s.peer.outboundFrames = frame :: rest ∧
      queue peer =
        ⟨rest, s.peer.outboundBytes - size frame.payload, s.peer.outboundDrainActive⟩ := by
  unfold Peer.takeOutboundFrame at h
  split at h
  · cases h
  · rename_i first rest frames
    cases h
    exact ⟨rest, frames, rfl⟩

theorem takeOutboundFrame_eq_none (h : s.peer.takeOutboundFrame size = (peer, none)) :
    s.peer.outboundFrames = [] ∧ queue peer = ⟨[], s.peer.outboundBytes, false⟩ := by
  unfold Peer.takeOutboundFrame at h
  split at h
  · rename_i empty
    cases h
    exact ⟨empty, by rw [queue, empty]⟩
  · cases h

/-- An invalidation does not touch the queue. -/
theorem queue_invalidate (generation : Nat) (reason : CloseReason) :
    queue (s.peer.invalidateSocketIfCurrent generation reason).1 = queue s.peer := by
  unfold Peer.invalidateSocketIfCurrent
  split <;> rfl

theorem queue_detach {socket : Socket} (h : s.peer.detachIfCurrent socket = (peer, known)) :
    queue peer = queue s.peer := by
  unfold Peer.detachIfCurrent at h
  split at h <;> cases h <;> rfl

/-- A step that touches the binding only. -/
theorem Disciplined.rebind (disciplined : Disciplined size s) (same : queue peer = queue s.peer) :
    Disciplined size { s with peer } := by
  obtain ⟨frames, bytes, active⟩ := (Queue.mk.injEq ..).mp same
  exact ⟨by rw [frames, bytes]; exact disciplined.bytes, by rw [frames]; exact disciplined.frames,
    by rw [bytes]; exact disciplined.limit, by rw [frames, active]; exact disciplined.active,
    by rw [active]; exact disciplined.drains, disciplined.own,
    by rw [Outbox.stream, frames]; exact disciplined.order, disciplined.sends, disciplined.ascending⟩

theorem Disciplined.post (disciplined : Disciplined size s)
    (ascending : Ascending (s.queued ++ [frame]) s.room.sequencer.latest s.fanning) :
    Disciplined size (s.post size frame) := by
  unfold Outbox.post
  cases enqueued : s.peer.enqueue size frame with
  | none => exact disciplined.rebind (queue_invalidate ..)
  | some peer =>
    obtain ⟨room, fits, same⟩ := enqueue_eq_some enqueued
    obtain ⟨frames, bytes, active⟩ := (Queue.mk.injEq ..).mp same
    have limit := disciplined.limit
    refine ⟨?_, ?_, ?_, fun _ => active, ?_, disciplined.own, ?_, disciplined.sends, ascending⟩
    · simp only [frames, bytes, disciplined.bytes, total, List.map_append, List.sum_append,
        List.map_cons, List.map_nil, List.sum_singleton]
    · rw [frames, List.length_append, List.length_singleton]
      exact room
    · rw [bytes]
      omega
    · have drains := disciplined.drains
      rw [active]
      cases idle : s.peer.outboundDrainActive with
      | true => simpa [idle] using drains
      | false => simpa [idle] using drains
    · have held : (if s.peer.outboundDrainActive then s.drains else s.drains ++ [.starting]).flatMap
          Drain.held = s.drains.flatMap Drain.held := by
        split <;> simp [Drain.held]
      simp only [Outbox.stream, frames, held, ← List.append_assoc]
      exact disciplined.order.append (List.Sublist.refl [frame])

/-- There is one drain, and only while the flag is set. -/
theorem Disciplined.alone (disciplined : Disciplined size s) (split : s.drains = front ++ drain :: back) :
    front = [] ∧ back = [] ∧ s.peer.outboundDrainActive = true := by
  have drains := disciplined.drains
  rw [split, List.length_append, List.length_cons] at drains
  cases active : s.peer.outboundDrainActive with
  | false =>
    rw [active, if_neg (by simp)] at drains
    omega
  | true =>
    rw [active, if_pos rfl] at drains
    exact ⟨List.length_eq_zero_iff.mp (by omega), List.length_eq_zero_iff.mp (by omega), rfl⟩

/-- The drain goes on; what it holds and has written is the stream as before. -/
theorem Disciplined.go (disciplined : Disciplined size s) (split : s.drains = front ++ drain :: back)
    (own : ∀ entry ∈ wire, entry.1 = entry.2.socket)
    (order : (wire.map (·.2) ++ Drain.held after).Sublist (s.wire.map (·.2) ++ drain.held)) :
    Disciplined size { s with drains := front ++ after :: back, wire } := by
  obtain ⟨rfl, rfl, active⟩ := disciplined.alone split
  refine ⟨disciplined.bytes, disciplined.frames, disciplined.limit, disciplined.active, ?_, own, ?_,
    disciplined.sends, disciplined.ascending⟩
  · simp [active]
  · have before := disciplined.order
    simp only [Outbox.stream, split, List.nil_append, List.flatMap_singleton] at before ⊢
    exact (order.append (List.Sublist.refl _)).trans before

theorem frameSeqs_snoc (frames : List OutboundFrame) :
    frameSeqs (frames ++ [frame]) = frameSeqs frames ++ (durableSeq frame.payload).toList := by
  rw [frameSeqs, List.map_append, List.map_singleton, seqs_append, seqs_cons, seqs_nil, List.append_nil]
  rfl

/-- Frames that are no durable events do not count. -/
theorem Ascending.plain (ascending : Ascending queued latest fanning)
    (plain : durableCode frame.payload.code = false) : Ascending (queued ++ [frame]) latest fanning := by
  have same : frameSeqs (queued ++ [frame]) = frameSeqs queued := by
    rw [frameSeqs_snoc]
    simp [durableSeq, plain]
  unfold Ascending at ascending ⊢
  rw [same]
  exact ascending

theorem Ascending.snoc (ascending : Ascending queued latest (some (.captured frame))) :
    Ascending (queued ++ [frame]) latest none := by
  obtain ⟨upwards, below, number⟩ := ascending
  refine ⟨?_, ?_⟩
  · rw [frameSeqs_snoc, number]
    refine List.pairwise_append.mpr ⟨upwards, List.pairwise_singleton _ _, ?_⟩
    simpa using below
  · intro n member
    rw [frameSeqs_snoc, number, List.mem_append] at member
    rcases member with earlier | now
    · exact Nat.le_of_lt (below n earlier)
    · exact Nat.le_of_eq (by simpa using now)

theorem Ascending.done (ascending : Ascending queued latest fanning) : Ascending queued latest none := by
  cases fanning with
  | none => exact ascending
  | some stage =>
    cases stage with
    | unread event => exact ⟨ascending.1, fun n member => Nat.le_of_lt (ascending.2.1 n member)⟩
    | captured frame => exact ⟨ascending.1, fun n member => Nat.le_of_lt (ascending.2.1 n member)⟩

theorem disciplined_step (disciplined : Disciplined size s) (step : OutboxStep config size s l next) :
    Disciplined size next := by
  cases step with
  | capture _ plain =>
    refine ⟨disciplined.bytes, disciplined.frames, disciplined.limit, disciplined.active,
      disciplined.drains, disciplined.own, disciplined.order, ?_, disciplined.ascending⟩
    intro frame member
    rcases List.mem_cons.mp member with rfl | earlier
    · exact plain
    · exact disciplined.sends frame earlier
  | push taken =>
    rename_i front frame back
    have plain := disciplined.sends frame (by rw [taken]; simp)
    have kept : Disciplined size { s with sends := front ++ back } := by
      refine ⟨disciplined.bytes, disciplined.frames, disciplined.limit, disciplined.active,
        disciplined.drains, disciplined.own, disciplined.order, ?_, disciplined.ascending⟩
      intro other member
      apply disciplined.sends other
      rw [taken]
      exact List.mem_append.mpr ((List.mem_append.mp member).imp id (List.mem_cons_of_mem _))
    exact kept.post (disciplined.ascending.plain plain)
  | publish idle durable added =>
    obtain ⟨rfl, rfl⟩ := Room.addHistoryMessage_eq_some added
    refine ⟨disciplined.bytes, disciplined.frames, disciplined.limit, disciplined.active,
      disciplined.drains, disciplined.own, disciplined.order, disciplined.sends, ?_⟩
    have ascending := disciplined.ascending
    rw [idle] at ascending
    exact ⟨ascending.1, fun n member => Nat.lt_succ_of_le (ascending.2 n member), if_pos durable⟩
  | pass is =>
    exact ⟨disciplined.bytes, disciplined.frames, disciplined.limit, disciplined.active,
      disciplined.drains, disciplined.own, disciplined.order, disciplined.sends,
      disciplined.ascending.done⟩
  | read is =>
    have ascending := disciplined.ascending
    rw [is] at ascending
    exact ⟨disciplined.bytes, disciplined.frames, disciplined.limit, disciplined.active,
      disciplined.drains, disciplined.own, disciplined.order, disciplined.sends, ascending⟩
  | fan is =>
    have kept : Disciplined size { s with fanning := none } :=
      ⟨disciplined.bytes, disciplined.frames, disciplined.limit, disciplined.active,
        disciplined.drains, disciplined.own, disciplined.order, disciplined.sends,
        disciplined.ascending.done⟩
    have ascending := disciplined.ascending
    rw [is] at ascending
    exact kept.post ascending.snoc
  | start split => exact disciplined.go split disciplined.own (by simp [Drain.held])
  | take split taken =>
    rename_i front back peer frame
    obtain ⟨rest, frames, same⟩ := takeOutboundFrame_eq_some taken
    obtain ⟨frames', bytes', active'⟩ := (Queue.mk.injEq ..).mp same
    obtain ⟨rfl, rfl, active⟩ := disciplined.alone split
    have bytes := disciplined.bytes
    have length := disciplined.frames
    have limit := disciplined.limit
    rw [frames, total, List.map_cons, List.sum_cons] at bytes
    rw [frames, List.length_cons] at length
    refine ⟨?_, ?_, ?_, fun _ => by rw [active', active], ?_, disciplined.own, ?_, disciplined.sends,
      disciplined.ascending⟩
    · rw [frames', bytes', bytes, total]
      omega
    · rw [frames']
      omega
    · rw [bytes']
      omega
    · simp [active', active]
    · have before := disciplined.order
      simpa [Outbox.stream, split, frames, frames', Drain.held] using before
  | stop split taken =>
    obtain ⟨empty, same⟩ := takeOutboundFrame_eq_none taken
    obtain ⟨frames', bytes', active'⟩ := (Queue.mk.injEq ..).mp same
    obtain ⟨rfl, rfl, active⟩ := disciplined.alone split
    have bytes := disciplined.bytes
    rw [empty] at bytes
    refine ⟨by rw [frames', bytes', bytes], by simp [frames'], by rw [bytes']; exact disciplined.limit,
      fun filled => absurd frames' filled, by simp [active'], disciplined.own, ?_, disciplined.sends,
      disciplined.ascending⟩
    have before := disciplined.order
    simpa [Outbox.stream, split, frames', empty, Drain.held] using before
  | stale split => exact disciplined.go split disciplined.own (by simp [Drain.held])
  | check split => exact disciplined.go split disciplined.own (List.Sublist.refl _)
  | write split =>
    apply disciplined.go split
    · intro entry member
      rcases List.mem_append.mp member with earlier | now
      · exact disciplined.own entry earlier
      · rw [List.mem_singleton.mp now]
    · rename_i ok
      cases ok <;> simp [Drain.held]
  | recover split =>
    have went : Disciplined size { s with drains := _ ++ .ready :: _ } :=
      disciplined.go split disciplined.own (by simp [Drain.held])
    exact went.rebind (queue_invalidate ..)
  | bind => exact disciplined.rebind rfl
  | detach detached => exact disciplined.rebind (queue_detach detached)
  | invalidate => exact disciplined.rebind (queue_invalidate ..)

theorem disciplined (reached : (outbox config size).Reachable s) : Disciplined size s := by
  refine reached.invariant ?_ fun _ disciplined step => disciplined_step disciplined step
  rintro _ ⟨socket, nickname, id, now, room, rfl⟩
  exact ⟨rfl, by simp [Peer.create], Nat.zero_le _, fun filled => absurd rfl filled, rfl, nofun,
    List.Sublist.refl _, nofun, ⟨List.Pairwise.nil, nofun⟩⟩

/-- The frames that were written to a transport. -/
def Outbox.writtenTo (s : Outbox) (t : Socket) : List OutboundFrame :=
  (s.wire.filter (·.1 = t)).map (·.2)

/-- The outbound queue keeps its byte count and its limits, has exactly one drain
while its flag is set and none otherwise, and hands every transport its own
frames in the order they were queued, durable events with increasing numbers. -/
theorem outbox_disciplined (reached : (outbox config size).Reachable s) :
    s.peer.outboundBytes = total size s.peer.outboundFrames ∧
    (∀ frame rest, s.peer.outboundFrames = frame :: rest →
      size frame.payload ≤ s.peer.outboundBytes) ∧
    s.peer.outboundFrames.length ≤ 256 ∧ s.peer.outboundBytes ≤ 2 * 1024 * 1024 ∧
    (s.peer.outboundFrames ≠ [] → s.peer.outboundDrainActive = true) ∧
    s.drains.length = (if s.peer.outboundDrainActive then 1 else 0) ∧
    (∀ entry ∈ s.wire, entry.1 = entry.2.socket) ∧
    ∀ t, (s.writtenTo t).Sublist (s.queued.filter (·.socket = t)) ∧
      (frameSeqs (s.writtenTo t)).Pairwise (· < ·) := by
  have known := disciplined reached
  refine ⟨known.bytes, fun frame rest split => ?_, known.frames, known.limit, known.active,
    known.drains, known.own, fun t => ?_⟩
  · rw [known.bytes, split, total, List.map_cons, List.sum_cons]
    exact Nat.le_add_right _ _
  have whole : (s.wire.map (·.2)).Sublist s.queued := by
    refine List.Sublist.trans ?_ known.order
    rw [Outbox.stream, List.append_assoc]
    exact List.sublist_append_left _ _
  have own : s.writtenTo t = (s.wire.map (·.2)).filter (·.socket = t) := by
    rw [Outbox.writtenTo, List.filter_map]
    congr 1
    apply List.filter_congr
    intro entry member
    simp [known.own entry member]
  have part : (s.writtenTo t).Sublist (s.queued.filter (·.socket = t)) := own ▸ whole.filter _
  have upwards : (frameSeqs s.queued).Pairwise (· < ·) := known.ascending.done.1
  refine ⟨part, upwards.sublist ?_⟩
  exact ((part.trans List.filter_sublist).map _).filterMap _

section First
variable {s : Outbox}

abbrev firstOutbox : Machine Outbox Unit := outbox {} fun _ => 1

/-- An event is published and queued beside a drain. -/
theorem announced_first (reached : firstOutbox.Reachable s) (idle : s.fanning = none)
    (added : s.room.addHistoryMessage {} (joinedMessage 1 []) = some (room, event))
    (bound : s.peer.capture = some (socket, generation))
    (fits : s.peer.enqueue (fun _ => 1) ⟨socket, generation, event⟩ = some peer) :
    firstOutbox.Reachable
      { s with room, fanning := none, peer, queued := s.queued ++ [⟨socket, generation, event⟩]
               drains := if s.peer.outboundDrainActive then s.drains else s.drains ++ [.starting] } := by
  have published := reached.next (.publish idle (rfl : durableCode (joinedMessage 1 []).code = true) added)
  have read := published.next (.read rfl bound)
  have fanned := read.next (.fan rfl)
  simpa only [Outbox.post, fits] using fanned

/-- The only drain writes the next frame. -/
theorem drained_first (reached : firstOutbox.Reachable s) (drains : s.drains = [.ready])
    (takes : s.peer.takeOutboundFrame (fun _ => 1) = (peer, some frame))
    (current : peer.isCurrentBinding frame = true) :
    firstOutbox.Reachable { s with peer, drains := [.ready], wire := s.wire ++ [(frame.socket, frame)] } := by
  have taken := reached.next (@OutboxStep.take {} (fun _ => 1) [] [] _ _ _ drains takes)
  have checked := taken.next (@OutboxStep.check {} (fun _ => 1) [] [] _ _ rfl current)
  exact checked.next (@OutboxStep.write {} (fun _ => 1) [] [] _ _ true rfl)

/-- Of three events the first is written to transport 0, the second is dropped with it, and
the third is written to transport 1. -/
theorem outbox_disciplined_first :
    ∃ s, (outbox {} fun _ => 1).Reachable s ∧ s.queued.length = 3 ∧
      frameSeqs (s.writtenTo 0) = [1] ∧ frameSeqs (s.writtenTo 1) = [3] ∧
      ∀ t, (s.writtenTo t).Sublist (s.queued.filter (·.socket = t)) := by
  let created : Outbox := { peer := Peer.create 0 0 [] 1 0, room := { name := [] } }
  have start : firstOutbox.Reachable created := .start ⟨0, [], 1, 0, _, rfl⟩
  have first := announced_first start rfl rfl rfl rfl
  have ready := first.next (@OutboxStep.start {} (fun _ => 1) [] [] _ rfl)
  have second := announced_first ready rfl rfl rfl rfl
  have written := drained_first second rfl rfl rfl
  have bound := written.next (@OutboxStep.bind {} (fun _ => 1) _ 1 0)
  have third := announced_first bound rfl rfl rfl rfl
  have taken := third.next (@OutboxStep.take {} (fun _ => 1) [] [] _ _ _ rfl rfl)
  have stale := taken.next (@OutboxStep.stale {} (fun _ => 1) [] [] _ _ rfl rfl)
  have reached := drained_first stale rfl rfl rfl
  obtain ⟨_, _, _, _, _, _, _, order⟩ := outbox_disciplined reached
  exact ⟨_, reached, rfl, rfl, rfl, fun t => (order t).1⟩

end First

end Conspire.Transport
