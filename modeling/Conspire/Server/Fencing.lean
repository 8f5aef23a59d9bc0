import Conspire.Server.Liveness

/-! The generation of a transport is kept by the peer, by its fence and by its heartbeat. The
calls that touch one of them come here in any order and with any arguments, apart from a null
socket, which every caller has dereferenced before. -/
namespace Conspire
open Session Transition

namespace Peer

/-- `detachIfCurrent(socket, generation)` -/
def detachIfCurrentAt (peer : Peer) (socket : Socket) (generation : Nat) : Peer × Bool :=
  if !peer.transportGeneration.isCurrent (some socket) generation || some socket ≠ peer.socket then (peer, false)
  else
    ({ peer with socket := none
                 transportGeneration :=
                   (peer.transportGeneration.detachIfCurrent (some socket) generation).1 }, true)

/-- The head of `readMessage`, `onPing` and `onPong`. -/
def inbound (peer : Peer) (socket : Socket) (now : TimePoint) : Peer :=
  if some socket ≠ peer.socket then peer
  else { peer with heartbeat := (peer.heartbeat.inbound now peer.socketGeneration).1 }

/-- The locked part of `sendPingAsync`. -/
def tick (peer : Peer) (now : TimePoint) : Peer × Tick :=
  let (heartbeat, tick) := peer.heartbeat.tick now
  ({ peer with heartbeat }, tick)

def pingWriteCompleted (peer : Peer) (generation : Nat) (success : Bool) : Peer × Bool :=
  let (heartbeat, completed) := peer.heartbeat.writeCompleted generation success
  ({ peer with heartbeat }, completed)

/-- The members that say which transport is current. -/
def binding (peer : Peer) : Option Socket × TransportGeneration × Nat × Heartbeat :=
  (peer.socket, peer.transportGeneration, peer.socketGeneration, peer.heartbeat)

theorem detachIfCurrent_at (peer : Peer) (socket : Socket) :
    peer.detachIfCurrent socket = peer.detachIfCurrentAt socket peer.socketGeneration := rfl

end Peer

/-- `bound` and `detached` record what happened: the sockets of the generations 1, 2, … and the
detaches that succeeded, with the generation they succeeded in. -/
structure Fencing where
  peer : Peer
  bound : List Socket
  detached : List (Nat × Socket) := []

inductive FencingLabel where
  | replaceSocket (socket : Option Socket) (now : TimePoint)
  | detachIfCurrent (socket : Socket) (generation : Nat) (known : Bool)
  | inbound (socket : Socket) (now : TimePoint)
  | tick (now : TimePoint)
  | pingWriteCompleted (generation : Nat) (success : Bool)
  | elsewhere

inductive FencingStep : Fencing → FencingLabel → Fencing → Prop where
  | replace : FencingStep s (.replaceSocket (some socket) now)
      { s with peer := (s.peer.replaceSocket socket now).1, bound := s.bound ++ [socket] }
  | unreplaced : FencingStep s (.replaceSocket none now) s
  -- both overloads: the one without a generation takes the peer's own
  | detach (detached : s.peer.detachIfCurrentAt socket generation = (next, known)) :
      FencingStep s (.detachIfCurrent socket generation known)
        { s with
          peer := next
          detached := if known then s.detached ++ [(s.peer.socketGeneration, socket)] else s.detached }
  | inbound : FencingStep s (.inbound socket now) { s with peer := s.peer.inbound socket now }
  | tick : FencingStep s (.tick now) { s with peer := (s.peer.tick now).1 }
  | pingWriteCompleted : FencingStep s (.pingWriteCompleted generation success)
      { s with peer := (s.peer.pingWriteCompleted generation success).1 }
  -- the other members: the dispatch of a message, the queue of frames, the causes of closing
  | elsewhere (same : next.binding = s.peer.binding) : FencingStep s .elsewhere { s with peer := next }

/-- Any sequence of calls on a peer, from its construction. -/
def fencing : Machine Fencing FencingLabel where
  init s := ∃ socket room nickname peerId now,
    s = { peer := Peer.create socket room nickname peerId now, bound := [socket] }
  step := FencingStep

namespace Fencing
variable {s t : Fencing} {socket : Socket} {generation : Nat} {now : TimePoint}

/-- The three generations agree, and with them what happened to the transports. -/
structure Agrees (s : Fencing) : Prop where
  fence : s.peer.transportGeneration.generation = s.peer.socketGeneration
  beat : s.peer.heartbeat.generation = s.peer.socketGeneration
  current : s.peer.transportGeneration.current = s.peer.socket
  -- each replacement starts a generation of its own
  count : s.peer.socketGeneration = s.bound.length
  own : ∀ socket, s.peer.socket = some socket → s.bound.getLast? = some socket
  once : (s.detached.map Prod.fst).Nodup
  taken : ∀ generation socket, (generation, socket) ∈ s.detached →
    0 < generation ∧ generation ≤ s.peer.socketGeneration ∧ s.bound[generation - 1]? = some socket
  gone : s.peer.socket = none ↔ s.peer.socketGeneration ∈ s.detached.map Prod.fst

/-- What the calls do to the transport they are about. -/
def Keeps (s : Fencing) : FencingLabel → Fencing → Prop
  | .replaceSocket (some socket) _, t =>
    s.peer.socketGeneration < t.peer.socketGeneration ∧ t.peer.socket = some socket
  | .detachIfCurrent socket generation known, t =>
    (known = true ↔ s.peer.socket = some socket ∧ generation = s.peer.socketGeneration) ∧
      t.peer.socketGeneration = s.peer.socketGeneration
  | .inbound socket now, t =>
    if s.peer.socket = some socket then
      t.peer.heartbeat = { s.peer.heartbeat with lastInbound := now, pingQueued := false, pingOutstanding := false }
    else t = s
  | _, t => t.peer.socketGeneration = s.peer.socketGeneration

/-- A call that leaves the transport and its generation as they are. -/
theorem Agrees.of_same (agrees : s.Agrees) (next : Peer) (socket : next.socket = s.peer.socket)
    (fence : next.transportGeneration = s.peer.transportGeneration)
    (generation : next.socketGeneration = s.peer.socketGeneration)
    (beat : next.heartbeat.generation = s.peer.heartbeat.generation) :
    ({ s with peer := next } : Fencing).Agrees := by
  constructor
  · simpa [fence, generation] using agrees.fence
  · simpa [beat, generation] using agrees.beat
  · simpa [fence, socket] using agrees.current
  · simpa [generation] using agrees.count
  · simpa [socket] using agrees.own
  · exact agrees.once
  · simpa [generation] using agrees.taken
  · simpa [socket, generation] using agrees.gone

theorem agrees_create (socket : Socket) (room : RoomId) (nickname : Bytes) (peerId : PeerId) (now : TimePoint) :
    ({ peer := Peer.create socket room nickname peerId now, bound := [socket] } : Fencing).Agrees := by
  constructor <;> simp [Peer.create, TransportGeneration.replace, Heartbeat.create]

theorem Agrees.replace (agrees : s.Agrees) (socket : Socket) (now : TimePoint) :
    ({ s with peer := (s.peer.replaceSocket socket now).1, bound := s.bound ++ [socket] } : Fencing).Agrees := by
  constructor
  · rfl
  · rfl
  · rfl
  · show s.peer.transportGeneration.generation + 1 = _
    rw [agrees.fence, agrees.count, List.length_append, List.length_singleton]
  · rintro _ ⟨⟩
    exact List.getLast?_concat
  · exact agrees.once
  · intro generation lost member
    obtain ⟨positive, past, own⟩ := agrees.taken generation lost member
    have inside := agrees.count
    refine ⟨positive, ?_, ?_⟩
    · show generation ≤ s.peer.transportGeneration.generation + 1
      rw [agrees.fence]
      exact Nat.le_succ_of_le past
    · rw [List.getElem?_append_left (by omega)]
      exact own
  · constructor
    · rintro ⟨⟩
    · intro member
      obtain ⟨⟨generation, lost⟩, member, is⟩ := List.mem_map.mp member
      have past := (agrees.taken generation lost member).2.1
      replace is : generation = s.peer.transportGeneration.generation + 1 := is
      rw [agrees.fence] at is
      omega

/-- Which detaches succeed, and what they do. -/
theorem Agrees.detach_cases (agrees : s.Agrees)
    (detached : s.peer.detachIfCurrentAt socket generation = (next, known)) :
    known = true ∧ s.peer.socket = some socket ∧ generation = s.peer.socketGeneration ∧
        next = { s.peer with
          socket := none, transportGeneration := { s.peer.transportGeneration with current := none } } ∨
      known = false ∧ ¬ (s.peer.socket = some socket ∧ generation = s.peer.socketGeneration) ∧ next = s.peer := by
  rw [Peer.detachIfCurrentAt] at detached
  split at detached
  · rename_i other
    cases detached
    refine .inr ⟨rfl, ?_, rfl⟩
    rintro ⟨is, rfl⟩
    simp [TransportGeneration.isCurrent, agrees.current, agrees.fence, is] at other
  · rename_i same
    cases detached
    simp only [Bool.or_eq_true, Bool.not_eq_eq_eq_not, Bool.not_true, decide_eq_true_eq, not_or, Bool.not_eq_false,
      not_not] at same
    obtain ⟨current, is⟩ := same
    have matching := current
    simp only [TransportGeneration.isCurrent, Bool.and_eq_true, decide_eq_true_eq] at matching
    refine .inl ⟨rfl, is.symm, matching.2.trans agrees.fence, ?_⟩
    rw [TransportGeneration.detachIfCurrent, if_pos current]

/-- A transport is detached only while it is the peer's, so once. -/
theorem Agrees.detach (agrees : s.Agrees) (detached : s.peer.detachIfCurrentAt socket generation = (next, known)) :
    ({ s with
      peer := next
      detached := if known then s.detached ++ [(s.peer.socketGeneration, socket)] else s.detached } :
        Fencing).Agrees := by
  rcases agrees.detach_cases detached with ⟨rfl, attached, -, rfl⟩ | ⟨rfl, -, rfl⟩
  · have fresh : s.peer.socketGeneration ∉ s.detached.map Prod.fst := by
      rw [← agrees.gone, attached]
      exact Option.some_ne_none socket
    have last := agrees.own socket attached
    have count := agrees.count
    constructor
    · exact agrees.fence
    · exact agrees.beat
    · rfl
    · exact count
    · rintro _ ⟨⟩
    · rw [if_pos rfl, List.map_append, List.nodup_append]
      refine ⟨agrees.once, List.nodup_singleton _, ?_⟩
      rintro earlier member later is rfl
      have own : earlier = s.peer.socketGeneration := List.mem_singleton.mp is
      exact fresh (own ▸ member)
    · intro generation lost member
      rw [if_pos rfl, List.mem_append, List.mem_singleton] at member
      rcases member with old | new
      · exact agrees.taken generation lost old
      · cases new
        rw [List.getLast?_eq_getElem?, ← count] at last
        refine ⟨?_, Nat.le.refl, last⟩
        have present := (List.getElem?_eq_some_iff.mp last).1
        omega
    · rw [if_pos rfl, List.map_append]
      exact iff_of_true rfl (List.mem_append_right _ (List.mem_singleton_self _))
  · exact agrees

theorem inbound_same (peer : Peer) (socket : Socket) (now : TimePoint) :
    (peer.inbound socket now).socket = peer.socket ∧
    (peer.inbound socket now).transportGeneration = peer.transportGeneration ∧
    (peer.inbound socket now).socketGeneration = peer.socketGeneration ∧
    (peer.inbound socket now).heartbeat.generation = peer.heartbeat.generation := by
  rw [Peer.inbound]
  split
  · exact ⟨rfl, rfl, rfl, rfl⟩
  · refine ⟨rfl, rfl, rfl, ?_⟩
    simp only [Heartbeat.inbound]
    split <;> rfl

theorem tick_generation (heartbeat : Heartbeat) (now : TimePoint) :
    (heartbeat.tick now).1.generation = heartbeat.generation := by
  rw [Heartbeat.tick]
  split
  · rfl
  · split <;> rfl

theorem agrees_step (agrees : s.Agrees) (step : FencingStep s l t) : t.Agrees := by
  cases step with
  | replace => exact agrees.replace _ _
  | unreplaced => exact agrees
  | detach detached => exact agrees.detach detached
  | inbound =>
    obtain ⟨socket, fence, generation, beat⟩ := inbound_same s.peer _ _
    exact agrees.of_same _ socket fence generation beat
  | tick => exact agrees.of_same _ rfl rfl rfl (tick_generation _ _)
  | pingWriteCompleted => exact agrees.of_same _ rfl rfl rfl (Liveness.writeCompleted_same _ _ _).1
  | elsewhere same =>
    simp only [Peer.binding, Prod.mk.injEq] at same
    obtain ⟨socket, fence, generation, beat⟩ := same
    exact agrees.of_same _ socket fence generation (congrArg Heartbeat.generation beat)

theorem agrees (reached : fencing.Reachable s) : s.Agrees := by
  refine reached.invariant ?_ fun _ agrees step => agrees_step agrees step
  rintro _ ⟨socket, room, nickname, peerId, now, rfl⟩
  exact agrees_create socket room nickname peerId now

/-- A step does to the transport what its call is for. -/
theorem keeps_step (agrees : s.Agrees) (step : FencingStep s l t) : s.Keeps l t := by
  cases step with
  | replace =>
    refine ⟨?_, rfl⟩
    show s.peer.socketGeneration < s.peer.transportGeneration.generation + 1
    rw [agrees.fence]
    exact Nat.lt_succ_self _
  | unreplaced => rfl
  | detach detached =>
    rcases agrees.detach_cases detached with ⟨rfl, attached, own, rfl⟩ | ⟨rfl, other, rfl⟩
    · exact ⟨iff_of_true rfl ⟨attached, own⟩, rfl⟩
    · exact ⟨iff_of_false Bool.false_ne_true other, rfl⟩
  | inbound =>
    rename_i now socket
    simp only [Keeps]
    split
    · rename_i current
      simp only [Peer.inbound, current, ne_eq, not_true_eq_false, if_false, Heartbeat.inbound, agrees.beat]
    · rename_i other
      rw [Peer.inbound, if_pos (Ne.symm other)]
  | tick => rfl
  | pingWriteCompleted => rfl
  | elsewhere same => exact congrArg (fun binding => binding.2.2.1) same

/-- Whatever is called in whatever order: the generations agree, and every call acts on the
transport it is meant for. -/
theorem generations_agree (reached : fencing.Reachable s) :
    s.Agrees ∧ ∀ l t, FencingStep s l t → s.Keeps l t :=
  ⟨agrees reached, fun _ _ step => keeps_step (agrees reached) step⟩

/-- A peer whose first transport is gone and whose second one is heard. -/
theorem generations_agree_resumed : ∃ s : Fencing, s.Agrees ∧ s.bound = [7, 8] ∧ s.detached = [(1, 7)] ∧
    s.peer.heartbeat.lastInbound = 30 := by
  have first : fencing.Reachable { peer := Peer.create 7 0 [] 3 10, bound := [7] } := .start ⟨7, 0, [], 3, 10, rfl⟩
  have detach : FencingStep { peer := Peer.create 7 0 [] 3 10, bound := [7] } (.detachIfCurrent 7 1 true)
      { peer := ((Peer.create 7 0 [] 3 10).detachIfCurrentAt 7 1).1, bound := [7], detached := [(1, 7)] } :=
    .detach rfl
  have detached := first.next detach
  have replaced := detached.next (show FencingStep _ (.replaceSocket (some 8) 20) _ from .replace)
  have heard := replaced.next (show FencingStep _ (.inbound 8 30) _ from .inbound)
  exact ⟨_, (generations_agree heard).1, rfl, rfl, rfl⟩

theorem select_binding (peer : Peer) (reason : CloseReason) :
    (peer.selectCloseReasonLocked reason).1.binding = peer.binding := rfl

theorem invalidate_binding (live : Liveness) (generation : Nat) (reason : CloseReason) :
    (live.invalidate generation reason).peer.binding = live.peer.binding := by
  rcases live.invalidate_cases generation reason with same | ⟨-, same⟩ <;> rw [same]
  exact select_binding _ _

theorem hear_inbound (live : Liveness) (socket : Socket) :
    (live.hear socket).peer = live.peer.inbound socket live.now := by
  rw [Liveness.hear, Peer.inbound]
  split
  · rename_i current
    rw [if_neg (by simp [current])]
    rfl
  · rename_i other
    rw [if_pos (Ne.symm other)]

theorem drop_binding (live : Liveness) (generation : Nat) (seen : Observation) :
    (live.drop generation seen).peer.binding = live.peer.binding := by
  rw [Liveness.drop]
  split <;> exact invalidate_binding _ _ _

theorem tick_kept {heartbeat next : Heartbeat} (is : heartbeat.tick now = (next, tick))
    (quiet : tick ≠ .queuePing) : next = heartbeat := by
  rw [Heartbeat.tick] at is
  split at is
  · cases is
    rfl
  · split at is
    · cases is
      rfl
    · cases is
      contradiction

theorem tick_peer (live : Liveness) (generation : Nat) (others : List Iteration) :
    (live.tick generation others).peer = (live.peer.tick live.now).1 := by
  rcases is : live.peer.heartbeat.tick live.now with ⟨next, tick⟩
  simp only [Liveness.tick, Peer.tick, is]
  cases tick with
  | queuePing => rfl
  | none => rw [tick_kept is (by simp)]
  | expired => rw [tick_kept is (by simp)]

/-- The histories of `Liveness` are such sequences. -/
theorem liveness_simulated : Machine.Simulates liveness fencing fun live s => s.peer = live.peer := by
  constructor
  · rintro _ ⟨socket, room, nickname, peerId, now, rfl⟩
    exact ⟨_, ⟨socket, room, nickname, peerId, now, rfl⟩, rfl⟩
  · intro live label live' s related step
    have one : ∀ {k t}, FencingStep s k t → t.peer = live'.peer →
        ∃ t, Relation.ReflTransGen (fun a b => ∃ k, fencing.step a k b) s t ∧ t.peer = live'.peer :=
      fun step same => ⟨_, .single ⟨_, step⟩, same⟩
    have other : live'.peer.binding = live.peer.binding →
        ∃ t, Relation.ReflTransGen (fun a b => ∃ k, fencing.step a k b) s t ∧ t.peer = live'.peer :=
      fun same => one (.elsewhere (same.trans (congrArg Peer.binding related.symm))) rfl
    cases step with
    | replace => exact one .replace (by rw [related]; rfl)
    | detach => exact one (.detach rfl) (by rw [related]; rfl)
    | frame => exact one .inbound (by rw [related]; exact (hear_inbound _ _).symm)
    | control => exact one .inbound (by rw [related]; exact (hear_inbound _ _).symm)
    | tick => exact one .tick (by rw [related]; exact (tick_peer _ _ _).symm)
    | drop => exact other (drop_binding _ _ _)
    | pingWritten => exact one .pingWriteCompleted (by rw [related]; rfl)
    | pingFailed => exact other (invalidate_binding _ _ _)
    | writeError => exact other (invalidate_binding _ _ _)
    | _ => exact other rfl

/-- So the fence of such a peer always lets its own transport through. -/
theorem liveness_current {live : Liveness} (reached : liveness.Reachable live)
    (attached : live.peer.socket = some socket) :
    live.peer.transportGeneration.isCurrent (some socket) live.peer.socketGeneration = true := by
  obtain ⟨s, reached, same⟩ := liveness_simulated.reachable reached
  have agreed := agrees reached
  rw [← same] at attached ⊢
  simp [TransportGeneration.isCurrent, agreed.current, agreed.fence, attached]

end Fencing
end Conspire
