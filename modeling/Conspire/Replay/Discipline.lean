import Conspire.Replay.Server

/-! Who may bind a transport. A session has at most one handler at a time: a
lease is resumed only while no handler of its session is live, so the transport
an unfinished hello has bound stays bound. -/
namespace Conspire.Replay
open Session Transition

/-- The transport of a peer, `some none` while it has none. -/
def Server.transport (s : Server) (member : PeerId) : Option (Option Socket) :=
  (s.peers member).map (·.socket)

def Server.generation (s : Server) (member : PeerId) : Nat :=
  match s.peers member with
  | none => 0
  | some peer => peer.socketGeneration

/-- Two states of a peer with the same transport binding. -/
def SameBinding (peer next : Peer) : Prop :=
  next.socket = peer.socket ∧ next.socketGeneration = peer.socketGeneration

section Updates
variable {s : Server} {socket other : Socket} {hello : Hello} {member who : PeerId} {peer : Peer}
  {written : MessageDto → Nat} {frame : OutboundFrame}

theorem transport_setPeer : (s.setPeer member peer).transport =
    Function.update s.transport member (some peer.socket) := by
  funext who
  simp only [Server.transport, Server.setPeer, Function.update_apply]
  split <;> rfl

theorem generation_setPeer : (s.setPeer member peer).generation =
    Function.update s.generation member peer.socketGeneration := by
  funext who
  by_cases is : who = member
  · simp [Server.generation, Server.setPeer, is]
  · simp [Server.generation, Server.setPeer, is]

/-- The queue of a peer is not part of its binding. -/
theorem enqueue_binding (h : peer.enqueue written frame = some next) : SameBinding peer next := by
  unfold Peer.enqueue at h
  dsimp only at h
  split at h
  · contradiction
  · cases h
    exact ⟨rfl, rfl⟩

theorem invalidateSocketIfCurrent_binding (generation : Nat) (reason : CloseReason) :
    SameBinding peer (peer.invalidateSocketIfCurrent generation reason).1 := by
  unfold Peer.invalidateSocketIfCurrent
  split <;> exact ⟨rfl, rfl⟩

theorem takeOutboundFrame_binding (h : peer.takeOutboundFrame written = (next, taken)) :
    SameBinding peer next := by
  unfold Peer.takeOutboundFrame at h
  split at h <;> cases h <;> exact ⟨rfl, rfl⟩

theorem detachIfCurrent_binding (h : peer.detachIfCurrent socket = (next, true)) :
    peer.socket = some socket ∧ next.socket = none ∧
      next.socketGeneration = peer.socketGeneration := by
  unfold Peer.detachIfCurrent at h
  split at h
  · cases h
  · rename_i current
    cases h
    simp only [Bool.or_eq_true, decide_eq_true_eq, not_or, not_not] at current
    exact ⟨current.2.symm, rfl, rfl⟩

end Updates

/-- What the discipline of handlers, transports and leases is about. -/
structure Control where
  handler : Socket → Handler
  transport : PeerId → Option (Option Socket)
  generation : PeerId → Nat
  leases : PeerId → Option SessionLease
  leaving : PeerId → Leaving
  members : List PeerId

def Server.control (s : Server) : Control :=
  ⟨s.handler, s.transport, s.generation, s.leases, s.leaving, s.room.peerById⟩

def Control.setHello (c : Control) (socket : Socket) (hello : Hello) : Control :=
  { c with handler := Function.update c.handler socket (.running hello) }

/-- A handler that goes on without a change of its transport. -/
def Continues (hello next : Hello) : Prop :=
  next.peer = hello.peer ∧ hello.phase.binds = true ∧ next.phase.binds = true

inductive ControlStep : Control → Control → Prop where
  | idle : ControlStep c c
  | go : c.handler socket = .running hello → Continues hello next →
      ControlStep c (c.setHello socket next)
  | refuse : c.handler socket = .pending →
      ControlStep c { c with handler := Function.update c.handler socket .refused }
  | join {hello : Hello} : c.handler socket = .pending → c.transport hello.peer = none → hello.phase.binds = true →
      ControlStep c
        ({ c with transport := Function.update c.transport hello.peer (some (some socket))
                  generation := Function.update c.generation hello.peer generation
                  members := c.members ++ [hello.peer] }.setHello socket hello)
  | register : c.handler socket = .running hello → Continues hello next →
      ControlStep c
        ({ c with leases := Function.update c.leases hello.peer (some {}) }.setHello socket next)
  | resume {hello : Hello} : c.handler socket = .pending → c.leases hello.peer = some lease →
      lease.resume now = some resumed → hello.phase = .resuming →
      ControlStep c
        ({ c with leases := Function.update c.leases hello.peer (some resumed) }.setHello socket hello)
  | bind {hello next : Hello} : c.handler socket = .running hello → hello.phase = .resuming →
      next.peer = hello.peer → next.phase.binds = true →
      ControlStep c
        ({ c with transport := Function.update c.transport hello.peer (some (some socket))
                  generation := Function.update c.generation hello.peer generation }.setHello
          socket next)
  | detach {hello next : Hello} : c.handler socket = .running hello → hello.phase.binds = true →
      c.transport hello.peer = some (some socket) →
      next.peer = hello.peer → next.phase = .detaching →
      ControlStep c
        ({ c with transport := Function.update c.transport hello.peer (some none) }.setHello
          socket next)
  | unlease {hello next : Hello} : c.handler socket = .running hello → hello.phase = .detaching →
      c.leases hello.peer = some lease → next.peer = hello.peer → next.phase = .closed →
      ControlStep c
        ({ c with leases := Function.update c.leases hello.peer (some (lease.detach now)) }.setHello
          socket next)
  | expire : c.leases member = some lease → lease.expires now = true →
      ControlStep c { c with leases := Function.update c.leases member none
                             leaving := Function.update c.leaving member .expired }
  | remove : c.leaving member ≠ .staying →
      ControlStep c { c with members := c.members.filter (· ≠ member)
                             leaving := Function.update c.leaving member .removed }
  | goodbye : c.leaving member ≠ .staying →
      ControlStep c { c with leaving := Function.update c.leaving member .gone }

structure Discipline (c : Control) : Prop where
  live : ∀ {T h}, c.handler T = .running h → h.phase ≠ .closed →
    c.transport h.peer = some (if h.phase.binds then some T else none) ∧
    h.peer ∈ c.members ∧ c.leaving h.peer = .staying ∧
    ∀ lease, c.leases h.peer = some lease → lease.deadline = none
  unique : ∀ {T U h k}, c.handler T = .running h → c.handler U = .running k → h.peer = k.peer →
    h.phase ≠ .closed → k.phase ≠ .closed → T = U
  bound : ∀ {p T}, c.transport p = some (some T) →
    ∃ h, c.handler T = .running h ∧ h.peer = p ∧ h.phase.binds = true
  leased : ∀ {p lease}, c.leases p = some lease → p ∈ c.members ∧ c.leaving p = .staying
  member : ∀ {p}, p ∈ c.members → (c.transport p).isSome
  departed : ∀ {p}, c.leaving p ≠ .staying → (c.transport p).isSome
  nodup : c.members.Nodup

theorem binds_ne_closed {phase : Phase} (binds : phase.binds = true) : phase ≠ .closed := by
  rintro rfl
  simp [Phase.binds] at binds

theorem resume_deadline {lease resumed : SessionLease} (h : lease.resume now = some resumed) :
    lease.deadline ≠ none ∧ resumed.deadline = none := by
  unfold SessionLease.resume SessionLease.canResume at h
  cases known : lease.deadline with
  | none => simp [known] at h
  | some deadline =>
    simp only [known] at h
    split at h
    · cases h
      simp
    · contradiction

theorem expires_deadline {lease : SessionLease} (h : lease.expires now = true) :
    lease.deadline ≠ none := by
  intro unset
  simp [SessionLease.expires, unset] at h

/-- A session whose lease runs has no live handler and no transport. -/
theorem Discipline.idle {c : Control} (valid : Discipline c) (found : c.leases p = some lease)
    (detached : lease.deadline ≠ none) :
    c.transport p = some none ∧
      ∀ {T h}, c.handler T = .running h → h.peer = p → h.phase = .closed := by
  have closed : ∀ {T h}, c.handler T = .running h → h.peer = p → h.phase = .closed := by
    intro T h is same
    by_contra unended
    subst same
    exact detached ((valid.live is unended).2.2.2 lease found)
  refine ⟨?_, closed⟩
  have known := valid.member (valid.leased found).1
  rw [Option.isSome_iff_exists] at known
  obtain ⟨transport, known⟩ := known
  cases transport with
  | none => exact known
  | some T =>
    obtain ⟨h, is, same, binds⟩ := valid.bound known
    exact absurd (closed is same) (binds_ne_closed binds)

theorem Discipline.step {c d : Control} (valid : Discipline c) (step : ControlStep c d) :
    Discipline d := by
  cases step with
  | idle => exact valid
  | go is continues =>
    obtain ⟨same, before, after⟩ := continues
    have := binds_ne_closed before
    have := binds_ne_closed after
    constructor
    all_goals simp only [Control.setHello, Function.update_apply]
    all_goals grind [Discipline]
  | refuse is =>
    constructor
    all_goals simp only [Function.update_apply]
    all_goals grind [Discipline]
  | join is new binds =>
    have := binds_ne_closed binds
    constructor
    all_goals simp only [Control.setHello, Function.update_apply]
    all_goals grind [Discipline]
  | register is continues =>
    obtain ⟨same, before, after⟩ := continues
    have := binds_ne_closed before
    have := binds_ne_closed after
    constructor
    all_goals simp only [Control.setHello, Function.update_apply]
    all_goals grind [Discipline]
  | resume is found resumed resuming =>
    obtain ⟨detached, consumed⟩ := resume_deadline resumed
    obtain ⟨unbound, closed⟩ := valid.idle found detached
    constructor
    all_goals simp only [Control.setHello, Function.update_apply]
    all_goals grind [Discipline, Phase.binds]
  | bind is resuming same binds =>
    have := binds_ne_closed binds
    constructor
    all_goals simp only [Control.setHello, Function.update_apply]
    all_goals grind [Discipline, Phase.binds]
  | detach is binds current same detaching =>
    have := binds_ne_closed binds
    constructor
    all_goals simp only [Control.setHello, Function.update_apply]
    all_goals grind [Discipline, Phase.binds]
  | unlease is detaching found same closed =>
    constructor
    all_goals simp only [Control.setHello, Function.update_apply]
    all_goals grind [Discipline, Phase.binds]
  | expire found expired =>
    have := expires_deadline expired
    constructor
    all_goals simp only [Function.update_apply]
    all_goals grind [Discipline, Phase.binds]
  | remove away =>
    constructor
    all_goals simp only [Function.update_apply, List.mem_filter]
    all_goals grind [Discipline]
  | goodbye away =>
    constructor
    all_goals simp only [Function.update_apply]
    all_goals grind [Discipline]

/-- The socket and generation were read from the peer at some time: its handler
is past binding, and while the socket is current so is the generation. -/
def Control.Issued (c : Control) (member : PeerId) (socket : Socket) (generation : Nat) : Prop :=
  ∃ h, c.handler socket = .running h ∧ h.peer = member ∧ h.phase ≠ .resuming ∧
    (c.transport member = some (some socket) → c.generation member = generation)

theorem Control.Issued.step {c d : Control} (issued : c.Issued p U g) (step : ControlStep c d) :
    d.Issued p U g := by
  obtain ⟨h, is, same, started, current⟩ := issued
  cases step with
  | idle => exact ⟨h, is, same, started, current⟩
  | go | register =>
    simp only [Control.Issued, Control.setHello, Function.update_apply, Continues] at *
    grind [Phase.binds]
  | refuse | join | resume | bind | detach | unlease | expire | remove | goodbye =>
    simp only [Control.Issued, Control.setHello, Function.update_apply] at *
    grind [Phase.binds]

section Refines
variable {s : Server} {socket : Option Socket} {member : PeerId} {frame : OutboundFrame}

theorem control_setPeer {peer : Peer} (same : transport = peer.socket) : (s.setPeer member peer).control =
    { s.control with transport := Function.update s.transport member (some transport)
                     generation := Function.update s.generation member peer.socketGeneration } := by
  subst same
  simp only [Server.control, transport_setPeer, generation_setPeer]
  rfl

theorem control_setPeer_same (known : s.peers member = some peer) (same : SameBinding peer next) :
    (s.setPeer member next).control = s.control := by
  rw [control_setPeer same.1.symm, same.2]
  simp only [Server.control, Control.mk.injEq, true_and, and_true]
  constructor
  · funext who
    by_cases is : who = member
    · simp [is, Server.transport, known]
    · simp [is]
  · funext who
    by_cases is : who = member
    · simp [is, Server.generation, known]
    · simp [is]

theorem control_setPeer_detached (known : s.peers member = some peer) (unbound : next.socket = none)
    (same : next.socketGeneration = peer.socketGeneration) : (s.setPeer member next).control =
      { s.control with transport := Function.update s.transport member (some none) } := by
  rw [control_setPeer unbound.symm, same]
  simp only [Server.control, Control.mk.injEq, true_and, and_true]
  funext who
  by_cases is : who = member
  · simp [is, Server.generation, known]
  · simp [is]

@[simp] theorem control_invalidate : (s.invalidate socket).control = s.control := by
  cases socket <;> rfl

@[simp] theorem control_post : (s.post written member frame).control = s.control := by
  unfold Server.post
  split
  · rfl
  · rename_i peer known
    split
    · rename_i next pushed
      exact control_setPeer_same known (enqueue_binding pushed)
    · dsimp only
      rw [control_invalidate]
      exact control_setPeer_same known (invalidateSocketIfCurrent_binding ..)

@[simp] theorem control_setHello : (s.setHello target hello).control = s.control.setHello target hello :=
  rfl

@[simp] theorem control_write : (s.write target message).control = s.control := rfl

theorem control_publish (h : s.room.addHistoryMessage config message = some (room, event)) :
    ({ s with room, log, publishing, leaving } : Server).control = { s.control with leaving } := by
  simp only [Server.control, Room.addHistoryMessage_members h]
  rfl

theorem advance_continues {hello next : Hello} (h : s.advance members hello = some next) :
    Continues hello next := by
  unfold Server.advance at h
  split at h
  case h_1 phase => cases h; exact ⟨rfl, by simp [phase, Phase.binds], rfl⟩
  case h_2 phase => cases h; exact ⟨rfl, by simp [phase, Phase.binds], rfl⟩
  case h_3 phase => cases h; exact ⟨rfl, by simp [phase, Phase.binds], rfl⟩
  case h_4 phase =>
    rw [Option.map_eq_some_iff] at h
    obtain ⟨peer, _, rfl⟩ := h
    exact ⟨rfl, by simp [phase, Phase.binds], rfl⟩
  case h_5 => contradiction

theorem Discipline.absent {s : Server} (valid : Discipline s.control) (new : s.peers member = none) :
    member ∉ s.room.peerById := by
  intro inside
  have known := valid.member inside
  simp [Server.control, Server.transport, new] at known

/-- Every step of the server is one of the control steps. -/
theorem control_step {s t : Server} (valid : Discipline s.control)
    (step : Step config written s l t) : ControlStep s.control t.control := by
  cases step with
  | publish _ _ added =>
    rw [control_publish added]
    exact .idle
  | goodbye _ removed _ added =>
    rw [control_publish added]
    exact .goodbye (c := s.control) (by simp [Server.control, removed])
  | welcome _ is phase _ added =>
    rw [control_setHello, control_publish added]
    exact .go is ⟨rfl, by simp [phase, Phase.binds], rfl⟩
  | members | skip | capture | finish | beginSend | check | drop => exact .idle
  | push | endSend =>
    rw [control_post]
    exact .idle
  | welcomed _ is phase => exact .go is ⟨rfl, by simp [phase, Phase.binds], rfl⟩
  | join pending _ new _ added =>
    simp only [control_setHello, Room.addPeer_eq_some added (valid.absent new)]
    rw [control_setPeer rfl]
    exact .join pending (by simp [Server.control, Server.transport, new]) rfl
  | register is phase => exact .register is ⟨rfl, by simp [phase, Phase.binds], rfl⟩
  | resume pending _ found resumed => exact .resume pending found resumed rfl
  | bind is phase known =>
    simp only [control_setHello, control_invalidate]
    rw [control_setPeer rfl]
    exact .bind is phase rfl rfl
  | refuse pending => exact .refuse pending
  | advance is _ next => exact .go is (advance_continues next)
  | answer is phase =>
    simp only [control_setHello, control_post]
    exact .go is ⟨rfl, by simp [phase, Phase.binds], rfl⟩
  | take known _ taken =>
    have same := control_setPeer_same known (takeOutboundFrame_binding taken)
    exact same ▸ .idle
  | write | apiError => exact .idle
  | detach is phase known detached =>
    obtain ⟨current, unbound, same⟩ := detachIfCurrent_binding detached
    rw [control_setHello, control_setPeer_detached known unbound same]
    exact .detach is (by simp [phase, Phase.binds])
      (by simp [Server.control, Server.transport, known, current]) rfl rfl
  | unlease is phase found => exact .unlease is phase found rfl rfl
  | expire found expired => exact .expire found expired
  | remove expired =>
    exact .remove (c := s.control) (by simp [Server.control, expired])

/-- The discipline holds in every run. -/
theorem disciplined (reached : (server config written).Reachable s) : Discipline s.control := by
  refine reached.invariant (P := fun s => Discipline s.control) ?_ ?_
  · rintro s ⟨name, rfl⟩
    constructor
    all_goals simp [Server.control, Server.transport]
  · intro s l t _ valid step
    exact valid.step (control_step valid step)

end Refines
end Conspire.Replay
