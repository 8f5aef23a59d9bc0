import Conspire.Replay.Discipline

/-! What is on the way to a socket: the frames written to it, the one its peer's
drain coroutine holds and those in the peer's queue. Every frame was captured
from a transport of its peer, so a transport that is about to be bound has none. -/
namespace Conspire.Replay
open Session Transition

/-- The frames of a peer not yet written, in writing order. -/
def Server.frames (s : Server) (member : PeerId) : List OutboundFrame :=
  ((s.draining member).map (·.1)).toList ++ ((s.peers member).map (·.outboundFrames)).getD []

def Server.unsent (s : Server) (member : PeerId) (socket : Socket) : List MessageDto :=
  ((s.frames member).filter (·.socket = socket)).map (·.payload)

/-- All that was enqueued for a socket of the peer or written to it. -/
def Server.stream (s : Server) (member : PeerId) (socket : Socket) : List MessageDto :=
  s.wire socket ++ s.unsent member socket

/-- Does the queue refuse this frame? -/
def Server.overflows (s : Server) (written : MessageDto → Nat) (member : PeerId)
    (frame : OutboundFrame) : Bool :=
  match s.peers member with
  | none => true
  | some peer => (peer.enqueue written frame).isNone

/-- A binding some thread still holds for a frame to or from the queue. -/
inductive Outstanding (s : Server) : PeerId → Socket → Nat → Prop where
  | frame : f ∈ s.frames p → Outstanding s p f.socket f.generation
  | fanout : s.publishing = some ⟨event, excluded, .captured p U g rest⟩ → Outstanding s p U g
  | send : send ∈ s.sends → Outstanding s send.peer send.frame.socket send.frame.generation
  | ready : s.handler T = .running h → h.binding = some (U, g) → Outstanding s h.peer U g

section Post
variable {s : Server} {written : MessageDto → Nat} {member p : PeerId} {frame : OutboundFrame}

theorem enqueue_eq_some {peer next : Peer} (h : peer.enqueue written frame = some next) :
    next.outboundFrames = peer.outboundFrames ++ [frame] ∧ next.nickname = peer.nickname := by
  unfold Peer.enqueue at h
  dsimp only at h
  split at h
  · contradiction
  · cases h
    exact ⟨rfl, rfl⟩

theorem invalidateSocketIfCurrent_frames {peer : Peer} (generation : Nat) (reason : CloseReason) :
    (peer.invalidateSocketIfCurrent generation reason).1.outboundFrames = peer.outboundFrames := by
  unfold Peer.invalidateSocketIfCurrent
  split <;> rfl

/-- A post changes the queue of one peer, and may invalidate a transport. -/
theorem post_fields : (s.post written member frame).wire = s.wire ∧
    (s.post written member frame).handler = s.handler ∧
    (s.post written member frame).publishing = s.publishing ∧
    (s.post written member frame).sends = s.sends ∧
    (s.post written member frame).draining = s.draining ∧
    (s.post written member frame).log = s.log ∧
    (s.post written member frame).room = s.room := by
  unfold Server.post Server.setPeer Server.invalidate
  split
  · simp
  · split
    · simp
    · dsimp only
      split <;> simp

theorem invalidate_fields (socket : Option Socket) : (s.invalidate socket).wire = s.wire ∧
    (s.invalidate socket).handler = s.handler ∧ (s.invalidate socket).peers = s.peers ∧
    (s.invalidate socket).publishing = s.publishing ∧ (s.invalidate socket).sends = s.sends ∧
    (s.invalidate socket).log = s.log ∧ (s.invalidate socket).room = s.room := by
  cases socket <;> simp [Server.invalidate]

theorem frames_post : (s.post written member frame).frames p =
    s.frames p ++ if p = member ∧ s.overflows written member frame = false then [frame] else [] := by
  unfold Server.frames
  rw [post_fields.2.2.2.2.1, List.append_assoc]
  congr 1
  unfold Server.post Server.overflows
  cases known : s.peers member with
  | none => simp
  | some peer =>
    rcases Option.eq_none_or_eq_some (peer.enqueue written frame) with refused | ⟨next, pushed⟩
    · have same : ∀ socket : Option Socket, ∀ t : Server, (t.invalidate socket).peers = t.peers := by
        intro socket t
        cases socket <;> rfl
      by_cases is : p = member
      · simp [is, refused, same, Server.setPeer, invalidateSocketIfCurrent_frames, known]
      · simp [is, refused, same, Server.setPeer]
    · by_cases is : p = member
      · simp [is, pushed, Server.setPeer, (enqueue_eq_some pushed).1, known]
      · simp [is, pushed, Server.setPeer]

/-- A transport that stays valid through a post accepted the frame, if the
frame was for it. -/
theorem post_invalidated (valid : (s.post written member frame).invalidated socket = false) :
    s.invalidated socket = false ∧
      (s.overflows written member frame = true → s.transport member = some (some socket) →
        s.generation member ≠ frame.generation) := by
  unfold Server.post at valid
  unfold Server.overflows Server.transport Server.generation
  cases known : s.peers member with
  | none => simpa [known] using valid
  | some peer =>
    simp only [known] at valid
    cases pushed : peer.enqueue written frame with
    | some next => simpa [pushed, Server.setPeer] using valid
    | none =>
      simp only [pushed, Peer.invalidateSocketIfCurrent] at valid
      by_cases current : frame.generation = peer.socketGeneration
      · cases bound : peer.socket with
        | none => simpa [current, bound, Server.invalidate, Server.setPeer] using valid
        | some target =>
          simp only [current, bound, Server.invalidate, Server.setPeer, ne_eq, not_true_eq_false,
            if_false, Function.update_apply] at valid
          split at valid
          · contradiction
          · rename_i other
            refine ⟨valid, ?_⟩
            simp only [Option.map_some, bound, Option.some.injEq]
            intro _ is
            exact absurd is.symm other
      · have : s.invalidated socket = false := by
          simpa [current, Server.invalidate, Server.setPeer] using valid
        exact ⟨this, fun _ _ same => current same.symm⟩

theorem frames_invalidate (socket : Option Socket) : (s.invalidate socket).frames = s.frames := by
  cases socket <;> rfl

theorem frames_setPeer {peer next : Peer} (known : s.peers member = some peer)
    (same : next.outboundFrames = peer.outboundFrames) : (s.setPeer member next).frames = s.frames := by
  funext who
  by_cases is : who = member
  · simp [Server.frames, Server.setPeer, is, known, same]
  · simp [Server.frames, Server.setPeer, is]

theorem frames_setPeer_new {next : Peer} (new : s.peers member = none)
    (empty : next.outboundFrames = []) : (s.setPeer member next).frames = s.frames := by
  funext who
  by_cases is : who = member
  · simp [Server.frames, Server.setPeer, is, new, empty]
  · simp [Server.frames, Server.setPeer, is]

theorem frames_held (held : s.draining p = some (frame, checked)) :
    s.frames p = frame :: ({ s with draining := Function.update s.draining p none }).frames p := by
  simp [Server.frames, held]

theorem takeOutboundFrame_frames {peer next : Peer}
    (h : peer.takeOutboundFrame written = (next, some frame)) :
    peer.outboundFrames = frame :: next.outboundFrames := by
  unfold Peer.takeOutboundFrame at h
  split at h
  · cases h
  · rename_i queued
    cases h
    exact queued

theorem frames_take {peer next : Peer} (known : s.peers member = some peer)
    (idle : s.draining member = none) (taken : peer.takeOutboundFrame written = (next, some frame)) :
    ({ s.setPeer member next with
        draining := Function.update s.draining member (some (frame, false)) } : Server).frames =
      s.frames := by
  have queue := takeOutboundFrame_frames taken
  funext p
  by_cases is : p = member
  · simp [Server.frames, Server.setPeer, is, known, idle, queue]
  · simp [Server.frames, Server.setPeer, is]

theorem frames_check (held : s.draining member = some (frame, checked)) :
    ({ s with draining := Function.update s.draining member (some (frame, true)) } : Server).frames =
      s.frames := by
  funext p
  by_cases is : p = member
  · simp [Server.frames, is, held]
  · simp [Server.frames, is]

theorem detachIfCurrent_frames {peer next : Peer}
    (h : peer.detachIfCurrent socket = (next, detached)) : next.outboundFrames = peer.outboundFrames := by
  unfold Peer.detachIfCurrent at h
  split at h <;> cases h <;> rfl

end Post

/-- Frames enter a queue at its end and leave it at its front. -/
inductive QueueChange (p : PeerId) : Label → List OutboundFrame → List OutboundFrame → Prop where
  | same : QueueChange p l frames frames
  | entered : QueueChange p (.post p f) frames (frames ++ [f])
  | left : QueueChange p l (f :: frames) frames

section Steps
variable {s t : Server} {p : PeerId}

theorem QueueChange.of_eq (same : before = after) : QueueChange p l before after := same ▸ .same

theorem queueChange_post {u : Server} (same : u.frames = s.frames) :
    QueueChange p (.post member f) (s.frames p) ((u.post written member f).frames p) := by
  rw [frames_post, same]
  split
  · rename_i accepted
    rw [accepted.1]
    exact .entered
  · rw [List.append_nil]
    exact .same

theorem queueChange_drop (held : s.draining member = some (f, checked)) :
    QueueChange p l (s.frames p)
      (({ s with draining := Function.update s.draining member none } : Server).frames p) := by
  by_cases is : p = member
  · subst is
    rw [frames_held held]
    exact .left
  · exact .of_eq (by simp [Server.frames, is])

theorem frames_step (step : Step config written s l t) (p : PeerId) :
    QueueChange p l (s.frames p) (t.frames p) := by
  cases step with
  | publish | welcome | goodbye | members | skip | capture | finish | welcomed | register | resume
  | refuse | advance | beginSend | apiError | unlease | expire | remove => exact .same
  | push => exact queueChange_post rfl
  | answer => exact queueChange_post rfl
  | endSend => exact queueChange_post rfl
  | join _ _ new => exact .of_eq (congrFun (frames_setPeer_new new rfl) p).symm
  | bind _ _ known =>
    refine .of_eq (.trans ?_ (congrFun (frames_invalidate _) p).symm)
    rw [frames_setPeer known]
    rfl
  | take known idle taken => exact .of_eq (congrFun (frames_take known idle taken) p).symm
  | check known held => exact .of_eq (congrFun (frames_check held) p).symm
  | drop known held => exact queueChange_drop held
  | write held => exact queueChange_drop held
  | detach _ _ known detached =>
    exact .of_eq (congrFun (frames_setPeer known (detachIfCurrent_frames detached)) p).symm

/-- The binding was read in this state. -/
def Captured (s : Server) (p : PeerId) (U : Socket) (g : Nat) : Prop :=
  ∃ peer, s.peers p = some peer ∧ peer.capture = some (U, g)

theorem outstanding_post (step : Step config written s (.post p f) t) :
    Outstanding s p f.socket f.generation := by
  cases step with
  | push is => exact .fanout is
  | answer is _ bound _ => exact .ready is bound
  | endSend is => exact .send (by simp [is])

/-- The frame a fan-out holds was captured by the step or was held before. -/
theorem fanout_step (step : Step config written s l t)
    (is : t.publishing = some ⟨event, excluded, .captured p U g rest⟩) :
    s.publishing = some ⟨event, excluded, .captured p U g rest⟩ ∨ Captured s p U g := by
  cases step with
  | publish | welcome | goodbye | members | skip | finish | welcomed => simp [Server.setHello] at is
  | capture _ _ known captured =>
    simp only [Option.some.injEq, Publish.mk.injEq, Fanout.captured.injEq] at is
    obtain ⟨_, _, rfl, rfl, rfl, _⟩ := is
    exact .inr ⟨_, known, captured⟩
  | push | answer | endSend =>
    simp only [Server.setHello, post_fields] at is
    first | cases is | exact .inl is
  | bind =>
    simp only [Server.setHello, invalidate_fields] at is
    exact .inl is
  | join | register | resume | refuse | advance | beginSend | take | check | drop | write
  | apiError | detach | unlease | expire | remove => exact .inl is

theorem send_step (step : Step config written s l t) (is : send ∈ t.sends) :
    send ∈ s.sends ∨ Captured s send.peer send.frame.socket send.frame.generation := by
  cases step with
  | push | answer =>
    simp only [Server.setHello, post_fields] at is
    exact .inl is
  | endSend found =>
    simp only [post_fields, List.mem_append] at is
    rw [found, List.mem_append, List.mem_cons]
    exact .inl (is.imp_right .inr)
  | beginSend known captured =>
    rw [List.mem_cons] at is
    rcases is with rfl | old
    · exact .inr ⟨_, known, captured⟩
    · exact .inl old
  | bind =>
    simp only [Server.setHello, invalidate_fields] at is
    exact .inl is
  | publish | welcome | goodbye | members | skip | capture | finish | welcomed | join | register
  | resume | refuse | advance | take | check | drop | write | apiError | detach
  | unlease | expire | remove => exact .inl is

/-- The moves of a handler that change nothing but its phase. -/
inductive Phase.Moves : Phase → Phase → Prop where
  | register : Moves .joined .registered
  | welcome : Moves .registered .welcoming
  | welcomed : Moves .welcoming .bound
  | bind : Moves .resuming .bound
  | answer : Moves .captured .answered
  | detach : Moves .answered .detaching
  | unlease : Moves .detaching .closed

theorem Phase.Moves.hasCopied {before after : Phase} (moves : before.Moves after) :
    before.hasCopied = after.hasCopied := by
  cases moves <;> rfl

theorem Phase.Moves.started {before after : Phase} (moves : before.Moves after) :
    after ≠ .resuming := by
  cases moves <;> simp

theorem Phase.Moves.binds {before after : Phase} (moves : before.Moves after)
    (binds : after.binds = true) (started : before ≠ .resuming) : before.binds = true := by
  cases moves <;> simp_all [Phase.binds]

theorem Phase.Moves.answered {before after : Phase} (moves : before.Moves after)
    (binds : after.binds = true) : before ≠ .answered := by
  rintro rfl
  cases moves
  simp [Phase.binds] at binds

theorem Phase.Moves.from_captured {before : Phase} (moves : before.Moves .answered) :
    before = .captured := by
  cases moves
  rfl

/-- How a hello is admitted. -/
inductive Admitted (s : Server) (l : Label) (T : Socket) (h : Hello) : Prop where
  | fresh : l = .fresh T h.token h.cursor → h.resumed = false → 0 < h.peer → Admitted s l T h
  | resumed : l = .resume T h.token h.cursor → h.resumed = true → (s.leases h.peer).isSome →
      Admitted s l T h

/-- How a handler got where it is: it was there, it moved on, it read the room
or its peer, or it has just started. -/
inductive HandlerChange (s : Server) (l : Label) (T : Socket) (h : Hello) : Prop where
  | same : s.handler T = .running h → HandlerChange s l T h
  | moved {k : Hello} {phase : Phase} : s.handler T = .running k → k.phase.Moves phase →
      h = { k with phase } →
      (phase = .answered → ∃ target g nickname, k.binding = some (target, g) ∧
        l = .post k.peer ⟨target, g, k.ready nickname⟩) → HandlerChange s l T h
  | advanced {k : Hello} {members : List PeerId} : s.handler T = .running k →
      s.advance members k = some h → members.Perm s.room.peerById → HandlerChange s l T h
  | started : s.handler T = .pending → h.phase = .joined ∨ h.phase = .resuming →
      h.binding = none → h.latest = 0 → validBase64UrlId h.token 32 = true → Admitted s l T h →
      HandlerChange s l T h

theorem handler_step (step : Step config written s l t) (is : t.handler T = .running h) :
    HandlerChange s l T h := by
  -- the step sets one handler, which is either `T` or another
  have set : ∀ {socket : Socket} {next : Hello},
      Function.update s.handler socket (.running next) T = .running h →
      (socket = T → HandlerChange s l T next) → HandlerChange s l T h := by
    intro socket next after change
    rw [Function.update_apply] at after
    split at after
    · rename_i here
      cases after
      exact change here.symm
    · exact .same after
  have move : ∀ {socket : Socket} {k : Hello} {phase before : Phase},
      s.handler socket = .running k → k.phase = before → before.Moves phase → phase ≠ .answered →
      socket = T → HandlerChange s l T { k with phase } := by
    intro socket k phase before found was moves other here
    exact .moved (here ▸ found) (was ▸ moves) rfl fun answered => absurd answered other
  cases step with
  | publish | goodbye | members | skip | capture | finish | beginSend | take | check | drop | write
  | apiError | expire | remove => exact .same is
  | push | endSend =>
    simp only [post_fields] at is
    exact .same is
  | welcome _ before phase => exact set is (move before phase .welcome (by simp))
  | welcomed _ before phase => exact set is (move before phase .welcomed (by simp))
  | register before phase => exact set is (move before phase .register (by simp))
  | detach before phase => exact set is (move before phase .detach (by simp))
  | unlease before phase => exact set is (move before phase .unlease (by simp))
  | bind before phase =>
    simp only [Server.setHello, invalidate_fields] at is
    exact set is (move before phase .bind (by simp))
  | answer before phase bound known =>
    simp only [Server.setHello, post_fields] at is
    exact set is fun here =>
      .moved (here ▸ before) (phase ▸ .answer) rfl fun _ => ⟨_, _, _, bound, rfl⟩
  | join pending valid _ positive =>
    refine set is ?_
    rintro rfl
    exact .started pending (.inl rfl) rfl rfl valid (.fresh rfl rfl positive)
  | resume pending valid found =>
    refine set is ?_
    rintro rfl
    exact .started pending (.inr rfl) rfl rfl valid (.resumed rfl rfl (by simp [found]))
  | advance before order next => exact set is fun here => .advanced (here ▸ before) next order
  | refuse pending =>
    simp only [Server.write, Function.update_apply] at is
    split at is
    · cases is
    · exact .same is

/-- A handler's READY is captured by its own step. -/
theorem binding_step (step : Step config written s l t) (is : t.handler T = .running h)
    (bound : h.binding = some (U, g)) :
    (∃ k, s.handler T = .running k ∧ k.peer = h.peer ∧ k.binding = some (U, g)) ∨
      Captured s h.peer U g := by
  cases handler_step step is with
  | same before => exact .inl ⟨_, before, rfl, bound⟩
  | moved before _ same =>
    rw [same] at bound ⊢
    exact .inl ⟨_, before, rfl, bound⟩
  | started _ _ unbound _ => simp [unbound] at bound
  | advanced before next =>
    unfold Server.advance at next
    split at next
    case h_1 | h_2 | h_3 =>
      cases next
      exact .inl ⟨_, before, rfl, bound⟩
    case h_4 =>
      rw [Option.map_eq_some_iff] at next
      obtain ⟨peer, known, rfl⟩ := next
      exact .inr ⟨peer, known, bound⟩
    case h_5 => contradiction

/-- Every binding in flight was in flight before or has just been read. -/
theorem outstanding_step (step : Step config written s l t) (out : Outstanding t p U g) :
    Outstanding s p U g ∨ Captured s p U g := by
  cases out with
  | frame member =>
    have change := frames_step step p
    generalize before : s.frames p = frames, t.frames p = after at change member
    cases change with
    | same => exact .inl (.frame (before ▸ member))
    | entered =>
      rw [List.mem_append, List.mem_singleton] at member
      rcases member with old | rfl
      · exact .inl (.frame (before ▸ old))
      · exact .inl (outstanding_post step)
    | left => exact .inl (.frame (before ▸ .tail _ member))
  | fanout is => exact (fanout_step step is).imp_left .fanout
  | send member => exact (send_step step member).imp_left .send
  | ready is bound =>
    rcases binding_step step is bound with ⟨k, before, same, bound⟩ | captured
    · exact .inl (same ▸ .ready before bound)
    · exact .inr captured

theorem captured_issued (valid : Discipline s.control) (captured : Captured s p U g) :
    s.control.Issued p U g := by
  obtain ⟨peer, known, bound⟩ := captured
  unfold Peer.capture at bound
  rw [Option.map_eq_some_iff] at bound
  obtain ⟨socket, current, same⟩ := bound
  cases same
  obtain ⟨h, is, peer_eq, binds⟩ := valid.bound (p := p) (T := U)
    (by simp [Server.control, Server.transport, known, current])
  refine ⟨h, is, peer_eq, ?_, fun _ => by simp [Server.control, Server.generation, known]⟩
  intro resuming
  simp [resuming, Phase.binds] at binds

/-- Every binding in flight is of a transport its peer has or had. -/
theorem issued (reached : (server config written).Reachable s) (out : Outstanding s p U g) :
    s.control.Issued p U g := by
  induction reached generalizing p U g with
  | start initial =>
    obtain ⟨name, rfl⟩ := initial
    cases out with
    | frame member => simp [Server.frames] at member
    | fanout is => cases is
    | send member => cases member
    | ready is => cases is
  | next before step ih =>
    have valid := disciplined before
    have control := control_step valid step
    rcases outstanding_step step out with old | captured
    · exact (ih old).step control
    · exact (captured_issued valid captured).step control

/-- The same for the handler of a known transport. -/
theorem owner (reached : (server config written).Reachable s) (out : Outstanding s p U g)
    (is : s.handler U = .running h) :
    h.peer = p ∧ (s.transport p = some (some U) → s.generation p = g) := by
  obtain ⟨k, same, owner, _, current⟩ := issued reached out
  cases is.symm.trans same
  exact ⟨owner, current⟩

/-- What a step writes to a socket. -/
inductive WireChange (s : Server) (l : Label) (t : Server) (T : Socket) : Prop where
  | same : t.wire T = s.wire T → WireChange s l t T
  | written {f : OutboundFrame} {member : PeerId} : f.socket = T →
      s.frames member = f :: t.frames member → (∀ q, q ≠ member → t.frames q = s.frames q) →
      t.wire T = s.wire T ++ [f.payload] → WireChange s l t T
  | error {m : MessageDto} {h : Hello} : l = .apiError T m → m.code = some .apiError →
      s.handler T = .running h → h.phase.binds = true → t.wire T = s.wire T ++ [m] →
      WireChange s l t T
  | refused : l = .refuse T → s.handler T = .pending → t.handler T = .refused →
      t.wire T = s.wire T ++ [sessionUnavailable] → WireChange s l t T

theorem wire_step (step : Step config written s l t) (T : Socket) : WireChange s l t T := by
  cases step with
  | publish | welcome | goodbye | members | skip | capture | finish | welcomed | join | register
  | resume | advance | beginSend | take | check | drop | detach | unlease | expire
  | remove => exact .same rfl
  | push | endSend | answer => exact .same (by simp only [Server.setHello, post_fields])
  | bind => exact .same (by simp only [Server.setHello, invalidate_fields]; rfl)
  | write held =>
    rename_i frame _ member
    by_cases here : T = frame.socket
    · refine .written here.symm (frames_held held) ?_ (by simp [Server.write, here])
      intro q other
      simp [Server.frames, Server.write, other]
    · exact .same (by simp [Server.write, here])
  | apiError is binds code =>
    rename_i socket _ _
    by_cases here : T = socket
    · subst here
      exact .error rfl code is binds (by simp [Server.write])
    · exact .same (by simp [Server.write, here])
  | refuse pending =>
    rename_i socket
    by_cases here : T = socket
    · subst here
      exact .refused rfl pending (by simp [Server.write]) (by simp [Server.write])
    · exact .same (by simp [Server.write, here])

/-- A handler that starts was pending. -/
theorem pending_step (step : Step config written s l t) (pending : t.handler T = .pending) :
    s.handler T = .pending := by
  have set : ∀ {socket : Socket} {next : Handler}, next ≠ .pending →
      Function.update s.handler socket next T = .pending → s.handler T = .pending := by
    intro socket next started after
    rw [Function.update_apply] at after
    split at after
    · exact absurd after started
    · exact after
  cases step with
  | publish | goodbye | members | skip | capture | finish | beginSend | take | check | drop | write
  | apiError | expire | remove => exact pending
  | push | endSend =>
    simp only [post_fields] at pending
    exact pending
  | welcome | welcomed | register | detach | unlease | join | resume | advance | refuse =>
    exact set (by simp) pending
  | bind =>
    simp only [Server.setHello, invalidate_fields] at pending
    exact set (by simp) pending
  | answer =>
    simp only [Server.setHello, post_fields] at pending
    exact set (by simp) pending

/-- Nothing was written to a socket that was never bound. -/
theorem silent (reached : (server config written).Reachable s)
    (unbound : s.handler T = .pending ∨ ∃ h, s.handler T = .running h ∧ h.phase = .resuming) :
    s.wire T = [] := by
  induction reached with
  | start initial =>
    obtain ⟨name, rfl⟩ := initial
    rfl
  | @next s l t before step ih =>
    have earlier : s.handler T = .pending ∨ ∃ h, s.handler T = .running h ∧ h.phase = .resuming := by
      rcases unbound with pending | ⟨h, is, resuming⟩
      · exact .inl (pending_step step pending)
      · cases handler_step step is with
        | same k => exact .inr ⟨_, k, resuming⟩
        | @moved _ phase k moves same =>
          have resumed : phase = .resuming := by rw [same] at resuming; exact resuming
          exact absurd resumed moves.started
        | advanced k next =>
          have := (advance_continues next).2.2
          simp [resuming, Phase.binds] at this
        | started pending => exact .inl pending
    have empty := ih earlier
    -- every writer is past the binding of its socket
    have writer : ∀ {h : Hello}, s.handler T = .running h → h.phase ≠ .resuming → False := by
      intro h is started
      rcases earlier with pending | ⟨k, resuming, phase⟩
      · rw [pending] at is
        cases is
      · rw [resuming] at is
        cases is
        exact started phase
    cases wire_step step T with
    | same same => rw [same, empty]
    | @written f member here frames =>
      have held : f ∈ s.frames member := by simp [frames]
      obtain ⟨h, is, _, started, _⟩ := issued before (.frame held)
      exact (writer (here ▸ is) started).elim
    | error _ _ is binds =>
      refine (writer is ?_).elim
      rintro resuming
      simp [resuming, Phase.binds] at binds
    | refused _ _ refused =>
      rcases unbound with pending | ⟨h, is, _⟩
      · simp [refused] at pending
      · simp [refused] at is

end Steps
end Conspire.Replay
