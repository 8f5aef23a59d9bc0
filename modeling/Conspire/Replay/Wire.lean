import Conspire.Replay.Resume

/-! What has left the server for a socket: the frames written to it and the one
whose binding the drain coroutine has checked. It is a front part of the stream
of the transport and stays so after the transport has been detached. -/
namespace Conspire.Replay
open Session Transition Sequence

/-- What a drain coroutine will write without another check. -/
def Server.checked (s : Server) (member : PeerId) (socket : Socket) : List MessageDto :=
  match s.draining member with
  | some (frame, true) => if frame.socket = socket then [frame.payload] else []
  | _ => []

def Server.outgoing (s : Server) (member : PeerId) (socket : Socket) : List MessageDto :=
  s.wire socket ++ s.checked member socket

/-- What the server puts into a queue. -/
def Queued (message : MessageDto) : Prop :=
  (durableSeq message).isSome ∨ message.code = some .sessionReady ∨ transient message.code = true

structure Carried (s : Server) (T : Socket) (h : Hello) : Prop where
  covers : ∃ u ≤ s.log.length, Covers (s.floor h) u (seqs (s.outgoing h.peer T))
  logged : ∀ {m n}, m ∈ s.outgoing h.peer T → durableSeq m = some n → m ∈ s.log
  ready : ∀ {m}, m ∈ s.outgoing h.peer T → m.code = some .sessionReady →
    h.phase.hasCopied = true ∧ ∃ nickname, m = h.ready nickname
  once : ((s.outgoing h.peer T).filter isReady).length ≤ 1

section Steps
variable {config : ConfigDto} {written : MessageDto → Nat} {s t : Server} {p : PeerId} {T : Socket}

theorem post_queued (earlier : Delivery config s) (step : Step config written s (.post p f) t) :
    Queued f.payload := by
  cases step with
  | push found => exact .inl (by simp [(earlier.published.event found).1])
  | answer => exact .inr (.inl rfl)
  | endSend found => exact .inr (.inr (earlier.waiting _ (by simp [found])))

theorem frames_queued (reached : (server config written).Reachable s) :
    ∀ p, ∀ f ∈ s.frames p, Queued f.payload := by
  refine reached.invariant (P := fun s => ∀ p, ∀ f ∈ s.frames p, Queued f.payload) ?_ ?_
  · rintro s ⟨name, rfl⟩
    simp [Server.frames]
  · intro s l t reached frames step p f member
    have change := frames_step step p
    generalize before : s.frames p = queue, t.frames p = after at change member
    cases change with
    | same => exact frames p f (before ▸ member)
    | entered =>
      rw [List.mem_append, List.mem_singleton] at member
      rcases member with old | rfl
      · exact frames p f (before ▸ old)
      · exact post_queued (delivery reached) step
    | left => exact frames p f (before ▸ .tail _ member)

/-- A wire only grows, by a queued message or by an API error. -/
theorem wire_grows (reached : (server config written).Reachable s)
    (step : Step config written s l t) (T : Socket) :
    t.wire T = s.wire T ∨ ∃ m, t.wire T = s.wire T ++ [m] ∧
      (Queued m ∨ m.code = some .apiError ∧ (l = .apiError T m ∨ l = .refuse T)) := by
  cases wire_step step T with
  | same same => exact .inl same
  | @written f who _ held _ grown =>
    exact .inr ⟨_, grown, .inl (frames_queued reached who f (by simp [held]))⟩
  | error label code _ _ grown => exact .inr ⟨_, grown, .inr ⟨code, .inl label⟩⟩
  | refused label _ _ grown => exact .inr ⟨_, grown, .inr ⟨rfl, .inr label⟩⟩

theorem wire_sendable (reached : (server config written).Reachable s) (member : m ∈ s.wire T) :
    Queued m ∨ m.code = some .apiError := by
  induction reached with
  | start initial =>
    obtain ⟨name, rfl⟩ := initial
    cases member
  | next before step ih =>
    rcases wire_grows before step T with same | ⟨last, grown, kind⟩
    · exact ih (same ▸ member)
    · rw [grown, List.mem_append, List.mem_singleton] at member
      rcases member with old | rfl
      · exact ih old
      · exact kind.imp_right And.left

/-- What has left the server is the front of the stream. -/
theorem stream_outgoing (s : Server) (p : PeerId) (T : Socket) :
    ∃ rest, s.stream p T = s.outgoing p T ++ rest := by
  have front : ∃ rest, s.unsent p T = s.checked p T ++ rest := by
    unfold Server.unsent Server.frames Server.checked
    rcases s.draining p with _ | ⟨frame, checked⟩
    · exact ⟨_, (List.nil_append _).symm⟩
    · cases checked with
      | false => exact ⟨_, (List.nil_append _).symm⟩
      | true =>
        by_cases here : frame.socket = T
        · exact ⟨_, by simp [here]; rfl⟩
        · exact ⟨_, by simp [here]; rfl⟩
  obtain ⟨rest, front⟩ := front
  exact ⟨rest, by rw [Server.stream, Server.outgoing, front, List.append_assoc]⟩

theorem carried_bound (reached : (server config written).Reachable s) (is : s.handler T = .running h)
    (binds : h.phase.binds = true) (valid : s.invalidated T = false) : Carried s T h := by
  have invariant := delivery reached
  obtain ⟨rest, stream⟩ := stream_outgoing s h.peer T
  have covers := invariant.served.covers is binds valid
  obtain ⟨nickname, readies⟩ := invariant.answered is binds valid
  have filtered : (s.feed h.peer T).filter isReady = (s.stream h.peer T).filter isReady := by
    rw [Server.feed, List.filter_filter]
    congr 1
    funext m
    by_cases ready : m.code = some .sessionReady <;> simp [isReady, notable, ready]
  constructor
  · rw [Server.feed, seqs_filter_notable, stream, seqs_append] at covers
    obtain ⟨u, le, covers⟩ := covers.front
    exact ⟨u, Nat.le_trans le (delivered_le ..), covers⟩
  · intro m n member durable
    refine invariant.logged is binds valid (m := m) ?_ durable
    rw [Server.feed, stream, List.mem_filter, List.mem_append]
    exact ⟨.inl member, by simp [notable, (durableSeq_eq_some durable).1]⟩
  · intro m member ready
    have sent : m ∈ s.stream h.peer T := by rw [stream]; exact List.mem_append_left _ member
    obtain ⟨phase, nickname, rfl⟩ := ready_answered reached is binds valid sent ready
    exact ⟨by simp [phase, Phase.hasCopied], nickname, rfl⟩
  · rw [filtered, stream, List.filter_append] at readies
    have total := congrArg List.length readies
    rw [List.length_append] at total
    split at total <;> simp only [List.length_nil, List.length_singleton] at total <;> omega

/-- A refused socket gets one message. -/
theorem refused_step (step : Step config written s l t) (is : t.handler T = .refused) :
    s.handler T = .refused ∨ l = .refuse T ∧ s.handler T = .pending := by
  have set : ∀ {socket : Socket} {next : Hello},
      Function.update s.handler socket (.running next) T = .refused → s.handler T = .refused := by
    intro socket next after
    rw [Function.update_apply] at after
    split at after
    · cases after
    · exact after
  cases step with
  | publish | goodbye | members | skip | capture | finish | beginSend | take | check | drop | write
  | apiError | expire | remove => exact .inl is
  | push | endSend =>
    simp only [post_fields] at is
    exact .inl is
  | welcome | welcomed | register | detach | unlease | join | resume | advance => exact .inl (set is)
  | bind =>
    simp only [Server.setHello, invalidate_fields] at is
    exact .inl (set is)
  | answer =>
    simp only [Server.setHello, post_fields] at is
    exact .inl (set is)
  | refuse pending =>
    simp only [Server.write, Function.update_apply] at is
    split at is
    · rename_i here
      exact .inr ⟨by rw [here], here ▸ pending⟩
    · exact .inl is

theorem refused_wire (reached : (server config written).Reachable s) (is : s.handler T = .refused) :
    s.wire T = [sessionUnavailable] := by
  induction reached with
  | start initial =>
    obtain ⟨name, rfl⟩ := initial
    cases is
  | @next s l t before step ih =>
    cases wire_step step T with
    | same same =>
      rcases refused_step step is with earlier | ⟨rfl, pending⟩
      · rw [same, ih earlier]
      · cases step with
        | refuse => simp [Server.write, silent before (.inl pending)]
    | @written f who here held =>
      obtain ⟨k, running, _⟩ := issued before (.frame (f := f) (p := who) (by simp [held]))
      subst here
      rcases refused_step step is with earlier | ⟨_, pending⟩
      · cases running.symm.trans earlier
      · cases running.symm.trans pending
    | error label _ running =>
      rcases refused_step step is with earlier | ⟨_, pending⟩
      · cases running.symm.trans earlier
      · cases running.symm.trans pending
    | refused _ pending _ grown => rw [grown, silent before (.inl pending), List.nil_append]

/-- A running hello keeps what it was admitted with. -/
theorem hello_step (step : Step config written s l t) (is : t.handler T = .running h) :
    (∃ k, s.handler T = .running k ∧ k.peer = h.peer ∧ k.token = h.token ∧ k.cursor = h.cursor ∧
        k.resumed = h.resumed ∧
        (k.phase.hasCopied = true → h.phase.hasCopied = true ∧ h.upTo = k.upTo)) ∨
      s.handler T = .pending ∧ validBase64UrlId h.token 32 = true ∧ Admitted s l T h := by
  cases handler_step step is with
  | same was => exact .inl ⟨h, was, rfl, rfl, rfl, rfl, fun copied => ⟨copied, rfl⟩⟩
  | moved was moves same =>
    rw [same]
    exact .inl ⟨_, was, rfl, rfl, rfl, rfl, fun copied => ⟨moves.hasCopied ▸ copied, rfl⟩⟩
  | started pending _ _ _ valid admitted => exact .inr ⟨pending, valid, admitted⟩
  | advanced was next =>
    unfold Server.advance at next
    split at next
    case h_1 phase | h_2 phase | h_3 phase =>
      cases next
      exact .inl ⟨_, was, rfl, rfl, rfl, rfl, fun copied => by simp [phase, Phase.hasCopied] at copied⟩
    case h_4 =>
      rw [Option.map_eq_some_iff] at next
      obtain ⟨_, _, rfl⟩ := next
      exact .inl ⟨_, was, rfl, rfl, rfl, rfl, fun _ => ⟨rfl, rfl⟩⟩
    case h_5 => contradiction

/-- A handler that runs goes on running. -/
theorem running_step (step : Step config written s l t) (is : s.handler T = .running k) :
    ∃ h, t.handler T = .running h := by
  cases after : t.handler T with
  | running h => exact ⟨h, rfl⟩
  | pending => cases (pending_step step after).symm.trans is
  | refused =>
    rcases refused_step step after with earlier | ⟨_, pending⟩
    · cases earlier.symm.trans is
    · cases pending.symm.trans is

theorem post_leases (u : Server) (f : OutboundFrame) : (u.post written p f).leases = u.leases := by
  unfold Server.post Server.setPeer Server.invalidate
  split
  · rfl
  · split
    · rfl
    · dsimp only
      split <;> rfl

theorem invalidate_leases (u : Server) (socket : Option Socket) :
    (u.invalidate socket).leases = u.leases := by
  cases socket <;> rfl

theorem lease_step (step : Step config written s l t) (is : (t.leases p).isSome) :
    (s.leases p).isSome ∨ ∃ T h, s.handler T = .running h ∧ h.peer = p := by
  have set : ∀ {member lease}, (Function.update s.leases member lease p).isSome →
      (p = member → (s.leases p).isSome ∨ ∃ T h, s.handler T = .running h ∧ h.peer = p) →
      (s.leases p).isSome ∨ ∃ T h, s.handler T = .running h ∧ h.peer = p := by
    intro member lease after own
    rw [Function.update_apply] at after
    split at after
    · rename_i here
      exact own here
    · exact .inl after
  cases step with
  | publish | welcome | goodbye | members | skip | capture | finish | welcomed | join | refuse
  | advance | beginSend | take | check | drop | write | apiError | detach | remove => exact .inl is
  | push | endSend =>
    rw [post_leases] at is
    exact .inl is
  | answer =>
    simp only [Server.setHello, post_leases] at is
    exact .inl is
  | bind =>
    simp only [Server.setHello, invalidate_leases] at is
    exact .inl is
  | register running => exact set is fun here => .inr ⟨_, _, running, here.symm⟩
  | unlease running => exact set is fun here => .inr ⟨_, _, running, here.symm⟩
  | resume _ _ found => exact set is fun here => .inl (by simp [here, found])
  | expire found => exact set is fun here => .inl (by simp [here, found])

/-- Sessions have a token and a peer that is not the browser's `undefined`. -/
theorem genuine (reached : (server config written).Reachable s) :
    (∀ {T h}, s.handler T = .running h → h.token ≠ [] ∧ 0 < h.peer) ∧
      ∀ {p}, (s.leases p).isSome → 0 < p := by
  refine reached.invariant (P := fun s =>
    (∀ {T h}, s.handler T = .running h → h.token ≠ [] ∧ 0 < h.peer) ∧
      ∀ {p}, (s.leases p).isSome → 0 < p) ?_ ?_
  · rintro s ⟨name, rfl⟩
    simp
  · rintro s l t _ ⟨handlers, leases⟩ step
    constructor
    · intro T h is
      rcases hello_step step is with ⟨k, was, peer, token, _⟩ | ⟨_, valid, admitted⟩
      · exact peer ▸ token ▸ handlers was
      · have filled : h.token ≠ [] := by
          rintro empty
          simp [empty, validBase64UrlId] at valid
        cases admitted with
        | fresh _ _ positive => exact ⟨filled, positive⟩
        | resumed _ _ leased => exact ⟨filled, leases leased⟩
    · intro p is
      rcases lease_step step is with was | ⟨T, h, running, rfl⟩
      · exact leases was
      · exact (handlers running).2

/-- Without an overflow no transport is invalidated: a session is resumed after
its transport has been detached. -/
theorem valid_step (reached : (server config written).Reachable s)
    (step : Step config written s l t)
    (smooth : ∀ p f, l = .post p f → s.overflows written p f = false)
    (valid : ∀ T, s.invalidated T = false) : ∀ T, t.invalidated T = false := by
  have posted : ∀ {u : Server} {p f}, l = .post p f → u.peers = s.peers →
      u.invalidated = s.invalidated → (u.post written p f).invalidated = s.invalidated := by
    intro u p f label peers same
    have fits := smooth p f label
    unfold Server.overflows at fits
    unfold Server.post
    rw [peers]
    split
    · exact same
    · rename_i peer known
      rw [known] at fits
      obtain ⟨next, pushed⟩ := Option.isSome_iff_exists.mp (by simpa using fits)
      simp only [pushed]
      exact same
  cases step with
  | publish | welcome | goodbye | members | skip | capture | finish | welcomed | join | register
  | resume | refuse | advance | beginSend | take | check | drop | write | apiError | detach
  | unlease | expire | remove => exact valid
  | push | endSend =>
    intro T
    refine (congrFun (posted rfl ?peers ?same) T).trans (valid T)
    case peers | same => rfl
  | answer => exact fun T => (congrFun (posted rfl rfl rfl) T).trans (valid T)
  | bind running phase known =>
    have live := ((disciplined reached).live running (by simp [phase])).1
    simp only [phase, Phase.binds, Bool.false_eq_true, if_false] at live
    rename_i peer _ _ _
    have unbound : peer.socket = none := by
      simpa [Server.control, Server.transport, known] using live
    simpa [Peer.replaceSocket, unbound, Server.invalidate, Server.setHello, Server.setPeer] using valid

/-- After its detachment nothing more is let through to a socket. -/
theorem outgoing_step (reached : (server config written).Reachable s)
    (step : Step config written s l t) (is : t.handler T = .running h)
    (before : s.handler T = .running k) (unbound : h.phase.binds = false) :
    t.outgoing h.peer T = s.outgoing h.peer T := by
  have quiet : t.wire T = s.wire T → t.draining h.peer = s.draining h.peer →
      t.outgoing h.peer T = s.outgoing h.peer T := by
    intro wire draining
    simp only [Server.outgoing, Server.checked, wire, draining]
  have released : ∀ {member held}, t.wire T = s.wire T →
      t.draining = Function.update s.draining member held →
      (∀ f, held = some (f, true) → f.socket ≠ T) →
      (∀ f, s.draining member = some (f, true) → f.socket ≠ T) →
      t.outgoing h.peer T = s.outgoing h.peer T := by
    intro member held wire draining after before
    by_cases own : h.peer = member
    · have unchecked : s.checked h.peer T = [] := by
        unfold Server.checked
        split
        · rename_i frame held
          rw [if_neg (before frame (own ▸ held))]
        · rfl
      have none' : t.checked h.peer T = [] := by
        unfold Server.checked
        split
        · rename_i frame now
          rw [draining, own, Function.update_self] at now
          rw [if_neg (after frame now)]
        · rfl
      simp only [Server.outgoing, unchecked, none', wire]
    · exact quiet wire (by rw [draining, Function.update_of_ne own])
  cases step with
  | publish | welcome | goodbye | members | skip | capture | finish | welcomed | join | register
  | resume | advance | beginSend | detach | unlease | expire | remove => exact quiet rfl rfl
  | push | endSend | answer =>
    exact quiet (by simp only [Server.setHello, post_fields])
      (by simp only [Server.setHello, post_fields])
  | bind =>
    refine quiet (by simp only [Server.setHello, invalidate_fields]; rfl) ?_
    simp only [Server.setHello, Server.invalidate]
    split <;> rfl
  | take known idle => exact released rfl rfl (by simp) (by simp [idle])
  | check known held current =>
    rename_i peer frame member
    refine released rfl rfl ?_ (by simp [held])
    rintro f here rfl
    cases here
    -- a frame that passes the check is for the bound transport
    simp only [Peer.isCurrentBinding, Bool.and_eq_true, decide_eq_true_eq] at current
    obtain ⟨w, found, _, binds⟩ := (disciplined reached).bound (p := member) (T := frame.socket)
      (by simp [Server.control, Server.transport, known, ← current.1])
    cases found.symm.trans is
    rw [unbound] at binds
    cases binds
  | drop known held => exact released rfl rfl (by simp) (by simp [held])
  | write held =>
    rename_i frame _ member
    by_cases here : frame.socket = T
    · subst here
      have frames := frames_held (p := member) held
      obtain ⟨own, _⟩ := owner reached (.frame (f := frame) (p := member) (by simp [frames])) is
      simp [Server.outgoing, Server.checked, Server.write, own, held]
    · exact released (by simp [Server.write, Ne.symm here]) rfl (by simp)
        (by simp only [held]; rintro f same; cases same; exact here)
  | apiError found binds code =>
    rename_i socket _ _
    have other : T ≠ socket := by
      rintro rfl
      cases found.symm.trans is
      rw [unbound] at binds
      cases binds
    exact quiet (by simp [Server.write, other]) rfl
  | refuse pending =>
    rename_i socket
    have other : T ≠ socket := by
      rintro rfl
      cases pending.symm.trans before
    exact quiet (by simp [Server.write, other]) rfl

theorem Phase.Moves.unbound {before after : Phase} (moves : before.Moves after)
    (unbound : after.binds = false) : before ≠ .resuming ∧ before.hasCopied = true := by
  cases moves <;> simp_all [Phase.binds, Phase.hasCopied]

/-- A handler without a transport had one, and keeps its locals. -/
theorem unbound_step (step : Step config written s l t) (is : t.handler T = .running h)
    (started : h.phase ≠ .resuming) (unbound : h.phase.binds = false) :
    ∃ k, s.handler T = .running k ∧ h = { k with phase := h.phase } ∧
      k.phase ≠ .resuming ∧ k.phase.hasCopied = true ∧ h.phase.hasCopied = true := by
  have copied : h.phase.hasCopied = true := by
    revert started unbound
    cases h.phase <;> simp [Phase.binds, Phase.hasCopied]
  cases handler_step step is with
  | same was => exact ⟨h, was, rfl, started, copied, copied⟩
  | moved was moves same =>
    rw [same] at unbound copied
    obtain ⟨started, copied'⟩ := moves.unbound unbound
    exact ⟨_, was, by rw [same], started, copied', by rwa [same]⟩
  | started _ fresh =>
    rcases fresh with phase | phase
    · simp [phase, Phase.binds] at unbound
    · exact absurd phase started
  | advanced _ next =>
    obtain ⟨_, _, binds⟩ := advance_continues next
    rw [binds] at unbound
    cases unbound

/-- Every started hello: what has left the server for its socket. -/
theorem carried (reached : (server config written).Reachable s) (is : s.handler T = .running h)
    (started : h.phase ≠ .resuming) (valid : s.invalidated T = false) : Carried s T h := by
  induction reached generalizing h with
  | start initial =>
    obtain ⟨name, rfl⟩ := initial
    cases is
  | @next s l t before step ih =>
    by_cases binds : h.phase.binds = true
    · exact carried_bound (before.next step) is binds valid
    have unbound : h.phase.binds = false := by simpa using binds
    obtain ⟨k, was, same, started', copied, copied'⟩ := unbound_step step is started unbound
    have earlier := ih was started' (invalidated_step step valid)
    have own : h.peer = k.peer := by rw [same]
    have floor : t.floor h = s.floor k := by
      rw [Server.floor, if_pos copied', Server.floor, if_pos copied, same]
    have outgoing := outgoing_step before step is was unbound
    obtain ⟨more, log⟩ := log_step step
    rw [own] at outgoing
    constructor
    · obtain ⟨u, le, covers⟩ := earlier.covers
      rw [own, outgoing, floor]
      exact ⟨u, by simp only [log, List.length_append]; omega, covers⟩
    · intro m n member durable
      rw [own, outgoing] at member
      exact mem_log_step step (earlier.logged member durable)
    · intro m member ready
      rw [own, outgoing] at member
      obtain ⟨_, nickname, rfl⟩ := earlier.ready member ready
      exact ⟨copied', nickname, by rw [same]; rfl⟩
    · rw [own, outgoing]
      exact earlier.once

end Steps
end Conspire.Replay
