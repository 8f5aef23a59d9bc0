import Conspire.Replay.Stream

/-! Replay is complete. The stream of a transport bound by a hello misses no
event above the snapshot its handler copied: what `Covers` says of the sequences
in it, with the room's latest sequence as the upper end, or the one before while
the fan-out of the latest event has still to reach the peer. -/
namespace Conspire.Replay
open Session Transition Sequence

/-- Has the running fan-out still to reach this peer? -/
def Server.awaits (s : Server) (member : PeerId) : Bool :=
  match s.publishing with
  | none => false
  | some pub => pub.excluded ≠ some member && match pub.fanout with
    | .unread => member ∈ s.room.peerById
    | .sending rest => member ∈ rest
    | .captured other _ _ rest => member = other || member ∈ rest

/-- The sequence up to which the fan-out has served this peer. -/
def Server.delivered (s : Server) (member : PeerId) : Nat :=
  if s.awaits member then s.log.length - 1 else s.log.length

/-- The sequence up to which the handler's snapshot serves, once it is copied. -/
def Server.floor (s : Server) (hello : Hello) : Nat :=
  if hello.phase.hasCopied then hello.upTo else s.log.length

/-- What holds of the locals of a handler that copied the history. -/
structure Snapshot (config : ConfigDto) (log : List MessageDto) (h : Hello) : Prop where
  within : h.upTo ≤ log.length
  latest : h.latest ≤ h.upTo
  numbered : Numbered (if h.resync then h.upTo - historyLimit config else h.cursor) h.upTo h.history
  logged : ∀ m ∈ h.history, m ∈ log

/-- The peers a fan-out has still to serve, each once. -/
def Fanout.remaining : Fanout → List PeerId
  | .unread => []
  | .sending rest => rest
  | .captured member _ _ rest => member :: rest

/-- The state of the room's log and of the running publication. -/
structure Published (config : ConfigDto) (s : Server) : Prop where
  logged : s.room.Logged config s.log
  event : ∀ {pub}, s.publishing = some pub →
    durableSeq pub.event = some s.log.length ∧ pub.event ∈ s.log
  once : ∀ {pub}, s.publishing = some pub → pub.fanout.remaining.Nodup
  served : ∀ {pub p U g rest}, s.publishing = some pub → pub.fanout = .captured p U g rest →
    pub.excluded ≠ some p
  welcomed : ∀ {pub p}, s.publishing = some pub → pub.excluded = some p →
    ∃ T h, s.handler T = .running h ∧ h.peer = p ∧ h.phase = .welcoming
  latest : ∀ {T h}, s.handler T = .running h → h.latest ≤ s.log.length
  snapshot : ∀ {T h}, s.handler T = .running h → h.phase.hasCopied = true →
    Snapshot config s.log h

/-- The progress of the publication that holds the lock. -/
inductive PublishStep (s : Server) (l : Label) (t : Server) : Prop where
  | began {event : MessageDto} : s.publishing = none →
      t.publishing = some ⟨event, none, .unread⟩ → t.log = s.log ++ [event] →
      t.room.peerById = s.room.peerById → PublishStep s l t
  | welcome {event : MessageDto} {T : Socket} {h : Hello} : s.publishing = none →
      s.handler T = .running h → h.phase = .registered → t.handler T = .running { h with phase := .welcoming } →
      t.publishing = some ⟨event, some h.peer, .unread⟩ → t.log = s.log ++ [event] →
      t.room.peerById = s.room.peerById → PublishStep s l t
  | members {event : MessageDto} {excluded : Option PeerId} {members : List PeerId} :
      s.publishing = some ⟨event, excluded, .unread⟩ → members.Perm s.room.peerById →
      t = { s with publishing := some ⟨event, excluded, .sending members⟩ } → PublishStep s l t
  | skip {event : MessageDto} {excluded : Option PeerId} {member : PeerId} {rest : List PeerId} :
      s.publishing = some ⟨event, excluded, .sending (member :: rest)⟩ →
      (excluded = some member ∨ ∀ T, s.transport member ≠ some (some T)) →
      t = { s with publishing := some ⟨event, excluded, .sending rest⟩ } → PublishStep s l t
  | capture {event : MessageDto} {excluded : Option PeerId} {member : PeerId} {rest : List PeerId}
      {T : Socket} {g : Nat} :
      s.publishing = some ⟨event, excluded, .sending (member :: rest)⟩ → excluded ≠ some member →
      s.transport member = some (some T) →
      t = { s with publishing := some ⟨event, excluded, .captured member T g rest⟩ } → PublishStep s l t
  | push {event : MessageDto} {excluded : Option PeerId} {member : PeerId} {rest : List PeerId}
      {T : Socket} {g : Nat} :
      s.publishing = some ⟨event, excluded, .captured member T g rest⟩ →
      t.publishing = some ⟨event, excluded, .sending rest⟩ → t.log = s.log →
      l = .post member ⟨T, g, event⟩ → PublishStep s l t
  | ended {event : MessageDto} {excluded : Option PeerId} :
      s.publishing = some ⟨event, excluded, .sending []⟩ → t.publishing = none → t.log = s.log →
      PublishStep s l t

section Steps
variable {config : ConfigDto} {s t : Server} {p : PeerId} {T : Socket}

theorem transport_capture {peer : Peer} (known : s.peers p = some peer) :
    s.transport p = some (peer.capture.map (·.1)) := by
  cases bound : peer.socket <;> simp [Server.transport, known, Peer.capture, bound]

theorem publish_step (step : Step config written s l t) :
    (t.publishing = s.publishing ∧ t.log = s.log) ∨ PublishStep s l t := by
  cases step with
  | publish free _ added | goodbye free _ _ added =>
    exact .inr (.began free rfl rfl (Room.addHistoryMessage_members added))
  | welcome free is phase _ added =>
    exact .inr (.welcome free is phase (by simp [Server.setHello]) rfl rfl
      (Room.addHistoryMessage_members added))
  | members found order => exact .inr (.members found order rfl)
  | skip found reason =>
    refine .inr (.skip found (reason.imp_right ?_) rfl)
    intro unbound T bound
    simp only [Server.transport, Option.map_eq_some_iff] at bound
    obtain ⟨peer, known, socket⟩ := bound
    simp only [Peer.capture, Option.map_eq_none_iff] at unbound
    cases (unbound peer known).symm.trans socket
  | capture found other known captured =>
    exact .inr (.capture found other (by simp [transport_capture known, captured]) rfl)
  | push found =>
    exact .inr (.push found (by simp only [post_fields]) (by simp only [post_fields]) rfl)
  | finish found => exact .inr (.ended found rfl rfl)
  | welcomed found => exact .inr (.ended found rfl rfl)
  | answer | endSend => exact .inl (by simp only [Server.setHello, post_fields, and_self])
  | bind => exact .inl (by simp only [Server.setHello, invalidate_fields]; exact ⟨rfl, rfl⟩)
  | join | register | resume | refuse | advance | beginSend | take | check | drop | write | apiError
  | detach | unlease | expire | remove => exact .inl ⟨rfl, rfl⟩

theorem Snapshot.grow (snapshot : Snapshot config log h) (more : List MessageDto) :
    Snapshot config (log ++ more) h where
  within := by
    rw [List.length_append]
    exact Nat.le_add_right_of_le snapshot.within
  latest := snapshot.latest
  numbered := snapshot.numbered
  logged m member := List.mem_append_left _ (snapshot.logged m member)

/-- The log only grows. -/
theorem log_step (step : Step config written s l t) : ∃ more, t.log = s.log ++ more := by
  rcases publish_step step with ⟨_, same⟩ | change
  · exact ⟨[], by rw [same, List.append_nil]⟩
  · cases change with
    | began _ _ log | welcome _ _ _ _ _ log => exact ⟨_, log⟩
    | members _ _ same | skip _ _ same | capture _ _ _ same =>
      exact ⟨[], by rw [same, List.append_nil]⟩
    | push _ _ same | ended _ _ same => exact ⟨[], by rw [same, List.append_nil]⟩

theorem logged_step (logged : s.room.Logged config s.log) (step : Step config written s l t) :
    t.room.Logged config t.log := by
  cases step with
  | publish _ code added =>
    exact logged.publish (by rcases code with code | code <;> simp [durableCode, code]) added
  | welcome _ _ _ _ added => exact logged.publish rfl added
  | goodbye _ _ _ added => exact logged.publish rfl added
  | join _ _ _ _ added =>
    obtain ⟨latest, history⟩ := Room.addPeer_log added
    exact ⟨latest ▸ logged.latest, logged.numbered, history ▸ logged.history⟩
  | remove => exact ⟨logged.latest, logged.numbered, logged.history⟩
  | push | answer | endSend =>
    simp only [Server.setHello, post_fields]
    exact logged
  | bind =>
    simp only [Server.setHello, invalidate_fields]
    exact logged
  | members | skip | capture | finish | welcomed | register | resume | refuse | advance
  | beginSend | take | check | drop | write | apiError | detach | unlease | expire => exact logged

theorem mem_log_step (step : Step config written s l t) (member : m ∈ s.log) : m ∈ t.log := by
  obtain ⟨more, log⟩ := log_step step
  rw [log]
  exact List.mem_append_left _ member

/-- The event of a publication is the last of the log. -/
theorem event_last (logged : t.room.Logged config t.log) (log : t.log = s.log ++ [event]) :
    durableSeq event = some t.log.length := by
  have run := logged.numbered.2
  rw [log, List.map_append, List.length_append, Nat.sub_zero, List.length_singleton,
    List.range'_concat] at run
  have last := congrArg List.getLast? run
  simp at last
  rw [last, log, List.length_append, List.length_singleton, Nat.add_comm]

/-- A welcoming handler waits for its publication. -/
theorem welcoming_step (step : Step config written s l t) (is : s.handler T = .running h)
    (phase : h.phase = .welcoming) (publishing : t.publishing ≠ none) : t.handler T = .running h := by
  have set : ∀ {socket : Socket} {next : Handler}, s.handler socket ≠ .running h →
      Function.update s.handler socket next T = .running h := by
    intro socket next other
    rw [Function.update_of_ne (fun here : T = socket => other (here ▸ is)), is]
  have running : ∀ {socket : Socket} {k : Hello}, s.handler socket = .running k →
      k.phase ≠ .welcoming → s.handler socket ≠ .running h := by
    intro socket k found other same
    cases found.symm.trans same
    exact other phase
  have pending : ∀ {socket : Socket}, s.handler socket = .pending → s.handler socket ≠ .running h := by
    intro socket found same
    cases found.symm.trans same
  cases step with
  | publish | goodbye | members | skip | capture | finish | beginSend | take | check | drop | write
  | apiError | expire | remove => exact is
  | push | endSend =>
    simp only [post_fields]
    exact is
  | welcome _ found other => exact set (running found (by simp [other]))
  | register found other => exact set (running found (by simp [other]))
  | detach found other => exact set (running found (by simp [other]))
  | unlease found other => exact set (running found (by simp [other]))
  | bind found other =>
    simp only [Server.setHello, invalidate_fields]
    exact set (running found (by simp [other]))
  | answer found other =>
    simp only [Server.setHello, post_fields]
    exact set (running found (by simp [other]))
  | welcomed => exact (publishing rfl).elim
  | join found => exact set (pending found)
  | resume found => exact set (pending found)
  | refuse found => exact set (pending found)
  | advance found _ next =>
    refine set (running found ?_)
    intro welcoming
    simp [Server.advance, welcoming] at next

theorem published_step (valid : Discipline s.control) (published : Published config s)
    (step : Step config written s l t) : Published config t := by
  have logged := logged_step published.logged step
  have change := publish_step step
  constructor
  case logged => exact logged
  case event =>
    intro pub is
    rcases change with ⟨same, log⟩ | change
    · rw [same] at is
      rw [log]
      exact published.event is
    · cases change with
      | began _ now log =>
        cases now.symm.trans is
        exact ⟨event_last logged log, by simp [log]⟩
      | welcome _ _ _ _ now log =>
        cases now.symm.trans is
        exact ⟨event_last logged log, by simp [log]⟩
      | members before _ same | skip before _ same | capture before _ _ same =>
        subst same
        cases is
        exact (published.event before :)
      | push before now log =>
        cases now.symm.trans is
        rw [log]
        exact (published.event before :)
      | ended _ now => cases now.symm.trans is
  case once =>
    intro pub is
    rcases change with ⟨same, _⟩ | change
    · rw [same] at is
      exact published.once is
    · cases change with
      | began _ now | welcome _ _ _ _ now =>
        cases now.symm.trans is
        exact .nil
      | members before order same =>
        subst same
        cases is
        exact order.nodup_iff.mpr valid.nodup
      | skip before _ same =>
        subst same
        cases is
        exact (published.once before).of_cons
      | capture before _ _ same =>
        subst same
        cases is
        exact (published.once before :)
      | push before now =>
        cases now.symm.trans is
        exact (published.once before).of_cons
      | ended _ now => cases now.symm.trans is
  case served =>
    intro pub p U g rest is fanout
    rcases change with ⟨same, _⟩ | change
    · rw [same] at is
      exact published.served is fanout
    · cases change with
      | began _ now | welcome _ _ _ _ now | push _ now =>
        cases now.symm.trans is
        cases fanout
      | members _ _ same | skip _ _ same =>
        subst same
        cases is
        cases fanout
      | capture _ other _ same =>
        subst same
        cases is
        cases fanout
        exact other
      | ended _ now => cases now.symm.trans is
  case welcomed =>
    intro pub p is excluded
    have kept : ∀ {pub'}, s.publishing = some pub' → pub'.excluded = some p →
        ∃ T h, t.handler T = .running h ∧ h.peer = p ∧ h.phase = .welcoming := by
      intro pub' before same
      obtain ⟨T, h, found, peer, phase⟩ := published.welcomed before same
      exact ⟨T, h, welcoming_step step found phase (by simp [is]), peer, phase⟩
    rcases change with ⟨same, _⟩ | change
    · rw [same] at is
      exact kept is excluded
    · cases change with
      | began _ now =>
        cases now.symm.trans is
        cases excluded
      | welcome _ _ _ found now =>
        cases now.symm.trans is
        cases excluded
        exact ⟨_, _, found, rfl, rfl⟩
      | members before _ same | skip before _ same | capture before _ _ same =>
        subst same
        cases is
        exact kept before excluded
      | push before now =>
        cases now.symm.trans is
        exact kept before excluded
      | ended _ now => cases now.symm.trans is
  case latest =>
    intro T h is
    obtain ⟨more, log⟩ := log_step step
    have grown : s.log.length ≤ t.log.length := by simp [log]
    cases handler_step step is with
    | same before => exact Nat.le_trans (published.latest before) grown
    | moved before _ same =>
      have := published.latest before
      rw [same]
      exact Nat.le_trans this grown
    | advanced before next =>
      have earlier := published.latest before
      unfold Server.advance at next
      split at next
      case h_1 | h_3 =>
        cases next
        exact Nat.le_trans earlier grown
      case h_2 =>
        cases next
        simp only [Room.latestServerSeq, published.logged.latest]
        exact grown
      case h_4 =>
        rw [Option.map_eq_some_iff] at next
        obtain ⟨_, _, rfl⟩ := next
        exact Nat.le_trans earlier grown
      case h_5 => contradiction
    | started _ _ _ zero =>
      rw [zero]
      exact Nat.zero_le _
  case snapshot =>
    intro T h is copied
    obtain ⟨more, log⟩ := log_step step
    rw [log]
    apply Snapshot.grow
    cases handler_step step is with
    | same before => exact published.snapshot before copied
    | moved before moves same =>
      rw [same] at copied ⊢
      have earlier := published.snapshot before (moves.hasCopied.trans copied)
      exact ⟨earlier.within, earlier.latest, earlier.numbered, earlier.logged⟩
    | advanced before next =>
      unfold Server.advance at next
      split at next
      case h_1 | h_2 =>
        cases next
        cases copied
      case h_3 =>
        cases next
        have latest := published.logged.latest
        refine ⟨Nat.le_of_eq latest, ?_, ?_, fun m => published.logged.mem_log⟩
        · have earlier := published.latest before
          rwa [← latest] at earlier
        · have run := published.logged.getHistoryAfter
          simpa only [latest, Room.getHistoryAfter] using run _
      case h_4 phase =>
        have earlier := published.snapshot before (by simp [phase, Phase.hasCopied])
        rw [Option.map_eq_some_iff] at next
        obtain ⟨_, _, rfl⟩ := next
        exact ⟨earlier.within, earlier.latest, earlier.numbered, earlier.logged⟩
      case h_5 => contradiction
    | started _ fresh =>
      rcases fresh with phase | phase <;> simp [phase, Phase.hasCopied] at copied

theorem transient_not_durable (known : transient code = true) : durableCode code = false := by
  simp only [transient, Bool.or_eq_true, decide_eq_true_eq] at known
  rcases known with ((known | known) | known) | known <;> simp [known, durableCode]

/-- What is posted: the event of the running fan-out, or a message without a number. -/
theorem post_step (waiting : ∀ send ∈ s.sends, transient send.frame.payload.code = true)
    (step : Step config written s (.post p f) t) :
    (∃ excluded rest, s.publishing = some ⟨f.payload, excluded, .captured p f.socket f.generation rest⟩ ∧
        t.publishing = some ⟨f.payload, excluded, .sending rest⟩ ∧ t.log = s.log) ∨
      (t.publishing = s.publishing ∧ t.log = s.log ∧ durableSeq f.payload = none) := by
  cases step with
  | push found =>
    exact .inl ⟨_, _, found, by simp only [post_fields], by simp only [post_fields]⟩
  | answer =>
    refine .inr ⟨by simp only [Server.setHello, post_fields], by simp only [Server.setHello, post_fields], ?_⟩
    simp [durableSeq, Hello.ready, durableCode]
  | endSend found =>
    rename_i send _
    refine .inr ⟨by simp only [post_fields], by simp only [post_fields], ?_⟩
    have code := waiting send (by simp [found])
    simp [durableSeq, transient_not_durable code]

theorem sends_step (waiting : ∀ send ∈ s.sends, transient send.frame.payload.code = true)
    (step : Step config written s l t) : ∀ send ∈ t.sends, transient send.frame.payload.code = true := by
  cases step with
  | publish | welcome | goodbye | members | skip | capture | finish | welcomed | join | register
  | resume | refuse | advance | take | check | drop | write | apiError | detach | unlease | expire
  | remove => exact waiting
  | push | answer =>
    simp only [Server.setHello, post_fields]
    exact waiting
  | bind =>
    simp only [Server.setHello, invalidate_fields]
    exact waiting
  | beginSend _ _ code =>
    intro send member
    rw [List.mem_cons] at member
    rcases member with rfl | old
    · exact code
    · exact waiting send old
  | endSend found =>
    intro send member
    simp only [post_fields, List.mem_append] at member
    exact waiting send (by rw [found]; simp only [List.mem_append, List.mem_cons]; exact member.imp_right .inr)

/-- The handler of a bound transport in the state before: it had bound it
already, or the stream is still empty. -/
theorem binding_before (reached : (server config written).Reachable s)
    (step : Step config written s l t) (is : t.handler T = .running h) (binds : h.phase.binds = true) :
    (h.phase.hasCopied = false ∧ t.feed h.peer T = []) ∨
      ∃ k, s.handler T = .running k ∧ k.phase.binds = true ∧ k.peer = h.peer ∧
        (h.phase.hasCopied = k.phase.hasCopied ∧ h.upTo = k.upTo ∨
          k.phase.hasCopied = false ∧ h.upTo = s.room.sequencer.latest) := by
  have empty : ∀ p, (s.handler T = .pending ∨ ∃ k, s.handler T = .running k ∧ k.phase = .resuming) →
      t.feed p T = [] := by
    intro p before
    simp [Server.feed, stream_bound reached step is before]
  cases handler_step step is with
  | started pending fresh =>
    refine .inl ⟨?_, empty _ (.inl pending)⟩
    rcases fresh with phase | phase <;> simp [phase, Phase.hasCopied]
  | same before => exact .inr ⟨_, before, binds, rfl, .inl ⟨rfl, rfl⟩⟩
  | @moved k phase before moves same =>
    rw [same] at binds ⊢
    have copied := moves.hasCopied
    by_cases resuming : k.phase = .resuming
    · refine .inl ⟨?_, empty _ (.inr ⟨_, before, resuming⟩)⟩
      simpa [resuming, Phase.hasCopied] using copied.symm
    · exact .inr ⟨_, before, moves.binds binds resuming, rfl, .inl ⟨copied.symm, rfl⟩⟩
  | advanced before next =>
    obtain ⟨same, bound, _⟩ := advance_continues next
    refine .inr ⟨_, before, bound, same.symm, ?_⟩
    unfold Server.advance at next
    split at next
    case h_1 phase | h_2 phase =>
      cases next
      exact .inl ⟨by simp [phase, Phase.hasCopied], rfl⟩
    case h_3 phase =>
      cases next
      exact .inr ⟨by simp [phase, Phase.hasCopied], rfl⟩
    case h_4 phase =>
      rw [Option.map_eq_some_iff] at next
      obtain ⟨_, _, rfl⟩ := next
      exact .inl ⟨by simp [phase, Phase.hasCopied], rfl⟩
    case h_5 => contradiction

theorem delivered_congr (awaits : t.awaits p = s.awaits p) (log : t.log = s.log) :
    t.delivered p = s.delivered p := by
  simp only [Server.delivered, awaits, log]

theorem delivered_le (s : Server) (p : PeerId) : s.delivered p ≤ s.log.length := by
  unfold Server.delivered
  split <;> omega

/-- The invariant of delivery to bound transports. -/
structure Served (s : Server) : Prop where
  stale : ∀ {event excluded p U g rest T h},
    s.publishing = some ⟨event, excluded, .captured p U g rest⟩ → s.handler T = .running h →
    h.peer = p → h.phase.binds = true → U ≠ T → h.phase.hasCopied = true → s.log.length ≤ h.upTo
  covers : ∀ {T h}, s.handler T = .running h → h.phase.binds = true → s.invalidated T = false →
    Covers (s.floor h) (s.delivered h.peer) (seqs (s.feed h.peer T))

theorem stale_step (reached : (server config written).Reachable s) (published : Published config s)
    (served : Served s) (step : Step config written s l t)
    (is : t.publishing = some ⟨event, excluded, .captured p U g rest⟩)
    (found : t.handler T = .running h) (own : h.peer = p) (binds : h.phase.binds = true)
    (other : U ≠ T) (copied : h.phase.hasCopied = true) : t.log.length ≤ h.upTo := by
  rcases binding_before reached step found binds with ⟨fresh, _⟩ | ⟨k, before, bound, same, locals⟩
  · rw [fresh] at copied
    contradiction
  have settle : ∀ {event excluded U g rest}, t.log = s.log →
      s.publishing = some ⟨event, excluded, .captured p U g rest⟩ → U ≠ T → t.log.length ≤ h.upTo := by
    intro event excluded U g rest log earlier other
    rw [log]
    rcases locals with ⟨phases, upTo⟩ | ⟨_, upTo⟩
    · rw [upTo]
      exact served.stale earlier before (same.trans own) bound other (phases ▸ copied)
    · rw [upTo, published.logged.latest]
  rcases publish_step step with ⟨kept, log⟩ | change
  · exact settle log (kept ▸ is) other
  · cases change with
    | began _ now | welcome _ _ _ _ now | push _ now | ended _ now => cases now.symm.trans is
    | members _ _ now | skip _ _ now =>
      subst now
      cases is
    | capture _ _ current now =>
      -- the socket just captured is the bound one
      subst now
      cases is
      have live := ((disciplined reached).live before (binds_ne_closed bound)).1
      rw [if_pos bound, same, own] at live
      cases current.symm.trans live
      exact absurd rfl other

/-- In the streams of bound transports only the running fan-out adds a number. -/
theorem seqs_step (reached : (server config written).Reachable s) (published : Published config s)
    (waiting : ∀ send ∈ s.sends, transient send.frame.payload.code = true)
    (step : Step config written s l t) (is : s.handler T = .running k) (binds : k.phase.binds = true)
    (valid : t.invalidated T = false) :
    (seqs (t.feed k.peer T) = seqs (s.feed k.peer T) ∧
        ∀ f, l = .post k.peer f → f.socket = T → durableSeq f.payload = none) ∨
      ∃ event excluded g rest, s.publishing = some ⟨event, excluded, .captured k.peer T g rest⟩ ∧
        t.publishing = some ⟨event, excluded, .sending rest⟩ ∧ t.log = s.log ∧
        seqs (t.feed k.peer T) = seqs (s.feed k.peer T) ++ [s.log.length] := by
  cases feed_step reached step is binds valid with
  | kept other same => exact .inl ⟨by rw [same], fun f label target => absurd target (other f label)⟩
  | grown label target grown =>
    subst label target
    have added := congrArg seqs grown
    rw [seqs_append, seqs_filter_notable] at added
    rcases post_step waiting step with ⟨excluded, rest, before, after, log⟩ | ⟨_, _, silent⟩
    · refine .inr ⟨_, excluded, _, rest, before, after, log, ?_⟩
      rw [added, seqs_cons, (published.event before).1]
      rfl
    · refine .inl ⟨?_, ?_⟩
      · rw [added, seqs_cons, silent]
        simp
      · intro g label _
        cases label
        exact silent

theorem awaits_pushed (published : Published config s)
    (before : s.publishing = some ⟨event, excluded, .captured p U g rest⟩)
    (after : t.publishing = some ⟨event, excluded, .sending rest⟩) :
    s.awaits p = true ∧ t.awaits p = false := by
  have served := published.served before rfl
  have once := published.once before
  simp only [Fanout.remaining, List.nodup_cons] at once
  simp only [Server.awaits, before, after]
  exact ⟨by simpa using served, by simp [once.1]⟩

theorem covers_step (reached : (server config written).Reachable s) (published : Published config s)
    (waiting : ∀ send ∈ s.sends, transient send.frame.payload.code = true)
    (served : Served s) (step : Step config written s l t) (found : t.handler T = .running h)
    (binds : h.phase.binds = true) (valid : t.invalidated T = false) :
    Covers (t.floor h) (t.delivered h.peer) (seqs (t.feed h.peer T)) := by
  rcases binding_before reached step found binds with ⟨fresh, empty⟩ | ⟨k, before, bound, same, locals⟩
  · rw [empty, Server.floor, fresh]
    exact Covers.nil (delivered_le ..)
  have discipline := disciplined reached
  have discipline' := disciplined (reached.next step)
  have earlier := served.covers before bound (invalidated_step step valid)
  have live := (discipline.live before (binds_ne_closed bound)).1
  rw [if_pos bound] at live
  have member : k.peer ∈ s.room.peerById := (discipline.live before (binds_ne_closed bound)).2.1
  have member' : h.peer ∈ t.room.peerById := (discipline'.live found (binds_ne_closed binds)).2.1
  obtain ⟨more, log⟩ := log_step step
  have grown : s.log.length ≤ t.log.length := by simp [log]
  have raised : s.floor k ≤ t.floor h := by
    unfold Server.floor
    rcases locals with ⟨phases, upTo⟩ | ⟨fresh, upTo⟩
    · rw [phases, upTo]
      split <;> omega
    · rw [fresh, upTo, published.logged.latest]
      simp only [Bool.false_eq_true, if_false]
      split <;> omega
  have stream := seqs_step reached published waiting step before bound valid
  rw [same] at earlier live member stream
  rcases stream with ⟨unchanged, silent⟩ | ⟨event, excluded, g, rest, was, now, kept, added⟩
  · rw [unchanged]
    -- the same peers are still to be served
    have settled : t.awaits h.peer = s.awaits h.peer → t.log = s.log →
        Covers (t.floor h) (t.delivered h.peer) (seqs (s.feed h.peer T)) := by
      intro awaits log
      rw [delivered_congr awaits log]
      exact earlier.raise raised
    -- a publication that starts will reach the peer
    have started : ∀ {event excluded}, s.publishing = none →
        t.publishing = some ⟨event, excluded, .unread⟩ → t.log = s.log ++ [event] →
        excluded ≠ some h.peer →
        Covers (t.floor h) (t.delivered h.peer) (seqs (s.feed h.peer T)) := by
      intro event excluded free now log other
      have awaits : t.awaits h.peer = true := by simp [Server.awaits, now, other, member']
      have free' : s.awaits h.peer = false := by simp [Server.awaits, free]
      have same : t.delivered h.peer = s.delivered h.peer := by
        simp [Server.delivered, awaits, free', log]
      rw [same]
      exact earlier.raise raised
    rcases publish_step step with ⟨kept, log⟩ | change
    · refine settled ?_ log
      simp only [Server.awaits, kept, member, member']
    · cases change with
      | began free now log => exact started free now log (by simp)
      | @welcome event U w free is phase after now log =>
        by_cases own : w.peer = h.peer
        · -- the joining peer itself, whose handler has not copied yet
          have here : T = U := discipline'.unique found after own.symm (binds_ne_closed binds) (by simp)
          have fresh : h.phase.hasCopied = false := by
            rw [here, after] at found
            cases found
            rfl
          have served : t.awaits h.peer = false := by simp [Server.awaits, now, own]
          have top : t.floor h = t.log.length := by simp [Server.floor, fresh]
          have le := delivered_le s h.peer
          rw [Server.delivered, served]
          exact (earlier.raise raised).extend (Nat.le_trans le grown) (Nat.le_of_eq top.symm)
        · exact started free now log (by simpa using own)
      | members was order now =>
        subst now
        refine settled ?_ rfl
        simp only [Server.awaits, was, order.mem_iff]
      | @skip event excluded skipped rest was reason now =>
        subst now
        refine settled ?_ rfl
        simp only [Server.awaits, was, List.mem_cons]
        by_cases served : excluded = some h.peer
        · simp [served]
        · have other : h.peer ≠ skipped := by
            rintro rfl
            rcases reason with own | unbound
            · exact served own
            · exact unbound T live
          simp [other]
      | capture was other current now =>
        subst now
        refine settled ?_ rfl
        simp [Server.awaits, was]
      | @push event excluded q rest U g was now log label =>
        by_cases own : q = h.peer
        · subst own
          obtain ⟨awaited, done⟩ := awaits_pushed published was now
          -- the frame was for a transport that is no longer bound
          have other : U ≠ T := by
            rintro rfl
            have := silent _ label rfl
            simp [(published.event was).1] at this
          have enough : t.log.length ≤ t.floor h := by
            by_cases copied : h.phase.hasCopied = true
            · rw [Server.floor, if_pos copied, log]
              rcases locals with ⟨phases, upTo⟩ | ⟨fresh, upTo⟩
              · rw [upTo]
                exact served.stale was before same bound other (phases ▸ copied)
              · rw [upTo, published.logged.latest]
            · rw [Server.floor, if_neg copied]
          have le := delivered_le s h.peer
          rw [Server.delivered, done]
          exact (earlier.raise raised).extend (Nat.le_trans le grown) enough
        · refine settled ?_ log
          simp [Server.awaits, was, now, Ne.symm own]
      | ended was now log =>
        refine settled ?_ log
        simp [Server.awaits, was, now]
  · obtain ⟨awaited, done⟩ := awaits_pushed published was now
    have positive : 0 < s.log.length := List.length_pos_of_mem (published.event was).2
    have next := earlier.push
    rw [Server.delivered, if_pos awaited, Nat.sub_add_cancel positive] at next
    rw [added, Server.delivered, done, kept]
    exact next.raise raised

/-- A READY is sent to the transport its handler serves. -/
theorem binding_own (reached : (server config written).Reachable s) (is : s.handler T = .running h)
    (bound : h.binding = some (U, g)) : U = T := by
  induction reached generalizing T h with
  | start initial =>
    obtain ⟨name, rfl⟩ := initial
    cases is
  | next before step ih =>
    cases handler_step step is with
    | same earlier => exact ih earlier bound
    | moved earlier _ same =>
      rw [same] at bound
      exact ih earlier bound
    | started _ _ unbound => simp [unbound] at bound
    | advanced earlier next =>
      unfold Server.advance at next
      split at next
      case h_1 | h_2 | h_3 =>
        cases next
        exact ih earlier bound
      case h_4 phase =>
        rw [Option.map_eq_some_iff] at next
        obtain ⟨peer, known, rfl⟩ := next
        have live := ((disciplined before).live earlier (by simp [phase])).1
        simp only [phase, Phase.binds, if_true] at live
        have captured : peer.capture = some (U, g) := bound
        rw [show Control.transport _ _ = _ from transport_capture known, captured] at live
        simpa using live
      case h_5 => contradiction

theorem advance_phase {k h : Hello} (next : s.advance members k = some h) :
    k.phase ≠ .answered ∧ h.phase ≠ .answered := by
  unfold Server.advance at next
  split at next
  case h_1 phase | h_2 phase | h_3 phase =>
    cases next
    simp [phase]
  case h_4 phase =>
    rw [Option.map_eq_some_iff] at next
    obtain ⟨_, _, rfl⟩ := next
    simp [phase]
  case h_5 => contradiction

def isReady (message : MessageDto) : Bool := message.code = some .sessionReady

/-- A READY that is posted comes from the handler of the peer's transport. -/
theorem ready_step (waiting : ∀ send ∈ s.sends, transient send.frame.payload.code = true)
    (published : Published config s) (step : Step config written s (.post p f) t)
    (ready : isReady f.payload = true) :
    ∃ U k, s.handler U = .running k ∧ k.phase = .captured ∧ k.peer = p ∧
      t.handler U = .running { k with phase := .answered } := by
  cases step with
  | push found =>
    have durable := (durableSeq_eq_some (published.event found).1).1
    simp only [isReady, decide_eq_true_eq] at ready
    simp [ready, durableCode] at durable
  | answer found phase =>
    exact ⟨_, _, found, phase, rfl, by simp [Server.setHello]⟩
  | endSend found =>
    rename_i send _
    have code := waiting send (by simp [found])
    simp only [isReady, decide_eq_true_eq] at ready
    simp [ready, transient] at code

/-- A handler sends its READY once, when it answers. -/
theorem answered_step (reached : (server config written).Reachable s) (published : Published config s)
    (waiting : ∀ send ∈ s.sends, transient send.frame.payload.code = true)
    (earlier : ∀ {k}, s.handler T = .running k → k.phase.binds = true → s.invalidated T = false →
      ∃ nickname, (s.feed k.peer T).filter isReady =
        if k.phase = .answered then [k.ready nickname] else [])
    (step : Step config written s l t) (found : t.handler T = .running h)
    (binds : h.phase.binds = true) (valid : t.invalidated T = false) :
    ∃ nickname, (t.feed h.peer T).filter isReady =
      if h.phase = .answered then [h.ready nickname] else [] := by
  have quiet : ∀ {k}, s.handler T = .running k → k.phase.binds = true →
      h.phase ≠ .answered ∨ k.phase ≠ .captured →
      (t.feed k.peer T).filter isReady = (s.feed k.peer T).filter isReady := by
    intro k is bound other
    cases feed_step reached step is bound valid with
    | kept _ same => rw [same]
    | @grown f label target grown =>
      subst label
      have silent : isReady f.payload = false := by
        by_contra ready
        obtain ⟨U, w, was, captured, own, now⟩ := ready_step waiting published step (by simpa using ready)
        have here : U = T :=
          (disciplined reached).unique was is own (by simp [captured]) (binds_ne_closed bound)
        subst here
        cases was.symm.trans is
        cases now.symm.trans found
        rcases other with phase | phase
        · exact phase rfl
        · exact phase captured
      rw [grown, List.filter_append]
      by_cases known : notable f.payload = true <;> simp [known, silent]
  have bound_now : (s.handler T = .pending ∨ ∃ k, s.handler T = .running k ∧ k.phase = .resuming) →
      h.phase ≠ .answered →
      ∃ nickname, (t.feed h.peer T).filter isReady =
        if h.phase = .answered then [h.ready nickname] else [] := by
    intro before other
    exact ⟨[], by simp [Server.feed, stream_bound reached step found before, other]⟩
  have valid' := invalidated_step step valid
  cases handler_step step found with
  | started pending phase =>
    refine bound_now (.inl pending) ?_
    rcases phase with phase | phase <;> simp [phase]
  | same is =>
    obtain ⟨nickname, was⟩ := earlier is binds valid'
    exact ⟨nickname, by rw [quiet is binds (by by_cases phase : h.phase = .answered <;> simp [phase]), was]⟩
  | advanced is next =>
    obtain ⟨same, bound, _⟩ := advance_continues next
    obtain ⟨nickname, was⟩ := earlier is bound valid'
    obtain ⟨before, after⟩ := advance_phase next
    exact ⟨nickname, by rw [same, quiet is bound (.inl after), was, if_neg before, if_neg after]⟩
  | @moved k phase is moves same sent =>
    by_cases resuming : k.phase = .resuming
    · refine bound_now (.inr ⟨k, is, resuming⟩) ?_
      rw [same]
      rintro answered
      cases answered
      exact absurd (moves.from_captured.symm.trans resuming) (by simp)
    have own : h.peer = k.peer := by rw [same]
    have bound := moves.binds (by rwa [same] at binds) resuming
    obtain ⟨nickname, was⟩ := earlier is bound valid'
    rw [if_neg (moves.answered (by rwa [same] at binds))] at was
    by_cases answered : phase = .answered
    · obtain ⟨target, g, nickname, captured, label⟩ := sent answered
      have here := binding_own reached is captured
      refine ⟨nickname, ?_⟩
      cases feed_step reached step is bound valid with
      | kept other => exact absurd here (other _ label)
      | grown posted _ grown =>
        cases label.symm.trans posted
        rw [own, grown, List.filter_append, was, same, if_pos answered]
        rfl
    · have other : h.phase ≠ .answered := by rw [same]; exact answered
      exact ⟨nickname, by rw [own, quiet is bound (.inl other), was, if_neg other]⟩

end Steps
end Conspire.Replay
