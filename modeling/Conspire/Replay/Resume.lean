import Conspire.Replay.Delivery

/-! A hello whose READY asks for no resync loses no event: each one after its
cursor is in the READY or in the stream of the transport the hello has bound. -/
namespace Conspire.Replay
open Session Transition Sequence

/-- A server that greets the first browser of a room, peer 1 on socket 0. -/
structure Greeting where
  latest : Nat
  history : List MessageDto
  log : List MessageDto
  hello : Hello
  publishing : Option Publish := none
  peer : Peer := Peer.create 0 0 [] 1 0
  held : Option (OutboundFrame × Bool) := none
  sent : List MessageDto := []
  lease : Option SessionLease := some {}

namespace Greeting
variable (g : Greeting)

def room : Room :=
  { name := [], sequencer := ⟨g.latest⟩, peerById := [1], history := g.history }

def server : Server :=
  { room := g.room, log := g.log, publishing := g.publishing
    peers := Function.update (fun _ => none) 1 (some g.peer)
    leases := Function.update (fun _ => none) 1 g.lease
    handler := Function.update (fun _ => .pending) 0 (.running g.hello)
    draining := Function.update (fun _ => none) 1 g.held
    wire := Function.update (fun _ => []) 0 g.sent }

/-- A room that retains one event, and a writer of empty frames. -/
def config : ConfigDto := { maxRoomHistoryMessages := some 1 }
def written : MessageDto → Nat := fun _ => 0

/-- A step that touches no handshake and overflows no queue. -/
def calm (s : Server) : Label → Prop
  | .internal | .write _ _ => True
  | .post member frame => s.overflows written member frame = false
  | _ => False

abbrev Path : Server → Server → Prop :=
  Relation.ReflTransGen fun s t => ∃ l, Step config written s l t ∧ calm s l

theorem extend {s t : Server} {P : Server → Prop} (path : Path s t) (rest : ∃ u, Path t u ∧ P u) :
    ∃ u, Path s u ∧ P u := by
  obtain ⟨u, further, holds⟩ := rest
  exact ⟨u, path.trans further, holds⟩

theorem internal {s t : Server} (step : Step config written s .internal t) : Path s t :=
  .single ⟨_, step, trivial⟩

/-- A frame leaves the queue of a peer for its socket. -/
theorem sends {s : Server} {peer next : Peer} (known : s.peers member = some peer)
    (idle : s.draining member = none) (taken : peer.takeOutboundFrame written = (next, some frame))
    (current : next.isCurrentBinding frame = true) :
    Path s ((s.setPeer member next).write frame.socket frame.payload) := by
  have took : Path s _ := internal (.take known idle taken)
  have checked := took.trans (internal (.check (Function.update_self ..) (Function.update_self ..) current))
  have wrote := checked.tail ⟨_, @Step.write _ _ frame _ true member (Function.update_self ..), trivial⟩
  have same : Function.update s.draining member none = s.draining := by
    rw [← idle, Function.update_eq_self]
  simpa [Server.write, Server.setPeer, same] using wrote

theorem proceeds (socket : Socket) {s : Server} {hello next : Hello}
    (running : s.handler socket = .running hello)
    (step : s.advance s.room.peerById hello = some next) : Path s (s.setHello socket next) :=
  internal (.advance running (.refl _) step)

theorem posts {s t : Server} (step : Step config written s (.post member frame) t)
    (fits : s.overflows written member frame = false) : Path s t :=
  .single ⟨_, step, fits⟩

section Message
variable {s : Server} {room : Room} {event : MessageDto} {peer next : Peer}

/-- A message reaches the queue of the only member. -/
theorem heard (idle : s.publishing = none)
    (added : s.room.addHistoryMessage config { code := some .peerMessage } = some (room, event))
    (alone : room.peerById = [1]) (known : s.peers 1 = some peer)
    (attached : peer.capture = some (socket, generation))
    (fits : peer.enqueue written ⟨socket, generation, event⟩ = some next) :
    Path s ({ s with room, log := s.log ++ [event] }.setPeer 1 next) := by
  have order : List.Perm [1] room.peerById := alone ▸ .refl _
  have published : Path s _ := internal (.publish idle (.inl rfl) added)
  have listed := published.trans (internal (.members rfl order))
  have captured := listed.trans (internal (.capture rfl (by simp) known attached))
  have pushed := captured.tail ⟨_, .push rfl, by simp [calm, Server.overflows, known, fits]⟩
  have finished := pushed.trans
    (internal (.finish (by simp [Server.post, known, fits, Server.setPeer]; rfl)))
  simpa [Server.post, known, fits, Server.setPeer, idle] using finished

/-- Nobody hears a message while the only member is away. -/
theorem missed (idle : s.publishing = none)
    (added : s.room.addHistoryMessage config { code := some .peerMessage } = some (room, event))
    (alone : room.peerById = [1]) (known : s.peers 1 = some peer) (away : peer.capture = none) :
    Path s { s with room, log := s.log ++ [event] } := by
  have order : List.Perm [1] room.peerById := alone ▸ .refl _
  have published : Path s _ := internal (.publish idle (.inl rfl) added)
  have listed := published.trans (internal (.members rfl order))
  have skipped := listed.trans
    (internal (.skip rfl (.inr fun _ found => by cases known.symm.trans found; exact away)))
  have finished := skipped.trans (internal (.finish rfl))
  simpa [idle] using finished

end Message

theorem setHello (hello : Hello) : g.server.setHello 0 hello = { g with hello }.server := by
  simp [Greeting.server, Server.setHello, room]

theorem setPeer (peer : Peer) : g.server.setPeer 1 peer = { g with peer }.server := by
  simp [Greeting.server, Server.setPeer, room]

theorem hold (held : Option (OutboundFrame × Bool)) :
    { g.server with draining := Function.update g.server.draining 1 held } =
      { g with held }.server := by
  simp [Greeting.server, room]

theorem write (message : MessageDto) :
    g.server.write 0 message = { g with sent := g.sent ++ [message] }.server := by
  simp [Greeting.server, Server.write, room]

theorem advance (next : Hello) (step : g.server.advance [1] g.hello = some next) :
    Path g.server { g with hello := next }.server := by
  have step : Step config written g.server .internal (g.server.setHello 0 next) :=
    .advance rfl (List.Perm.refl _) step
  rw [setHello] at step
  exact internal step

variable {token : Bytes} {cursor n : Nat} {history log : List MessageDto}

def first (token : Bytes) (cursor : Nat) (phase : Phase) : Hello :=
  { peer := 1, resumed := false, token, cursor, phase }

def joined (n : Nat) : MessageDto := { joinedMessage 1 [] with serverSeq := some (n + 1) }

/-- The announcement of the first member is sent to nobody. -/
theorem welcome (free : n ≠ maxSequence) :
    Path (server { latest := n, history, log, hello := first token cursor .registered })
      (server { latest := n + 1, history := [joined n], log := log ++ [joined n]
                hello := first token cursor .bound }) := by
  let stage (phase : Phase) (fanout : Option Fanout) : Greeting :=
    { latest := n + 1, history := [joined n], log := log ++ [joined n]
      hello := first token cursor phase, publishing := fanout.map (⟨joined n, some 1, ·⟩) }
  have added : Room.addHistoryMessage config
      { name := [], sequencer := ⟨n⟩, peerById := [1], history } (joinedMessage 1 []) =
      some ((stage .bound none).room, joined n) := by
    simp [Room.addHistoryMessage, RoomSequencer.next, free, room, config, joined, stage,
      Boundaries.retainLast]
  let start : Server := server { latest := n, history, log, hello := first token cursor .registered }
  have greeted : start.handler 0 = .running (first token cursor .registered) := rfl
  have known : start.peers 1 = some (Peer.create 0 0 [] 1 0) := rfl
  have welcome : Step config written start .internal
      ((stage .registered (some .unread)).server.setHello 0 (first token cursor .welcoming)) :=
    .welcome rfl greeted rfl known added
  have members : Step config written (stage .welcoming (some .unread)).server .internal
      (stage .welcoming (some (.sending [1]))).server := .members rfl (List.Perm.refl _)
  have skip : Step config written (stage .welcoming (some (.sending [1]))).server .internal
      (stage .welcoming (some (.sending []))).server := .skip rfl (.inl rfl)
  have served : (stage .welcoming (some (.sending []))).server.handler 0 =
      .running (first token cursor .welcoming) := rfl
  have welcomed : Step config written (stage .welcoming (some (.sending []))).server .internal
      ((stage .welcoming none).server.setHello 0 (first token cursor .bound)) :=
    .welcomed rfl served rfl
  rw [setHello] at welcome welcomed
  exact ((internal welcome).trans (internal members)).trans ((internal skip).trans (internal welcomed))

/-- The READY of the first hello. -/
def answered (token : Bytes) (cursor n : Nat) : Hello :=
  let (history, resync) := (Greeting.room { latest := n + 1, history := [joined n], log := []
                                            hello := first token cursor .bound }).getHistoryAfter cursor
  { first token cursor .answered with
    peers := [{ peerId := some 1, peerName := some [] }], latest := n + 1
    history, resync, since := n + 1, upTo := n + 1, binding := some (0, 1) }

/-- The first hello of a room is answered. -/
theorem answer (free : n ≠ maxSequence) :
    Path (server { latest := n, history, log, hello := first token cursor .registered })
      (server { latest := n + 1, history := [joined n], log := log ++ [joined n]
                hello := answered token cursor n
                sent := [(answered token cursor n).ready []]
                peer := { Peer.create 0 0 [] 1 0 with outboundDrainActive := true } }) := by
  refine (welcome free).trans ?_
  let stage (hello : Hello) : Greeting :=
    { latest := n + 1, history := [joined n], log := log ++ [joined n], hello }
  let bound := first token cursor .bound
  let listed := { bound with
    phase := .listed, peers := [{ peerId := some 1, peerName := some [] }], since := n + 1 }
  let counted := { listed with phase := .counted, latest := n + 1 }
  let copied := { answered token cursor n with phase := .copied, binding := none }
  let captured := { copied with phase := .captured, binding := some (0, 1) }
  have list := advance (stage bound) listed rfl
  have count := advance (stage listed) counted rfl
  have copy := advance (stage counted) copied rfl
  have capture := advance (stage copied) captured rfl
  let ready := (answered token cursor n).ready []
  let frame : OutboundFrame := ⟨0, 1, ready⟩
  let peer := { Peer.create 0 0 [] 1 0 with outboundDrainActive := true }
  let sending (held : Option (OutboundFrame × Bool)) : Greeting :=
    { stage (answered token cursor n) with peer, held }
  have waiting : (stage captured).server.handler 0 = .running captured := rfl
  have known : (stage captured).server.peers 1 = some (Peer.create 0 0 [] 1 0) := rfl
  let queued : Greeting := { sending none with peer := { peer with outboundFrames := [frame] } }
  have posted : ((stage captured).server.post written 1 frame).setHello 0 (answered token cursor n) =
      queued.server := by
    rw [Server.post, known]
    exact (congrArg (Server.setHello · 0 _) (setPeer (stage captured) queued.peer)).trans
      (setHello { stage captured with peer := queued.peer } _)
  have answer : Step config written (stage captured).server (.post 1 frame) queued.server :=
    posted ▸ .answer waiting rfl rfl known
  have known : queued.server.peers 1 = some queued.peer := rfl
  have sent := @sends 1 _ _ _ _ known rfl (rfl : _ = (peer, some frame)) rfl
  rw [setPeer, write] at sent
  exact (((list.trans count).trans (copy.trans capture)).tail ⟨_, answer, rfl⟩).trans sent

/-- A room without members. -/
def vacant (n : Nat) (history log : List MessageDto) : Server :=
  { room := { name := [], sequencer := ⟨n⟩, history }, log }

/-- The first hello of a room is admitted and answered. -/
theorem served (token : Bytes) (cursor n : Nat) (history log : List MessageDto)
    (valid : validBase64UrlId token 32 = true) (free : n ≠ maxSequence) :
    ∃ s, Step config written (vacant n history log) (.fresh 0 token cursor) s ∧
      Path s (server { latest := n + 1, history := [joined n], log := log ++ [joined n]
                       hello := answered token cursor n
                       sent := [(answered token cursor n).ready []]
                       peer := { Peer.create 0 0 [] 1 0 with outboundDrainActive := true } }) := by
  let entered : Greeting :=
    { latest := n, history, log, hello := first token cursor .joined, lease := none }
  have made : entered.server = ({ vacant n history log with room := entered.room }.setPeer 1
      (Peer.create 0 0 [] 1 0)).setHello 0 (first token cursor .joined) := by
    simp [Server.setPeer, Server.setHello, vacant, Greeting.server, entered]
  have join : Step config written (vacant n history log) (.fresh 0 token cursor) entered.server := by
    rw [made]
    exact .join rfl valid rfl Nat.one_pos rfl
  have registered : server { entered with hello := first token cursor .registered, lease := some {} } =
      { entered.server with leases := Function.update entered.server.leases 1 (some {}) }.setHello 0
        (first token cursor .registered) := by
    simp [Greeting.server, Server.setHello, room]
  have running : entered.server.handler 0 = .running (first token cursor .joined) := rfl
  have register : Step config written entered.server .internal
      (server { entered with hello := first token cursor .registered, lease := some {} }) := by
    rw [registered]
    exact .register running rfl
  exact ⟨_, join, (internal register).trans (answer free)⟩

/-- The first member's server after its READY. -/
def greeted (token : Bytes) : Server :=
  server { latest := 1, history := [joined 0], log := [joined 0], hello := answered token 0 0
           sent := [(answered token 0 0).ready []]
           peer := { Peer.create 0 0 [] 1 0 with outboundDrainActive := true } }

def said (n : Nat) : MessageDto := { code := some .peerMessage, serverSeq := some n }

/-- The hello of a browser that comes back on socket 1 with event 2. -/
def again (token : Bytes) : Hello :=
  { peer := 1, resumed := true, token, cursor := 2, phase := .answered
    peers := [{ peerId := some 1, peerName := some [] }], latest := 3
    history := [said 3], since := 3, upTo := 3, binding := some (1, 2) }

structure Returned (token : Bytes) (s : Server) : Prop where
  running : s.handler 1 = .running (again token)
  log : s.log = [joined 0, said 2, said 3, said 4]
  latest : s.room.latestServerSeq = 4
  wire : s.wire 1 = [said 4, (again token).ready []]
  stream : s.stream 1 1 = s.wire 1
  bound : s.transport 1 = some (some 1)
  kept : s.invalidated 1 = false
  idle : s.awaits 1 = false

/-- The first member hears event 2 and goes away, misses event 3 and comes back; event 4
is published between the copy of the history and the answer to its hello. -/
theorem returns (token : Bytes) (valid : validBase64UrlId token 32 = true) :
    ∃ left, Path (greeted token) left ∧ left.wire 0 = [(answered token 0 0).ready [], said 2] ∧
    ∃ away, Step config written left (.detach 0) away ∧
    ∃ missing, Path away missing ∧ missing.handler 1 = .pending ∧
    ∃ back, Step config written missing (.resume 1 token 2) back ∧
    ∃ s, Path back s ∧ Returned token s := by
  have hears : Path (greeted token) _ :=
    (heard rfl rfl rfl rfl rfl rfl).trans (@sends 1 _ _ _ _ rfl rfl rfl rfl)
  refine ⟨_, hears, rfl, _, .detach rfl rfl rfl rfl, ?_⟩
  refine ⟨_, (internal (@Step.unlease _ _ _ _ 0 _ 0 rfl rfl rfl)).trans
    (missed rfl rfl rfl rfl rfl), rfl, ?_⟩
  refine ⟨_, @Step.resume _ _ _ _ _ _ _ _ 1 0 rfl valid rfl rfl, ?_⟩
  refine extend (internal (@Step.bind _ _ _ _ 1 _ 0 rfl rfl rfl)) ?_
  refine extend ((proceeds 1 rfl rfl).trans (proceeds 1 rfl rfl)) ?_
  refine extend (proceeds 1 rfl rfl) ?_
  -- the history is copied, and event 4 published before the binding is read
  refine extend (heard rfl rfl rfl rfl rfl rfl) ?_
  refine extend (proceeds 1 rfl rfl) ?_
  refine extend (posts (@Step.answer _ _ _ _ _ _ 1 _ rfl rfl rfl rfl) rfl) ?_
  refine ⟨_, (@sends 1 _ _ _ _ rfl rfl rfl rfl).trans (@sends 1 _ _ _ _ rfl rfl rfl rfl), ?_⟩
  exact ⟨rfl, rfl, rfl, rfl, rfl, rfl, rfl, rfl⟩

end Greeting

/-- The invariants of delivery together. -/
structure Delivery (config : ConfigDto) (s : Server) : Prop where
  published : Published config s
  waiting : ∀ send ∈ s.sends, transient send.frame.payload.code = true
  served : Served s
  answered : ∀ {T h}, s.handler T = .running h → h.phase.binds = true → s.invalidated T = false →
    ∃ nickname, (s.feed h.peer T).filter isReady =
      if h.phase = .answered then [h.ready nickname] else []
  logged : ∀ {T h m n}, s.handler T = .running h → h.phase.binds = true → s.invalidated T = false →
    m ∈ s.feed h.peer T → durableSeq m = some n → m ∈ s.log

section Delivery
variable {config : ConfigDto} {written : MessageDto → Nat} {s t : Server} {p : PeerId} {T : Socket}

/-- A durable message in a stream was published. -/
theorem feed_logged (reached : (server config written).Reachable s) (earlier : Delivery config s)
    (step : Step config written s l t) (found : t.handler T = .running h)
    (binds : h.phase.binds = true) (valid : t.invalidated T = false)
    (member : m ∈ t.feed h.peer T) (durable : durableSeq m = some n) : m ∈ t.log := by
  rcases binding_before reached step found binds with ⟨_, empty⟩ | ⟨k, before, bound, same, _⟩
  · simp [empty] at member
  have old : m ∈ s.feed h.peer T → m ∈ t.log := fun member =>
    mem_log_step step
      (earlier.logged before bound (invalidated_step step valid) (same ▸ member) durable)
  have keeps : ∀ {m}, m ∈ s.log → m ∈ t.log := mem_log_step step
  have change := feed_step reached step before bound valid
  rw [same] at change
  cases change with
  | kept _ same => exact old (same ▸ member)
  | @grown f label _ grown =>
    rw [grown, List.mem_append, List.mem_filter, List.mem_singleton] at member
    rcases member with member | ⟨rfl, _⟩
    · exact old member
    · subst label
      rcases post_step earlier.waiting step with ⟨_, _, was, _⟩ | ⟨_, _, silent⟩
      · exact keeps (earlier.published.event was).2
      · cases silent.symm.trans durable

theorem delivery (reached : (server config written).Reachable s) : Delivery config s := by
  refine reached.invariant ?_ ?_
  · rintro s ⟨name, rfl⟩
    refine ⟨?_, by simp, ⟨?_, ?_⟩, ?_, ?_⟩
    · constructor
      case logged => exact Room.Logged.start name
      all_goals simp
    all_goals simp
  · intro s l t reached earlier step
    exact {
      published := published_step (disciplined reached) earlier.published step
      waiting := sends_step earlier.waiting step
      served := ⟨fun is found own binds other copied =>
          stale_step reached earlier.published earlier.served step is found own binds other copied,
        fun found binds valid =>
          covers_step reached earlier.published earlier.waiting earlier.served step found binds valid⟩
      answered := fun found binds valid =>
        answered_step reached earlier.published earlier.waiting earlier.answered step found binds valid
      logged := fun found binds valid member durable =>
        feed_logged reached earlier step found binds valid member durable }

theorem mem_seqs : n ∈ seqs messages ↔ ∃ m ∈ messages, durableSeq m = some n := by
  simp [seqs]

/-- Published events are known by their numbers. -/
theorem event_unique (logged : s.room.Logged config s.log) (left : first ∈ s.log)
    (right : second ∈ s.log) (same : durableSeq first = durableSeq second) : first = second :=
  logged.numbered.unique left right same

theorem event_number (logged : s.room.Logged config s.log) (member : event ∈ s.log)
    (number : event.serverSeq = some n) : durableSeq event = some n ∧ n ≤ s.log.length := by
  obtain ⟨sequence, known, _, le⟩ := logged.numbered.durable member
  cases number.symm.trans (durableSeq_eq_some known).2
  exact ⟨known, le⟩

/-- A READY in the stream of a bound transport is the answer of its handler. -/
theorem ready_answered (reached : (server config written).Reachable s)
    (running : s.handler T = .running h) (binds : h.phase.binds = true)
    (valid : s.invalidated T = false) (sent : ready ∈ s.stream h.peer T)
    (is : ready.code = some .sessionReady) :
    h.phase = .answered ∧ ∃ nickname, ready = h.ready nickname := by
  obtain ⟨nickname, readies⟩ := (delivery reached).answered running binds valid
  have member : ready ∈ (s.feed h.peer T).filter isReady := by
    simp [Server.feed, sent, notable, isReady, is]
  rw [readies] at member
  split at member
  · rename_i phase
    exact ⟨phase, nickname, List.mem_singleton.mp member⟩
  · simp at member

/-- Every event after the cursor of a hello that was answered without a resync
is in its READY or was enqueued for the transport it has bound, as soon as the
event's own fan-out has served the peer. -/
theorem resume_loses_nothing (reached : (server config written).Reachable s)
    (running : s.handler T = .running h) (bound : s.transport h.peer = some (some T))
    (kept : s.invalidated T = false)
    (sent : ready ∈ s.stream h.peer T) (is : ready.code = some .sessionReady)
    (complete : ready.resyncRequired = some false)
    (event_in : event ∈ s.log) (number : event.serverSeq = some n) (later : h.cursor < n)
    (served : n = s.log.length → s.awaits h.peer = false) :
    some event ∈ ready.history.getD [] ∨ event ∈ s.stream h.peer T := by
  have invariant := delivery reached
  obtain ⟨k, same, _, binds⟩ := (disciplined reached).bound bound
  cases running.symm.trans same
  obtain ⟨phase, nickname, rfl⟩ := ready_answered reached running binds kept sent is
  have snapshot := invariant.published.snapshot running (by rw [phase]; rfl)
  have complete : h.resync = false := by simpa [Hello.ready] using complete
  have numbered := snapshot.numbered
  rw [complete, if_neg (by simp)] at numbered
  obtain ⟨known, le⟩ := event_number invariant.published.logged event_in number
  -- below the copied sequence the event is in the snapshot, above it in the stream
  by_cases copied : n ≤ h.upTo
  · left
    obtain ⟨m, member, eq⟩ := mem_seqs.mp (numbered.seqs.mem_iff.mpr ⟨later, copied⟩)
    have := event_unique invariant.published.logged (snapshot.logged m member) event_in (eq.trans known.symm)
    subst this
    simpa [Hello.ready] using member
  · right
    have covers := invariant.served.covers running binds kept
    have reaches : n ≤ s.delivered h.peer := by
      unfold Server.delivered
      split
      · rename_i awaited
        have : n ≠ s.log.length := fun last => by simp [served last] at awaited
        omega
      · exact le
    have floor : s.floor h = h.upTo := by simp [Server.floor, phase, Phase.hasCopied]
    obtain ⟨m, member, eq⟩ := mem_seqs.mp (covers.complete n (by omega) reaches)
    have logged := invariant.logged running binds kept member eq
    have := event_unique invariant.published.logged logged event_in (eq.trans known.symm)
    subst this
    exact (List.mem_filter.mp member).1

end Delivery

/-- A browser that comes back from event 2 finds event 3, which it missed, in its READY
and event 4, published during its hello, in its stream. -/
theorem resume_loses_nothing_first :
    ∃ s hello ready, (server Greeting.config Greeting.written).Reachable s ∧
      s.handler 1 = .running hello ∧ hello.resumed = true ∧ hello.cursor = 2 ∧
      ready ∈ s.stream hello.peer 1 ∧ s.log.length = 4 ∧
      ∀ n ∈ [3, 4], some (Greeting.said n) ∈ ready.history.getD [] ∨
        Greeting.said n ∈ s.stream hello.peer 1 := by
  let token : Bytes := List.replicate 43 0x41
  have valid : validBase64UrlId token 32 = true := by decide
  have run {s t : Server} (reached : (server Greeting.config Greeting.written).Reachable s)
      (path : Greeting.Path s t) : (server Greeting.config Greeting.written).Reachable t :=
    reached.many path fun ⟨l, step, _⟩ => ⟨l, step⟩
  obtain ⟨first, join, path⟩ := Greeting.served token 0 0 [] [] valid (by decide)
  obtain ⟨left, hears, _, away, detach, missing, misses, _, back, resume, s, answers, returned⟩ :=
    Greeting.returns token valid
  have start : (server Greeting.config Greeting.written).Reachable (Greeting.vacant 0 [] []) :=
    .start ⟨[], rfl⟩
  have greeted := run (start.next join) path
  have missed := run ((run greeted hears).next detach) misses
  have reached := run (missed.next resume) answers
  have sent : (Greeting.again token).ready [] ∈ s.stream 1 1 := by
    rw [returned.stream, returned.wire]
    exact .tail _ (.head _)
  refine ⟨s, _, _, reached, returned.running, rfl, rfl, sent, by simp [returned.log], fun n later => ?_⟩
  have published : Greeting.said n ∈ s.log ∧ 2 < n := by
    rw [returned.log]
    obtain rfl | rfl : n = 3 ∨ n = 4 := by simpa using later
    · exact ⟨by simp, by decide⟩
    · exact ⟨by simp, by decide⟩
  exact resume_loses_nothing reached returned.running returned.bound returned.kept sent rfl rfl
    published.1 rfl published.2 fun _ => returned.idle

end Conspire.Replay
