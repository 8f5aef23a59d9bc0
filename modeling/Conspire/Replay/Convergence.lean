import Conspire.Replay.System

/-! Replication converges. The page always shows a run of consecutive events that
ends at its cursor, and once it has taken every frame of a bound transport the
cursor is the room's latest sequence, as long as that is a safe integer. -/
namespace Conspire.Replay
open Session Transition Sequence Browser

/-- The page shows the events `base + 1, …, top` of the room, and a stored
session resumes after `top`. -/
structure Held (log : List MessageDto) (page : Page) (base top : Nat) : Prop where
  seen : page.reliability.seen = []
  start : page.base = base
  posted : Posted page
  rendered : Numbered base top page.rendered
  logged : ∀ m ∈ page.rendered, m ∈ log
  within : top ≤ log.length
  running : page.transport.stopped = false
  absent : page.stored = none → page.reliability.highestServerSeq = 0
  stored : ∀ {st}, page.stored = some st → st.resumeToken ≠ [] ∧ st.lastServerSeq = top ∧
    (page.reliability.highestServerSeq = top ∨ page.reliability.highestServerSeq = 0)

/-- The hello on a socket as the server sees it. -/
inductive Greeted (server : Server) (page : Page) (T : Socket) (taken : Nat) : Prop where
  | pending : server.handler T = .pending → Greeted server page T taken
  | refused : server.handler T = .refused → taken = 0 → Greeted server page T taken
  | running {h : Hello} : server.handler T = .running h → h.resumed = page.stored.isSome →
      h.cursor = (page.stored.map (·.lastServerSeq.toNat)).getD 0 →
      (∀ m ∈ server.wire T, m.code ≠ some .apiError) → Greeted server page T taken

/-- A page that waits for its READY. -/
structure Awaiting (server : Server) (page : Page) (T : Socket) (taken top : Nat) : Prop where
  cursor : page.stored.isSome → page.reliability.highestServerSeq = top
  inbox : page.handshakeInbox = (server.wire T).take taken
  within : taken ≤ (server.wire T).length
  unready : ∀ m ∈ page.handshakeInbox, m.code ≠ some .sessionReady
  greeted : Greeted server page T taken

/-- A page that has taken its READY. -/
structure Settled (server : Server) (page : Page) (T : Socket) (taken top : Nat) : Prop where
  cursor : page.reliability.highestServerSeq = top
  stored : page.stored.isSome
  bound : ∃ h, server.handler T = .running h ∧ h.phase.hasCopied = true ∧ h.upTo ≤ top
  ready : ∃ m ∈ (server.wire T).take taken, isReady m = true
  seen : ∀ n ∈ seqs ((server.wire T).take taken), n ≤ top
  within : taken ≤ (server.wire T).length

inductive Linked (s : System) (top : Nat) : Prop where
  | none : s.link = none → Linked s top
  | dialing {T : Socket} : s.link = some (T, s.page.transport.generation) →
      s.page.transport.state = .connecting → s.page.transport.socket.isSome → s.hellos T = .none →
      s.server.handler T = .pending → s.taken = 0 → Linked s top
  | waiting {T : Socket} : s.link = some (T, s.page.transport.generation) →
      s.page.transport.state = .handshaking → s.hellos T = some s.page.helloMessage →
      Awaiting s.server s.page T s.taken top → Linked s top
  | online {T : Socket} : s.link = some (T, s.page.transport.generation) →
      s.page.transport.state = .online → s.hellos T ≠ .none →
      Settled s.server s.page T s.taken top → Linked s top
  | refused {T : Socket} : s.link = some (T, s.page.transport.generation) →
      s.page.transport.state ≠ .online → s.hellos T ≠ .none →
      s.server.handler T = .refused → s.taken = 1 → Linked s top

/-- The invariant of a page in its room. -/
structure Replicated (s : System) (base top : Nat) : Prop where
  held : Held s.server.log s.page base top
  linked : Linked s top

section Serve
variable {config : ConfigDto} {written : MessageDto → Nat} {s t : Server} {page : Page}
  {T : Socket} {taken base top : Nat}

theorem Held.serve (held : Held s.log page base top) (step : Step config written s l t) :
    Held t.log page base top := by
  obtain ⟨more, log⟩ := log_step step
  refine { held with logged := ?_, within := ?_ }
  · exact fun m member => mem_log_step step (held.logged m member)
  · have := held.within
    simp only [log, List.length_append]
    omega

/-- The frames taken stay the first of the wire. -/
theorem take_step (reached : (server config written).Reachable s)
    (step : Step config written s l t) (within : taken ≤ (s.wire T).length) :
    (t.wire T).take taken = (s.wire T).take taken ∧ taken ≤ (t.wire T).length := by
  rcases wire_grows reached step T with same | ⟨m, grown, _⟩
  · rw [same]
    exact ⟨rfl, within⟩
  · rw [grown, List.take_append_of_le_length within, List.length_append]
    exact ⟨rfl, by omega⟩

theorem Queued.not_error (queued : Queued m) : m.code ≠ some .apiError := by
  rcases queued with numbered | ready | isTransient
  · obtain ⟨n, known⟩ := Option.isSome_iff_exists.mp numbered
    rcases durable_of_number known with code | code | code | code <;> simp [code]
  · simp [ready]
  · rintro error
    simp [error, transient] at isTransient

theorem refuse_pending (step : Step config written s (.refuse T) t) : s.handler T = .pending := by
  cases step with
  | refuse pending => exact pending

/-- What the page's hello says of its session. -/
theorem helloMessage_cursor (page : Page) (is : page.helloMessage.lastServerSeq = some cursor) :
    cursor = (page.stored.map (·.lastServerSeq.toNat)).getD 0 := (Option.some.inj is).symm

/-- A hello that is admitted was sent by the page. -/
theorem greeted_step (reached : (server config written).Reachable s)
    (step : Step config written s l t) (greeted : Greeted s page T taken)
    (within : taken ≤ (s.wire T).length)
    (fresh : ∀ {token cursor}, l = .fresh T token cursor → page.helloMessage.resumeToken = none ∧
      page.helloMessage.lastServerSeq = some cursor)
    (resumes : ∀ {token cursor}, l = .resume T token cursor →
      page.helloMessage.resumeToken = some token ∧ page.helloMessage.lastServerSeq = some cursor)
    (errors : ∀ {m}, l ≠ .apiError T m) : Greeted t page T taken := by
  -- of the messages that can be written now only a refusal is an error
  have queued : ∀ {m}, t.wire T = s.wire T ++ [m] → s.handler T ≠ .pending →
      m.code ≠ some .apiError := by
    intro m grown started
    rcases wire_grows reached step T with same | ⟨last, grown', kind⟩
    · simp [same] at grown
    · cases List.append_cancel_left (grown'.symm.trans grown)
      rcases kind with queued | ⟨_, rfl | rfl⟩
      · exact queued.not_error
      · exact absurd rfl errors
      · exact absurd (refuse_pending step) started
  cases greeted with
  | refused is zero =>
    refine .refused ?_ zero
    cases after : t.handler T with
    | refused => rfl
    | pending => cases (pending_step step after).symm.trans is
    | running h =>
      rcases hello_step step after with ⟨k, was, _⟩ | ⟨pending, _⟩
      · cases was.symm.trans is
      · cases pending.symm.trans is
  | pending is =>
    have empty := silent reached (.inl is)
    rw [empty] at within
    have zero : taken = 0 := Nat.le_zero.mp within
    cases after : t.handler T with
    | pending => exact .pending after
    | refused => exact .refused after zero
    | running h =>
      rcases hello_step step after with ⟨k, was, _⟩ | ⟨_, _, admitted⟩
      · cases was.symm.trans is
      have cleared : ∀ m ∈ t.wire T, m.code ≠ some .apiError := by
        intro m member
        rcases wire_grows reached step T with same | ⟨last, grown, kind⟩
        · simp [same, empty] at member
        · rw [grown, empty, List.nil_append, List.mem_singleton] at member
          subst member
          rcases kind with queued | ⟨_, rfl | rfl⟩
          · exact queued.not_error
          · exact absurd rfl errors
          · cases step with
            | refuse => simp [Server.write] at after
      cases admitted with
      | fresh label resumed =>
        obtain ⟨unresumed, cursor⟩ := fresh label
        refine .running after ?_ (helloMessage_cursor page cursor) cleared
        have absent : page.stored = none := by simpa [Page.helloMessage] using unresumed
        rw [resumed, absent]
        rfl
      | resumed label resumed =>
        obtain ⟨carries, cursor⟩ := resumes label
        refine .running after ?_ (helloMessage_cursor page cursor) cleared
        obtain ⟨st, stored, _⟩ : ∃ st, page.stored = some st ∧ _ := by
          simpa [Page.helloMessage] using carries
        rw [resumed, stored]
        rfl
  | running is resumed cursor quiet =>
    obtain ⟨h, now⟩ := running_step step is
    rcases hello_step step now with ⟨k, was, _, _, same, same', _⟩ | ⟨pending, _⟩
    · cases was.symm.trans is
      refine .running now (same' ▸ resumed) (same ▸ cursor) ?_
      intro m member
      rcases wire_grows reached step T with same | ⟨last, grown, _⟩
      · exact quiet m (same ▸ member)
      · rw [grown, List.mem_append, List.mem_singleton] at member
        rcases member with old | rfl
        · exact quiet m old
        · exact queued grown (by simp [is])
    · cases pending.symm.trans is

theorem Awaiting.serve (reached : (server config written).Reachable s)
    (step : Step config written s l t) (awaiting : Awaiting s page T taken top)
    (fresh : ∀ {token cursor}, l = .fresh T token cursor → page.helloMessage.resumeToken = none ∧
      page.helloMessage.lastServerSeq = some cursor)
    (resumes : ∀ {token cursor}, l = .resume T token cursor →
      page.helloMessage.resumeToken = some token ∧ page.helloMessage.lastServerSeq = some cursor)
    (errors : ∀ {m}, l ≠ .apiError T m) : Awaiting t page T taken top := by
  obtain ⟨front, within⟩ := take_step reached step awaiting.within
  exact ⟨awaiting.cursor, front ▸ awaiting.inbox, within, awaiting.unready,
    greeted_step reached step awaiting.greeted awaiting.within fresh resumes errors⟩

theorem Settled.serve (reached : (server config written).Reachable s)
    (step : Step config written s l t) (settled : Settled s page T taken top) :
    Settled t page T taken top := by
  obtain ⟨front, within⟩ := take_step reached step settled.within
  refine ⟨settled.cursor, settled.stored, ?_, front ▸ settled.ready, front ▸ settled.seen, within⟩
  obtain ⟨k, is, copied, upTo⟩ := settled.bound
  obtain ⟨h, now⟩ := running_step step is
  rcases hello_step step now with ⟨_, was, _, _, _, _, keeps⟩ | ⟨pending, _⟩
  · cases was.symm.trans is
    obtain ⟨copied', same⟩ := keeps copied
    exact ⟨h, now, copied', same ▸ upTo⟩
  · cases pending.symm.trans is

theorem Linked.serve {s : System} {after : Server} {l : Label}
    (reached : (server config written).Reachable s.server) (linked : Linked s top)
    (step : Step config written s.server l after) (admits : s.admits l) :
    Linked { s with server := after } top := by
  cases linked with
  | none free => exact .none free
  | @dialing T link state socket hellos pending taken =>
    refine .dialing link state socket hellos ?_ taken
    have unheard : ¬ s.hellos T ≠ .none := by simp [hellos]
    have owned : s.owns T := .inr ⟨_, link⟩
    cases handler : after.handler T with
    | pending => rfl
    | refused =>
      rcases refused_step step handler with was | ⟨rfl, _⟩
      · cases was.symm.trans pending
      · exact absurd (admits owned) unheard
    | running h =>
      rcases hello_step step handler with ⟨_, was, _⟩ | ⟨_, _, admitted⟩
      · cases was.symm.trans pending
      · cases admitted with
        | fresh label | resumed label =>
          subst label
          obtain ⟨hello, sent, _⟩ := admits owned
          cases sent.symm.trans hellos
  | @waiting T link state hellos awaiting =>
    refine .waiting link state hellos (awaiting.serve reached step ?_ ?_ ?_)
    · rintro token cursor rfl
      obtain ⟨hello, sent, facts⟩ := admits (.inr ⟨_, link⟩)
      cases sent.symm.trans hellos
      exact facts
    · rintro token cursor rfl
      obtain ⟨hello, sent, facts⟩ := admits (.inr ⟨_, link⟩)
      cases sent.symm.trans hellos
      exact facts
    · rintro m rfl
      have online := admits ⟨_, link⟩
      rw [state] at online
      cases online
  | online link state hellos settled =>
    exact .online link state hellos (settled.serve reached step)
  | @refused T link state hellos is taken =>
    refine .refused link state hellos ?_ taken
    cases handler : after.handler T with
    | refused => rfl
    | pending => cases (pending_step step handler).symm.trans is
    | running h =>
      rcases hello_step step handler with ⟨_, was, _⟩ | ⟨pending, _⟩
      · cases was.symm.trans is
      · cases pending.symm.trans is

end Serve

section Dial
variable {transport next : ReconnectingTransport} {created : Option Socket} {delay : Nat}

/-- What a dial does to the transport: nothing that matters, or a new generation
that waits for its socket to open. -/
inductive Dialed (transport : ReconnectingTransport) (created : Option Socket)
    (next : ReconnectingTransport) : Prop where
  | kept : next.generation = transport.generation → next.state = transport.state →
      next.socket = transport.socket → next.stopped = transport.stopped → Dialed transport created next
  | failed : transport.generation < next.generation → created = none → next.stopped = false →
      Dialed transport created next
  | began {T : Socket} : transport.generation < next.generation → created = some T →
      next.state = .connecting → next.socket = some T → next.stopped = false →
      Dialed transport created next

theorem connect_new {old : ReconnectingTransport} (running : transport.stopped = false)
    (later : old.generation ≤ transport.generation)
    (free : transport.state ≠ .connecting ∧ transport.state ≠ .handshaking) :
    Dialed old created (transport.connect created delay) := by
  have grown : old.generation < transport.generation + 1 := by omega
  unfold ReconnectingTransport.connect
  rw [if_neg (by simp [running, free])]
  cases created with
  | none =>
    refine .failed ?_ rfl ?_ <;>
      simp [ReconnectingTransport.retry, ReconnectingTransport.clearRetry, running, grown]
  | some T => exact .began grown rfl rfl rfl running

theorem connect_dialed {old : ReconnectingTransport} (running : transport.stopped = false)
    (generation : transport.generation = old.generation) (state : transport.state = old.state)
    (socket : transport.socket = old.socket) (same : transport.stopped = old.stopped) :
    Dialed old created (transport.connect created delay) := by
  by_cases busy : transport.state = .connecting ∨ transport.state = .handshaking
  · have blocked : transport.connect created delay = transport := by
      unfold ReconnectingTransport.connect
      rw [if_pos (by simpa [running] using busy)]
    rw [blocked]
    exact .kept generation state socket same
  · exact connect_new running (by omega) (not_or.mp busy)

theorem dials_dialed (running : transport.stopped = false)
    (dials : Dials transport created delay next) : Dialed transport created next := by
  cases dials with
  | start => exact connect_dialed rfl rfl rfl rfl running.symm
  | retry => exact connect_dialed running rfl rfl rfl rfl
  | timer => exact connect_dialed running rfl rfl rfl rfl
  | online =>
    unfold ReconnectingTransport.reconnectNow
    rw [if_neg (by simp [running])]
    exact connect_new running (Nat.le_succ _) (by simp)

end Dial

section Page
variable {s : System} {page : Page} {log : List MessageDto} {base top : Nat} {T : Socket}
  {transport : ReconnectingTransport} {delay generation : Nat}

theorem Held.dial (held : Held log page base top) (running : transport.stopped = false) :
    Held log { page with transport } base top :=
  { held with running }

/-- The link depends on the page's cursor, session and inbox and on its transport. -/
theorem Linked.keep (linked : Linked s top)
    (generation : page.transport.generation = s.page.transport.generation)
    (state : page.transport.state = s.page.transport.state)
    (socket : page.transport.socket = s.page.transport.socket)
    (cursor : page.reliability.highestServerSeq = s.page.reliability.highestServerSeq)
    (stored : page.stored = s.page.stored) (inbox : page.handshakeInbox = s.page.handshakeInbox)
    (hello : page.helloMessage = s.page.helloMessage) : Linked { s with page } top := by
  cases linked with
  | none free => exact .none free
  | dialing link is known hellos pending taken =>
    exact .dialing (generation ▸ link) (state ▸ is) (socket ▸ known) hellos pending taken
  | waiting link is hellos awaiting =>
    refine .waiting (generation ▸ link) (state ▸ is) (hello ▸ hellos) ?_
    refine ⟨fun known => cursor ▸ awaiting.cursor (stored ▸ known), inbox ▸ awaiting.inbox,
      awaiting.within, inbox ▸ awaiting.unready, ?_⟩
    cases awaiting.greeted with
    | pending pending => exact .pending pending
    | refused refused zero => exact .refused refused zero
    | running running resumed cursor quiet =>
      exact .running running (stored ▸ resumed) (stored ▸ cursor) quiet
  | online link is hellos settled =>
    exact .online (generation ▸ link) (state ▸ is) hellos
      { settled with cursor := cursor.trans settled.cursor, stored := stored ▸ settled.stored }
  | refused link is hellos refused taken =>
    exact .refused (generation ▸ link) (state ▸ is) hellos refused taken

theorem Replicated.dial (rep : Replicated s base top)
    (dials : Dials s.page.transport created delay next)
    (fresh : ∀ T, created = some T → s.unused T) : Replicated (s.dialed next created) base top := by
  cases dials_dialed rep.held.running dials with
  | kept same state socket stopped =>
    rw [System.dialed, if_pos same]
    exact ⟨rep.held.dial (stopped.trans rep.held.running), rep.linked.keep same state socket rfl rfl rfl rfl⟩
  | failed later unlinked running =>
    rw [System.dialed, if_neg (Nat.ne_of_gt later), unlinked]
    exact ⟨rep.held.dial running, .none rfl⟩
  | @began T later dials state socket running =>
    obtain ⟨pending, unsent, _⟩ := fresh T dials
    rw [System.dialed, if_neg (Nat.ne_of_gt later), dials]
    exact ⟨rep.held.dial running,
      .dialing rfl state (by simp [socket]) unsent pending rfl⟩

/-- The cursor a hello continues from. -/
theorem restoreCursor_held (held : Held log page base top) (safe : log.length ≤ maxSafeInteger) :
    let state := page.reliability.restoreCursor (page.stored.map (·.lastServerSeq))
    state.seen = [] ∧ (page.stored = none → state.highestServerSeq = 0) ∧
      (page.stored.isSome → state.highestServerSeq = top) := by
  have within := held.within
  cases stored : page.stored with
  | none => exact ⟨held.seen, fun _ => held.absent stored, by simp⟩
  | some st =>
    obtain ⟨_, cursor, highest⟩ := held.stored stored
    simp only [Option.map_some, ReliabilityState.restoreCursor, cursor]
    refine ⟨?_, by simp, fun _ => ?_⟩
    · split <;> exact held.seen
    · split
      · rfl
      · rename_i kept
        rcases highest with same | zero
        · exact same
        · have small : (top : Int).natAbs ≤ maxSafeInteger := by omega
          simp only [held.seen, zero, isSafeInteger, small, List.isEmpty_nil, decide_true,
            Bool.true_and, decide_eq_true_eq, not_lt] at kept
          omega

theorem Replicated.opened (rep : Replicated s base top)
    (safe : s.server.log.length ≤ maxSafeInteger)
    (link : s.link = some (T, generation)) (unsent : s.hellos T = none)
    (opens : s.page.onOpen generation = (page, hello)) :
    Replicated { s with page, hellos := Function.update s.hellos T hello } base top := by
  cases rep.linked with
  | none free => cases free.symm.trans link
  | online link' _ hellos | refused link' _ hellos =>
    cases link'.symm.trans link
    exact absurd unsent hellos
  | waiting link' _ hellos =>
    cases link'.symm.trans link
    cases hellos.symm.trans unsent
  | dialing link' state socket _ pending taken =>
    cases link'.symm.trans link
    have admits : s.page.transport.admits s.page.transport.generation = true := by
      simp [ReconnectingTransport.admits, rep.held.running]
    obtain ⟨seen, absent, cursor⟩ := restoreCursor_held rep.held safe
    simp only [Page.onOpen, admits, if_true, ReconnectingTransport.opened, Page.sendHello,
      ReconnectingTransport.sendsHello, socket, decide_true, Bool.and_self, Prod.mk.injEq] at opens
    obtain ⟨rfl, rfl⟩ := opens
    refine ⟨?_, .waiting link rfl ?_ ?_⟩
    · refine ⟨seen, rep.held.start, rep.held.posted, rep.held.rendered, rep.held.logged, rep.held.within,
        rep.held.running, absent, ?_⟩
      intro st stored
      obtain ⟨token, last, _⟩ := rep.held.stored stored
      exact ⟨token, last, .inl (cursor (by simp only at stored; simp [stored]))⟩
    · simp only [Function.update_self]
    · refine ⟨cursor, ?_, ?_, by simp, .pending pending⟩
      · simp [taken]
      · simp [taken]

theorem Replicated.closed (rep : Replicated s base top) (generation delay : Nat) :
    Replicated { s with
      page := { s.page with transport := s.page.transport.closed generation delay }
      link := none } base top := by
  refine ⟨rep.held.dial ?_, .none rfl⟩
  unfold ReconnectingTransport.closed ReconnectingTransport.retry
  split
  · split <;> exact rep.held.running
  · exact rep.held.running

theorem enqueue_cursor (state : ReliabilityState) (command : Command) :
    (state.enqueue command).1.seen = state.seen ∧
      (state.enqueue command).1.highestServerSeq = state.highestServerSeq := by
  unfold ReliabilityState.enqueue
  split <;> exact ⟨rfl, rfl⟩

theorem Replicated.submit (rep : Replicated s base top) (command : Command) :
    Replicated { s with
      page := { s.page with reliability := (s.page.reliability.enqueue command).1 } } base top := by
  obtain ⟨seen, cursor⟩ := enqueue_cursor s.page.reliability command
  refine ⟨?_, rep.linked.keep rfl rfl rfl cursor rfl rfl rfl⟩
  exact { rep.held with
    seen := seen.trans rep.held.seen
    absent := fun absent => cursor.trans (rep.held.absent absent)
    stored := fun {st} known => by
      obtain ⟨token, last, highest⟩ := rep.held.stored known
      exact ⟨token, last, cursor ▸ highest⟩ }

/-- A new document goes on from the stored cursor. -/
theorem Replicated.reload (rep : Replicated s base top) (capability : Bytes) :
    Replicated { s with page := s.page.reloaded capability, link := none } base top := by
  refine ⟨⟨rfl, rep.held.start, rep.held.posted, rep.held.rendered, rep.held.logged, rep.held.within, rfl,
    fun _ => rfl, fun {st} known => ?_⟩, .none rfl⟩
  obtain ⟨token, last, _⟩ := rep.held.stored known
  exact ⟨token, last, .inr rfl⟩

end Page

section Deliver
variable {config : ConfigDto} {written : MessageDto → Nat} {s : Server} {page : Page}
  {T : Socket} {h : Hello} {taken base top : Nat} {message : MessageDto}

/-- What the wire of a started hello holds. -/
theorem carried_wire (reached : (server config written).Reachable s)
    (valid : ∀ T, s.invalidated T = false) (is : s.handler T = .running h)
    (member : message ∈ s.wire T) : Carried s T h := by
  refine carried reached is ?_ (valid T)
  intro resuming
  rw [silent reached (.inr ⟨h, is, resuming⟩)] at member
  cases member

theorem streamed (reached : (server config written).Reachable s)
    (member : message ∈ s.wire T) (unready : message.code ≠ some .sessionReady) :
    Streamed message := by
  refine ⟨?_, ?_, unready⟩
  all_goals rcases wire_sendable reached member with (numbered | ready | isTransient) | error
  · exact fun _ => numbered
  · exact absurd ready unready
  · simp [transient_not_durable isTransient]
  · simp [error, durableCode]
  · obtain ⟨n, known⟩ := Option.isSome_iff_exists.mp numbered
    rcases durable_of_number known with code | code | code | code <;> simp [code]
  · exact absurd ready unready
  · rintro info
    simp [info, transient] at isTransient
  · simp [error]

theorem take_succ (upcoming : (s.wire T)[taken]? = some message) :
    (s.wire T).take (taken + 1) = (s.wire T).take taken ++ [message] ∧
      s.wire T = (s.wire T).take taken ++ message :: (s.wire T).drop (taken + 1) ∧
      taken + 1 ≤ (s.wire T).length := by
  obtain ⟨bound, is⟩ := List.getElem?_eq_some_iff.mp upcoming
  refine ⟨?_, ?_, bound⟩
  · rw [List.take_add_one, upcoming]
    rfl
  · conv_lhs => rw [← List.take_append_drop taken (s.wire T), List.drop_eq_getElem_cons bound, is]

theorem deliver_ready (reached : (server config written).Reachable s)
    (valid : ∀ T, s.invalidated T = false) (limited : 0 < historyLimit config)
    (safe : s.log.length ≤ maxSafeInteger) (held : Held s.log page base top)
    (awaiting : Awaiting s page T taken top)
    (is : s.handler T = .running h) (resumed : h.resumed = page.stored.isSome)
    (cursor : h.cursor = (page.stored.map (·.lastServerSeq.toNat)).getD 0)
    (upcoming : (s.wire T)[taken]? = some message) (code : message.code = some .sessionReady)
    (delay : Nat) :
    ∃ start top, Held s.log (page.onMessage delay message).1 start top ∧
      Settled s (page.onMessage delay message).1 T (taken + 1) top ∧
      (page.onMessage delay message).1.transport = page.transport.ready ∧
      ((h.resync || !h.resumed) = true → Numbered start h.upTo h.history) ∧
      ((h.resync || !h.resumed) = false → start = base) := by
  obtain ⟨taken_succ, halves, bound⟩ := take_succ upcoming
  have member : message ∈ s.wire T := List.mem_of_getElem? upcoming
  have carried := carried_wire reached valid is member
  have outgoing : ∀ {m}, m ∈ s.wire T → m ∈ s.outgoing h.peer T := List.mem_append_left _
  obtain ⟨copied, nickname, rfl⟩ := carried.ready (outgoing member) code
  have snapshot := (delivery reached).published.snapshot is copied
  have logged := (delivery reached).published.logged
  obtain ⟨token, positive⟩ := (genuine reached).1 is
  have numbered := snapshot.numbered
  set a := if h.resync then h.upTo - historyLimit config else h.cursor with start
  -- an empty history that replaces the page's is that of an empty room
  have replaced : (h.resync || !h.resumed) = true → h.history = [] → h.upTo = 0 := by
    intro replaced empty
    have low := numbered.1
    have length := numbered.length
    rw [empty, List.length_nil] at length
    cases resync : h.resync with
    | true =>
      rw [resync, if_pos rfl] at start
      omega
    | false =>
      have absent : page.stored = none := by simpa [resync, resumed] using replaced
      rw [resync, if_neg (by simp), cursor, absent] at start
      simp only [Option.map_none, Option.getD_none] at start
      omega
  have continued : (h.resync || !h.resumed) = false → Shows page base a := by
    intro kept
    obtain ⟨resync, hasStored⟩ : h.resync = false ∧ page.stored.isSome := by
      simpa [resumed] using kept
    obtain ⟨st, stored⟩ := Option.isSome_iff_exists.mp hasStored
    have same : a = top := by
      rw [start, resync, if_neg (by simp), cursor, stored]
      simp [(held.stored stored).2.1]
    rw [same]
    exact ⟨held.seen, awaiting.cursor hasStored, held.start, held.rendered⟩
  have stores : Stores False page := fun st stored => ⟨(held.stored stored).1, False.elim⟩
  have front : ∀ m ∈ page.handshakeInbox, m ∈ s.wire T := by
    intro m inside
    rw [awaiting.inbox] at inside
    exact List.mem_of_mem_take inside
  have positive' : ∀ n ∈ seqs page.handshakeInbox, 0 < n := by
    intro n inside
    obtain ⟨m, inbox, known⟩ := mem_seqs.mp inside
    obtain ⟨k, same, above, _⟩ := logged.numbered.durable (carried.logged (outgoing (front m inbox)) known)
    cases same.symm.trans known
    exact above
  obtain ⟨u, le, covers⟩ := carried.covers
  rw [Server.floor, if_pos copied, Server.outgoing, halves, List.append_assoc, seqs_append] at covers
  obtain ⟨v, le', covers⟩ := covers.front
  rw [← awaiting.inbox] at covers
  have within := snapshot.within
  obtain ⟨start, reach, online⟩ := onSessionReady_online delay nickname positive token held.running
    numbered snapshot.latest replaced continued stores held.posted
    (fun m inside => streamed reached (front m inside) (awaiting.unready m inside))
    positive' covers.reach (Nat.le_max_right ..) (by omega)
  have page_eq : (page.onMessage delay (h.ready nickname)).1 =
      (page.onSessionReady delay (h.ready nickname)).1 := by
    simp [Page.onMessage, Hello.ready]
  rw [page_eq]
  refine ⟨start, reach, ?_, ?_, online.transport, online.replaced, fun kept => ?_⟩
  · refine ⟨online.shows.seen, online.shows.start, online.posted, online.shows.rendered, ?_, ?_, ?_, ?_, ?_⟩
    · intro m shown
      obtain ⟨n, known, _⟩ := online.shows.rendered.durable shown
      rcases online.rendered m shown with earlier | event | raced
      · exact held.logged m earlier
      · exact snapshot.logged m event
      · exact carried.logged (outgoing (front m raced)) known
    · have := online.within
      omega
    · rw [online.transport]
      simp [ReconnectingTransport.ready, ReconnectingTransport.clearRetry, held.running]
    · intro absent
      have stored := online.stored
      rw [absent] at stored
      cases stored
    · intro st stored
      obtain ⟨token, last⟩ := online.stores st stored
      exact ⟨token, (last trivial).trans online.shows.highest, .inl online.shows.highest⟩
  · refine ⟨online.shows.highest, online.stored, ⟨h, is, copied, online.snapshot⟩, ?_, ?_, bound⟩
    · exact ⟨h.ready nickname, by rw [taken_succ]; simp, rfl⟩
    · intro n inside
      rw [taken_succ, ← awaiting.inbox, seqs_append] at inside
      simp only [seqs_cons, durableSeq, Hello.ready, durableCode, List.mem_append] at inside
      rcases inside with inside | nothing
      · exact online.drained n inside
      · simp at nothing
  · exact (online.continued kept).symm.trans held.start

/-- A frame that races ahead of READY waits in the inbox. -/
theorem deliver_inbox (held : Held s.log page base top)
    (state : page.transport.state = .handshaking) (awaiting : Awaiting s page T taken top)
    (room : page.handshakeInbox.length < maxHandshakeInbox) (is : s.handler T = .running h)
    (resumed : h.resumed = page.stored.isSome)
    (cursor : h.cursor = (page.stored.map (·.lastServerSeq.toNat)).getD 0)
    (quiet : ∀ m ∈ s.wire T, m.code ≠ some .apiError)
    (upcoming : (s.wire T)[taken]? = some message) (unready : message.code ≠ some .sessionReady)
    (delay : Nat) :
    (page.onMessage delay message).1 =
        { page with handshakeInbox := page.handshakeInbox ++ [message] } ∧
      Held s.log { page with handshakeInbox := page.handshakeInbox ++ [message] } base top ∧
      Awaiting s { page with handshakeInbox := page.handshakeInbox ++ [message] } T (taken + 1) top := by
  obtain ⟨taken_succ, _, bound⟩ := take_succ upcoming
  have fine := quiet message (List.mem_of_getElem? upcoming)
  refine ⟨?_, { held with }, awaiting.cursor, ?_, bound, ?_, .running is resumed cursor quiet⟩
  · simp [Page.onMessage, state, unready, fine, pushHandshake, Nat.not_le.mpr room]
  · rw [taken_succ, ← awaiting.inbox]
  · intro m inside
    rw [List.mem_append, List.mem_singleton] at inside
    rcases inside with old | rfl
    · exact awaiting.unready m old
    · exact unready

/-- A frame after READY is handled at once. -/
theorem deliver_online (reached : (server config written).Reachable s)
    (valid : ∀ T, s.invalidated T = false) (safe : s.log.length ≤ maxSafeInteger)
    (held : Held s.log page base top) (state : page.transport.state = .online)
    (settled : Settled s page T taken top) (upcoming : (s.wire T)[taken]? = some message) (delay : Nat) :
    message.code ≠ some .sessionReady ∧
    ∃ top, Held s.log (page.onMessage delay message).1 base top ∧
      Settled s (page.onMessage delay message).1 T (taken + 1) top ∧
      (page.onMessage delay message).1.transport = page.transport := by
  obtain ⟨taken_succ, halves, bound⟩ := take_succ upcoming
  have member : message ∈ s.wire T := List.mem_of_getElem? upcoming
  obtain ⟨h, is, copied, upTo⟩ := settled.bound
  have carried := carried_wire reached valid is member
  have logged := (delivery reached).published.logged
  have unready : message.code ≠ some .sessionReady := by
    intro again
    obtain ⟨first, before, ready⟩ := settled.ready
    have once := carried.once
    rw [Server.outgoing, halves, List.append_assoc, List.filter_append, List.length_append] at once
    have one := List.length_pos_of_mem (List.mem_filter.mpr ⟨before, ready⟩)
    have two : 0 < ((message :: (s.wire T).drop (taken + 1) ++ s.checked h.peer T).filter isReady).length :=
      List.length_pos_of_mem (List.mem_filter.mpr ⟨.head _, by simpa [isReady] using again⟩)
    omega
  have handled : (page.onMessage delay message).1 = [message].foldl
      (fun page message => page.onOtherMessage delay message) page := by
    simp [Page.onMessage, state, unready]
  have in_log : ∀ {m n}, m ∈ s.wire T → durableSeq m = some n → m ∈ s.log :=
    fun inside => carried.logged (List.mem_append_left _ inside)
  have shows : Shows page base top := ⟨held.seen, settled.cursor, held.start, held.rendered⟩
  have stores : Stores True page := by
    intro st stored
    obtain ⟨token, last, _⟩ := held.stored stored
    exact ⟨token, fun _ => last.trans settled.cursor.symm⟩
  have admitted : ∀ m ∈ [message], Streamed m := by
    intro m inside
    rw [List.mem_singleton.mp inside]
    exact streamed reached member unready
  have positive : ∀ n ∈ seqs [message], 0 < n := by
    intro n inside
    obtain ⟨m, here, known⟩ := mem_seqs.mp inside
    rw [List.mem_singleton.mp here] at known
    obtain ⟨k, same, above, _⟩ := logged.numbered.durable (in_log member known)
    cases same.symm.trans known
    exact above
  obtain ⟨u, le, covers⟩ := carried.covers
  rw [Server.floor, if_pos copied, Server.outgoing, halves, List.append_assoc, seqs_append] at covers
  have rest := covers.back settled.seen upTo
  rw [List.cons_append, ← List.singleton_append, seqs_append] at rest
  have within := held.within
  obtain ⟨reach, shows, stores, kept, later, le', seen, _⟩ := (posts_online delay).foldl [message]
    shows stores state admitted positive rest (Nat.le_max_right ..) (by omega)
  rw [handled]
  refine ⟨unready, reach, ?_, ?_, kept.transport⟩
  · refine ⟨shows.seen, shows.start, kept.posted held.posted, shows.rendered, ?_, by omega, ?_, ?_, ?_⟩
    · intro m shown
      obtain ⟨n, known, _⟩ := shows.rendered.durable shown
      rcases kept.rendered m shown with earlier | now
      · exact held.logged m earlier
      · rw [List.mem_singleton.mp now] at known ⊢
        exact in_log member known
    · rw [kept.transport]
      exact held.running
    · intro absent
      have known := congrArg Option.isSome kept.stored
      rw [Option.isSome_map, Option.isSome_map, absent, settled.stored] at known
      cases known
    · intro st stored
      obtain ⟨token, last⟩ := stores st stored
      exact ⟨token, (last trivial).trans shows.highest, .inl shows.highest⟩
  · refine ⟨shows.highest, ?_, ⟨h, is, copied, Nat.le_trans upTo later⟩, ?_, ?_, bound⟩
    · have known := congrArg Option.isSome kept.stored
      rwa [Option.isSome_map, Option.isSome_map, settled.stored] at known
    · obtain ⟨first, before, ready⟩ := settled.ready
      exact ⟨first, by rw [taken_succ]; exact List.mem_append_left _ before, ready⟩
    · intro n inside
      rw [taken_succ, seqs_append, List.mem_append] at inside
      rcases inside with old | now
      · exact Nat.le_trans (settled.seen n old) later
      · exact seen n now

/-- A refused hello ends the handshake or leaves a retry pending. -/
theorem retry_handshaking {transport : ReconnectingTransport} (delay : Nat)
    (state : transport.state = .handshaking) :
    (transport.retry transport.generation delay).generation = transport.generation ∧
      (transport.retry transport.generation delay).state ≠ .online ∧
      (transport.retry transport.generation delay).stopped = transport.stopped := by
  unfold ReconnectingTransport.retry
  split
  · simp [state]
  · simp

theorem Replicated.deliver {s : System} (reached : (server config written).Reachable s.server)
    (valid : ∀ T, s.server.invalidated T = false) (limited : 0 < historyLimit config)
    (safe : s.server.log.length ≤ maxSafeInteger) (rep : Replicated s base top)
    (link : s.link = some (T, generation)) (upcoming : (s.server.wire T)[s.taken]? = some message)
    (room : s.page.transport.state = .handshaking →
      s.page.handshakeInbox.length < maxHandshakeInbox) (delay : Nat) :
    ∃ base top, Replicated { s with
      page := (s.page.onMessage delay message).1, taken := s.taken + 1 } base top := by
  have bound := (take_succ upcoming).2.2
  cases rep.linked with
  | none free => cases free.symm.trans link
  | dialing link' _ _ _ pending =>
    cases link'.symm.trans link
    simp [silent reached (.inl pending)] at bound
  | refused link' _ _ refused taken =>
    cases link'.symm.trans link
    simp [refused_wire reached refused, taken] at bound
  | online link' state hellos settled =>
    cases link'.symm.trans link
    obtain ⟨_, reach, held, settled, transport⟩ := deliver_online reached valid safe rep.held state
      settled upcoming delay
    exact ⟨base, reach, held, .online (by rw [transport]; exact link) (by rw [transport]; exact state)
      hellos settled⟩
  | waiting link' state hellos awaiting =>
    cases link'.symm.trans link
    cases awaiting.greeted with
    | pending pending => simp [silent reached (.inl pending)] at bound
    | refused refused zero =>
      have wire := refused_wire reached refused
      rw [wire, zero] at upcoming
      cases upcoming
      have handled : (s.page.onMessage delay sessionUnavailable).1 = s.page.invalidSession delay := by
        simp [Page.onMessage, Page.onOtherMessage, sessionUnavailable, state]
      rw [handled]
      obtain ⟨generation, offline, stopped⟩ := retry_handshaking delay state
      refine ⟨base, top, ?_, .refused ?_ offline (by simp [hellos]) refused (by simp [zero])⟩
      · exact ⟨rfl, rep.held.start, rep.held.posted, rep.held.rendered, rep.held.logged, rep.held.within,
          stopped.trans rep.held.running, fun _ => rfl, by simp [Page.invalidSession, Page.clearSession]⟩
      · exact generation ▸ link
    | running is resumed cursor quiet =>
      by_cases ready : message.code = some .sessionReady
      · obtain ⟨base, reach, held, settled, transport, _⟩ := deliver_ready reached valid limited safe
          rep.held awaiting is resumed cursor upcoming ready delay
        have online : s.page.transport.ready.state = .online ∧
            s.page.transport.ready.generation = s.page.transport.generation := by
          simp [ReconnectingTransport.ready, ReconnectingTransport.clearRetry, rep.held.running]
        refine ⟨base, reach, held, .online ?_ ?_ (by simp [hellos]) settled⟩
        · rw [transport, online.2]
          exact link
        · rw [transport]
          exact online.1
      · obtain ⟨same, held, awaiting⟩ := deliver_inbox rep.held state awaiting (room state) is
          resumed cursor quiet upcoming ready delay
        rw [same]
        exact ⟨base, top, held, .waiting link state hellos awaiting⟩

end Deliver

section Greeting
open Greeting
variable {n : Nat} {history log : List MessageDto}

abbrev greeting : Machine System Event := replication Greeting.config Greeting.written

/-- The first page of a room once it has dialed socket 0 and said hello on it. -/
def dialedPage : Page := { transport := ReconnectingTransport.start {} (some 0) 0 }
def openedPage : Page := (dialedPage.onOpen 1).1

def greetingToken : Bytes := List.replicate 43 0x41

def System.greeted (server : Server) (page : Page) (taken : Nat) : System :=
  { server, page, link := some (0, 1), taken
    hellos := Function.update (fun _ => none) 0 (some dialedPage.helloMessage) }

theorem calm_step {s : System} (step : Step Greeting.config Greeting.written s.server l after)
    (quiet : calm s.server l) : greeting.step s (.serve l) { s with server := after } := by
  refine ⟨.serve step ?_, ?_⟩
  · cases l with
    | internal | write | post => trivial
    | fresh | resume | refuse | apiError | detach => exact quiet.elim
  · cases l with
    | internal | write => trivial
    | post => exact quiet
    | fresh | resume | refuse | apiError | detach => exact quiet.elim

/-- The server may follow any quiet path of its own. -/
theorem path_reached {s : System} (reached : greeting.Reachable s) (path : Path s.server t) :
    greeting.Reachable { s with server := t } := by
  induction path with
  | refl => exact reached
  | tail _ step ih =>
    obtain ⟨l, step, quiet⟩ := step
    exact ih.next (calm_step step quiet)

theorem internal_reached {s : System} (reached : greeting.Reachable s)
    (step : Step Greeting.config Greeting.written s.server .internal after) :
    greeting.Reachable { s with server := after } :=
  path_reached reached (internal step)

theorem deliver_reached {s : System} (reached : greeting.Reachable s) (link : s.link = some (T, g))
    (admits : s.page.transport.admits g = true) (upcoming : (s.server.wire T)[s.taken]? = some message)
    (room : s.page.handshakeInbox.length < maxHandshakeInbox) :
    greeting.Reachable { s with page := (s.page.onMessage 0 message).1, taken := s.taken + 1 } :=
  reached.next (l := Event.deliver message) ⟨.deliver link admits upcoming, fun _ => room⟩

/-- The first page of a room says hello. -/
theorem waiting_reached (reached : greeting.Reachable { server := vacant n history log }) :
    greeting.Reachable (System.greeted (vacant n history log) openedPage 0) := by
  have unused : ∀ T, some 0 = some T →
      System.unused { server := vacant n history log } T := by
    rintro T same
    cases same
    exact ⟨rfl, rfl, by simp⟩
  have dial : SystemStep Greeting.config Greeting.written { server := vacant n history log } .dial
      { server := vacant n history log, page := dialedPage, link := some (0, 1) } :=
    .dial (.start rfl) unused
  have opened : SystemStep Greeting.config Greeting.written
      { server := vacant n history log, page := dialedPage, link := some (0, 1) } .opened
      (System.greeted (vacant n history log) openedPage 0) := .opened rfl rfl rfl
  exact (reached.next ⟨dial, trivial⟩).next ⟨opened, trivial⟩

theorem join_reached {s : System} (reached : greeting.Reachable s)
    (step : Step Greeting.config Greeting.written s.server (.fresh socket token cursor) after)
    (admits : s.admits (.fresh socket token cursor)) :
    greeting.Reachable { s with server := after } :=
  reached.next (l := Event.serve (.fresh socket token cursor)) ⟨.serve step admits, trivial⟩

theorem waiting_admits (server : Server) (page : Page) (taken : Nat) :
    (System.greeted server page taken).admits (.fresh 0 greetingToken 0) :=
  fun _ => ⟨dialedPage.helloMessage, rfl, rfl, rfl⟩

/-- The first page of a room takes its READY. -/
theorem greeting_reached (n : Nat) (history log : List MessageDto) (free : n ≠ maxSequence)
    (reached : greeting.Reachable { server := vacant n history log }) :
    greeting.Reachable (System.greeted
      (Greeting.server { latest := n + 1, history := [joined n], log := log ++ [joined n]
                         hello := answered greetingToken 0 n
                         sent := [(answered greetingToken 0 n).ready []]
                         peer := { Peer.create 0 0 [] 1 0 with outboundDrainActive := true } })
      (openedPage.onMessage 0 ((answered greetingToken 0 n).ready [])).1 1) := by
  obtain ⟨s, join, path⟩ := Greeting.served greetingToken 0 n history log (by decide) free
  have start : greeting.Reachable (System.greeted s openedPage 0) :=
    join_reached (waiting_reached reached) join (waiting_admits _ _ _)
  exact deliver_reached (path_reached start path) rfl rfl rfl (by decide : 0 < maxHandshakeInbox)

/-- A room without members may have seen any number of events. -/
theorem vacant_reached (n : Nat) (within : n ≤ maxSequence) :
    ∃ history log, log.length = n ∧ greeting.Reachable { server := vacant n history log } := by
  induction n with
  | zero => exact ⟨[], [], rfl, .start ⟨[], [], rfl⟩⟩
  | succ n ih =>
    obtain ⟨history, log, length, reached⟩ := ih (Nat.le_of_succ_le within)
    let event : MessageDto := { code := some .peerMessage, serverSeq := some (n + 1) }
    have added : (vacant n history log).room.addHistoryMessage Greeting.config
        { code := some .peerMessage } =
        some ({ (vacant n history log).room with sequencer := ⟨n + 1⟩, history := [event] }, event) := by
      have free : n ≠ maxSequence := by omega
      simp [Room.addHistoryMessage, RoomSequencer.next, free, vacant, Greeting.config, event,
        Boundaries.retainLast]
    refine ⟨[event], log ++ [event], by simp [length], ?_⟩
    have published := internal_reached reached (.publish rfl (.inl rfl) added)
    have listed := internal_reached published (.members rfl (List.Perm.refl _))
    exact internal_reached listed (.finish rfl)

/-- The first page of a room has taken its READY and event 2. -/
def toldPage : Page :=
  ((openedPage.onMessage 0 ((answered greetingToken 0 0).ready [])).1.onMessage 0 (said 2)).1

/-- It has lost socket 0 and dialed socket 1. -/
def redialedPage : Page :=
  { toldPage with transport := (toldPage.transport.closed 1 0).timerFired (some 1) 0 }

/-- It has taken event 4 and the READY of its resume. -/
def returnedPage : Page :=
  (((redialedPage.onOpen 2).1.onMessage 0 (said 4)).1.onMessage 0 ((again greetingToken).ready [])).1

def System.returned (server : Server) (page : Page) (taken : Nat) : System :=
  { server, page, link := some (1, 2), taken
    hellos := Function.update (Function.update (fun _ => none) 0 (some dialedPage.helloMessage)) 1
      (some redialedPage.helloMessage) }

/-- The first page of a room comes back on socket 1. -/
theorem return_reached : ∃ server, Returned greetingToken server ∧
    greeting.Reachable (System.returned server returnedPage 2) := by
  obtain ⟨left, hears, wire, away, detach, missing, misses, pending, back, resume, s, answers, returned⟩ :=
    returns greetingToken (by decide)
  have greeted : greeting.Reachable _ := greeting_reached 0 [] [] (by decide) (.start ⟨[], [], rfl⟩)
  have told : greeting.Reachable (System.greeted left toldPage 2) :=
    deliver_reached (path_reached greeted hears) rfl rfl (congrArg (·[1]?) wire)
      (by decide : 0 < maxHandshakeInbox)
  have closed := told.next (l := Event.closed) ⟨@SystemStep.closed _ _ 0 1 _ 0 rfl, trivial⟩
  have detached := closed.next (l := Event.serve (.detach 0)) ⟨.serve detach trivial, trivial⟩
  have absent := path_reached detached misses
  have dialed := absent.next (l := Event.dial) ⟨@SystemStep.dial _ _ (some 1) 0 _ _ (.timer rfl) ?_, trivial⟩
  have opened : greeting.Reachable (System.returned missing (redialedPage.onOpen 2).1 0) :=
    dialed.next (l := Event.opened) ⟨.opened rfl rfl rfl, trivial⟩
  have resumed := opened.next (l := Event.serve (.resume 1 greetingToken 2))
    ⟨.serve resume fun _ => ⟨redialedPage.helloMessage, rfl, rfl, rfl⟩, trivial⟩
  have answered : greeting.Reachable (System.returned s (redialedPage.onOpen 2).1 0) :=
    path_reached resumed answers
  have fourth : greeting.Reachable (System.returned s _ 1) :=
    deliver_reached answered rfl rfl (congrArg (·[0]?) returned.wire) (by decide : 0 < maxHandshakeInbox)
  have ready : greeting.Reachable (System.returned s returnedPage 2) :=
    deliver_reached fourth rfl rfl (congrArg (·[1]?) returned.wire) (by decide : 1 < maxHandshakeInbox)
  · exact ⟨_, returned, ready⟩
  · rintro _ ⟨⟩
    exact ⟨pending, rfl, nofun⟩

end Greeting

section Runs
variable {config : ConfigDto} {written : MessageDto → Nat} {s : System}

/-- The server of a system runs as it does alone, and loses no transport. -/
theorem served (reached : (replication config written).Reachable s) :
    (server config written).Reachable s.server ∧ ∀ T, s.server.invalidated T = false := by
  refine reached.invariant (P := fun s => (server config written).Reachable s.server ∧
    ∀ T, s.server.invalidated T = false) ?_ ?_
  · rintro s ⟨name, capability, rfl⟩
    exact ⟨.start ⟨name, rfl⟩, fun _ => rfl⟩
  · rintro s event t _ ⟨reached, valid⟩ ⟨step, calm⟩
    cases step with
    | serve step admits =>
      refine ⟨reached.next step, valid_step reached step ?_ valid⟩
      rintro p f rfl
      exact calm
    | dial dials =>
      unfold System.dialed
      split <;> exact ⟨reached, valid⟩
    | opened | closed | deliver | submit | reload => exact ⟨reached, valid⟩

theorem replicated (reached : (replication config written).Reachable s)
    (limited : 0 < historyLimit config) (safe : s.server.log.length ≤ maxSafeInteger) :
    ∃ base top, Replicated s base top := by
  induction reached with
  | start initial =>
    obtain ⟨name, capability, rfl⟩ := initial
    exact ⟨0, 0, ⟨rfl, rfl, nofun, .nil 0, by simp, Nat.le_refl 0, rfl, fun _ => rfl, by simp⟩, .none rfl⟩
  | next before step ih =>
    obtain ⟨reached, valid⟩ := served before
    obtain ⟨step, calm⟩ := step
    cases step with
    | serve step admits =>
      obtain ⟨more, log⟩ := log_step step
      simp only [log, List.length_append] at safe
      obtain ⟨base, top, rep⟩ := ih (Nat.le_trans (Nat.le_add_right ..) safe)
      exact ⟨base, top, rep.held.serve step, rep.linked.serve reached step admits⟩
    | dial dials fresh =>
      unfold System.dialed at safe
      obtain ⟨base, top, rep⟩ := ih (by split at safe <;> exact safe)
      exact ⟨base, top, rep.dial dials fresh⟩
    | opened link unsent opens =>
      obtain ⟨base, top, rep⟩ := ih safe
      exact ⟨base, top, rep.opened safe link unsent opens⟩
    | closed link =>
      obtain ⟨base, top, rep⟩ := ih safe
      exact ⟨base, top, rep.closed ..⟩
    | deliver link _ upcoming =>
      obtain ⟨base, top, rep⟩ := ih safe
      exact rep.deliver reached valid limited safe link upcoming calm _
    | submit =>
      obtain ⟨base, top, rep⟩ := ih safe
      exact ⟨base, top, rep.submit _⟩
    | reload =>
      obtain ⟨base, top, rep⟩ := ih safe
      exact ⟨base, top, rep.reload _⟩

/-- The page has taken its READY and every frame queued for the transport that
its peer has. -/
def System.caughtUp (s : System) (member : PeerId) : Prop :=
  ∃ T generation, s.link = some (T, generation) ∧ s.page.transport.state = .online ∧
    s.server.transport member = some (some T) ∧
    s.server.stream member T = (s.server.wire T).take s.taken

/-- Since its history was last replaced by a snapshot the page has posted each event of
the room once, in order, and all events of the snapshot; and when it has taken every frame
queued for its bound transport and the latest event's fan-out has served it, it is up to
date and has posted every event from the first of the snapshot on. -/
theorem replication_converges (reached : (replication config written).Reachable s)
    (limited : 0 < historyLimit config) (safe : s.server.log.length ≤ maxSafeInteger) :
    (s.page.rendered.Pairwise fun first second =>
      ∃ m n, durableSeq first = some m ∧ durableSeq second = some n ∧ m < n) ∧
    (∀ event ∈ s.page.rendered, event ∈ s.server.log) ∧ (∀ event ∈ s.page.snapshot, event ∈ s.page.rendered) ∧
    ∀ member, s.caughtUp member → s.server.awaits member = false →
      s.page.reliability.highestServerSeq = s.server.room.latestServerSeq ∧
      ∀ event ∈ s.server.log, ∀ n, event.serverSeq = some n → s.page.base < n →
        event ∈ s.page.rendered := by
  obtain ⟨base, top, rep⟩ := replicated reached limited safe
  obtain ⟨reached, valid⟩ := served reached
  refine ⟨rep.held.rendered.increasing, rep.held.logged, rep.held.posted, ?_⟩
  rintro member ⟨T, generation, link, online, bound, taken⟩ idle
  cases rep.linked with
  | none free => cases free.symm.trans link
  | dialing link' state | waiting link' state =>
    rw [state] at online
    cases online
  | refused _ state => exact absurd online state
  | online link' _ _ settled =>
    cases link'.symm.trans link
    obtain ⟨h, is, copied, upTo⟩ := settled.bound
    obtain ⟨k, same, rfl, binds⟩ := (disciplined reached).bound bound
    cases is.symm.trans same
    have logged := (delivery reached).published.logged
    -- the stream is complete and all of it was taken
    have covers := (delivery reached).served.covers is binds (valid T)
    rw [Server.feed, seqs_filter_notable, taken, Server.floor, if_pos copied, Server.delivered,
      idle, if_neg (by simp)] at covers
    have latest : top = s.server.log.length := by
      refine Nat.le_antisymm rep.held.within ?_
      by_cases copied : s.server.log.length ≤ h.upTo
      · exact Nat.le_trans copied upTo
      · exact settled.seen _ (covers.complete _ (by omega) (Nat.le_refl _))
    refine ⟨?_, ?_⟩
    · rw [settled.cursor, Room.latestServerSeq, logged.latest, latest]
    · intro event member n number above
      obtain ⟨known, within⟩ := event_number logged member number
      rw [rep.held.start] at above
      have posted : n ∈ seqs s.page.rendered :=
        rep.held.rendered.seqs.mem_iff.mpr ⟨by omega, by omega⟩
      obtain ⟨m, shown, eq⟩ := mem_seqs.mp posted
      have same := event_unique logged (rep.held.logged m shown) member (eq.trans known.symm)
      exact same ▸ shown

end Runs

/-- The first page of a room has heard event 2, missed event 3, been told event 4 during
the hello of its resume, and has them all. -/
theorem replication_converges_first :
    ∃ s, greeting.Reachable s ∧ s.caughtUp 1 ∧ s.page.reliability.highestServerSeq = 4 ∧
      s.server.room.latestServerSeq = 4 ∧ s.page.base = 0 ∧
      s.server.log = [Greeting.joined 0, Greeting.said 2, Greeting.said 3, Greeting.said 4] ∧
      ∀ event ∈ s.server.log, event ∈ s.page.rendered := by
  obtain ⟨server, returned, reached⟩ := return_reached
  have safe : server.log.length ≤ maxSafeInteger := by
    rw [returned.log]
    decide
  have caughtUp : (System.returned server returnedPage 2).caughtUp 1 :=
    ⟨1, 2, rfl, rfl, returned.bound, by
      rw [System.returned, returned.stream, returned.wire]
      rfl⟩
  obtain ⟨_, _, _, complete⟩ := replication_converges reached (by decide) safe
  obtain ⟨highest, rendered⟩ := complete 1 caughtUp returned.idle
  have four : (server.room.latestServerSeq : Int) = 4 := congrArg Nat.cast returned.latest
  refine ⟨_, reached, caughtUp, highest.trans four, returned.latest, rfl, returned.log, ?_⟩
  intro event inside
  have logged := (delivery (served reached).1).published.logged
  obtain ⟨n, known, above, _⟩ := logged.numbered.durable inside
  exact rendered event inside n (durableSeq_eq_some known).2 above

/-- Above the safe integers the page no longer follows, and while the fan-out of
an event is under way it does not follow yet. -/
theorem replication_diverges :
    (∃ s, greeting.Reachable s ∧ s.caughtUp 1 ∧ s.server.publishing.isNone ∧
      s.page.reliability.highestServerSeq = 0 ∧ s.server.room.latestServerSeq = 2 ^ 53 + 1) ∧
    ∃ s, greeting.Reachable s ∧ s.caughtUp 1 ∧
      s.page.reliability.highestServerSeq = 1 ∧ s.server.room.latestServerSeq = 2 := by
  constructor
  · obtain ⟨history, log, _, vacant⟩ := vacant_reached (2 ^ 53) (by decide)
    have reached := greeting_reached _ history log (by decide) vacant
    exact ⟨_, reached, ⟨0, 1, rfl, rfl, rfl, rfl⟩, rfl, rfl, rfl⟩
  · have reached := greeting_reached 0 [] [] (by decide)
      (.start ⟨[], [], rfl⟩)
    let sent : MessageDto := { code := some .peerMessage }
    have code : sent.code = some .peerMessage ∨ sent.code = some .peerMessageFile := .inl rfl
    have publish := internal_reached reached (.publish rfl code rfl)
    exact ⟨_, publish, ⟨0, 1, rfl, rfl, rfl, rfl⟩, rfl, rfl⟩

end Conspire.Replay
