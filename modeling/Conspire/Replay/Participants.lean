import Conspire.Replay.Convergence
import Conspire.Replay.Membership

/-! The participants of a page. They are the peers its READY lists, changed by every
announcement that the page has posted since. -/
namespace Conspire.Replay
open Session Transition Sequence Browser

section Map
variable {peers : List PeerDto} {member : PeerId} {event : MessageDto} {posts : List MessageDto}

theorem mem_setPeer {old peer : PeerDto} (inside : old ∈ setPeer peers peer) :
    old = peer ∨ old ∈ peers ∧ old.peerId ≠ peer.peerId := by
  unfold setPeer at inside
  split at inside
  · obtain ⟨before, known, rfl⟩ := List.mem_map.mp inside
    split
    · exact .inl rfl
    · exact .inr ⟨known, ‹_›⟩
  · rename_i absent
    rcases List.mem_append.mp inside with known | last
    · refine .inr ⟨known, fun same => absent (List.any_eq_true.mpr ⟨old, known, by simpa using same⟩)⟩
    · exact .inl (List.mem_singleton.mp last)

theorem setPeer_mem (peers : List PeerDto) (peer : PeerDto) : peer ∈ setPeer peers peer := by
  unfold setPeer
  split
  · rename_i known
    obtain ⟨old, inside, same⟩ := List.any_eq_true.mp known
    exact List.mem_map.mpr ⟨old, inside, if_pos (by simpa using same)⟩
  · simp

theorem setPeer_kept {old peer : PeerDto} (known : old ∈ peers) (other : old.peerId ≠ peer.peerId) :
    old ∈ setPeer peers peer := by
  unfold setPeer
  split
  · exact List.mem_map.mpr ⟨old, known, if_neg other⟩
  · exact List.mem_append_left _ known

theorem lists_setPeer {peer : PeerDto} : Lists (setPeer peers peer) member ↔
    peer.peerId = some (member : Int) ∨ Lists peers member := by
  constructor
  · rintro ⟨old, inside, is⟩
    rcases mem_setPeer inside with rfl | ⟨known, _⟩
    · exact .inl is
    · exact .inr ⟨old, known, is⟩
  · rintro (is | ⟨old, known, is⟩)
    · exact ⟨peer, setPeer_mem .., is⟩
    · by_cases same : old.peerId = peer.peerId
      · exact ⟨peer, setPeer_mem .., same ▸ is⟩
      · exact ⟨old, setPeer_kept known same, is⟩

theorem lists_updatePeers : Lists (Page.updatePeers peers event) member ↔
    Joins member event ∨ Lists peers member ∧ ¬Leaves member event := by
  unfold Page.updatePeers
  split
  case h_1 code => simp [lists_setPeer, Joins, Leaves, code]
  case h_2 code =>
    have kept : Lists (peers.filter (·.peerId ≠ event.peerId)) member ↔
        Lists peers member ∧ event.peerId ≠ some (member : Int) := by
      constructor
      · rintro ⟨old, inside, is⟩
        obtain ⟨known, other⟩ := List.mem_filter.mp inside
        exact ⟨⟨old, known, is⟩, fun same => by simp [is, same] at other⟩
      · rintro ⟨⟨old, known, is⟩, other⟩
        exact ⟨old, List.mem_filter.mpr ⟨known, by simpa [is] using Ne.symm other⟩, is⟩
    rw [kept]
    simp [Joins, Leaves, code]
  case h_3 joined left =>
    have quiet : ¬Joins member event ∧ ¬Leaves member event :=
      ⟨fun joins => joined joins.1, fun leaves => left leaves.1⟩
    simp [quiet]

/-- Who announced himself or was listed, and did not leave. -/
theorem lists_foldl (ordered : posts.Pairwise fun first second =>
      ∀ member, Leaves member first → ¬Joins member second) :
    Lists (posts.foldl Page.updatePeers peers) member ↔
      ((∃ event ∈ posts, Joins member event) ∨ Lists peers member) ∧
        ∀ event ∈ posts, ¬Leaves member event := by
  induction posts generalizing peers with
  | nil => simp
  | cons event rest ih =>
    obtain ⟨last, ordered⟩ := List.pairwise_cons.mp ordered
    rw [List.foldl_cons, ih ordered, lists_updatePeers]
    by_cases leaves : Leaves member event
    · have unjoined : ¬Joins member event := fun joins => by cases leaves.1.symm.trans joins.1
      have later : ¬∃ event ∈ rest, Joins member event :=
        fun ⟨event, inside, joins⟩ => last event inside member leaves joins
      simp [leaves, unjoined, later]
    · simp [leaves, or_assoc, or_left_comm]

theorem lists_snapshot : Lists (peers.foldl setPeer start) member ↔
    Lists start member ∨ Lists peers member := by
  induction peers generalizing start with
  | nil => simp [Lists]
  | cons peer rest ih =>
    rw [List.foldl_cons, ih, lists_setPeer]
    simp [Lists, or_assoc, or_left_comm]

theorem mem_snapshot {peer : PeerDto} (inside : peer ∈ peers.foldl setPeer start) :
    peer ∈ start ∨ peer ∈ peers := by
  induction peers generalizing start with
  | nil => exact .inl inside
  | cons first rest ih =>
    rcases ih inside with before | later
    · rcases mem_setPeer before with rfl | ⟨known, _⟩
      · exact .inr (.head _)
      · exact .inl known
    · exact .inr (.tail _ later)

/-- Participants were listed, or have the id of an announcement. -/
theorem mem_foldl {peer : PeerDto} (inside : peer ∈ posts.foldl Page.updatePeers peers) :
    peer ∈ peers ∨ ∃ event ∈ posts, event.code = some .peerJoined ∧ event.peerId = peer.peerId := by
  induction posts generalizing peers with
  | nil => exact .inl inside
  | cons event rest ih =>
    rcases ih inside with before | ⟨last, later, joins⟩
    · unfold Page.updatePeers at before
      split at before
      case h_1 code =>
        rcases mem_setPeer before with rfl | ⟨known, _⟩
        · exact .inr ⟨event, .head _, code, rfl⟩
        · exact .inl known
      case h_2 => exact .inl (List.mem_of_mem_filter before)
      case h_3 => exact .inl before
    · exact .inr ⟨last, .tail _ later, joins⟩

end Map

/-- The page has posted these events since it had these participants. -/
structure Traced (front : List MessageDto) (peers : List PeerDto) (posts : List MessageDto)
    (page : Page) : Prop where
  rendered : page.rendered = front ++ posts
  peersMap : page.peersMap = posts.foldl Page.updatePeers peers

section Page
variable {front posts : List MessageDto} {peers : List PeerDto} {page : Page} {message : MessageDto}

theorem acceptDurable_kept : (page.acceptDurable message).1.rendered = page.rendered ∧
    (page.acceptDurable message).1.peersMap = page.peersMap ∧
    (page.acceptDurable message).1.handshakeInbox = page.handshakeInbox := by
  unfold Page.acceptDurable
  split
  · exact ⟨rfl, rfl, rfl⟩
  · exact ⟨rfl, rfl, rfl⟩
  · dsimp only
    split
    · split
      · exact ⟨rfl, rfl, rfl⟩
      · unfold Page.saveSession
        split <;> exact ⟨rfl, rfl, rfl⟩
    · exact ⟨rfl, rfl, rfl⟩

theorem Traced.postDurable (traced : Traced front peers posts page) :
    ∃ posts, Traced front peers posts (page.postDurable message) := by
  obtain ⟨rendered, peersMap, _⟩ := @acceptDurable_kept page message
  unfold Page.postDurable
  dsimp only
  split
  · refine ⟨posts ++ [message], ?_, ?_⟩
    · simp [rendered, traced.rendered]
    · simp [peersMap, traced.peersMap]
  · exact ⟨posts, rendered.trans traced.rendered, peersMap.trans traced.peersMap⟩

theorem Traced.hydrate (traced : Traced front peers posts page) :
    ∃ posts, Traced front peers posts (page.hydrate message) := by
  unfold Page.hydrate
  split
  · exact traced.postDurable
  · exact ⟨posts, traced⟩

theorem Traced.other (traced : Traced front peers posts page) (code : message.code ≠ some .info)
    (delay : Nat) : ∃ posts, Traced front peers posts (page.onOtherMessage delay message) := by
  unfold Page.onOtherMessage
  split
  case h_1 => split <;> exact ⟨posts, traced.rendered, traced.peersMap⟩
  case h_2 =>
    split
    · exact ⟨posts, traced.rendered, traced.peersMap⟩
    · split <;> exact ⟨posts, traced.rendered, traced.peersMap⟩
  case h_3 | h_4 | h_5 | h_6 => exact traced.postDurable
  case h_7 info => exact absurd info code
  case h_8 => exact ⟨posts, traced⟩

theorem reconcileReplay_inbox (events : List MessageDto) (resync : Bool) (latest : JsNumber) :
    (page.reconcileReplay events resync latest).handshakeInbox = page.handshakeInbox := by
  have hydrate : ∀ (page : Page) message, (page.hydrate message).handshakeInbox = page.handshakeInbox := by
    intro page message
    obtain ⟨_, _, inbox⟩ := @acceptDurable_kept page message
    unfold Page.hydrate Page.postDurable
    split
    · dsimp only
      split <;> exact inbox
    · rfl
  have fold : ∀ start : Page, (events.foldl Page.hydrate start).handshakeInbox = start.handshakeInbox := by
    intro start
    induction events generalizing start with
    | nil => rfl
    | cons message rest ih => exact (ih _).trans (hydrate start message)
  unfold Page.reconcileReplay
  rw [fold]
  split <;> rfl

/-- A handler that keeps the trace does so over a whole stream. -/
theorem Traced.foldl {handle : Page → MessageDto → Page} {messages : List MessageDto}
    (traced : Traced front peers posts page)
    (keeps : ∀ message ∈ messages, ∀ {posts page}, Traced front peers posts page →
      ∃ posts, Traced front peers posts (handle page message)) :
    ∃ posts, Traced front peers posts (messages.foldl handle page) := by
  induction messages generalizing posts page with
  | nil => exact ⟨posts, traced⟩
  | cons message rest ih =>
    obtain ⟨posts, traced⟩ := keeps message (.head _) traced
    exact ih traced fun message later => keeps message (.tail _ later)

/-- A READY begins a new trace with the peers it lists. -/
theorem onSessionReady_traced {h : Hello} (delay : Nat) (nickname : Bytes) (peer : 0 < h.peer)
    (token : h.token ≠ []) (quiet : ∀ m ∈ page.handshakeInbox, m.code ≠ some .info) :
    ∃ posts, Traced (if h.resync || !h.resumed then [] else page.rendered)
      (h.peers.foldl setPeer []) posts (page.onSessionReady delay (h.ready nickname)).1 := by
  rw [onSessionReady_eq delay nickname peer token]
  set known : Page := { page with
    peerId := some (h.peer : Int), peerName := some nickname
    peersMap := h.peers.foldl setPeer [] } with known_def
  set replayed := known.reconcileReplay h.history (h.resync || !h.resumed)
    (jsNumber (some h.latest)) with replayed_def
  have inbox : replayed.handshakeInbox = page.handshakeInbox := reconcileReplay_inbox ..
  obtain ⟨posts, traced⟩ : ∃ posts, Traced (if h.resync || !h.resumed then [] else page.rendered)
      (h.peers.foldl setPeer []) posts replayed := by
    rw [replayed_def, Page.reconcileReplay]
    refine @Traced.foldl _ [] _ _ _ _ ?_ fun _ _ _ _ traced => traced.hydrate
    cases h.resync || !h.resumed with
    | true => exact ⟨rfl, rfl⟩
    | false => exact ⟨(List.append_nil _).symm, rfl⟩
  dsimp only
  rw [inbox]
  refine @Traced.foldl _ posts _ _ _ _ ⟨traced.rendered, traced.peersMap⟩ ?_
  exact fun message inside _ _ traced => traced.other (quiet message inside) delay

end Page

/-- The page's participants since the READY of this hello: every announcement after the
listing is posted, or is still to be. -/
def Follows (log : List MessageDto) (h : Hello) (page : Page) : Prop :=
  ∃ front posts, Traced front (h.peers.foldl setPeer []) posts page ∧
    ∀ event ∈ log, ∀ n, durableSeq event = some n → membership event = true → h.since < n →
      page.base + front.length < n

/-- No announcement that was published since the page's hello has listed the peers has
left the room's history when the hello comes to copy it. -/
def System.untrimmed (s : System) : Prop :=
  ∀ T generation h, s.link = some (T, generation) → s.server.handler T = .running h →
    h.phase = .counted → ∀ event ∈ s.server.log, ∀ n, durableSeq event = some n →
      membership event = true → h.since < n → event ∈ s.server.room.history

/-- The invariant of the participants of a page. -/
structure Followed (s : System) : Prop where
  cursor : ∀ {T generation h}, s.link = some (T, generation) → s.server.handler T = .running h →
    h.phase.hasListed = true → h.cursor ≤ h.since
  kept : ∀ {T generation h}, s.link = some (T, generation) → s.server.handler T = .running h →
    h.phase.hasCopied = true → ∀ event ∈ s.server.log, ∀ n, durableSeq event = some n →
      membership event = true → h.since < n → n ≤ h.upTo → event ∈ h.history
  follows : ∀ {T generation h}, s.page.transport.state = .online → s.link = some (T, generation) →
    s.server.handler T = .running h → Follows s.server.log h s.page

/-- The history is copied now, or was before. -/
inductive CopiedChange (s : Server) (T : Socket) (h : Hello) : Prop where
  | earlier {k : Hello} : s.handler T = .running k → k.phase.hasCopied = true →
      h.history = k.history → h.since = k.since → h.upTo = k.upTo → CopiedChange s T h
  | now {k : Hello} : s.handler T = .running k → k.phase = .counted →
      h.history = (s.room.getHistoryAfter k.cursor).1 → h.since = k.since →
      h.upTo = s.room.sequencer.latest → CopiedChange s T h

section Steps
variable {config : ConfigDto} {written : MessageDto → Nat} {s t : Server} {T : Socket} {h k : Hello}
  {page : Page} {start base top : Nat}

theorem copied_step (step : Step config written s l t) (is : t.handler T = .running h)
    (copied : h.phase.hasCopied = true) : CopiedChange s T h := by
  cases handler_step step is with
  | same was => exact .earlier was copied rfl rfl rfl
  | moved was moves same =>
    subst same
    exact .earlier was (moves.hasCopied ▸ copied) rfl rfl rfl
  | advanced was next =>
    unfold Server.advance at next
    split at next
    case h_1 | h_2 =>
      cases next
      simp [Phase.hasCopied] at copied
    case h_3 phase =>
      cases next
      exact .now was phase rfl rfl rfl
    case h_4 phase =>
      obtain ⟨_, _, rfl⟩ := Option.map_eq_some_iff.mp next
      exact .earlier was (by rw [phase]; rfl) rfl rfl rfl
    case h_5 => cases next
  | started _ phase =>
    rcases phase with phase | phase <;> simp [phase, Phase.hasCopied] at copied

theorem Phase.listed_of_copied {phase : Phase} (copied : phase.hasCopied = true) :
    phase.hasListed = true := by
  cases phase <;> simp_all [Phase.hasCopied, Phase.hasListed]

/-- A retained event after the cursor is in the history that is copied. -/
theorem mem_getHistoryAfter {room : Room} {event : MessageDto} (inside : event ∈ room.history)
    (number : durableSeq event = some n) (above : cursor < n) :
    event ∈ (room.getHistoryAfter cursor).1 := by
  refine List.mem_filter.mpr ⟨inside, ?_⟩
  simp [Room.isAfter, (durableSeq_eq_some number).2, above]

/-- A hello on the page's link asks for events after one that was published. -/
theorem Replicated.cursor {s : System} (rep : Replicated s base top)
    (link : s.link = some (T, generation)) (is : s.server.handler T = .running h)
    (uncopied : h.phase.hasCopied = false) : h.cursor ≤ s.server.log.length := by
  cases rep.linked with
  | none free => cases free.symm.trans link
  | dialing link' _ _ _ pending =>
    cases link'.symm.trans link
    cases pending.symm.trans is
  | refused link' _ _ refused =>
    cases link'.symm.trans link
    cases refused.symm.trans is
  | online link' _ _ settled =>
    cases link'.symm.trans link
    obtain ⟨k, was, copied, _⟩ := settled.bound
    cases was.symm.trans is
    rw [uncopied] at copied
    contradiction
  | waiting link' _ _ awaiting =>
    cases link'.symm.trans link
    cases awaiting.greeted with
    | pending pending => cases pending.symm.trans is
    | refused refused => cases refused.symm.trans is
    | running was _ cursor =>
      cases was.symm.trans is
      rw [cursor]
      cases stored : s.page.stored with
      | none => exact Nat.zero_le _
      | some st =>
        have last := (rep.held.stored stored).2.1
        simpa [last] using rep.held.within

/-- An online page is on a hello that has copied the history. -/
theorem Replicated.online {s : System} (rep : Replicated s base top)
    (online : s.page.transport.state = .online) (link : s.link = some (T, generation)) :
    ∃ h, s.server.handler T = .running h ∧ h.phase.hasCopied = true := by
  cases rep.linked with
  | none free => cases free.symm.trans link
  | dialing _ state | waiting _ state =>
    rw [state] at online
    cases online
  | refused _ state => exact absurd online state
  | online link' _ _ settled =>
    cases link'.symm.trans link
    obtain ⟨h, is, copied, _⟩ := settled.bound
    exact ⟨h, is, copied⟩

theorem Follows.serve (follows : Follows s.log k page) (held : Held s.log page base top)
    (logged : t.room.Logged config t.log) (step : Step config written s l t)
    (peers : h.peers = k.peers) (since : h.since = k.since) : Follows t.log h page := by
  obtain ⟨front, posts, traced, behind⟩ := follows
  rw [← peers] at traced
  refine ⟨front, posts, traced, fun event inside n number announces later => ?_⟩
  by_cases old : n ≤ s.log.length
  · exact behind event (mem_log_old logged step inside number old) n number announces (since ▸ later)
  · have length := held.rendered.length
    rw [traced.rendered, List.length_append] at length
    have le := held.rendered.1
    have within := held.within
    rw [held.start]
    omega

theorem Followed.serve {s : System} {after : Server} {l : Label} (followed : Followed s)
    (reached : (server config written).Reachable s.server) (untrimmed : s.untrimmed)
    (rep : Replicated s base top) (step : Step config written s.server l after) :
    Followed { s with server := after } := by
  have published := (delivery reached).published
  have logged := (delivery (reached.next step)).published.logged
  refine ⟨?_, ?_, ?_⟩
  · intro T g h link is listed
    cases listed_step step is listed with
    | earlier was listed _ since cursor =>
      rw [since, cursor]
      exact followed.cursor link was listed
    | now was phase _ _ since cursor =>
      rw [since, cursor, published.logged.latest]
      exact rep.cursor link was (by rw [phase]; rfl)
  · intro T g h link is copied event inside n number announces later early
    cases copied_step step is copied with
    | earlier was copied history since upTo =>
      have within := (published.snapshot was copied).within
      rw [since] at later
      rw [upTo] at early
      have before := mem_log_old logged step inside number (early.trans within)
      rw [history]
      exact followed.kept link was copied event before n number announces later early
    | now was phase history since upTo =>
      rw [since] at later
      rw [upTo, published.logged.latest] at early
      have before := mem_log_old logged step inside number early
      have retained := untrimmed _ _ _ link was phase event before n number announces later
      have above := followed.cursor link was (by rw [phase]; rfl)
      rw [history]
      exact mem_getHistoryAfter retained number (Nat.lt_of_le_of_lt above later)
  · intro T g h online link is
    obtain ⟨k, was, copied⟩ := rep.online online link
    have listed : h.phase.hasListed = true := by
      rcases hello_step step is with ⟨_, was', _, _, _, _, keeps⟩ | ⟨pending, _⟩
      · cases was'.symm.trans was
        exact Phase.listed_of_copied (keeps copied).1
      · cases pending.symm.trans was
    cases listed_step step is listed with
    | earlier was' _ peers since =>
      exact (followed.follows online link was').serve rep.held logged step peers since
    | now was' phase =>
      cases was'.symm.trans was
      rw [phase] at copied
      contradiction

theorem Followed.keep {s t : System} (followed : Followed s) (server : t.server = s.server)
    (link : t.link = s.link) (page : t.page.transport.state = .online →
      s.page.transport.state = .online ∧ t.page.rendered = s.page.rendered ∧
        t.page.peersMap = s.page.peersMap ∧ t.page.base = s.page.base) : Followed t := by
  refine ⟨?_, ?_, ?_⟩
  · rw [server, link]
    exact followed.cursor
  · rw [server, link]
    exact followed.kept
  · intro T g h online here is
    obtain ⟨before, rendered, peersMap, base⟩ := page online
    rw [server] at is ⊢
    obtain ⟨front, posts, traced, behind⟩ := followed.follows before (link ▸ here) is
    refine ⟨front, posts, ⟨rendered.trans traced.rendered, peersMap.trans traced.peersMap⟩, ?_⟩
    rw [base]
    exact behind

/-- A page whose link has no handler at work follows nobody. -/
theorem Followed.idle {s : System} (idle : ∀ T generation h, s.link = some (T, generation) →
    s.server.handler T ≠ .running h) : Followed s :=
  ⟨fun link is => absurd is (idle _ _ _ link), fun link is => absurd is (idle _ _ _ link),
    fun _ link is => absurd is (idle _ _ _ link)⟩

theorem Followed.dial {s : System} (followed : Followed s) (running : s.page.transport.stopped = false)
    (dials : Dials s.page.transport created delay next)
    (fresh : ∀ T, created = some T → s.unused T) : Followed (s.dialed next created) := by
  cases dials_dialed running dials with
  | kept same state =>
    rw [System.dialed, if_pos same]
    exact followed.keep rfl rfl fun online => ⟨state.symm.trans online, rfl, rfl, rfl⟩
  | failed later unlinked =>
    rw [System.dialed, if_neg (Nat.ne_of_gt later), unlinked]
    exact .idle (by simp)
  | began later dials =>
    obtain ⟨pending, _⟩ := fresh _ dials
    rw [System.dialed, if_neg (Nat.ne_of_gt later), dials]
    refine .idle fun T g h link is => ?_
    cases link
    cases pending.symm.trans is

theorem Followed.opened {s : System} {page : Page} {hellos : Socket → Option MessageDto}
    (rep : Replicated s base top) (link : s.link = some (T, generation)) (unsent : s.hellos T = none) :
    Followed { s with page, hellos } := by
  refine .idle fun U g h link' is => ?_
  cases link.symm.trans link'
  cases rep.linked with
  | none free => cases free.symm.trans link
  | waiting here _ hellos =>
    cases here.symm.trans link
    cases unsent.symm.trans hellos
  | online here _ hellos | refused here _ hellos =>
    cases here.symm.trans link
    exact hellos unsent
  | dialing here _ _ _ pending =>
    cases here.symm.trans link
    cases pending.symm.trans is

/-- A READY begins to be followed. -/
theorem Followed.ready {s : System} (followed : Followed s) (rep : Replicated s base top)
    (link : s.link = some (T, generation)) (is : s.server.handler T = .running h)
    (copied : h.phase.hasCopied = true) (resumed : h.resumed = s.page.stored.isSome)
    (cursor : h.cursor = (s.page.stored.map (·.lastServerSeq.toNat)).getD 0)
    (replaced : (h.resync || !h.resumed) = true → Numbered start h.upTo h.history)
    (continued : (h.resync || !h.resumed) = false → start = base)
    (after : page.base = start)
    (traced : Traced (if h.resync || !h.resumed then [] else s.page.rendered)
      (h.peers.foldl setPeer []) posts page) : Follows s.server.log h page := by
  refine ⟨_, posts, traced, fun event inside n number announces later => ?_⟩
  rw [after]
  cases fresh : h.resync || !h.resumed with
  | true =>
    have numbered := replaced fresh
    have low := numbered.1
    by_contra behind
    have early : n ≤ start := by simpa using behind
    have retained := followed.kept link is copied event inside n number announces later (early.trans low)
    obtain ⟨k, same, above, _⟩ := numbered.durable retained
    cases same.symm.trans number
    omega
  | false =>
    obtain ⟨st, stored⟩ : ∃ st, s.page.stored = some st := by
      have known : h.resumed = true := by simpa using (Bool.or_eq_false_iff.mp fresh).2
      exact Option.isSome_iff_exists.mp (resumed ▸ known)
    have at_top : h.cursor = top := by
      rw [cursor, stored]
      simp [(rep.held.stored stored).2.1]
    have above := followed.cursor link is (Phase.listed_of_copied copied)
    have length := rep.held.rendered.length
    have le := rep.held.rendered.1
    rw [continued fresh]
    simp only [Bool.false_eq_true, if_false]
    omega

theorem Followed.deliver {s : System} (followed : Followed s)
    (reached : (server config written).Reachable s.server)
    (valid : ∀ T, s.server.invalidated T = false) (limited : 0 < historyLimit config)
    (safe : s.server.log.length ≤ maxSafeInteger) (rep : Replicated s base top)
    (link : s.link = some (T, generation)) (upcoming : (s.server.wire T)[s.taken]? = some message)
    (room : s.page.transport.state = .handshaking →
      s.page.handshakeInbox.length < maxHandshakeInbox) (delay : Nat) :
    Followed { s with page := (s.page.onMessage delay message).1, taken := s.taken + 1 } := by
  have bound := (take_succ upcoming).2.2
  have member : message ∈ s.server.wire T := List.mem_of_getElem? upcoming
  cases rep.linked with
  | none free => cases free.symm.trans link
  | dialing link' _ _ _ pending =>
    cases link'.symm.trans link
    simp [silent reached (.inl pending)] at bound
  | refused link' _ _ refused taken =>
    cases link'.symm.trans link
    simp [refused_wire reached refused, taken] at bound
  | online link' state hellos settled =>
    cases link'.symm.trans link
    obtain ⟨unready, _, held, _, _⟩ := deliver_online reached valid safe rep.held state
      settled upcoming delay
    have handled : (s.page.onMessage delay message).1 = s.page.onOtherMessage delay message := by
      simp [Page.onMessage, state, unready]
    refine ⟨followed.cursor, followed.kept, fun _ here is => ?_⟩
    obtain ⟨front, posts, traced, behind⟩ := followed.follows state here is
    obtain ⟨posts, traced⟩ := traced.other (streamed reached member unready).2.1 delay
    refine ⟨front, posts, handled ▸ traced, ?_⟩
    show ∀ event ∈ s.server.log, ∀ n, _ → _ → _ → (s.page.onMessage delay message).1.base + _ < _
    rw [held.start, ← rep.held.start]
    exact behind
  | waiting link' state hellos awaiting =>
    cases link'.symm.trans link
    cases awaiting.greeted with
    | pending pending => simp [silent reached (.inl pending)] at bound
    | refused refused zero =>
      have wire := refused_wire reached refused
      rw [wire, zero] at upcoming
      cases upcoming
      have handled : (s.page.onMessage delay sessionUnavailable).1 = s.page.invalidSession delay := by
        simp [Page.onMessage, Page.onOtherMessage, sessionUnavailable, state]
      refine followed.keep rfl rfl fun online => ?_
      rw [handled] at online
      exact absurd online (retry_handshaking delay state).2.1
    | @running h is resumed cursor quiet =>
      by_cases ready : message.code = some .sessionReady
      · obtain ⟨start, reach, held, settled, _, replaced, continued⟩ := deliver_ready reached valid
          limited safe rep.held awaiting is resumed cursor upcoming ready delay
        have carried := carried_wire reached valid is member
        obtain ⟨copied, nickname, rfl⟩ := carried.ready (List.mem_append_left _ member) ready
        obtain ⟨token, positive⟩ := (genuine reached).1 is
        have inbox : ∀ m ∈ s.page.handshakeInbox, m.code ≠ some .info := by
          intro m inside
          have unready := awaiting.unready m inside
          rw [awaiting.inbox] at inside
          exact (streamed reached (List.mem_of_mem_take inside) unready).2.1
        have handled : (s.page.onMessage delay (h.ready nickname)).1 =
            (s.page.onSessionReady delay (h.ready nickname)).1 := by
          simp [Page.onMessage, Hello.ready]
        obtain ⟨posts, traced⟩ := onSessionReady_traced delay nickname positive token inbox
        refine ⟨followed.cursor, followed.kept, fun {U g k} _ here was => ?_⟩
        cases here.symm.trans link
        cases was.symm.trans is
        exact followed.ready rep link is copied resumed cursor replaced continued held.start
          (handled ▸ traced)
      · obtain ⟨same, _⟩ := deliver_inbox rep.held state awaiting (room state) is resumed cursor
          quiet upcoming ready delay
        refine followed.keep rfl rfl fun online => ?_
        rw [same] at online ⊢
        exact ⟨online, rfl, rfl, rfl⟩

end Steps

section Runs
variable {config : ConfigDto} {written : MessageDto → Nat} {s : System}

theorem followed (reached : ((replication config written).restrict fun s _ => s.untrimmed).Reachable s)
    (limited : 0 < historyLimit config) (safe : s.server.log.length ≤ maxSafeInteger) :
    Followed s := by
  induction reached with
  | start initial =>
    obtain ⟨name, capability, rfl⟩ := initial
    exact .idle nofun
  | @next s _ _ before step ih =>
    obtain ⟨⟨step, calm⟩, untrimmed⟩ := step
    have earlier := before.of_restrict
    obtain ⟨reached, valid⟩ := served earlier
    cases step with
    | serve step admits =>
      obtain ⟨more, log⟩ := log_step step
      simp only [log, List.length_append] at safe
      have safe := Nat.le_trans (Nat.le_add_right ..) safe
      obtain ⟨base, top, rep⟩ := replicated earlier limited safe
      exact (ih safe).serve reached untrimmed rep step
    | dial dials fresh =>
      unfold System.dialed at safe
      have safe : s.server.log.length ≤ maxSafeInteger := by split at safe <;> exact safe
      obtain ⟨base, top, rep⟩ := replicated earlier limited safe
      exact (ih safe).dial rep.held.running dials fresh
    | opened link unsent =>
      obtain ⟨base, top, rep⟩ := replicated earlier limited safe
      exact .opened rep link unsent
    | deliver link _ upcoming =>
      obtain ⟨base, top, rep⟩ := replicated earlier limited safe
      exact (ih safe).deliver reached valid limited safe rep link upcoming calm _
    | submit => exact (ih safe).keep rfl rfl fun online => ⟨online, rfl, rfl, rfl⟩
    | closed | reload => exact .idle nofun

/-- Whoever left had announced himself before. -/
theorem joins_before {s : Server} {first second : MessageDto} (logged : s.room.Logged config s.log)
    (enrolled : Enrolled s) (left : first ∈ s.log) (joined : second ∈ s.log)
    (leaves : Leaves member first) (joins : Joins member second) :
    ∃ m n, durableSeq second = some m ∧ durableSeq first = some n ∧ m < n := by
  obtain ⟨i, withinI, rfl⟩ := List.mem_iff_getElem.mp left
  obtain ⟨j, withinJ, rfl⟩ := List.mem_iff_getElem.mp joined
  rcases Nat.lt_trichotomy i j with later | rfl | earlier
  · have never := List.pairwise_iff_getElem.mp enrolled.ordered i j withinI withinJ later
    exact absurd joins (never member leaves)
  · cases leaves.1.symm.trans joins.1
  · exact List.pairwise_iff_getElem.mp logged.numbered.increasing j i withinJ withinI earlier

/-- No join and no leave is in progress. -/
structure Server.settled (s : Server) : Prop where
  early : ∀ member, ¬s.early member
  leaving : ∀ member, s.leaving member ≠ .removed
  publishing : ∀ pub, s.publishing = some pub → membership pub.event = false

/-- A page that has taken all of its frames has every announcement. -/
theorem announced_taken (reached : (replication config written).Reachable s)
    (settled : s.server.settled) (caughtUp : s.caughtUp member) (rep : Replicated s base top) :
    ∃ T generation h, s.link = some (T, generation) ∧ s.page.transport.state = .online ∧
      s.server.handler T = .running h ∧ h.phase.hasCopied = true ∧
      ∀ event ∈ s.server.log, ∀ n, durableSeq event = some n → membership event = true → n ≤ top := by
  obtain ⟨T, generation, link, online, bound, taken⟩ := caughtUp
  obtain ⟨reached, valid⟩ := served reached
  cases rep.linked with
  | none free => cases free.symm.trans link
  | dialing link' state | waiting link' state =>
    rw [state] at online
    cases online
  | refused _ state => exact absurd online state
  | online link' _ _ page =>
    cases link'.symm.trans link
    obtain ⟨h, is, copied, upTo⟩ := page.bound
    obtain ⟨k, same, rfl, binds⟩ := (disciplined reached).bound bound
    cases is.symm.trans same
    have published := (delivery reached).published
    refine ⟨T, _, h, link, online, is, copied, fun event inside n number announces => ?_⟩
    have covers := (delivery reached).served.covers is binds (valid T)
    rw [Server.feed, seqs_filter_notable, taken, Server.floor, if_pos copied] at covers
    have within := (event_number published.logged inside (durableSeq_eq_some number).2).2
    -- the event of a publication in progress is no announcement
    have delivered : n ≤ s.server.delivered h.peer := by
      unfold Server.delivered
      split
      · rename_i awaited
        obtain ⟨pub, is⟩ : ∃ pub, s.server.publishing = some pub := by
          by_contra free
          have unpublished := Option.eq_none_iff_forall_not_mem.mpr fun pub is => free ⟨pub, is⟩
          simp [Server.awaits, unpublished] at awaited
        obtain ⟨last, logged⟩ := published.event is
        have other : n ≠ s.server.log.length := by
          rintro rfl
          have same := event_unique published.logged inside logged (number.trans last.symm)
          rw [same, settled.publishing pub is] at announces
          cases announces
        omega
      · exact within
    by_cases early : n ≤ h.upTo
    · exact early.trans upTo
    · exact page.seen n (covers.complete n (by omega) delivered)

/-- While no announcement is trimmed from the history between a hello's list of the peers
and its copy of the history, a page that has taken its READY and every frame queued for its
transport lists exactly the members of the room, once no join or leave is in progress. -/
theorem participants_converge
    (reached : ((replication config written).restrict fun s _ => s.untrimmed).Reachable s)
    (limited : 0 < historyLimit config) (safe : s.server.log.length ≤ maxSafeInteger)
    (settled : s.server.settled) (caughtUp : s.caughtUp member) (id : Option Int) :
    (∃ peer ∈ s.page.peersMap, peer.peerId = id) ↔
      ∃ who ∈ s.server.room.peerById, id = some (who : Int) := by
  have earlier := reached.of_restrict
  obtain ⟨base, top, rep⟩ := replicated earlier limited safe
  obtain ⟨T, generation, h, link, online, is, copied, latest⟩ :=
    announced_taken earlier settled caughtUp rep
  obtain ⟨front, posts, traced, behind⟩ := (followed reached limited safe).follows online link is
  have reached := (served earlier).1
  have enrolled := enrolled reached
  have logged := (delivery reached).published.logged
  have listing := listing reached is (Phase.listed_of_copied copied)
  have rendered := rep.held.rendered
  have length := rendered.length
  rw [traced.rendered, List.length_append] at length
  have low := rendered.1
  have numbered : Numbered (base + front.length) top posts := by
    have rest := rendered.drop front.length (by omega)
    rwa [traced.rendered, List.drop_left] at rest
  have inLog : ∀ event ∈ posts, event ∈ s.server.log := fun event posted =>
    rep.held.logged event (traced.rendered ▸ List.mem_append_right _ posted)
  have ordered : posts.Pairwise fun first second =>
      ∀ member, Leaves member first → ¬Joins member second := by
    refine numbered.increasing.imp_of_mem ?_
    rintro first second one two ⟨m, n, left, right, less⟩ who leaves joins
    obtain ⟨n', m', right', left', less'⟩ :=
      joins_before logged enrolled (inLog _ one) (inLog _ two) leaves joins
    cases left.symm.trans left'
    cases right.symm.trans right'
    omega
  -- an announcement that the page has not posted is older than its list of the peers
  have posted : ∀ event ∈ s.server.log, ∀ n, durableSeq event = some n → membership event = true →
      event ∈ posts ∨ n ≤ h.since ∧ n ≤ base + front.length := by
    intro event inside n number announces
    by_cases old : n ≤ base + front.length
    · refine .inr ⟨?_, old⟩
      by_contra later
      have above := behind event inside n number announces (Nat.lt_of_not_le later)
      rw [rep.held.start] at above
      omega
    · have within := latest event inside n number announces
      obtain ⟨m, here, same⟩ := mem_seqs.mp (numbered.seqs.mem_iff.mpr ⟨by omega, within⟩)
      exact .inl (event_unique logged (inLog m here) inside (same.trans number.symm) ▸ here)
  have lists : ∀ who, Lists s.page.peersMap who ↔
      ((∃ event ∈ posts, Joins who event) ∨ Lists h.peers who) ∧
        ∀ event ∈ posts, ¬Leaves who event := by
    intro who
    rw [traced.peersMap, lists_foldl ordered, lists_snapshot]
    simp [Lists]
  constructor
  · rintro ⟨peer, inside, rfl⟩
    obtain ⟨who, named, known⟩ : ∃ who : PeerId, peer.peerId = some (who : Int) ∧
        s.server.named who ≠ none := by
      rw [traced.peersMap] at inside
      rcases mem_foldl inside with before | ⟨event, post, code, same⟩
      · rcases mem_snapshot before with unlisted | listed
        · cases unlisted
        · exact listing.known peer listed
      · obtain ⟨who, joins, known⟩ := enrolled.joined event (inLog event post) code
        exact ⟨who, same ▸ joins.2, known⟩
    obtain ⟨entered, stays⟩ := (lists who).mp ⟨peer, inside, named⟩
    rcases enrolled.away who known with member | removed | ⟨event, left, leaves⟩
    · exact ⟨who, member, named⟩
    · exact absurd removed (settled.leaving who)
    · obtain ⟨n, number, _⟩ := logged.numbered.durable left
      rcases posted event left n number (by simp [membership, leaves.1]) with post | ⟨old, before⟩
      · exact absurd leaves (stays event post)
      · rcases entered with ⟨first, post, joins⟩ | listed
        · obtain ⟨m, n', number', same, less⟩ :=
            joins_before logged enrolled left (inLog first post) leaves joins
          cases number.symm.trans same
          obtain ⟨m', same, above, _⟩ := numbered.durable post
          cases number'.symm.trans same
          omega
        · exact absurd listed (listing.left event left n number old who leaves)
  · rintro ⟨who, member, rfl⟩
    refine (lists who).mpr ⟨?_, fun event post leaves => ?_⟩
    · rcases enrolled.announced who member with ⟨event, inside, joins⟩ | early
      · obtain ⟨n, number, _⟩ := logged.numbered.durable inside
        rcases posted event inside n number (by simp [membership, joins.1]) with post | ⟨old, _⟩
        · exact .inl ⟨event, post, joins⟩
        · exact .inr (listing.joined event inside n number old who joins member)
      · exact absurd early (settled.early who)
    · have gone := enrolled.gone (inLog event post) leaves
      exact enrolled.absent who (.inr gone) member

/-- Nothing is trimmed from a history that still holds all events. -/
theorem untrimmed_reached (reached : (replication config written).Reachable s)
    (few : s.server.log.length ≤ historyLimit config) :
    ((replication config written).restrict fun s _ => s.untrimmed).Reachable s := by
  induction reached with
  | start initial => exact .start initial
  | @next s _ t before step ih =>
    have grows : s.server.log.length ≤ t.server.log.length := by
      cases step.1 with
      | serve served =>
        obtain ⟨more, log⟩ := log_step served
        simp [log]
      | dial =>
        unfold System.dialed
        split <;> exact Nat.le_refl _
      | opened | closed | deliver | submit | reload => exact Nat.le_refl _
    have few := grows.trans few
    refine (ih few).next ⟨step, fun T g h _ is _ event inside n number announces later => ?_⟩
    have logged := (delivery (served before).1).published.logged
    rw [logged.history, Boundaries.retainLast, Nat.sub_eq_zero_of_le few]
    exact inside

end Runs

section Greeting
open Greeting

theorem post_reached {s : System} (reached : greeting.Reachable s)
    (step : Step Greeting.config Greeting.written s.server (.post member frame) after)
    (fits : s.server.overflows Greeting.written member frame = false) :
    greeting.Reachable { s with server := after } :=
  path_reached reached (posts step fits)

theorem sent_reached {s : System} {peer next : Peer} (reached : greeting.Reachable s)
    (known : s.server.peers member = some peer) (idle : s.server.draining member = none)
    (taken : peer.takeOutboundFrame Greeting.written = (next, some frame))
    (current : next.isCurrentBinding frame = true) :
    greeting.Reachable { s with
      server := (s.server.setPeer member next).write frame.socket frame.payload } :=
  path_reached reached (sends known idle taken current)

def Handler.early : Handler → Bool
  | .running h => h.phase.early
  | _ => false

theorem settled_of_idle {s : Server} (early : ∀ T, (s.handler T).early = false)
    (leaving : ∀ member, s.leaving member ≠ .removed) (publishing : s.publishing = none) :
    s.settled := by
  refine ⟨?_, leaving, by simp [publishing]⟩
  rintro member ⟨T, h, is, _, entering⟩
  have quiet := early T
  rw [is] at quiet
  exact Bool.noConfusion (entering.symm.trans quiet)

theorem other_admits (s : System) (token : Bytes) (cursor : Nat) (unsent : s.hellos 1 = none)
    (link : s.link = some (0, g)) : s.admits (.fresh 1 token cursor) := by
  rintro (sent | ⟨_, here⟩)
  · exact absurd unsent sent
  · cases here.symm.trans link

/-- The hello of the page has copied the history, so that nothing is trimmed before it. -/
structure Watched (s : System) : Prop where
  reached : (greeting.restrict fun s _ => s.untrimmed).Reachable s
  copied : ∃ T generation h, s.link = some (T, generation) ∧ s.server.handler T = .running h ∧
    h.phase.hasCopied = true

section Watched
variable {s : System} (watched : Watched s)
include watched

theorem Watched.step (step : greeting.step s event t) :
    (greeting.restrict fun s _ => s.untrimmed).Reachable t := by
  obtain ⟨T, generation, h, link, is, copied⟩ := watched.copied
  refine watched.reached.next ⟨step, ?_⟩
  intro U other k here running counted
  cases here.symm.trans link
  cases running.symm.trans is
  rw [counted] at copied
  cases copied

theorem Watched.serve (step : Step Greeting.config Greeting.written s.server l after)
    (takes : greeting.step s (.serve l) { s with server := after }) :
    Watched { s with server := after } := by
  obtain ⟨T, generation, k, link, was, copied⟩ := watched.copied
  refine ⟨watched.step takes, T, generation, ?_⟩
  obtain ⟨h, is⟩ := running_step step was
  rcases hello_step step is with ⟨_, same, _, _, _, _, keeps⟩ | ⟨pending, _⟩
  · cases same.symm.trans was
    exact ⟨h, link, is, (keeps copied).1⟩
  · cases pending.symm.trans was

theorem Watched.path (path : Path s.server t) : Watched { s with server := t } := by
  induction path with
  | refl => exact watched
  | tail _ step ih =>
    obtain ⟨l, step, quiet⟩ := step
    exact ih.serve step (calm_step step quiet)

theorem Watched.deliver (link : s.link = some (T, g)) (admits : s.page.transport.admits g = true)
    (next : (s.server.wire T)[s.taken]? = some message)
    (room : s.page.handshakeInbox.length < maxHandshakeInbox) :
    Watched { s with page := (s.page.onMessage 0 message).1, taken := s.taken + 1 } := by
  have takes : greeting.step s (.deliver message)
      { s with page := (s.page.onMessage 0 message).1, taken := s.taken + 1 } :=
    ⟨.deliver link admits next, fun _ => room⟩
  exact ⟨watched.step takes, watched.copied⟩

end Watched

structure Company (ids : List PeerId) (sent : List MessageDto) (s : Server) : Prop where
  early : ∀ T, (s.handler T).early = false
  leaving : ∀ member, s.leaving member ≠ .removed
  publishing : s.publishing = none
  members : s.room.peerById = ids
  logged : s.log.length = sent.length
  wire : s.wire 0 = sent
  stream : s.stream 1 0 = s.wire 0
  bound : s.transport 1 = some (some 0)

def joins : MessageDto := { joinedMessage 2 [] with serverSeq := some 2 }
def leaves : MessageDto := { leftMessage 2 [] with serverSeq := some 3 }

/-- Another member joins the first one's room and leaves it again. -/
theorem visits (token : Bytes) (valid : validBase64UrlId token 32 = true) :
    ∃ first, Step Greeting.config Greeting.written (greeted token) (.fresh 1 token 0) first ∧
    ∃ entered, Path first entered ∧ Company [1, 2] [(answered token 0 0).ready [], joins] entered ∧
    ∃ left, Step Greeting.config Greeting.written entered (.detach 1) left ∧
    ∃ s, Path left s ∧ Company [1] [(answered token 0 0).ready [], joins, leaves] s := by
  refine ⟨_, @Step.join _ _ _ 2 _ _ 1 0 0 [] 0 rfl valid rfl Nat.two_pos rfl, ?_⟩
  refine extend (internal (@Step.register _ _ _ 1 _ rfl rfl)) ?_
  refine extend (internal (@Step.welcome _ _ _ _ _ _ 1 _ rfl rfl rfl rfl rfl)) ?_
  refine extend (internal (.members rfl (.refl _))) ?_
  refine extend (internal (.capture rfl (by decide : some 2 ≠ some 1) rfl rfl)) ?_
  refine extend (posts (.push rfl) rfl) ?_
  refine extend (internal (.skip rfl (.inl rfl))) ?_
  refine extend (internal (@Step.welcomed _ _ _ _ 1 { first token 0 .welcoming with peer := 2 } rfl rfl rfl)) ?_
  refine extend ((proceeds 1 rfl rfl).trans (proceeds 1 rfl rfl)) ?_
  refine extend ((proceeds 1 rfl rfl).trans (proceeds 1 rfl rfl)) ?_
  refine extend (posts (@Step.answer _ _ _ _ _ _ 1 _ rfl rfl rfl rfl) rfl) ?_
  refine ⟨_, (@sends 1 _ _ _ _ rfl rfl rfl rfl).trans (@sends 2 _ _ _ _ rfl rfl rfl rfl),
    ⟨?_, fun _ => nofun, rfl, rfl, rfl, rfl, rfl, rfl⟩, ?_⟩
  · intro T
    match T with
    | 0 | 1 | _ + 2 => rfl
  refine ⟨_, .detach rfl rfl rfl rfl, ?_⟩
  refine extend (internal (@Step.unlease _ _ _ _ 1 _ 0 rfl rfl rfl)) ?_
  refine extend (internal (@Step.expire _ _ _ _ 2 gracePeriod rfl rfl)) ?_
  refine extend (internal (@Step.remove _ _ _ 2 rfl)) ?_
  refine extend (internal (@Step.goodbye _ _ _ _ _ _ 2 rfl rfl rfl rfl)) ?_
  refine extend (internal (.members rfl (.refl _))) ?_
  refine extend (internal (.capture rfl (by decide) rfl rfl)) ?_
  refine extend (posts (.push rfl) rfl) ?_
  refine extend (internal (.finish rfl)) ?_
  refine ⟨_, (@sends 1 _ _ _ _ rfl rfl rfl rfl), ⟨?_, ?_, rfl, rfl, rfl, rfl, rfl, rfl⟩⟩
  · intro T
    match T with
    | 0 | 1 | _ + 2 => rfl
  · intro member
    match member with
    | 0 | 1 | 2 | _ + 3 => nofun

variable {ids : List PeerId} {frames : List MessageDto}

theorem Company.settled (company : Company ids frames s) : s.settled :=
  settled_of_idle company.early company.leaving company.publishing

theorem Company.caughtUp {s : System} (company : Company ids frames s.server)
    (link : s.link = some (0, 1)) (online : s.page.transport.state = .online)
    (taken : s.taken = frames.length) : s.caughtUp 1 := by
  refine ⟨0, 1, link, online, company.bound, ?_⟩
  rw [company.stream, company.wire, taken, List.take_length]

/-- The first page of a room lists a second member while it is there. -/
theorem participants_converge_first : ∃ s t,
    ((replication Greeting.config Greeting.written).restrict fun s _ => s.untrimmed).Reachable s ∧
    ((replication Greeting.config Greeting.written).restrict fun s _ => s.untrimmed).Reachable t ∧
    s.server.room.peerById = [1, 2] ∧ t.server.room.peerById = [1] ∧
    ∀ u ∈ [s, t], ∀ id, (∃ peer ∈ u.page.peersMap, peer.peerId = id) ↔
      ∃ who ∈ u.server.room.peerById, id = some (who : Int) := by
  obtain ⟨first, join, entered, enters, here, left, detach, after, leaves, gone⟩ :=
    visits greetingToken (by decide)
  have greeted : Watched _ :=
    ⟨untrimmed_reached (greeting_reached 0 [] [] (by decide) (.start ⟨[], [], rfl⟩)) (by decide),
      0, 1, answered greetingToken 0 0, rfl, rfl, rfl⟩
  have joined := greeted.serve join ⟨.serve join (other_admits _ _ _ rfl rfl), trivial⟩
  have told := (joined.path enters).deliver rfl rfl (congrArg (·[1]?) here.wire)
    (by decide : 0 < maxHandshakeInbox)
  have detached := told.serve detach ⟨.serve detach trivial, trivial⟩
  have alone := (detached.path leaves).deliver rfl rfl (congrArg (·[2]?) gone.wire)
    (by decide : 0 < maxHandshakeInbox)
  refine ⟨_, _, told.reached, alone.reached, here.members, gone.members, ?_⟩
  intro u among
  obtain rfl | rfl : u = _ ∨ u = _ := by simpa using among
  · have safe : entered.log.length ≤ maxSafeInteger := here.logged.trans_le (by decide)
    exact participants_converge told.reached (by decide) safe here.settled (here.caughtUp rfl rfl rfl)
  · have safe : after.log.length ≤ maxSafeInteger := gone.logged.trans_le (by decide)
    exact participants_converge alone.reached (by decide) safe gone.settled (gone.caughtUp rfl rfl rfl)

/-- A member comes and its announcement leaves the history while a hello is between its
list of the peers and its copy of the history. -/
theorem announcement_trimmed : ∃ s, greeting.Reachable s ∧ s.server.settled ∧ s.caughtUp 1 ∧
    s.server.log.length = 3 ∧ 2 ∈ s.server.room.peerById ∧
    ¬∃ peer ∈ s.page.peersMap, peer.peerId = some 2 := by
  have joined := join_reached (waiting_reached (.start ⟨[], [], rfl⟩))
    (@Step.join _ _ _ 1 _ _ 0 _ 0 [] 0 rfl (by decide) rfl Nat.one_pos rfl) (waiting_admits _ _ _)
  have registered := internal_reached joined (@Step.register _ _ _ 0 _ rfl rfl)
  have welcome := internal_reached registered (@Step.welcome _ _ _ _ _ _ 0 _ rfl rfl rfl rfl rfl)
  have members := internal_reached welcome (.members rfl (List.Perm.refl _))
  have skip := internal_reached members (.skip rfl (.inl rfl))
  have welcomed := internal_reached skip
    (@Step.welcomed _ _ _ _ 0 (first greetingToken 0 .welcoming) rfl rfl rfl)
  have listed := internal_reached welcomed (@Step.advance _ _ _ _ 0 _ _ rfl (List.Perm.refl _) rfl)
  -- another member announces itself
  have joined := join_reached listed
    (@Step.join _ _ greetingToken 2 _ _ 1 0 0 [] 0 rfl (by decide) rfl Nat.two_pos rfl) (other_admits _ _ _ rfl rfl)
  have registered := internal_reached joined (@Step.register _ _ _ 1 _ rfl rfl)
  have welcome := internal_reached registered (@Step.welcome _ _ _ _ _ _ 1 _ rfl rfl rfl rfl rfl)
  have members := internal_reached welcome (.members rfl (List.Perm.refl _))
  have capture := internal_reached members (.capture rfl (by decide) rfl rfl)
  have push := post_reached capture (.push rfl) rfl
  have skip := internal_reached push (.skip rfl (.inl rfl))
  have welcomed := internal_reached skip
    (@Step.welcomed _ _ _ _ 1 { first greetingToken 0 .welcoming with peer := 2 } rfl rfl rfl)
  -- a message takes the announcement's place in the history
  have published := internal_reached welcomed
    (@Step.publish _ _ _ _ _ { code := some .peerMessage } rfl (.inl rfl) rfl)
  have members := internal_reached published (.members rfl (List.Perm.refl _))
  have capture := internal_reached members (.capture rfl (by decide) rfl rfl)
  have push := post_reached capture (.push rfl) rfl
  have capture := internal_reached push (.capture rfl (by decide) rfl rfl)
  have push := post_reached capture (.push rfl) rfl
  have finish := internal_reached push (.finish rfl)
  -- the rest of the page's hello
  have counted := internal_reached finish (@Step.advance _ _ _ _ 0 _ _ rfl (List.Perm.refl _) rfl)
  have copied := internal_reached counted (@Step.advance _ _ _ _ 0 _ _ rfl (List.Perm.refl _) rfl)
  have captured := internal_reached copied (@Step.advance _ _ _ _ 0 _ _ rfl (List.Perm.refl _) rfl)
  have answered := post_reached captured (@Step.answer _ _ _ _ _ _ 0 _ rfl rfl rfl rfl) rfl
  have announced := @sent_reached 1 _ _ _ _ answered rfl rfl rfl rfl
  have chatted := @sent_reached 1 _ _ _ _ announced rfl rfl rfl rfl
  have sent := @sent_reached 1 _ _ _ _ chatted rfl rfl rfl rfl
  have first := deliver_reached sent rfl rfl rfl (by decide)
  have second := deliver_reached first rfl rfl rfl (by decide)
  have third := deliver_reached second rfl rfl rfl (by decide)
  refine ⟨_, third, settled_of_idle (fun T => ?_) (fun _ => nofun) rfl, ⟨0, 1, rfl, rfl, rfl, rfl⟩,
    rfl, ?_, ?_⟩
  · match T with
    | 0 | 1 | _ + 2 => rfl
  · decide
  · decide

/-- Above the safe integers a page does not learn of a new member, and neither does one
whose hello had listed the peers before the member came and copied the history after the
announcement was trimmed from it. -/
theorem participants_diverge :
    (∃ s, greeting.Reachable s ∧ s.server.settled ∧ s.caughtUp 1 ∧ s.server.log.length = 2 ^ 53 + 2 ∧
      2 ∈ s.server.room.peerById ∧ ¬∃ peer ∈ s.page.peersMap, peer.peerId = some 2) ∧
    ∃ s, greeting.Reachable s ∧ s.server.settled ∧ s.caughtUp 1 ∧ s.server.log.length = 3 ∧
      2 ∈ s.server.room.peerById ∧ ¬∃ peer ∈ s.page.peersMap, peer.peerId = some 2 := by
  constructor
  · obtain ⟨history, log, length, vacant⟩ := vacant_reached (2 ^ 53) (by decide)
    have greeted := greeting_reached _ history log (by decide) vacant
    have joined := join_reached greeted
      (@Step.join _ _ greetingToken 2 _ _ 1 0 0 [] 0 rfl (by decide) rfl Nat.two_pos rfl)
      (other_admits _ _ _ rfl rfl)
    have registered := internal_reached joined (@Step.register _ _ _ 1 _ rfl rfl)
    have welcome := internal_reached registered (@Step.welcome _ _ _ _ _ _ 1 _ rfl rfl rfl rfl rfl)
    have members := internal_reached welcome (.members rfl (List.Perm.refl _))
    have capture := internal_reached members (.capture rfl (by decide) rfl rfl)
    have push := post_reached capture (.push rfl) rfl
    have skip := internal_reached push (.skip rfl (.inl rfl))
    have welcomed := internal_reached skip
      (@Step.welcomed _ _ _ _ 1 { first greetingToken 0 .welcoming with peer := 2 } rfl rfl rfl)
    have sent := @sent_reached 1 _ _ _ _ welcomed rfl rfl rfl rfl
    have taken := deliver_reached sent rfl rfl rfl (show 0 < maxHandshakeInbox by decide)
    refine ⟨_, taken, settled_of_idle (fun T => ?_) (fun _ => nofun) rfl, ⟨0, 1, rfl, rfl, rfl, rfl⟩,
      ?_, List.mem_cons_of_mem _ (List.mem_singleton_self _), ?_⟩
    · match T with
      | 0 | 1 | _ + 2 => rfl
    · show ((log ++ [_]) ++ [_]).length = _
      simp [length]
    · rintro ⟨peer, inside, is⟩
      obtain rfl : peer = { peerId := some 1, peerName := some [] } := List.mem_singleton.mp inside
      cases is
  · exact announcement_trimmed

end Greeting
end Conspire.Replay
