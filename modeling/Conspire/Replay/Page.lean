import Conspire.Browser.Chat
import Conspire.Replay.Wire

/-! The page on an in-order stream. While every message it takes is the next one
in turn or one it has already seen, its cursor is the number of the last event
it has posted and `seen` stays empty. -/
namespace Conspire.Browser
open Sequence Replay

/-- The page shows the events `base + 1, …, top`, and its cursor is `top`. -/
structure Shows (page : Page) (base top : Nat) : Prop where
  seen : page.reliability.seen = []
  highest : page.reliability.highestServerSeq = top
  start : page.base = base
  rendered : Numbered base top page.rendered

/-- A session record has a token and, where it is `current`, the page's cursor. -/
def Stores (current : Prop) (page : Page) : Prop :=
  ∀ st, page.stored = some st →
    st.resumeToken ≠ [] ∧ (current → st.lastServerSeq = page.reliability.highestServerSeq)

/-- What taking messages of a stream leaves alone, and where posted events come from. -/
structure Kept (before after : Page) (taken : List MessageDto) : Prop where
  transport : after.transport = before.transport
  inbox : after.handshakeInbox = before.handshakeInbox
  stored : after.stored.map (·.resumeToken) = before.stored.map (·.resumeToken)
  snapshot : after.snapshot = before.snapshot
  shown : ∀ m ∈ before.rendered, m ∈ after.rendered
  rendered : ∀ m ∈ after.rendered, m ∈ before.rendered ∨ m ∈ taken

/-- The page has posted all events of the history it was last given. -/
def Posted (page : Page) : Prop := ∀ m ∈ page.snapshot, m ∈ page.rendered

namespace Kept

theorem refl (page : Page) (taken : List MessageDto) : Kept page page taken :=
  ⟨rfl, rfl, rfl, rfl, fun _ => id, fun _ => .inl⟩

theorem posted (kept : Kept before after taken) (posted : Posted before) : Posted after :=
  fun m member => kept.shown m (posted m (kept.snapshot ▸ member))

theorem trans (first : Kept page middle taken) (second : Kept middle last more) :
    Kept page last (taken ++ more) where
  transport := second.transport.trans first.transport
  inbox := second.inbox.trans first.inbox
  stored := second.stored.trans first.stored
  snapshot := second.snapshot.trans first.snapshot
  shown m member := second.shown m (first.shown m member)
  rendered m member := by
    rw [List.mem_append]
    rcases second.rendered m member with earlier | taken
    · rcases first.rendered m earlier with old | taken
      · exact .inl old
      · exact .inr (.inl taken)
    · exact .inr (.inr taken)

end Kept

variable {page : Page} {base top sequence : Nat} {message : MessageDto} {current : Prop}

/-- The next event in turn is posted. -/
theorem postDurable_next (shows : Shows page base top) (stores : Stores current page)
    (number : durableSeq message = some (top + 1)) (safe : top + 1 ≤ maxSafeInteger) :
    Shows (page.postDurable message) base (top + 1) ∧ Stores current (page.postDurable message) ∧
      Kept page (page.postDurable message) [message] := by
  have accepted : page.reliability.acceptSequence (jsNumber (some (top + 1))) =
      ({ page.reliability with highestServerSeq := (top + 1 : Nat) }, true) := by
    have next := acceptSequence_next page.reliability shows.seen (by rw [shows.highest]; omega)
      (by rw [shows.highest]; unfold maxSafeInteger at *; omega)
    rw [shows.highest] at next
    exact next
  have rendered := shows.rendered.snoc number
  simp only [Page.postDurable, Page.acceptDurable, (durableSeq_eq_some number).2, accepted, if_true]
  cases stored : page.stored with
  | none =>
    simp only [if_true]
    refine ⟨⟨shows.seen, rfl, shows.start, rendered⟩, ?_, rfl, rfl, by simp [stored], rfl,
      fun _ => List.mem_append_left _, by simp⟩
    intro st is
    cases is
  | some prior =>
    obtain ⟨token, _⟩ := stores prior stored
    have filled : prior.resumeToken.isEmpty = false := by simpa using token
    simp only [Page.saveSession, filled, Bool.false_eq_true, if_false, if_true]
    refine ⟨⟨shows.seen, rfl, shows.start, rendered⟩, ?_, rfl, rfl, by simp [stored], rfl,
      fun _ => List.mem_append_left _, by simp⟩
    intro st is
    cases is
    exact ⟨token, fun _ => rfl⟩

/-- An event at or below the cursor changes nothing. -/
theorem postDurable_old (shows : Shows page base top) (number : durableSeq message = some sequence)
    (positive : 0 < sequence) (old : sequence ≤ top) : page.postDurable message = page := by
  obtain ⟨sequence, rfl⟩ : ∃ n, sequence = n + 1 := ⟨sequence - 1, by omega⟩
  have refused := acceptSequence_old page.reliability (sequence + 1 : Nat)
    (by rw [shows.highest]; omega)
  have known : page.reliability.acceptSequence (jsNumber (some (sequence + 1))) =
      (page.reliability, false) := refused
  simp [Page.postDurable, Page.acceptDurable, (durableSeq_eq_some number).2, known]

/-- A handler of messages that posts durable events and otherwise changes
nothing that replay is about. -/
structure Posts (current : Prop) (handle : Page → MessageDto → Page) (admits : MessageDto → Prop)
    (ready : Page → Prop) : Prop where
  durable : ∀ {page message n}, ready page → durableSeq message = some n →
    handle page message = page.postDurable message
  other : ∀ {page message base top}, ready page → admits message → durableSeq message = none →
    Shows page base top → Stores current page →
    Shows (handle page message) base top ∧ Stores current (handle page message) ∧
      Kept page (handle page message) []
  kept : ∀ {before after taken}, Kept before after taken → ready before → ready after

/-- Taking a stream that covers everything above the page's cursor leaves the
page at a cursor from which the rest of the stream does so. -/
theorem Posts.foldl {handle : Page → MessageDto → Page} {admits : MessageDto → Prop}
    {ready : Page → Prop} (posts : Posts current handle admits ready) (messages : List MessageDto)
    {page : Page} {top : Nat} (shows : Shows page base top) (stores : Stores current page) (is : ready page)
    (admitted : ∀ m ∈ messages, admits m) (positive : ∀ n ∈ seqs messages, 0 < n)
    (covers : Covers top upTo (seqs messages ++ rest)) (within : top ≤ upTo)
    (safe : upTo ≤ maxSafeInteger) :
    ∃ reached, Shows (messages.foldl handle page) base reached ∧ Stores current (messages.foldl handle page) ∧
      Kept page (messages.foldl handle page) messages ∧ top ≤ reached ∧ reached ≤ upTo ∧
      (∀ n ∈ seqs messages, n ≤ reached) ∧ Covers reached upTo rest := by
  induction messages generalizing page top with
  | nil => exact ⟨top, shows, stores, Kept.refl .., Nat.le_refl _, within, by simp, covers⟩
  | cons message messages ih =>
    have admitted' : ∀ m ∈ messages, admits m := fun m member => admitted m (.tail _ member)
    rw [seqs_cons] at positive covers
    cases number : durableSeq message with
    | none =>
      rw [number] at positive covers
      obtain ⟨shows', stores', kept⟩ := posts.other is (admitted message (.head _)) number shows stores
      obtain ⟨reached, shows, stores, later, top_le, le, seen, covers⟩ :=
        ih shows' stores' (posts.kept kept is) admitted' positive covers within
      refine ⟨reached, shows, stores, ?_, top_le, le, ?_, covers⟩
      · have := kept.trans later
        exact ⟨this.transport, this.inbox, this.stored, this.snapshot, this.shown, fun m member =>
          (this.rendered m member).imp_right (.tail _)⟩
      · rw [seqs_cons, number]
        exact seen
    | some n =>
      rw [number] at positive covers
      simp only [Option.toList_some, List.cons_append, List.nil_append] at positive covers
      have positive' : ∀ n ∈ seqs messages, 0 < n := fun n member => positive n (.tail _ member)
      rw [List.foldl_cons, posts.durable is number]
      by_cases old : n ≤ top
      · rw [postDurable_old shows number (positive n (.head _)) old]
        obtain ⟨reached, shows, stores, later, top_le, le, seen, covers⟩ :=
          ih shows stores is admitted' positive' (covers.head_old old) within
        refine ⟨reached, shows, stores, ?_, top_le, le, ?_, covers⟩
        · exact ⟨later.transport, later.inbox, later.stored, later.snapshot, later.shown, fun m member =>
            (later.rendered m member).imp_right (.tail _)⟩
        · rw [seqs_cons, number]
          intro k member
          simp only [Option.toList_some, List.singleton_append, List.mem_cons] at member
          rcases member with rfl | member
          · exact Nat.le_trans old top_le
          · exact seen k member
      · have reach := covers.bounded n (.head _)
        obtain ⟨rfl, covers'⟩ := covers.head_next (by omega)
        obtain ⟨shows', stores', kept⟩ := postDurable_next shows stores number (by omega)
        obtain ⟨reached, shows, stores, later, top_le, le, seen, covers⟩ :=
          ih shows' stores' (posts.kept kept is) admitted' positive' covers' reach
        refine ⟨reached, shows, stores, kept.trans later, by omega, le, ?_, covers⟩
        rw [seqs_cons, number]
        intro k member
        simp only [Option.toList_some, List.singleton_append, List.mem_cons] at member
        rcases member with rfl | member
        · exact top_le
        · exact seen k member

/-- What the server puts on a stream besides READY: numbered durable events and
messages that post nothing. -/
def Streamed (message : MessageDto) : Prop :=
  (durableCode message.code = true → (durableSeq message).isSome) ∧
    message.code ≠ some .info ∧ message.code ≠ some .sessionReady

theorem durable_of_number (number : durableSeq message = some sequence) :
    message.code = some .peerJoined ∨ message.code = some .peerLeft ∨
      message.code = some .peerMessage ∨ message.code = some .peerMessageFile := by
  have durable := (durableSeq_eq_some number).1
  simpa [durableCode, or_assoc] using durable

theorem posts_hydrate : Posts current Page.hydrate Streamed fun _ => True where
  durable := by
    intro page message n _ number
    simp [Page.hydrate, (durableSeq_eq_some number).1]
  other := by
    intro page message base top _ streamed silent shows stores
    have quiet : durableCode message.code = false := by
      by_contra durable
      have := streamed.1 (by simpa using durable)
      simp [silent] at this
    simp only [Page.hydrate, quiet, Bool.false_eq_true, if_false]
    exact ⟨shows, stores, Kept.refl ..⟩
  kept _ _ := trivial

/-- Changes of the outbox do not touch what is shown. -/
theorem Shows.outbox {state : ReliabilityState} (shows : Shows page base top)
    (seen : state.seen = page.reliability.seen)
    (highest : state.highestServerSeq = page.reliability.highestServerSeq) :
    Shows { page with reliability := state } base top :=
  ⟨seen.trans shows.seen, highest.trans shows.highest, shows.start, shows.rendered⟩

theorem Stores.outbox {state : ReliabilityState} (stores : Stores current page)
    (highest : state.highestServerSeq = page.reliability.highestServerSeq) :
    Stores current { page with reliability := state } := by
  intro st is
  obtain ⟨token, cursor⟩ := stores st is
  exact ⟨token, fun is => (cursor is).trans highest.symm⟩

theorem reject_cursor (state : ReliabilityState) (id : Bytes) :
    (state.reject id).1.seen = state.seen ∧
      (state.reject id).1.highestServerSeq = state.highestServerSeq := by
  unfold ReliabilityState.reject
  split <;> exact ⟨rfl, rfl⟩

theorem posts_online (delay : Nat) :
    Posts current (fun page message => page.onOtherMessage delay message) Streamed
      fun page => page.transport.state = .online where
  durable := by
    intro page message n _ number
    rcases durable_of_number number with code | code | code | code <;>
      simp [Page.onOtherMessage, code]
  other := by
    intro page message base top online streamed silent shows stores
    have outbox : ∀ {state : ReliabilityState}, state.seen = page.reliability.seen →
        state.highestServerSeq = page.reliability.highestServerSeq →
        Shows { page with reliability := state } base top ∧ Stores current { page with reliability := state } ∧
          Kept page { page with reliability := state } [] := by
      intro state seen highest
      exact ⟨shows.outbox seen highest, stores.outbox highest, rfl, rfl, rfl, rfl, fun _ => id, fun _ => .inl⟩
    have same := And.intro shows (And.intro stores (Kept.refl page []))
    unfold Page.onOtherMessage
    split
    · split
      · exact same
      · exact outbox rfl rfl
    · rw [if_neg (by rw [online]; simp)]
      split
      · exact same
      · exact outbox (reject_cursor ..).1 (reject_cursor ..).2
    case h_3 code | h_4 code | h_5 code | h_6 code =>
      have numbered := streamed.1 (by simp [durableCode, code])
      simp [silent] at numbered
    case h_7 code => exact absurd code streamed.2.1
    case h_8 => exact same
  kept := by
    intro before after taken kept online
    rw [kept.transport]
    exact online

section Ready
variable {page : Page} {a base top upTo latest : Nat} {events : List MessageDto}

/-- The number `replaceHistory` reads from an event. -/
theorem mem_sequences (numbered : Numbered a upTo events) (safe : upTo ≤ maxSafeInteger)
    (value : Int) :
    value ∈ ReliabilityState.safeSequences events ↔
    ∃ n : Nat, a < n ∧ n ≤ upTo ∧ value = n := by
  rw [ReliabilityState.safeSequences, List.mem_filterMap]
  constructor
  · rintro ⟨event, member, read⟩
    obtain ⟨n, known, above, within⟩ := numbered.durable member
    refine ⟨n, above, within, ?_⟩
    simp only [(durableSeq_eq_some known).2, jsNumber, Option.map_some] at read
    split at read
    · exact (Option.some.inj read).symm
    · contradiction
  · rintro ⟨n, above, within, rfl⟩
    obtain ⟨event, member, known⟩ :=
      List.mem_filterMap.mp (numbered.seqs.mem_iff.mpr ⟨above, within⟩)
    refine ⟨event, member, ?_⟩
    have small : (n : Int).natAbs ≤ maxSafeInteger := by omega
    have positive : 0 < n := by omega
    simp only [(durableSeq_eq_some known).2, jsNumber, Option.map_some, isSafeInteger]
    exact if_pos (by simpa using ⟨small, positive⟩)

/-- A replaced history starts just below its first event. -/
theorem replaceHistory_numbered (state : ReliabilityState) (numbered : Numbered a upTo events)
    (safe : upTo ≤ maxSafeInteger) (latest_le : latest ≤ upTo) (empty : events = [] → upTo = 0) :
    state.replaceHistory events (jsNumber (some latest)) =
      { state with seen := [], highestServerSeq := a } := by
  have low := numbered.1
  have highest : (state.replaceHistory events (jsNumber (some latest))).highestServerSeq = a := by
    unfold ReliabilityState.replaceHistory
    dsimp only
    split
    · rename_i least is
      obtain ⟨member, smallest⟩ := List.min?_eq_some_iff.mp is
      obtain ⟨n, above, within, rfl⟩ := (mem_sequences numbered safe least).mp member
      have first : (n : Int) ≤ (a + 1 : Nat) :=
        smallest _ ((mem_sequences numbered safe _).mpr
          ⟨a + 1, by omega, by omega, rfl⟩)
      show (n : Int) - 1 = a
      omega
    · rename_i noMinimum
      have nothing : events = [] := by
        rw [List.min?_eq_none_iff] at noMinimum
        by_contra nonempty
        obtain ⟨event, member⟩ := List.exists_mem_of_ne_nil _ nonempty
        obtain ⟨n, _, above, within⟩ := numbered.durable member
        have := (mem_sequences numbered safe n).mpr ⟨n, above, within, rfl⟩
        rw [noMinimum] at this
        cases this
      have zero := empty nothing
      have : latest = 0 := by omega
      have : a = 0 := by omega
      simp [jsNumber, *]
  have rest : ∀ result : ReliabilityState, result = state.replaceHistory events (jsNumber (some latest)) →
      result = { state with seen := [], highestServerSeq := result.highestServerSeq } := by
    rintro result rfl
    rfl
  rw [rest _ rfl, highest]

/-- The events of a snapshot are numbered messages. -/
theorem streamed_of_numbered (numbered : Numbered a upTo events) : ∀ m ∈ events, Streamed m := by
  intro m member
  obtain ⟨n, known, _⟩ := numbered.durable member
  have durable := durable_of_number known
  refine ⟨fun _ => by simp [known], ?_, ?_⟩ <;>
    rcases durable with code | code | code | code <;> simp [code]

/-- A snapshot begins just below its first event. -/
theorem base_numbered (numbered : Numbered a upTo page.snapshot) (empty : page.snapshot = [] → upTo = 0) :
    page.base = a := by
  obtain ⟨low, shape⟩ := numbered
  cases is : page.snapshot with
  | nil =>
    have zero := empty is
    have none : page.base = 0 := by simp [Page.base, is]
    omega
  | cons first rest =>
    rw [is, List.map_cons] at shape
    cases span : upTo - a with
    | zero =>
      rw [span] at shape
      cases shape
    | succ n =>
      rw [span, List.range'_succ, List.map_cons] at shape
      have number := durableSeq_eq_some (List.cons.inj shape).1
      simp [Page.base, is, number.2]

/-- A page that shows the numbers of a snapshot by events of it shows all of them. -/
theorem posted_numbered (numbered : Numbered a upTo events) (shown : Numbered a upTo page.rendered)
    (among : ∀ m ∈ page.rendered, m ∈ events) : ∀ m ∈ events, m ∈ page.rendered := by
  intro m member
  obtain ⟨n, number, above, within⟩ := numbered.durable member
  obtain ⟨other, here, same⟩ := mem_seqs.mp (shown.seqs.mem_iff.mpr ⟨above, within⟩)
  rwa [numbered.unique member (among other here) (number.trans same.symm)]

theorem reconcileReplay_shows (resync : Bool) (numbered : Numbered a upTo events)
    (safe : upTo ≤ maxSafeInteger) (latest_le : latest ≤ upTo)
    (replaced : resync = true → events = [] → upTo = 0)
    (continued : resync = false → Shows page base a) (stores : Stores False page) :
    ∃ start, (resync = true → start = a) ∧ (resync = false → start = base) ∧
      Shows (page.reconcileReplay events resync (jsNumber (some latest))) start upTo ∧
      Kept { page with
          rendered := if resync then [] else page.rendered
          snapshot := if resync then events else page.snapshot }
        (page.reconcileReplay events resync (jsNumber (some latest))) events ∧
      (resync = true → Posted (page.reconcileReplay events resync (jsNumber (some latest)))) := by
  have covers : Covers a upTo (seqs events ++ []) := by
    rw [List.append_nil]
    exact .of_consecutive numbered.seqs
  have positive : ∀ n ∈ seqs events, 0 < n := by
    intro n member
    have := (numbered.seqs.mem_iff.mp member).1
    omega
  have fold : ∀ {first : Page} {start}, Shows first start a → Stores False first →
      Shows (events.foldl Page.hydrate first) start upTo ∧
        Kept first (events.foldl Page.hydrate first) events := by
    intro first start shows stores
    obtain ⟨reached, shows, _, kept, _, le, _, rest⟩ := posts_hydrate.foldl events shows stores
      trivial (streamed_of_numbered numbered) positive covers numbered.1 safe
    have := rest.done
    have same : reached = upTo := by omega
    exact ⟨same ▸ shows, kept⟩
  cases resync with
  | false =>
    obtain ⟨shows, kept⟩ := fold (continued rfl) stores
    exact ⟨base, nofun, fun _ => rfl, shows, kept, nofun⟩
  | true =>
    have cursor := replaceHistory_numbered page.reliability numbered safe latest_le (replaced rfl)
    have start : Shows (page.replace events (jsNumber (some latest))) a a := by
      have based : (page.replace events (jsNumber (some latest))).base = a :=
        base_numbered (show Numbered a upTo (page.replace events _).snapshot from numbered) (replaced rfl)
      refine ⟨?_, ?_, based, .nil a⟩
      · simp only [Page.replace, cursor]
      · simp only [Page.replace, cursor]
    have stored : Stores False (page.replace events (jsNumber (some latest))) :=
      fun st is => ⟨(stores st is).1, False.elim⟩
    obtain ⟨shows, kept⟩ := fold start stored
    have among : ∀ m ∈ (page.reconcileReplay events true (jsNumber (some latest))).rendered, m ∈ events :=
      fun m member => (kept.rendered m member).resolve_left List.not_mem_nil
    refine ⟨a, fun _ => rfl, nofun, shows, ⟨kept.transport, kept.inbox, kept.stored, kept.snapshot, kept.shown,
      kept.rendered⟩, fun _ m member => ?_⟩
    have same : (page.reconcileReplay events true (jsNumber (some latest))).snapshot = events := kept.snapshot
    exact posted_numbered numbered shows.rendered among m (same ▸ member)

/-- The page after a READY: it shows the snapshot and what had raced ahead of it. -/
structure Online (before after : Page) (h : Hello) (start top upper : Nat) : Prop where
  shows : Shows after start top
  replaced : (h.resync || !h.resumed) = true → Numbered start h.upTo h.history
  continued : (h.resync || !h.resumed) = false → before.base = start
  posted : Posted after
  stores : Stores True after
  stored : after.stored.isSome
  transport : after.transport = before.transport.ready
  inbox : after.handshakeInbox = []
  rendered : ∀ m ∈ after.rendered, m ∈ before.rendered ∨ m ∈ h.history ∨ m ∈ before.handshakeInbox
  snapshot : h.upTo ≤ top
  within : top ≤ upper
  drained : ∀ n ∈ seqs before.handshakeInbox, n ≤ top

/-- A READY sets the participants, hydrates its history, goes online and drains the inbox. -/
theorem onSessionReady_eq {h : Hello} (delay : Nat) (nickname : Bytes) (peer : 0 < h.peer)
    (token : h.token ≠ []) : (page.onSessionReady delay (h.ready nickname)).1 =
      let known : Page := { page with
        peerId := some (h.peer : Int), peerName := some nickname
        peersMap := h.peers.foldl setPeer [] }
      let replayed := known.reconcileReplay h.history (h.resync || !h.resumed) (jsNumber (some h.latest))
      replayed.handshakeInbox.foldl (fun page message => page.onOtherMessage delay message)
        { replayed with
          stored := some ⟨h.token, replayed.reliability.highestServerSeq⟩
          transport := replayed.transport.ready, handshakeInbox := [] } := by
  have accepted : ((h.ready nickname).protocolVersion ≠ some 2 ||
      (h.ready nickname).peerId.getD 0 = 0 ||
      ((h.ready nickname).resumeToken.getD []).isEmpty) = false := by
    simp [Hello.ready, token, Nat.pos_iff_ne_zero.mp peer]
  have events : (((h.ready nickname).history).getD []).reduceOption = h.history := by
    simp [Hello.ready]
  have peers : (((h.ready nickname).peers).getD []).reduceOption = h.peers := by
    simp [Hello.ready]
  have filled : h.token.isEmpty = false := by simpa using token
  unfold Page.onSessionReady
  rw [accepted]
  simp only [events, peers]
  simp [Page.saveSession, filled, Hello.ready]

theorem onSessionReady_online {h : Hello} (delay : Nat) (nickname : Bytes) (peer : 0 < h.peer)
    (token : h.token ≠ []) (running : page.transport.stopped = false)
    (numbered : Numbered a h.upTo h.history) (latest : h.latest ≤ h.upTo)
    (replaced : (h.resync || !h.resumed) = true → h.history = [] → h.upTo = 0)
    (continued : (h.resync || !h.resumed) = false → Shows page base a) (stores : Stores False page)
    (posted : Posted page) (streamed : ∀ m ∈ page.handshakeInbox, Streamed m)
    (positive : ∀ n ∈ seqs page.handshakeInbox, 0 < n)
    (covers : Covers h.upTo upper (seqs page.handshakeInbox)) (within : h.upTo ≤ upper)
    (safe : upper ≤ maxSafeInteger) :
    ∃ start top, Online page (page.onSessionReady delay (h.ready nickname)).1 h start top upper := by
  set known : Page := { page with
    peerId := some (h.peer : Int), peerName := some nickname
    peersMap := h.peers.foldl setPeer [] } with known_def
  have continues : (h.resync || !h.resumed) = false → Shows known base a := fun is =>
    ⟨(continued is).seen, (continued is).highest, (continued is).start, (continued is).rendered⟩
  obtain ⟨start, fresh, old, shows, kept, anew⟩ := reconcileReplay_shows (h.resync || !h.resumed) numbered
    (by omega) latest replaced continues (show Stores False known from stores)
  set replayed := known.reconcileReplay h.history (h.resync || !h.resumed)
    (jsNumber (some h.latest)) with replayed_def
  set online : Page := { replayed with
    stored := some ⟨h.token, replayed.reliability.highestServerSeq⟩
    transport := replayed.transport.ready, handshakeInbox := [] } with online_def
  have eq : (page.onSessionReady delay (h.ready nickname)).1 =
      replayed.handshakeInbox.foldl (fun page message => page.onOtherMessage delay message) online :=
    onSessionReady_eq delay nickname peer token
  have state : online.transport.state = .online := by
    simp [online_def, kept.transport, known_def, ReconnectingTransport.ready, running]
  have shows' : Shows online start h.upTo := ⟨shows.seen, shows.highest, shows.start, shows.rendered⟩
  have stores' : Stores True online := by
    intro st is
    cases is
    exact ⟨token, fun _ => rfl⟩
  have inbox : replayed.handshakeInbox = page.handshakeInbox := kept.inbox
  have whole : Posted online := by
    show Posted replayed
    cases replaces : h.resync || !h.resumed with
    | true => exact anew replaces
    | false =>
      refine kept.posted ?_
      rw [replaces]
      exact posted
  have covers' : Covers h.upTo upper (seqs page.handshakeInbox ++ []) := by
    rwa [List.append_nil]
  obtain ⟨top, shown, stored, later, reach, le, seen, _⟩ := (posts_online delay).foldl
    page.handshakeInbox shows' stores' state streamed positive covers' within safe
  rw [eq, inbox]
  refine ⟨start, top, shown, ?_, ?_, later.posted whole, stored, ?_, ?_, ?_, ?_, reach, le, seen⟩
  · exact fun is => fresh is ▸ numbered
  · exact fun is => old is ▸ (continued is).start
  · have known := congrArg Option.isSome later.stored
    rw [Option.isSome_map, Option.isSome_map] at known
    rw [known, online_def]
    rfl
  · rw [later.transport, online_def]
    exact congrArg ReconnectingTransport.ready kept.transport
  · rw [later.inbox]
  · intro m member
    rcases later.rendered m member with shown | drained
    · rcases kept.rendered m shown with earlier | event
      · refine .inl ?_
        dsimp only at earlier
        split at earlier
        · cases earlier
        · exact earlier
      · exact .inr (.inl event)
    · exact .inr (.inr drained)

end Ready

end Conspire.Browser
