import Conspire.Browser.Chat

/-! The session of a page: what each message does to the stored token, the outbox and the
transport. A session ends while its hello is unanswered, or goes on with the token it has;
commands leave the outbox, and are sent again only when a session begins or resumes. -/
namespace Conspire.Browser

/-- What a message leaves of the session when it does not end it. -/
structure Narrowed (before after : Page) : Prop where
  stored : after.stored.map (·.resumeToken) = before.stored.map (·.resumeToken)
  outbox : ∀ c ∈ after.reliability.outbox, c ∈ before.reliability.outbox
  transport : after.transport = before.transport

namespace Narrowed
variable {page middle last : Page} {message : MessageDto} {messages : List MessageDto}

theorem refl (page : Page) : Narrowed page page := ⟨rfl, fun _ => id, rfl⟩

theorem trans (first : Narrowed page middle) (second : Narrowed middle last) : Narrowed page last where
  stored := second.stored.trans first.stored
  outbox c waits := first.outbox c (second.outbox c waits)
  transport := second.transport.trans first.transport

theorem foldl {handle : Page → MessageDto → Page} (each : ∀ page message, Narrowed page (handle page message))
    (messages : List MessageDto) (page : Page) : Narrowed page (messages.foldl handle page) := by
  induction messages generalizing page with
  | nil => exact refl page
  | cons message messages ih => exact (each page message).trans (ih (handle page message))

theorem remove (page : Page) (id : Bytes) :
    Narrowed page { page with reliability := page.reliability.remove id } :=
  ⟨rfl, fun _ waits => List.mem_of_mem_filter waits, rfl⟩

theorem reject (page : Page) (id : Bytes) :
    Narrowed page { page with reliability := (page.reliability.reject id).1 } := by
  unfold ReliabilityState.reject
  split
  · exact refl page
  · exact ⟨rfl, fun _ waits => List.mem_of_mem_filter waits, rfl⟩

theorem acceptSequence_outbox (state : ReliabilityState) (sequence : JsNumber) :
    (state.acceptSequence sequence).1.outbox = state.outbox := by
  unfold ReliabilityState.acceptSequence
  split
  · rfl
  · split
    · rfl
    · split
      · rfl
      · rfl

theorem saveSession (page : Page) (prior : StoredSession) (stored : page.stored = some prior) :
    Narrowed page (page.saveSession prior.resumeToken) := by
  unfold Page.saveSession
  split
  · exact refl page
  · exact ⟨by rw [stored]; rfl, fun _ => id, rfl⟩

theorem acceptDurable (page : Page) (message : MessageDto) : Narrowed page (page.acceptDurable message).1 := by
  unfold Page.acceptDurable
  split
  · exact refl page
  · exact refl page
  · rename_i sequence _ _
    have outbox := acceptSequence_outbox page.reliability (jsNumber (some sequence))
    have counted : Narrowed page
        { page with reliability := (page.reliability.acceptSequence (jsNumber (some sequence))).1 } :=
      ⟨rfl, fun c waits => outbox ▸ waits, rfl⟩
    dsimp only
    split
    · split
      · exact counted
      · rename_i prior stored
        exact counted.trans (saveSession _ prior stored)
    · exact counted

theorem postDurable (page : Page) (message : MessageDto) : Narrowed page (page.postDurable message) := by
  have accepted := acceptDurable page message
  unfold Page.postDurable
  dsimp only
  split
  · exact ⟨accepted.stored, accepted.outbox, accepted.transport⟩
  · exact accepted

theorem hydrate (page : Page) (message : MessageDto) : Narrowed page (page.hydrate message) := by
  unfold Page.hydrate
  split
  · exact postDurable page message
  · exact refl page

theorem reconcileReplay (page : Page) (events : List MessageDto) (resyncRequired : Bool) (latest : JsNumber) :
    Narrowed page (page.reconcileReplay events resyncRequired latest) := by
  unfold Page.reconcileReplay
  refine trans ?_ (foldl hydrate events _)
  split
  · exact ⟨rfl, fun _ => id, rfl⟩
  · exact refl page

/-- The messages that do not end the session. -/
theorem onOtherMessage (page : Page) (delay : Nat) (message : MessageDto)
    (online : message.code = some .apiError → page.transport.state ≠ .handshaking) :
    Narrowed page (page.onOtherMessage delay message) := by
  unfold Page.onOtherMessage
  split
  · split
    · exact refl page
    · exact remove page _
  · rename_i code
    rw [if_neg (online code)]
    split
    · exact refl page
    · exact reject page _
  · exact postDurable page message
  · exact postDurable page message
  · exact postDurable page message
  · exact postDurable page message
  · have known : Narrowed page
        { page with
          peerId := message.peerId, peerName := message.peerName
          peersMap := ((message.peers.getD []).reduceOption).foldl setPeer page.peersMap } :=
      ⟨rfl, fun _ => id, rfl⟩
    dsimp only
    split
    · exact known.trans (postDurable _ _)
    · exact known.trans (foldl hydrate _ _)
  · exact refl page

/-- The inbox is drained by a page that is online. -/
theorem drain (delay : Nat) (messages : List MessageDto) (page : Page) (online : page.transport.state = .online) :
    Narrowed page (messages.foldl (fun page message => page.onOtherMessage delay message) page) := by
  induction messages generalizing page with
  | nil => exact refl page
  | cons message messages ih =>
    have first := onOtherMessage page delay message fun _ => by rw [online]; nofun
    exact first.trans (ih _ (by rw [first.transport, online]))

end Narrowed

/-- A page whose socket opens says hello with the token it has, or ignores the event. -/
theorem onOpen_cases (page : Page) (generation : Nat) :
    page.onOpen generation = (page, none) ∨
      (page.onOpen generation).1.stored = page.stored ∧
        (page.onOpen generation).1.reliability.outbox = page.reliability.outbox ∧
        (page.onOpen generation).1.transport.generation = page.transport.generation ∧
        (page.onOpen generation).1.transport.socket = page.transport.socket ∧
        (page.onOpen generation).1.transport.state = .handshaking ∧
        ∀ hello, (page.onOpen generation).2 = some hello →
          hello.resumeToken = page.stored.map (·.resumeToken) := by
  unfold Page.onOpen
  split
  · rename_i admits
    have outbox (state : ReliabilityState) (sequence : JsNumber) :
        (state.restoreCursor sequence).outbox = state.outbox := by
      unfold ReliabilityState.restoreCursor
      split
      · rfl
      · split
        · rfl
        · rfl
    refine .inr ⟨rfl, outbox _ _, ?_, ?_, ?_, ?_⟩
    · simp [Page.sendHello, ReconnectingTransport.opened, admits]
    · simp [Page.sendHello, ReconnectingTransport.opened, admits]
    · simp [Page.sendHello, ReconnectingTransport.opened, admits]
    · intro hello is
      dsimp only at is
      split at is
      · cases is
        rfl
      · cases is
  · exact .inl rfl

/-- What a message comes to: the session goes on, it ends before it has begun, or it begins
and the waiting commands are sent. -/
inductive Handled (page next : Page) (message : MessageDto) (retried : List Command) : Prop where
  | narrowed : Narrowed page next → retried = [] → Handled page next message retried
  | cleared : page.transport.state = .handshaking → next.stored = none → next.reliability.outbox = [] →
      next.transport.generation = page.transport.generation → next.transport.socket = page.transport.socket →
      next.transport.state ≠ .online → retried = [] → Handled page next message retried
  | ready : message.code = some .sessionReady → next.stored.map (·.resumeToken) = message.resumeToken →
      (∀ c ∈ next.reliability.outbox, c ∈ page.reliability.outbox) → next.transport = page.transport.ready →
      (∀ c ∈ retried, c ∈ next.reliability.outbox) → Handled page next message retried

section Handled
variable {page next : Page} {message : MessageDto} {retried : List Command} {delay : Nat}

theorem retry_kept (transport : ReconnectingTransport) (generation delay : Nat) :
    (transport.retry generation delay).generation = transport.generation ∧
      (transport.retry generation delay).socket = transport.socket ∧
      (transport.state ≠ .online → (transport.retry generation delay).state ≠ .online) := by
  unfold ReconnectingTransport.retry
  split
  · exact ⟨rfl, rfl, id⟩
  · exact ⟨rfl, rfl, fun _ => by simp⟩

theorem invalidSession_handled (handshaking : page.transport.state = .handshaking) :
    Handled page (page.invalidSession delay) message [] := by
  obtain ⟨generation, socket, state⟩ := retry_kept page.transport page.transport.generation delay
  exact .cleared handshaking rfl rfl generation socket (state (by rw [handshaking]; nofun)) rfl

theorem onSessionReady_handled (delay : Nat) (running : page.transport.stopped = false)
    (code : message.code = some .sessionReady) (version : message.protocolVersion = some 2)
    (peer : message.peerId.getD 0 ≠ 0) {token : Bytes} (bears : message.resumeToken = some token)
    (filled : token ≠ []) :
    Handled page (page.onSessionReady delay message).1 message (page.onSessionReady delay message).2 := by
  have named : (message.resumeToken.getD []).isEmpty = false := by simpa [bears] using filled
  have good : (decide (message.protocolVersion ≠ some 2) || decide (message.peerId.getD 0 = 0) ||
      (message.resumeToken.getD []).isEmpty) = false := by simp [version, peer, named]
  unfold Page.onSessionReady
  rw [if_neg (by rw [good]; nofun)]
  extract_lets events peers known replayed saved online drained
  have replay : Narrowed page replayed := by
    have started : Narrowed page known := ⟨rfl, fun _ => id, rfl⟩
    exact started.trans (Narrowed.reconcileReplay known events _ _)
  have stores : saved = { replayed with stored := some ⟨token, replayed.reliability.highestServerSeq⟩ } := by
    simp only [saved, Page.saveSession, named, Bool.false_eq_true, if_false]
    rw [bears, Option.getD_some]
  have transport : online.transport = page.transport.ready := by
    change saved.transport.ready = _
    rw [stores, ← replay.transport]
  have state : online.transport.state = .online := by
    rw [transport, ReconnectingTransport.ready, if_neg (by rw [running]; nofun)]
  have inbox : Narrowed online drained := Narrowed.drain delay _ online state
  refine .ready code ?_ ?_ (inbox.transport.trans transport) ?_
  · rw [inbox.stored]
    change saved.stored.map _ = _
    rw [stores, bears]
    rfl
  · intro c waits
    have before := inbox.outbox c waits
    change c ∈ saved.reliability.outbox at before
    rw [stores] at before
    exact replay.outbox c before
  · intro c sends
    unfold Page.retryPending at sends
    split at sends
    · exact sends
    · cases sends

theorem onMessage_handled (running : page.transport.stopped = false)
    (valid : message.code = some .sessionReady → message.protocolVersion = some 2 ∧
      message.peerId.getD 0 ≠ 0 ∧ ∃ token, message.resumeToken = some token ∧ token ≠ [])
    (is : page.onMessage delay message = (next, retried)) : Handled page next message retried := by
  unfold Page.onMessage at is
  split at is
  · rename_i held
    simp only [Bool.and_eq_true, decide_eq_true_eq] at held
    split at is
    · cases is
      exact invalidSession_handled held.1.1
    · cases is
      exact .narrowed ⟨rfl, fun _ => id, rfl⟩ rfl
  · rename_i free
    split at is
    · rename_i code
      obtain ⟨version, peer, token, bears, filled⟩ := valid code
      have handled := onSessionReady_handled delay running code version peer bears filled
      rwa [is] at handled
    · cases is
      by_cases ends : message.code = some .apiError ∧ page.transport.state = .handshaking
      · have same : page.onOtherMessage delay message = page.invalidSession delay := by
          simp only [Page.onOtherMessage, ends.1, ends.2, if_true]
        rw [same]
        exact invalidSession_handled ends.2
      · exact .narrowed (Narrowed.onOtherMessage page delay message fun code state => ends ⟨code, state⟩) rfl

end Handled

/-- The message acknowledges or rejects the command, or ends the session and abandons all. -/
def Page.settles (page : Page) (message : MessageDto) (id : Bytes) : Prop :=
  if page.transport.state = .handshaking then message.code = some .apiError
  else (message.code = some .messageAck ∨ message.code = some .apiError) ∧ message.clientMessageId = some id

theorem remove_outbox (state : ReliabilityState) (id : Bytes) :
    ∀ c ∈ (state.remove id).outbox, c.clientMessageId ≠ id := by
  intro c inside
  have kept := (List.mem_filter.mp inside).2
  simpa using kept

theorem reject_outbox (state : ReliabilityState) (id : Bytes) :
    ∀ c ∈ (state.reject id).1.outbox, c.clientMessageId ≠ id := by
  intro c inside same
  unfold ReliabilityState.reject at inside
  split at inside
  · rename_i absent
    exact List.find?_eq_none.mp absent c inside (decide_eq_true same)
  · exact remove_outbox state id c inside same

/-- A settled command is no longer in the outbox. -/
theorem settled_outbox {page next : Page} {message : MessageDto} {id : Bytes} {delay : Nat} {retried : List Command}
    (settles : page.settles message id) (is : page.onMessage delay message = (next, retried)) :
    ∀ c ∈ next.reliability.outbox, c.clientMessageId ≠ id := by
  have first : next = (page.onMessage delay message).1 := by rw [is]
  rw [first]
  unfold Page.settles at settles
  split at settles
  · rename_i handshaking
    have ends : (page.onMessage delay message).1 = page.invalidSession delay := by
      simp [Page.onMessage, Page.onOtherMessage, settles, handshaking]
    rw [ends]
    exact nofun
  · rename_i online
    obtain ⟨code | code, known⟩ := settles
    · have removed : (page.onMessage delay message).1 =
          { page with reliability := (page.reliability.acknowledge id).1 } := by
        simp [Page.onMessage, Page.onOtherMessage, code, online, known]
      rw [removed]
      exact remove_outbox page.reliability id
    · have rejected : (page.onMessage delay message).1 =
          { page with reliability := (page.reliability.reject id).1 } := by
        simp [Page.onMessage, Page.onOtherMessage, code, online, known]
      rw [rejected]
      exact reject_outbox page.reliability id

section Outbox
variable (page : Page) (delay : Nat) (message : MessageDto)

/-- No message puts a command into the outbox, also one that ends the session. -/
theorem onOtherMessage_outbox :
    ∀ c ∈ (page.onOtherMessage delay message).reliability.outbox, c ∈ page.reliability.outbox := by
  by_cases ends : message.code = some .apiError ∧ page.transport.state = .handshaking
  · have same : page.onOtherMessage delay message = page.invalidSession delay := by
      simp only [Page.onOtherMessage, ends.1, ends.2, if_true]
    rw [same]
    exact nofun
  · exact (Narrowed.onOtherMessage page delay message fun code state => ends ⟨code, state⟩).outbox

theorem drain_outbox (messages : List MessageDto) (page : Page) :
    ∀ c ∈ (messages.foldl (fun page message => page.onOtherMessage delay message) page).reliability.outbox,
      c ∈ page.reliability.outbox := by
  induction messages generalizing page with
  | nil => exact fun _ => id
  | cons message messages ih => exact fun c waits => onOtherMessage_outbox page delay message c (ih _ c waits)

theorem onSessionReady_outbox :
    (∀ c ∈ (page.onSessionReady delay message).1.reliability.outbox, c ∈ page.reliability.outbox) ∧
      ∀ c ∈ (page.onSessionReady delay message).2, c ∈ page.reliability.outbox := by
  unfold Page.onSessionReady
  split
  · exact ⟨nofun, nofun⟩
  · extract_lets events peers known replayed saved online drained
    have replay : ∀ c ∈ replayed.reliability.outbox, c ∈ page.reliability.outbox :=
      (Narrowed.reconcileReplay known events _ _).outbox
    have stores : saved.reliability = replayed.reliability := by
      simp only [saved, Page.saveSession]
      split <;> rfl
    have inbox : ∀ c ∈ drained.reliability.outbox, c ∈ page.reliability.outbox := by
      intro c waits
      have before := drain_outbox delay _ online c waits
      change c ∈ saved.reliability.outbox at before
      rw [stores] at before
      exact replay c before
    refine ⟨inbox, fun c sends => ?_⟩
    unfold Page.retryPending at sends
    split at sends
    · exact inbox c sends
    · cases sends

/-- What waits after a message has waited before it, and so has what it makes the page send. -/
theorem onMessage_outbox :
    (∀ c ∈ (page.onMessage delay message).1.reliability.outbox, c ∈ page.reliability.outbox) ∧
      ∀ c ∈ (page.onMessage delay message).2, c ∈ page.reliability.outbox := by
  unfold Page.onMessage
  split
  · split
    · exact ⟨nofun, nofun⟩
    · exact ⟨fun _ => id, nofun⟩
  · split
    · exact onSessionReady_outbox page delay message
    · exact ⟨onOtherMessage_outbox page delay message, nofun⟩

end Outbox

end Conspire.Browser
