import Conspire.Browser.Session
import Conspire.Commands.Exchange
import Conspire.Commands.Idempotence

/-! A command of the page has one effect at most. While a command waits in the outbox, the
stored token is that of the session its earlier transmissions went to: the token changes
only when the outbox is emptied, or before the first transmission. -/
namespace Conspire.Commands
open Session Transition Browser

section Transport
variable {transport next : ReconnectingTransport} {created : Option Socket} {delay : Nat}

/-- A connect does nothing, or begins a generation with the socket it creates. -/
inductive Connected (transport : ReconnectingTransport) (created : Option Socket) (next : ReconnectingTransport) :
    Prop where
  | kept : next.generation = transport.generation → next.state = transport.state →
      next.socket = transport.socket → Connected transport created next
  | began : next.generation ≠ transport.generation → next.state ≠ .online →
      (∀ T, created = some T → next.socket = some T) → Connected transport created next

theorem connect_begins (later : transport.generation ≤ next.generation)
    (free : next.stopped = false ∧ next.state ≠ .connecting ∧ next.state ≠ .handshaking) :
    Connected transport created (next.connect created delay) := by
  have grown : next.generation + 1 ≠ transport.generation := by omega
  unfold ReconnectingTransport.connect
  rw [if_neg (by simp [free])]
  cases created with
  | none =>
    dsimp only
    obtain ⟨generation, _, state⟩ := retry_kept { next.clearRetry with
      state := .connecting, generation := next.generation + 1 } (next.generation + 1) delay
    exact .began (by rw [generation]; exact grown) (state nofun) nofun
  | some T => exact .began grown nofun fun _ is => is

theorem connect_connected (generation : next.generation = transport.generation)
    (state : next.state = transport.state) (socket : next.socket = transport.socket) :
    Connected transport created (next.connect created delay) := by
  by_cases busy : next.stopped = true ∨ next.state = .connecting ∨ next.state = .handshaking
  · have blocked : next.connect created delay = next := by
      unfold ReconnectingTransport.connect
      rw [if_pos (by simpa [or_assoc] using busy)]
    rw [blocked]
    exact .kept generation state socket
  · simp only [not_or, Bool.not_eq_true] at busy
    exact connect_begins (Nat.le_of_eq generation.symm) busy

theorem dials_connected (dials : Replay.Dials transport created delay next) : Connected transport created next := by
  cases dials with
  | start => exact connect_connected rfl rfl rfl
  | retry => exact connect_connected rfl rfl rfl
  | timer => exact connect_connected rfl rfl rfl
  | online =>
    unfold ReconnectingTransport.reconnectNow
    split
    · exact .kept rfl rfl rfl
    · rename_i running
      exact connect_begins (Nat.le_succ _) ⟨Bool.eq_false_of_not_eq_true running, nofun, nofun⟩

end Transport

section Server
variable {config : ConfigDto} {s t : State} {l : Label} {p : PeerId} {T : Socket} {peer : Peer}

/-- Only a bind gives a peer a transport. -/
theorem Step.socket (step : Step config s l t) (known : t.peers p = some peer) (bound : peer.socket = some T) :
    (∃ old, s.peers p = some old ∧ old.socket = some T) ∨ l = .bind p T := by
  have updated {member : PeerId} {new : Peer} (is : t.peers = Function.update s.peers member (some new))
      (own : new.socket = some T →
        (∃ old, s.peers member = some old ∧ old.socket = some T) ∨ l = .bind member T) :
      (∃ old, s.peers p = some old ∧ old.socket = some T) ∨ l = .bind p T := by
    rw [is] at known
    by_cases here : p = member
    · subst here
      rw [Function.update_self] at known
      cases known
      exact own bound
    · rw [Function.update_of_ne here] at known
      exact .inl ⟨peer, known, bound⟩
  cases step with
  | share _ _ _ was shared =>
    obtain ⟨host, _⟩ := Room.shareFiles_eq_some shared
    exact updated rfl fun bound => .inl ⟨_, was, by rwa [host] at bound⟩
  | record _ _ was => exact updated rfl fun bound => .inl ⟨_, was, bound⟩
  | join =>
    refine updated rfl fun bound => .inr ?_
    cases bound
    rfl
  | bind =>
    refine updated rfl fun bound => .inr ?_
    cases bound
    rfl
  | detach was detached =>
    refine updated rfl fun bound => .inl ?_
    rcases Peer.detachIfCurrent_eq detached with ⟨_, same⟩ | ⟨_, _, free, _⟩
    · exact ⟨_, was, same ▸ bound⟩
    · cases free.symm.trans bound
  | leave was => exact updated rfl fun bound => .inl ⟨_, was, bound⟩
  | withdraw was => exact updated rfl fun bound => .inl ⟨_, was, bound⟩
  | _ => exact .inl ⟨peer, known, bound⟩

end Server

/-- The sessions of the server and the sockets of the page fit together. -/
structure Served (s : Exchange) : Prop where
  issued : ∀ {token p}, s.issued token = some p → 0 < p ∧ token ≠ []
  registered : ∀ {token p}, s.registry token = some p → s.issued token = some p
  serving : ∀ {T p token phase}, s.handler T = .serving p token phase → s.issued token = some p
  current : ∀ {p peer T}, s.server.peers p = some peer → peer.socket = some T → s.identity T = some p
  greeted : ∀ {T hello p token phase t}, s.hellos T = some hello → s.handler T = .serving p token phase →
    hello.resumeToken = some t → t = token
  silent : ∀ {T}, s.owns T → s.hellos T = none → s.handler T = .pending
  ready : ∀ {T m}, m ∈ s.wire T → m.code = some .sessionReady →
    ∃ p token, s.identity T = some p ∧ s.issued token = some p ∧ IsReady m p token

section Sessions
variable {config : ConfigDto} {s t : Exchange} {e : Event} {T S : Socket} {p member : PeerId} {token : Bytes}
  {phase : Phase} {after : State} {message : MessageDto} {l : Label}

theorem identity_of_serving (is : s.handler T = .serving p token phase) : s.identity T = some p := by
  rw [Exchange.identity, is]

theorem serving_of_identity (is : s.identity T = some p) : ∃ token phase, s.handler T = .serving p token phase := by
  unfold Exchange.identity at is
  split at is
  · rename_i peer token phase handler
    cases is
    exact ⟨token, phase, handler⟩
  · cases is

/-- A handler that had no peer, or has the same one. -/
theorem identity_setHandler {handler : Handler}
    (same : ∀ p, s.identity T = some p → ∃ token phase, handler = .serving p token phase)
    (is : s.identity S = some p) : (s.setHandler T handler).identity S = some p := by
  by_cases here : S = T
  · subst here
    obtain ⟨token, phase, rfl⟩ := same p is
    simp [Exchange.identity, Exchange.setHandler]
  · simpa [Exchange.identity, Exchange.setHandler, Function.update_of_ne here] using is

/-- The sessions go on where the sockets of the page stay as they are. -/
theorem Served.session (served : Served s) (hellos : t.hellos = s.hellos) (link : t.link = s.link)
    (wire : t.wire = s.wire) (server : t.server = s.server)
    (issued : ∀ {token p}, t.issued token = some p → 0 < p ∧ token ≠ [])
    (older : ∀ {token p}, s.issued token = some p → t.issued token = some p)
    (registered : ∀ {token p}, t.registry token = some p → t.issued token = some p)
    (identity : ∀ {S p}, s.identity S = some p → t.identity S = some p)
    (moved : ∀ S, t.handler S = s.handler S ∨ (s.owns S → s.hellos S ≠ none) ∧
      ∀ p token phase, t.handler S = .serving p token phase → t.issued token = some p ∧
        ∀ hello t, s.hellos S = some hello → hello.resumeToken = some t → t = token) : Served t where
  issued := issued
  registered := registered
  serving {S p token phase} is := by
    rcases moved S with same | ⟨_, new⟩
    · exact older (served.serving (same ▸ is))
    · exact (new p token phase is).1
  current {p peer S} known bound := identity (served.current (server ▸ known) bound)
  greeted {S hello p token phase t} sent is resumes := by
    rw [hellos] at sent
    rcases moved S with same | ⟨_, new⟩
    · exact served.greeted sent (same ▸ is) resumes
    · exact (new p token phase is).2 hello t sent resumes
  silent {S} owns quiet := by
    have owned : s.owns S := by
      simpa only [Exchange.owns, hellos, link] using owns
    rw [hellos] at quiet
    rcases moved S with same | ⟨spoken, _⟩
    · rw [same]
      exact served.silent owned quiet
    · exact absurd quiet (spoken owned)
  ready {S m} written code := by
    rw [wire] at written
    obtain ⟨p, token, known, made, ready⟩ := served.ready written code
    exact ⟨p, token, identity known, older made, ready⟩

/-- One more frame; a SESSION_READY is that of the socket's session. -/
theorem Served.write (served : Served s) (message : MessageDto)
    (ready : message.code = some .sessionReady →
      ∃ p token, s.identity T = some p ∧ s.issued token = some p ∧ IsReady message p token) :
    Served (s.write T message) :=
  { served with
    ready := by
      intro S m written code
      by_cases here : S = T
      · subst here
        simp only [Exchange.write, Function.update_self, List.mem_append, List.mem_singleton] at written
        rcases written with earlier | rfl
        · exact served.ready earlier code
        · exact ready code
      · simp only [Exchange.write, Function.update_of_ne here] at written
        exact served.ready written code }

/-- A section of the command handlers. -/
theorem Served.step (served : Served s) (step : Step config s.server l after)
    (bound : ∀ p T, l = .bind p T → s.identity T = some p) : Served { s with server := after } :=
  { served with
    current := by
      intro p peer T known socket
      rcases Step.socket step known socket with ⟨old, was, same⟩ | is
      · exact served.current was same
      · exact bound p T is }

/-- The sockets of the page change where the server has not answered yet. -/
theorem Served.page (served : Served s) (hellos : ∀ T, t.hellos T = s.hellos T ∨ s.handler T = .pending)
    (owns : ∀ T, t.owns T → t.hellos T = none → s.owns T ∧ s.hellos T = none ∨ s.handler T = .pending)
    (server : t.server = s.server) (registry : t.registry = s.registry) (issued : t.issued = s.issued)
    (handler : t.handler = s.handler) (wire : t.wire = s.wire) : Served t where
  issued is := served.issued (issued ▸ is)
  registered is := issued ▸ served.registered (registry ▸ is)
  serving is := issued ▸ served.serving (handler ▸ is)
  current {p peer T} known bound := by
    have before := served.current (server ▸ known) bound
    rwa [Exchange.identity, handler, ← Exchange.identity]
  greeted {T hello p token phase t} sent is resumes := by
    rw [handler] at is
    rcases hellos T with same | pending
    · exact served.greeted (same ▸ sent) is resumes
    · cases pending.symm.trans is
  silent {T} owned quiet := by
    rw [handler]
    rcases owns T owned quiet with ⟨before, quiet⟩ | pending
    · exact served.silent before quiet
    · exact pending
  ready {T m} written code := by
    obtain ⟨p, token, known, made, ready⟩ := served.ready (wire ▸ written) code
    exact ⟨p, token, by rwa [Exchange.identity, handler, ← Exchange.identity], issued ▸ made, ready⟩

/-- The page keeps its sockets, or gives one up. -/
theorem Served.keep (served : Served s) (hellos : t.hellos = s.hellos)
    (link : ∀ T generation, t.link = some (T, generation) → s.link = some (T, generation))
    (server : t.server = s.server) (registry : t.registry = s.registry) (issued : t.issued = s.issued)
    (handler : t.handler = s.handler) (wire : t.wire = s.wire) : Served t := by
  refine served.page (fun T => .inl (by rw [hellos]))
    (fun T owns quiet => .inl ?_) server registry issued handler wire
  rw [hellos] at quiet
  refine ⟨?_, quiet⟩
  rcases owns with spoken | ⟨generation, linked⟩
  · exact absurd (hellos ▸ quiet) spoken
  · exact .inr ⟨generation, link T generation linked⟩

/-- A handler without a peer takes one up, or gives up. -/
theorem Served.accept (served : Served s) (handler : Handler) (pending : s.handler T = .pending)
    (asked : s.owns T → s.hellos T ≠ none)
    (new : ∀ p token phase, handler = .serving p token phase → s.issued token = some p ∧
      ∀ hello t, s.hellos T = some hello → hello.resumeToken = some t → t = token) :
    Served (s.setHandler T handler) := by
  refine served.session rfl rfl rfl rfl served.issued id served.registered ?_ ?_
  · refine identity_setHandler fun p is => ?_
    rw [Exchange.identity, pending] at is
    cases is
  · intro S
    by_cases here : S = T
    · subst here
      refine .inr ⟨asked, fun p token phase is => new p token phase ?_⟩
      simpa [Exchange.setHandler] using is
    · exact .inl (by simp [Exchange.setHandler, here])

/-- A handler goes on with its peer. -/
theorem Served.advance (served : Served s) (is : s.handler T = .serving member token phase) (later : Phase) :
    Served (s.setHandler T (.serving member token later)) := by
  have spoken : s.owns T → s.hellos T ≠ none := by
    intro owned quiet
    cases is.symm.trans (served.silent owned quiet)
  refine served.session rfl rfl rfl rfl served.issued id served.registered ?_ ?_
  · refine identity_setHandler fun p known => ⟨token, later, ?_⟩
    rw [identity_of_serving is] at known
    cases known
    rfl
  · intro S
    by_cases here : S = T
    · subst here
      refine .inr ⟨spoken, fun p token' phase' new => ?_⟩
      simp only [Exchange.setHandler, Function.update_self, Handler.serving.injEq] at new
      obtain ⟨rfl, rfl, rfl⟩ := new
      exact ⟨served.serving is, fun hello t sent resumes => served.greeted sent is resumes⟩
    · exact .inl (by simp [Exchange.setHandler, here])

/-- A token is made. -/
theorem Served.issue (served : Served s) (unissued : s.issued token = none) (positive : 0 < member)
    (filled : token ≠ []) : Served { s with issued := Function.update s.issued token (some member) } := by
  have older : ∀ {other p}, s.issued other = some p →
      Function.update s.issued token (some member) other = some p := by
    intro other p made
    have different : other ≠ token := by
      rintro rfl
      cases unissued.symm.trans made
    rwa [Function.update_of_ne different]
  refine served.session rfl rfl rfl rfl ?_ older (fun known => older (served.registered known)) id fun _ => .inl rfl
  intro other p made
  by_cases here : other = token
  · subst here
    simp only [Function.update_self, Option.some.injEq] at made
    exact made ▸ ⟨positive, filled⟩
  · simp only [Function.update_of_ne here] at made
    exact served.issued made

theorem Served.enter (served : Served s) {entry : Option PeerId}
    (known : ∀ p, entry = some p → s.issued token = some p) :
    Served { s with registry := Function.update s.registry token entry } := by
  refine served.session rfl rfl rfl rfl served.issued id ?_ id fun _ => .inl rfl
  intro other p is
  by_cases here : other = token
  · subst here
    simp only [Function.update_self] at is
    exact known p is
  · simp only [Function.update_of_ne here] at is
    exact served.registered is

theorem token_filled (valid : validBase64UrlId token 32 = true) : token ≠ [] := by
  rintro rfl
  cases valid

theorem served_step (served : Served s) (step : ExchangeStep config s e t) : Served t := by
  cases step with
  | fresh pending greets valid unissued positive absent bind =>
    have made := served.issue unissued positive (token_filled valid)
    refine (made.accept (.serving _ _ .joined) pending ?_ ?_).step bind fun p S is => ?_
    · intro owned quiet
      obtain ⟨hello, sent, _⟩ := greets owned
      cases sent.symm.trans quiet
    · intro p other phase is
      cases is
      refine ⟨Function.update_self .., fun hello t sent resumes => ?_⟩
      obtain ⟨_, same, fresh⟩ := greets (.inl fun quiet => by cases quiet.symm.trans sent)
      cases sent.symm.trans same
      cases fresh.symm.trans resumes
    · cases is
      exact identity_of_serving (Function.update_self ..)
  | register is =>
    refine Served.advance (served.enter fun p same => ?_) is .bound
    cases same
    exact served.serving is
  | resume pending greets known =>
    refine served.accept (.serving _ _ .resuming) pending ?_ ?_
    · intro owned quiet
      obtain ⟨hello, sent, _⟩ := greets owned
      cases sent.symm.trans quiet
    · intro p token phase is
      cases is
      refine ⟨served.registered known, fun hello t sent resumes => ?_⟩
      obtain ⟨_, same, asks⟩ := greets (.inl fun quiet => by cases quiet.symm.trans sent)
      cases sent.symm.trans same
      exact Option.some.inj (resumes.symm.trans asks)
  | bind is known bind =>
    refine (served.advance is .bound).step bind fun p S bound => ?_
    cases bound
    exact identity_of_serving (Function.update_self ..)
  | refuse pending asked =>
    exact (served.accept .refused pending asked nofun).write _ nofun
  | answer is known current ready =>
    have advanced := served.advance is .answered
    refine advanced.write _ fun _ => ⟨_, _, advanced.current known current, ?_, ready⟩
    exact served.serving is
  | write other => exact served.write _ fun is => absurd is other
  | expire => exact served.enter nofun
  | serve step admits => exact served.step step fun p T is => absurd admits (by rw [is]; exact id)
  | read _ _ _ step =>
    have taken := served.step step nofun
    exact taken.keep rfl (fun _ _ => id) rfl rfl rfl rfl rfl
  | skip | ignore => exact served.keep rfl (fun _ _ => id) rfl rfl rfl rfl rfl
  | dial dials unused =>
    unfold Exchange.dialed
    split
    · exact served.keep rfl (fun _ _ => id) rfl rfl rfl rfl rfl
    · refine served.page (fun _ => .inl rfl) (fun T owns quiet => ?_) rfl rfl rfl rfl rfl
      rcases owns with spoken | ⟨generation, linked⟩
      · exact absurd quiet spoken
      · obtain ⟨S, created, is⟩ := Option.map_eq_some_iff.mp linked
        cases is
        exact .inr (unused T created).1
  | @opened _ _ _ _ T linked quiet opens =>
    have pending := served.silent (.inr ⟨_, linked⟩) quiet
    refine served.page (fun S => ?_) (fun S owns unsaid => ?_) rfl rfl rfl rfl rfl
    · by_cases here : S = T
      · exact .inr (here ▸ pending)
      · exact .inl (Function.update_of_ne here _ _)
    · by_cases here : S = T
      · exact .inr (here ▸ pending)
      · simp only [Function.update_of_ne here] at unsaid
        rcases owns with spoken | linked
        · exact absurd (by simpa only [Function.update_of_ne here] using unsaid) spoken
        · exact .inl ⟨.inr linked, unsaid⟩
  | closed => exact served.keep rfl nofun rfl rfl rfl rfl rfl
  | deliver linked admits next handled =>
    rw [Exchange.transmit_eq]
    exact served.keep rfl (fun _ _ => id) rfl rfl rfl rfl rfl
  | submit =>
    rw [Exchange.transmit_eq]
    exact served.keep rfl (fun _ _ => id) rfl rfl rfl rfl rfl
  | reload => exact served.keep rfl nofun rfl rfl rfl rfl rfl

theorem served (reached : (exchange config).Reachable s) : Served s := by
  refine reached.invariant ?_ fun _ served step => served_step served step
  rintro _ ⟨name, capability, rfl⟩
  refine ⟨nofun, nofun, nofun, nofun, nofun, fun _ _ => rfl, ?_⟩
  intro T m written
  cases written

/-- What a step keeps of the sessions. -/
structure Grows (s t : Exchange) : Prop where
  issued : ∀ {token p}, s.issued token = some p → t.issued token = some p
  identity : ∀ {T p}, s.identity T = some p → t.identity T = some p

/-- A handler takes up a peer, or goes on with its own. -/
theorem grows_setHandler {handler : Handler} (is : s.handler T = .pending ∨
    ∃ p token phase token' phase', s.handler T = .serving p token phase ∧ handler = .serving p token' phase') :
    Grows s (s.setHandler T handler) := by
  refine ⟨id, identity_setHandler fun p known => ?_⟩
  rw [Exchange.identity] at known
  rcases is with pending | ⟨q, _, _, token', phase', serving, new⟩
  · rw [pending] at known
    cases known
  · rw [serving] at known
    cases known
    exact ⟨token', phase', new⟩

theorem step_grows (step : ExchangeStep config s e t) : Grows s t := by
  cases step with
  | fresh pending _ _ unissued =>
    refine ⟨fun made => ?_, (grows_setHandler (.inl pending)).identity⟩
    refine (Function.update_of_ne ?_ _ _).trans made
    rintro rfl
    cases unissued.symm.trans made
  | register is | bind is | answer is =>
    refine ⟨id, Grows.identity (grows_setHandler (.inr ?_))⟩
    exact ⟨_, _, _, _, _, is, rfl⟩
  | resume pending | refuse pending => exact ⟨id, (grows_setHandler (.inl pending)).identity⟩
  | deliver | submit =>
    rw [Exchange.transmit_eq]
    exact ⟨id, id⟩
  | dial =>
    unfold Exchange.dialed
    split
    · exact ⟨id, id⟩
    · exact ⟨id, id⟩
  | _ => exact ⟨id, id⟩

end Sessions

namespace Exchange
variable (s : Exchange)

/-- The token in the page's storage is that of a peer. -/
def stands (p : PeerId) : Prop :=
  ∃ token, s.page.stored.map (·.resumeToken) = some token ∧ s.issued token = some p

/-- Every waiting command that was transmitted went to the session the page would resume. -/
def bonds : Prop := ∀ id T, s.waiting id → s.transmitted id T → ∃ p, s.stands p ∧ s.identity T = some p

/-- Where a page stands with its socket after its hello: it still has the token it sent, it
has begun anew, or it has taken the answer. -/
inductive Greets (T : Socket) (hello : MessageDto) : Prop where
  | asks : s.page.stored.map (·.resumeToken) = hello.resumeToken → Greets T hello
  | anew : (∀ id S, s.waiting id → ¬ s.transmitted id S) → Greets T hello
  | answered (p : PeerId) : s.stands p → s.identity T = some p → Greets T hello

end Exchange

/-- The outbox, the stored token and the transmissions of a page fit together. -/
structure Bonded (s : Exchange) : Prop where
  linked : ∀ {T generation}, s.link = some (T, generation) →
    generation = s.page.transport.generation ∧ s.page.transport.socket = some T
  waits : ∀ {id}, s.waiting id → id ∈ s.used
  sent : ∀ {id T}, s.transmitted id T → id ∈ s.used
  bonds : s.bonds
  greets : ∀ {T generation hello}, s.link = some (T, generation) → s.hellos T = some hello → s.Greets T hello
  online : ∀ {T generation}, s.page.transport.state = .online → s.link = some (T, generation) →
    ∃ p, s.stands p ∧ s.identity T = some p
  agreed : ∀ {id T S}, s.transmitted id T → s.transmitted id S →
    ∃ p, s.identity T = some p ∧ s.identity S = some p

section Page
variable {config : ConfigDto} {s t : Exchange} {e : Event} {T S : Socket} {p member : PeerId} {id : Bytes}
  {message : MessageDto} {retried : List Command} {page : Page} {delay generation : Nat}

theorem stands_unique (first : s.stands p) (second : s.stands member) : p = member := by
  obtain ⟨token, stored, made⟩ := first
  obtain ⟨_, same, made'⟩ := second
  cases stored.symm.trans same
  exact Option.some.inj (made.symm.trans made')

/-- The server goes on. -/
theorem Bonded.serve (bonded : Bonded s) (grows : Grows s t) (page : t.page = s.page) (link : t.link = s.link)
    (hellos : t.hellos = s.hellos) (sent : t.sent = s.sent) (used : t.used = s.used) : Bonded t := by
  have waiting {id : Bytes} : t.waiting id ↔ s.waiting id := by rw [Exchange.waiting, page, ← Exchange.waiting]
  have transmitted {id : Bytes} {T : Socket} : t.transmitted id T ↔ s.transmitted id T := by
    rw [Exchange.transmitted, sent, ← Exchange.transmitted]
  have stands {p : PeerId} : s.stands p → t.stands p := by
    rintro ⟨token, stored, made⟩
    exact ⟨token, page ▸ stored, grows.issued made⟩
  refine ⟨?_, ?_, ?_, ?_, ?_, ?_, ?_⟩
  · intro T generation linked
    rw [page]
    exact bonded.linked (link ▸ linked)
  · intro id waits
    rw [used]
    exact bonded.waits (waiting.mp waits)
  · intro id T sent
    rw [used]
    exact bonded.sent (transmitted.mp sent)
  · intro id T waits sent
    obtain ⟨p, stored, known⟩ := bonded.bonds id T (waiting.mp waits) (transmitted.mp sent)
    exact ⟨p, stands stored, grows.identity known⟩
  · intro T generation hello linked sent
    cases bonded.greets (link ▸ linked) (hellos ▸ sent) with
    | asks same => exact .asks (page ▸ same)
    | anew unsent => exact .anew fun id S waits sent => unsent id S (waiting.mp waits) (transmitted.mp sent)
    | answered p stored known => exact .answered p (stands stored) (grows.identity known)
  · intro T generation online linked
    obtain ⟨p, stored, known⟩ := bonded.online (page ▸ online) (link ▸ linked)
    exact ⟨p, stands stored, grows.identity known⟩
  · intro id T S first second
    obtain ⟨p, known, known'⟩ := bonded.agreed (transmitted.mp first) (transmitted.mp second)
    exact ⟨p, grows.identity known, grows.identity known'⟩

/-- A page goes on with fewer commands and the same token, or with no command. -/
structure Fewer (s t : Exchange) : Prop where
  issued : t.issued = s.issued
  handler : t.handler = s.handler
  sent : t.sent = s.sent
  used : t.used = s.used
  outbox : ∀ c ∈ t.page.reliability.outbox, c ∈ s.page.reliability.outbox
  token : t.page.stored.map (·.resumeToken) = s.page.stored.map (·.resumeToken) ∨ t.page.reliability.outbox = []

theorem Fewer.waiting (fewer : Fewer s t) (waits : t.waiting id) : s.waiting id := by
  obtain ⟨c, inside, is⟩ := waits
  exact ⟨c, fewer.outbox c inside, is⟩

theorem Fewer.transmitted (fewer : Fewer s t) : t.transmitted id T ↔ s.transmitted id T := by
  rw [Exchange.transmitted, fewer.sent, ← Exchange.transmitted]

theorem Fewer.identity (fewer : Fewer s t) : t.identity T = s.identity T := by
  rw [Exchange.identity, fewer.handler, ← Exchange.identity]

theorem Fewer.stands (fewer : Fewer s t)
    (token : t.page.stored.map (·.resumeToken) = s.page.stored.map (·.resumeToken)) (stands : s.stands p) :
    t.stands p := by
  obtain ⟨bears, stored, made⟩ := stands
  exact ⟨bears, token.trans stored, by rw [fewer.issued, made]⟩

theorem Fewer.greets (fewer : Fewer s t) {hello : MessageDto}
    (token : t.page.stored.map (·.resumeToken) = s.page.stored.map (·.resumeToken)) (greets : s.Greets T hello) :
    t.Greets T hello := by
  cases greets with
  | asks same => exact .asks (token.trans same)
  | anew unsent =>
    exact .anew fun id S waits sent => unsent id S (fewer.waiting waits) (fewer.transmitted.mp sent)
  | answered p stands known => exact .answered p (fewer.stands token stands) (fewer.identity.trans known)

theorem Bonded.turn (bonded : Bonded s) (fewer : Fewer s t)
    (linked : ∀ {T generation}, t.link = some (T, generation) →
      generation = t.page.transport.generation ∧ t.page.transport.socket = some T)
    (greets : ∀ {T generation hello}, t.link = some (T, generation) → t.hellos T = some hello → t.Greets T hello)
    (online : ∀ {T generation}, t.page.transport.state = .online → t.link = some (T, generation) →
      ∃ p, t.stands p ∧ t.identity T = some p) : Bonded t where
  linked := linked
  waits waiting := by
    rw [fewer.used]
    exact bonded.waits (fewer.waiting waiting)
  sent transmitted := by
    rw [fewer.used]
    exact bonded.sent (fewer.transmitted.mp transmitted)
  bonds id T waits sent := by
    obtain ⟨p, stands, known⟩ := bonded.bonds id T (fewer.waiting waits) (fewer.transmitted.mp sent)
    rcases fewer.token with same | empty
    · exact ⟨p, fewer.stands same stands, fewer.identity.trans known⟩
    · obtain ⟨c, inside, _⟩ := waits
      rw [empty] at inside
      cases inside
  greets := greets
  online := online
  agreed first second := by
    obtain ⟨p, known, known'⟩ := bonded.agreed (fewer.transmitted.mp first) (fewer.transmitted.mp second)
    exact ⟨p, fewer.identity.trans known, fewer.identity.trans known'⟩

theorem Bonded.dial (bonded : Bonded s) {next : ReconnectingTransport} {created : Option Socket}
    (dials : Replay.Dials s.page.transport created delay next) (unused : ∀ T, created = some T → s.unused T) :
    Bonded (s.dialed next created) := by
  unfold Exchange.dialed
  cases dials_connected dials with
  | kept generation state socket =>
    rw [if_pos generation]
    have fewer : Fewer s (s.setPage { s.page with transport := next }) := ⟨rfl, rfl, rfl, rfl, fun _ => id, .inl rfl⟩
    refine bonded.turn fewer ?_ ?_ ?_
    · intro T g linked
      obtain ⟨same, owns⟩ := bonded.linked linked
      exact ⟨same.trans generation.symm, socket.trans owns⟩
    · exact fun linked sent => fewer.greets rfl (bonded.greets linked sent)
    · intro T g online linked
      obtain ⟨p, stands, known⟩ := bonded.online (state ▸ online) linked
      exact ⟨p, fewer.stands rfl stands, known⟩
  | began generation state socket =>
    rw [if_neg generation]
    refine bonded.turn ⟨rfl, rfl, rfl, rfl, fun _ => id, .inl rfl⟩ ?_ ?_ ?_
    · intro T g linked
      obtain ⟨S, is, same⟩ := Option.map_eq_some_iff.mp linked
      cases same
      exact ⟨rfl, socket T is⟩
    · intro T g hello linked sent
      obtain ⟨S, is, same⟩ := Option.map_eq_some_iff.mp linked
      cases same
      cases (unused T is).2.1.symm.trans sent
    · exact fun online _ => absurd online state

theorem Bonded.opened (bonded : Bonded s) {hello : Option MessageDto} (linked : s.link = some (T, generation))
    (opens : s.page.onOpen generation = (page, hello)) :
    Bonded { s with page, hellos := Function.update s.hellos T hello } := by
  have single {S : Socket} {g : Nat} (other : s.link = some (S, g)) : S = T := by
    cases linked.symm.trans other
    rfl
  rcases onOpen_cases s.page generation with same | ⟨stored, outbox, generation', socket, state, asks⟩
  · cases opens.symm.trans same
    refine bonded.turn ⟨rfl, rfl, rfl, rfl, fun _ => id, .inl rfl⟩ bonded.linked ?_ ?_
    · intro S g hello linked sent
      cases single linked
      simp only [Function.update_self] at sent
      cases sent
    · exact bonded.online
  · rw [opens] at stored outbox generation' socket state asks
    refine bonded.turn ⟨rfl, rfl, rfl, rfl, fun c waits => outbox ▸ waits, .inl (by rw [stored])⟩ ?_ ?_ ?_
    · intro S g linked
      obtain ⟨same, owns⟩ := bonded.linked linked
      exact ⟨same.trans generation'.symm, socket.trans owns⟩
    · intro S g said linked sent
      cases single linked
      simp only [Function.update_self] at sent
      refine .asks ?_
      rw [asks said sent]
      exact congrArg _ stored
    · intro S g online
      cases state.symm.trans online

/-- Waiting commands are sent on the socket of the session that the page's token stands for. -/
theorem Bonded.transmit (bonded : Bonded s) {commands : List Command} (linked : s.link = some (T, generation))
    (stands : s.stands p) (known : s.identity T = some p)
    (waits : ∀ c ∈ commands, s.waiting c.clientMessageId) : Bonded (s.transmit (some T) commands) := by
  have sent {id : Bytes} {S : Socket} (is : (s.transmit (some T) commands).transmitted id S) :
      s.transmitted id S ∨ S = T ∧ s.waiting id := by
    obtain ⟨c, inside, rfl⟩ := is
    simp only [Exchange.transmit] at inside
    by_cases here : S = T
    · subst here
      simp only [Function.update_self, List.mem_append] at inside
      rcases inside with earlier | new
      · exact .inl ⟨c, earlier, rfl⟩
      · exact .inr ⟨rfl, waits c new⟩
    · simp only [Function.update_of_ne here] at inside
      exact .inl ⟨c, inside, rfl⟩
  -- what waits has only been sent to the session of the token
  have same {id : Bytes} {S : Socket} (waiting : s.waiting id) (is : s.transmitted id S) : s.identity S = some p := by
    obtain ⟨q, stands', known'⟩ := bonded.bonds id S waiting is
    cases stands_unique stands stands'
    exact known'
  refine ⟨bonded.linked, bonded.waits, ?_, ?_, ?_, bonded.online, ?_⟩
  · intro id S is
    rcases sent is with earlier | ⟨_, waiting⟩
    · exact bonded.sent earlier
    · exact bonded.waits waiting
  · intro id S waiting is
    rcases sent is with earlier | ⟨rfl, _⟩
    · exact bonded.bonds id S waiting earlier
    · exact ⟨p, stands, known⟩
  · intro S g hello link _
    cases linked.symm.trans link
    exact .answered p stands known
  · intro id S S' first second
    rcases sent first with earlier | ⟨rfl, waiting⟩
    · rcases sent second with earlier' | ⟨rfl, waiting⟩
      · exact bonded.agreed earlier earlier'
      · exact ⟨p, same waiting earlier, known⟩
    · rcases sent second with earlier' | ⟨rfl, _⟩
      · exact ⟨p, known, same waiting earlier'⟩
      · exact ⟨p, known, known⟩

theorem Bonded.enqueue_outbox (bonded : Bonded s) {command : Command} {reliability : ReliabilityState}
    (fresh : command.clientMessageId ∉ s.used)
    (enqueued : s.page.reliability.enqueue command = (reliability, true)) :
    reliability.outbox = s.page.reliability.outbox ++ [command] := by
  have new : s.page.reliability.outbox.any (·.clientMessageId = command.clientMessageId) = false := by
    rw [List.any_eq_false]
    intro c inside
    rw [decide_eq_true_eq]
    exact fun same => fresh (bonded.waits ⟨c, inside, same⟩)
  unfold ReliabilityState.enqueue at enqueued
  split at enqueued
  · cases enqueued
  · cases enqueued
    simp only [ReliabilityState.setCommand, new, Bool.false_eq_true, if_false]

/-- A command with a new id waits. -/
theorem Bonded.enqueue (bonded : Bonded s) {command : Command} {reliability : ReliabilityState}
    (fresh : command.clientMessageId ∉ s.used)
    (enqueued : s.page.reliability.enqueue command = (reliability, true)) :
    Bonded { s with page := { s.page with reliability }, used := command.clientMessageId :: s.used } ∧
      Exchange.waiting { s with page := { s.page with reliability }, used := command.clientMessageId :: s.used }
        command.clientMessageId := by
  have unsent (T : Socket) : ¬ s.transmitted command.clientMessageId T := fun sent => fresh (bonded.sent sent)
  have outbox := bonded.enqueue_outbox fresh enqueued
  have waiting {id : Bytes} (waits : Exchange.waiting
      { s with page := { s.page with reliability }, used := command.clientMessageId :: s.used } id) :
      s.waiting id ∨ id = command.clientMessageId := by
    obtain ⟨c, inside, rfl⟩ := waits
    simp only [outbox, List.mem_append, List.mem_singleton] at inside
    rcases inside with earlier | rfl
    · exact .inl ⟨c, earlier, rfl⟩
    · exact .inr rfl
  refine ⟨⟨bonded.linked, ?_, ?_, ?_, ?_, bonded.online, bonded.agreed⟩, ?_⟩
  · intro id waits
    rcases waiting waits with earlier | rfl
    · exact List.mem_cons_of_mem _ (bonded.waits earlier)
    · exact List.mem_cons_self
  · exact fun sent => List.mem_cons_of_mem _ (bonded.sent sent)
  · intro id T waits sent
    rcases waiting waits with earlier | rfl
    · exact bonded.bonds id T earlier sent
    · exact absurd sent (unsent T)
  · intro T g hello linked sent
    cases bonded.greets linked sent with
    | asks same => exact .asks same
    | anew quiet =>
      refine .anew fun id S waits sent => ?_
      rcases waiting waits with earlier | rfl
      · exact quiet id S earlier sent
      · exact unsent S sent
    | answered p stands known => exact .answered p stands known
  · exact ⟨command, by simp [outbox], rfl⟩

/-- The answer to the hello: the token is kept, or taken up before anything was transmitted. -/
theorem Bonded.ready (bonded : Bonded s) (served : Served s) {token : Bytes}
    (linked : s.link = some (T, generation)) (known : s.identity T = some p) (made : s.issued token = some p)
    (stored : page.stored.map (·.resumeToken) = some token)
    (outbox : ∀ c ∈ page.reliability.outbox, c ∈ s.page.reliability.outbox)
    (transport : page.transport.generation = s.page.transport.generation ∧
      page.transport.socket = s.page.transport.socket) (taken : Nat) :
    Bonded { s with page, taken } := by
  have stands : Exchange.stands { s with page, taken } p := ⟨token, stored, made⟩
  have waiting {id : Bytes} (waits : Exchange.waiting { s with page, taken } id) : s.waiting id := by
    obtain ⟨c, inside, is⟩ := waits
    exact ⟨c, outbox c inside, is⟩
  have same {id : Bytes} {S : Socket} (waits : s.waiting id) (sent : s.transmitted id S) : s.identity S = some p := by
    obtain ⟨q, ⟨old, bears, made'⟩, known'⟩ := bonded.bonds id S waits sent
    obtain ⟨own, phase, serving⟩ := serving_of_identity known
    cases spoken : s.hellos T with
    | none => cases serving.symm.trans (served.silent (.inr ⟨generation, linked⟩) spoken)
    | some hello =>
      cases bonded.greets linked spoken with
      | asks asked =>
        cases served.greeted spoken serving (asked.symm.trans bears)
        cases made'.symm.trans (served.serving serving)
        exact known'
      | anew unsent => exact absurd sent (unsent id S waits)
      | answered r stands' known'' =>
        cases known.symm.trans known''
        cases stands_unique stands' ⟨old, bears, made'⟩
        exact known'
  refine ⟨?_, fun waits => bonded.waits (waiting waits), bonded.sent, ?_, ?_, ?_, bonded.agreed⟩
  · intro S g link
    obtain ⟨generation, socket⟩ := bonded.linked link
    exact ⟨generation.trans transport.1.symm, transport.2.trans socket⟩
  · intro id S waits sent
    exact ⟨p, stands, same (waiting waits) sent⟩
  · intro S g hello link _
    cases linked.symm.trans link
    exact .answered p stands known
  · intro S g _ link
    cases linked.symm.trans link
    exact ⟨p, stands, known⟩

/-- What a SESSION_READY on a socket says to the page. -/
theorem Served.valid (served : Served s) (written : message ∈ s.wire T) (code : message.code = some .sessionReady) :
    message.protocolVersion = some 2 ∧ message.peerId.getD 0 ≠ 0 ∧
      ∃ token, message.resumeToken = some token ∧ token ≠ [] := by
  obtain ⟨p, token, _, made, ready⟩ := served.ready written code
  obtain ⟨positive, filled⟩ := served.issued made
  refine ⟨ready.version, ?_, token, ready.token, filled⟩
  rw [ready.peer, Option.getD_some]
  exact Int.natCast_ne_zero.mpr (Nat.ne_of_gt positive)

theorem running_of_admits {transport : ReconnectingTransport} (admits : transport.admits generation = true) :
    transport.stopped = false := by
  simp only [ReconnectingTransport.admits, Bool.and_eq_true, Bool.not_eq_true'] at admits
  exact admits.2

theorem handled (served : Served s) (admits : s.page.transport.admits generation = true)
    (next : (s.wire T)[s.taken]? = some message) (is : s.page.onMessage delay message = (page, retried)) :
    Handled s.page page message retried :=
  onMessage_handled (running_of_admits admits) (served.valid (List.mem_of_getElem? next)) is

theorem Bonded.deliver (bonded : Bonded s) (served : Served s) (linked : s.link = some (T, generation))
    (admits : s.page.transport.admits generation = true) (next : (s.wire T)[s.taken]? = some message)
    (is : s.page.onMessage delay message = (page, retried)) :
    Bonded (({ s with page, taken := s.taken + 1 } : Exchange).transmit page.transport.socket retried) := by
  have nothing (u : Exchange) (socket : Option Socket) : u.transmit socket [] = u := by
    cases socket with
    | none => rfl
    | some T => simp [Exchange.transmit]
  cases handled served admits next is with
  | narrowed narrowed unsent =>
    rw [unsent, nothing]
    have fewer : Fewer s { s with page, taken := s.taken + 1 } :=
      ⟨rfl, rfl, rfl, rfl, narrowed.outbox, .inl narrowed.stored⟩
    refine bonded.turn fewer ?_ ?_ ?_
    · intro S g link
      rw [narrowed.transport]
      exact bonded.linked link
    · exact fun link sent => fewer.greets narrowed.stored (bonded.greets link sent)
    · intro S g online link
      rw [narrowed.transport] at online
      obtain ⟨p, stands, known⟩ := bonded.online online link
      exact ⟨p, fewer.stands narrowed.stored stands, known⟩
  | cleared _ _ empty generation' socket state unsent =>
    rw [unsent, nothing]
    refine bonded.turn ⟨rfl, rfl, rfl, rfl, fun c inside => ?_, .inr empty⟩ ?_ ?_ ?_
    · rw [empty] at inside
      cases inside
    · intro S g link
      obtain ⟨same, owns⟩ := bonded.linked link
      exact ⟨same.trans generation'.symm, socket.trans owns⟩
    · intro S g hello _ _
      refine .anew fun id S waits => ?_
      obtain ⟨c, inside, _⟩ := waits
      rw [empty] at inside
      cases inside
    · exact fun online _ => absurd online state
  | ready code stored outbox transport sends =>
    obtain ⟨p, token, known, made, ready⟩ := served.ready (List.mem_of_getElem? next) code
    have kept : page.transport.generation = s.page.transport.generation ∧
        page.transport.socket = s.page.transport.socket := by
      rw [transport, ReconnectingTransport.ready]
      split
      · exact ⟨rfl, rfl⟩
      · exact ⟨rfl, rfl⟩
    have begun := bonded.ready served linked known made (stored.trans ready.token) outbox kept (s.taken + 1)
    have socket : page.transport.socket = some T := kept.2.trans (bonded.linked linked).2
    rw [socket]
    refine begun.transmit linked ⟨token, stored.trans ready.token, made⟩ known fun c inside => ?_
    exact ⟨c, sends c inside, rfl⟩

theorem Bonded.submit (bonded : Bonded s) {command : Command} {reliability : ReliabilityState} {isOpen : Bool}
    (fresh : command.clientMessageId ∉ s.used)
    (enqueued : s.page.reliability.enqueue command = (reliability, true))
    (linked : isOpen = true → s.link.isSome = true) :
    Bonded (({ s with page := { s.page with reliability }, used := command.clientMessageId :: s.used } :
      Exchange).transmit s.page.transport.socket (if s.page.transport.sends isOpen then [command] else [])) := by
  obtain ⟨entered, waits⟩ := bonded.enqueue fresh enqueued
  split
  · rename_i sends
    simp only [ReconnectingTransport.sends, Bool.and_eq_true, decide_eq_true_eq] at sends
    obtain ⟨⟨online, _⟩, isOpen⟩ := sends
    obtain ⟨⟨T, generation⟩, linked⟩ := Option.isSome_iff_exists.mp (linked isOpen)
    obtain ⟨p, stands, known⟩ := bonded.online online linked
    rw [(bonded.linked linked).2]
    refine entered.transmit linked stands known fun c inside => ?_
    rw [List.mem_singleton.mp inside]
    exact waits
  · cases s.page.transport.socket with
    | none => exact entered
    | some T => simpa [Exchange.transmit] using entered

theorem bonded_step (served : Served s) (bonded : Bonded s) (step : ExchangeStep config s e t) : Bonded t := by
  have grows := step_grows step
  cases step with
  | fresh | register | resume | bind | refuse | answer | write | expire | serve | read | skip | ignore =>
    exact bonded.serve grows rfl rfl rfl rfl rfl
  | dial dials unused => exact bonded.dial dials unused
  | opened linked _ opens => exact bonded.opened linked opens
  | closed => exact bonded.turn ⟨rfl, rfl, rfl, rfl, fun _ => id, .inl rfl⟩ nofun nofun nofun
  | deliver linked admits next is => exact bonded.deliver served linked admits next is
  | submit fresh enqueued linked => exact bonded.submit fresh enqueued linked
  | reload => exact bonded.turn ⟨rfl, rfl, rfl, rfl, nofun, .inl rfl⟩ nofun nofun nofun

theorem bonded (reached : (exchange config).Reachable s) : Bonded s := by
  refine reached.invariant ?_ fun before bonded step => bonded_step (served before) bonded step
  rintro _ ⟨name, capability, rfl⟩
  refine ⟨nofun, ?_, ?_, ?_, nofun, nofun, ?_⟩
  · rintro id ⟨_, inside, _⟩
    cases inside
  · rintro id T ⟨_, inside, _⟩
    cases inside
  · rintro id T ⟨_, inside, _⟩
    cases inside
  · rintro id T S ⟨_, inside, _⟩
    cases inside

/-- What a step sends waits in the outbox, and only a new command comes to wait. -/
structure Sends (s t : Exchange) : Prop where
  used : ∀ id ∈ s.used, id ∈ t.used
  waiting : ∀ id, t.waiting id → s.waiting id ∨ id ∉ s.used
  sent : ∀ T, ∃ new, t.sent T = s.sent T ++ new ∧ ∀ c ∈ new, t.waiting c.clientMessageId

theorem Sends.quiet (used : t.used = s.used) (sent : t.sent = s.sent)
    (outbox : ∀ c ∈ t.page.reliability.outbox, c ∈ s.page.reliability.outbox) : Sends s t where
  used id known := used ▸ known
  waiting id waits := by
    obtain ⟨c, inside, is⟩ := waits
    exact .inl ⟨c, outbox c inside, is⟩
  sent T := ⟨[], by rw [sent, List.append_nil], nofun⟩

theorem Sends.transmit (sends : Sends s t) (sent : t.sent = s.sent) (socket : Option Socket)
    {commands : List Command} (waits : ∀ c ∈ commands, t.waiting c.clientMessageId) :
    Sends s (t.transmit socket commands) := by
  cases socket with
  | none => exact sends
  | some T =>
    refine ⟨sends.used, sends.waiting, fun S => ?_⟩
    by_cases here : S = T
    · subst here
      exact ⟨commands, by simp [Exchange.transmit, sent], waits⟩
    · exact ⟨[], by simp [Exchange.transmit, sent, here], nofun⟩

theorem step_sends (served : Served s) (bonded : Bonded s) (step : ExchangeStep config s e t) : Sends s t := by
  cases step with
  | fresh | register | resume | bind | refuse | answer | write | expire | serve | read | skip | ignore =>
    exact Sends.quiet rfl rfl fun _ => id
  | dial =>
    unfold Exchange.dialed
    split
    · exact Sends.quiet rfl rfl fun _ => id
    · exact Sends.quiet rfl rfl fun _ => id
  | opened _ _ opens =>
    refine Sends.quiet rfl rfl fun c inside => ?_
    rcases onOpen_cases s.page _ with same | ⟨_, outbox, _⟩
    · cases opens.symm.trans same
      exact inside
    · rw [opens] at outbox
      exact outbox ▸ inside
  | closed => exact Sends.quiet rfl rfl fun _ => id
  | deliver _ admits next is =>
    cases handled served admits next is with
    | narrowed narrowed unsent =>
      refine Sends.transmit ?_ ?_ _ ?_
      · exact Sends.quiet rfl rfl narrowed.outbox
      · rfl
      · rw [unsent]
        exact nofun
    | cleared _ _ empty _ _ _ unsent =>
      refine Sends.transmit ?_ ?_ _ ?_
      · refine Sends.quiet rfl rfl fun c inside => ?_
        rw [empty] at inside
        cases inside
      · rfl
      · rw [unsent]
        exact nofun
    | ready _ _ outbox _ sends =>
      refine Sends.transmit ?_ ?_ _ ?_
      · exact Sends.quiet rfl rfl outbox
      · rfl
      · exact fun c inside => ⟨c, sends c inside, rfl⟩
  | submit fresh enqueued =>
    have outbox := bonded.enqueue_outbox fresh enqueued
    refine Sends.transmit ⟨?_, ?_, ?_⟩ ?_ _ ?_
    · exact fun _ known => List.mem_cons_of_mem _ known
    · rintro id ⟨c, inside, rfl⟩
      simp only [outbox, List.mem_append, List.mem_singleton] at inside
      rcases inside with earlier | rfl
      · exact .inl ⟨c, earlier, rfl⟩
      · exact .inr fresh
    · exact fun T => ⟨[], (List.append_nil _).symm, nofun⟩
    · rfl
    · intro c inside
      split at inside
      · rw [List.mem_singleton.mp inside]
        exact (bonded.enqueue fresh enqueued).2
      · cases inside
  | reload => exact Sends.quiet rfl rfl nofun

/-- A command that has left the outbox stays out of it, and is not sent. -/
theorem sent_later (reached : (exchange config).Reachable s) (later : Later config s t) (used : id ∈ s.used)
    (gone : ¬ s.waiting id) : ¬ t.waiting id ∧
      ∀ T, (t.sent T).filter (·.clientMessageId = id) = (s.sent T).filter (·.clientMessageId = id) := by
  suffices all : (exchange config).Reachable t ∧ id ∈ t.used ∧ ¬ t.waiting id ∧
      ∀ T, (t.sent T).filter (·.clientMessageId = id) = (s.sent T).filter (·.clientMessageId = id) from all.2.2
  induction later with
  | refl => exact ⟨reached, used, gone, fun _ => rfl⟩
  | @tail u v _ step ih =>
    obtain ⟨reached, used, gone, same⟩ := ih
    obtain ⟨e, step⟩ := step
    have sends := step_sends (served reached) (bonded reached) step
    have out : ¬ v.waiting id := fun waits => by
      rcases sends.waiting id waits with before | new
      · exact gone before
      · exact new used
    refine ⟨.next reached step, sends.used id used, out, fun T => ?_⟩
    obtain ⟨new, is, waits⟩ := sends.sent T
    have unmatched : new.filter (·.clientMessageId = id) = [] := by
      rw [List.filter_eq_nil_iff]
      intro c inside other
      exact out (of_decide_eq_true other ▸ waits c inside)
    rw [is, List.filter_append, unmatched, List.append_nil, same T]

/-- A command that is acknowledged, rejected or abandoned leaves the outbox. -/
theorem settled_gone (step : ExchangeStep config s (.deliver message) t)
    (settles : s.page.settles message id) : ¬ t.waiting id := by
  cases step with
  | deliver _ _ _ is =>
    rw [Exchange.transmit_eq]
    rintro ⟨c, inside, same⟩
    exact settled_outbox settles is c inside same

end Page

section Effects
variable {config : ConfigDto} {labels : List Label} {s t : State} {l : Label} {k : Nat} {p : PeerId} {id : Bytes}
  {thread : Thread} {event : MessageDto}

/-- A thread keeps its session and its command. -/
theorem thread_kept (valid : Valid labels s) (step : Step config s l t) (found : s.threads k = some thread) :
    ∃ next, t.threads k = some next ∧ next.peer = thread.peer ∧ next.id = thread.id := by
  cases turn valid step with
  | quiet threads => exact ⟨thread, by rw [threads, found], rfl, rfl⟩
  | received new threads =>
    have older : k ≠ s.count := by
      rintro rfl
      cases (valid.future _ (Nat.le_refl _)).1.symm.trans found
    exact ⟨thread, by rw [threads, Function.update_of_ne older, found], rfl, rfl⟩
  | moved j before next moved =>
    by_cases here : k = j
    · subst here
      cases moved.found.symm.trans found
      exact ⟨next, by rw [moved.threads, Function.update_self], moved.peer, moved.id⟩
    · exact ⟨thread, by rw [moved.threads, Function.update_of_ne here, found], rfl, rfl⟩

/-- Who publishes is in the label. -/
theorem publisher (run : (commands config).Run labels s) (published : .sequence k p id event ∈ labels) :
    ∃ thread, s.threads k = some thread ∧ thread.peer = p ∧ thread.id = id := by
  induction run with
  | start => cases published
  | next before step ih =>
    rcases List.mem_append.mp published with earlier | last
    · obtain ⟨thread, found, rfl, rfl⟩ := ih earlier
      exact thread_kept (valid_run before) step found
    · cases List.mem_singleton.mp last
      cases step with
      | sequence => exact ⟨_, Function.update_self .., rfl, rfl⟩

end Effects

section Runs
variable {config : ConfigDto} {s t : Exchange} {e : Event} {events : List Event} {id : Bytes} {k : Nat}

/-- The command handlers run as they do without the page. -/
theorem step_server (step : ExchangeStep config s e t) :
    match e.label with
    | none => t.server = s.server
    | some l => Step config s.server l t.server := by
  cases step with
  | fresh _ _ _ _ _ _ bind | bind _ _ bind => exact bind
  | serve step _ => exact step
  | read _ _ _ step => exact step
  | dial => exact Exchange.dialed_server ..
  | deliver | submit =>
    rw [Exchange.transmit_eq]
    rfl
  | _ => rfl

theorem server_run (run : (exchange config).Run events s) :
    (commands config).Run (events.filterMap Event.label) s.server := by
  induction run with
  | start initial =>
    obtain ⟨name, capability, rfl⟩ := initial
    exact .start ⟨name, rfl⟩
  | @next events s e t _ step ih =>
    have moves := step_server step
    rw [List.filterMap_append]
    cases label : e.label with
    | none =>
      rw [label] at moves
      simpa [label, moves] using ih
    | some l =>
      rw [label] at moves
      simpa [label] using ih.next moves

theorem readings_snoc : readings id (events ++ [e]) = readings id events ++ readings id [e] :=
  List.filterMap_append

/-- A command that was read is handled for the session of a socket that it was sent on. -/
theorem reading (run : (exchange config).Run events s) (read : k ∈ readings id events) :
    ∃ thread T, s.server.threads k = some thread ∧ thread.id = id ∧ s.transmitted id T ∧
      s.identity T = some thread.peer := by
  induction run with
  | start => cases read
  | @next events s e t before step ih =>
    rw [readings_snoc, List.mem_append] at read
    rcases read with earlier | now
    · obtain ⟨thread, T, found, same, ⟨c, inside, is⟩, known⟩ := ih earlier
      have reached := before.reachable
      obtain ⟨new, sent, _⟩ := (step_sends (served reached) (bonded reached) step).sent T
      have sent : t.transmitted id T := ⟨c, by rw [sent]; exact List.mem_append_left _ inside, is⟩
      have known := (step_grows step).identity known
      have moves := step_server step
      cases label : e.label with
      | none =>
        rw [label] at moves
        exact ⟨thread, T, by rw [moves, found], same, sent, known⟩
      | some l =>
        rw [label] at moves
        obtain ⟨next, found, peer, same'⟩ := thread_kept (valid_run (server_run before)) moves found
        exact ⟨next, T, found, same'.trans same, sent, peer ▸ known⟩
    · cases step with
      | read waits names _ step =>
        simp only [readings, List.filterMap_cons, List.filterMap_nil] at now
        split at now
        · cases now
        · rename_i found
          split at found
          · rename_i same
            cases found
            cases List.mem_singleton.mp now
            cases step with
            | receive member current _ =>
              have known := (served before.reachable).current member current
              refine ⟨_, _, Function.update_self .., ?_, ⟨_, List.mem_of_getElem? waits, same⟩, known⟩
              rw [← same]
              exact congrArg (·.getD []) names
          · cases found
      | _ => cases now

theorem filterMap_sublist {α β : Type} {f g : α → Option β} {xs : List α}
    (agree : ∀ x ∈ xs, f x = none ∨ f x = g x) : (xs.filterMap f).Sublist (xs.filterMap g) := by
  induction xs with
  | nil => exact List.Sublist.refl _
  | cons x xs ih =>
    have rest := ih fun y inside => agree y (List.mem_cons_of_mem x inside)
    rw [List.filterMap_cons, List.filterMap_cons]
    rcases agree x List.mem_cons_self with absent | same
    · rw [absent]
      cases g x with
      | none => exact rest
      | some y => exact rest.cons y
    · rw [same]
      cases g x with
      | none => exact rest
      | some y => exact rest.cons_cons y

/-- All that a command has caused is published by one session under the command's id. -/
theorem effects_le (run : (exchange config).Run events s) (id : Bytes) : (effects id events).length ≤ 1 := by
  by_cases isRead : ∃ k, k ∈ readings id events
  · obtain ⟨k, first⟩ := isRead
    obtain ⟨thread, T, _, _, sent, known⟩ := reading run first
    have once := published_once (valid_run (server_run run)) thread.peer id
    refine Nat.le_trans (List.Sublist.length_le (filterMap_sublist fun l inside => ?_)) once
    cases l with
    | sequence j q other event =>
      by_cases read : j ∈ readings id events
      · obtain ⟨own, S, found, same, sent', known'⟩ := reading run read
        obtain ⟨own', found', is, is'⟩ := publisher (server_run run) inside
        cases found.symm.trans found'
        obtain ⟨p, here, here'⟩ := (bonded run.reachable).agreed sent sent'
        have peers : q = thread.peer := by
          rw [← is]
          exact Option.some.inj (known'.symm.trans (here'.trans (here.symm.trans known)))
        refine .inr ?_
        simp only [read, if_true, peers, ← is', same, and_self]
      · exact .inl (if_neg read)
    | _ => exact .inl rfl
  · have nothing : effects id events = [] := by
      rw [effects, List.filterMap_eq_nil_iff]
      intro l _
      cases l with
      | sequence j => exact if_neg fun read => isRead ⟨j, read⟩
      | _ => rfl
    rw [nothing]
    exact Nat.zero_le 1

/-- A command of the page causes one event at most, goes to one session only, and is not sent
any more once it has left the outbox, as it does when it is acknowledged, rejected or abandoned. -/
theorem effect_at_most_once (run : (exchange config).Run events s) :
    (∀ id, (effects id events).length ≤ 1) ∧
    (∀ id T S, s.transmitted id T → s.transmitted id S → ∃ p, s.identity T = some p ∧ s.identity S = some p) ∧
    (∀ id ∈ s.used, ¬ s.waiting id → ∀ t, Later config s t → ¬ t.waiting id ∧
      ∀ T, (t.sent T).filter (·.clientMessageId = id) = (s.sent T).filter (·.clientMessageId = id)) ∧
    (∀ id message t, s.page.settles message id → ExchangeStep config s (.deliver message) t → ¬ t.waiting id) := by
  refine ⟨effects_le run, fun id T S => (bonded run.reachable).agreed, ?_, ?_⟩
  · exact fun id used gone t later => sent_later run.reachable later used gone
  · exact fun id message t settles step => settled_gone step settles

end Runs

section First

def firstToken : Bytes := List.replicate 43 0x41

def firstReady : MessageDto :=
  { code := some .sessionReady, protocolVersion := some 2, peerId := some 1, resumeToken := some firstToken
    resumed := some false, latestServerSeq := some 0 }

def firstCommand : Command :=
  { code := .peerMessage, message := some [0x68], clientMessageId := firstId }

theorem firstToken_valid : validBase64UrlId firstToken 32 = true := by decide

def firstEvent : MessageDto :=
  { code := some .peerMessage, peerId := some 1, message := some [0x68], serverSeq := some 1 }

/-- The READY that answers the resume on socket 1. -/
def nextReady : MessageDto :=
  { firstReady with resumed := some true, latestServerSeq := some 1, history := some [some firstEvent] }

def firstAck : MessageDto :=
  { code := some .messageAck, clientMessageId := some firstId, serverSeq := some 1 }

/-- The first command of a page is published, its acknowledgement is lost with the socket; it is
sent again on the next one, acknowledged from the dedupe window and gone from the outbox. -/
theorem effect_at_most_once_first :
    ∃ events s, (exchange {}).Run events s ∧ s.transmitted firstId 0 ∧ s.transmitted firstId 1 ∧
      readings firstId events = [0, 1] ∧ effects firstId events ≠ [] ∧
      (effects firstId events).length ≤ 1 ∧ ¬ s.waiting firstId ∧
      ∀ t, Later {} s t → ¬ t.waiting firstId := by
  have start : (exchange {}).Run []
      { server := { room := { name := [] } }, page := { fileCapabilityId := [] } } := .start ⟨[], [], rfl⟩
  have dialed := start.next (.dial (show Replay.Dials _ (some 0) 0 _ from .start rfl) (by
    rintro _ ⟨⟩
    exact ⟨rfl, rfl, rfl, rfl, nofun⟩))
  have opened := dialed.next (.opened (T := 0) rfl rfl (show Page.onOpen _ 1 = _ from rfl))
  have greeted := opened.next (.fresh (T := 0) rfl (fun _ => ⟨_, rfl, rfl⟩) firstToken_valid rfl
    (Nat.one_pos) rfl (@Step.join {} _ _ 1 0 0 [] 0 rfl rfl))
  have registered := greeted.next (.register (T := 0) rfl)
  have answered := registered.next (.answer (T := 0) rfl rfl rfl
    (show IsReady firstReady 1 firstToken from ⟨rfl, rfl, rfl, rfl⟩))
  have online := answered.next (.deliver (T := 0) rfl rfl rfl (show Page.onMessage _ 0 firstReady = _ from rfl))
  have submitted := online.next (.submit (show firstCommand.clientMessageId ∉ _ from List.not_mem_nil) rfl
    (show true = true → _ from fun _ => rfl))
  have read := submitted.next (.read (T := 0) (show _ = some firstCommand from rfl) rfl rfl
    (@Step.receive {} _ 0 _ 1 firstMessage 0 rfl rfl (.inl rfl)))
  have admitted := read.next (.serve (.accept (k := 0) rfl rfl (by decide)) trivial)
  have held := admitted.next (.serve (.hold (k := 0) rfl rfl rfl rfl rfl rfl) trivial)
  have prepared := held.next (.serve (.prepare (k := 0) rfl rfl rfl) trivial)
  have ordered := prepared.next (.serve (.order (k := 0) rfl rfl rfl) trivial)
  have sequenced := ordered.next (.serve (.sequence (k := 0) rfl rfl rfl rfl) trivial)
  have recorded := sequenced.next (.serve (.record (k := 0) rfl rfl rfl rfl) trivial)
  have announced := recorded.next (.serve (.broadcast (k := 0) rfl rfl) trivial)
  have acknowledged := announced.next (.serve (.acknowledge (k := 0) rfl rfl) trivial)
  -- socket 0 is lost before the page has heard of it
  have closed := acknowledged.next (@ExchangeStep.closed {} 0 1 _ 0 rfl)
  have redialed := closed.next (.dial (show Replay.Dials _ (some 1) 0 _ from .timer rfl) (by
    rintro _ ⟨⟩
    exact ⟨rfl, rfl, rfl, rfl, nofun⟩))
  have reopened := redialed.next (.opened (T := 1) rfl rfl (show Page.onOpen _ 2 = _ from rfl))
  have resumed := reopened.next (@ExchangeStep.resume {} 1 _ 1 firstToken rfl (fun _ => ⟨_, rfl, rfl⟩) rfl)
  have bound := resumed.next (.bind (T := 1) rfl nofun (@Step.bind {} _ _ 1 1 0 rfl))
  have reanswered := bound.next (.answer (T := 1) rfl rfl rfl
    (show IsReady nextReady 1 firstToken from ⟨rfl, rfl, rfl, rfl⟩))
  have retried := reanswered.next (.deliver (T := 1) rfl rfl rfl (show Page.onMessage _ 0 nextReady = _ from rfl))
  have reread := retried.next (.read (T := 1) (show _ = some firstCommand from rfl) rfl rfl
    (@Step.receive {} _ 1 _ 1 firstMessage 0 rfl rfl (.inl rfl)))
  have readmitted := reread.next (.serve (.accept (k := 1) rfl rfl (by decide)) trivial)
  have again := readmitted.next (.serve (.again (k := 1) rfl rfl rfl rfl rfl) trivial)
  have wrote := again.next (@ExchangeStep.write {} _ 1 firstAck nofun)
  have run := wrote.next (.deliver (T := 1) rfl rfl rfl (show Page.onMessage _ 0 firstAck = _ from rfl))
  obtain ⟨once, _, later, _⟩ := effect_at_most_once run
  have later := later firstId List.mem_cons_self
  refine ⟨_, _, run, ⟨firstCommand, List.mem_cons_self, rfl⟩, ⟨firstCommand, List.mem_cons_self, rfl⟩, rfl, nofun,
    once firstId, ?settled, fun t path => (later ?settled t path).1⟩
  rintro ⟨_, inside, _⟩
  cases inside

end First
end Conspire.Commands
