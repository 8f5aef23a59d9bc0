import Conspire.Tor.Onion

/-! The start of an onion service against any control endpoint: what each command may rely on of
what went over the connection before it, and what is left of the service when it fails. -/
namespace Conspire.Tor
open Triples

section
variable (hmacSha256 : (key message : Bytes) → Bytes) (host : Host)

/-- The endpoint has answered the challenge with the hash over the cookie and both nonces, and the
command is the client's own hash. -/
def Proven (before : List Event) (command : Bytes) : Prop :=
  ∃ path cookie clientNonce serverNonce challenge line earlier transport,
    readCookie host path = some cookie ∧ host.nonce = some clientNonce ∧
    before = earlier ++ [.sent transport (ascii "AUTHCHALLENGE SAFECOOKIE " ++ hexEncode clientNonce), .replied challenge] ∧
    challenge.lines.head? = some line ∧ hexDecode (fieldValue line (ascii "SERVERNONCE=")) = some serverNonce ∧
    hexDecode (fieldValue line (ascii "SERVERHASH=")) =
      some (hmacSha256 serverHashKey (cookie ++ clientNonce ++ serverNonce)) ∧
    command = ascii "AUTHENTICATE " ++ hexEncode (hmacSha256 clientHashKey (cookie ++ clientNonce ++ serverNonce))

/-- What must hold when a command is sent after some events. -/
structure Allowed (before : List Event) (transport : Transport) (command : Bytes) : Prop where
  bare : command = ascii "AUTHENTICATE" → transport = .unix
  cookie : ascii "AUTHENTICATE " <+: command → Proven hmacSha256 host before command
  key : ascii "ADD_ONION" <+: command → loadPrivateKey host.keyFile ≠ .invalid

inductive Obeyed : List Event → Prop where
  | nil : Obeyed []
  | sent {trace : List Event} {transport : Transport} {command : Bytes} : Obeyed trace →
      framed command = true → Allowed hmacSha256 host trace transport command →
      Obeyed (trace ++ [.sent transport command])
  | replied {trace : List Event} {reply : Reply} : Obeyed trace → Obeyed (trace ++ [.replied reply])

/-- What no command and no reply changes of a service. -/
structure Kin (a b : OnionService) : Prop where
  serviceId : b.serviceId = a.serviceId
  hostname : b.hostname = a.hostname
  controlEndpoint : b.controlEndpoint = a.controlEndpoint
  transport : b.descriptor.map Socket.transport = a.descriptor.map Socket.transport

/-- A conversation over the connection of a service, of so many events at most. -/
structure Session (service : OnionService) (events : Nat) (control : Control) : Prop where
  same : control.host = host
  kin : Kin service control.service
  obeyed : Obeyed hmacSha256 host control.trace
  few : control.trace.length ≤ events

/-- A key that can be loaded is in place, and a key file that was there is the one still there. -/
structure Kept (events : Nat) (control : Control) : Prop where
  stored : ∃ key, loadPrivateKey control.host.keyFile = .valid key
  same : host.keyFile ≠ .missing → control.host.keyFile = host.keyFile
  obeyed : Obeyed hmacSha256 host control.trace
  few : control.trace.length ≤ events

/-- A service without a name, on the host as it was. -/
structure Unnamed (events : Nat) (control : Control) : Prop where
  same : control.host = host
  serviceId : control.service.serviceId = []
  hostname : control.service.hostname = []
  obeyed : Obeyed hmacSha256 host control.trace
  few : control.trace.length ≤ events

/-- A connection whose endpoint bears the name of its transport. -/
def Linked (service : OnionService) : Prop :=
  ascii "unix:" <+: service.controlEndpoint →
    ∀ transport, service.descriptor.map Socket.transport = some transport → transport = .unix

/-- The connection of a service that has no name yet. -/
structure Begun (events : Nat) (service : OnionService) (control : Control) : Prop where
  session : Session hmacSha256 host service events control
  serviceId : service.serviceId = []
  hostname : service.hostname = []
  linked : Linked service

/-- What `start` leaves: a service with a name and a stored key, or nothing at all. -/
def Left (result : Except Bytes Unit) (control : Control) : Prop :=
  match result with
  | .ok () =>
    validServiceId control.service.serviceId = true ∧
    control.service.hostname = control.service.serviceId ++ ascii ".onion" ∧
    ∃ key, loadPrivateKey control.host.keyFile = .valid key ∧ validPrivateKey key = true
  | .error _ =>
    control.service.serviceId = [] ∧ control.service.hostname = [] ∧ control.service.descriptor = none

/-- The start of a service is safe. `commands` speaks of each command and of all that went over the
connections before it. -/
structure Safe (result : Except Bytes Unit) (control : Control) : Prop where
  left : Left result control
  kept : host.keyFile ≠ .missing → control.host.keyFile = host.keyFile
  commands : ∀ before transport command after, control.trace = before ++ .sent transport command :: after →
    (0x0d ∉ command ∧ 0x0a ∉ command) ∧ Allowed hmacSha256 host before transport command
  few : control.trace.length ≤ 13

/-- The last command was answered. -/
def Answered (command : Bytes) (reply : Reply) (trace : List Event) : Prop :=
  ∃ earlier transport, trace = earlier ++ [.sent transport command, .replied reply]

end

section
variable {hmacSha256 : (key message : Bytes) → Bytes} {host : Host} {service : OnionService} {events : Nat}

theorem last_or_earlier {trace before after : List Event} {last event : Event}
    (is : trace ++ [last] = before ++ event :: after) :
    trace = before ∧ last = event ∨ ∃ rest, trace = before ++ event :: rest := by
  obtain rfl | ⟨rest, final, rfl⟩ := List.eq_nil_or_concat' after
  · obtain ⟨same, single⟩ := List.append_inj' is rfl
    exact .inl ⟨same, List.singleton_inj.mp single⟩
  · rw [← List.cons_append, ← List.append_assoc] at is
    exact .inr ⟨rest, (List.append_inj' is rfl).1⟩

theorem Obeyed.at {trace before after : List Event} {transport : Transport} {command : Bytes}
    (obeyed : Obeyed hmacSha256 host trace) (is : trace = before ++ .sent transport command :: after) :
    framed command = true ∧ Allowed hmacSha256 host before transport command := by
  induction obeyed generalizing after with
  | nil => simp at is
  | sent obeyed framed allowed ih =>
    obtain ⟨rfl, same⟩ | ⟨rest, is⟩ := last_or_earlier is
    · cases same
      exact ⟨framed, allowed⟩
    · exact ih is
  | replied obeyed ih =>
    obtain ⟨-, same⟩ | ⟨rest, is⟩ := last_or_earlier is
    · cases same
    · exact ih is

theorem not_isPrefix {word head rest : Bytes} (differ : head.take word.length ≠ word.take head.length) :
    ¬ word <+: head ++ rest := by
  intro starts
  obtain ⟨tail, is⟩ := starts
  apply differ
  have same := congrArg (List.take (min word.length head.length)) is
  rw [List.take_append_of_le_length (Nat.min_le_left _ _),
    List.take_append_of_le_length (Nat.min_le_right _ _)] at same
  rw [List.take_eq_take_min, ← same, Nat.min_comm, ← List.take_eq_take_min]

/-- A command that neither authenticates nor adds a service. -/
theorem Allowed.plain {before : List Event} {transport : Transport} {command : Bytes}
    (authenticate : ¬ ascii "AUTHENTICATE" <+: command) (add : ¬ ascii "ADD_ONION" <+: command) :
    Allowed hmacSha256 host before transport command where
  bare is := absurd (is ▸ List.prefix_refl _) authenticate
  cookie starts := by
    refine absurd (List.IsPrefix.trans ?_ starts) authenticate
    decide
  key starts := absurd starts add

theorem Session.more {more : Nat} {control : Control} (session : Session hmacSha256 host service events control)
    (le : events ≤ more) : Session hmacSha256 host service more control :=
  ⟨session.same, session.kin, session.obeyed, Nat.le_trans session.few le⟩

theorem writeCommand_spec {command : Bytes} :
    Triple (fun s => Session hmacSha256 host service events s ∧
        ∀ transport, service.descriptor.map Socket.transport = some transport →
          Allowed hmacSha256 host s.trace transport command)
      (writeCommand command)
      (fun _ s => Session hmacSha256 host service (events + 1) s ∧
        ∃ earlier transport, s.trace = earlier ++ [.sent transport command])
      (Session hmacSha256 host service (events + 1)) := by
  apply triple_comesTo
  rintro control ⟨session, allowed⟩
  by_cases fits : framed command = true
  · simp only [fits, Bool.not_true, Bool.false_eq_true, if_false]
    cases connected : control.service.descriptor with
    | none => exact session.more (Nat.le_succ _)
    | some socket =>
      have transport : service.descriptor.map Socket.transport = some socket.transport := by
        rw [← session.kin.transport, connected]
        rfl
      have wrote : Session hmacSha256 host service (events + 1)
          ((control.setSocket { socket with sends := (sendAll socket.sends (command ++ crlf).length).2 }).log
            (.sent socket.transport command)) := by
        refine ⟨session.same, ⟨session.kin.serviceId, session.kin.hostname, session.kin.controlEndpoint, ?_⟩,
          session.obeyed.sent fits (allowed _ transport), ?_⟩
        · exact transport.symm
        · have := session.few
          simp only [Control.log, Control.setSocket, List.length_append, List.length_singleton]
          omega
      dsimp only
      cases (sendAll socket.sends (command ++ crlf).length).1 with
      | error e => exact wrote
      | ok _ => exact ⟨wrote, control.trace, socket.transport, rfl⟩
  · have refused : framed command = false := Bool.not_eq_true _ ▸ fits
    simp only [refused, Bool.not_false, if_true]
    exact session.more (Nat.le_succ _)

theorem readReply_spec {command : Bytes} :
    Triple (fun s => Session hmacSha256 host service events s ∧
        ∃ earlier transport, s.trace = earlier ++ [.sent transport command])
      readReply
      (fun reply s => Session hmacSha256 host service (events + 1) s ∧ Answered command reply s.trace)
      (Session hmacSha256 host service (events + 1)) := by
  apply triple_comesTo
  rintro control ⟨session, earlier, transport, trace⟩
  cases connected : control.service.descriptor with
  | none => exact session.more (Nat.le_succ _)
  | some socket =>
    generalize received : (Incoming.mk control.service.readBuffer socket.arrivals).readReply = came
    obtain ⟨result, incoming⟩ := came
    have kin : Kin service { control.service with
        descriptor := some { socket with arrivals := incoming.arrivals }, readBuffer := incoming.buffer } := by
      refine ⟨session.kin.serviceId, session.kin.hostname, session.kin.controlEndpoint, ?_⟩
      rw [← session.kin.transport, connected]
      rfl
    simp only [received]
    cases result with
    | error e => exact ⟨session.same, kin, session.obeyed, Nat.le_succ_of_le session.few⟩
    | ok reply =>
      refine ⟨⟨session.same, kin, session.obeyed.replied, ?_⟩, earlier, transport, ?_⟩
      · have := session.few
        simp only [Control.log, Control.setSocket, List.length_append, List.length_singleton]
        omega
      · simp only [Control.log, Control.setSocket, trace, List.append_assoc, List.cons_append, List.nil_append]

theorem sendCommand_spec {command : Bytes} :
    Triple (fun s => Session hmacSha256 host service events s ∧
        ∀ transport, service.descriptor.map Socket.transport = some transport →
          Allowed hmacSha256 host s.trace transport command)
      (sendCommand command)
      (fun reply s => Session hmacSha256 host service (events + 2) s ∧ Answered command reply s.trace)
      (Session hmacSha256 host service (events + 2)) := by
  refine Triple.bind (writeCommand_spec.weaken (fun _ => id) (fun _ _ => id) fun s session =>
    session.more (Nat.le_succ _))
    fun _ => ?_
  refine Triple.bind readReply_spec fun reply => ?_
  split
  · exact triple_throw fun s answered => answered.1
  · exact triple_pure fun s answered => answered

theorem sendCommand_plain {command : Bytes} (authenticate : ¬ ascii "AUTHENTICATE" <+: command)
    (add : ¬ ascii "ADD_ONION" <+: command) :
    Triple (Session hmacSha256 host service events) (sendCommand command)
      (fun reply s => Session hmacSha256 host service (events + 2) s ∧ Answered command reply s.trace)
      (Session hmacSha256 host service (events + 2)) :=
  sendCommand_spec.weaken (fun _ session => ⟨session, fun _ _ => .plain authenticate add⟩) (fun _ _ => id) fun _ => id

/-- The client's own hash, once the endpoint's hash has been checked. -/
theorem Allowed.proven {path cookie clientNonce serverNonce line : Bytes} {challenge : Reply} {before : List Event}
    {transport : Transport} (readable : readCookie host path = some cookie) (random : host.nonce = some clientNonce)
    (answered : Answered (ascii "AUTHCHALLENGE SAFECOOKIE " ++ hexEncode clientNonce) challenge before)
    (first : challenge.lines.head? = some line)
    (nonce : hexDecode (fieldValue line (ascii "SERVERNONCE=")) = some serverNonce)
    (hash : hexDecode (fieldValue line (ascii "SERVERHASH=")) =
      some (hmacSha256 serverHashKey (cookie ++ clientNonce ++ serverNonce))) :
    Allowed hmacSha256 host before transport
      (ascii "AUTHENTICATE " ++ hexEncode (hmacSha256 clientHashKey (cookie ++ clientNonce ++ serverNonce))) where
  bare is := by
    have lengths := congrArg List.length is
    rw [List.length_append] at lengths
    have longer : (ascii "AUTHENTICATE").length < (ascii "AUTHENTICATE ").length := by decide
    omega
  cookie _ := by
    obtain ⟨earlier, challenged, trace⟩ := answered
    exact ⟨path, cookie, clientNonce, serverNonce, challenge, line, earlier, challenged,
      readable, random, trace, first,
      nonce, hash, rfl⟩
  key starts := absurd starts (not_isPrefix (by decide))

theorem safeCookie_spec (authLine : Bytes) :
    Triple (Session hmacSha256 host service events) (safeCookie hmacSha256 authLine)
      (fun _ => Session hmacSha256 host service (events + 4)) (Session hmacSha256 host service (events + 4)) := by
  unfold safeCookie
  refine triple_read fun control session => ?_
  have same := session.same
  dsimp only
  have before (s : Control) (session : Session hmacSha256 host service events s) :
      Session hmacSha256 host service (events + 4) s := session.more (by omega)
  split
  case h_2 => exact triple_throw before
  rename_i path offered
  split
  case h_2 => exact triple_throw before
  rename_i cookie readable
  split
  case h_2 => exact triple_throw before
  rename_i clientNonce random
  rw [same] at readable random
  refine Triple.bind ((sendCommand_plain (not_isPrefix (by decide)) (not_isPrefix (by decide))).weaken (fun _ => id)
    (fun _ _ => id) fun s session => session.more (by omega)) fun challenge => ?_
  have after (s : Control) (answered : Session hmacSha256 host service (events + 2) s ∧
      Answered (ascii "AUTHCHALLENGE SAFECOOKIE " ++ hexEncode clientNonce) challenge s.trace) :
      Session hmacSha256 host service (events + 4) s := answered.1.more (by omega)
  split
  case h_2 => exact triple_throw after
  rename_i line first
  split
  case h_2 => exact triple_throw after
  rename_i serverHash hash
  split
  case h_2 => exact triple_throw after
  rename_i serverNonce nonce
  split
  · exact triple_throw_bind after
  split
  · exact triple_throw_bind after
  rename_i checked
  rw [← not_not.mp checked] at hash
  refine triple_discard (sendCommand_spec.weaken (fun s answered => ⟨answered.1, fun transport _ => ?_⟩)
    (fun _ _ => And.left) fun _ => id)
  exact .proven readable random answered.2 first nonce hash

/-- Without a cookie the connection is the Unix one, whose endpoint has that name. -/
theorem authenticate_spec (linked : Linked service) :
    Triple (Session hmacSha256 host service events) (authenticate hmacSha256)
      (fun _ => Session hmacSha256 host service (events + 6)) (Session hmacSha256 host service (events + 6)) := by
  unfold authenticate
  refine Triple.bind ((sendCommand_plain (by decide) (by decide)).weaken (fun _ => id) (fun _ _ => id)
    fun s session => session.more (by omega)) fun protocolInfo => ?_
  dsimp only
  have after (s : Control) (answered : Session hmacSha256 host service (events + 2) s ∧
      Answered (ascii "PROTOCOLINFO 1") protocolInfo s.trace) :
      Session hmacSha256 host service (events + 6) s := answered.1.more (by omega)
  split
  case h_2 => exact triple_throw after
  split
  · exact (safeCookie_spec _).weaken (fun _ => And.left) (fun _ _ => id) fun _ => id
  refine triple_read fun control answered => ?_
  split
  · rename_i permitted
    simp only [Bool.and_eq_true, List.isPrefixOf_iff_prefix, answered.1.kin.controlEndpoint] at permitted
    refine triple_discard (sendCommand_spec.weaken (fun s session => ⟨session.1, fun transport is => ?_⟩)
      (fun _ s answered => answered.1.more (by omega)) fun s session => session.more (by omega))
    exact {
      bare := fun _ => linked permitted.2 transport is
      cookie := fun starts => absurd starts (by decide)
      key := fun starts => absurd starts (by decide) }
  · exact triple_throw after

theorem load_missing {file : KeyFile} (missing : loadPrivateKey file = .missing) : file = .missing := by
  cases file with
  | missing => rfl
  | unopenable => cases missing
  | file stored =>
    simp only [loadPrivateKey] at missing
    split at missing
    · cases missing
    · split at missing <;> cases missing

theorem load_valid {file : KeyFile} {key : Bytes} (valid : loadPrivateKey file = .valid key) :
    validPrivateKey key = true := by
  cases file with
  | missing => cases valid
  | unopenable => cases valid
  | file stored =>
    simp only [loadPrivateKey] at valid
    split at valid
    · cases valid
    · split at valid
      · cases valid
        assumption
      · cases valid

/-- A key ends in an equals sign, so that only the line break is cut off. -/
theorem trimEnd_line {key : Bytes} (valid : validPrivateKey key = true) : trimEnd (key ++ [0x0a]) = key := by
  simp only [validPrivateKey, Bool.and_eq_true, decide_eq_true_eq] at valid
  obtain ⟨⟨-, padding⟩, -⟩ := valid
  have ends : key = key.take (key.length - 2) ++ ascii "==" := by
    rw [← padding, List.take_append_drop]
  have single : ascii "==" = [0x3d] ++ [0x3d] := by decide
  rw [single, ← List.append_assoc] at ends
  rw [ends, trimEnd]
  simp

theorem load_saved {key : Bytes} (valid : validPrivateKey key = true) :
    loadPrivateKey (.file { sound := true, regular := true, mode := 0o600, content := key ++ [0x0a] }) = .valid key := by
  have length : key.length = 99 := by
    simp only [validPrivateKey, Bool.and_eq_true, decide_eq_true_eq] at valid
    rw [valid.1.1.1]
    decide
  simp [loadPrivateKey, trimEnd_line valid, valid, length]

theorem savePrivateKey_spec (host : Host) (path privateKey : Bytes) :
    savePrivateKey host path privateKey = (false, host) ∨
      ∃ after, savePrivateKey host path privateKey = (true, after) ∧
        loadPrivateKey after.keyFile = .valid privateKey := by
  unfold savePrivateKey
  split
  · exact .inl rfl
  rename_i given
  simp only [Bool.or_eq_true, Bool.not_eq_true', not_or, Bool.not_eq_false] at given
  dsimp only
  split
  · exact .inl rfl
  split
  · exact .inr ⟨_, rfl, load_saved given.2⟩
  · exact .inl rfl

theorem persist_spec (missing : host.keyFile = .missing) (path privateKey : Bytes) :
    Triple (Session hmacSha256 host service events) (persist path privateKey)
      (fun saved s => if saved then Kept hmacSha256 host events s else Session hmacSha256 host service events s)
      (Session hmacSha256 host service events) := by
  apply triple_comesTo
  intro control session
  have same := session.same
  obtain unsaved | ⟨after, saved, valid⟩ := savePrivateKey_spec control.host path privateKey
  · simp only [unsaved]
    exact session
  · simp only [saved]
    exact ⟨⟨privateKey, valid⟩, fun present => absurd missing present, session.obeyed, session.few⟩

theorem keep_spec (missing : host.keyFile = .missing) (options : Options) (added : Reply) (serviceId : Bytes) :
    Triple (Session hmacSha256 host service events) (keep options added serviceId)
      (fun _ => Kept hmacSha256 host (events + 2)) (Session hmacSha256 host service (events + 2)) := by
  have before (s : Control) (session : Session hmacSha256 host service events s) :
      Session hmacSha256 host service (events + 2) s := session.more (by omega)
  have removed : Triple (Session hmacSha256 host service events)
      (ignored (sendCommand (ascii "DEL_ONION " ++ serviceId)))
      (fun _ => Session hmacSha256 host service (events + 2)) (Session hmacSha256 host service (events + 2)) :=
    triple_ignored ((sendCommand_plain (not_isPrefix (by decide)) (not_isPrefix (by decide))).weaken
      (fun _ => id) (fun _ _ => And.left) fun _ => id)
  unfold keep
  dsimp only
  split
  · exact triple_throw_bind before
  refine Triple.bind ((persist_spec missing _ _).weaken (fun _ => id) (fun _ _ => id) before) fun saved => ?_
  cases saved with
  | true => exact triple_pure fun s kept => ⟨kept.stored, kept.same, kept.obeyed, Nat.le_add_right_of_le kept.few⟩
  | false => exact removed.bind fun _ => triple_throw fun s session => session

theorem addCommand_begins (options : Options) (key : Bytes) :
    ∃ rest, addCommand options key = ascii "ADD_ONION " ++ rest := by
  simp only [addCommand, List.append_assoc]
  exact ⟨_, rfl⟩

/-- A service that was added. -/
theorem addKey_spec (options : Options) (key : Bytes) (generating : Bool)
    (generated : generating = true → host.keyFile = .missing)
    (existing : generating = false → ∃ key, loadPrivateKey host.keyFile = .valid key) :
    Triple (Session hmacSha256 host service events) (addKey options key generating)
      (fun _ s => Kept hmacSha256 host (events + 4) s ∧ validServiceId s.service.serviceId = true ∧
        s.service.hostname = s.service.serviceId ++ ascii ".onion")
      (Session hmacSha256 host service (events + 4)) := by
  have loadable : loadPrivateKey host.keyFile ≠ .invalid := by
    cases generating with
    | true => simp [generated rfl, loadPrivateKey]
    | false =>
      obtain ⟨key, valid⟩ := existing rfl
      simp [valid]
  unfold addKey
  have sent : Triple (Session hmacSha256 host service events) (sendCommand (addCommand options key))
      (fun _ => Session hmacSha256 host service (events + 2)) (Session hmacSha256 host service (events + 4)) := by
    refine sendCommand_spec.weaken (fun s session => ⟨session, fun transport is => ?_⟩) (fun _ _ => And.left)
      fun s session => session.more (by omega)
    obtain ⟨rest, begins⟩ := addCommand_begins options key
    rw [begins]
    refine {
      bare := fun same => ?_
      cookie := fun starts => absurd starts (not_isPrefix (by decide))
      key := fun _ => loadable }
    have starts : ascii "AUTHENTICATE" <+: ascii "ADD_ONION " ++ rest := ⟨[], by rw [List.append_nil, same]⟩
    exact absurd starts (not_isPrefix (by decide))
  refine sent.bind fun added => ?_
  have after (s : Control) (session : Session hmacSha256 host service (events + 2) s) :
      Session hmacSha256 host service (events + 4) s := session.more (by omega)
  dsimp only
  split
  · exact triple_throw_bind after
  rename_i valid
  simp only [Bool.not_eq_true', Bool.not_eq_false] at valid
  have finish : Triple (Kept hmacSha256 host (events + 4)) (named (replyValue added (ascii "ServiceID=")))
      (fun _ s => Kept hmacSha256 host (events + 4) s ∧ validServiceId s.service.serviceId = true ∧
        s.service.hostname = s.service.serviceId ++ ascii ".onion")
      (Session hmacSha256 host service (events + 4)) :=
    triple_modify fun s kept => ⟨⟨kept.stored, kept.same, kept.obeyed, kept.few⟩, valid, rfl⟩
  cases generating with
  | true =>
    refine Triple.bind (keep_spec (generated rfl) options added _) fun _ =>
      finish.weaken (fun _ => id) (fun _ _ => id) fun _ => id
  | false =>
    refine finish.weaken (fun s session => ?_) (fun _ _ => id) fun _ => id
    obtain ⟨key, valid⟩ := existing rfl
    exact ⟨⟨key, session.same ▸ valid⟩, fun _ => by rw [session.same], session.obeyed, (after s session).few⟩

theorem add_spec (options : Options) :
    Triple (Session hmacSha256 host service events) (add options)
      (fun _ s => Kept hmacSha256 host (events + 4) s ∧ validServiceId s.service.serviceId = true ∧
        s.service.hostname = s.service.serviceId ++ ascii ".onion")
      (Session hmacSha256 host service (events + 4)) := by
  unfold add
  refine triple_read fun control session => ?_
  rw [session.same]
  cases load : loadPrivateKey host.keyFile with
  | invalid =>
    dsimp only
    exact triple_throw fun s session => session.more (by omega)
  | missing =>
    dsimp only
    exact addKey_spec options _ true (fun _ => load_missing load) nofun
  | valid key =>
    dsimp only
    exact addKey_spec options key false nofun fun _ => ⟨key, load⟩

theorem Session.unnamed {control : Control} (session : Session hmacSha256 host service events control)
    (serviceId : service.serviceId = []) (hostname : service.hostname = []) :
    Unnamed hmacSha256 host events control :=
  ⟨session.same, session.kin.serviceId.trans serviceId, session.kin.hostname.trans hostname,
    session.obeyed, session.few⟩

theorem Unnamed.more {more : Nat} {control : Control} (unnamed : Unnamed hmacSha256 host events control)
    (le : events ≤ more) : Unnamed hmacSha256 host more control :=
  ⟨unnamed.same, unnamed.serviceId, unnamed.hostname, unnamed.obeyed, Nat.le_trans unnamed.few le⟩

/-- The end of `stop`. -/
theorem closed_spec :
    Triple (Session hmacSha256 host service events)
      (do
        closeConnection
        modify fun control : Control =>
          { control with service := { control.service with serviceId := [], hostname := [] } } :
          Program Control Bytes Unit)
      (fun _ s => Unnamed hmacSha256 host events s ∧ s.service.descriptor = none) (fun _ => False) := by
  have closed : Triple (Session hmacSha256 host service events) closeConnection
      (fun _ s => (s.host = host ∧ Obeyed hmacSha256 host s.trace ∧ s.trace.length ≤ events) ∧
        s.service.descriptor = none) (fun _ => False) :=
    triple_modify fun s session => ⟨⟨session.same, session.obeyed, session.few⟩, rfl⟩
  refine closed.bind fun _ => triple_modify ?_
  rintro s ⟨⟨same, obeyed, few⟩, none⟩
  exact ⟨⟨same, rfl, rfl, obeyed, few⟩, none⟩

/-- Whatever the service was, it has neither name nor connection after `stop`. -/
theorem stop_spec :
    Triple (Session hmacSha256 host service events) stop
      (fun _ s => Unnamed hmacSha256 host (events + 3) s ∧ s.service.descriptor = none) (fun _ => False) := by
  have removed (serviceId : Bytes) : Triple (Session hmacSha256 host service events)
      (ignored (sendCommand (ascii "DEL_ONION " ++ serviceId)))
      (fun _ => Session hmacSha256 host service (events + 2)) (fun _ => False) :=
    triple_ignored ((sendCommand_plain (not_isPrefix (by decide)) (not_isPrefix (by decide))).weaken
      (fun _ => id) (fun _ _ => And.left) fun _ => id)
  have quits : Triple (Session hmacSha256 host service (events + 2)) (ignored (writeCommand (ascii "QUIT")))
      (fun _ => Session hmacSha256 host service (events + 3)) (fun _ => False) :=
    triple_ignored (writeCommand_spec.weaken
      (fun _ session => ⟨session, fun _ _ => .plain (by decide) (by decide)⟩) (fun _ _ => And.left) fun _ => id)
  unfold stop
  refine triple_read fun control session => ?_
  dsimp only
  split
  · exact (removed _).bind fun _ => quits.bind fun _ => closed_spec
  · exact closed_spec.weaken (fun _ session => session.more (by omega)) (fun _ _ => id) fun _ => id

theorem connected_begun {control : Control} (unnamed : Unnamed hmacSha256 host events control) (socket : Socket)
    (controlEndpoint : Bytes) (linked : ascii "unix:" <+: controlEndpoint → socket.transport = .unix) :
    ∃ service, Begun hmacSha256 host events service (connected control socket controlEndpoint) := by
  refine ⟨_, ⟨unnamed.same, ⟨rfl, rfl, rfl, rfl⟩, unnamed.obeyed, unnamed.few⟩,
    unnamed.serviceId, unnamed.hostname, ?_⟩
  rintro starts transport is
  cases is
  exact linked starts

theorem connectUnix_transport {path : Bytes} {socket : Socket} (is : connectUnix host path = .ok socket) :
    socket.transport = .unix := by
  unfold connectUnix at is
  split at is
  · cases is
  · cases unix : host.unix with
    | error e =>
      rw [unix] at is
      cases is
    | ok connection =>
      rw [unix] at is
      cases is
      rfl

theorem connectControl_spec (options : Options) :
    Triple (Unnamed hmacSha256 host events) (connectControl options)
      (fun _ s => ∃ service, Begun hmacSha256 host events service s) (Unnamed hmacSha256 host events) := by
  apply triple_comesTo
  intro control unnamed
  have overTcp (socket : Socket) : ∃ service, Begun hmacSha256 host events service (connected control socket
      (ascii "tcp:" ++ options.controlHost ++ ascii ":" ++ ascii (toString options.controlPort.toNat))) := by
    refine connected_begun unnamed socket _ fun starts => ?_
    rw [List.append_assoc, List.append_assoc] at starts
    exact absurd starts (not_isPrefix (by decide))
  by_cases tcpOnly : options.controlSocket = []
  · simp only [tcpOnly, if_true]
    cases connectTcp control.host with
    | ok socket => exact overTcp socket
    | error tcpError => exact unnamed
  · simp only [tcpOnly, if_false]
    cases is : connectUnix control.host options.controlSocket with
    | ok socket => exact connected_begun unnamed socket _ fun _ => connectUnix_transport is
    | error unixError =>
      cases connectTcp control.host with
      | ok socket => exact overTcp socket
      | error tcpError => exact unnamed

theorem start_spec (options : Options) :
    Triple (Session hmacSha256 host service events) (start hmacSha256 options)
      (fun _ s => Kept hmacSha256 host (events + 13) s ∧ validServiceId s.service.serviceId = true ∧
        s.service.hostname = s.service.serviceId ++ ascii ".onion")
      (fun s => Unnamed hmacSha256 host (events + 13) s ∧ s.service.descriptor = none) := by
  unfold start
  refine Triple.bind (stop_spec.weaken (fun _ => id) (fun _ _ => And.left) fun _ => False.elim) fun _ => ?_
  have closes (error : Bytes) : Triple (Unnamed hmacSha256 host (events + 13))
      (do closeConnection; throw error : Program Control Bytes Unit)
      (fun _ s => Kept hmacSha256 host (events + 13) s ∧ validServiceId s.service.serviceId = true ∧
        s.service.hostname = s.service.serviceId ++ ascii ".onion")
      (fun s => Unnamed hmacSha256 host (events + 13) s ∧ s.service.descriptor = none) := by
    have closed : Triple (Unnamed hmacSha256 host (events + 13)) closeConnection
        (fun _ s => Unnamed hmacSha256 host (events + 13) s ∧ s.service.descriptor = none)
        (fun s => Unnamed hmacSha256 host (events + 13) s ∧ s.service.descriptor = none) :=
      triple_modify fun s unnamed =>
        ⟨⟨unnamed.same, unnamed.serviceId, unnamed.hostname, unnamed.obeyed, unnamed.few⟩, rfl⟩
    exact closed.bind fun _ => triple_throw fun _ => id
  refine Triple.tryCatch ?_ closes
  refine Triple.bind ((connectControl_spec options).weaken (fun _ => id) (fun _ _ => id)
    fun s unnamed => unnamed.more (by omega)) fun _ => triple_exists fun service => ?_
  refine triple_given (fun s begun => And.intro begun.serviceId (And.intro begun.hostname begun.linked)) ?_
  rintro ⟨serviceId, hostname, linked⟩
  refine Triple.bind ((authenticate_spec linked).weaken (fun s begun => begun.session) (fun _ _ => id)
    fun s session => (session.unnamed serviceId hostname).more (by omega)) fun _ => ?_
  refine (add_spec options).weaken (fun _ => id) (fun _ _ => id) fun s session => ?_
  exact (session.unnamed serviceId hostname).more (by omega)

theorem framed_clean {command : Bytes} (fits : framed command = true) : 0x0d ∉ command ∧ 0x0a ∉ command := by
  simp only [framed, Bool.and_eq_true, decide_eq_true_eq] at fits
  exact ⟨fits.1.2, fits.2⟩

/-- `start` comes to an end on every host and with every endpoint, and it is safe; a reply takes a
bounded number of arrivals off its connection, however many there are. -/
theorem onion_start (service : OnionService) (options : Options) :
    Safe hmacSha256 host (Triples.outcome (start hmacSha256 options) { service, host, trace := [] }).1
        (Triples.outcome (start hmacSha256 options) { service, host, trace := [] }).2 ∧
      ∀ incoming : Incoming, ∃ taken, incoming.arrivals = taken ++ incoming.readReply.2.arrivals ∧
        taken.countP Recv.counts ≤ (maxReplyBytes + 1) * maxLineBytes := by
  have session : Session hmacSha256 host service 0 { service, host, trace := [] } :=
    ⟨rfl, ⟨rfl, rfl, rfl, rfl⟩, .nil, Nat.le_refl _⟩
  have commands {control : Control} (obeyed : Obeyed hmacSha256 host control.trace) (before : List Event)
      (transport : Transport) (command : Bytes) (after : List Event)
      (is : control.trace = before ++ .sent transport command :: after) :
      (0x0d ∉ command ∧ 0x0a ∉ command) ∧ Allowed hmacSha256 host before transport command :=
    ⟨framed_clean (obeyed.at is).1, (obeyed.at is).2⟩
  refine ⟨?_, readReply_bounded⟩
  have came := (start_spec options).comes _ session
  revert came
  generalize Triples.outcome (start hmacSha256 options) { service, host, trace := [] } = ended
  obtain ⟨result, control⟩ := ended
  cases result with
  | ok _ =>
    rintro ⟨kept, valid, hostname⟩
    obtain ⟨key, stored⟩ := kept.stored
    exact ⟨⟨valid, hostname, key, stored, load_valid stored⟩, kept.same, commands kept.obeyed, kept.few⟩
  | error e =>
    rintro ⟨unnamed, none⟩
    exact ⟨⟨unnamed.serviceId, unnamed.hostname, none⟩, fun _ => by rw [unnamed.same], commands unnamed.obeyed,
      unnamed.few⟩

end
end Conspire.Tor
