import Conspire.Library.Machine
import Conspire.Tor.Start

/-! The onion address of a server over its restarts. A start presents the stored key, or has one made
and stores it before the service has a name; so as long as the key file is only written by the server
itself, all its services have one name. -/
namespace Conspire.Tor
open Triples Transition

def newKey : Bytes := ascii "NEW:ED25519-V3"

/-- The key with which a service is added. -/
inductive Presented : KeyFile → Bytes → Prop where
  | stored {file : KeyFile} {key : Bytes} : loadPrivateKey file = .valid key → Presented file key
  | generated {file : KeyFile} : loadPrivateKey file = .missing → Presented file newKey

/-- Services are added with that key only. -/
def Asked (options : Options) (file : KeyFile) (trace : List Event) : Prop :=
  ∀ transport command, .sent transport command ∈ trace → ascii "ADD_ONION" <+: command →
    ∃ key, Presented file key ∧ command = addCommand options key

/-- A conversation during which nothing is written to the files of the host. -/
structure Talking (options : Options) (host : Host) (control : Control) : Prop where
  same : control.host = host
  asked : Asked options host.keyFile control.trace

/-- The service has the name in the last reply, and the key it was added with is stored. -/
structure Registered (options : Options) (host : Host) (key : Bytes) (reply : Reply) (control : Control) : Prop where
  asked : Asked options host.keyFile control.trace
  presented : Presented host.keyFile key
  last : ∃ earlier transport, control.trace = earlier ++ [.sent transport (addCommand options key), .replied reply]
  status : reply.status = 250
  hostname : control.service.hostname = replyValue reply (ascii "ServiceID=") ++ ascii ".onion"
  kept : ∀ stored, loadPrivateKey host.keyFile = .valid stored → control.host = host
  saved : loadPrivateKey host.keyFile = .missing →
    loadPrivateKey control.host.keyFile = .valid (replyValue reply (ascii "PrivateKey="))

section Conversations
variable {hmacSha256 : (key message : Bytes) → Bytes} {host : Host} {options : Options} {command : Bytes}

theorem Asked.sent {file : KeyFile} {trace : List Event} (asked : Asked options file trace)
    (next : ascii "ADD_ONION" <+: command → ∃ key, Presented file key ∧ command = addCommand options key)
    (transport : Transport) : Asked options file (trace ++ [.sent transport command]) := by
  intro other sent member starts
  rcases List.mem_append.mp member with old | new
  · exact asked other sent old starts
  · cases List.mem_singleton.mp new
    exact next starts

theorem Asked.replied {file : KeyFile} {trace : List Event} (asked : Asked options file trace) (reply : Reply) :
    Asked options file (trace ++ [.replied reply]) := by
  intro transport command member starts
  rcases List.mem_append.mp member with old | new
  · exact asked transport command old starts
  · cases List.mem_singleton.mp new

theorem writeCommand_talking
    (next : ascii "ADD_ONION" <+: command → ∃ key, Presented host.keyFile key ∧ command = addCommand options key) :
    Triple (Talking options host) (writeCommand command)
      (fun _ s => Talking options host s ∧ ∃ earlier transport, s.trace = earlier ++ [.sent transport command])
      (Talking options host) := by
  apply triple_comesTo
  intro control talking
  by_cases fits : framed command = true
  · simp only [fits, Bool.not_true, Bool.false_eq_true, if_false]
    cases control.service.descriptor with
    | none => exact talking
    | some socket =>
      dsimp only
      cases (sendAll socket.sends (command ++ crlf).length).1 with
      | error e => exact ⟨talking.same, talking.asked.sent next _⟩
      | ok _ => exact ⟨⟨talking.same, talking.asked.sent next _⟩, control.trace, socket.transport, rfl⟩
  · simp only [Bool.not_eq_true _ ▸ fits, Bool.not_false, if_true]
    exact talking

/-- A command with its answer. -/
theorem sendCommand_talking
    (next : ascii "ADD_ONION" <+: command → ∃ key, Presented host.keyFile key ∧ command = addCommand options key) :
    Triple (Talking options host) (sendCommand command)
      (fun reply s => Talking options host s ∧ reply.status = 250 ∧ Answered command reply s.trace)
      (Talking options host) := by
  have reads : Triple (fun s => Talking options host s ∧
      ∃ earlier transport, s.trace = earlier ++ [.sent transport command])
      readReply (fun reply s => Talking options host s ∧ Answered command reply s.trace) (Talking options host) := by
    apply triple_comesTo
    rintro control ⟨talking, earlier, transport, trace⟩
    cases control.service.descriptor with
    | none => exact talking
    | some socket =>
      generalize received : (Incoming.mk control.service.readBuffer socket.arrivals).readReply = came
      obtain ⟨result, incoming⟩ := came
      simp only [received]
      cases result with
      | error e => exact ⟨talking.same, talking.asked⟩
      | ok reply =>
        refine ⟨⟨talking.same, talking.asked.replied reply⟩, earlier, transport, ?_⟩
        simp only [Control.log, Control.setSocket, trace, List.append_assoc, List.cons_append, List.nil_append]
  refine Triple.bind (writeCommand_talking next) fun _ => Triple.bind reads fun reply => ?_
  split
  · exact triple_throw fun s answered => answered.1
  · rename_i accepted
    exact triple_pure fun s answered => ⟨answered.1, not_not.mp accepted, answered.2⟩

theorem sendCommand_other (other : ¬ ascii "ADD_ONION" <+: command) :
    Triple (Talking options host) (sendCommand command) (fun _ => Talking options host) (Talking options host) :=
  (sendCommand_talking fun starts => absurd starts other).weaken (fun _ => id) (fun _ _ => And.left) fun _ => id

theorem safeCookie_talking (authLine : Bytes) :
    Triple (Talking options host) (safeCookie hmacSha256 authLine) (fun _ => Talking options host)
      (Talking options host) := by
  unfold safeCookie
  refine triple_read fun control _ => ?_
  dsimp only
  split
  case h_2 => exact triple_throw fun _ => id
  split
  case h_2 => exact triple_throw fun _ => id
  split
  case h_2 => exact triple_throw fun _ => id
  refine Triple.bind (sendCommand_other (not_isPrefix (by decide))) fun challenge => ?_
  split
  case h_2 => exact triple_throw fun _ => id
  split
  case h_2 => exact triple_throw fun _ => id
  split
  case h_2 => exact triple_throw fun _ => id
  split
  · exact triple_throw_bind fun _ => id
  split
  · exact triple_throw_bind fun _ => id
  exact triple_discard (sendCommand_other (not_isPrefix (by decide)))

theorem authenticate_talking :
    Triple (Talking options host) (authenticate hmacSha256) (fun _ => Talking options host)
      (Talking options host) := by
  unfold authenticate
  refine Triple.bind (sendCommand_other (by decide)) fun protocolInfo => ?_
  dsimp only
  split
  case h_2 => exact triple_throw fun _ => id
  split
  · exact safeCookie_talking _
  refine triple_read fun control _ => ?_
  split
  · exact triple_discard (sendCommand_other (by decide))
  · exact triple_throw fun _ => id

theorem connectControl_talking (options : Options) :
    Triple (Talking options host) (connectControl options) (fun _ => Talking options host)
      (Talking options host) := by
  apply triple_comesTo
  intro control talking
  have linked (socket : Socket) (controlEndpoint : Bytes) :
      Talking options host (connected control socket controlEndpoint) := ⟨talking.same, talking.asked⟩
  by_cases tcpOnly : options.controlSocket = []
  · simp only [tcpOnly, if_true]
    cases connectTcp control.host with
    | ok socket => exact linked socket _
    | error tcpError => exact talking
  · simp only [tcpOnly, if_false]
    cases connectUnix control.host options.controlSocket with
    | ok socket => exact linked socket _
    | error unixError =>
      cases connectTcp control.host with
      | ok socket => exact linked socket _
      | error tcpError => exact talking

theorem closeConnection_talking : Triple (Talking options host) closeConnection (fun _ => Talking options host)
    (Talking options host) :=
  triple_modify fun _ talking => ⟨talking.same, talking.asked⟩

theorem stop_talking : Triple (Talking options host) stop (fun _ => Talking options host) (Talking options host) := by
  have ends : Triple (Talking options host) (do
      closeConnection
      modify fun control : Control =>
        { control with service :=
          { control.service with serviceId := [], hostname := [] } } : Program Control Bytes Unit)
      (fun _ => Talking options host) (Talking options host) :=
    closeConnection_talking.bind fun _ => triple_modify fun _ talking => ⟨talking.same, talking.asked⟩
  have quits : Triple (Talking options host) (ignored (writeCommand (ascii "QUIT"))) (fun _ => Talking options host)
      (Talking options host) :=
    triple_ignored ((writeCommand_talking fun starts => absurd starts (by decide)).weaken (fun _ => id)
      (fun _ _ => And.left) fun _ => id)
  unfold stop
  refine triple_read fun control _ => ?_
  dsimp only
  split
  · exact (triple_ignored (sendCommand_other (not_isPrefix (by decide)))).bind fun _ => quits.bind fun _ => ends
  · exact ends

/-- The key that was made is stored, or the service is not kept. -/
theorem keep_saves {added : Reply} (serviceId : Bytes) :
    Triple (fun s => Talking options host s ∧ Answered (addCommand options newKey) added s.trace)
      (keep options added serviceId)
      (fun _ s => Asked options host.keyFile s.trace ∧ Answered (addCommand options newKey) added s.trace ∧
        loadPrivateKey s.host.keyFile = .valid (replyValue added (ascii "PrivateKey=")))
      (Talking options host) := by
  have persists : Triple (fun s => Talking options host s ∧ Answered (addCommand options newKey) added s.trace)
      (persist options.keyPath (replyValue added (ascii "PrivateKey=")))
      (fun saved s => Answered (addCommand options newKey) added s.trace ∧
        if saved then Asked options host.keyFile s.trace ∧
          loadPrivateKey s.host.keyFile = .valid (replyValue added (ascii "PrivateKey="))
        else Talking options host s) (Talking options host) := by
    apply triple_comesTo
    rintro control ⟨talking, answered⟩
    obtain unsaved | ⟨after, saved, valid⟩ :=
      savePrivateKey_spec control.host options.keyPath (replyValue added (ascii "PrivateKey="))
    · simp only [unsaved]
      exact ⟨answered, talking⟩
    · simp only [saved]
      exact ⟨answered, talking.asked, valid⟩
  have removed : Triple (Talking options host) (ignored (sendCommand (ascii "DEL_ONION " ++ serviceId)))
      (fun _ => Talking options host) (Talking options host) :=
    triple_ignored (sendCommand_other (not_isPrefix (by decide)))
  unfold keep
  dsimp only
  split
  · exact triple_throw_bind fun s holds => holds.1
  refine Triple.bind persists fun saved => ?_
  cases saved with
  | true => exact triple_pure fun s holds => ⟨holds.2.1, holds.1, holds.2.2⟩
  | false =>
    refine Triple.bind (removed.weaken (fun s holds => holds.2) (fun _ _ => id) fun _ => id) fun _ => ?_
    exact triple_throw fun _ => id

theorem addKey_registers {key : Bytes} (generating : Bool) (presented : Presented host.keyFile key)
    (generated : generating = true → key = newKey ∧ loadPrivateKey host.keyFile = .missing)
    (existing : generating = false → ∃ stored, loadPrivateKey host.keyFile = .valid stored) :
    Triple (Talking options host) (addKey options key generating)
      (fun _ s => ∃ reply, Registered options host key reply s) (Talking options host) := by
  unfold addKey
  refine Triple.bind (sendCommand_talking fun _ => ⟨key, presented, rfl⟩) fun added => ?_
  dsimp only
  split
  · exact triple_throw_bind fun s holds => holds.1
  cases generating with
  | true =>
    obtain ⟨rfl, missing⟩ := generated rfl
    refine triple_given (fun s (holds : Talking options host s ∧ added.status = 250 ∧ _) => holds.2.1)
      fun status => ?_
    refine Triple.bind
      ((keep_saves _).weaken (fun s holds => ⟨holds.1, holds.2.2⟩) (fun _ _ => id) fun _ => id) fun _ => ?_
    refine triple_modify fun s holds => ⟨added, ?_⟩
    obtain ⟨asked, ⟨earlier, transport, trace⟩, stored⟩ := holds
    exact {
      asked := asked
      presented := presented
      last := ⟨earlier, transport, trace⟩
      status := status
      hostname := rfl
      kept := fun stored known => by cases missing.symm.trans known
      saved := fun _ => stored }
  | false =>
    obtain ⟨stored, known⟩ := existing rfl
    refine triple_modify fun s holds => ⟨added, ?_⟩
    obtain ⟨talking, status, earlier, transport, trace⟩ := holds
    exact {
      asked := talking.asked
      presented := presented
      last := ⟨earlier, transport, trace⟩
      status := status
      hostname := rfl
      kept := fun _ _ => talking.same
      saved := fun missing => by cases missing.symm.trans known }

theorem add_registers : Triple (Talking options host) (add options)
    (fun _ s => ∃ key reply, Registered options host key reply s) (Talking options host) := by
  unfold add
  refine triple_read fun control talking => ?_
  rw [talking.same]
  cases load : loadPrivateKey host.keyFile with
  | invalid => exact triple_throw fun _ => id
  | missing =>
    refine (addKey_registers true (.generated load) (fun _ => ⟨rfl, load⟩) nofun).weaken (fun _ => id) ?_ fun _ => id
    exact fun _ s holds => ⟨_, holds⟩
  | valid key =>
    refine (addKey_registers false (.stored load) nofun fun _ => ⟨key, load⟩).weaken (fun _ => id) ?_ fun _ => id
    exact fun _ s holds => ⟨_, holds⟩

theorem start_registers : Triple (Talking options host) (start hmacSha256 options)
    (fun _ s => ∃ key reply, Registered options host key reply s) (Talking options host) := by
  have closes (error : Bytes) : Triple (Talking options host)
      (do closeConnection; throw error : Program Control Bytes Unit)
      (fun _ s => ∃ key reply, Registered options host key reply s) (Talking options host) :=
    closeConnection_talking.bind fun _ => triple_throw fun _ => id
  unfold start
  refine Triple.bind stop_talking fun _ => Triple.tryCatch ?_ closes
  refine Triple.bind (connectControl_talking options) fun _ => ?_
  exact Triple.bind authenticate_talking fun _ => add_registers

end Conversations

/-- The key file over the processes of a server, the service of the one that runs, and the names that
services have had. -/
structure Deployment where
  keyFile : KeyFile
  service : OnionService
  names : List Bytes := []

def idleService : OnionService where
  descriptor := none
  serviceId := []
  hostname := []
  controlEndpoint := []
  readBuffer := []

/-- The name of a service that was started. -/
def gained (result : Except Bytes Unit) (control : Control) : List Bytes :=
  match result with
  | .ok () => [control.service.hostname]
  | .error _ => []

/-- Tor names a service after its key, also after one that it has made. -/
def Derives (idOf : Bytes → Bytes) (options : Options) (trace : List Event) : Prop :=
  ∀ earlier transport key reply, trace = earlier ++ [.sent transport (addCommand options key), .replied reply] →
    reply.status = 250 → replyValue reply (ascii "ServiceID=") =
      idOf (if key = newKey then replyValue reply (ascii "PrivateKey=") else key)

inductive DeploymentLabel where
  | start (options : Options) (trace : List Event)
  | internal

section Deployments
variable (hmacSha256 : (key message : Bytes) → Bytes) (idOf : Bytes → Bytes)

inductive DeploymentStep : Deployment → DeploymentLabel → Deployment → Prop where
  | start {s : Deployment} {host : Host} {options : Options} {control : Control} {result : Except Bytes Unit} :
      host.keyFile = s.keyFile →
      Triples.outcome (start hmacSha256 options) { service := s.service, host, trace := [] } = (result, control) →
      Derives idOf options control.trace →
      DeploymentStep s (.start options control.trace)
        { keyFile := control.host.keyFile, service := control.service, names := s.names ++ gained result control }
  -- the process ends in a start, before the key file is in its place or after
  | died {s : Deployment} {host : Host} {options : Options} {control : Control} {keyFile : KeyFile}
      {result : Except Bytes Unit} : host.keyFile = s.keyFile →
      Triples.outcome (start hmacSha256 options) { service := s.service, host, trace := [] } = (result, control) →
      keyFile = s.keyFile ∨ keyFile = control.host.keyFile →
      DeploymentStep s (.start options control.trace) { s with keyFile, service := idleService }
  | stop {s : Deployment} {host : Host} {control : Control} {result : Except Bytes Unit} :
      Triples.outcome stop { service := s.service, host, trace := [] } = (result, control) →
      DeploymentStep s .internal { s with service := control.service }
  | exit {s : Deployment} : DeploymentStep s .internal { s with service := idleService }

/-- All histories of a server whose key file is this one at first. -/
def deployments (file : KeyFile) : Machine Deployment DeploymentLabel where
  init s := s = { keyFile := file, service := idleService }
  step := DeploymentStep hmacSha256 idOf

/-- Every name is that of the stored key. -/
structure Identified (file : KeyFile) (s : Deployment) : Prop where
  names : ∀ name ∈ s.names, ∃ key, loadPrivateKey s.keyFile = .valid key ∧ name = idOf key ++ ascii ".onion"
  kept : file ≠ .missing → s.keyFile = file

end Deployments

section Histories
variable {hmacSha256 : (key message : Bytes) → Bytes} {idOf : Bytes → Bytes} {options : Options} {host : Host}
  {service : OnionService} {control : Control} {result : Except Bytes Unit} {file : KeyFile}

theorem newKey_invalid : validPrivateKey newKey = false := by
  decide +kernel

/-- What a start comes to. -/
theorem start_comes
    (is : Triples.outcome (start hmacSha256 options) { service, host, trace := [] } = (result, control)) :
    Asked options host.keyFile control.trace ∧ (host.keyFile ≠ .missing → control.host.keyFile = host.keyFile) ∧
      (result = .ok () → ∃ key reply, Registered options host key reply control) := by
  have came := (@start_registers hmacSha256 host options).comes
    { service, host, trace := [] } ⟨rfl, nofun⟩
  rw [is] at came
  cases result with
  | ok _ =>
    obtain ⟨key, reply, registered⟩ := came
    refine ⟨registered.asked, fun present => ?_, fun _ => ⟨key, reply, registered⟩⟩
    cases load : loadPrivateKey host.keyFile with
    | missing => exact absurd (load_missing load) present
    | valid stored => rw [registered.kept stored load]
    | invalid =>
      cases registered.presented with
      | stored known => cases load.symm.trans known
      | generated known => cases load.symm.trans known
  | error e => exact ⟨came.asked, fun _ => by rw [came.same], nofun⟩

/-- The name of a service that was started is that of the key which is stored then. -/
theorem registered_name {key : Bytes} {reply : Reply} (registered : Registered options host key reply control)
    (derives : Derives idOf options control.trace) : ∃ stored, loadPrivateKey control.host.keyFile = .valid stored ∧
      control.service.hostname = idOf stored ++ ascii ".onion" := by
  obtain ⟨earlier, transport, trace⟩ := registered.last
  have serviceId := derives earlier transport key reply trace registered.status
  cases registered.presented with
  | stored known =>
    have other : key ≠ newKey := by
      rintro rfl
      exact absurd (load_valid known) (by simp [newKey_invalid])
    rw [if_neg other] at serviceId
    refine ⟨key, ?_, by rw [registered.hostname, serviceId]⟩
    rw [registered.kept key known]
    exact known
  | generated missing =>
    rw [if_pos rfl] at serviceId
    exact ⟨_, registered.saved missing, by rw [registered.hostname, serviceId]⟩

theorem gained_name {name : Bytes}
    (is : Triples.outcome (start hmacSha256 options) { service, host, trace := [] } = (result, control))
    (derives : Derives idOf options control.trace) (member : name ∈ gained result control) :
    ∃ stored, loadPrivateKey control.host.keyFile = .valid stored ∧ name = idOf stored ++ ascii ".onion" := by
  cases result with
  | error e => exact absurd member List.not_mem_nil
  | ok _ =>
    obtain ⟨key, reply, registered⟩ := (start_comes is).2.2 rfl
    rw [List.mem_singleton.mp member]
    exact registered_name registered derives

/-- A key file that is there is left as it is. -/
theorem keyFile_step {s t : Deployment} {l : DeploymentLabel} (present : s.keyFile ≠ .missing)
    (step : DeploymentStep hmacSha256 idOf s l t) : t.keyFile = s.keyFile := by
  cases step with
  | start before is derives =>
    rw [← before] at present ⊢
    exact (start_comes is).2.1 present
  | died before is either =>
    rcases either with unchanged | stored
    · exact unchanged
    · rw [← before] at present ⊢
      exact stored.trans ((start_comes is).2.1 present)
  | stop => rfl
  | exit => rfl

theorem keyFile_path {s t : Deployment} (present : s.keyFile ≠ .missing)
    (path : Relation.ReflTransGen (fun a b => ∃ l, DeploymentStep hmacSha256 idOf a l b) s t) :
    t.keyFile = s.keyFile := by
  induction path with
  | refl => rfl
  | tail _ step ih =>
    obtain ⟨l, step⟩ := step
    rw [keyFile_step (by rwa [ih]) step, ih]

theorem identified_step {s t : Deployment} {l : DeploymentLabel} (identified : Identified idOf file s)
    (step : DeploymentStep hmacSha256 idOf s l t) : Identified idOf file t := by
  have same := fun present => keyFile_step present step
  have names : ∀ name ∈ s.names, ∃ key, loadPrivateKey t.keyFile = .valid key ∧
      name = idOf key ++ ascii ".onion" := by
    intro name member
    obtain ⟨key, known, is⟩ := identified.names name member
    have present : s.keyFile ≠ .missing := by
      intro missing
      rw [missing] at known
      cases known
    exact ⟨key, by rw [same present, known], is⟩
  refine ⟨?_, fun given => ?_⟩
  · cases step with
    | start before is derives =>
      intro name member
      rcases List.mem_append.mp member with old | new
      · exact names name old
      · exact gained_name is derives new
    | died => exact names
    | stop => exact names
    | exit => exact names
  · have kept := identified.kept given
    rw [same (by rwa [kept]), kept]

/-- The address of a server is kept. In every history of starts, stops and ends of its process, all its
services have the name of the key that is stored, a key file that is there at any point is never replaced,
and once a service has had a name, services are only added with that key. -/
theorem onion_identity {s : Deployment} (reached : (deployments hmacSha256 idOf file).Reachable s) :
    (∀ name ∈ s.names, ∃ key, loadPrivateKey s.keyFile = .valid key ∧ name = idOf key ++ ascii ".onion") ∧
      (file ≠ .missing → s.keyFile = file) ∧
      (s.keyFile ≠ .missing → ∀ t,
        Relation.ReflTransGen (fun a b => ∃ l, DeploymentStep hmacSha256 idOf a l b) s t → t.keyFile = s.keyFile) ∧
      ∀ options trace t, DeploymentStep hmacSha256 idOf s (.start options trace) t →
        ∀ name ∈ s.names, ∀ transport command, .sent transport command ∈ trace → ascii "ADD_ONION" <+: command →
          ∃ key, name = idOf key ++ ascii ".onion" ∧ command = addCommand options key := by
  have identified : Identified idOf file s := by
    refine reached.invariant ?_ fun _ identified step => identified_step identified step
    rintro _ rfl
    exact ⟨nofun, fun _ => rfl⟩
  refine ⟨identified.names, identified.kept, fun present t path => keyFile_path present path, ?_⟩
  intro options trace t step name member transport command sent starts
  obtain ⟨key, known, derived⟩ := identified.names name member
  have carried : ∀ host : Host, host.keyFile = s.keyFile → Asked options host.keyFile trace →
      command = addCommand options key := by
    intro host same asked
    obtain ⟨presented, which, given⟩ := asked transport command sent starts
    rw [same] at which
    cases which with
    | stored load =>
      cases known.symm.trans load
      exact given
    | generated load => cases known.symm.trans load
  cases step with
  | start before is => exact ⟨key, derived, carried _ before (start_comes is).1⟩
  | died before is => exact ⟨key, derived, carried _ before (start_comes is).1⟩

/-- An endpoint that makes a key. -/
def serviceFirst : Bytes := List.replicate 56 0x61

def generous : Connection where
  arrivals :=
    [.received (ascii "250-AUTH METHODS=NULL\r\n250 OK\r\n250 OK\r\n"),
      .received (ascii "250-ServiceID=" ++ serviceFirst ++ ascii "\r\n250-PrivateKey=ED25519-V3:" ++
        List.replicate 86 0x41 ++ ascii "==\r\n250 OK\r\n")]
  sends := [.sent 1000, .sent 1000, .sent 1000]

def hostFirst : Host where
  unix := .ok generous
  tcp := .error []
  files _ := none
  nonce := none
  keyFile := .missing
  saving := ⟨true, true, true, true, true, true, true⟩

def optionsFirst : Options := ⟨ascii "control", ascii "127.0.0.1", 9051, ascii "key", ascii "127.0.0.1", 8080, 80⟩

def startedFirst : Except Bytes Unit × Control :=
  Triples.outcome (start (fun _ _ => []) optionsFirst) { service := idleService, host := hostFirst, trace := [] }

theorem startedFirst_named : gained startedFirst.1 startedFirst.2 = [serviceFirst ++ ascii ".onion"] := by
  decide +kernel

/-- The last reply names that service. -/
theorem startedFirst_reply : (match startedFirst.2.trace.getLast? with
    | some (.replied reply) => decide (replyValue reply (ascii "ServiceID=") = serviceFirst)
    | _ => false) = true := by
  decide +kernel

/-- The server has a service and has stored its key. -/
theorem onion_identity_first : ∃ s name, (deployments (fun _ _ => []) (fun _ => serviceFirst) .missing).Reachable s ∧
    s.names = [name] ∧ ∃ key, loadPrivateKey s.keyFile = .valid key ∧ name = serviceFirst ++ ascii ".onion" := by
  have begun : (deployments (fun _ _ => []) (fun _ => serviceFirst) .missing).Reachable
      { keyFile := .missing, service := idleService } := .start rfl
  have named := startedFirst_named
  have last := startedFirst_reply
  rcases came : startedFirst with ⟨result, control⟩
  rw [came] at named last
  have derives : Derives (fun _ => serviceFirst) optionsFirst control.trace := by
    intro earlier transport key reply is _
    dsimp only at last
    rw [is, List.getLast?_append] at last
    simpa using last
  have step : DeploymentStep (fun _ _ => []) (fun _ => serviceFirst) { keyFile := .missing, service := idleService }
      (.start optionsFirst control.trace)
      { keyFile := control.host.keyFile, service := control.service, names := [] ++ gained result control } :=
    .start (show hostFirst.keyFile = .missing from rfl) came derives
  have started := begun.next step
  refine ⟨_, serviceFirst ++ ascii ".onion", started, named, ?_⟩
  apply (onion_identity started).1
  rw [List.nil_append, named]
  exact List.mem_singleton_self _

end Histories

end Conspire.Tor
