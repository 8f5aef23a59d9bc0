import Conspire.Library.Machine
import Conspire.Server.Peer

/-! Messages into a peer (`Peer::readMessage`). A transport hands over the payload
of a message in parts and an empty part at its end. The parts are collected in
one buffer for all transports of the peer; the binding decides who may add to it. -/
namespace Conspire
open Session Transition

/-- What `readMessage` does with a part, up to the dispatch of a whole message. -/
inductive Inbound where
  | ignored | stored | tooLarge
  | whole (message : Bytes)
  deriving DecidableEq, Repr

/-- `readMessage` under `m_transportLock`; `recordProtocolError` belongs to the
error that a too large message is answered with. -/
def Peer.receive (config : ConfigDto) (peer : Peer) (socket : Socket) (data : Bytes) (now : TimePoint) :
    Peer × Inbound :=
  if some socket ≠ peer.socket then (peer, .ignored)
  else
    let peer := { peer with heartbeat := (peer.heartbeat.inbound now peer.socketGeneration).1 }
    let position := peer.messageBuffer.length
    if data ≠ [] ∧ (config.maxMessageSizeBytes < position ∨
        config.maxMessageSizeBytes - position < data.length) then
      ((peer.selectCloseReasonLocked .protocolError).1, .tooLarge)
    else if data = [] then ({ peer with messageBuffer := [] }, .whole peer.messageBuffer)
    else ({ peer with messageBuffer := peer.messageBuffer ++ data }, .stored)

namespace Transport

/-- `bound` are the transports that have been the peer's: only then is the peer
their listener. A transport in `failed` delivers nothing more. -/
structure Inbox where
  peer : Peer
  bound : List Socket
  failed : Socket → Bool := fun _ => false

inductive InboxLabel where
  | bind (socket : Socket)
  | detach (socket : Socket) (current : Bool)
  | deliver (socket : Socket) (data : Bytes) (outcome : Inbound)

variable (config : ConfigDto) (first : Socket)

inductive InboxStep : Inbox → InboxLabel → Inbox → Prop where
  | bind : socket ∉ s.bound →
      InboxStep s (.bind socket)
        { s with peer := (s.peer.replaceSocket socket now).1, bound := socket :: s.bound }
  | detach : s.peer.detachIfCurrent socket = (next, current) →
      InboxStep s (.detach socket current) { s with peer := next }
  -- the handler of a whole message may fail, that of a too large one does
  | deliver : socket ∈ s.bound → s.failed socket = false →
      s.peer.receive config socket data now = (next, outcome) →
      (outcome = .tooLarge → fails = true) →
      InboxStep s (.deliver socket data outcome)
        { s with peer := next, failed := Function.update s.failed socket fails }

/-- All runs of one peer, constructed for the transport `first`. -/
def inbox : Machine Inbox InboxLabel where
  init s := ∃ room nickname id now,
    s = { peer := Peer.create first room nickname id now, bound := [first] }
  step := InboxStep config

variable {config first} {labels front middle back : List InboxLabel} {t : Socket}

/-- The transport that is current after these steps. -/
def current (first : Socket) (labels : List InboxLabel) : Option Socket :=
  labels.foldl (fun transport label =>
    match label with
    | .bind socket => some socket
    | .detach _ true => none
    | _ => transport) (some first)

/-- The parts a transport has delivered. -/
def fragments (t : Socket) (labels : List InboxLabel) : List Bytes :=
  labels.filterMap fun
    | .deliver socket data _ => if socket = t then some data else none
    | _ => none

/-- Those of the message it has not ended yet. -/
def pending (t : Socket) (labels : List InboxLabel) : List Bytes :=
  (fragments t labels).foldl (fun parts data => if data = [] then [] else parts ++ [data]) []

theorem current_snoc (label : InboxLabel) : current first (labels ++ [label]) =
    match label with
    | .bind socket => some socket
    | .detach _ true => none
    | _ => current first labels := by
  simp only [current, List.foldl_append, List.foldl_cons, List.foldl_nil]

theorem fragments_append : fragments t (front ++ back) = fragments t front ++ fragments t back :=
  List.filterMap_append

theorem pending_snoc_other (other : fragments t [label] = []) :
    pending t (labels ++ [label]) = pending t labels := by
  rw [pending, fragments_append, other, List.append_nil]
  rfl

/-- The buffer holds what the current transport has delivered of a message since
`before`, and the transport has been current all that time. -/
structure Collecting (first : Socket) (labels : List InboxLabel) (t : Socket) (buffer : Bytes)
    (before middle : List InboxLabel) : Prop where
  split : labels = before ++ middle
  fresh : pending t before = []
  held : ∀ part rest, middle = part ++ rest → current first (before ++ part) = some t
  unended : ∀ outcome, .deliver t [] outcome ∉ middle
  buffer : buffer = (fragments t middle).flatten

structure Fenced (config : ConfigDto) (first : Socket) (labels : List InboxLabel) (s : Inbox) : Prop where
  current : s.peer.socket = current first labels
  bound : ∀ t, s.peer.socket = some t → t ∈ s.bound
  unbound : ∀ t, t ∉ s.bound → fragments t labels = []
  size : s.peer.messageBuffer.length ≤ config.maxMessageSizeBytes
  collecting : ∀ t, s.peer.socket = some t → s.failed t = false →
    ∃ before middle, Collecting first labels t s.peer.messageBuffer before middle

theorem Collecting.start (fresh : pending t labels = []) (held : current first labels = some t) :
    Collecting first labels t [] labels [] := by
  refine ⟨(List.append_nil _).symm, fresh, fun part rest split => ?_, fun _ => List.not_mem_nil, rfl⟩
  obtain ⟨rfl, _⟩ := List.append_eq_nil_iff.mp split.symm
  rw [List.append_nil]
  exact held

theorem Collecting.extend {buffer : Bytes} (collecting : Collecting first labels t buffer before middle)
    (held : current first (labels ++ [l]) = some t) (unended : ∀ outcome, l ≠ .deliver t [] outcome) :
    Collecting first (labels ++ [l]) t (buffer ++ (fragments t [l]).flatten) before (middle ++ [l]) := by
  obtain ⟨rfl, fresh, throughout, inside, rfl⟩ := collecting
  refine ⟨by rw [List.append_assoc], fresh, fun part rest split => ?_, fun outcome => ?_, ?_⟩
  · rcases List.eq_nil_or_concat' rest with rfl | ⟨rest, last, rfl⟩
    · rw [List.append_nil] at split
      rw [← split, ← List.append_assoc]
      exact held
    · rw [← List.append_assoc] at split
      exact throughout part rest (List.append_inj' split rfl).1
  · rw [List.mem_append, List.mem_singleton]
    rintro (earlier | now)
    · exact inside outcome earlier
    · exact unended outcome now.symm
  · rw [fragments_append, List.flatten_append]

/-- The outcomes of a part, with what they say about the binding and the buffer. -/
inductive Received (config : ConfigDto) (peer : Peer) (socket : Socket) (data : Bytes) : Peer → Inbound → Prop where
  | ignored : peer.socket ≠ some socket → Received config peer socket data peer .ignored
  | tooLarge : peer.socket = some socket → next.socket = peer.socket →
      next.messageBuffer = peer.messageBuffer → Received config peer socket data next .tooLarge
  | whole : peer.socket = some socket → data = [] → next.socket = peer.socket →
      next.messageBuffer = [] → Received config peer socket data next (.whole peer.messageBuffer)
  | stored : peer.socket = some socket → data ≠ [] → next.socket = peer.socket →
      next.messageBuffer = peer.messageBuffer ++ data →
      next.messageBuffer.length ≤ config.maxMessageSizeBytes →
      Received config peer socket data next .stored

theorem received {peer : Peer} {socket : Socket} {data : Bytes}
    (h : peer.receive config socket data now = (next, outcome)) :
    Received config peer socket data next outcome := by
  unfold Peer.receive at h
  dsimp only at h
  split at h
  · rename_i stale
    cases h
    exact .ignored fun same => stale same.symm
  · rename_i held
    rw [not_not] at held
    split at h
    · cases h
      exact .tooLarge held.symm rfl rfl
    · rename_i fits
      split at h
      · cases h
        exact .whole held.symm ‹_› rfl rfl
      · rename_i filled
        cases h
        refine .stored held.symm filled rfl rfl ?_
        simp only [List.length_append]
        have := not_or.mp fun large => fits ⟨filled, large⟩
        omega

theorem fenced_step (fenced : Fenced config first labels s) (step : InboxStep config s l next) :
    Fenced config first (labels ++ [l]) next := by
  cases step with
  | bind fresh =>
    rename_i socket now
    have silent : fragments socket [InboxLabel.bind socket] = [] := rfl
    refine ⟨by rw [current_snoc]; rfl, ?_, ?_, Nat.zero_le _, ?_⟩
    · rintro t ⟨⟩
      exact List.mem_cons_self
    · intro t outside
      rw [List.mem_cons, not_or] at outside
      rw [fragments_append, fenced.unbound t outside.2]
      rfl
    · rintro t ⟨⟩ _
      refine ⟨_, _, .start ?_ (by rw [current_snoc])⟩
      rw [pending_snoc_other silent, pending, fenced.unbound _ fresh]
      rfl
  | detach detached =>
    rename_i peer known socket
    obtain ⟨rfl, rfl⟩ | ⟨rfl, _, gone, same⟩ := Peer.detachIfCurrent_eq detached
    · have kept : current first (labels ++ [.detach socket false]) = current first labels := by
        rw [current_snoc]
      refine ⟨by rw [kept]; exact fenced.current, fenced.bound, fun t outside => ?_, fenced.size, ?_⟩
      · rw [fragments_append, fenced.unbound t outside]
        rfl
      · intro t held alive
        obtain ⟨before, middle, collecting⟩ := fenced.collecting t held alive
        have extended := collecting.extend (l := .detach socket false)
          (by rw [kept, ← fenced.current]; exact held) (fun _ => nofun)
        exact ⟨before, _, by simpa [fragments] using extended⟩
    · refine ⟨by rw [current_snoc]; exact gone, ?_, fun t outside => ?_, ?_, ?_⟩
      · intro t held
        cases gone.symm.trans held
      · rw [fragments_append, fenced.unbound t outside]
        rfl
      · rw [same]
        exact fenced.size
      · intro t held
        cases gone.symm.trans held
  | deliver member alive h fails =>
    rename_i socket peer outcome failing data now
    have kept : current first (labels ++ [.deliver socket data outcome]) = current first labels := by
      rw [current_snoc]
    have unbound : ∀ t, t ∉ s.bound → fragments t (labels ++ [.deliver socket data outcome]) = [] := by
      intro t outside
      have other : socket ≠ t := fun same => outside (same ▸ member)
      rw [fragments_append, fenced.unbound t outside]
      simp [fragments, other]
    have result := received h
    have socket_eq : peer.socket = s.peer.socket := by
      cases result with
      | ignored => rfl
      | tooLarge _ same => exact same
      | whole _ _ same => exact same
      | stored _ _ same => exact same
    refine ⟨by rw [kept, socket_eq]; exact fenced.current, ?_, unbound, ?_, ?_⟩
    · intro t held
      exact fenced.bound t (by rw [← socket_eq]; exact held)
    · cases result with
      | ignored => exact fenced.size
      | tooLarge _ _ same => rw [same]; exact fenced.size
      | whole _ _ _ empty => rw [empty]; exact Nat.zero_le _
      | stored _ _ _ _ fits => exact fits
    · intro t held working
      rw [socket_eq] at held
      have now : current first (labels ++ [.deliver socket data outcome]) = some t := by
        rw [kept, ← fenced.current]
        exact held
      have earlier : socket ≠ t → s.failed t = false := by
        intro other
        simpa [Function.update_of_ne (Ne.symm other)] using working
      cases result with
      | ignored stale =>
        have other : socket ≠ t := fun same => stale (same ▸ held)
        obtain ⟨before, middle, collecting⟩ := fenced.collecting t held (earlier other)
        have extended := collecting.extend now (fun _ same => by cases same; exact other rfl)
        exact ⟨before, _, by simpa [fragments, other] using extended⟩
      | tooLarge own =>
        cases own.symm.trans held
        simp [fails rfl] at working
      | whole own ended _ empty =>
        cases own.symm.trans held
        subst ended
        rw [empty]
        refine ⟨_, _, .start ?_ now⟩
        simp [pending, fragments]
      | stored own filled _ appended =>
        cases own.symm.trans held
        obtain ⟨before, middle, collecting⟩ := fenced.collecting socket held alive
        have extended := collecting.extend now (fun _ same => by cases same; exact filled rfl)
        rw [appended]
        exact ⟨before, _, by simpa [fragments] using extended⟩

theorem fenced_run (run : (inbox config first).Run labels s) : Fenced config first labels s := by
  induction run with
  | start initial =>
    obtain ⟨room, nickname, id, now, rfl⟩ := initial
    refine ⟨rfl, ?_, fun _ _ => rfl, Nat.zero_le _, ?_⟩
    · rintro t ⟨⟩
      exact List.mem_cons_self
    · rintro t ⟨⟩ _
      exact ⟨[], [], .start rfl rfl⟩
  | next _ step fenced => exact fenced_step fenced step

/-- What a step delivers, with the fence before it. -/
theorem fenced_before (run : (inbox config first).Run labels s) :
    ∀ {front l back}, labels = front ++ l :: back →
      ∃ before after, Fenced config first front before ∧ InboxStep config before l after := by
  induction run with
  | start =>
    intro front l back split
    simp at split
  | next run step ih =>
    intro front l back split
    rcases List.eq_nil_or_concat' back with rfl | ⟨earlier, last, rfl⟩
    · obtain ⟨rfl, is⟩ := List.append_inj' split rfl
      cases is
      exact ⟨_, _, fenced_run run, step⟩
    · rw [← List.cons_append, ← List.append_assoc] at split
      exact ih (List.append_inj' split rfl).1

/-- A dispatched message is what one transport has delivered of one message, while
it was current all the time; what any other transport delivers is ignored. -/
theorem inbound_fenced (run : (inbox config first).Run labels s)
    (split : labels = front ++ .deliver t data outcome :: back) :
    (current first front ≠ some t → outcome = .ignored) ∧
    ∀ message, outcome = .whole message → data = [] ∧
      message.length ≤ config.maxMessageSizeBytes ∧
      ∃ before middle, front = before ++ middle ∧ pending t before = [] ∧
        (∀ part rest, middle = part ++ rest → current first (before ++ part) = some t) ∧
        (∀ outcome, .deliver t [] outcome ∉ middle) ∧
        message = (fragments t middle).flatten := by
  obtain ⟨before, after, fenced, step⟩ := fenced_before run split
  cases step with
  | deliver member alive h =>
    have result := received h
    refine ⟨fun stale => ?_, ?_⟩
    · rw [← fenced.current] at stale
      cases result with
      | ignored => rfl
      | tooLarge own => exact absurd own stale
      | whole own => exact absurd own stale
      | stored own => exact absurd own stale
    · rintro message rfl
      cases result with
      | whole own ended =>
        obtain ⟨first, middle, collecting⟩ := fenced.collecting t own alive
        exact ⟨ended, fenced.size, first, middle, collecting.split, collecting.fresh,
          collecting.held, collecting.unended, collecting.buffer⟩

/-- The parts before a message of transport 1: transport 0 was replaced within a message. -/
def replacedFirst : List InboxLabel :=
  [.deliver 0 [0x41] .stored, .bind 1, .deliver 0 [] .ignored,
    .deliver 1 [0x42] .stored, .deliver 1 [0x43] .stored]

/-- A message of two parts is dispatched without what the replaced transport has left. -/
theorem inbound_fenced_first :
    ∃ s, (inbox {} 0).Run (replacedFirst ++ [.deliver 1 [] (.whole [0x42, 0x43])]) s ∧
      ∃ before middle, replacedFirst = before ++ middle ∧
        (∀ part rest, middle = part ++ rest → current 0 (before ++ part) = some 1) ∧
        [0x42, 0x43] = (fragments 1 middle).flatten := by
  have start : (inbox {} 0).Run [] { peer := Peer.create 0 0 [] 1 0, bound := [0] } :=
    .start ⟨0, [], 1, 0, rfl⟩
  have left := start.next (@InboxStep.deliver {} 0 _ .stored false _ [0x41] 0 (.head _) rfl rfl nofun)
  have replaced := left.next (@InboxStep.bind {} 1 _ 0 (by decide))
  have ignored := replaced.next (@InboxStep.deliver {} 0 _ .ignored false _ [] 0 (.tail _ (.head _)) rfl rfl nofun)
  have second := ignored.next (@InboxStep.deliver {} 1 _ .stored false _ [0x42] 0 (.head _) rfl rfl nofun)
  have third := second.next (@InboxStep.deliver {} 1 _ .stored false _ [0x43] 0 (.head _) rfl rfl nofun)
  have run := third.next (@InboxStep.deliver {} 1 _ (.whole [0x42, 0x43]) false _ [] 0 (.head _) rfl rfl nofun)
  obtain ⟨_, _, before, middle, split, _, held, _, whole⟩ := (inbound_fenced run rfl).2 [0x42, 0x43] rfl
  exact ⟨_, run, before, middle, split, held, whole⟩

end Transport
end Conspire
