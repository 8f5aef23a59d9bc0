import Conspire.Browser.Transport
import Conspire.Library.Machine
import Conspire.Library.Rounding
import Mathlib.Logic.Function.Basic

/-! The sockets and timers of a `ReconnectingTransport`. The methods are those of
`Browser.Transport` with their effects on the page's world: which sockets exist,
with the generation their handlers have closed over, and which timers are
pending. Callbacks are separate calls, made after the handler that runs them. -/
namespace Conspire.Browser
open Transition Rounding

/-- Sockets are numbered in the order of their creation. -/
structure Owner where
  transport : ReconnectingTransport := {}
  timers : List Nat := []
  created : Nat := 0
  generations : Socket → Nat := fun _ => 0
  closed : Socket → Bool := fun _ => false
  reported : Socket → Bool := fun _ => false

namespace Owner
variable (o : Owner)

/-- Neither closed by the transport nor reported closed. -/
def live (socket : Socket) : Prop :=
  socket < o.created ∧ o.closed socket = false ∧ o.reported socket = false

/-- `Math.floor(this.random() * cap)` -/
def delay (random : Fraction) : Nat := floorMul random (backoffCap o.transport.attempts)

def clearRetry : Owner :=
  { o with transport := o.transport.clearRetry
           timers := match o.transport.timer with
             | none => o.timers
             | some delay => o.timers.erase delay }

def retry (generation : Nat) (random : Fraction) : Owner :=
  if o.transport.stopped || generation ≠ o.transport.generation || o.transport.timer.isSome then o
  else { o with transport := o.transport.retry generation (o.delay random)
                timers := o.timers ++ [o.delay random] }

/-- `++this.generation`, and the state that goes with it. -/
def supersede (state : TransportState) : Owner :=
  { o with transport := { o.transport with state, generation := o.transport.generation + 1 } }

/-- `throws` is whether `createSocket` throws. -/
def connect (throws : Bool) (random : Fraction) : Owner :=
  if o.transport.stopped || o.transport.state = .connecting || o.transport.state = .handshaking then o
  else
    let next := o.clearRetry.supersede .connecting
    if throws then next.retry next.transport.generation random
    else { next with transport := { next.transport with socket := some o.created }
                     created := o.created + 1
                     generations := Function.update o.generations o.created next.transport.generation }

/-- `this.stopped = false` -/
def unstop : Owner := { o with transport := { o.transport with stopped := false } }

def start (throws : Bool) (random : Fraction) : Owner := o.unstop.connect throws random

/-- `this.socket?.close(); this.socket = null;` -/
def closeSocket : Owner :=
  { o with transport := { o.transport with socket := none }
           closed := match o.transport.socket with
             | none => o.closed
             | some socket => Function.update o.closed socket true }

def stop : Owner :=
  let next := { o with transport := { o.transport with stopped := true } }.clearRetry.closeSocket
  { next with transport := { next.transport with state := .stopped } }

def ready : Owner :=
  if o.transport.stopped then o
  else
    let next := o.clearRetry
    { next with transport := { next.transport with attempts := 0, state := .online } }

def reconnectNow (throws : Bool) (random : Fraction) : Owner :=
  if o.transport.stopped then o
  else (o.clearRetry.supersede .idle).closeSocket.connect throws random

/-- `onInvalidSession` does not touch the transport. -/
def invalidSession (random : Fraction) : Owner := o.retry o.transport.generation random

/-- `this.timer = null` in the callback of the timer that fires. -/
def disarm (delay : Nat) : Owner :=
  { o with transport := { o.transport with timer := none }, timers := o.timers.erase delay }

def fireTimer (delay : Nat) (throws : Bool) (random : Fraction) : Owner :=
  (o.disarm delay).connect throws random

def onopen (socket : Socket) : Owner :=
  { o with transport := o.transport.opened (o.generations socket) }

def onclose (socket : Socket) (random : Fraction) : Owner :=
  let next := { o with reported := Function.update o.reported socket true }
  if o.transport.admits (o.generations socket) then next.retry (o.generations socket) random else next

/-- A socket that is reported closed fires no more, unless it is superseded:
of those any late event is allowed. -/
def fires (socket : Socket) : Prop :=
  socket < o.created ∧
    (o.reported socket = false ∨ o.generations socket ≠ o.transport.generation)

end Owner

inductive SocketEvent where
  | opened | message | closed | error
  deriving DecidableEq, Repr

/-- A call says whether it transmits, an event whether `onOpen` or `onMessage` runs. -/
inductive OwnerLabel where
  | start | stop | connect | ready | reconnectNow | invalidSession
  | send (transmits : Bool)
  | hello (transmits : Bool)
  | event (socket : Socket) (event : SocketEvent) (runs : Bool)
  | timer (delay : Nat)

inductive OwnerStep : Owner → OwnerLabel → Owner → Prop where
  | start : OwnerStep o .start (o.start throws random)
  | stop : OwnerStep o .stop o.stop
  | connect : OwnerStep o .connect (o.connect throws random)
  | ready : OwnerStep o .ready o.ready
  | reconnectNow : OwnerStep o .reconnectNow (o.reconnectNow throws random)
  | invalidSession : OwnerStep o .invalidSession (o.invalidSession random)
  | send : transmits = o.transport.sends isOpen → OwnerStep o (.send transmits) o
  | hello : transmits = o.transport.sendsHello isOpen → OwnerStep o (.hello transmits) o
  | opened : o.fires socket →
      OwnerStep o (.event socket .opened (o.transport.admits (o.generations socket))) (o.onopen socket)
  | message : o.fires socket →
      OwnerStep o (.event socket .message (o.transport.admits (o.generations socket))) o
  | error : o.fires socket → OwnerStep o (.event socket .error false) o
  | closed : o.fires socket → OwnerStep o (.event socket .closed false) (o.onclose socket random)
  | timer : delay ∈ o.timers → OwnerStep o (.timer delay) (o.fireTimer delay throws random)

/-- All runs of one transport, from its construction. -/
def owner : Machine Owner OwnerLabel where
  init o := o = {}
  step := OwnerStep

namespace Owner
variable {o : Owner} {throws : Bool} {random : Fraction}

/-- The connection the page's transport makes is this one. -/
theorem connect_transport :
    (o.connect throws random).transport =
      o.transport.connect (if throws then none else some o.created) (o.delay random) := by
  unfold connect ReconnectingTransport.connect
  split
  · rfl
  · cases throws with
    | false => rfl
    | true =>
      rename_i guard
      simp only [Bool.or_eq_true, not_or, Bool.not_eq_true] at guard
      simp [retry, supersede, clearRetry, ReconnectingTransport.clearRetry, delay,
        ReconnectingTransport.retry, guard.1.1]

theorem retry_transport (o : Owner) (generation : Nat) (random : Fraction) :
    (o.retry generation random).transport = o.transport.retry generation (o.delay random) := by
  unfold retry ReconnectingTransport.retry
  split <;> rfl

/-- The world moves its transport as the page does. -/
theorem moves_step (step : OwnerStep o l next) : o.transport.Moves next.transport := by
  cases step with
  | start =>
    rw [Owner.start, connect_transport]
    exact .start
  | stop => exact .stop
  | connect =>
    rw [connect_transport]
    exact .connect
  | ready =>
    have same : o.ready.transport = o.transport.ready := by
      unfold Owner.ready ReconnectingTransport.ready
      split <;> rfl
    rw [same]
    exact .ready
  | @reconnectNow _ throws random =>
    unfold Owner.reconnectNow
    split
    · exact .stays
    · rename_i running
      rw [connect_transport]
      have moves : o.transport.Moves (o.transport.reconnectNow
        (if throws then none else some o.created) (o.delay random)) := .reconnectNow
      rwa [ReconnectingTransport.reconnectNow, if_neg running] at moves
  | invalidSession =>
    rw [invalidSession, retry_transport]
    exact .retry
  | opened => exact .opened _
  | @closed _ socket random =>
    have moves : o.transport.Moves (o.transport.closed (o.generations socket) (o.delay random)) :=
      .closed ..
    unfold ReconnectingTransport.closed at moves
    unfold onclose
    dsimp only
    split
    · rename_i admitted
      rw [if_pos admitted] at moves
      rw [retry_transport]
      exact moves
    · exact .stays
  | timer =>
    rw [fireTimer, connect_transport]
    exact .timer
  | _ => exact .stays

/-- Pending timers are the transport's own, and a stopped transport has nothing. -/
structure Tidy (o : Owner) : Prop where
  timers : o.timers = o.transport.timer.toList
  halted : o.transport.stopped = true →
    o.transport.timer = none ∧ o.transport.socket = none ∧ o.transport.state = .stopped
  older : ∀ k < o.created, o.generations k ≤ o.transport.generation

theorem clearRetry_eq (timers : o.timers = o.transport.timer.toList) :
    o.clearRetry = { o with transport := { o.transport with timer := none }, timers := [] } := by
  unfold Owner.clearRetry ReconnectingTransport.clearRetry
  cases known : o.transport.timer with
  | none => simp [timers, known]
  | some delay => simp [timers, known]

/-- A retry is ignored, or it schedules the one pending timer. -/
inductive Retried (o : Owner) (generation delay : Nat) : Owner → Prop where
  | ignored : Retried o generation delay o
  | scheduled : o.transport.stopped = false → generation = o.transport.generation →
      o.transport.timer = none →
      Retried o generation delay
        { o with transport := { o.transport with
                    attempts := o.transport.attempts + 1, state := .backoff, timer := some delay }
                 timers := o.timers ++ [delay] }

theorem retried (o : Owner) (generation : Nat) (random : Fraction) :
    Retried o generation (o.delay random) (o.retry generation random) := by
  unfold retry
  split
  · exact .ignored
  · rename_i guard
    have conditions := guard
    simp only [Bool.or_eq_true, not_or, Bool.not_eq_true, decide_eq_false_iff_not, not_not,
      Option.isSome_eq_false_iff, Option.isNone_iff_eq_none] at conditions
    rw [ReconnectingTransport.retry, if_neg guard]
    exact .scheduled conditions.1.1 conditions.1.2 conditions.2

/-- A connection is refused while one is under way; otherwise `createSocket`
throws and a retry is scheduled, or there is a new socket. -/
inductive Connected (o : Owner) (delay : Nat) : Owner → Prop where
  | refused : o.transport.stopped = true ∨ o.transport.state = .connecting ∨
        o.transport.state = .handshaking → Connected o delay o
  | threw : o.transport.stopped = false → o.transport.state ≠ .connecting →
      o.transport.state ≠ .handshaking →
      Connected o delay
        { o with transport := { o.transport with
                    generation := o.transport.generation + 1, attempts := o.transport.attempts + 1
                    state := .backoff, timer := some delay }
                 timers := [delay] }
  | made : o.transport.stopped = false → o.transport.state ≠ .connecting →
      o.transport.state ≠ .handshaking →
      Connected o delay
        { o with transport := { o.transport with
                    generation := o.transport.generation + 1, state := .connecting, timer := none
                    socket := some o.created }
                 timers := []
                 created := o.created + 1
                 generations :=
                   Function.update o.generations o.created (o.transport.generation + 1) }

theorem connected (tidy : o.Tidy) (throws : Bool) (random : Fraction) :
    Connected o (o.delay random) (o.connect throws random) := by
  rw [connect, clearRetry_eq tidy.timers]
  split
  · rename_i guard
    simp only [Bool.or_eq_true, decide_eq_true_eq, or_assoc] at guard
    exact .refused guard
  · rename_i guard
    simp only [Bool.or_eq_true, not_or, Bool.not_eq_true, decide_eq_false_iff_not] at guard
    obtain ⟨⟨running, idle⟩, ready⟩ := guard
    cases throws with
    | false => exact .made running idle ready
    | true =>
      simp only [if_true, retry, supersede, delay, ReconnectingTransport.retry, running, ne_eq,
        not_true_eq_false, decide_false, Bool.or_self, Option.isSome_none, Bool.false_eq_true, if_false]
      have threw : Connected o (o.delay random) _ := .threw running idle ready
      simpa only [running, delay, List.nil_append] using threw

theorem Tidy.cleared (tidy : o.Tidy) : o.clearRetry.Tidy := by
  rw [clearRetry_eq tidy.timers]
  exact ⟨rfl, fun stopped => ⟨rfl, (tidy.halted stopped).2⟩, tidy.older⟩

/-- `reconnectNow` gives its socket up before it connects. -/
theorem Tidy.abandoned (tidy : o.Tidy) (running : ¬o.transport.stopped = true) :
    (o.clearRetry.supersede .idle).closeSocket.Tidy := by
  rw [clearRetry_eq tidy.timers]
  exact ⟨rfl, fun stopped => absurd stopped running, fun k below => Nat.le_succ_of_le (tidy.older k below)⟩

theorem Tidy.connect (tidy : o.Tidy) : (o.connect throws random).Tidy := by
  have result := connected tidy throws random
  generalize o.connect throws random = next at result
  cases result with
  | refused => exact tidy
  | threw running =>
    exact ⟨rfl, by simp [running], fun k below => Nat.le_succ_of_le (tidy.older k below)⟩
  | made running =>
    refine ⟨rfl, by simp [running], fun k below => ?_⟩
    by_cases new : k = o.created
    · simp [new]
    · have old := tidy.older k (by simp only at below; omega)
      simpa [new] using Nat.le_succ_of_le old

theorem Tidy.retry (tidy : o.Tidy) (generation : Nat) : (o.retry generation random).Tidy := by
  have result := retried o generation random
  generalize o.retry generation random = next at result
  cases result with
  | ignored => exact tidy
  | scheduled running _ idle =>
    refine ⟨?_, by simp [running], tidy.older⟩
    simp [tidy.timers, idle]

theorem Tidy.unstop (tidy : o.Tidy) : o.unstop.Tidy := ⟨tidy.timers, nofun, tidy.older⟩

/-- A timer that fires is the transport's, and the only one. -/
theorem Tidy.fired {fired : Nat} (tidy : o.Tidy) (pending : fired ∈ o.timers) :
    o.transport.timer = some fired ∧ o.timers.erase fired = [] := by
  have timers := tidy.timers
  cases known : o.transport.timer with
  | none => simp [timers, known] at pending
  | some scheduled =>
    rw [known] at timers
    have same : fired = scheduled := by simpa [timers] using pending
    simp [timers, same]

theorem Tidy.disarm {fired : Nat} (tidy : o.Tidy) (pending : fired ∈ o.timers) :
    (o.disarm fired).Tidy := by
  obtain ⟨known, alone⟩ := tidy.fired pending
  refine ⟨alone, fun stopped => ?_, tidy.older⟩
  cases known.symm.trans (tidy.halted stopped).1

theorem tidy_step (tidy : o.Tidy) (step : OwnerStep o l next) : next.Tidy := by
  cases step with
  | start => exact tidy.unstop.connect
  | stop =>
    unfold stop
    rw [clearRetry_eq]
    · exact ⟨rfl, fun _ => ⟨rfl, rfl, rfl⟩, tidy.older⟩
    · exact tidy.timers
  | connect => exact tidy.connect
  | ready =>
    unfold ready
    split
    · exact tidy
    · rename_i running
      rw [clearRetry_eq tidy.timers]
      exact ⟨rfl, fun stopped => absurd stopped running, tidy.older⟩
  | reconnectNow =>
    unfold reconnectNow
    split
    · exact tidy
    · rename_i running
      exact (tidy.abandoned running).connect
  | invalidSession => exact tidy.retry _
  | send => exact tidy
  | hello => exact tidy
  | message => exact tidy
  | error => exact tidy
  | opened =>
    unfold onopen ReconnectingTransport.opened
    split
    · rename_i admitted
      simp only [ReconnectingTransport.admits, Bool.and_eq_true, Bool.not_eq_eq_eq_not, Bool.not_true] at admitted
      exact ⟨tidy.timers, fun stopped => by simp [admitted.2] at stopped, tidy.older⟩
    · exact tidy
  | closed =>
    unfold onclose
    have reported : ∀ flags, ({ o with reported := flags } : Owner).Tidy :=
      fun _ => ⟨tidy.timers, tidy.halted, tidy.older⟩
    dsimp only
    split
    · exact (reported _).retry _
    · exact reported _
  | timer pending => exact (tidy.disarm pending).connect

theorem tidy (reached : owner.Reachable o) : o.Tidy := by
  refine reached.invariant ?_ fun _ tidy step => tidy_step tidy step
  rintro _ rfl
  exact ⟨rfl, nofun, nofun⟩

/-- Generations only grow, and a new socket leaves all others behind. -/
structure Ages (o next : Owner) : Prop where
  later : o.transport.generation ≤ next.transport.generation
  within : o.created ≤ next.created
  kept : ∀ k < o.created, next.generations k = o.generations k
  fresh : ∀ k, k + 1 < next.created →
    k + 1 < o.created ∨ next.generations k < next.transport.generation

theorem Ages.same (transport : next.transport.generation = o.transport.generation)
    (created : next.created = o.created) (generations : next.generations = o.generations) :
    Ages o next :=
  ⟨Nat.le_of_eq transport.symm, Nat.le_of_eq created.symm, fun k _ => congrFun generations k,
    fun _ below => .inl (created ▸ below)⟩

theorem Ages.trans (first : Ages o middle) (second : Ages middle next) : Ages o next := by
  refine ⟨Nat.le_trans first.later second.later, Nat.le_trans first.within second.within, ?_, ?_⟩
  · intro k below
    rw [second.kept k (Nat.lt_of_lt_of_le below first.within), first.kept k below]
  · intro k below
    rcases second.fresh k below with before | older
    · rcases first.fresh k before with old | older
      · exact .inl old
      · rw [second.kept k (Nat.lt_of_succ_lt before)]
        exact .inr (Nat.lt_of_lt_of_le older second.later)
    · exact .inr older

theorem Ages.connect (tidy : o.Tidy) (throws : Bool) (random : Fraction) :
    Ages o (o.connect throws random) := by
  have result := connected tidy throws random
  generalize o.connect throws random = next at result
  cases result with
  | refused => exact .same rfl rfl rfl
  | threw => exact ⟨Nat.le_succ _, Nat.le_refl _, fun _ _ => rfl, fun _ => .inl⟩
  | made =>
    have kept : ∀ k < o.created,
        Function.update o.generations o.created (o.transport.generation + 1) k = o.generations k :=
      fun k below => Function.update_of_ne (Nat.ne_of_lt below) ..
    refine ⟨Nat.le_succ _, Nat.le_succ _, kept, fun k below => .inr ?_⟩
    have old : k < o.created := Nat.lt_of_succ_lt_succ below
    simp only [kept k old]
    exact Nat.lt_succ_of_le (tidy.older k old)

theorem Ages.retry (o : Owner) (generation : Nat) (random : Fraction) :
    Ages o (o.retry generation random) := by
  have result := retried o generation random
  generalize o.retry generation random = next at result
  cases result with
  | ignored => exact .same rfl rfl rfl
  | scheduled => exact .same rfl rfl rfl

/-- A connection of a transport that is not at it already begins a new generation. -/
theorem connect_newer (tidy : o.Tidy) (running : o.transport.stopped = false)
    (idle : o.transport.state ≠ .connecting) (ready : o.transport.state ≠ .handshaking) :
    o.transport.generation < (o.connect throws random).transport.generation := by
  have result := connected tidy throws random
  generalize o.connect throws random = next at result
  cases result with
  | refused busy => simp [running, idle, ready] at busy
  | threw => exact Nat.lt_succ_self _
  | made => exact Nat.lt_succ_self _

theorem ages_step (tidy : o.Tidy) (step : OwnerStep o l next) : Ages o next := by
  cases step with
  | start =>
    have unstopped : Ages o o.unstop := .same rfl rfl rfl
    exact unstopped.trans (.connect tidy.unstop ..)
  | connect => exact .connect tidy ..
  | stop => exact .same rfl rfl rfl
  | ready =>
    unfold ready
    split <;> exact .same rfl rfl rfl
  | reconnectNow =>
    unfold reconnectNow
    split
    · exact .same rfl rfl rfl
    · rename_i running
      have abandoned : Ages o (o.clearRetry.supersede .idle).closeSocket :=
        ⟨Nat.le_succ _, Nat.le_refl _, fun _ _ => rfl, fun _ => .inl⟩
      exact abandoned.trans (.connect (tidy.abandoned running) ..)
  | invalidSession => exact .retry ..
  | opened =>
    unfold onopen ReconnectingTransport.opened
    split <;> exact .same rfl rfl rfl
  | @closed _ socket =>
    have reported : Ages o { o with reported := Function.update o.reported socket true } :=
      .same rfl rfl rfl
    unfold onclose
    dsimp only
    split
    · exact reported.trans (.retry ..)
    · exact reported
  | @timer delay _ _ _ pending =>
    have disarmed : Ages o (o.disarm delay) := .same rfl rfl rfl
    exact disarmed.trans (.connect (tidy.disarm pending) ..)
  | _ => exact .same rfl rfl rfl

theorem ages_path (tidy : o.Tidy) (path : Relation.ReflTransGen (fun a b => ∃ l, OwnerStep a l b) o next) :
    next.Tidy ∧ Ages o next := by
  induction path with
  | refl => exact ⟨tidy, .same rfl rfl rfl⟩
  | tail _ step ih =>
    obtain ⟨_, step⟩ := step
    exact ⟨tidy_step ih.1 step, ih.2.trans (ages_step ih.1 step)⟩

/-- Every socket but the newest is of an older generation. -/
theorem superseded (reached : owner.Reachable o) :
    ∀ k, k + 1 < o.created → o.generations k < o.transport.generation := by
  induction reached with
  | start initial =>
    obtain rfl := initial
    nofun
  | next before step older =>
    intro k below
    have ages := ages_step (tidy before) step
    rcases ages.fresh k below with old | older
    · rw [ages.kept k (Nat.lt_of_succ_lt old)]
      exact Nat.lt_of_lt_of_le (older k old) ages.later
    · exact older

/-- The pending delay is below the cap of the attempts made when it was drawn. -/
def Bounded (o : Owner) : Prop :=
  ∀ delay, o.transport.timer = some delay →
    0 < o.transport.attempts ∧ delay < backoffCap (o.transport.attempts - 1)

theorem delay_lt (o : Owner) (random : Fraction) :
    o.delay random < backoffCap o.transport.attempts := by
  apply floorMul_lt
  have : 0 < 2 ^ o.transport.attempts := Nat.two_pow_pos _
  unfold backoffCap
  omega

theorem Bounded.connect (tidy : o.Tidy) (bounded : o.Bounded) : (o.connect throws random).Bounded := by
  have below := delay_lt o random
  have result := connected tidy throws random
  generalize o.connect throws random = next at result
  cases result with
  | refused => exact bounded
  | threw =>
    rintro _ ⟨⟩
    exact ⟨Nat.succ_pos _, by simpa using below⟩
  | made => nofun

theorem Bounded.retry (bounded : o.Bounded) (generation : Nat) :
    (o.retry generation random).Bounded := by
  have below := delay_lt o random
  have result := retried o generation random
  generalize o.retry generation random = next at result
  cases result with
  | ignored => exact bounded
  | scheduled =>
    rintro _ ⟨⟩
    exact ⟨Nat.succ_pos _, by simpa using below⟩

theorem bounded_step (tidy : o.Tidy) (bounded : o.Bounded) (step : OwnerStep o l next) :
    next.Bounded := by
  cases step with
  | start => exact Bounded.connect tidy.unstop bounded
  | stop =>
    unfold stop
    rw [clearRetry_eq]
    · nofun
    · exact tidy.timers
  | connect => exact bounded.connect tidy
  | ready =>
    unfold ready
    split
    · exact bounded
    · rw [clearRetry_eq tidy.timers]
      nofun
  | reconnectNow =>
    unfold reconnectNow
    split
    · exact bounded
    · rename_i running
      apply Bounded.connect (tidy.abandoned running)
      rw [clearRetry_eq tidy.timers]
      nofun
  | invalidSession => exact bounded.retry _
  | send => exact bounded
  | hello => exact bounded
  | message => exact bounded
  | error => exact bounded
  | opened =>
    unfold onopen ReconnectingTransport.opened
    split
    · exact bounded
    · exact bounded
  | closed =>
    unfold onclose
    dsimp only
    split
    · apply Bounded.retry
      exact bounded
    · exact bounded
  | timer pending =>
    apply Bounded.connect (tidy.disarm pending)
    nofun

theorem bounded (reached : owner.Reachable o) : o.Bounded := by
  refine reached.invariant ?_ fun before bounded step => bounded_step (tidy before) bounded step
  rintro _ rfl delay ⟨⟩

/-- Only `start` ends a stop. -/
theorem stopped_step (stopped : o.transport.stopped = true) (step : OwnerStep o l next)
    (other : l ≠ .start) : next.transport.stopped = true := by
  cases step with
  | start => contradiction
  | stop => rfl
  | connect => simp [connect, stopped]
  | ready => simp [ready, stopped]
  | reconnectNow => simp [reconnectNow, stopped]
  | invalidSession => simp [invalidSession, retry, stopped]
  | opened => simp [onopen, ReconnectingTransport.opened, ReconnectingTransport.admits, stopped]
  | closed => simp [onclose, ReconnectingTransport.admits, stopped]
  | timer => simp [fireTimer, disarm, connect, stopped]
  | _ => exact stopped

theorem stopped_since (run : owner.Run labels o) :
    ∀ {front back}, labels = front ++ .stop :: back → .start ∉ back → o.transport.stopped = true := by
  induction run with
  | start =>
    intro front back split
    simp at split
  | next run step ih =>
    intro front back split quiet
    rcases List.eq_nil_or_concat' back with rfl | ⟨earlier, last, rfl⟩
    · obtain ⟨rfl, is⟩ := List.append_inj' split rfl
      cases is
      cases step
      rfl
    · rw [← List.cons_append, ← List.append_assoc] at split
      obtain ⟨same, is⟩ := List.append_inj' split rfl
      cases is
      simp only [List.mem_append, List.mem_singleton, not_or] at quiet
      exact stopped_step (ih same quiet.1) step (Ne.symm quiet.2)

/-- Events of a generation that is not current, and any event after `stop`, are ignored. -/
theorem ignored (step : OwnerStep o (.event socket event runs) next)
    (stale : o.transport.admits (o.generations socket) = false) :
    runs = false ∧ next.transport = o.transport ∧ next.timers = o.timers := by
  cases step with
  | opened => simp [onopen, ReconnectingTransport.opened, stale]
  | message => exact ⟨stale, rfl, rfl⟩
  | error => exact ⟨rfl, rfl, rfl⟩
  | closed => simp [onclose, stale]

theorem reconnectNow_newer (tidy : o.Tidy) (running : o.transport.stopped = false) :
    o.transport.generation < (o.reconnectNow throws random).transport.generation := by
  have going : ¬o.transport.stopped = true := by simp [running]
  have connects := @connect_newer _ throws random (tidy.abandoned going) running nofun nofun
  rw [reconnectNow, if_neg going]
  exact Nat.lt_trans (Nat.lt_succ_self _) connects

/-- No event of the sockets before `n` is heard. -/
def Outdated (n : Nat) (o : Owner) : Prop :=
  o.transport.stopped = true ∨ ∀ k < n, o.generations k < o.transport.generation

theorem outdated_step (tidy : o.Tidy) (within : n ≤ o.created) (outdated : Outdated n o)
    (step : OwnerStep o l next) : Outdated n next := by
  have ages := ages_step tidy step
  rcases outdated with stopped | older
  · by_cases starts : l = .start
    · subst starts
      cases step with
      | start =>
        have halted := (tidy.halted stopped).2.2
        refine .inr fun k below => ?_
        have made := Nat.lt_of_lt_of_le below within
        rw [ages.kept k made]
        refine Nat.lt_of_le_of_lt (tidy.older k made) (connect_newer tidy.unstop rfl ?_ ?_)
        · simp [unstop, halted]
        · simp [unstop, halted]
    · exact .inl (stopped_step stopped step starts)
  · refine .inr fun k below => ?_
    rw [ages.kept k (Nat.lt_of_lt_of_le below within)]
    exact Nat.lt_of_lt_of_le (older k below) ages.later

theorem outdated_path (tidy : o.Tidy) (within : n ≤ o.created) (outdated : Outdated n o)
    (path : Relation.ReflTransGen (fun a b => ∃ l, OwnerStep a l b) o later) : Outdated n later := by
  induction path with
  | refl => exact outdated
  | tail path step ih =>
    obtain ⟨_, step⟩ := step
    obtain ⟨tidy, ages⟩ := ages_path tidy path
    exact outdated_step tidy (Nat.le_trans within ages.within) ih step

end Owner

open Owner in
/-- The generation fence and the backoff of the transport. -/
theorem transport_fenced (run : owner.Run labels o) (step : OwnerStep o l next) :
    (∀ {socket event runs}, l = .event socket event runs →
      o.generations socket < o.transport.generation →
      runs = false ∧ next.transport = o.transport ∧ next.timers = o.timers) ∧
    o.timers.length ≤ 1 ∧
    (∀ {front back}, labels = front ++ .stop :: back → .start ∉ back →
      (∀ delay, l ≠ .timer delay) ∧
      ∀ {socket event runs}, l = .event socket event runs →
        runs = false ∧ next.transport = o.transport ∧ next.timers = o.timers) ∧
    (l = .send true → o.transport.state = .online) ∧
    (l = .hello true → o.transport.state = .handshaking) ∧
    (∀ delay ∈ next.timers, 0 < next.transport.attempts ∧
      delay < min 30000 (500 * 2 ^ (next.transport.attempts - 1))) ∧
    (∀ k, k + 1 < o.created → o.generations k < o.transport.generation) ∧
    ∀ {later}, Relation.ReflTransGen (fun a b => ∃ l, OwnerStep a l b) next later →
      (l = .reconnectNow → o.transport.stopped = false →
        ∀ k < o.created, later.generations k < later.transport.generation) ∧
      (l = .stop → later.transport.stopped = true ∨
        ∀ k < o.created, later.generations k < later.transport.generation) := by
  have known := tidy run.reachable
  have after := tidy_step known step
  refine ⟨?_, ?_, ?_, ?_, ?_, ?_, superseded run.reachable, fun path => ⟨?_, ?_⟩⟩
  · rintro socket event runs rfl older
    apply ignored step
    simp only [ReconnectingTransport.admits, Bool.and_eq_false_iff, decide_eq_false_iff_not]
    exact .inl (Nat.ne_of_lt older)
  · rw [known.timers]
    cases o.transport.timer <;> simp
  · intro front back split quiet
    have stopped := stopped_since run split quiet
    refine ⟨?_, ?_⟩
    · rintro delay rfl
      cases step with
      | timer pending =>
        cases (known.fired pending).1.symm.trans (known.halted stopped).1
    · rintro socket event runs rfl
      apply ignored step
      simp [ReconnectingTransport.admits, stopped]
  · rintro rfl
    cases step with
    | send transmits =>
      simp only [ReconnectingTransport.sends, Bool.true_eq, Bool.and_eq_true, decide_eq_true_eq] at transmits
      exact transmits.1.1
  · rintro rfl
    cases step with
    | hello transmits =>
      simp only [ReconnectingTransport.sendsHello, Bool.true_eq, Bool.and_eq_true,
        decide_eq_true_eq] at transmits
      exact transmits.1.1
  · intro delay pending
    exact bounded (run.reachable.next step) delay (after.fired pending).1
  · rintro rfl running k below
    obtain ⟨_, ages⟩ := ages_path after path
    have aged := ages_step known step
    rw [ages.kept k (Nat.lt_of_lt_of_le below aged.within), aged.kept k below]
    refine Nat.lt_of_lt_of_le (Nat.lt_of_le_of_lt (known.older k below) ?_) ages.later
    cases step with
    | reconnectNow => exact reconnectNow_newer known running
  · rintro rfl
    have stopped : next.transport.stopped = true := by
      cases step with
      | stop => rfl
    exact outdated_path after (ages_step known step).within (.inl stopped) path

/-- A draw of zero. -/
def zeroFraction : Fraction := ⟨0, 0, by decide, by decide⟩

/-- The first connection is open. -/
def firstOpen : Owner := ((({} : Owner).start false zeroFraction).onopen 0)

theorem firstOpen_run : owner.Run [.start, .event 0 .opened true] firstOpen := by
  have start : owner.Run [] {} := .start rfl
  have started := start.next (@OwnerStep.start _ false zeroFraction)
  exact started.next (@OwnerStep.opened _ 0 ⟨by decide, .inl rfl⟩)

/-- A draw of one half. -/
def halfFraction : Fraction := ⟨1, 1, by decide, by decide⟩

/-- The first connection is lost. -/
def firstLost : Owner := firstOpen.onclose 0 halfFraction

/-- The retry has opened a second socket. -/
def firstRetried : Owner := firstLost.fireTimer 250 false zeroFraction

/-- A connection is lost, retried after a delay below the cap, and stopped; late events of
both sockets are not heard. -/
theorem transport_fenced_first : ∃ labels, owner.Run labels firstLost ∧ firstLost.timers = [250] ∧
    owner.Run (labels ++ [.timer 250]) firstRetried ∧ firstRetried.created = 2 ∧
    firstRetried.generations 0 < firstRetried.transport.generation ∧
    (∀ runs next, OwnerStep firstRetried (.event 0 .message runs) next →
      runs = false ∧ next.transport = firstRetried.transport) ∧
    ∀ event runs next, OwnerStep firstRetried.stop (.event 1 event runs) next →
      runs = false ∧ next.transport = firstRetried.stop.transport := by
  have lost := firstOpen_run.next (@OwnerStep.closed _ 0 halfFraction ⟨by decide, .inl rfl⟩)
  have fires : OwnerStep firstLost (.timer 250) firstRetried := .timer (by decide)
  have retried := lost.next fires
  have stopped := retried.next .stop
  obtain ⟨_, _, _, _, _, _, older, _⟩ := transport_fenced retried .stop
  refine ⟨_, lost, by decide, retried, by decide, older 0 (by decide), ?_, ?_⟩
  · intro runs next late
    obtain ⟨silent, same, _⟩ := (transport_fenced retried late).1 rfl (older 0 (by decide))
    exact ⟨silent, same⟩
  · intro event runs next late
    obtain ⟨_, _, halted, _⟩ := transport_fenced stopped late
    obtain ⟨silent, same, _⟩ := (halted rfl List.not_mem_nil).2 rfl
    exact ⟨silent, same⟩

end Conspire.Browser
