import Conspire.Files.Subscriber
import Conspire.Library.Machine

/-! The readers of one download and what wakes them. `waitForChunkAsync` looks at the
subscriber under `m_chunkLock`, but its coroutine comes to the wait list later, under the
list's own lock; the listener looks again behind it. -/
namespace Conspire.Files
open Session Boundaries Transition

/-- Where a coroutine that reads stands: before `readChunk`, before or after the look of
`WaitCoroutine::act` at the subscriber, on the wait list, or at its end. -/
inductive Reader where
  | reading | checking | leaving | parked | ended
  deriving DecidableEq

/-- A subscriber with those who read from it. `notifying` is whether the holder of
`m_chunkLock` is about to call `notifyAll`, and `listening` how many calls of `onNewItem` have
yet to take that lock. A coroutine on the list owns the subscriber, so that the listener's weak
pointer can be locked. -/
structure Waiting where
  file : File
  subscriber : Subscriber
  hosted : Bool := true
  readers : Nat → Reader := fun _ => .reading
  notifying : Bool := false
  listening : Nat := 0

namespace Waiting
variable (s : Waiting)

/-- `m_chunk || !m_valid` -/
def ready : Bool := s.subscriber.chunk.isSome || !s.subscriber.valid

def move (reader : Nat) (place : Reader) : Waiting :=
  { s with readers := Function.update s.readers reader place }

/-- `m_waitList.notifyAll()`: whoever is on the list looks again. -/
def notifyAll : Waiting :=
  { s with readers := fun reader => if s.readers reader = .parked then .checking else s.readers reader
           notifying := false }

end Waiting

/-- Where `readChunk` leaves its caller. -/
def Read.next : Read → Reader
  | .filled _ => .reading
  | .waiting _ => .checking
  | .thrown _ | .ended => .ended

/-- Whether `requestChunk` has found the host gone. -/
def Read.gone : Read → Bool
  | .waiting none => true
  | _ => false

inductive WaitingLabel where
  | notify | listen | other

inductive WaitingStep : Waiting → WaitingLabel → Waiting → Prop where
  -- the reader
  | read {count : Int} : s.notifying = false → s.readers reader = .reading →
      s.subscriber.readChunk s.file s.hosted count = (after, result) →
      WaitingStep s .other
        ({ s with subscriber := after, notifying := result.gone }.move reader result.next)
  | check : s.notifying = false → s.readers reader = .checking →
      WaitingStep s .other (s.move reader (if s.ready then .reading else .leaving))
  | insert : s.readers reader = .leaving →
      WaitingStep s .other ({ s with listening := s.listening + 1 }.move reader .parked)
  -- onNewItem
  | listen : s.notifying = false → s.listening = others + 1 →
      WaitingStep s .listen { s with listening := others, notifying := s.ready }
  | notify : s.notifying = true → WaitingStep s .notify s.notifyAll
  -- provideFileChunk
  | provide : s.notifying = false →
      s.subscriber.provideFileChunk requestId position size data = (after, result) →
      WaitingStep s .other { s with subscriber := after, notifying := result = .accepted }
  -- reissueOutstandingRequest
  | reissue : s.notifying = false → s.subscriber.valid = true → s.subscriber.request.outstanding = true →
      s.subscriber.requestChunk s.file s.hosted s.subscriber.request.size = (after, request) →
      WaitingStep s .other { s with subscriber := after, notifying := request.isNone }
  | invalidate : s.notifying = false →
      WaitingStep s .other { s with subscriber := s.subscriber.invalidate, notifying := true }
  -- the host's last owner lets go of it
  | leave : WaitingStep s .other { s with hosted := false }

/-- All runs of one download. -/
def waiting : Machine Waiting WaitingLabel where
  init s := ∃ file id, s = { file, subscriber := { id } }
  step := WaitingStep

namespace Waiting
variable {s t : Waiting} {reader : Nat}

/-- What makes a reader's wait pointless comes with a `notifyAll`. -/
theorem request_ready {subscriber after : Subscriber} {file : File} {hosted : Bool} {size : Int}
    (asked : subscriber.requestChunk file hosted size = (after, some message)) :
    after.chunk = subscriber.chunk ∧ after.valid = subscriber.valid := by
  cases requestChunk_spec file hosted size asked with
  | again => exact ⟨rfl, rfl⟩
  | fresh => exact ⟨rfl, rfl⟩

theorem read_ready {subscriber after : Subscriber} {file : File} {hosted : Bool} {count : Int}
    (done : subscriber.readChunk file hosted count = (after, result)) (stays : result.gone = false)
    (ready : (after.chunk.isSome || !after.valid) = true) :
    (subscriber.chunk.isSome || !subscriber.valid) = true := by
  cases readChunk_spec file hosted count done with
  | thrown => exact ready
  | filled data held => simp only [held, Option.isSome_some, Bool.true_or]
  | ended => exact ready
  | waiting valid more empty requested =>
    cases requested with
    | invalid is => simp only [is, Bool.not_false, Bool.or_true]
    | again => exact ready
    | fresh => exact ready
    | gone => cases stays

theorem provide_ready {subscriber after : Subscriber} {data : Option Bytes}
    (provided : subscriber.provideFileChunk requestId position size data = (after, result))
    (other : result ≠ .accepted) : after.chunk = subscriber.chunk ∧ after.valid = subscriber.valid := by
  rw [Subscriber.provideFileChunk] at provided
  split at provided
  · split at provided
    · cases provided
      exact ⟨rfl, rfl⟩
    · cases provided
      exact absurd rfl other
  · cases provided
    exact ⟨rfl, rfl⟩

/-- Someone is about to wake the readers on the list whenever one of them need not wait. -/
def Attended (s : Waiting) : Prop :=
  ∀ reader, s.readers reader = .parked → s.ready = true → s.notifying = true ∨ 0 < s.listening

theorem Attended.stays (attended : s.Attended)
    (readers : ∀ reader, t.readers reader = .parked → s.readers reader = .parked)
    (notifying : s.notifying = false) (listening : t.listening = s.listening)
    (ready : t.notifying = false → t.ready = true → s.ready = true) : t.Attended := by
  intro reader parked now
  cases notified : t.notifying with
  | true => exact .inl rfl
  | false =>
    have before := attended reader (readers reader parked) (ready notified now)
    rw [notifying, ← listening] at before
    exact before

theorem move_parked {place : Reader} (elsewhere : place ≠ .parked) (other : Nat)
    (parked : (s.move reader place).readers other = .parked) : s.readers other = .parked := by
  by_cases here : other = reader
  · subst here
    simp only [move, Function.update_self] at parked
    exact absurd parked elsewhere
  · simpa only [move, Function.update_of_ne here] using parked

theorem next_parked (result : Read) : result.next ≠ .parked := by
  cases result <;> exact nofun

theorem attended (reached : waiting.Reachable s) : s.Attended := by
  apply reached.invariant
  · rintro s ⟨file, id, rfl⟩ reader parked
    cases parked
  · intro s label t _ attended step
    cases step with
    | read free _ done =>
      refine attended.stays (fun other parked => ?_) free rfl fun stays ready => read_ready done stays ready
      exact move_parked (next_parked _) other parked
    | check free =>
      have elsewhere : (if s.ready then Reader.reading else .leaving) ≠ .parked := by
        split <;> exact nofun
      exact attended.stays (fun _ => move_parked elsewhere _) free rfl fun _ ready => ready
    | insert => exact fun _ _ _ => .inr (Nat.succ_pos _)
    | listen =>
      intro reader _ ready
      exact .inl ready
    | notify =>
      intro reader parked
      simp only [notifyAll] at parked
      split at parked
      · cases parked
      · contradiction
    | provide free provided =>
      refine attended.stays (fun _ => id) free rfl fun other ready => ?_
      obtain ⟨chunk, valid⟩ := provide_ready provided (of_decide_eq_false other)
      rwa [Waiting.ready, chunk, valid] at ready
    | reissue free _ _ asked =>
      rename_i request _ _
      refine attended.stays (fun _ => id) free rfl fun stays ready => ?_
      cases request with
      | none => cases stays
      | some message =>
        obtain ⟨chunk, valid⟩ := request_ready asked
        rwa [Waiting.ready, chunk, valid] at ready
    | invalidate => exact fun _ _ _ => .inl rfl
    | leave => exact attended

/-- No state has a reader on the list, a buffered chunk or an invalid subscriber, and nothing
left that wakes the reader: the holder of the lock is about to call `notifyAll`, or a call of
the listener is to come that will. -/
theorem no_lost_wakeup (s : Waiting) (reached : waiting.Reachable s) (reader : Nat)
    (parked : s.readers reader = .parked)
    (ready : s.subscriber.chunk.isSome = true ∨ s.subscriber.valid = false) :
    ((∃ t, waiting.step s .notify t) ∧ ∀ t, waiting.step s .notify t → t.readers reader = .checking) ∨
    (∃ t, waiting.step s .listen t) ∧ ∀ t, waiting.step s .listen t →
      t.readers reader = .parked ∧ (∃ u, waiting.step t .notify u) ∧
        ∀ u, waiting.step t .notify u → u.readers reader = .checking := by
  have pointless : s.ready = true := by
    rw [Waiting.ready, Bool.or_eq_true, Bool.not_eq_true']
    exact ready
  have wakes : ∀ {t u : Waiting}, t.readers reader = .parked → waiting.step t .notify u →
      u.readers reader = .checking := by
    intro t u parked step
    cases step with
    | notify => exact if_pos parked
  cases notifying : s.notifying with
  | true => exact .inl ⟨⟨_, .notify notifying⟩, fun t => wakes parked⟩
  | false =>
    have pending := (attended reached reader parked pointless).resolve_left (by simp [notifying])
    have more : s.listening = s.listening - 1 + 1 := by omega
    refine .inr ⟨⟨_, .listen notifying more⟩, fun t step => ?_⟩
    cases step with
    | listen => exact ⟨parked, ⟨_, .notify pointless⟩, fun u => wakes parked⟩

/-- The subscriber is invalidated between the reader's look at it and its way to the list. -/
theorem no_lost_wakeup_first :
    ∃ s, waiting.Reachable s ∧ s.readers 0 = .parked ∧ s.subscriber.valid = false ∧
      ∃ t, waiting.step s .listen t ∧ t.readers 0 = .parked := by
  have start : waiting.Reachable { file := File.create 1 1 { size := some 1 }, subscriber := { id := 1 } } :=
    .start ⟨_, _, rfl⟩
  have asked := start.next (@WaitingStep.read _ _ _ 0 4 rfl rfl rfl)
  have looked := asked.next (@WaitingStep.check _ 0 rfl rfl)
  have invalid := looked.next (.invalidate rfl)
  have missed := invalid.next (.notify rfl)
  have parked := missed.next (@WaitingStep.insert _ 0 rfl)
  refine ⟨_, parked, rfl, rfl, ?_⟩
  rcases no_lost_wakeup _ parked 0 rfl (.inr rfl) with ⟨⟨t, step⟩, -⟩ | ⟨⟨t, step⟩, wakes⟩
  · cases step with
    | notify is => cases is
  · exact ⟨t, step, (wakes t step).1⟩

end Waiting
end Conspire.Files
