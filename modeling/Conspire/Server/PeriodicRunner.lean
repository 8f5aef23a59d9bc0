import Conspire.Library.Machine

/-! A periodic worker and its owner (`PeriodicRunner` of `utils/Lifecycle.hpp`). Each step is one
access to what the two threads share: the flags, the mutex, the wait set of the condition
variable. Only the worker takes the mutex. -/
namespace Conspire
open Transition

/-- Where the worker thread is in its loop. -/
inductive WorkerPoint where
  -- no thread to join
  | absent
  | created
  -- while (!m_stopping)
  | looping
  -- wait_for: its predicate, the wait itself, and the predicate once more after a timeout
  | asking
  | parking
  | waiting
  | woken
  | askingAgain
  -- one iteration
  | unlocking
  | ready
  | calling
  | caught
  | failing
  | relocking
  -- behind the loop
  | leaving
  | releasing
  | finished
  deriving DecidableEq, Repr

/-- Where the owner is in `stop`. -/
inductive OwnerPoint where
  | idle
  | stored
  | notified
  | joined
  deriving DecidableEq, Repr

/-- `returned` says that `stop` has returned and no worker was started since. -/
structure PeriodicRunner where
  stopping : Bool := false
  running : Bool := false
  failed : Bool := false
  mutex : Bool := false
  waitSet : Bool := false
  worker : WorkerPoint := .absent
  owner : OwnerPoint := .idle
  returned : Bool := false
  deriving DecidableEq, Repr

inductive RunnerLabel where
  | start (created : Bool)
  | store
  | notify
  | join
  | stopped
  | call
  | internal
  deriving DecidableEq, Repr

/-- `wait_for` comes back with or without a timeout, whatever woke it. -/
inductive RunnerStep : PeriodicRunner → RunnerLabel → PeriodicRunner → Prop where
  -- start(): the worker does not exist before its thread is created
  -- there is a worker to join, or no callback
  | refuse {callback : Bool} : s.owner = .idle → s.worker ≠ .absent ∨ callback = false →
      RunnerStep s (.start false) s
  | start : s.owner = .idle → s.worker = .absent →
      RunnerStep s (.start true)
        { s with stopping := false, failed := false, running := true, worker := .created, returned := false }
  | uncreated : s.owner = .idle → s.worker = .absent →
      RunnerStep s (.start false) { s with failed := false, running := false, stopping := true }
  -- stop()
  | store : s.owner = .idle → RunnerStep s .store { s with stopping := true, owner := .stored }
  | notify : s.owner = .stored →
      RunnerStep s .notify
        { s with
          owner := .notified
          waitSet := false
          worker := if s.waitSet then .woken else s.worker }
  | join : s.owner = .notified → s.worker = .absent ∨ s.worker = .finished →
      RunnerStep s .join { s with owner := .joined, worker := .absent }
  | stopped : s.owner = .joined →
      RunnerStep s .stopped { s with owner := .idle, running := false, returned := true }
  -- the worker
  | lock : s.worker = .created → s.mutex = false →
      RunnerStep s .internal { s with mutex := true, worker := .looping }
  | loop : s.worker = .looping → s.stopping = false → RunnerStep s .internal { s with worker := .asking }
  | leave : s.worker = .looping → s.stopping = true → RunnerStep s .internal { s with worker := .leaving }
  | unanswered : s.worker = .asking → s.stopping = false → RunnerStep s .internal { s with worker := .parking }
  | answered : s.worker = .asking → s.stopping = true → RunnerStep s .internal { s with worker := .leaving }
  | park : s.worker = .parking →
      RunnerStep s .internal { s with mutex := false, waitSet := true, worker := .waiting }
  -- a timeout or a spurious wakeup
  | wake : s.worker = .waiting → RunnerStep s .internal { s with waitSet := false, worker := .woken }
  | resume : s.worker = .woken → s.mutex = false →
      RunnerStep s .internal { s with mutex := true, worker := .asking }
  | expire : s.worker = .woken → s.mutex = false →
      RunnerStep s .internal { s with mutex := true, worker := .askingAgain }
  | due : s.worker = .askingAgain → s.stopping = false →
      RunnerStep s .internal { s with worker := .unlocking }
  | late : s.worker = .askingAgain → s.stopping = true → RunnerStep s .internal { s with worker := .leaving }
  | unlock : s.worker = .unlocking → RunnerStep s .internal { s with mutex := false, worker := .ready }
  | call : s.worker = .ready → RunnerStep s .call { s with worker := .calling }
  | iterated : s.worker = .calling → RunnerStep s .internal { s with worker := .relocking }
  | thrown : s.worker = .calling → RunnerStep s .internal { s with worker := .caught }
  | fail : s.worker = .caught → RunnerStep s .internal { s with failed := true, worker := .failing }
  | giveUp : s.worker = .failing → RunnerStep s .internal { s with stopping := true, worker := .relocking }
  | relock : s.worker = .relocking → s.mutex = false →
      RunnerStep s .internal { s with mutex := true, worker := .looping }
  | ended : s.worker = .leaving → RunnerStep s .internal { s with running := false, worker := .releasing }
  | release : s.worker = .releasing → RunnerStep s .internal { s with mutex := false, worker := .finished }

/-- Every interleaving of a worker with the calls of its owner. -/
def periodicRunner : Machine PeriodicRunner RunnerLabel where
  init s := s = {}
  step := RunnerStep

namespace PeriodicRunner

/-- `stop` has set the flag and notified, and the worker sleeps on. -/
def Missed (s : PeriodicRunner) : Prop :=
  s.owner = .notified ∧ s.stopping = true ∧ s.worker = .waiting

/-- The callback runs or may be started. -/
def Calls (s : PeriodicRunner) : Prop :=
  s.worker = .calling ∨ ∃ t, RunnerStep s .call t

/-- The notification does not fall between the predicate that found the flag unset and the wait. -/
def Timely (s : PeriodicRunner) (l : RunnerLabel) : Prop := l = .notify → s.worker ≠ .parking

/-- What holds of the wait set, of the flag under `stop` and of the worker behind it. -/
structure Ordered (s : PeriodicRunner) : Prop where
  waits : s.waitSet = true ↔ s.worker = .waiting
  flagged : s.owner ≠ .idle → s.stopping = true
  joined : s.owner = .joined ∨ s.returned = true → s.worker = .absent

variable {s t : PeriodicRunner} {l : RunnerLabel}

/-- While there is a worker, `stop` has not joined it. -/
theorem Ordered.unjoined (ordered : s.Ordered) (present : s.worker ≠ .absent) :
    s.owner ≠ .joined ∧ s.returned = false := by
  refine ⟨fun is => present (ordered.joined (.inl is)), ?_⟩
  cases returned : s.returned with
  | true => exact absurd (ordered.joined (.inr returned)) present
  | false => rfl

/-- A worker that has no wait in its next statement moves on. -/
theorem Ordered.work (ordered : s.Ordered) (present : s.worker ≠ .absent) (owner : t.owner = s.owner)
    (returned : t.returned = s.returned) (kept : s.stopping = true → t.stopping = true)
    (waits : t.waitSet = true ↔ t.worker = .waiting) : t.Ordered where
  waits := waits
  flagged busy := kept (ordered.flagged (owner ▸ busy))
  joined late := by
    obtain ⟨other, unreturned⟩ := ordered.unjoined present
    rw [owner, returned, unreturned] at late
    exact absurd (late.resolve_right nofun) other

theorem Ordered.free (ordered : s.Ordered) (elsewhere : s.worker ≠ .waiting) : s.waitSet = false := by
  cases set : s.waitSet with
  | true => exact absurd (ordered.waits.mp set) elsewhere
  | false => rfl

theorem ordered_step (ordered : s.Ordered) (step : RunnerStep s l t) : t.Ordered := by
  cases step with
  | refuse => exact ordered
  | start idle absent =>
    have free := ordered.free (by simp [absent])
    exact ⟨by simp [free], fun busy => absurd idle busy, by simp [idle]⟩
  | uncreated idle absent => exact ⟨ordered.waits, fun _ => rfl, fun _ => absent⟩
  | store idle => exact ⟨ordered.waits, fun _ => rfl, fun late => ordered.joined (.inr (by simpa using late))⟩
  | notify stored =>
    refine ⟨?_, fun _ => ordered.flagged (by simp [stored]), fun late => ?_⟩
    · cases set : s.waitSet with
      | true => simp
      | false => simpa [set] using ordered.waits
    · have absent := ordered.joined (.inr (by simpa using late))
      simpa [ordered.free (by simp [absent])] using absent
  | join notified finished =>
    have free : s.waitSet = false := by
      rcases finished with is | is <;> exact ordered.free (by simp [is])
    exact ⟨by simp [free], fun _ => ordered.flagged (by simp [notified]), fun _ => rfl⟩
  | stopped joined => exact ⟨ordered.waits, nofun, fun _ => ordered.joined (.inl joined)⟩
  | park is => exact ordered.work (by simp [is]) rfl rfl id (by simp)
  | wake is => exact ordered.work (by simp [is]) rfl rfl id (by simp)
  | giveUp is => exact ordered.work (by simp [is]) rfl rfl (fun _ => rfl) (by simp [ordered.free (by simp [is])])
  | lock is | loop is | leave is | unanswered is | answered is | resume is | expire is | due is | late is | unlock is
  | call is | iterated is | thrown is | fail is | relock is | ended is | release is =>
    exact ordered.work (by simp [is]) rfl rfl id (by simp [ordered.free (by simp [is])])

theorem ordered (reached : periodicRunner.Reachable s) : s.Ordered := by
  refine reached.invariant ?_ fun _ => ordered_step
  rintro _ rfl
  exact ⟨by simp, by simp, by simp⟩

/-- A notification that is not missed leaves no wait behind. -/
def Woken (s : PeriodicRunner) : Prop := s.owner = .notified → s.worker ≠ .parking ∧ s.worker ≠ .waiting

theorem woken_step (ordered : s.Ordered) (woken : s.Woken) (step : RunnerStep s l t)
    (timely : s.Timely l) : t.Woken := by
  intro notified
  cases step with
  | notify stored =>
    have before := timely rfl
    cases set : s.waitSet with
    | true => simp
    | false =>
      have awake : s.worker ≠ .waiting := fun is => by simp [ordered.waits.mpr is] at set
      simpa using ⟨before, awake⟩
  | unanswered is unset =>
    have set := ordered.flagged (by simp [show s.owner = .notified from notified])
    simp [set] at unset
  | park is => exact absurd is (woken notified).1
  | start idle | uncreated idle | store idle => simp [idle] at notified
  | join | stopped => cases notified
  | refuse => exact woken notified
  | _ => simp

theorem timely_next (reached : (periodicRunner.restrict Timely).Reachable s) (step : RunnerStep s l t)
    (timely : s.Timely l) : (periodicRunner.restrict Timely).Reachable t :=
  reached.next ⟨step, timely⟩

/-- The first worker stands between its predicate and its wait. -/
theorem parking_first : (periodicRunner.restrict Timely).Reachable
    { running := true, mutex := true, worker := .parking } := by
  have idle : (periodicRunner.restrict Timely).Reachable {} := .start rfl
  have created := timely_next idle (.start rfl rfl) nofun
  have looping := timely_next created (.lock rfl rfl) nofun
  have asking := timely_next looping (.loop rfl rfl) nofun
  exact timely_next asking (.unanswered rfl rfl) nofun

/-- Unless its notification comes between the worker's predicate and its wait, `stop` wakes the worker.
In every run, no callback runs or starts behind it. -/
theorem stop_wakes (s : PeriodicRunner) :
    ((periodicRunner.restrict Timely).Reachable s → ¬ s.Missed) ∧
    (periodicRunner.Reachable s → s.returned = true → ¬ s.Calls) := by
  constructor
  · intro reached
    have woken : s.Woken := by
      refine reached.invariant ?_ fun before woken step => ?_
      · rintro _ rfl
        simp [Woken]
      · exact woken_step (ordered before.of_restrict) woken step.1 step.2
    exact fun ⟨notified, _, waiting⟩ => (woken notified).2 waiting
  · intro reached returned
    have absent := (ordered reached).joined (.inr returned)
    rintro (calling | ⟨t, step⟩)
    · simp [absent] at calling
    · cases step with
      | call ready => simp [absent] at ready

/-- A worker that is stopped while it waits. -/
theorem stop_wakes_first : ∃ s, (periodicRunner.restrict Timely).Reachable s ∧ s.returned = true ∧
    ¬ s.Missed ∧ ¬ s.Calls := by
  have waiting := timely_next parking_first (.park rfl) nofun
  have stored := timely_next waiting (.store rfl) nofun
  have notified := timely_next stored (.notify rfl) fun _ => by decide
  have asking := timely_next notified (.resume rfl rfl) nofun
  have leaving := timely_next asking (.answered rfl rfl) nofun
  have releasing := timely_next leaving (.ended rfl) nofun
  have finished := timely_next releasing (.release rfl) nofun
  have joined := timely_next finished (.join rfl (.inr rfl)) nofun
  have stopped := timely_next joined (.stopped rfl) nofun
  obtain ⟨woken, quiet⟩ := stop_wakes _
  exact ⟨_, stopped, rfl, woken stopped, quiet stopped.of_restrict rfl⟩

/-- The worker goes to sleep with the notification behind it. -/
theorem missed_first : ∃ s, periodicRunner.Reachable s ∧ s.Missed := by
  have stored := timely_next parking_first (.store rfl) nofun
  have notified : periodicRunner.Reachable
      { stopping := true, running := true, mutex := true, worker := .parking, owner := .notified } :=
    stored.of_restrict.next (RunnerStep.notify rfl)
  exact ⟨_, notified.next (RunnerStep.park rfl), rfl, rfl, rfl⟩

/-- Every notification that comes so is missed. -/
theorem untimely_missed (ordered : s.Ordered) (step : RunnerStep s .notify t) (untimely : ¬ s.Timely .notify) :
    ∃ u, RunnerStep t .internal u ∧ u.Missed := by
  have parking : s.worker = .parking := by simpa [Timely] using untimely
  cases step with
  | notify stored =>
    have free := ordered.free (by simp [parking])
    exact ⟨_, .park (by simp [free, parking]), rfl, ordered.flagged (by simp [stored]), rfl⟩

end PeriodicRunner
end Conspire
