import Conspire.Browser.Lifetime

/-! How many sockets a transport leaves open. `reconnectNow` and `stop` close the
socket they give up; `invalidSession` and a `connect` of an online transport do
not. Without these two calls there is one live socket at most. -/
namespace Conspire.Browser
open Transition Rounding

namespace Owner

/-- Is the transport's current socket live? -/
def holdsLive (o : Owner) : Prop := ∃ socket, o.transport.socket = some socket ∧ o.live socket

/-- A live socket is not given up without being closed. -/
def Careful (o : Owner) : OwnerLabel → Prop
  | .invalidSession => ¬ o.holdsLive
  | .start | .connect =>
    o.holdsLive → o.transport.state = .connecting ∨ o.transport.state = .handshaking
  | _ => True

/-- The transport's socket is its only live one, and none while a retry is pending. -/
structure Kept (o : Owner) : Prop where
  live : ∀ k, o.live k → o.transport.socket = some k
  waiting : o.transport.timer ≠ none → ¬ o.holdsLive
  own : ∀ k, o.transport.socket = some k → k < o.created ∧ o.closed k = false
  fresh : ∀ k, o.created ≤ k → o.closed k = false

/-- The events of the current generation are those of the transport's socket. -/
structure Owned (o : Owner) : Prop extends Kept o where
  current : o.transport.stopped = false → ∀ k < o.created,
    o.generations k = o.transport.generation → o.transport.socket = some k

variable {o next : Owner} {throws : Bool} {random : Fraction}

theorem untimed (unset : o.transport.timer = none) : o.transport.timer ≠ none → ¬ o.holdsLive :=
  fun pending => absurd unset pending

/-- A new connection keeps the discipline when there is no live socket. -/
theorem Kept.connect (kept : o.Kept) (tidy : o.Tidy)
    (safe : o.holdsLive → o.transport.state = .connecting ∨ o.transport.state = .handshaking)
    (current : o.transport.state = .connecting ∨ o.transport.state = .handshaking →
      o.transport.stopped = false → ∀ k < o.created,
        o.generations k = o.transport.generation → o.transport.socket = some k) :
    (o.connect throws random).Owned := by
  have result := connected tidy throws random
  generalize o.connect throws random = next at result
  cases result with
  | refused refused =>
    refine ⟨kept, fun running => ?_⟩
    rcases refused with stopped | busy
    · rw [running] at stopped
      contradiction
    · exact current busy running
  | threw running idle ready =>
    have free : ¬ o.holdsLive := fun held => (safe held).elim idle ready
    refine ⟨⟨kept.live, fun _ => free, kept.own, kept.fresh⟩, fun _ k below same => ?_⟩
    have older := tidy.older k below
    simp only at same
    omega
  | made running idle ready =>
    have free : ¬ o.holdsLive := fun held => (safe held).elim idle ready
    refine ⟨⟨fun k alive => ?_, nofun, ?_, fun k above => ?_⟩, fun _ k below same => ?_⟩
    · by_cases new : k = o.created
      · rw [new]
      · have within : k < o.created := Nat.lt_of_le_of_ne (Nat.le_of_lt_succ alive.1) new
        have alive : o.live k := ⟨within, alive.2⟩
        exact absurd ⟨k, kept.live k alive, alive⟩ free
    · rintro k ⟨⟩
      exact ⟨Nat.lt_succ_self _, kept.fresh _ (Nat.le_refl _)⟩
    · exact kept.fresh k (Nat.le_of_succ_le above)
    · by_cases new : k = o.created
      · rw [new]
      · have within : k < o.created := Nat.lt_of_le_of_ne (Nat.le_of_lt_succ below) new
        have older := tidy.older k within
        simp only [Function.update_of_ne new] at same
        omega

theorem Owned.disarm (owned : o.Owned) (fired : Nat) : (o.disarm fired).Kept :=
  ⟨owned.live, fun pending => absurd rfl pending, owned.own, owned.fresh⟩

theorem Owned.retry (owned : o.Owned) (generation : Nat) (dead : ¬ o.holdsLive) :
    (o.retry generation random).Owned := by
  have result := retried o generation random
  generalize o.retry generation random = next at result
  cases result with
  | ignored => exact owned
  | scheduled => exact ⟨⟨owned.live, fun _ => dead, owned.own, owned.fresh⟩, owned.current⟩

/-- Closing the current socket leaves no live one. -/
theorem Kept.closeSocket (kept : o.Kept) :
    (∀ k, ¬ o.closeSocket.live k) ∧ ∀ k, o.created ≤ k → o.closeSocket.closed k = false := by
  unfold Owner.closeSocket
  cases known : o.transport.socket with
  | none =>
    refine ⟨fun k alive => ?_, kept.fresh⟩
    have current := kept.live k alive
    rw [known] at current
    contradiction
  | some socket =>
    refine ⟨fun k ⟨below, unclosed, unreported⟩ => ?_, fun k above => ?_⟩
    · by_cases own : k = socket
      · simp [own] at unclosed
      · simp only [Function.update_of_ne own] at unclosed
        have current := kept.live k ⟨below, unclosed, unreported⟩
        rw [known] at current
        exact own (Option.some.inj current).symm
    · have below := (kept.own socket known).1
      have other : k ≠ socket := fun same => absurd below (by rw [← same]; exact Nat.not_lt.mpr above)
      simp only [Function.update_of_ne other]
      exact kept.fresh k above

/-- A state without a live socket and without a current one. -/
theorem Kept.closed (dead : ∀ k, ¬ o.live k) (unset : o.transport.socket = none)
    (fresh : ∀ k, o.created ≤ k → o.closed k = false) : o.Kept := by
  refine ⟨fun k alive => absurd alive (dead k), fun _ ⟨k, _, alive⟩ => dead k alive, ?_, fresh⟩
  intro k known
  rw [unset] at known
  contradiction

/-- A closing event of the current generation is about the transport's socket. -/
theorem Owned.reportedClosed (owned : o.Owned) (fires : o.fires socket) :
    (o.onclose socket random).Owned := by
  have fewer : ∀ {k}, ({ o with reported := Function.update o.reported socket true } : Owner).live k →
      k ≠ socket ∧ o.live k := by
    rintro k ⟨below, unclosed, unreported⟩
    by_cases own : k = socket
    · simp [own] at unreported
    · simp only [Function.update_of_ne own] at unreported
      exact ⟨own, below, unclosed, unreported⟩
  have reported : ({ o with reported := Function.update o.reported socket true } : Owner).Owned := by
    refine ⟨⟨fun k alive => owned.live k (fewer alive).2, ?_, owned.own, owned.fresh⟩, owned.current⟩
    rintro pending ⟨k, known, alive⟩
    exact owned.waiting pending ⟨k, known, (fewer alive).2⟩
  unfold onclose
  dsimp only
  split
  · rename_i admitted
    simp only [ReconnectingTransport.admits, Bool.and_eq_true, Bool.not_eq_eq_eq_not, Bool.not_true,
      decide_eq_true_eq] at admitted
    apply reported.retry
    rintro ⟨k, known, alive⟩
    have current := owned.current admitted.2 socket fires.1 admitted.1
    exact (fewer alive).1 (Option.some.inj (known.symm.trans current))
  · exact reported

theorem owned_step (tidy : o.Tidy) (owned : o.Owned) (step : OwnerStep o l next)
    (careful : Careful o l) : next.Owned := by
  cases step with
  | start =>
    have kept : o.unstop.Kept := ⟨owned.live, owned.waiting, owned.own, owned.fresh⟩
    apply kept.connect tidy.unstop careful
    intro busy _
    apply owned.current
    by_contra stopped
    rw [Bool.not_eq_false] at stopped
    have halted := (tidy.halted stopped).2.2
    simp [unstop, halted] at busy
  | stop =>
    unfold stop
    rw [clearRetry_eq]
    · have kept : ({ o with transport := { o.transport with stopped := true, timer := none }
                            timers := [] } : Owner).Kept :=
        ⟨owned.live, untimed rfl, owned.own, owned.fresh⟩
      obtain ⟨dead, fresh⟩ := kept.closeSocket
      exact ⟨.closed dead rfl fresh, fun running => absurd running Bool.noConfusion⟩
    · exact tidy.timers
  | connect => exact owned.connect tidy careful fun _ => owned.current
  | ready =>
    unfold ready
    split
    · exact owned
    · rw [clearRetry_eq tidy.timers]
      exact ⟨⟨owned.live, untimed rfl, owned.own, owned.fresh⟩, owned.current⟩
  | reconnectNow =>
    unfold reconnectNow
    split
    · exact owned
    · rename_i running
      rw [clearRetry_eq tidy.timers]
      have kept : ({ o with transport := { o.transport with timer := none }
                            timers := [] } : Owner).Kept :=
        ⟨owned.live, untimed rfl, owned.own, owned.fresh⟩
      obtain ⟨dead, fresh⟩ := (⟨kept.live, kept.waiting, kept.own, kept.fresh⟩ :
        (Owner.supersede { o with transport := { o.transport with timer := none }
                                  timers := [] } .idle).Kept).closeSocket
      apply (Kept.closed dead rfl fresh).connect
      · exact ⟨rfl, fun stopped => absurd stopped running,
          fun k below => Nat.le_succ_of_le (tidy.older k below)⟩
      · rintro ⟨k, known, _⟩
        cases known
      · rintro (busy | busy) <;> cases busy
  | invalidSession => exact owned.retry _ careful
  | send => exact owned
  | hello => exact owned
  | message => exact owned
  | error => exact owned
  | opened =>
    unfold onopen ReconnectingTransport.opened
    split
    · exact ⟨⟨owned.live, owned.waiting, owned.own, owned.fresh⟩, owned.current⟩
    · exact owned
  | closed fires =>
    exact owned.reportedClosed fires
  | timer pending =>
    have timed : o.transport.timer ≠ none := by
      rw [(tidy.fired pending).1]
      exact Option.some_ne_none _
    have dead : ¬ o.holdsLive := owned.waiting timed
    apply (owned.disarm _).connect (tidy.disarm pending)
    · exact fun held => absurd held dead
    · exact fun _ => owned.current

theorem owned (reached : (owner.restrict Careful).Reachable o) : o.Owned := by
  induction reached with
  | start initial =>
    obtain rfl := initial
    exact ⟨⟨nofun, nofun, nofun, fun _ _ => rfl⟩, nofun⟩
  | next before step owned =>
    exact owned_step (tidy before.of_restrict) owned step.1 step.2

theorem retry_world (o : Owner) (generation : Nat) (random : Fraction) :
    (o.retry generation random).reported = o.reported ∧
      (o.retry generation random).created = o.created := by
  unfold retry
  split <;> exact ⟨rfl, rfl⟩

theorem connect_world (tidy : o.Tidy) (throws : Bool) (random : Fraction) :
    (o.connect throws random).reported = o.reported ∧
      (o.created < (o.connect throws random).created →
        (o.connect throws random).transport.socket = some o.created) := by
  have result := connected tidy throws random
  generalize o.connect throws random = next at result
  cases result with
  | refused => exact ⟨rfl, fun more => absurd more (Nat.lt_irrefl _)⟩
  | threw => exact ⟨rfl, fun more => absurd more (Nat.lt_irrefl _)⟩
  | made => exact ⟨rfl, fun _ => rfl⟩

/-- A reported socket stays reported, and a new socket is the transport's. -/
theorem world_step (tidy : o.Tidy) (step : OwnerStep o l next) :
    (∀ socket, o.reported socket = true → next.reported socket = true) ∧
    (o.created < next.created → next.transport.socket = some o.created) := by
  have same : ∀ {socket}, o.created < o.created → socket = some o.created :=
    fun more => absurd more (Nat.lt_irrefl _)
  cases step with
  | start =>
    obtain ⟨reported, made⟩ := connect_world tidy.unstop _ _
    exact ⟨fun socket => by rw [start, reported]; exact id, made⟩
  | connect =>
    obtain ⟨reported, made⟩ := connect_world tidy _ _
    exact ⟨fun socket => by rw [reported]; exact id, made⟩
  | reconnectNow =>
    unfold reconnectNow
    split
    · exact ⟨fun _ => id, same⟩
    · rename_i running
      obtain ⟨reported, made⟩ := connect_world (tidy.abandoned running) _ _
      exact ⟨fun socket => by rw [reported]; exact id, made⟩
  | timer pending =>
    obtain ⟨reported, made⟩ := connect_world (tidy.disarm pending) _ _
    exact ⟨fun socket => by rw [fireTimer, reported]; exact id, made⟩
  | ready =>
    unfold ready
    split <;> exact ⟨fun _ => id, same⟩
  | invalidSession =>
    obtain ⟨reported, created⟩ := retry_world o o.transport.generation _
    unfold invalidSession
    rw [reported, created]
    exact ⟨fun _ => id, same⟩
  | closed =>
    rename_i closing _ _
    have kept : ∀ socket, o.reported socket = true →
        Function.update o.reported closing true socket = true := by
      intro socket reported
      by_cases own : socket = closing
      · simp [own]
      · simpa [own] using reported
    unfold onclose
    dsimp only
    split
    · obtain ⟨reported, created⟩ := retry_world
        { o with reported := Function.update o.reported closing true } (o.generations closing) _
      rw [reported, created]
      exact ⟨kept, same⟩
    · exact ⟨kept, same⟩
  | _ => exact ⟨fun _ => id, same⟩

theorem reported_path (path : Relation.ReflTransGen (fun a b => ∃ l, OwnerStep a l b) o next)
    (known : o.Tidy) (reported : o.reported socket = true) :
    next.Tidy ∧ next.reported socket = true := by
  induction path with
  | refl => exact ⟨known, reported⟩
  | tail _ step ih =>
    obtain ⟨l, step⟩ := step
    exact ⟨tidy_step ih.1 step, (world_step ih.1 step).1 _ ih.2⟩

end Owner

open Owner in
/-- While no live socket is given up, a transport has one live socket at most, a
new socket finds all earlier ones closed, and `invalidSession` silences the
socket it abandons. -/
theorem one_live_socket (reached : (owner.restrict Careful).Reachable o) :
    (∀ first second, o.live first → o.live second → first = second) ∧
    (∀ {l next}, OwnerStep o l next → Careful o l → o.created < next.created →
      ∀ k < o.created, ¬ next.live k) ∧
    (∀ {socket next later after runs}, o.transport.socket = some socket →
      OwnerStep o .invalidSession next → Careful o .invalidSession →
      Relation.ReflTransGen (fun a b => ∃ l, OwnerStep a l b) next later →
      OwnerStep later (.event socket .message runs) after → runs = false) := by
  have known := owned reached
  have tidied := tidy reached.of_restrict
  refine ⟨?_, ?_, ?_⟩
  · intro first second left right
    exact Option.some.inj ((known.live first left).symm.trans (known.live second right))
  · intro l next step careful grows k below alive
    have current := (owned_step tidied known step careful).live k alive
    rw [(world_step tidied step).2 grows] at current
    exact Nat.ne_of_gt below (Option.some.inj current)
  · intro socket next later after runs current step careful path message
    have closed : o.reported socket = true := by
      by_contra unended
      rw [Bool.not_eq_true] at unended
      obtain ⟨below, unclosed⟩ := known.own socket current
      exact careful ⟨socket, current, below, unclosed, unended⟩
    have first := (world_step tidied step).1 socket closed
    obtain ⟨_, kept⟩ := reported_path path (tidy_step tidied step) first
    cases message with
    | message fires =>
      rcases fires.2 with unended | stale
      · rw [kept] at unended
        contradiction
      · simp [ReconnectingTransport.admits, stale]

section First

theorem firstOpen_careful : (owner.restrict Owner.Careful).Reachable firstOpen := by
  have start : (owner.restrict Owner.Careful).Reachable {} := .start rfl
  have started := start.next ⟨@OwnerStep.start _ false zeroFraction, by rintro ⟨_, ⟨⟩, _⟩⟩
  exact started.next ⟨@OwnerStep.opened _ 0 ⟨by decide, .inl rfl⟩, trivial⟩

theorem one_live_socket_first :
    ∃ o, (owner.restrict Owner.Careful).Reachable o ∧ o.live 0 ∧
      ∀ other, o.live other → 0 = other := by
  have live : firstOpen.live 0 := ⟨by decide, rfl, rfl⟩
  exact ⟨_, firstOpen_careful, live, fun other => (one_live_socket firstOpen_careful).1 0 other live⟩

/-- After `invalidSession` the abandoned socket is still heard, and the retry
opens a second one beside it. -/
theorem two_live_sockets :
    ∃ o abandoned next, owner.Reachable o ∧ o.transport.socket = some 0 ∧
      OwnerStep o .invalidSession abandoned ∧
      OwnerStep abandoned (.event 0 .message true) abandoned ∧
      OwnerStep abandoned (.timer 0) next ∧ next.live 0 ∧ next.live 1 := by
  have reached := firstOpen_run.reachable
  have abandon := @OwnerStep.invalidSession firstOpen zeroFraction
  have heard := @OwnerStep.message (firstOpen.invalidSession zeroFraction) 0 ⟨by decide, .inl rfl⟩
  have fired := @OwnerStep.timer 0 (firstOpen.invalidSession zeroFraction) false zeroFraction (by decide)
  exact ⟨_, _, _, reached, rfl, abandon, heard, fired, ⟨by decide, rfl, rfl⟩, ⟨by decide, rfl, rfl⟩⟩

end First
end Conspire.Browser
