import Conspire.Server.Liveness

/-! The pings of each transport of a peer: how far apart they are queued, and how many of
them are still to be written. -/
namespace Conspire
open Session Transition
namespace Liveness
variable {s t : Liveness} {g : Nat} {reason : CloseReason} {socket : Socket}

/-- The pings that were queued, oldest first, up to the last probe of the current transport. -/
structure Spaced (s : Liveness) : Prop where
  apart : s.queued.Pairwise fun earlier later => earlier.1 = later.1 → earlier.2 + seconds 30 ≤ later.2
  past : ∀ ping ∈ s.queued, ping.1 ≤ s.generation ∧
    (ping.1 = s.generation → ping.2 ≤ s.peer.heartbeat.lastProbe)

namespace Spaced

theorem same (spaced : s.Spaced) (queued : t.queued = s.queued) (generation : t.generation = s.generation)
    (probe : t.peer.heartbeat.lastProbe = s.peer.heartbeat.lastProbe) : t.Spaced where
  apart := queued ▸ spaced.apart
  past ping member := by
    rw [generation, probe]
    exact spaced.past ping (queued ▸ member)

theorem invalidate (spaced : s.Spaced) : (s.invalidate g reason).Spaced := by
  rcases s.invalidate_cases g reason with is | ⟨-, is⟩
  · rwa [is]
  · rw [is]
    exact spaced.same rfl rfl rfl

theorem drop (spaced : s.Spaced) {seen : Observation} : (s.drop g seen).Spaced := by
  have invalid : (s.invalidate g .heartbeatTimeout).Spaced := spaced.invalidate
  rcases s.drop_cases g seen with is | ⟨-, -, is⟩
  · rwa [is]
  · rw [is]
    exact invalid.same rfl rfl rfl

theorem inbound_probe (heartbeat : Heartbeat) (now : TimePoint) (g : Nat) :
    (heartbeat.inbound now g).1.lastProbe = heartbeat.lastProbe := by
  rw [Heartbeat.inbound]
  split <;> rfl

theorem hear (spaced : s.Spaced) (socket : Socket) : (s.hear socket).Spaced := by
  rw [Liveness.hear]
  split
  · exact spaced.same rfl rfl (inbound_probe ..)
  · exact spaced

/-- A ping is queued only when the last probe lies an interval back. -/
theorem tick (spaced : s.Spaced) (beating : s.Beating) (others : List Iteration) : (s.tick g others).Spaced := by
  rw [Liveness.tick]
  split
  · exact spaced.same rfl rfl rfl
  · exact spaced.same rfl rfl rfl
  · rename_i next is
    obtain ⟨-, interval, rfl⟩ := tick_queuePing is
    have late := Nat.add_le_of_le_sub' beating.probe interval
    have old : ∀ ping ∈ s.queued, ping.1 = s.generation → ping.2 + seconds 30 ≤ s.now :=
      fun ping member own => Nat.le_trans (Nat.add_le_add_right ((spaced.past ping member).2 own) _) late
    split
    · refine ⟨?_, fun ping member => ?_⟩
      · refine List.pairwise_append.mpr ⟨spaced.apart, List.pairwise_singleton .., fun ping member new last own => ?_⟩
        rw [List.mem_singleton.mp last] at own ⊢
        exact old ping member own
      · rcases List.mem_append.mp member with before | new
        · refine ⟨(spaced.past ping before).1, fun own => ?_⟩
          exact Nat.le_trans (Nat.le_add_right _ _) (old ping before own)
        · rw [List.mem_singleton.mp new]
          exact ⟨Nat.le_refl _, fun _ => Nat.le_refl _⟩
    · refine ⟨spaced.apart, fun ping member => ⟨(spaced.past ping member).1, fun own => ?_⟩⟩
      exact Nat.le_trans (Nat.le_add_right _ _) (old ping member own)

theorem replace (spaced : s.Spaced) (beating : s.Beating) : (s.replace socket).Spaced := by
  have next : (s.replace socket).generation = s.generation + 1 := by
    rw [← beating.fence]
    rfl
  refine ⟨spaced.apart, fun ping member => ?_⟩
  have old := (spaced.past ping member).1
  exact ⟨by omega, fun own => by omega⟩

end Spaced

theorem spaced (reached : liveness.Reachable s) : s.Spaced := by
  apply reached.invariant
  · rintro s ⟨socket, room, nickname, peerId, now, rfl⟩
    exact ⟨.nil, nofun⟩
  · intro s label t reached spaced step
    cases step with
    | clock | handled | stale | sample | protocolError | remoteClose | shutdown | countClosed | countDropped =>
      exact spaced.same rfl rfl rfl
    | replace => exact spaced.replace (beating reached)
    | @detach _ socket =>
      obtain ⟨generation, -, heartbeat, -⟩ := detach_generation s.peer socket
      exact spaced.same rfl generation (congrArg _ heartbeat)
    | frame =>
      rename_i socket _ _
      exact (spaced.hear socket).same rfl rfl rfl
    | control => exact spaced.hear _
    | tick => exact spaced.tick (beating reached) _
    | drop =>
      apply Spaced.drop
      exact spaced.same rfl rfl rfl
    | pingWritten => exact spaced.same rfl rfl (writeCompleted_same ..).2.2
    | pingFailed =>
      apply Spaced.invalidate
      exact spaced.same rfl rfl rfl
    | writeError => exact spaced.invalidate

/-- Nothing arrives on the current transport while the write of one of its pings is pending. -/
def QuietWrites (s : Liveness) : LivenessLabel → Prop
  | .frame socket => s.peer.socket = some socket → s.generation ∉ s.pings
  | .control socket => s.peer.socket = some socket → s.generation ∉ s.pings
  | _ => True

/-- The pings to be written, against the flag of the heartbeat. -/
structure Pending (s : Liveness) : Prop where
  one : s.pings.count s.generation ≤ 1
  flagged : s.generation ∈ s.pings → s.peer.heartbeat.pingQueued = true
  past : ∀ g ∈ s.pings, g ≤ s.generation

namespace Pending

theorem same (pending : s.Pending) (pings : t.pings = s.pings) (generation : t.generation = s.generation)
    (flag : t.peer.heartbeat.pingQueued = s.peer.heartbeat.pingQueued) : t.Pending where
  one := by
    rw [pings, generation]
    exact pending.one
  flagged member := by
    rw [flag]
    exact pending.flagged (generation ▸ pings ▸ member)
  past g member := by
    rw [generation]
    exact pending.past g (pings ▸ member)

theorem invalidate (pending : s.Pending) : (s.invalidate g reason).Pending := by
  rcases s.invalidate_cases g reason with is | ⟨-, is⟩
  · rwa [is]
  · rw [is]
    exact pending.same rfl rfl rfl

theorem drop (pending : s.Pending) {seen : Observation} : (s.drop g seen).Pending := by
  have invalid : (s.invalidate g .heartbeatTimeout).Pending := pending.invalidate
  rcases s.drop_cases g seen with is | ⟨-, -, is⟩
  · rwa [is]
  · rw [is]
    exact invalid.same rfl rfl rfl

theorem hear (pending : s.Pending) (quiet : s.peer.socket = some socket → s.generation ∉ s.pings) :
    (s.hear socket).Pending := by
  rw [Liveness.hear]
  split
  · rename_i current
    exact ⟨pending.one, fun member => absurd member (quiet current), pending.past⟩
  · exact pending

/-- A ping is queued only when the flag says that none is. -/
theorem tick (pending : s.Pending) (others : List Iteration) : (s.tick g others).Pending := by
  rw [Liveness.tick]
  split
  · exact pending.same rfl rfl rfl
  · exact pending.same rfl rfl rfl
  · rename_i next is
    obtain ⟨free, -, rfl⟩ := tick_queuePing is
    have unqueued : s.generation ∉ s.pings := by
      intro member
      rw [pending.flagged member] at free
      cases free
    split
    · refine ⟨?_, fun _ => rfl, fun h member => ?_⟩
      · change (s.generation :: s.pings).count s.generation ≤ 1
        exact Nat.le_of_eq (by rw [List.count_cons_self, List.count_eq_zero.mpr unqueued])
      · rcases List.mem_cons.mp member with rfl | old
        · exact Nat.le_refl _
        · exact pending.past h old
    · exact ⟨pending.one, fun _ => rfl, pending.past⟩

theorem replace (pending : s.Pending) (beating : s.Beating) : (s.replace socket).Pending := by
  have next : (s.replace socket).generation = s.generation + 1 := by
    rw [← beating.fence]
    rfl
  have unqueued : (s.replace socket).generation ∉ s.pings := by
    intro member
    have old := pending.past _ member
    omega
  refine ⟨?_, fun member => absurd member unqueued, fun h member => ?_⟩
  · change s.pings.count (s.replace socket).generation ≤ 1
    rw [List.count_eq_zero.mpr unqueued]
    exact Nat.zero_le _
  · have old := pending.past h member
    omega

/-- The write that completes is the one the flag is about. -/
theorem completePing (pending : s.Pending) (beating : s.Beating) {front back : List Nat} {success : Bool}
    (is : s.pings = front ++ g :: back) : (s.completePing g success (front ++ back)).Pending := by
  have one := pending.one
  have fewer : ∀ h ∈ front ++ back, h ∈ s.pings := by
    intro h member
    rw [is]
    rcases List.mem_append.mp member with old | new
    · exact List.mem_append_left _ old
    · exact List.mem_append_right _ (List.mem_cons_of_mem _ new)
  rw [is, List.count_append] at one
  by_cases own : g = s.generation
  · have unqueued : s.generation ∉ front ++ back := by
      apply List.count_eq_zero.mp
      rw [own, List.count_cons_self] at one
      rw [List.count_append]
      omega
    refine ⟨?_, fun member => absurd member unqueued, fun h member => pending.past h (fewer h member)⟩
    change (front ++ back).count s.generation ≤ 1
    rw [List.count_eq_zero.mpr unqueued]
    exact Nat.zero_le _
  · have stale : s.peer.heartbeat.writeCompleted g success = _ := writeCompleted_other (beating.beat ▸ own)
    refine ⟨?_, fun member => ?_, fun h member => pending.past h (fewer h member)⟩
    · change (front ++ back).count s.generation ≤ 1
      rw [List.count_cons_of_ne own] at one
      rw [List.count_append]
      exact one
    · simp only [Liveness.completePing, stale]
      exact pending.flagged (fewer _ member)

end Pending

theorem pending (reached : (liveness.restrict QuietWrites).Reachable s) : s.Pending := by
  apply reached.invariant
  · rintro s ⟨socket, room, nickname, peerId, now, rfl⟩
    exact ⟨Nat.zero_le _, nofun, nofun⟩
  · rintro s label t reached pending ⟨step, quiet⟩
    have reached := reached.of_restrict
    cases step with
    | clock | handled | stale | sample | protocolError | remoteClose | shutdown | countClosed | countDropped =>
      exact pending.same rfl rfl rfl
    | replace => exact pending.replace (beating reached)
    | @detach _ socket =>
      obtain ⟨generation, -, heartbeat, -⟩ := detach_generation s.peer socket
      exact pending.same rfl generation (congrArg _ heartbeat)
    | frame =>
      rename_i socket _ _
      exact (pending.hear quiet).same rfl rfl rfl
    | control => exact pending.hear quiet
    | tick => exact pending.tick _
    | drop =>
      apply Pending.drop
      exact pending.same rfl rfl rfl
    | pingWritten is => exact pending.completePing (beating reached) is
    | pingFailed =>
      apply Pending.invalidate
      exact pending.same rfl rfl rfl
    | writeError => exact pending.invalidate

/-- Pings of one transport are always queued an interval apart, and at most one of them is to
be written as long as nothing arrives while one is. -/
theorem pings_apart (s : Liveness) :
    (liveness.Reachable s → s.queued.Pairwise fun earlier later =>
      earlier.1 = later.1 → earlier.2 + seconds 30 ≤ later.2) ∧
    ((liveness.restrict QuietWrites).Reachable s → s.pings.count s.generation ≤ 1) :=
  ⟨fun reached => (spaced reached).apart, fun reached => (pending reached).one⟩

/-- One iteration of `pingAllPeers` up to its tick, with nothing between its steps. -/
def probe (s : Liveness) : Liveness :=
  Liveness.tick { s with iterations := [.sampled s.generation] } s.generation ([] ++ [])

theorem probe_run {ok : Liveness → LivenessLabel → Prop} (reached : (liveness.restrict ok).Reachable s)
    (idle : s.iterations = [])
    (meets : ok s .sample ∧ ok { s with iterations := [.sampled s.generation] } (.tick s.generation)) :
    (liveness.restrict ok).Reachable s.probe := by
  have sampled : liveness.step s .sample { s with iterations := [.sampled s.generation] } := by
    have step := @LivenessStep.sample s
    rwa [idle] at step
  exact (reached.next ⟨sampled, meets.1⟩).next ⟨.tick (List.nil_append _).symm, meets.2⟩

/-- Two pings half a minute apart. The first is written and answered before the second is queued. -/
theorem pings_apart_first : ∃ s, (liveness.restrict QuietWrites).Reachable s ∧
    s.queued = [(1, seconds 30), (1, seconds 60)] ∧
    (s.queued.Pairwise fun earlier later => earlier.1 = later.1 → earlier.2 + seconds 30 ≤ later.2) ∧
    s.pings = [1] ∧ s.pings.count s.generation ≤ 1 := by
  have start : (liveness.restrict QuietWrites).Reachable (create 0 0 [] 0 0) := .start ⟨0, 0, [], 0, 0, rfl⟩
  have half := start.next ⟨.clock (show 0 ≤ seconds 30 from Nat.zero_le _), trivial⟩
  have first := probe_run half rfl ⟨trivial, trivial⟩
  have written := first.next ⟨@LivenessStep.pingWritten [] 1 [] _ true rfl, trivial⟩
  have answered := written.next ⟨@LivenessStep.control _ 0, fun _ => List.not_mem_nil⟩
  have minute := answered.next ⟨.clock (show seconds 30 ≤ seconds 60 by decide), trivial⟩
  have second := probe_run minute rfl ⟨trivial, trivial⟩
  obtain ⟨apart, pending⟩ := pings_apart _
  exact ⟨_, second, rfl, apart second.of_restrict, rfl, pending second⟩

/-- A ping is queued after each half minute, and a pong arrives before the first is written. -/
theorem two_pending : ∃ s, liveness.Reachable s ∧ s.pings.count s.generation = 2 := by
  have start : (liveness.restrict fun _ _ => True).Reachable (create 0 0 [] 0 0) := .start ⟨0, 0, [], 0, 0, rfl⟩
  have half := start.next ⟨.clock (show 0 ≤ seconds 30 from Nat.zero_le _), trivial⟩
  have first := probe_run half rfl ⟨trivial, trivial⟩
  have heard := first.next ⟨@LivenessStep.control _ 0, trivial⟩
  have minute := heard.next ⟨.clock (show seconds 30 ≤ seconds 60 by decide), trivial⟩
  have second := probe_run minute rfl ⟨trivial, trivial⟩
  exact ⟨_, second.of_restrict, rfl⟩

end Liveness
end Conspire
