import Conspire.Server.Liveness

/-! What each transport of a peer adds to the counters of closed and of dropped transports,
and which reason is recorded for its end. -/
namespace Conspire
open Session Transition
namespace Liveness

/-- The reason that was selected first for a generation. -/
def firstReason (selected : List (Nat × CloseReason)) (g : Nat) : CloseReason :=
  (selected.find? fun entry => entry.1 = g).elim .none Prod.snd

/-- The once-only flag and the reason, against what was counted and selected. -/
structure Closing (s : Liveness) : Prop where
  once : ∀ g, (s.closed ++ s.owedClosed).count g ≤ 1
  unaccounted : s.peer.closeAccounting.accounted = false → (s.closed ++ s.owedClosed).count s.generation = 0
  past : ∀ g ∈ s.closed ++ s.owedClosed, g ≤ s.generation
  reason : s.peer.closeReason = firstReason s.selected s.generation
  known : ∀ entry ∈ s.selected, entry.1 ≤ s.generation ∧ entry.2 ≠ .none

variable {s t : Liveness} {g : Nat} {reason : CloseReason} {counts : Bool} {socket : Socket}

namespace Closing

theorem same (closing : s.Closing) (counted : (t.closed ++ t.owedClosed).Perm (s.closed ++ s.owedClosed))
    (generation : t.generation = s.generation) (accounting : t.peer.closeAccounting = s.peer.closeAccounting)
    (reason : t.peer.closeReason = s.peer.closeReason) (selected : t.selected = s.selected) : t.Closing where
  once g := by
    rw [counted.count_eq]
    exact closing.once g
  unaccounted is := by
    rw [counted.count_eq, generation]
    exact closing.unaccounted (accounting ▸ is)
  past g member := by
    rw [generation]
    exact closing.past g (counted.mem_iff.mp member)
  reason := by rw [reason, generation, selected, closing.reason]
  known entry member := by
    rw [generation]
    exact closing.known entry (selected ▸ member)

theorem firstReason_concat (selected : List (Nat × CloseReason)) (given : ∀ entry ∈ selected, entry.2 ≠ .none) :
    firstReason (selected ++ [(g, reason)]) g =
      if firstReason selected g = .none then reason else firstReason selected g := by
  rw [firstReason, firstReason, List.find?_append]
  cases found : selected.find? fun entry => entry.1 = g with
  | none => simp
  | some entry =>
    have apart := given entry (List.mem_of_find?_eq_some found)
    simp [apart]

theorem select (closing : s.Closing) (given : reason ≠ .none) : (s.select reason counts).Closing := by
  have chosen : (s.select reason counts).peer.closeReason =
      firstReason (s.select reason counts).selected s.generation := by
    rw [Liveness.select, firstReason_concat _ fun entry member => (closing.known entry member).2, ← closing.reason]
    rfl
  have known : ∀ entry ∈ (s.select reason counts).selected, entry.1 ≤ s.generation ∧ entry.2 ≠ .none := by
    intro entry member
    rcases List.mem_append.mp member with old | new
    · exact closing.known entry old
    · rw [List.mem_singleton.mp new]
      exact ⟨Nat.le_refl _, given⟩
  cases accounted : s.peer.closeAccounting.accounted with
  | true =>
    have flag : (s.peer.selectCloseReasonLocked reason).2 = false := by
      simp [Peer.selectCloseReasonLocked, TerminalCloseAccounting.accountOnce, accounted]
    have kept : (s.select reason counts).owedClosed = s.owedClosed := by
      simp [Liveness.select, flag]
    have still : (s.select reason counts).peer.closeAccounting.accounted = true := by
      simp [Liveness.select, Peer.selectCloseReasonLocked, TerminalCloseAccounting.accountOnce, accounted]
    refine ⟨fun g => ?_, fun is => ?_, fun g member => ?_, chosen, known⟩
    · rw [kept]
      exact closing.once g
    · rw [still] at is
      cases is
    · rw [kept] at member
      exact closing.past g member
  | false =>
    have uncounted := closing.unaccounted accounted
    have still : (s.select reason counts).peer.closeAccounting.accounted = true := by
      simp [Liveness.select, Peer.selectCloseReasonLocked, TerminalCloseAccounting.accountOnce, accounted]
    have owed : (s.select reason counts).owedClosed = s.owedClosed ∨
        (s.select reason counts).owedClosed = s.generation :: s.owedClosed := by
      rw [Liveness.select]
      dsimp only
      split
      · exact .inr rfl
      · exact .inl rfl
    refine ⟨fun g => ?_, fun is => ?_, fun g member => ?_, chosen, known⟩
    · have before := closing.once g
      rw [List.count_append] at before uncounted
      change (s.closed ++ (s.select reason counts).owedClosed).count g ≤ 1
      rcases owed with same | more
      · rw [same, List.count_append]
        exact before
      · rw [more, List.count_append, List.count_cons]
        split
        · rename_i own
          rw [← beq_iff_eq.mp own] at before ⊢
          omega
        · omega
    · rw [still] at is
      cases is
    · change g ∈ s.closed ++ (s.select reason counts).owedClosed at member
      rcases owed with same | more
      · rw [same] at member
        exact closing.past g member
      · rw [more] at member
        rcases List.mem_append.mp member with old | new
        · exact closing.past g (List.mem_append_left _ old)
        · rcases List.mem_cons.mp new with rfl | old
          · exact Nat.le_refl _
          · exact closing.past g (List.mem_append_right _ old)

theorem invalidate (closing : s.Closing) (given : reason ≠ .none) : (s.invalidate g reason).Closing := by
  rcases s.invalidate_cases g reason with is | ⟨-, is⟩
  · rwa [is]
  · rw [is]
    exact closing.select given

theorem drop (closing : s.Closing) {seen : Observation} : (s.drop g seen).Closing := by
  have invalid : (s.invalidate g .heartbeatTimeout).Closing := closing.invalidate nofun
  rcases s.drop_cases g seen with is | ⟨-, -, is⟩
  · rwa [is]
  · rw [is]
    exact invalid.same (.refl _) rfl rfl rfl rfl

/-- A new transport starts with neither a count nor a reason. -/
theorem replace (closing : s.Closing) (beating : s.Beating) : (s.replace socket).Closing := by
  have next : (s.replace socket).generation = s.generation + 1 := by
    rw [← beating.fence]
    rfl
  refine ⟨closing.once, fun _ => ?_, fun g member => ?_, ?_, fun entry member => ?_⟩
  · apply List.count_eq_zero.mpr
    intro member
    have old := closing.past _ member
    omega
  · have old := closing.past g member
    omega
  · have unselected : s.selected.find? (fun entry => entry.1 = (s.replace socket).generation) = none := by
      apply List.find?_eq_none.mpr
      intro entry member is
      have old := (closing.known entry member).1
      have same : entry.1 = (s.replace socket).generation := by simpa using is
      omega
    have unselected : firstReason s.selected (s.replace socket).generation = .none := by
      rw [firstReason, unselected]
      rfl
    exact unselected.symm
  · have old := closing.known entry member
    exact ⟨by omega, old.2⟩

end Closing

theorem closing (reached : liveness.Reachable s) : s.Closing := by
  apply reached.invariant
  · rintro s ⟨socket, room, nickname, peerId, now, rfl⟩
    exact ⟨fun _ => Nat.zero_le _, fun _ => rfl, by simp [Liveness.create], rfl, by simp [Liveness.create]⟩
  · intro s label t reached closing step
    cases step with
    | clock | handled | stale | sample => exact closing.same (.refl _) rfl rfl rfl rfl
    | replace => exact closing.replace (beating reached)
    | @detach _ socket =>
      obtain ⟨generation, -, -, reason, accounting, -⟩ := detach_generation s.peer socket
      exact closing.same (.refl _) generation accounting reason rfl
    | frame =>
      rename_i socket _ _
      refine closing.same ?_ hear_generation ?_ ?_ ?_ <;> (rw [hear]; split <;> rfl)
    | control =>
      rename_i socket
      refine closing.same ?_ hear_generation ?_ ?_ ?_ <;> (rw [hear]; split <;> rfl)
    | protocolError | remoteClose | shutdown => exact closing.select (by decide)
    | tick =>
      refine closing.same ?_ (tick_bound _ _ _).2.1 ?_ ?_ ?_ <;> (rw [tick]; split <;> rfl)
    | drop =>
      apply Closing.drop
      exact closing.same (.refl _) rfl rfl rfl rfl
    | pingWritten => exact closing.same (.refl _) rfl rfl rfl rfl
    | pingFailed => exact Closing.invalidate (closing.same (.refl _) rfl rfl rfl rfl) (by decide)
    | writeError => exact closing.invalidate (by decide)
    | countClosed is =>
      refine closing.same ?_ rfl rfl rfl rfl
      rw [is]
      simp only [List.cons_append, ← List.append_assoc]
      exact List.perm_middle.symm
    | countDropped => exact closing.same (.refl _) rfl rfl rfl rfl

/-- An iteration that would drop a generation. -/
def Iteration.drops (g : Nat) : Iteration → Bool
  | .expired h _ => h = g
  | .sampled _ => false

/-- The iterations that can still drop a generation: those of the attached transport. -/
def dropping (s : Liveness) (g : Nat) : Nat :=
  if g = s.generation ∧ s.peer.socket.isSome then s.iterations.countP (Iteration.drops g) else 0

/-- No tick finds an attached transport expired that an earlier tick has found so. -/
def ExpiresOnce (s : Liveness) : LivenessLabel → Prop
  | .tick _ => Heartbeat.deadline ≤ s.now - s.peer.heartbeat.lastInbound → s.peer.socket.isSome →
      s.generation ∉ s.expired
  | _ => True

/-- Every drop is due to a tick that found its transport expired. -/
structure Dropping (s : Liveness) : Prop where
  due : ∀ g, (s.dropped ++ s.owedDropped).count g + s.dropping g ≤ s.expired.count g
  distinct : s.expired.Nodup

namespace Dropping

theorem fewer (dropping : s.Dropping) (counted : (t.dropped ++ t.owedDropped).Perm (s.dropped ++ s.owedDropped))
    (expired : t.expired = s.expired) (less : ∀ g, t.dropping g ≤ s.dropping g) : t.Dropping where
  due g := by
    have before := dropping.due g
    have fewer := less g
    rw [counted.count_eq, expired]
    omega
  distinct := expired ▸ dropping.distinct

theorem attached (own : g = t.generation) (linked : t.peer.socket.isSome) :
    t.dropping g = t.iterations.countP (Iteration.drops g) := by
  rw [Liveness.dropping, if_pos ⟨own, linked⟩]

theorem other (apart : g ≠ t.generation ∨ t.peer.socket.isSome = false) : t.dropping g = 0 := by
  rw [Liveness.dropping, if_neg]
  rintro ⟨own, linked⟩
  rcases apart with apart | detached
  · exact apart own
  · rw [detached] at linked
    cases linked

/-- With the same transport and fewer iterations. -/
theorem dropping_le (generation : t.generation = s.generation) (socket : t.peer.socket = s.peer.socket)
    (iterations : t.iterations.Sublist s.iterations) (g : Nat) : t.dropping g ≤ s.dropping g := by
  rw [Liveness.dropping, Liveness.dropping, generation, socket]
  split
  · exact iterations.countP_le
  · exact Nat.le_refl _

theorem invalidate (dropping : s.Dropping) : (s.invalidate g reason).Dropping := by
  rcases s.invalidate_cases g reason with is | ⟨-, is⟩
  · rwa [is]
  · rw [is]
    exact dropping.fewer (.refl _) rfl (dropping_le rfl rfl (.refl _))

theorem hear (dropping : s.Dropping) (socket : Socket) : (s.hear socket).Dropping := by
  rw [Liveness.hear]
  split
  · exact dropping.fewer (.refl _) rfl (dropping_le rfl rfl (.refl _))
  · exact dropping

/-- No iteration is about the new transport. -/
theorem replace (dropping : s.Dropping) (reached : liveness.Reachable s) : (s.replace socket).Dropping := by
  have next : (s.replace socket).generation = s.generation + 1 := by
    rw [← (beating reached).fence]
    rfl
  refine dropping.fewer (.refl _) rfl fun g => ?_
  rw [Liveness.dropping]
  split
  · rename_i own
    rw [List.countP_eq_zero.mpr]
    · exact Nat.zero_le _
    · intro i member is
      cases i with
      | sampled h => cases is
      | expired h seen =>
        have old := (watched reached).expired h seen member
        have same : h = g := of_decide_eq_true is
        omega
  · exact Nat.zero_le _

theorem detach (dropping : s.Dropping) :
    Dropping { s with peer := (s.peer.detachIfCurrent socket).1 } := by
  obtain ⟨generation, -, -, -, -, kept⟩ := detach_generation s.peer socket
  refine dropping.fewer (.refl _) rfl fun g => ?_
  cases apart : (s.peer.detachIfCurrent socket).1.socket with
  | none =>
    rw [other (.inr (congrArg Option.isSome apart))]
    exact Nat.zero_le _
  | some bound =>
    refine @dropping_le s _ ?_ ?_ ?_ g
    · exact generation
    · exact apart.trans (kept bound apart).symm
    · exact .refl _

/-- One more transport is found expired, and one more iteration may drop it. -/
theorem found (dropping : s.Dropping) (fresh : s.generation ∉ s.expired) {i : Iteration} {others : List Iteration}
    (linked : s.peer.socket.isSome) (fewer : others.Sublist s.iterations)
    (generation : t.generation = s.generation) (socket : t.peer.socket = s.peer.socket)
    (iterations : t.iterations = i :: others) (counted : t.dropped ++ t.owedDropped = s.dropped ++ s.owedDropped)
    (expired : t.expired = s.generation :: s.expired) : t.Dropping where
  due g := by
    have before := dropping.due g
    rw [counted, expired]
    by_cases own : g = s.generation
    · subst own
      have less := @List.Sublist.countP_le _ (Iteration.drops s.generation) _ _ fewer
      rw [attached rfl linked] at before
      rw [attached generation.symm (socket ▸ linked), iterations, List.countP_cons, List.count_cons_self]
      split <;> omega
    · rw [other (.inl (generation ▸ own)), List.count_cons_of_ne (Ne.symm own)]
      omega
  distinct := by
    rw [expired]
    exact List.nodup_cons.mpr ⟨fresh, dropping.distinct⟩

/-- A tick makes a drop due only when it finds an attached transport expired. -/
theorem tick (dropping : s.Dropping) {front back : List Iteration}
    (is : s.iterations = front ++ .sampled g :: back) (once : ExpiresOnce s (.tick g)) :
    (s.tick g (front ++ back)).Dropping := by
  have others : (front ++ back).Sublist s.iterations := by
    rw [is]
    exact (List.Sublist.refl front).append (List.sublist_cons_self ..)
  rw [Liveness.tick]
  split
  · rename_i late
    split
    · rename_i linked
      exact dropping.found (once (tick_expired late) linked) linked others rfl rfl rfl rfl rfl
    · rename_i detached
      refine dropping.fewer (.refl _) rfl fun h => ?_
      rw [other (.inr (Bool.not_eq_true _ ▸ detached))]
      exact Nat.zero_le _
  · exact dropping.fewer (.refl _) rfl (dropping_le rfl rfl others)
  · exact dropping.fewer (.refl _) rfl (dropping_le rfl rfl others)

theorem invalidate_kept (s : Liveness) (g : Nat) (reason : CloseReason) :
    (s.invalidate g reason).iterations = s.iterations ∧ (s.invalidate g reason).dropped = s.dropped ∧
      (s.invalidate g reason).expired = s.expired := by
  rcases s.invalidate_cases g reason with is | ⟨-, is⟩ <;> rw [is] <;> exact ⟨rfl, rfl, rfl⟩

/-- One of the drops that are due is made. -/
theorem made (dropping : s.Dropping) {front back : List Iteration} {seen : Observation}
    (is : s.iterations = front ++ .expired s.generation seen :: back) (linked : s.peer.socket.isSome)
    (generation : t.generation = s.generation) (socket : t.peer.socket = s.peer.socket)
    (iterations : t.iterations = front ++ back) (dropped : t.dropped = s.dropped)
    (owed : t.owedDropped = s.generation :: s.owedDropped) (expired : t.expired = s.expired) : t.Dropping where
  due g := by
    have before := dropping.due g
    rw [dropped, owed, expired]
    rw [List.count_append] at before ⊢
    by_cases own : g = s.generation
    · subst own
      rw [attached rfl linked, is, List.countP_append, List.countP_cons_of_pos (by simp [Iteration.drops])] at before
      rw [attached generation.symm (socket ▸ linked), iterations, List.countP_append, List.count_cons_self]
      omega
    · rw [other (.inl own)] at before
      rw [other (.inl (generation ▸ own)), List.count_cons_of_ne (Ne.symm own)]
      exact before
  distinct := expired ▸ dropping.distinct

theorem drop (dropping : s.Dropping) {front back : List Iteration} {seen : Observation}
    (is : s.iterations = front ++ .expired g seen :: back) :
    (Liveness.drop { s with iterations := front ++ back } g seen).Dropping := by
  have others : (front ++ back).Sublist s.iterations := by
    rw [is]
    exact (List.Sublist.refl front).append (List.sublist_cons_self ..)
  have without : Dropping { s with iterations := front ++ back } :=
    dropping.fewer (.refl _) rfl (dropping_le rfl rfl others)
  have invalid : (Liveness.invalidate { s with iterations := front ++ back } g .heartbeatTimeout).Dropping :=
    without.invalidate
  rcases drop_cases { s with iterations := front ++ back } g seen with same | ⟨own, linked, same⟩
  · rw [same]
    exact invalid
  obtain rfl : g = s.generation := own
  obtain ⟨-, generation, socket, -⟩ :=
    invalidate_bound { s with iterations := front ++ back } s.generation .heartbeatTimeout
  obtain ⟨iterations, dropped, expired⟩ :=
    invalidate_kept { s with iterations := front ++ back } s.generation .heartbeatTimeout
  rw [same]
  exact dropping.made is linked generation socket iterations dropped rfl expired

end Dropping

theorem drops_due (reached : (liveness.restrict ExpiresOnce).Reachable s) : s.Dropping := by
  apply reached.invariant
  · rintro s ⟨socket, room, nickname, peerId, now, rfl⟩
    refine ⟨fun g => ?_, .nil⟩
    rw [Liveness.dropping]
    split <;> exact Nat.le_refl _
  · rintro s label t reached dropping ⟨step, once⟩
    have reached := reached.of_restrict
    cases step with
    | clock | handled | stale | countClosed | pingWritten =>
      exact dropping.fewer (.refl _) rfl (Dropping.dropping_le rfl rfl (.refl _))
    | replace => exact dropping.replace reached
    | detach => exact dropping.detach
    | frame =>
      rename_i socket _ _
      exact (dropping.hear socket).fewer (.refl _) rfl (Dropping.dropping_le rfl rfl (.refl _))
    | control => exact dropping.hear _
    | protocolError | remoteClose | shutdown =>
      exact dropping.fewer (.refl _) rfl (Dropping.dropping_le rfl rfl (.refl _))
    | sample =>
      refine dropping.fewer (.refl _) rfl fun g => ?_
      rw [Liveness.dropping, Liveness.dropping]
      exact Nat.le_refl _
    | tick is => exact dropping.tick is once
    | drop is => exact dropping.drop is
    | pingFailed =>
      apply Dropping.invalidate
      exact dropping.fewer (.refl _) rfl (Dropping.dropping_le rfl rfl (.refl _))
    | writeError => exact dropping.invalidate
    | countDropped is =>
      refine dropping.fewer ?_ rfl (Dropping.dropping_le rfl rfl (.refl _))
      rw [is]
      simp only [List.cons_append, ← List.append_assoc]
      exact List.perm_middle.symm

/-- In every run a generation adds at most one to the closed transports, and its recorded reason is
the first that was selected for it. As long as no attached transport is found expired twice, it
adds at most one to the dropped ones as well. -/
theorem transports_counted_once (s : Liveness) :
    (liveness.Reachable s →
      (∀ g, (s.closed ++ s.owedClosed).count g ≤ 1) ∧ s.peer.closeReason = firstReason s.selected s.generation) ∧
    ((liveness.restrict ExpiresOnce).Reachable s → ∀ g, (s.dropped ++ s.owedDropped).count g ≤ 1) := by
  constructor
  · intro reached
    have closing := closing reached
    exact ⟨closing.once, closing.reason⟩
  · intro reached g
    have dropping := drops_due reached
    have due := dropping.due g
    have one := List.nodup_iff_count.mp dropping.distinct g
    omega

/-- The first transport is found silent and dropped, its write then fails, a second transport replaces
it, and a write of the first one fails once more. -/
theorem transports_counted_once_first : ∃ s, (liveness.restrict ExpiresOnce).Reachable s ∧
    s.generation = 2 ∧ s.closed = [1] ∧ s.dropped = [1] ∧ s.owedClosed = [] ∧ s.peer.closeReason = .none ∧
    s.selected = [(1, .heartbeatTimeout), (1, .writeError)] ∧
    (∀ g, (s.closed ++ s.owedClosed).count g ≤ 1) ∧ s.peer.closeReason = firstReason s.selected s.generation ∧
    ∀ g, (s.dropped ++ s.owedDropped).count g ≤ 1 := by
  have dropped := @iterate_run silent ExpiresOnce ⟨1, seconds 120, 0, none⟩ (silent_run fun _ _ => trivial) rfl rfl
    ⟨trivial, fun _ _ => List.not_mem_nil, fun _ => trivial⟩
  have failed := dropped.next ⟨@LivenessStep.writeError _ 1, trivial⟩
  have closed := failed.next ⟨.countClosed (show _ = [] ++ 1 :: [] from rfl), trivial⟩
  have counted := closed.next ⟨.countDropped (show _ = [] ++ 1 :: [] from rfl), trivial⟩
  have replaced := counted.next ⟨@LivenessStep.replace 1 _ rfl (by decide), trivial⟩
  have late := replaced.next ⟨@LivenessStep.writeError _ 1, trivial⟩
  obtain ⟨always, once⟩ := transports_counted_once _
  obtain ⟨first, reason⟩ := always late.of_restrict
  exact ⟨_, late, rfl, rfl, rfl, rfl, rfl, rfl, first, reason, once late⟩

/-- An attached transport that is found expired in two iterations is dropped twice. -/
theorem dropped_twice : ∃ s, liveness.Reachable s ∧ s.dropped.count 1 = 2 := by
  have once := @iterate_run silent (fun _ _ => True) ⟨1, seconds 120, 0, none⟩ (silent_run fun _ _ => trivial) rfl rfl
    ⟨trivial, trivial, fun _ => trivial⟩
  have twice := (@iterate_run _ (fun _ _ => True) ⟨1, seconds 120, 0, none⟩ once rfl rfl
    ⟨trivial, trivial, fun _ => trivial⟩).of_restrict
  have first := twice.next (.countDropped (show _ = [] ++ 1 :: [1] from rfl))
  have second := first.next (.countDropped (show _ = [] ++ 1 :: [] from rfl))
  exact ⟨_, second, rfl⟩

end Liveness
end Conspire
