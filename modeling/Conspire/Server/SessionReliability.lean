import Conspire.Server.Boundaries

/-! Sessions that outlive their transport (`utils/SessionReliability.hpp`):
identifiers, the room sequence, replay decisions, the per-session dedupe window,
leases and transport generations. Time points count nanoseconds of the
monotonic clock. -/
namespace Conspire.Session

abbrev TimePoint := Nat

def seconds (n : Nat) : Nat := n * 1000000000

def gracePeriod : Nat := seconds 300
def pendingHelloPeriod : Nat := seconds 10
def maxClientMessageIdBytes : Nat := 64
def maxDedupeEntries : Nat := 1024

def isBase64Url (c : UInt8) : Bool :=
  (0x41 ≤ c && c ≤ 0x5a) || (0x61 ≤ c && c ≤ 0x7a) || (0x30 ≤ c && c ≤ 0x39) ||
    c = 0x2d || c = 0x5f

def validBase64UrlId (value : Bytes) (expectedBytes : Nat) : Bool :=
  value.length = (expectedBytes * 4 + 2) / 3 && value.all isBase64Url

def validClientMessageId (value : Bytes) : Bool :=
  !value.isEmpty && value.length ≤ maxClientMessageIdBytes && validBase64UrlId value 16

/-- Sequences are `uint64_t`; the last value is never exceeded. -/
def maxSequence : Nat := 2 ^ 64 - 1

structure RoomSequencer where
  latest : Nat := 0
  deriving DecidableEq, Repr

namespace RoomSequencer

def next (sequencer : RoomSequencer) : Option (RoomSequencer × Nat) :=
  if sequencer.latest = maxSequence then none
  else some ({ sequencer with latest := sequencer.latest + 1 }, sequencer.latest + 1)

theorem next_eq_some {sequencer : RoomSequencer} {sequence : Nat} (h : sequencer.next = some (after, sequence)) :
    sequencer.latest ≠ maxSequence ∧ after = { latest := sequencer.latest + 1 } ∧
      sequence = sequencer.latest + 1 := by
  unfold next at h
  split at h
  · contradiction
  · rename_i unexpired
    cases h
    exact ⟨unexpired, rfl, rfl⟩

end RoomSequencer

def requiresReplayResync (cursor latest : Nat) (earliestRetained : Option Nat) : Bool :=
  if cursor > latest then true
  else match earliestRetained with
    | none => cursor < latest
    | some earliest => 0 < earliest && cursor < earliest - 1

/-- Commands accepted in one session, each with the sequence of its event.
Entries are never evicted: a delayed retry must not repeat its side effect. -/
structure DedupeWindow where
  sequences : List (Bytes × Nat) := []
  order : List Bytes := []
  limit : Nat := maxDedupeEntries
  deriving DecidableEq, Repr

namespace DedupeWindow

def find (window : DedupeWindow) (id : Bytes) : Option Nat := window.sequences.lookup id

def full (window : DedupeWindow) : Bool := window.limit ≤ window.order.length

def remember (window : DedupeWindow) (id : Bytes) (sequence : Nat) : Option DedupeWindow :=
  if !validClientMessageId id || sequence = 0 || window.limit = 0 || (window.find id).isSome then none
  else if window.full then none
  else some { window with order := window.order ++ [id],
                          sequences := window.sequences ++ [(id, sequence)] }

variable {window after : DedupeWindow} {id : Bytes} {sequence : Nat}

/-- What a successful `remember` changes, and what it needed. -/
theorem remember_eq_some (h : window.remember id sequence = some after) :
    validClientMessageId id = true ∧ 0 < sequence ∧ window.find id = none ∧ window.full = false ∧
      after = { window with order := window.order ++ [id],
                            sequences := window.sequences ++ [(id, sequence)] } := by
  unfold remember at h
  split at h
  · contradiction
  · rename_i admitted
    split at h
    · contradiction
    · rename_i room
      simp only [Bool.or_eq_true, Bool.not_eq_eq_eq_not, Bool.not_true, decide_eq_true_eq,
        Option.isSome_iff_ne_none, not_or, Bool.not_eq_false, not_not] at admitted
      obtain ⟨⟨⟨valid, positive⟩, _⟩, absent⟩ := admitted
      refine ⟨valid, by omega, absent, by simpa using room, ?_⟩
      cases h
      rfl

/-- A preflighted command is always recordable: the handler's `logic_error`
after a failing `remember` is unreachable. -/
theorem remember_isSome (valid : validClientMessageId id = true)
    (positive : 0 < sequence) (absent : window.find id = none) (room : window.full = false) :
    ∃ recorded, window.remember id sequence = some recorded := by
  have limited : window.limit ≠ 0 := by
    intro zero
    simp [full, zero] at room
  refine ⟨{ window with order := window.order ++ [id],
                        sequences := window.sequences ++ [(id, sequence)] }, ?_⟩
  simp [remember, valid, absent, room, limited, Nat.pos_iff_ne_zero.mp positive]

theorem find_remember (h : window.remember id sequence = some after)
    (other : Bytes) : after.find other = if other = id then some sequence else window.find other := by
  obtain ⟨_, _, absent, _, rfl⟩ := remember_eq_some h
  simp only [find, List.lookup_append]
  by_cases same : other = id
  · subst other
    have free : window.sequences.lookup id = none := absent
    simp [free]
  · have other : (other == id) = false := by simpa using same
    simp [same, List.lookup_cons, other]

end DedupeWindow

/-- Pure monotonic lifecycle used by the transport registry. -/
structure SessionLease where
  deadline : Option TimePoint := none
  deriving DecidableEq, Repr

namespace SessionLease

def detach (_ : SessionLease) (now : TimePoint) : SessionLease := ⟨some (now + gracePeriod)⟩

def disconnected (lease : SessionLease) : Bool := lease.deadline.isSome

def canResume (lease : SessionLease) (now : TimePoint) : Bool :=
  match lease.deadline with
  | some deadline => now < deadline
  | none => false

def expires (lease : SessionLease) (now : TimePoint) : Bool :=
  match lease.deadline with
  | some deadline => deadline ≤ now
  | none => false

def resume (lease : SessionLease) (now : TimePoint) : Option SessionLease :=
  if lease.canResume now then some { lease with deadline := none } else none

/-- A lease resumes exactly when its transport loss was noticed and it is unexpired. -/
theorem canResume_eq (lease : SessionLease) (now : TimePoint) :
    lease.canResume now = (lease.disconnected && !lease.expires now) := by
  obtain ⟨deadline⟩ := lease
  cases deadline with
  | none => rfl
  | some deadline => simp [canResume, disconnected, expires, ← decide_not]

end SessionLease

structure PendingHelloLease where
  deadline : TimePoint
  consumed : Bool := false
  deriving DecidableEq, Repr

namespace PendingHelloLease

def create (created : TimePoint) : PendingHelloLease := { deadline := created + pendingHelloPeriod }

def accept (lease : PendingHelloLease) (now : TimePoint) : Option PendingHelloLease :=
  if lease.consumed || lease.deadline ≤ now then none else some { lease with consumed := true }

def expires (lease : PendingHelloLease) (now : TimePoint) : Bool :=
  !lease.consumed && lease.deadline ≤ now

end PendingHelloLease

/-- Generation fence. A transport is identified by its address. -/
structure TransportGeneration where
  current : Option Nat := none
  generation : Nat := 0
  deriving DecidableEq, Repr

namespace TransportGeneration

def replace (fence : TransportGeneration) (transport : Nat) : TransportGeneration × Nat :=
  ({ current := some transport, generation := fence.generation + 1 }, fence.generation + 1)

def isCurrent (fence : TransportGeneration) (transport : Option Nat) (generation : Nat) : Bool :=
  transport = fence.current && generation = fence.generation

def detachIfCurrent (fence : TransportGeneration) (transport : Option Nat) (generation : Nat) :
    TransportGeneration × Bool :=
  if fence.isCurrent transport generation then ({ fence with current := none }, true)
  else (fence, false)

end TransportGeneration
end Conspire.Session
