import Mathlib.Algebra.Group.Nat.Defs
import Mathlib.Data.List.Basic
import Mathlib.Data.List.ReduceOption

/-! Limits and predicates for values controlled by HTTP or websocket clients
(`utils/ServerBoundaries.hpp`). Strings are the bytes of a `std::string`. -/
namespace Conspire

abbrev Bytes := List UInt8

/-- The bytes of an ASCII string literal. -/
def ascii (literal : String) : Bytes := literal.toList.map fun c => UInt8.ofNat c.toNat

namespace Boundaries

namespace Limits
def roomId : Nat := 64
def message : Nat := 8 * 1024
def filename : Nat := 255
def filesPerMessage : Nat := 16
def fileBytes : Nat := 100 * 1024 * 1024
def mediaType : Nat := 32
def chunkBytes : Nat := 64 * 1024
def rooms : Nat := 256
def peersPerRoom : Nat := 64
def filesPerPeer : Nat := 32
def subscribersPerFile : Nat := 32
end Limits

/-- The answers of `ChunkRequest::accept`. -/
inductive Result where
  | accepted | duplicate | invalid
  deriving DecidableEq, Repr

/-- One serialized chunk request of a subscriber, with the reply it accepted
last. Request ids are `uint64_t`. -/
structure ChunkRequest where
  position : Int := 0
  size : Int := 0
  requestId : Nat := 0
  completedId : Nat := 0
  completedPosition : Int := 0
  completedSize : Int := 0
  outstanding : Bool := false
  deriving DecidableEq, Repr

/-- `++m_requestId; if (m_requestId == 0) ++m_requestId;` -/
def nextRequestId (id : Nat) : Nat :=
  let next := (id + 1) % 2 ^ 64
  if next = 0 then 1 else next

namespace ChunkRequest

def begin (request : ChunkRequest) (position size : Int) : ChunkRequest × Nat :=
  if request.outstanding then (request, request.requestId)
  else
    let id := nextRequestId request.requestId
    ({ request with position, size, requestId := id, outstanding := true }, id)

def accept (request : ChunkRequest) (requestId : Nat) (position size : Int)
    (receivedSize : Nat) : ChunkRequest × Result :=
  if size < 0 ∨ size.toNat ≠ receivedSize then (request, .invalid)
  -- a duplicate may arrive after the next request has already been issued
  else if requestId = request.completedId ∧ position = request.completedPosition ∧
      size = request.completedSize then (request, .duplicate)
  else if ¬ request.outstanding then (request, .invalid)
  else if requestId ≠ request.requestId ∨ position ≠ request.position ∨ size ≠ request.size then
    (request, .invalid)
  else
    ({ request with outstanding := false, completedId := requestId,
                    completedPosition := position, completedSize := size }, .accepted)

def cancel (request : ChunkRequest) : ChunkRequest := { request with outstanding := false }

variable {request next : ChunkRequest} {requestId receivedSize : Nat} {position size : Int}

theorem begin_again (outstanding : request.outstanding = true) :
    request.begin position size = (request, request.requestId) := by
  rw [begin, if_pos outstanding]

theorem begin_fresh (idle : request.outstanding = false) :
    request.begin position size =
      ({ request with position, size, requestId := nextRequestId request.requestId,
                      outstanding := true }, nextRequestId request.requestId) := by
  rw [begin, if_neg (by simp [idle])]

/-- The reply that is accepted is the one asked for. -/
theorem accept_accepted (answered : request.accept requestId position size receivedSize = (next, .accepted)) :
    request.outstanding = true ∧ requestId = request.requestId ∧ position = request.position ∧
      size = request.size ∧ size = receivedSize ∧
      next = { request with outstanding := false, completedId := requestId,
                            completedPosition := position, completedSize := size } := by
  unfold accept at answered
  split at answered
  · cases answered
  · rename_i sized
    split at answered
    · cases answered
    · split at answered
      · cases answered
      · rename_i outstanding
        split at answered
        · cases answered
        · rename_i matching
          cases answered
          simp only [not_or, not_not] at sized outstanding matching
          exact ⟨outstanding, matching.1, matching.2.1, matching.2.2, by omega, rfl⟩

/-- Any other reply changes nothing. -/
theorem accept_other (answered : request.accept requestId position size receivedSize = (next, result))
    (other : result ≠ .accepted) : next = request := by
  unfold accept at answered
  split at answered
  · cases answered
    rfl
  · split at answered
    · cases answered
      rfl
    · split at answered
      · cases answered
        rfl
      · split at answered
        · cases answered
          rfl
        · cases answered
          contradiction

end ChunkRequest

def hasCapacity (current maximum : Nat) : Bool := maximum ≠ 0 && current < maximum

def hasCapacityFor (current additional maximum : Nat) : Bool :=
  maximum ≠ 0 && current ≤ maximum && additional ≤ maximum - current

def isControl (character : UInt8) : Bool := character < 0x20 || character = 0x7f

def containsControl (value : Bytes) : Bool := value.any isControl

def validMessageContent (value : Bytes) : Bool :=
  value.length ≤ Limits.message && !containsControl value

def validFileDescriptor (filename : Bytes) (size : Int)
    (maximumSize : Nat := Limits.fileBytes) : Bool :=
  !filename.isEmpty && filename.length ≤ Limits.filename && !containsControl filename &&
    0 ≤ size && size.toNat ≤ maximumSize

def validImageMediaType (value : Bytes) : Bool :=
  value.length ≤ Limits.mediaType && value.all (· ≤ 0x7f) &&
    (value = ascii "image/jpeg" || value = ascii "image/png" || value = ascii "image/webp")

def validChunk (position declaredSize : Int) (receivedSize : Nat) (totalSize : Int) : Bool :=
  if position < 0 ∨ declaredSize < 0 ∨ totalSize < 0 ∨ receivedSize > Limits.chunkBytes ∨
      declaredSize.toNat ≠ receivedSize then false
  else position ≤ totalSize && declaredSize ≤ totalSize - position

/-- `while (values.size() > maximum) values.pop_front();` -/
def retainLast (values : List α) (maximum : Nat) : List α := values.drop (values.length - maximum)

theorem retainLast_snoc (values : List α) (value : α) (limit : Nat) :
    retainLast (retainLast values limit ++ [value]) limit = retainLast (values ++ [value]) limit := by
  have first : retainLast values limit ++ [value] =
      (values ++ [value]).drop (values.length - limit) := by
    rw [retainLast, List.drop_append_of_le_length (by omega)]
  rw [first, retainLast, retainLast, List.drop_drop, List.length_drop, List.length_append]
  congr 1
  simp only [List.length_singleton]
  omega

@[simp] theorem reduceOption_map_some (values : List α) : (values.map some).reduceOption = values := by
  induction values with
  | nil => rfl
  | cons value rest ih => rw [List.map_cons, List.reduceOption_cons_of_some, ih]

theorem hasCapacity_iff : hasCapacity current maximum = true ↔ current < maximum := by
  simp only [hasCapacity, ne_eq, decide_not, Bool.and_eq_true, Bool.not_eq_eq_eq_not, Bool.not_true,
    decide_eq_false_iff_not, decide_eq_true_eq]
  omega

theorem hasCapacityFor_le (fits : hasCapacityFor current additional maximum = true) :
    current + additional ≤ maximum := by
  simp only [hasCapacityFor, ne_eq, decide_not, Bool.and_eq_true, decide_eq_true_eq] at fits
  omega

theorem nextRequestId_eq (small : n + 1 < 2 ^ 64) : nextRequestId n = n + 1 := by
  unfold nextRequestId
  rw [Nat.mod_eq_of_lt small]
  exact if_neg (Nat.succ_ne_zero n)

end Boundaries
end Conspire
