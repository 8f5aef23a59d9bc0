import Conspire.Server.Handlers

/-! One download of a file (`File::Subscriber`). Its functions run under
`m_chunkLock`; `requestChunk` sends to the host before the lock is released. -/
namespace Conspire.Files
open Session Boundaries

structure Subscriber where
  id : Nat
  valid : Bool := true
  progress : Int := 0
  request : ChunkRequest := {}
  chunk : Option Bytes := none
  deriving DecidableEq

/-- What `readChunk` does: throw, fill the buffer, ask the host and wait, or end. -/
inductive Read where
  | thrown (text : Bytes)
  | filled (data : Bytes)
  | waiting (request : Option MessageDto)
  | ended

/-- The count `readChunk` returns, if it returns one. -/
def Read.count : Read → Option Int
  | .filled data => some data.length
  | .ended => some 0
  | .thrown _ | .waiting _ => none

/-- The FILE_REQUEST_CHUNK of a subscriber. -/
def requestMessage (file : File) (subscriber position size : Int) (requestId : Nat) : MessageDto :=
  { code := some .fileRequestChunk
    files := some [some { clientFileId := some file.clientFileId
                          serverFileId := some file.serverFileId
                          subscriberId := some subscriber
                          chunkPosition := some position
                          chunkSize := some size
                          chunkRequestId := some requestId }] }

namespace Subscriber

def provideFileChunk (subscriber : Subscriber) (requestId : Nat) (position size : Int)
    (data : Option Bytes) : Subscriber × Result :=
  match subscriber.request.accept requestId position size (data.elim 0 List.length) with
  | (request, .accepted) =>
    if subscriber.chunk.isSome then ({ subscriber with request }, .invalid)
    else ({ subscriber with request, chunk := data }, .accepted)
  | (request, result) => ({ subscriber with request }, result)

/-- `requestChunk` up to its `sendMessageAsync`; `hosted` is whether the host
still exists. -/
def requestChunk (subscriber : Subscriber) (file : File) (hosted : Bool) (size : Int) :
    Subscriber × Option MessageDto :=
  if !subscriber.valid then (subscriber, none)
  else
    let (request, requestId) := subscriber.request.begin subscriber.progress size
    if hosted then
      ({ subscriber with request },
        some (requestMessage file subscriber.id subscriber.progress size requestId))
    else ({ subscriber with valid := false, request := request.cancel }, none)

/-- What is asked for when a buffer of `count` bytes is to be filled. -/
def requestSize (subscriber : Subscriber) (file : File) (count : Int) : Int :=
  min (min count Limits.chunkBytes) (file.fileSize - subscriber.progress)

def readChunk (subscriber : Subscriber) (file : File) (hosted : Bool) (count : Int) :
    Subscriber × Read :=
  if !subscriber.valid then (subscriber, .thrown (ascii "File is not valid any more."))
  else if subscriber.progress < file.fileSize then
    match subscriber.chunk with
    | some data =>
      if count < data.length then (subscriber, .thrown (ascii "Invalid chunk size"))
      else ({ subscriber with progress := subscriber.progress + data.length, chunk := none },
        .filled data)
    | none =>
      let (subscriber, request) :=
        subscriber.requestChunk file hosted (subscriber.requestSize file count)
      (subscriber, .waiting request)
  else (subscriber, .ended)

def invalidate (subscriber : Subscriber) : Subscriber :=
  { subscriber with valid := false, request := subscriber.request.cancel }

end Subscriber

/-- A payload that was accepted, with its sender and what its message named. -/
structure Payload where
  sender : PeerId
  requestId : Nat
  position : Int
  data : Bytes

def content (payloads : List Payload) : Bytes := payloads.flatMap (·.data)

/-- Payloads of one download: from the host, one for each request, end to end. -/
structure Consecutive (file : File) (accepted : List Payload) : Prop where
  sender : ∀ payload ∈ accepted, payload.sender = file.host
  ids : accepted.map (·.requestId) = List.range' 1 accepted.length
  offsets : ∀ front payload back, accepted = front ++ payload :: back →
    payload.position = ((content front).length : Int)
  filled : ∀ payload ∈ accepted, payload.data ≠ []
  within : ((content accepted).length : Int) ≤ file.fileSize

/-- How a subscriber stands to what was accepted for it and what it returned. -/
structure Tracks (file : File) (accepted : List Payload) (returned : Bytes)
    (subscriber : Subscriber) : Prop where
  progress : subscriber.progress = returned.length
  empty : subscriber.chunk = none → returned = content accepted
  buffered : ∀ data, subscriber.chunk = some data →
    ∃ front payload, accepted = front ++ [payload] ∧ payload.data = data ∧ returned = content front
  asked : subscriber.request.outstanding = true →
    subscriber.valid = true ∧ subscriber.chunk = none ∧
      subscriber.request.position = subscriber.progress ∧
      0 < subscriber.request.size ∧
      subscriber.request.size ≤ file.fileSize - subscriber.progress ∧
      subscriber.request.requestId = accepted.length + 1
  idle : subscriber.valid = true → subscriber.request.outstanding = false →
    subscriber.request.requestId = accepted.length

section
variable {file : File} {accepted : List Payload} {returned data : Bytes} {subscriber next : Subscriber}

@[simp] theorem content_append : content (front ++ back) = content front ++ content back :=
  List.flatMap_append

@[simp] theorem content_singleton (payload : Payload) : content [payload] = payload.data := by
  simp [content]

theorem length_le_content (filled : ∀ payload ∈ accepted, payload.data ≠ []) :
    accepted.length ≤ (content accepted).length := by
  induction accepted with
  | nil => exact Nat.zero_le _
  | cons payload rest ih =>
    have here := List.length_pos_iff.mpr (filled payload List.mem_cons_self)
    have later := ih fun p member => filled p (List.mem_cons_of_mem _ member)
    simp only [content, List.flatMap_cons, List.length_append, List.length_cons] at later ⊢
    omega

theorem Consecutive.nil (size : 0 ≤ file.fileSize) : Consecutive file [] where
  sender := nofun
  ids := rfl
  offsets := by simp
  filled := nofun
  within := by simpa [content] using size

/-- One more payload at the end. -/
theorem Consecutive.snoc {payload : Payload} (ordered : Consecutive file accepted)
    (sender : payload.sender = file.host) (id : payload.requestId = accepted.length + 1)
    (position : payload.position = (content accepted).length) (filled : payload.data ≠ [])
    (within : (payload.data.length : Int) ≤ file.fileSize - (content accepted).length) :
    Consecutive file (accepted ++ [payload]) where
  sender := by
    intro p member
    rcases List.mem_append.mp member with old | new
    · exact ordered.sender p old
    · rw [List.mem_singleton.mp new, sender]
  ids := by
    rw [List.map_append, ordered.ids, List.length_append, List.length_singleton,
      List.range'_concat, List.map_singleton, id]
    congr 2
    omega
  offsets := by
    intro front p back split
    rcases List.eq_nil_or_concat back with rfl | ⟨init, last, rfl⟩
    · obtain ⟨rfl, same⟩ := List.append_inj' split rfl
      cases same
      exact position
    · rw [List.concat_eq_append, ← List.cons_append, ← List.append_assoc] at split
      obtain ⟨same, -⟩ := List.append_inj' split rfl
      exact ordered.offsets front p init same
  filled := by
    intro p member
    rcases List.mem_append.mp member with old | new
    · exact ordered.filled p old
    · rw [List.mem_singleton.mp new]
      exact filled
  within := by
    rw [content_append, content_singleton, List.length_append]
    omega

theorem Consecutive.length_lt (ordered : Consecutive file accepted)
    (size : file.fileSize ≤ Limits.fileBytes) : accepted.length + 1 < 2 ^ 64 := by
  have count := length_le_content ordered.filled
  have within := ordered.within
  simp only [Limits.fileBytes] at size
  omega

theorem Tracks.start (file : File) (id : Nat) : Tracks file [] [] { id } where
  progress := rfl
  empty _ := rfl
  buffered := nofun
  asked := nofun
  idle _ _ := rfl

/-- What has been returned is what was accepted but for the buffered payload. -/
theorem Tracks.returned_eq (tracks : Tracks file accepted returned subscriber) :
    returned = content (if subscriber.chunk.isSome then accepted.dropLast else accepted) := by
  cases held : subscriber.chunk with
  | none => exact tracks.empty held
  | some data =>
    obtain ⟨front, payload, rfl, -, same⟩ := tracks.buffered data held
    simpa using same

theorem Tracks.progress_le (tracks : Tracks file accepted returned subscriber)
    (ordered : Consecutive file accepted) : subscriber.progress ≤ file.fileSize := by
  have within := ordered.within
  have progress := tracks.progress
  cases held : subscriber.chunk with
  | none =>
    rw [← tracks.empty held] at within
    omega
  | some data =>
    obtain ⟨front, payload, rfl, -, rfl⟩ := tracks.buffered data held
    rw [content_append, List.length_append] at within
    omega

theorem Tracks.invalidate (tracks : Tracks file accepted returned subscriber) :
    Tracks file accepted returned subscriber.invalidate where
  progress := tracks.progress
  empty := tracks.empty
  buffered := tracks.buffered
  asked := nofun
  idle := nofun

/-- What `requestChunk` leaves: the subscriber as it was when it is invalid, an
outstanding request with the message that asks for it, or an invalid subscriber
when the host is gone. -/
inductive Requested (subscriber : Subscriber) (file : File) (size : Int) :
    Subscriber → Option MessageDto → Prop where
  | invalid : subscriber.valid = false → Requested subscriber file size subscriber none
  | again : subscriber.valid = true → subscriber.request.outstanding = true →
      Requested subscriber file size subscriber
        (some (requestMessage file subscriber.id subscriber.progress size subscriber.request.requestId))
  | fresh (requestId : Nat) : subscriber.valid = true → subscriber.request.outstanding = false →
      requestId = nextRequestId subscriber.request.requestId →
      Requested subscriber file size
        { subscriber with request := { subscriber.request with
            position := subscriber.progress, size, requestId, outstanding := true } }
        (some (requestMessage file subscriber.id subscriber.progress size requestId))
  | gone (request : ChunkRequest) : subscriber.valid = true → request.outstanding = false →
      Requested subscriber file size { subscriber with valid := false, request } none

theorem requestChunk_spec (file : File) (hosted : Bool) (size : Int)
    (asked : subscriber.requestChunk file hosted size = (next, message)) :
    Requested subscriber file size next message := by
  unfold Subscriber.requestChunk at asked
  cases valid : subscriber.valid with
  | false =>
    rw [if_pos (by simp [valid])] at asked
    cases asked
    exact .invalid valid
  | true =>
    rw [if_neg (by simp [valid])] at asked
    cases outstanding : subscriber.request.outstanding with
    | true =>
      rw [ChunkRequest.begin_again outstanding] at asked
      cases hosted with
      | true =>
        cases asked
        exact .again valid outstanding
      | false =>
        cases asked
        exact .gone _ valid rfl
    | false =>
      rw [ChunkRequest.begin_fresh outstanding] at asked
      cases hosted with
      | true =>
        cases asked
        exact .fresh _ valid outstanding rfl
      | false =>
        cases asked
        exact .gone _ valid rfl

/-- A request is begun for what is next, when there is room for it. -/
theorem Tracks.request (tracks : Tracks file accepted returned subscriber)
    (ordered : Consecutive file accepted) (size : file.fileSize ≤ Limits.fileBytes)
    (fits : subscriber.request.outstanding = false → subscriber.chunk = none ∧ 0 < count ∧
      count ≤ file.fileSize - subscriber.progress)
    (requested : Requested subscriber file count next message) :
    Tracks file accepted returned next := by
  cases requested with
  | invalid => exact tracks
  | again => exact tracks
  | fresh id valid idle is =>
    obtain ⟨empty, positive, within⟩ := fits idle
    have named := tracks.idle valid idle
    exact { progress := tracks.progress, empty := tracks.empty, buffered := tracks.buffered
            asked := fun _ => ⟨valid, empty, rfl, positive, within, by
              rw [is, named, nextRequestId_eq (ordered.length_lt size)]⟩
            idle := nofun }
  | gone request valid idle =>
    exact { progress := tracks.progress, empty := tracks.empty, buffered := tracks.buffered
            asked := fun outstanding => by
              have outstanding : request.outstanding = true := outstanding
              rw [idle] at outstanding
              contradiction
            idle := nofun }

/-- The outcomes of `readChunk`. -/
inductive ReadSpec (subscriber : Subscriber) (file : File) (count : Int) :
    Subscriber → Read → Prop where
  | thrown (text : Bytes) : ReadSpec subscriber file count subscriber (.thrown text)
  | filled (data : Bytes) : subscriber.chunk = some data →
      ReadSpec subscriber file count
        { subscriber with progress := subscriber.progress + data.length, chunk := none } (.filled data)
  | waiting : subscriber.valid = true → subscriber.progress < file.fileSize →
      subscriber.chunk = none →
      Requested subscriber file (subscriber.requestSize file count) after request →
      ReadSpec subscriber file count after (.waiting request)
  | ended : subscriber.valid = true → file.fileSize ≤ subscriber.progress →
      ReadSpec subscriber file count subscriber .ended

theorem readChunk_spec (file : File) (hosted : Bool) (count : Int)
    (done : subscriber.readChunk file hosted count = (next, result)) :
    ReadSpec subscriber file count next result := by
  unfold Subscriber.readChunk at done
  split at done
  · cases done
    exact .thrown _
  · rename_i valid
    simp only [Bool.not_eq_eq_eq_not, Bool.not_true, Bool.not_eq_false] at valid
    split at done
    · rename_i more
      cases held : subscriber.chunk with
      | some data =>
        simp only [held] at done
        split at done
        · cases done
          exact .thrown _
        · cases done
          exact .filled data held
      | none =>
        simp only [held] at done
        cases done
        exact .waiting valid more held (requestChunk_spec file hosted _ rfl)
    · rename_i finished
      cases done
      exact .ended valid (Int.not_lt.mp finished)

theorem Tracks.read (tracks : Tracks file accepted returned subscriber)
    (held : subscriber.chunk = some data) :
    Tracks file accepted (returned ++ data)
      { subscriber with progress := subscriber.progress + data.length, chunk := none } where
  progress := by
    rw [List.length_append, Int.natCast_add, ← tracks.progress]
  empty _ := by
    obtain ⟨front, payload, rfl, rfl, rfl⟩ := tracks.buffered data held
    simp
  buffered := nofun
  asked outstanding := by
    have empty := (tracks.asked outstanding).2.1
    rw [held] at empty
    contradiction
  idle := tracks.idle

/-- An answer changes nothing or is the one the subscriber waits for. -/
theorem provideFileChunk_spec (empty : subscriber.request.outstanding = true → subscriber.chunk = none)
    (provided : subscriber.provideFileChunk requestId position size (some data) = (next, result)) :
    next = subscriber ∧ result ≠ .accepted ∨
      result = .accepted ∧ subscriber.request.outstanding = true ∧
        requestId = subscriber.request.requestId ∧ position = subscriber.request.position ∧
        size = subscriber.request.size ∧ size = data.length ∧
        next = { subscriber with
          request := { subscriber.request with
            outstanding := false, completedId := requestId,
            completedPosition := position, completedSize := size }
          chunk := some data } := by
  unfold Subscriber.provideFileChunk at provided
  split at provided
  · rename_i request answered
    obtain ⟨outstanding, id, offset, length, sized, rfl⟩ := ChunkRequest.accept_accepted answered
    rw [empty outstanding] at provided
    cases provided
    exact .inr ⟨rfl, outstanding, id, offset, length, sized, rfl⟩
  · rename_i request answer other answered
    obtain rfl := ChunkRequest.accept_other answered fun same => other (by rw [same])
    cases provided
    exact .inl ⟨rfl, fun same => other (by rw [same])⟩

/-- The subscriber's books after an accepted payload. -/
theorem Tracks.provide (tracks : Tracks file accepted returned subscriber)
    (outstanding : subscriber.request.outstanding = true) (payload : Payload) :
    Tracks file (accepted ++ [payload]) returned
      { subscriber with
        request := { subscriber.request with
          outstanding := false, completedId, completedPosition, completedSize }
        chunk := some payload.data } where
  progress := tracks.progress
  empty := nofun
  buffered := by
    rintro _ ⟨⟩
    exact ⟨accepted, payload, rfl, rfl, tracks.empty (tracks.asked outstanding).2.1⟩
  asked := nofun
  idle _ _ := by
    rw [List.length_append, List.length_singleton]
    exact (tracks.asked outstanding).2.2.2.2.2

end
end Conspire.Files
