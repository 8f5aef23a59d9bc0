import Conspire.Files.Reissue
import Conspire.Library.Sequence
import Conspire.Server.ChunkReplies

/-! A host on its link to the room. It answers each chunk request it receives once and in
their order; what is under way may be lost whenever a transport is cut. For each subscriber
the link carries a stop-and-wait exchange: copies of the part that was accepted last, then
copies of the one that is asked for. -/
namespace Conspire.Files
open Session Boundaries Transition Sequence

/-- `createFileChunkMessage`. -/
def createFileChunkMessage (request : FileDto) (data : Bytes) (chunkSize : Int) : MessageDto :=
  { code := some .fileChunkData
    files := some [some { serverFileId := request.serverFileId
                          subscriberId := request.subscriberId
                          chunkPosition := request.chunkPosition
                          chunkSize := some chunkSize
                          chunkRequestId := request.chunkRequestId
                          data := some data }] }

/-- The room and the link of one of its hosts: the requests on their way to it, those it has
received, and its replies on their way back. -/
structure Link where
  streams : Streams
  requests : List MessageDto := []
  received : List MessageDto := []
  replies : List MessageDto := []

/-- The frames a host answers. -/
def isChunkRequest (message : MessageDto) : Bool := message.code = some .fileRequestChunk

def written (frame : Option OutboundFrame) : List MessageDto :=
  (frame.toList.map (·.payload)).filter isChunkRequest

/-- A subscriber is read with one buffer size. -/
def Steady (buffer : Key → Int) (s : Streams) : StreamsLabel → Prop
  | .read key result => 0 < buffer key ∧ ∀ stream, s.streams key = some stream →
      (stream.subscriber.readChunk stream.file (s.hosted stream.file.host) (buffer key)).2 = result
  | _ => True

/-- The steps in which the transport of the host writes or hands over a frame. -/
def StreamsLabel.OnLink (host : PeerId) : StreamsLabel → Prop
  | .take peer _ | .chunk peer _ _ => peer = host
  | _ => False

section
variable (decode : Bytes → Option Bytes) (size : MessageDto → Nat) (host : PeerId) (buffer : Key → Int)

/-- The downloads while the host keeps its files and its file capability. -/
def downloads : Machine Streams StreamsLabel :=
  (streams decode size).restrict fun s l => Keeps host s l ∧ Steady buffer s l

inductive LinkStep : Link → StreamsLabel → Link → Prop where
  | take : (downloads decode size host buffer).step w.streams (.take host frame) t →
      LinkStep w (.take host frame) { w with streams := t, requests := w.requests ++ written frame }
  | receive : w.requests = message :: rest →
      LinkStep w .internal { w with requests := rest, received := w.received ++ [message] }
  | reply {data : Bytes} : w.received = message :: rest → message.files = some [some request] →
      request.chunkSize = some (data.length : Int) → decode encoded = some data →
      LinkStep w .internal
        { w with received := rest
                 replies := w.replies ++ [createFileChunkMessage request encoded data.length] }
  | chunk : w.replies = message :: rest →
      (downloads decode size host buffer).step w.streams (.chunk host message check) t →
      LinkStep w (.chunk host message check) { w with streams := t, replies := rest }
  | room : (downloads decode size host buffer).step w.streams l t → ¬ l.OnLink host →
      LinkStep w l { w with streams := t }
  -- the frames of a transport that is cut, and those the drain drops for their old binding
  | lose : requests.Sublist w.requests → replies.Sublist w.replies →
      LinkStep w .internal { w with requests, replies }

/-- All runs of an honest host's link. -/
def links : Machine Link StreamsLabel where
  init w := ∃ name, w = { streams := { index := { room := { name } } } }
  step := LinkStep decode size host buffer

end

/-- A reply of the host is accepted, recognised as a duplicate, or ignored. -/
def Spared (host : PeerId) : StreamsLabel → Prop
  | .chunk sender _ check => sender = host → check = .ignored ∨ ∃ file reply, check = .passed file reply
  | .answer sender _ result => sender = host → chunkError result = none
  | _ => True

/-- When a reply of the host is looked up, the subscriber it names has not been dropped. -/
def Present (host : PeerId) (w : Link) : StreamsLabel → Prop
  | .answer sender _ _ => sender = host → ∀ file reply, w.streams.handling host = some (.found file reply) →
      ∃ id : Nat, reply.subscriberId = id ∧ w.streams.alive (file.serverFileId, id) = true
  | _ => True

/-- What a step does to one subscriber that is read with a buffer of `count` bytes. -/
inductive Moves (s t : Streams) (count : Int) (key : Key) (stream : Stream) : Stream → Prop where
  | same {next : Stream} : next.locked = stream.locked → next.subscriber = stream.subscriber →
      next.file = stream.file →
      Moves s t count key stream next
  | filled (data : Bytes) : stream.locked = none → stream.subscriber.chunk = some data →
      Moves s t count key stream
        { stream with
          subscriber := { stream.subscriber with
            progress := stream.subscriber.progress + data.length, chunk := none }
          returned := stream.returned ++ data }
  | asked (size : Int) (after : Subscriber) (resume : Option Binding) (message : MessageDto) :
      stream.locked = none →
      size = stream.subscriber.requestSize stream.file count ∨
        stream.subscriber.request.outstanding = true ∧ size = stream.subscriber.request.size →
      Requested stream.subscriber stream.file size after (some message) →
      Moves s t count key stream { stream with locked := some ⟨after, resume, .unsent message⟩ }
  | refused (after : Subscriber) (references : Nat) : stream.locked = none → after.id = stream.subscriber.id →
      s.hosted stream.file.host = false ∧ after.request.outstanding = false ∨ after = stream.subscriber →
      Moves s t count key stream { stream with subscriber := after, locked := none, references }
  | captured (after : Subscriber) (resume : Option Binding) (frame : OutboundFrame) :
      stream.locked = some ⟨after, resume, .unsent frame.payload⟩ →
      Moves s t count key stream { stream with locked := some ⟨after, resume, .captured frame⟩ }
  | released (holder : Holder) (references : Nat) : stream.locked = some holder →
      Moves s t count key stream { stream with subscriber := holder.after, locked := none, references }
  | provided (sender : PeerId) (reply : ChunkReply) (after : Subscriber) (result : Result) :
      s.handling sender = some (.providing key reply) → t.handling sender = none → stream.locked = none →
      stream.subscriber.provideFileChunk reply.requestId reply.position reply.size (some reply.data) =
        (after, result) →
      Moves s t count key stream (stream.provide after sender reply result)
  | cancelled (references : Nat) : key ∈ s.invalidating →
      Moves s t count key stream { stream with subscriber := stream.subscriber.invalidate, references }

variable {decode : Bytes → Option Bytes} {size : MessageDto → Nat} {host : PeerId} {buffer : Key → Int}
  {s t : Streams} {l : StreamsLabel} {key : Key} {stream next : Stream}

/-- Without a message, the request was refused: the subscriber is invalid, or its host is gone. -/
theorem requestChunk_refused {subscriber after : Subscriber} {file : File} {hosted : Bool} {size : Int}
    (asked : subscriber.requestChunk file hosted size = (after, none)) :
    after.id = subscriber.id ∧ (hosted = false ∧ after.request.outstanding = false ∨ after = subscriber) := by
  unfold Subscriber.requestChunk at asked
  split at asked
  · cases asked
    exact ⟨rfl, .inr rfl⟩
  · cases hosted with
    | false =>
      cases asked
      exact ⟨rfl, .inl ⟨rfl, rfl⟩⟩
    | true => cases asked

theorem requested_message {subscriber after : Subscriber} {file : File} {size : Int} {message : MessageDto}
    (requested : Requested subscriber file size after (some message)) :
    ∃ id, message = requestMessage file subscriber.id subscriber.progress size id := by
  cases requested with
  | again => exact ⟨_, rfl⟩
  | fresh id => exact ⟨_, rfl⟩

/-- Reads that ask with the same message ask for the same size. -/
theorem requested_size {subscriber after after' : Subscriber} {file : File} {size size' : Int} {message : MessageDto}
    (one : Requested subscriber file size after (some message))
    (other : Requested subscriber file size' after' (some message)) : size = size' := by
  obtain ⟨id, rfl⟩ := requested_message one
  obtain ⟨id', same⟩ := requested_message other
  simp only [requestMessage, MessageDto.mk.injEq, Option.some.injEq, List.cons.injEq, FileDto.mk.injEq,
    and_true, true_and] at same
  exact same.1

theorem readChunk_waiting {subscriber after : Subscriber} {file : File} {hosted : Bool} {count : Int}
    (done : subscriber.readChunk file hosted count = (after, .waiting request)) :
    subscriber.requestChunk file hosted (subscriber.requestSize file count) = (after, request) := by
  unfold Subscriber.readChunk at done
  split at done
  · cases done
  · split at done
    · split at done
      · split at done <;> cases done
      · cases done
        rfl
    · cases done

/-- `requestChunk` of a read or of a resume. -/
theorem ask_moves {after : Subscriber} {resume : Option Binding} {request : Option MessageDto} {other : Key}
    (present : s.streams key = some stream) (free : stream.locked = none)
    (asked : stream.subscriber.requestChunk stream.file (s.hosted stream.file.host) size' = (after, request))
    (sized : ∀ message, request = some message →
      size' = stream.subscriber.requestSize stream.file (buffer key) ∨
        stream.subscriber.request.outstanding = true ∧ size' = stream.subscriber.request.size)
    (now : (s.ask key stream after resume request).streams other = some next) :
    ∃ old, s.streams other = some old ∧ Moves s t (buffer other) other old next := by
  cases request with
  | none =>
    obtain ⟨same, gone⟩ := requestChunk_refused asked
    rcases release_some s now with ⟨rfl, references, -, rfl⟩ | old
    · exact ⟨stream, present, .refused after references free same gone⟩
    · exact ⟨next, old, .same rfl rfl rfl⟩
  | some message =>
    rcases setStream_some s now with ⟨rfl, rfl⟩ | old
    · exact ⟨stream, present, .asked size' after resume message free (sized message rfl)
        (requestChunk_spec _ _ _ asked)⟩
    · exact ⟨next, old, .same rfl rfl rfl⟩

/-- Every step does one of these to each subscriber, or makes a new one. -/
theorem moves_step (step : (downloads decode size host buffer).step s l t) (now : t.streams key = some next) :
    (∃ stream, s.streams key = some stream ∧ Moves s t (buffer key) key stream next) ∨
      next.file ∈ s.found ∧ key.1 = next.file.serverFileId ∧
        (s.subscribers key.1).counter = key.2 ∧ key.2 < (t.subscribers key.1).counter ∧
        next = { file := next.file, subscriber := { id := key.2 } } := by
  obtain ⟨step, keeps, steady⟩ := step
  have same : s.streams key = some next →
      (∃ stream, s.streams key = some stream ∧ Moves s t (buffer key) key stream next) ∨
        next.file ∈ s.found ∧ key.1 = next.file.serverFileId ∧
          (s.subscribers key.1).counter = key.2 ∧ key.2 < (t.subscribers key.1).counter ∧
          next = { file := next.file, subscriber := { id := key.2 } } :=
    fun old => .inl ⟨next, old, .same rfl rfl rfl⟩
  cases step with
  | subscribe found is =>
    rcases setStream_some _ now with ⟨rfl, rfl⟩ | old
    · refine .inr ⟨found, rfl, by rw [is], ?_, rfl⟩
      simp [Streams.setSubscribers, Streams.setStream]
    · exact same old
  | read present free _ _ done finished =>
    rcases setStream_some s now with ⟨rfl, rfl⟩ | old
    · refine .inl ⟨_, present, ?_⟩
      cases readChunk_spec _ _ _ done with
      | thrown => exact .same rfl rfl rfl
      | filled data held => exact .filled data free held
      | waiting => exact absurd rfl (finished _)
      | ended => exact .same rfl rfl rfl
    · exact same old
  | @wait _ key' stream after request count present free _ positive done =>
    obtain ⟨_, steady⟩ := steady
    have buffered := readChunk_waiting (Prod.ext rfl (steady _ present))
    have read := readChunk_waiting done
    refine .inl (ask_moves present free read (fun message is => ?_) now)
    subst is
    exact .inl (requested_size (requestChunk_spec _ _ _ read) (requestChunk_spec _ _ _ buffered))
  | drop present =>
    rcases setStream_some s now with ⟨rfl, rfl⟩ | old
    · exact .inl ⟨_, present, .same rfl rfl rfl⟩
    · exact same old
  | capture present held =>
    rcases setStream_some s now with ⟨rfl, rfl⟩ | old
    · exact .inl ⟨_, present, .captured _ _ ⟨_, _, _⟩ held⟩
    · exact same old
  | detached present held =>
    rcases release_some s now with ⟨rfl, references, -, rfl⟩ | old
    · exact .inl ⟨_, present, .released _ references held⟩
    · exact same old
  | push present held =>
    rcases release_some _ now with ⟨rfl, references, -, rfl⟩ | old
    · exact .inl ⟨_, present, .released _ references held⟩
    · rw [post_streams] at old
      exact same old
  | lookup _ _ _ alive =>
    have one : ∀ key ∈ [_], s.alive key = true := fun _ member => List.mem_singleton.mp member ▸ alive
    obtain ⟨stream, references, old, rfl, more⟩ := pin_some _ one now
    exact .inl ⟨stream, old, .same rfl rfl rfl⟩
  | provide handling present free answered =>
    rcases setStream_some _ now with ⟨rfl, rfl⟩ | old
    · exact .inl ⟨_, present, .provided _ _ _ _ handling (Function.update_self ..) free answered⟩
    · exact same old
  | clear =>
    obtain ⟨stream, references, old, rfl, more⟩ := pin_some _ (fun _ => live_alive _) now
    exact .inl ⟨stream, old, .same rfl rfl rfl⟩
  | cancel is present free =>
    rcases setStream_some _ now with ⟨rfl, rfl⟩ | old
    · exact .inl ⟨_, present, .cancelled _ (is ▸ List.mem_append_right _ List.mem_cons_self)⟩
    · exact same old
  | file =>
    obtain ⟨stream, references, old, rfl, more⟩ := pin_some _ (fun _ => live_alive _) now
    exact .inl ⟨stream, old, .same rfl rfl rfl⟩
  | skip _ present free =>
    rcases release_some s now with ⟨rfl, references, -, rfl⟩ | old
    · exact .inl ⟨_, present, .same free.symm rfl rfl⟩
    · exact same old
  | reissue is present free _ outstanding asked =>
      exact .inl (ask_moves present free asked (fun _ _ => .inr ⟨outstanding, rfl⟩) now)
  | invalidate =>
    rw [invalidate_streams] at now
    exact same now
  | post =>
    rw [post_streams] at now
    exact same now
  | _ => exact same now

/-- What sending, releasing and invalidating leave alone besides the shell. -/
def marks (s : Streams) : (PeerId → Bool) × List Key := (s.destroyed, s.invalidating)

theorem release_marks (s : Streams) (key : Key) (stream : Stream) (after : Subscriber)
    (resume : Option Binding) : marks (s.release key stream after resume) = marks s := by
  cases resume <;> rfl

theorem ask_marks (s : Streams) (key : Key) (stream : Stream) (after : Subscriber)
    (resume : Option Binding) (request : Option MessageDto) :
    marks (s.ask key stream after resume request) = marks s := by
  cases request with
  | none => exact release_marks ..
  | some message => rfl

theorem invalidate_marks (s : Streams) (member : PeerId) (peer : Peer) (generation : Nat)
    (reason : CloseReason) : marks (s.invalidate member peer generation reason) = marks s := by
  unfold Streams.invalidate
  dsimp only
  split <;> rfl

theorem post_marks (s : Streams) (member : PeerId) (peer : Peer) (frame : OutboundFrame) :
    marks (s.post size member peer frame) = marks s := by
  unfold Streams.post
  split
  · rfl
  · exact invalidate_marks ..

/-- A host that is gone stays so; it was detached when it went, with no reply in its handler. -/
theorem destroyed_step (step : StreamsStep decode size s l t) (member : PeerId) :
    (s.destroyed member = true → t.destroyed member = true) ∧
      (t.destroyed member = true → s.destroyed member = true ∨ t.handling member = none ∧
        ∃ peer, t.index.peers member = some peer ∧ peer.socket = none) := by
  have keep : marks t = marks s → (s.destroyed member = true → t.destroyed member = true) ∧
      (t.destroyed member = true → s.destroyed member = true ∨ t.handling member = none ∧
        ∃ peer, t.index.peers member = some peer ∧ peer.socket = none) := by
    intro same
    rw [show t.destroyed = s.destroyed from congrArg Prod.fst same]
    exact ⟨id, .inl⟩
  cases step with
  | detached => exact keep (release_marks ..)
  | push => exact keep ((release_marks ..).trans (post_marks ..))
  | wait => exact keep (ask_marks ..)
  | skip => exact keep (release_marks ..)
  | reissue => exact keep (ask_marks ..)
  | invalidate => exact keep (invalidate_marks ..)
  | post => exact keep (post_marks ..)
  | destroy found detached idle =>
    simp only [Function.update_apply]
    split
    · rename_i here
      subst here
      exact ⟨fun _ => rfl, fun _ => .inr ⟨idle, _, found, detached⟩⟩
    · exact ⟨id, .inl⟩
  | _ => exact ⟨id, .inl⟩

/-- Only `clear` gives subscribers to cancel. -/
theorem invalidating_step (step : StreamsStep decode size s l t) :
    ∀ key ∈ t.invalidating, key ∈ s.invalidating ∨ ∃ file ∈ s.withdrawn, key ∈ s.live file := by
  have keep : marks t = marks s →
      ∀ key ∈ t.invalidating, key ∈ s.invalidating ∨ ∃ file ∈ s.withdrawn, key ∈ s.live file := by
    intro same
    rw [show t.invalidating = s.invalidating from congrArg Prod.snd same]
    exact fun _ => .inl
  cases step with
  | detached => exact keep (release_marks ..)
  | push => exact keep ((release_marks ..).trans (post_marks ..))
  | wait => exact keep (ask_marks ..)
  | skip => exact keep (release_marks ..)
  | reissue => exact keep (ask_marks ..)
  | invalidate => exact keep (invalidate_marks ..)
  | post => exact keep (post_marks ..)
  | clear is =>
    intro key member
    rcases List.mem_append.mp member with old | new
    · exact .inl old
    · exact .inr ⟨_, is ▸ List.mem_append_right _ List.mem_cons_self, new⟩
  | cancel is =>
    intro key member
    rw [is]
    rcases List.mem_append.mp member with front | back
    · exact .inl (List.mem_append_left _ front)
    · exact .inl (List.mem_append_right _ (List.mem_cons_of_mem _ back))
  | _ => exact fun _ => .inl

theorem hosted_before (step : StreamsStep decode size s l t) (hosted : t.hosted host = true) :
    s.hosted host = true := by
  simp only [Streams.hosted, Bool.not_eq_true', ← Bool.not_eq_true] at hosted ⊢
  exact mt (destroyed_step step host).1 hosted

/-- Ids are given out in order. -/
theorem counter_step (step : StreamsStep decode size s l t) (file : Nat) :
    (s.subscribers file).counter ≤ (t.subscribers file).counter := by
  have keep : shell t = shell s → (s.subscribers file).counter ≤ (t.subscribers file).counter := by
    intro same
    rw [show t.subscribers = s.subscribers from congrArg Shell.subscribers same]
  have update : ∀ {here : Nat} {entry : Subscribers}, (s.subscribers here).counter ≤ entry.counter →
      (s.subscribers file).counter ≤ (Function.update s.subscribers here entry file).counter := by
    intro here entry le
    rw [Function.update_apply]
    split
    · rename_i same
      rwa [same]
    · exact Nat.le.refl
  cases step with
  | subscribe _ is => exact update (by rw [is]; exact Nat.le_succ _)
  | unsubscribe _ _ is => exact update (by rw [is])
  | expired _ _ is => exact update (by rw [is])
  | clear _ is => exact update (by rw [is])
  | file _ is => exact update (by rw [is])
  | detached => exact keep (release_shell ..)
  | push => exact keep ((release_shell ..).trans (post_shell ..))
  | wait => exact keep (ask_shell ..)
  | skip => exact keep (release_shell ..)
  | reissue => exact keep (ask_shell ..)
  | invalidate => exact keep (invalidate_shell ..)
  | post => exact keep (post_shell ..)
  | _ => exact Nat.le.refl

/-- A subscriber of a host, read with a buffer of `count` bytes: it stays valid while its host
exists, and it asks for one part as long as the part is outstanding. -/
structure Ready (hosted : Bool) (count : Int) (key : Key) (file : File) (subscriber : Subscriber) : Prop where
  id : subscriber.id = key.2
  valid : hosted = true → subscriber.valid = true
  sized : subscriber.request.outstanding = true →
    subscriber.request.size = subscriber.requestSize file count

/-- Also what the holder of the lock will leave; its message asks for what is outstanding then. -/
structure Poised (hosted : Bool) (count : Int) (key : Key) (stream : Stream) : Prop where
  now : Ready hosted count key stream.file stream.subscriber
  held : ∀ holder, stream.locked = some holder → Ready hosted count key stream.file holder.after ∧
    holder.after.request.outstanding = true ∧ holder.sending.message = requestOf stream.file holder.after

theorem Ready.mono {gone : Bool} {file : File} {subscriber : Subscriber}
    (ready : Ready hosted count key file subscriber)
    (fewer : gone = true → hosted = true) : Ready gone count key file subscriber where
  id := ready.id
  valid alive := ready.valid (fewer alive)
  sized := ready.sized

theorem Poised.free (now : Ready hosted count key stream.file stream.subscriber) (free : stream.locked = none) :
    Poised hosted count key stream where
  now := now
  held holder held := by
    rw [free] at held
    contradiction

/-- What `requestChunk` begins or repeats. -/
theorem ready_requested {after : Subscriber} {message : MessageDto} (isExact : Exact stream)
    (ready : Ready hosted count key stream.file stream.subscriber)
    (sized : size' = stream.subscriber.requestSize stream.file count ∨
      stream.subscriber.request.outstanding = true ∧ size' = stream.subscriber.request.size)
    (requested : Requested stream.subscriber stream.file size' after (some message)) :
    Ready hosted count key stream.file after ∧ after.request.outstanding = true ∧
      message = requestOf stream.file after := by
  cases requested with
  | again valid outstanding =>
    refine ⟨ready, outstanding, ?_⟩
    rw [requestOf, (isExact.tracks.asked outstanding).2.2.1]
    congr 1
    rcases sized with buffered | ⟨-, same⟩
    · rw [buffered, ready.sized outstanding]
    · exact same
  | fresh id valid idle is =>
    have buffered := sized.resolve_right fun again => by
      rw [idle] at again
      exact absurd again.1 (by simp)
    exact ⟨⟨ready.id, fun _ => valid, fun _ => buffered⟩, rfl, rfl⟩

theorem Poised.step {gone : Bool} (poised : Poised (s.hosted stream.file.host) count key stream)
    (isExact : Exact stream) (fewer : gone = true → s.hosted stream.file.host = true)
    (uncancelled : key ∉ s.invalidating) (moves : Moves s t count key stream next) :
    Poised gone count key next := by
  have ready := poised.now.mono fewer
  have held := fun holder is => (poised.held holder is).imp_left fun ready => ready.mono fewer
  cases moves with
  | same locked subscriber file =>
    exact ⟨by rwa [file, subscriber], by rwa [locked, file]⟩
  | filled data free held =>
    refine .free ⟨ready.id, ready.valid, fun outstanding => ?_⟩ free
    have unread := (isExact.tracks.asked outstanding).2.1
    rw [held] at unread
    contradiction
  | asked size after resume message free sized requested =>
    obtain ⟨later, outstanding, is⟩ := ready_requested isExact ready sized requested
    refine ⟨ready, ?_⟩
    rintro _ ⟨⟩
    exact ⟨later, outstanding, is⟩
  | refused after references free id ended =>
    rcases ended with ⟨ended, idle⟩ | rfl
    · refine .free ⟨id.trans ready.id, fun alive => ?_, fun outstanding => ?_⟩ rfl
      · rw [fewer alive] at ended
        contradiction
      · rw [idle] at outstanding
        contradiction
    · exact .free ready rfl
  | captured after resume frame is =>
    refine ⟨ready, ?_⟩
    rintro _ ⟨⟩
    have before := held _ is
    exact before
  | released holder references is => exact .free (held _ is).1 rfl
  | provided sender reply after result handling handled free answered =>
    have empty := fun outstanding => (isExact.tracks.asked outstanding).2.1
    rcases provideFileChunk_spec empty answered with ⟨rfl, other⟩ | ⟨rfl, outstanding, id, offset, length, sized, rfl⟩
    · cases result with
      | accepted => contradiction
      | duplicate => exact .free ready free
      | invalid => exact .free ready free
    · exact .free ⟨ready.id, ready.valid, nofun⟩ free
  | cancelled references member => exact absurd member uncancelled

/-- What is kept about the subscribers of the host. -/
structure Attended (host : PeerId) (buffer : Key → Int) (s : Streams) : Prop where
  uncancelled : ∀ key ∈ s.invalidating, ∃ file ∈ s.index.created, key.1 = file.serverFileId ∧ file.host ≠ host
  fresh : ∀ key stream, s.streams key = some stream → key.2 < (s.subscribers key.1).counter
  poised : ∀ key stream, s.streams key = some stream → stream.file.host = host →
    Poised (s.hosted stream.file.host) (buffer key) key stream

theorem Moves.file (moves : Moves s t count key stream next) : next.file = stream.file := by
  cases moves with
  | same locked subscriber file => exact file
  | provided sender reply after result => cases result <;> rfl
  | _ => rfl

/-- No subscriber of the host waits to be cancelled. -/
theorem Attended.spared (attended : Attended host buffer s) (filed : Filed s)
    (present : s.streams key = some stream) (own : stream.file.host = host) : key ∉ s.invalidating := by
  intro member
  obtain ⟨file, created, named, other⟩ := attended.uncancelled key member
  obtain ⟨mine, id⟩ := filed.own key stream present
  exact other (filed.agreed.same created mine (named.symm.trans id) ▸ own)

theorem attended_step (filed : Filed s) (allExact : AllExact s) (hosting : Hosting host s)
    (attended : Attended host buffer s) (step : (downloads decode size host buffer).step s l t) :
    Attended host buffer t := by
  have more : ∀ f ∈ s.index.created, f ∈ t.index.created := by
    rcases index_step step.1 with ⟨l', moved, _⟩ | same | ⟨_, _, _, _, same, _⟩
    · exact created_mono moved
    · exact fun f member => same ▸ member
    · exact fun f member => same ▸ member
  refine ⟨fun key member => ?_, fun key next present => ?_, fun key next present own => ?_⟩
  · rcases invalidating_step step.1 key member with old | ⟨file, withdrawn, live⟩
    · obtain ⟨file, created, rest⟩ := attended.uncancelled key old
      exact ⟨file, more file created, rest⟩
    · obtain ⟨created, other⟩ := hosting.withdrawn file withdrawn
      obtain ⟨id, _, rfl⟩ := List.mem_map.mp (List.mem_filter.mp live).1
      exact ⟨file, more file created, rfl, other⟩
  · rcases moves_step step present with ⟨stream, old, _⟩ | ⟨_, _, _, counter, _⟩
    · exact Nat.lt_of_lt_of_le (attended.fresh key stream old) (counter_step step.1 _)
    · exact counter
  · rcases moves_step step present with ⟨stream, old, moves⟩ | ⟨_, _, _, _, is⟩
    · have same := moves.file
      rw [same] at own ⊢
      refine (attended.poised key stream old own).step (allExact key stream old) (hosted_before step.1)
        (attended.spared filed old own) moves
    · rw [is]
      exact .free ⟨rfl, fun _ => rfl, nofun⟩ rfl

/-- A part that can be asked of a file. -/
structure Within (file : File) (part : ChunkPart) : Prop where
  position : 0 ≤ part.position
  positive : 0 < part.size
  chunk : part.size ≤ Limits.chunkBytes
  room : part.size ≤ file.fileSize - part.position

/-- A request for a part of the host's file, from one of its subscribers. -/
def Requests (host : PeerId) (s : Streams) (message : MessageDto) : Prop :=
  ∃ key stream part, s.streams key = some stream ∧ stream.file.host = host ∧ Within stream.file part ∧
    message = requestMessage stream.file key.2 part.position part.size part.requestId

/-- A reply to such a request, with as many bytes as it asks for. -/
def Replies (decode : Bytes → Option Bytes) (host : PeerId) (s : Streams) (message : MessageDto) : Prop :=
  ∃ key stream part request encoded, ∃ data : Bytes, s.streams key = some stream ∧ stream.file.host = host ∧
    Within stream.file part ∧ part.size = data.length ∧ decode encoded = some data ∧
    (requestMessage stream.file key.2 part.position part.size part.requestId).files = some [some request] ∧
    message = createFileChunkMessage request encoded data.length

/-- The part that a message names, if it is for this subscriber. -/
def partOf (key : Key) (message : MessageDto) : Option ChunkPart :=
  match message.files with
  | some [some file] =>
    if file.serverFileId = some (key.1 : Int) ∧ file.subscriberId = some (key.2 : Int) then do
      some ⟨← file.chunkRequestId, ← file.chunkPosition, ← file.chunkSize⟩
    else none
  | _ => none

/-- The part that was accepted last, and the one that is asked for. -/
def settledPart (subscriber : Subscriber) : ChunkPart :=
  ⟨subscriber.request.completedId, subscriber.request.completedPosition, subscriber.request.completedSize⟩

def askedPart (subscriber : Subscriber) : Option ChunkPart :=
  if subscriber.request.outstanding then
    some ⟨subscriber.request.requestId, subscriber.request.position, subscriber.request.size⟩
  else none

def ChunkReply.part (reply : ChunkReply) : ChunkPart := ⟨reply.requestId, reply.position, reply.size⟩

theorem partOf_request (key : Key) (file : File) (id position size : Int) (requestId : Nat) :
    partOf key (requestMessage file id position size requestId) =
      if (file.serverFileId : Int) = key.1 ∧ id = key.2 then some ⟨requestId, position, size⟩ else none := by
  simp only [partOf, requestMessage, Option.some.injEq]
  rfl

/-- A reply names the part of its request. -/
theorem partOf_reply {message : MessageDto} (files : message.files = some [some request])
    (sized : request.chunkSize = some size') :
    partOf key (createFileChunkMessage request encoded size') = partOf key message := by
  simp only [partOf, createFileChunkMessage, files, sized]

/-- An id of the wire finds the file with this id. -/
theorem Filed.getFile (filed : Filed s) (found : getFile s.index.room wireId = some file) :
    file ∈ s.index.created ∧ wireId = file.serverFileId := by
  unfold Files.getFile at found
  split at found
  · contradiction
  · rename_i positive
    obtain ⟨front, back, is, -⟩ := List.lookup_eq_some_iff.mp found
    obtain ⟨created, named⟩ := filed.agreed.entries _ _ (is ▸ List.mem_append_right front List.mem_cons_self)
    exact ⟨created, by omega⟩

theorem Within.valid {part : ChunkPart} (within : Within file part) (sized : part.size = (received : Nat)) :
    validChunk part.position received received file.fileSize = true := by
  obtain ⟨position, positive, chunk, room⟩ := within
  rw [sized] at positive chunk room
  rw [validChunk, if_neg (by omega)]
  simp only [Bool.and_eq_true, decide_eq_true_eq]
  omega

/-- A reply of the host is ignored when the file is not in the room, and passes otherwise. -/
theorem check_reply {message : MessageDto} (filed : Filed s) (hosted : s.hosted host = true)
    (replies : Replies decode host s message) :
    checkFileChunk decode s.index.room s.hosted host message = .ignored ∨
      ∃ file reply, checkFileChunk decode s.index.room s.hosted host message = .passed file reply ∧
        (∃ key stream, s.streams key = some stream ∧ file = stream.file ∧ reply.subscriberId = key.2) ∧
        reply.size = reply.data.length ∧
        ∀ key, (partOf key message).toList = if file.serverFileId = key.1 ∧ reply.subscriberId = key.2 then
          [reply.part] else [] := by
  obtain ⟨key, stream, part, request, encoded, data, present, own, within, sized, decodes, files, rfl⟩ := replies
  simp only [requestMessage, Option.some.injEq, List.cons.injEq, and_true] at files
  subst files
  obtain ⟨created, named⟩ := filed.own key stream present
  simp only [checkFileChunk, createFileChunkMessage]
  cases found : getFile s.index.room stream.file.serverFileId with
  | none => exact .inl rfl
  | some file =>
    obtain ⟨known, same⟩ := filed.getFile found
    obtain rfl := filed.agreed.same known created (Int.ofNat_inj.mp same.symm)
    right
    refine ⟨stream.file, ⟨key.2, part.requestId, part.position, data.length, data⟩, ?_,
      ⟨key, stream, present, rfl, rfl⟩, rfl, fun other => ?_⟩
    · simp [own, hosted, decodes, within.valid sized]
    · simp only [partOf, ChunkReply.part, Option.some.injEq, Int.natCast_inj]
      split <;> rfl

/-- The chunk requests that wait in the outbound queue of a peer. -/
def outbox (index : Index) (member : PeerId) : List MessageDto :=
  (index.peers member).elim [] fun peer => (peer.outboundFrames.map (·.payload)).filter isChunkRequest

/-- The request inside `sendMessageAsync` for a subscriber. -/
def sending (s : Streams) (key : Key) : List MessageDto :=
  (s.streams key).elim [] fun stream => stream.locked.toList.map (·.sending.message)

/-- The reply that is being handled for a subscriber. -/
def handledParts (s : Streams) (host : PeerId) (key : Key) : List ChunkPart :=
  match s.handling host with
  | none => []
  | some (.found file reply) =>
    if file.serverFileId = key.1 ∧ reply.subscriberId = key.2 then [reply.part] else []
  | some (.providing found reply) => if found = key then [reply.part] else []

theorem outbox_some {index : Index} {peer : Peer} (present : index.peers host = some peer) :
    outbox index host = (peer.outboundFrames.map (·.payload)).filter isChunkRequest := by
  rw [outbox, present, Option.elim_some]

/-- A peer is put in place with the same queue, or without one where none was. -/
theorem outbox_setPeer {index : Index} {member : PeerId} {after : Peer}
    (queue : outbox index member = (after.outboundFrames.map (·.payload)).filter isChunkRequest) :
    outbox (index.setPeer member after) host = outbox index host := by
  by_cases here : host = member
  · subst here
    rw [queue, @outbox_some _ _ after (Function.update_self ..)]
  · simp only [outbox, Index.setPeer, Function.update_of_ne here]

theorem invalidate_queue (peer : Peer) (generation : Nat) (reason : CloseReason) :
    (peer.invalidateSocketIfCurrent generation reason).1.outboundFrames = peer.outboundFrames := by
  unfold Peer.invalidateSocketIfCurrent
  split <;> rfl

theorem detach_queue {peer after : Peer} (detached : peer.detachIfCurrent socket = (after, known)) :
    after.outboundFrames = peer.outboundFrames := by
  unfold Peer.detachIfCurrent at detached
  split at detached <;> cases detached <;> rfl

theorem enqueue_queue {peer after : Peer} {frame : OutboundFrame} (posted : peer.enqueue size frame = some after) :
    after.outboundFrames = peer.outboundFrames ++ [frame] := by
  unfold Peer.enqueue at posted
  dsimp only at posted
  split at posted
  · contradiction
  · cases posted
    rfl

/-- A frame that is posted is queued, or the queue stays. -/
theorem post_outbox {peer : Peer} {frame : OutboundFrame} (member : PeerId)
    (present : s.index.peers member = some peer) :
    outbox (s.post size member peer frame).index host = outbox s.index host ∨
      member = host ∧ outbox (s.post size member peer frame).index host =
        outbox s.index host ++ [frame.payload].filter isChunkRequest := by
  unfold Streams.post
  split
  · rename_i after posted
    by_cases here : member = host
    · subst here
      refine .inr ⟨rfl, ?_⟩
      rw [outbox_some present, @outbox_some _ _ after (Function.update_self ..), enqueue_queue posted,
        List.map_append, List.filter_append]
      rfl
    · left
      simp only [outbox, Streams.setPeer, Index.setPeer, Function.update_of_ne (Ne.symm here)]
  · left
    rw [invalidate_index]
    exact outbox_setPeer (by rw [invalidate_queue, outbox_some present])

theorem index_outbox {i j : Index} {l : IndexLabel} (moved : IndexStep i l j) (admitted : Admitted i j) :
    outbox j host = outbox i host := by
  cases moved with
  | @join _ room member peer absent =>
    obtain ⟨_, _, _, _, rfl⟩ := admitted.peers member peer absent (Function.update_self ..)
    refine outbox_setPeer ?_
    simp only [outbox, absent]
    rfl
  | add _ found =>
    have queue := outbox_some found
    exact outbox_setPeer queue
  | take _ found =>
    have queue := outbox_some found
    exact outbox_setPeer queue
  | _ => rfl

/-- The queue of the host takes the request that is being sent, or no request. -/
theorem outbox_step (step : StreamsStep decode size s l t) (quiet : ∀ frame, l ≠ .take host frame) :
    outbox t.index host = outbox s.index host ∨
      ∃ key stream holder next, s.streams key = some stream ∧ stream.file.host = host ∧
        stream.locked = some holder ∧ t.streams key = some next ∧ next.locked = none ∧
        outbox t.index host = outbox s.index host ++ [holder.sending.message].filter isChunkRequest := by
  cases step with
  | files moved admitted => exact .inl (index_outbox moved admitted)
  | detached => exact .inl (by rw [release_index])
  | push present held found =>
    rw [release_index]
    rcases post_outbox _ found with same | ⟨own, same⟩
    · exact .inl same
    · obtain ⟨references, now⟩ := release_at ..
      exact .inr ⟨_, _, _, _, present, own, held, now, rfl, same⟩
  | wait => exact .inl (by rw [ask_index])
  | skip => exact .inl (by rw [release_index])
  | reissue => exact .inl (by rw [ask_index])
  | bind found _ _ replaced =>
    cases replaced
    left
    refine outbox_setPeer ?_
    rw [outbox_some found]
  | detach found _ lost => exact .inl (outbox_setPeer (by rw [detach_queue lost, outbox_some found]))
  | invalidate found =>
    left
    rw [invalidate_index]
    exact outbox_setPeer (by rw [invalidate_queue, outbox_some found])
  | post found other =>
    rcases post_outbox _ found with same | ⟨-, same⟩
    · exact .inl same
    · left
      rw [same, List.filter_singleton]
      simp [isChunkRequest, other]
  | take found taken =>
    left
    have elsewhere := fun here => quiet _ (congrArg (StreamsLabel.take · _) (Eq.symm here))
    simp only [outbox, Streams.setPeer, Index.setPeer, Function.update_of_ne elsewhere]
  | _ => exact .inl rfl

/-- The frame that is taken is the first of the queue. -/
theorem outbox_take (step : StreamsStep decode size s (.take host frame) t) :
    outbox s.index host = written frame ++ outbox t.index host ∧ t.streams = s.streams ∧ t.handling = s.handling := by
  cases step with
  | take found taken =>
    refine ⟨?_, rfl, rfl⟩
    rw [outbox_some found, @outbox_some _ _ _ (Function.update_self ..)]
    unfold Peer.takeOutboundFrame at taken
    split at taken
    · rename_i empty
      cases taken
      simp [empty, written]
    · rename_i first rest queue
      cases taken
      rw [queue, List.map_cons, ← List.singleton_append, List.filter_append]
      rfl

theorem setStream_stays (stream' : Stream) (other : Key) (old : ∃ stream, s.streams key = some stream) :
    ∃ next, (s.setStream other stream').streams key = some next := by
  rw [setStream_streams, Function.update_apply]
  split
  · exact ⟨_, rfl⟩
  · exact old

theorem release_stays (stream' : Stream) (other : Key) (after : Subscriber) (resume : Option Binding)
    (old : ∃ stream, s.streams key = some stream) :
    ∃ next, (s.release other stream' after resume).streams key = some next := by
  cases resume <;> exact setStream_stays _ other old

theorem ask_stays (stream' : Stream) (other : Key) (after : Subscriber) (resume : Option Binding)
    (request : Option MessageDto) (old : ∃ stream, s.streams key = some stream) :
    ∃ next, (s.ask other stream' after resume request).streams key = some next := by
  cases request with
  | none => exact release_stays _ other _ _ old
  | some message => exact setStream_stays _ other old

theorem pin_stays (keys : List Key) (old : ∃ stream, s.streams key = some stream) :
    ∃ next, (s.pin keys).streams key = some next := by
  obtain ⟨stream, old⟩ := old
  simp only [Streams.pin, old]
  split <;> exact ⟨_, rfl⟩

/-- No subscriber is forgotten by the record. -/
theorem streams_stay (step : StreamsStep decode size s l t) (old : ∃ stream, s.streams key = some stream) :
    ∃ next, t.streams key = some next := by
  cases step with
  | subscribe => exact setStream_stays _ _ old
  | read => exact setStream_stays _ _ old
  | wait => exact ask_stays _ _ _ _ _ old
  | drop => exact setStream_stays _ _ old
  | capture => exact setStream_stays _ _ old
  | detached => exact release_stays _ _ _ _ old
  | push => exact release_stays _ _ _ _ (by rwa [post_streams])
  | lookup => exact pin_stays _ old
  | provide => exact setStream_stays _ _ old
  | clear => exact pin_stays _ old
  | cancel => exact setStream_stays _ _ old
  | file => exact pin_stays _ old
  | skip => exact release_stays _ _ _ _ old
  | reissue => exact ask_stays _ _ _ _ _ old
  | invalidate => rwa [invalidate_streams]
  | post => rwa [post_streams]
  | _ => exact old

/-- A subscriber stays one of its file. -/
theorem Attended.stays (attended : Attended host buffer s) (step : (downloads decode size host buffer).step s l t)
    (present : s.streams key = some stream) : ∃ next, t.streams key = some next ∧ next.file = stream.file := by
  obtain ⟨next, now⟩ := streams_stay step.1 ⟨stream, present⟩
  refine ⟨next, now, ?_⟩
  rcases moves_step step now with ⟨old, same, moves⟩ | ⟨_, _, counter, _⟩
  · cases same.symm.trans present
    exact moves.file
  · have := attended.fresh key stream present
    omega

theorem Attended.requests {message : MessageDto} (attended : Attended host buffer s)
    (step : (downloads decode size host buffer).step s l t) (sound : Requests host s message) :
    Requests host t message := by
  obtain ⟨key, stream, part, present, rest⟩ := sound
  obtain ⟨next, now, same⟩ := attended.stays step present
  exact ⟨key, next, part, now, by rwa [same]⟩

theorem Attended.replies {message : MessageDto} (attended : Attended host buffer s)
    (step : (downloads decode size host buffer).step s l t) (sound : Replies decode host s message) :
    Replies decode host t message := by
  obtain ⟨key, stream, part, request, encoded, data, present, rest⟩ := sound
  obtain ⟨next, now, same⟩ := attended.stays step present
  exact ⟨key, next, part, request, encoded, data, now, by rwa [same]⟩

/-- What the holder of a lock sends asks for what its subscriber will wait for. -/
theorem Poised.message {holder : Holder} (poised : Poised hosted count key stream)
    (named : key.1 = stream.file.serverFileId) (held : stream.locked = some holder) (other : Key) :
    partOf other holder.sending.message = if other = key then askedPart holder.after else none := by
  obtain ⟨ready, outstanding, is⟩ := poised.held holder held
  rw [is, requestOf, partOf_request, askedPart, if_pos outstanding, ready.id, ← named]
  simp only [Int.natCast_inj, ← Prod.ext_iff, eq_comm]

theorem Poised.requests {holder : Holder} (poised : Poised hosted count key stream) (isExact : Exact stream)
    (present : s.streams key = some stream) (own : stream.file.host = host) (held : stream.locked = some holder) :
    Requests host s holder.sending.message := by
  obtain ⟨ready, outstanding, is⟩ := poised.held holder held
  have tracks := isExact.held holder held
  obtain ⟨_, _, nextPosition, positive, within, _⟩ := tracks.asked outstanding
  have sized := ready.sized outstanding
  have progress := tracks.progress
  simp only [Subscriber.requestSize] at sized
  refine ⟨key, stream, ⟨holder.after.request.requestId, holder.after.request.position, holder.after.request.size⟩,
    present, own, ⟨?_, positive, ?_, ?_⟩, by rw [is, requestOf, ready.id]⟩
  all_goals
    simp only
    omega

/-- What the holder of the lock will leave, or the subscriber as it is. -/
def Stream.pending (stream : Stream) : Subscriber := stream.locked.elim stream.subscriber Holder.after

/-- The requests the server has yet to write. -/
def outgoing (host : PeerId) (s : Streams) (key : Key) : List MessageDto :=
  outbox s.index host ++ sending s key

/-- Everything under way for a subscriber, what the server meets first at the front. -/
def Link.flow (host : PeerId) (w : Link) (key : Key) : List ChunkPart :=
  handledParts w.streams host key ++
    (w.replies ++ w.received ++ w.requests ++ outgoing host w.streams key).filterMap (partOf key)

/-- The exchange of every subscriber of the host. -/
def PacedAll (host : PeerId) (w : Link) : Prop :=
  ∀ key stream, w.streams.streams key = some stream → stream.file.host = host →
    Paced (settledPart stream.pending) (askedPart stream.pending) (w.flow host key)

theorem sending_some (present : s.streams key = some stream) :
    sending s key = stream.locked.toList.map (·.sending.message) := by
  rw [sending, present, Option.elim_some]

/-- The requests that wait are those that waited, or the one that was being sent has joined them. -/
theorem outgoing_step (filed : Filed s) (attended : Attended host buffer s)
    (step : StreamsStep decode size s l t) (quiet : ∀ frame, l ≠ .take host frame)
    (present : s.streams key = some stream) :
    (outbox t.index host).filterMap (partOf key) = (outbox s.index host).filterMap (partOf key) ∨
      ∃ holder next, stream.locked = some holder ∧ t.streams key = some next ∧ next.locked = none ∧
        (outbox t.index host).filterMap (partOf key) =
          (outbox s.index host ++ sending s key).filterMap (partOf key) := by
  rcases outbox_step step quiet with same | ⟨other, sender, holder, next, known, hosts, held, now, free, more⟩
  · exact .inl (by rw [same])
  · have poised := attended.poised other sender known hosts
    have message := poised.message (filed.own other sender known).2 held key
    have asks : isChunkRequest holder.sending.message = true := by
      rw [(poised.held holder held).2.2]
      rfl
    rw [List.filter_singleton, asks, cond_true] at more
    by_cases here : key = other
    · subst here
      cases known.symm.trans present
      exact .inr ⟨holder, next, held, now, free, by rw [more, sending_some present, held]; rfl⟩
    · left
      rw [if_neg here] at message
      simp [more, message]

def Handling.reply : Handling → ChunkReply
  | .found _ reply | .providing _ reply => reply

/-- The subscriber that a reply in its handler is for. -/
def Named (host : PeerId) (s : Streams) : Handling → Prop
  | .found file reply => ∃ key stream, s.streams key = some stream ∧ stream.file = file ∧
      stream.file.host = host ∧ reply.subscriberId = key.2
  | .providing key _ => ∃ stream, s.streams key = some stream ∧ stream.file.host = host

/-- Only requests of the host's subscribers and replies to them are under way. -/
structure Sound (decode : Bytes → Option Bytes) (host : PeerId) (w : Link) : Prop where
  queued : ∀ message ∈ outbox w.streams.index host, Requests host w.streams message
  requests : ∀ message ∈ w.requests, Requests host w.streams message
  received : ∀ message ∈ w.received, Requests host w.streams message
  replies : ∀ message ∈ w.replies, Replies decode host w.streams message
  handled : ∀ handling, w.streams.handling host = some handling →
    Named host w.streams handling ∧ handling.reply.size = handling.reply.data.length

theorem Requests.present {message : MessageDto} (requests : Requests host s message) (filed : Filed s)
    (about : partOf key message = some part) : ∃ stream, s.streams key = some stream := by
  obtain ⟨other, stream, part, present, own, within, rfl⟩ := requests
  rw [partOf_request, ← (filed.own other stream present).2] at about
  split at about
  · rename_i here
    obtain rfl : other = key := Prod.ext (Int.natCast_inj.mp here.1) (Int.natCast_inj.mp here.2)
    exact ⟨stream, present⟩
  · contradiction

theorem Replies.present {message : MessageDto} (replies : Replies decode host s message) (filed : Filed s)
    (about : partOf key message = some part) : ∃ stream, s.streams key = some stream := by
  obtain ⟨other, stream, part, request, encoded, data, present, own, within, sized, decodes, files, rfl⟩ := replies
  simp only [requestMessage, Option.some.injEq, List.cons.injEq, and_true] at files
  have same : partOf key (createFileChunkMessage request encoded data.length) =
      partOf key (requestMessage stream.file other.2 part.position part.size part.requestId) :=
    partOf_reply (by rw [← files]; rfl) (by rw [← files, sized])
  rw [same] at about
  exact Requests.present ⟨other, stream, part, present, own, within, rfl⟩ filed about

/-- What a step queues is a request that was being sent before. -/
theorem outbox_requests (allExact : AllExact s) (attended : Attended host buffer s)
    (queued : ∀ message ∈ outbox s.index host, Requests host s message)
    (step : StreamsStep decode size s l t) (quiet : ∀ frame, l ≠ .take host frame) :
    ∀ message ∈ outbox t.index host, Requests host s message := by
  rcases outbox_step step quiet with same | ⟨key, stream, holder, next, present, own, held, _, _, more⟩
  · rwa [same]
  · intro message member
    rw [more] at member
    rcases List.mem_append.mp member with old | new
    · exact queued message old
    · rw [List.mem_singleton.mp (List.mem_filter.mp new).1]
      exact (attended.poised key stream present own).requests (allExact key stream present) present own held

/-- Nothing is under way for a subscriber that does not exist yet. -/
theorem Sound.absent {w : Link} (sound : Sound decode host w) (filed : Filed w.streams)
    (queued : ∀ message ∈ queue, Requests host w.streams message) (absent : w.streams.streams key = none) :
    (w.replies ++ w.received ++ w.requests ++ queue).filterMap (partOf key) = [] := by
  rw [List.filterMap_eq_nil_iff]
  intro message member
  have partless : ∀ part, partOf key message ≠ some part := by
    intro part about
    have present : ∃ stream, w.streams.streams key = some stream := by
      simp only [List.mem_append] at member
      rcases member with ((reply | received) | request) | waiting
      · exact (sound.replies message reply).present filed about
      · exact (sound.received message received).present filed about
      · exact (sound.requests message request).present filed about
      · exact (queued message waiting).present filed about
    rw [absent] at present
    obtain ⟨_, present⟩ := present
    contradiction
  exact Option.eq_none_iff_forall_ne_some.mpr partless

theorem handledParts_some (handling : s.handling host = some (.providing key reply)) :
    handledParts s host key = [reply.part] := by
  rw [handledParts, handling]
  exact if_pos rfl

/-- A reply in its handler is for a subscriber that exists. -/
theorem Sound.handledParts_absent {w : Link} (sound : Sound decode host w) (filed : Filed w.streams)
    (absent : w.streams.streams key = none) : handledParts w.streams host key = [] := by
  unfold handledParts
  split
  · rfl
  · rename_i file reply handling
    obtain ⟨⟨other, stream, present, rfl, own, named⟩, -⟩ := sound.handled _ handling
    rw [if_neg]
    rintro ⟨same, id⟩
    obtain rfl : other = key := Prod.ext ((filed.own other stream present).2.trans same) (by omega)
    rw [absent] at present
    contradiction
  · rename_i found reply handling
    obtain ⟨⟨stream, present, own⟩, -⟩ := sound.handled _ handling
    rw [if_neg]
    rintro rfl
    rw [absent] at present
    contradiction

/-- A reply stays in its handler, finds its subscriber there, or leaves it. -/
theorem handling_step (step : StreamsStep decode size s l t)
    (quiet : ∀ message check, l ≠ .chunk host message check) :
    t.handling host = s.handling host ∨ t.handling host = none ∨
      ∃ file reply, ∃ id : Nat, s.handling host = some (.found file reply) ∧ reply.subscriberId = id ∧
        s.alive (file.serverFileId, id) = true ∧
        t.handling host = some (.providing (file.serverFileId, id) reply) := by
  have keep : shell t = shell s → t.handling host = s.handling host := by
    intro same
    rw [show t.handling = s.handling from congrArg Shell.handling same]
  have leaves : ∀ sender, t.handling = Function.update s.handling sender none →
      t.handling host = s.handling host ∨ t.handling host = none := by
    intro sender is
    rw [is, Function.update_apply]
    split
    · exact .inr rfl
    · exact .inl rfl
  cases step with
  | pass =>
    have elsewhere := fun here => quiet _ _ (congrArg (StreamsLabel.chunk · _ _) (Eq.symm here))
    exact .inl (Function.update_of_ne elsewhere ..)
  | @lookup _ sender _ _ _ handling named _ alive =>
    by_cases here : host = sender
    · subst here
      exact .inr (.inr ⟨_, _, _, handling, named, alive, Function.update_self ..⟩)
    · exact .inl (Function.update_of_ne here ..)
  | absent => exact (leaves _ rfl).imp_right .inl
  | expired => exact (leaves _ rfl).imp_right .inl
  | provide => exact (leaves _ rfl).imp_right .inl
  | detached => exact .inl (keep (release_shell ..))
  | push => exact .inl (keep ((release_shell ..).trans (post_shell ..)))
  | wait => exact .inl (keep (ask_shell ..))
  | skip => exact .inl (keep (release_shell ..))
  | reissue => exact .inl (keep (ask_shell ..))
  | invalidate => exact .inl (keep (invalidate_shell ..))
  | post => exact .inl (keep (post_shell ..))
  | _ => exact .inl rfl

theorem handled_flow (step : StreamsStep decode size s l t) (quiet : ∀ message check, l ≠ .chunk host message check)
    (key : Key) : (handledParts t host key).Sublist (handledParts s host key) := by
  rcases handling_step step quiet with same | cleared | ⟨file, reply, id, before, named, -, after⟩
  · rw [handledParts, handledParts, same]
  · rw [handledParts, cleared]
    exact List.nil_sublist _
  · simp only [handledParts, before, after, named, Int.natCast_inj, Prod.ext_iff]
    exact List.Sublist.refl _

/-- What is new among the requests that wait is what is being sent now. -/
theorem outgoing_moves (filed : Filed s) (attended : Attended host buffer s) (step : StreamsStep decode size s l t)
    (quiet : ∀ frame, l ≠ .take host frame) (present : s.streams key = some stream)
    (now : t.streams key = some next) (moves : Moves s t count key stream next) :
    ((outgoing host t key).filterMap (partOf key)).Sublist
      ((outgoing host s key).filterMap (partOf key) ++
        if stream.locked = none then (sending t key).filterMap (partOf key) else []) := by
  simp only [outgoing, List.filterMap_append]
  rcases outgoing_step filed attended step quiet present with same | ⟨holder, last, held, left, free, more⟩
  · rw [same]
    cases locked : stream.locked with
    | none =>
      rw [if_pos rfl, sending_some present, locked]
      simp
    | some holder =>
      rw [if_neg (by simp), List.append_nil]
      refine List.Sublist.append_left (List.Sublist.filterMap _ ?_) _
      rw [sending_some present, sending_some now, locked]
      cases moves with
      | same is => rw [is, locked]
      | filled data free => rw [locked] at free; contradiction
      | asked size after resume message free => rw [locked] at free; contradiction
      | refused after references free => rw [locked] at free; contradiction
      | captured after resume frame is =>
        rw [locked] at is
        cases is
        exact List.Sublist.refl _
      | released => exact List.nil_sublist _
      | provided sender reply after result handling handled free => rw [locked] at free; contradiction
      | cancelled => rw [locked]
  · cases left.symm.trans now
    rw [more, sending_some now, free, if_neg (by simp [held])]
    simp [List.filterMap_append]

theorem flow_room {w : Link} (step : StreamsStep decode size w.streams l t)
    (quiet : ∀ message check, l ≠ .chunk host message check)
    (out : ((outgoing host t key).filterMap (partOf key)).Sublist
      ((outgoing host w.streams key).filterMap (partOf key) ++ extra)) :
    (Link.flow host { w with streams := t } key).Sublist (w.flow host key ++ extra) := by
  simp only [Link.flow, List.filterMap_append, List.append_assoc]
  exact (handled_flow step quiet key).append (.append_left (.append_left (.append_left out _) _) _)

/-- The answer to a reply with as many bytes as it declares. -/
theorem provide_sized {subscriber after : Subscriber} {reply : ChunkReply} (sized : reply.size = reply.data.length)
    (empty : subscriber.request.outstanding = true → subscriber.chunk = none)
    (answered : subscriber.provideFileChunk reply.requestId reply.position reply.size (some reply.data) =
      (after, result)) :
    result = if reply.part = settledPart subscriber then .duplicate
      else if askedPart subscriber = some reply.part then .accepted else .invalid := by
  have answer : (subscriber.request.accept reply.requestId reply.position reply.data.length
      reply.data.length).2 = result := by
    rw [sized] at answered
    unfold Subscriber.provideFileChunk at answered
    split at answered
    · rename_i request accepted
      rw [empty (ChunkRequest.accept_accepted accepted).1] at answered
      cases answered
      exact congrArg Prod.snd accepted
    · rename_i request answer other accepted
      cases answered
      exact congrArg Prod.snd accepted
  rw [← answer, accept_sized]
  simp only [settledPart, askedPart, ChunkReply.part, sized, ChunkPart.mk.injEq]
  split
  · rfl
  · cases outstanding : subscriber.request.outstanding with
    | false => simp
    | true =>
      simp only [true_and, if_true, Option.some.injEq, ChunkPart.mk.injEq, eq_comm]

/-- The exchange goes on when the reply at its front is answered. -/
theorem paced_provided {subscriber after : Subscriber} {reply : ChunkReply} (sized : reply.size = reply.data.length)
    (empty : subscriber.request.outstanding = true → subscriber.chunk = none)
    (paced : Paced (settledPart subscriber) (askedPart subscriber) (reply.part :: rest))
    (answered : subscriber.provideFileChunk reply.requestId reply.position reply.size (some reply.data) =
      (after, result)) :
    chunkError result = none ∧ Paced (settledPart after) (askedPart after) rest := by
  have answer := provide_sized sized empty answered
  rcases provideFileChunk_spec empty answered with ⟨rfl, other⟩ | ⟨rfl, outstanding, id, offset, length, -, rfl⟩
  · refine ⟨?_, paced.sublist (List.sublist_cons_self ..)⟩
    split at answer
    · rw [answer]
      rfl
    · rename_i fresh
      rw [if_pos (paced.head.resolve_left fresh)] at answer
      exact absurd answer other
  · have asked : askedPart subscriber = some reply.part := by
      rw [askedPart, if_pos outstanding, ChunkReply.part, id, offset, length]
    refine ⟨rfl, ?_⟩
    rw [asked] at paced
    refine paced.settle fun settled => ?_
    rw [if_pos settled] at answer
    contradiction

theorem pending_free (free : stream.locked = none) : stream.pending = stream.subscriber := by
  rw [Stream.pending, free, Option.elim_none]

theorem pending_held {holder : Holder} (held : stream.locked = some holder) : stream.pending = holder.after := by
  rw [Stream.pending, held, Option.elim_some]

theorem pending_same (locked : next.locked = stream.locked) (subscriber : next.subscriber = stream.subscriber) :
    next.pending = stream.pending := by
  rw [Stream.pending, Stream.pending, locked, subscriber]

/-- A request that is begun is all that is new, and nothing else was asked. -/
theorem paced_asked {after : Subscriber} {message : MessageDto} (free : stream.locked = none)
    (requested : Requested stream.subscriber stream.file size' after (some message))
    (paced : Paced (settledPart stream.pending) (askedPart stream.pending) flow) :
    Paced (settledPart after) (askedPart after) (flow ++ (askedPart after).toList) := by
  rw [pending_free free] at paced
  cases requested with
  | again valid outstanding =>
    rw [askedPart, if_pos outstanding] at paced ⊢
    exact paced.send
  | fresh id valid idle is =>
    rw [show askedPart stream.subscriber = none by rw [askedPart, if_neg (by simp [idle])]] at paced
    exact (paced.ask _).send

/-- A step of the room keeps the exchange of a subscriber in step with it. -/
theorem paced_moves {w : Link} (filed : Filed w.streams) (allExact : AllExact w.streams)
    (attended : Attended host buffer w.streams) (sound : Sound decode host w)
    (step : (downloads decode size host buffer).step w.streams l t) (quiet : ∀ frame, l ≠ .take host frame)
    (unchunked : ∀ message check, l ≠ .chunk host message check) (hosted : t.hosted host = true)
    (present : w.streams.streams key = some stream) (own : stream.file.host = host)
    (now : t.streams key = some next) (moves : Moves w.streams t (buffer key) key stream next)
    (paced : Paced (settledPart stream.pending) (askedPart stream.pending) (w.flow host key)) :
    Paced (settledPart next.pending) (askedPart next.pending) (Link.flow host { w with streams := t } key) := by
  have out := outgoing_moves filed attended step.1 quiet present now moves
  have fewer : (Link.flow host { w with streams := t } key).Sublist
      (w.flow host key ++ if stream.locked = none then (sending t key).filterMap (partOf key) else []) :=
    flow_room step.1 unchunked out
  rw [sending_some now] at fewer
  have quietly : (stream.locked = none → next.locked = none) →
      Paced (settledPart stream.pending) (askedPart stream.pending) (Link.flow host { w with streams := t } key) := by
    intro free
    refine paced.sublist ?_
    by_cases locked : stream.locked = none
    · simpa [locked, free locked] using fewer
    · simpa [locked] using fewer
  cases moves with
  | same locked subscriber file =>
    rw [pending_same locked subscriber]
    exact quietly fun free => locked.trans free
  | filled data free held =>
    have same := quietly fun _ => free
    rw [pending_free free] at same
    simp only [Stream.pending, free, Option.elim_none]
    exact same
  | asked size after resume message free sized requested =>
    obtain ⟨ready, outstanding, is⟩ :=
      ready_requested (allExact key stream present) (attended.poised key stream present own).now sized requested
    have begun : Poised _ _ key { stream with locked := some ⟨after, resume, .unsent message⟩ } :=
      ⟨(attended.poised key stream present own).now, by rintro _ ⟨⟩; exact ⟨ready, outstanding, is⟩⟩
    have part : partOf key message = askedPart after :=
      (begun.message (filed.own key stream present).2 rfl key).trans (if_pos rfl)
    have pending : askedPart after = some _ := if_pos outstanding
    refine (paced_asked free requested paced).sublist ?_
    rw [if_pos free] at fewer
    rw [pending] at part ⊢
    simpa [part, Sending.message] using fewer
  | refused after references free id ended =>
    rcases ended with ⟨gone, -⟩ | rfl
    · rw [own, hosted_before step.1 hosted] at gone
      contradiction
    · have same := quietly fun _ => rfl
      rwa [pending_free free] at same
  | captured after resume frame is =>
    have same := quietly fun free => by
      rw [is] at free
      contradiction
    rwa [pending_held is] at same
  | released holder references is =>
    have same := quietly fun _ => rfl
    rwa [pending_held is] at same
  | provided sender reply after result handling handled free answered =>
    obtain rfl : sender = host := (filed.host present ⟨reply, handling⟩).trans own
    obtain ⟨-, sized⟩ := sound.handled _ handling
    rw [pending_free free, Link.flow, handledParts_some handling] at paced
    have left := (paced_provided sized (fun outstanding => ((allExact key stream present).tracks.asked outstanding).2.1)
      paced answered).2
    have free' : (stream.provide after sender reply result).locked = none := by
      cases result <;> exact free
    have after' : (stream.provide after sender reply result).subscriber = after := by
      cases result <;> rfl
    rw [pending_free free', after']
    refine left.sublist ?_
    simp only [sending_some now, free, if_true, free', Option.toList_none, List.map_nil, List.filterMap_nil,
      List.append_nil] at out
    simp only [Link.flow, handledParts, handled, List.nil_append, List.filterMap_append]
    exact List.Sublist.append_left out _
  | cancelled references member => exact absurd member (attended.spared filed present own)

/-- A peer that no longer exists is detached, with no reply in its handler. -/
def Silent (host : PeerId) (s : Streams) : Prop :=
  s.hosted host = false →
    s.handling host = none ∧ ∃ peer, s.index.peers host = some peer ∧ peer.socket = none

theorem Kept.detached {peer after : Peer} (kept : Kept peer after) (detached : peer.socket = none) :
    after.socket = none := by
  rcases kept.socket with same | lost
  · rw [same, detached]
  · exact lost

theorem setPeer_detached {index : Index} {member : PeerId} {peer after : Peer}
    (found : index.peers member = some peer)
    (kept : Kept peer after) (before : ∃ peer, index.peers host = some peer ∧ peer.socket = none) :
    ∃ peer, (index.setPeer member after).peers host = some peer ∧ peer.socket = none := by
  obtain ⟨old, present, detached⟩ := before
  simp only [Index.setPeer, Function.update_apply]
  split
  · rename_i here
    subst here
    cases found.symm.trans present
    exact ⟨after, rfl, kept.detached detached⟩
  · exact ⟨old, present, detached⟩

/-- Only `replaceSocket` binds a peer, and it is called for peers that exist. -/
theorem detached_step (step : StreamsStep decode size s l t) (gone : s.destroyed host = true)
    (before : ∃ peer, s.index.peers host = some peer ∧ peer.socket = none) :
    ∃ peer, t.index.peers host = some peer ∧ peer.socket = none := by
  cases step with
  | files moved =>
    obtain ⟨peer, present, detached⟩ := before
    obtain ⟨after, now, kept⟩ := index_peer moved present
    exact ⟨after, now, kept.detached detached⟩
  | detached => rwa [release_index]
  | push _ _ found =>
    obtain ⟨after, is, same⟩ := post_index s _ _ _
    rw [release_index, is]
    exact setPeer_detached found same.kept before
  | wait => rwa [ask_index]
  | skip => rwa [release_index]
  | reissue => rwa [ask_index]
  | bind _ alive =>
    obtain ⟨peer, present, detached⟩ := before
    refine ⟨peer, (Function.update_of_ne ?_ _ _).trans present, detached⟩
    rintro rfl
    rw [gone] at alive
    contradiction
  | detach found _ lost => exact setPeer_detached found (detach_kept lost).2 before
  | invalidate found =>
    rw [invalidate_index]
    exact setPeer_detached found (invalidate_binding ..).kept before
  | post found =>
    obtain ⟨after, is, same⟩ := post_index s _ _ _
    rw [is]
    exact setPeer_detached found same.kept before
  | take found taken => exact setPeer_detached found (take_binding taken).kept before
  | _ => exact before

/-- What a chunk message does. -/
theorem chunk_step {message : MessageDto} {check : ChunkCheck}
    (step : StreamsStep decode size s (.chunk host message check) t) :
    s.handling host = none ∧ (∃ peer, s.index.peers host = some peer ∧ peer.socket ≠ none) ∧
      checkFileChunk decode s.index.room s.hosted host message = check ∧
      ((∀ file reply, check ≠ .passed file reply) ∧ t = s ∨
        ∃ file reply, check = .passed file reply ∧ t = s.handle host (some (.found file reply))) := by
  cases step with
  | refuse present bound idle checked other => exact ⟨idle, ⟨_, present, bound⟩, checked, .inl ⟨other, rfl⟩⟩
  | pass present bound idle checked => exact ⟨idle, ⟨_, present, bound⟩, checked, .inr ⟨_, _, rfl, rfl⟩⟩

theorem silent_step (silent : Silent host s) (step : StreamsStep decode size s l t) : Silent host t := by
  intro gone
  simp only [Streams.hosted, Bool.not_eq_eq_eq_not, Bool.not_false] at gone
  rcases (destroyed_step step host).2 gone with before | now
  · obtain ⟨idle, peer, present, detached⟩ := silent (by rw [Streams.hosted, before]; rfl)
    refine ⟨?_, detached_step step before ⟨peer, present, detached⟩⟩
    by_cases chunk : ∃ message check, l = .chunk host message check
    · obtain ⟨message, check, rfl⟩ := chunk
      obtain ⟨-, ⟨same, known, bound⟩, -⟩ := chunk_step step
      cases known.symm.trans present
      exact absurd detached bound
    · rcases handling_step step fun message check is => chunk ⟨message, check, is⟩ with
        same | cleared | ⟨file, reply, id, found, -⟩
      · rw [same, idle]
      · exact cleared
      · rw [idle] at found
        contradiction
  · exact now

theorem Attended.named {handling : Handling} (attended : Attended host buffer s)
    (step : (downloads decode size host buffer).step s l t) (named : Named host s handling) :
    Named host t handling := by
  cases handling with
  | found file reply =>
    obtain ⟨key, stream, present, is, own, id⟩ := named
    obtain ⟨next, now, same⟩ := attended.stays step present
    exact ⟨key, next, now, same.trans is, same ▸ own, id⟩
  | providing key reply =>
    obtain ⟨stream, present, own⟩ := named
    obtain ⟨next, now, same⟩ := attended.stays step present
    exact ⟨next, now, same ▸ own⟩

/-- What is under way is sound in the next state too. -/
theorem Sound.later {w : Link} (sound : Sound decode host w) (attended : Attended host buffer w.streams)
    (step : (downloads decode size host buffer).step w.streams l t)
    (queued : ∀ message ∈ outbox t.index host, Requests host w.streams message)
    (handled : ∀ handling, t.handling host = some handling →
      Named host t handling ∧ handling.reply.size = handling.reply.data.length) :
    Sound decode host { w with streams := t } where
  queued message member := attended.requests step (queued message member)
  requests message member := attended.requests step (sound.requests message member)
  received message member := attended.requests step (sound.received message member)
  replies message member := attended.replies step (sound.replies message member)
  handled := handled

theorem Sound.handled_step {w : Link} (sound : Sound decode host w) (filed : Filed w.streams)
    (attended : Attended host buffer w.streams) (step : (downloads decode size host buffer).step w.streams l t)
    (quiet : ∀ message check, l ≠ .chunk host message check) :
    ∀ handling, t.handling host = some handling →
      Named host t handling ∧ handling.reply.size = handling.reply.data.length := by
  intro handling now
  rcases handling_step step.1 quiet with same | cleared | ⟨file, reply, id, before, named, alive, after⟩
  · obtain ⟨named, sized⟩ := sound.handled handling (same ▸ now)
    exact ⟨attended.named step named, sized⟩
  · rw [cleared] at now
    contradiction
  · rw [after] at now
    cases now
    obtain ⟨⟨key, stream, present, rfl, own, id'⟩, sized⟩ := sound.handled _ before
    obtain rfl : key = (stream.file.serverFileId, id) :=
      Prod.ext (filed.own key stream present).2 (by omega)
    exact ⟨attended.named step ⟨stream, present, own⟩, sized⟩

/-- The link of an honest host. -/
structure Honest (decode : Bytes → Option Bytes) (host : PeerId) (w : Link) : Prop where
  sound : Sound decode host w
  paced : w.streams.hosted host = true → PacedAll host w

/-- What is known of the room itself. -/
structure Known (host : PeerId) (buffer : Key → Int) (s : Streams) : Prop where
  filed : Filed s
  allExact : AllExact s
  hosting : Hosting host s
  attended : Attended host buffer s
  silent : Silent host s

theorem known (reached : (downloads decode size host buffer).Reachable s) : Known host buffer s := by
  have room : ∀ {s : Streams}, (downloads decode size host buffer).Reachable s →
      Filed s ∧ AllExact s ∧ Hosting host s := fun reached =>
    ⟨Files.filed reached.of_restrict, allExact reached.of_restrict,
      Files.hosting (reached.weaken fun _ _ => And.left)⟩
  have attended : Attended host buffer s := by
    refine reached.invariant ?_ fun before known step => ?_
    · rintro _ ⟨name, rfl⟩
      exact ⟨by simp, by simp, by simp⟩
    · obtain ⟨filed, allExact, hosting⟩ := room before
      exact attended_step filed allExact hosting known step
  have silent : Silent host s := by
    refine reached.invariant ?_ fun _ known step => silent_step known step.1
    rintro _ ⟨name, rfl⟩
    simp [Silent, Streams.hosted]
  obtain ⟨filed, allExact, hosting⟩ := room reached
  exact ⟨filed, allExact, hosting, attended, silent⟩

theorem honest_room {w : Link} (known : Known host buffer w.streams) (honest : Honest decode host w)
    (step : (downloads decode size host buffer).step w.streams l t) (quiet : ¬ l.OnLink host) :
    Honest decode host { w with streams := t } := by
  obtain ⟨filed, allExact, hosting, attended, silent⟩ := known
  obtain ⟨sound, paced⟩ := honest
  have untaken : ∀ frame, l ≠ .take host frame := fun frame is => quiet (by rw [is]; rfl)
  have unchunked : ∀ message check, l ≠ .chunk host message check := fun _ _ is => quiet (by rw [is]; rfl)
  have queued := outbox_requests allExact attended sound.queued step.1 untaken
  refine ⟨sound.later attended step queued (sound.handled_step filed attended step unchunked), ?_⟩
  intro hosted key next now own
  rcases moves_step step now with ⟨stream, present, moves⟩ | ⟨_, _, counter, _, is⟩
  · have same : stream.file.host = host := moves.file ▸ own
    exact paced_moves filed allExact attended sound step untaken unchunked hosted present same now moves
      (paced (hosted_before step.1 hosted) key stream present same)
  · have absent : w.streams.streams key = none := by
      cases present : w.streams.streams key with
      | none => rfl
      | some stream => exact absurd (attended.fresh key stream present) (by omega)
    have free : next.locked = none := by rw [is]
    have handled := handled_flow step.1 unchunked key
    rw [sound.handledParts_absent filed absent, List.sublist_nil] at handled
    have flow : Link.flow host { w with streams := t } key = [] := by
      rw [Link.flow, handled, outgoing, sending_some now, free]
      simpa using sound.absent filed queued absent
    rw [flow]
    exact .nil

/-- The same subscribers with the same or fewer parts under way. -/
theorem Honest.of_flow {w v : Link} (paced : w.streams.hosted host = true → PacedAll host w)
    (sound : Sound decode host v) (hosted : v.streams.hosted host = true → w.streams.hosted host = true)
    (streams : v.streams.streams = w.streams.streams) (flow : ∀ key, (v.flow host key).Sublist (w.flow host key)) :
    Honest decode host v := by
  refine ⟨sound, fun alive key stream present own => ?_⟩
  rw [streams] at present
  exact (paced (hosted alive) key stream present own).sublist (flow key)

/-- A reply that is handed over is ignored, or goes into its handler. -/
theorem honest_chunk {w : Link} {message : MessageDto} {check : ChunkCheck} (known : Known host buffer w.streams)
    (honest : Honest decode host w) (is : w.replies = message :: rest)
    (step : (downloads decode size host buffer).step w.streams (.chunk host message check) t) :
    Spared host (.chunk host message check) ∧ Honest decode host { w with streams := t, replies := rest } := by
  obtain ⟨filed, allExact, hosting, attended, silent⟩ := known
  obtain ⟨sound, paced⟩ := honest
  obtain ⟨idle, ⟨peer, present, bound⟩, checked, outcome⟩ := chunk_step step.1
  have hosted : w.streams.hosted host = true := by
    cases gone : w.streams.hosted host with
    | true => rfl
    | false =>
      obtain ⟨-, other, same, detached⟩ := silent gone
      cases same.symm.trans present
      exact absurd detached bound
  have reply := check_reply filed hosted (sound.replies message (is ▸ List.mem_cons_self))
  rw [checked] at reply
  have fewer : ∀ message ∈ rest, Replies decode host w.streams message :=
    fun message member => sound.replies message (is ▸ List.mem_cons_of_mem _ member)
  rcases outcome with ⟨other, rfl⟩ | ⟨file, reply', rfl, rfl⟩
  · refine ⟨fun _ => reply.imp_right fun ⟨file, reply, passed, _⟩ => absurd passed (other file reply), ?_⟩
    refine .of_flow paced ⟨sound.queued, sound.requests, sound.received, fewer, sound.handled⟩ id rfl fun key => ?_
    simp only [Link.flow, is, List.cons_append]
    exact .append_left (.filterMap _ (List.sublist_cons_self ..)) _
  · refine ⟨fun _ => .inr ⟨file, reply', rfl⟩, ?_⟩
    obtain ⟨file', reply, same, ⟨key, stream, there, rfl, id⟩, sized, parts⟩ := reply.resolve_left nofun
    cases same
    have own := (checkFileChunk_passed checked).2
    have sound' : Sound decode host { w with streams := w.streams.handle host (some (.found stream.file reply'))
                                             replies := rest } := by
      refine ⟨sound.queued, sound.requests, sound.received, fewer, fun handling now => ?_⟩
      cases (Function.update_self ..).symm.trans now
      exact ⟨⟨key, stream, there, rfl, own, id⟩, sized⟩
    refine .of_flow paced sound' (fun alive => alive) rfl fun key => ?_
    have front : handledParts (w.streams.handle host (some (.found stream.file reply'))) host key =
        (partOf key message).toList := by
      simp only [handledParts, Streams.handle, Function.update_self, parts key]
    have empty : handledParts w.streams host key = [] := by
      simp only [handledParts, idle]
    simp only [Link.flow, front, empty, is, List.cons_append, List.nil_append]
    cases about : partOf key message <;> simp [about] <;> exact List.Sublist.refl _

theorem honest_step {w v : Link} (known : Known host buffer w.streams) (honest : Honest decode host w)
    (step : LinkStep decode size host buffer w l v) : Honest decode host v := by
  cases step with
  | take moved =>
    obtain ⟨queue, streams, handling⟩ := outbox_take moved.1
    obtain ⟨sound, paced⟩ := honest
    have lift := fun message => @Attended.requests _ _ _ _ _ _ _ message known.attended moved
    refine .of_flow paced ⟨fun m member => lift m (sound.queued m (queue ▸ List.mem_append_right _ member)),
      fun m member => (List.mem_append.mp member).elim (fun old => lift m (sound.requests m old))
        fun new => lift m (sound.queued m (queue ▸ List.mem_append_left _ new)),
      fun m member => lift m (sound.received m member),
      fun m member => known.attended.replies moved (sound.replies m member),
      fun handled now => (sound.handled handled (handling ▸ now)).imp_left (known.attended.named moved)⟩
      (hosted_before moved.1) streams fun key => ?_
    simp only [Link.flow, handledParts, handling, outgoing, sending, streams, queue, List.append_assoc]
    exact List.Sublist.refl _
  | receive is =>
    obtain ⟨sound, paced⟩ := honest
    refine .of_flow paced ⟨sound.queued, fun m member => sound.requests m (is ▸ List.mem_cons_of_mem _ member),
      fun m member => (List.mem_append.mp member).elim (sound.received m)
        fun new => sound.requests m (is ▸ List.mem_singleton.mp new ▸ List.mem_cons_self),
      sound.replies, sound.handled⟩ id rfl fun key => ?_
    simp only [Link.flow, is, List.append_assoc, List.cons_append]
    exact List.Sublist.refl _
  | reply is files sized decodes =>
    obtain ⟨sound, paced⟩ := honest
    refine .of_flow paced ⟨sound.queued, sound.requests,
      fun m member => sound.received m (is ▸ List.mem_cons_of_mem _ member),
      fun m member => (List.mem_append.mp member).elim (sound.replies m) fun new => ?_,
      sound.handled⟩ id rfl fun key => ?_
    · rw [List.mem_singleton.mp new]
      obtain ⟨key, stream, part, present, own, within, rfl⟩ := sound.received _ (is ▸ List.mem_cons_self)
      refine ⟨key, stream, part, _, _, _, present, own, within, ?_, decodes, files, rfl⟩
      simp only [requestMessage, Option.some.injEq, List.cons.injEq, and_true] at files
      rw [← files] at sized
      exact Option.some.inj sized
    · simp only [Link.flow, is, List.append_assoc, List.cons_append, List.filterMap_append,
        List.filterMap_cons, partOf_reply files sized]
      exact List.Sublist.refl _
  | chunk is moved => exact (honest_chunk known honest is moved).2
  | room moved quiet => exact honest_room known honest moved quiet
  | @lose _ requests replies fewer fewer' =>
    obtain ⟨sound, paced⟩ := honest
    refine .of_flow paced ⟨sound.queued, fun m member => sound.requests m (fewer.subset member), sound.received,
      fun m member => sound.replies m (fewer'.subset member), sound.handled⟩ id rfl fun key => ?_
    exact .append_left (.filterMap _ (((fewer'.append_right _).append fewer).append_right _)) _

theorem link_streams {w v : Link} (step : LinkStep decode size host buffer w l v) :
    (downloads decode size host buffer).step w.streams l v.streams ∨ l = .internal ∧ v.streams = w.streams := by
  cases step with
  | take moved => exact .inl moved
  | chunk is moved => exact .inl moved
  | room moved => exact .inl moved
  | receive => exact .inr ⟨rfl, rfl⟩
  | reply => exact .inr ⟨rfl, rfl⟩
  | lose => exact .inr ⟨rfl, rfl⟩

/-- The room under a link is one of the downloads. -/
theorem link_room {w : Link} (reached : (links decode size host buffer).Reachable w) :
    (downloads decode size host buffer).Reachable w.streams := by
  induction reached with
  | start initial =>
    obtain ⟨name, rfl⟩ := initial
    exact .start ⟨name, rfl⟩
  | next _ step ih =>
    rcases link_streams step with moved | ⟨-, same⟩
    · exact ih.next moved
    · rwa [same]

theorem honest {w : Link} (reached : (links decode size host buffer).Reachable w) : Honest decode host w := by
  refine reached.invariant ?_ fun before honest step => honest_step (known (link_room before)) honest step
  rintro _ ⟨name, rfl⟩
  exact ⟨⟨by simp [outbox], nofun, nofun, nofun, nofun⟩, fun _ => by simp [PacedAll]⟩

/-- A reply is refused exactly when its subscriber has been dropped before it is looked up. -/
theorem answer_step {w : Link} (known : Known host buffer w.streams) (honest : Honest decode host w)
    (step : StreamsStep decode size w.streams (.answer host reply result) t) :
    chunkError result = none ↔ Present host w (.answer host reply result) := by
  obtain ⟨filed, allExact, hosting, attended, silent⟩ := known
  obtain ⟨sound, paced⟩ := honest
  cases step with
  | absent handling unlisted =>
    refine ⟨nofun, fun there => ?_⟩
    obtain ⟨id, named, alive⟩ := there rfl _ _ handling
    obtain ⟨⟨key, stream, present, rfl, own, named'⟩, -⟩ := sound.handled _ handling
    obtain rfl : key = (stream.file.serverFileId, id) := Prod.ext (filed.own key stream present).2 (by omega)
    exact absurd (hosting.listed _ stream present own ((alive_some _ present).mp alive)) (unlisted id named)
  | expired handling named is listed dead =>
    refine ⟨nofun, fun there => ?_⟩
    obtain ⟨id, named', alive⟩ := there rfl _ _ handling
    rw [named, Int.natCast_inj] at named'
    rw [named', alive] at dead
    contradiction
  | provide handling present free answered =>
    obtain ⟨⟨stream, present', own⟩, sized⟩ := sound.handled _ handling
    cases present'.symm.trans present
    have hosted : w.streams.hosted host = true := by
      cases gone : w.streams.hosted host with
      | true => rfl
      | false =>
        rw [(silent gone).1] at handling
        contradiction
    have paced := paced hosted _ _ present own
    rw [pending_free free, Link.flow, handledParts_some handling] at paced
    have answer := paced_provided sized
      (fun outstanding => ((allExact _ _ present).tracks.asked outstanding).2.1) paced answered
    refine ⟨fun _ _ file reply found => ?_, fun _ => answer.1⟩
    rw [handling] at found
    cases found

/-- The host is spared in a step exactly when the reply it may answer finds its subscriber. -/
theorem spared_step {w v : Link} (known : Known host buffer w.streams) (honest : Honest decode host w)
    (step : LinkStep decode size host buffer w l v) : Spared host l ↔ Present host w l := by
  cases l with
  | chunk sender message check =>
    refine iff_of_true (fun same => ?_) trivial
    subst same
    cases step with
    | chunk is moved => exact (honest_chunk known honest is moved).1 rfl
    | room moved quiet => exact absurd rfl quiet
  | answer sender reply result =>
    by_cases same : sender = host
    · subst same
      have moved := (link_streams step).resolve_right (by simp)
      exact Iff.trans ⟨fun spared => spared rfl, fun answer _ => answer⟩ (answer_step known honest moved.1)
    · exact iff_of_true (fun here => absurd here same) fun here => absurd here same
  | _ => exact Iff.rfl

/-- In every run of an honest host's link, its replies are all accepted, recognised as
duplicates or ignored exactly when none of them is looked up after its subscriber was dropped. -/
theorem host_spared {ls : List StreamsLabel} {w : Link} (run : (links decode size host buffer).Run ls w) :
    (∀ l ∈ ls, Spared host l) ↔ ((links decode size host buffer).restrict (Present host)).Run ls w := by
  constructor
  · intro spared
    induction run with
    | start initial => exact .start initial
    | next before step ih =>
      have room := known (link_room before.reachable)
      have last := spared _ (List.mem_append_right _ (List.mem_singleton_self _))
      exact .next (ih fun l member => spared l (List.mem_append_left _ member))
        ⟨step, (spared_step room (honest before.reachable) step).mp last⟩
  · intro kept
    clear run
    induction kept with
    | start => exact nofun
    | next before step ih =>
      have reached := before.reachable.of_restrict
      intro l member
      rcases List.mem_append.mp member with old | new
      · exact ih l old
      · rw [List.mem_singleton.mp new]
        exact (spared_step (known (link_room reached)) (honest reached) step.1).mpr step.2

/-- What happens in the room alone leaves the link empty. -/
theorem links_quiet (reached : ((streams decode size).restrict fun s l =>
      (Keeps host s l ∧ Steady buffer s l) ∧ ¬ l.OnLink host).Reachable s) :
    (links decode size host buffer).Reachable { streams := s } := by
  induction reached with
  | start initial =>
    obtain ⟨name, rfl⟩ := initial
    exact .start ⟨name, rfl⟩
  | next _ step ih => exact ih.next (.room ⟨step.1, step.2.1⟩ step.2.2)

/-- The file of one byte is asked for, and the host has sent its reply. -/
theorem replied_first : ∃ s peer, (links some (fun _ => 0) 1 fun _ => 4).Reachable
    { streams := s, replies := [chunkFirst] } ∧
    s.handling 1 = none ∧ s.index.peers 1 = some peer ∧ peer.socket = some 5 ∧
    s.index.room = hostedFirst.index.room ∧ s.hosted 1 = true ∧ s.subscribers 1 = ⟨2, true, [1]⟩ ∧
    s.streams (1, 1) = some
      { file := fileFirst
        subscriber := { id := 1, request := { size := 1, requestId := 1, outstanding := true } } } := by
  have hosted := links_quiet (@hostedFirst_reachable some (fun _ => 0)
    (fun s l => (Keeps 1 s l ∧ Steady (fun _ => 4) s l) ∧ ¬ l.OnLink 1) fun s mutation idle =>
      ⟨⟨by simp [Keeps, idle], trivial⟩, id⟩)
  have found := hosted.next (.room ⟨@StreamsStep.find _ _ 1 fileFirst _ (by decide), trivial, trivial⟩ id)
  have subscribed := found.next (.room ⟨.subscribe (List.mem_singleton_self _) rfl rfl, trivial, trivial⟩ id)
  have asked := subscribed.next (.room ⟨@StreamsStep.wait _ _ _ _ _ (1, 1) _ 4 rfl rfl rfl (by decide) rfl,
    trivial, by decide, by rintro _ ⟨⟩; rfl⟩ id)
  have captured := asked.next (.room ⟨@StreamsStep.capture _ _ _ _ _ _ _ (1, 1) _ _ _ rfl rfl rfl rfl,
    trivial, trivial⟩ id)
  have sent := captured.next (.room ⟨@StreamsStep.push _ _ _ _ _ _ (1, 1) _ _ rfl rfl rfl, trivial, trivial⟩ id)
  have taken := sent.next (.take ⟨.take rfl rfl, trivial, trivial⟩)
  have received := taken.next (.receive rfl)
  have replied := received.next (@LinkStep.reply _ _ _ _ _ _ _ [9] _ [9] rfl rfl rfl rfl)
  exact ⟨_, _, replied, rfl, rfl, rfl, rfl, rfl, rfl, rfl⟩

def replyFirst : ChunkReply := { subscriberId := 1, requestId := 1, position := 0, size := 1, data := [9] }

theorem check_first {s : Streams} (room : s.index.room = hostedFirst.index.room) (hosted : s.hosted 1 = true) :
    checkFileChunk some s.index.room s.hosted 1 chunkFirst = .passed fileFirst replyFirst := by
  have found : getFile hostedFirst.index.room 1 = some fileFirst := rfl
  have own : s.hosted fileFirst.host = true := hosted
  simp only [checkFileChunk, chunkFirst, room, found, own]
  rfl

/-- The reply of the first file is accepted. -/
theorem host_spared_first : ∃ ls w reply, (links some (fun _ => 0) 1 fun _ => 4).Run ls w ∧
    .answer 1 reply .accepted ∈ ls ∧ ((∀ l ∈ ls, Spared 1 l) ↔
      ((links some (fun _ => 0) 1 fun _ => 4).restrict (Present 1)).Run ls w) := by
  obtain ⟨s, peer, reached, idle, known, bound, room, hosted, table, there⟩ := replied_first
  obtain ⟨ls, run⟩ := reached.run
  have passed := run.next
    (.chunk rfl ⟨.pass known (by simp [bound]) idle (check_first room hosted), trivial, trivial⟩)
  have handling : (s.handle 1 (some (.found fileFirst replyFirst))).handling 1 = some (.found fileFirst replyFirst) := by
    simp only [Streams.handle, Function.update_self]
  have listed : 1 ∈ ((s.handle 1 (some (.found fileFirst replyFirst))).subscribers fileFirst.serverFileId).ids := by
    rw [show fileFirst.serverFileId = 1 from rfl, Streams.handle, table]
    exact List.mem_singleton_self _
  have alive : (s.handle 1 (some (.found fileFirst replyFirst))).alive (fileFirst.serverFileId, 1) = true := by
    rw [show fileFirst.serverFileId = 1 from rfl, Streams.alive, Streams.handle, there]
    rfl
  have found := passed.next (.room ⟨.lookup handling rfl listed alive, trivial, trivial⟩ id)
  have pinned : (((s.handle 1 (some (.found fileFirst replyFirst))).handle 1
      (some (.providing (fileFirst.serverFileId, 1) replyFirst))).pin [(fileFirst.serverFileId, 1)]).streams (1, 1) = some
        { file := fileFirst
          subscriber := { id := 1, request := { size := 1, requestId := 1, outstanding := true } }
          references := 2 } := by
    simp only [Streams.pin, Streams.handle, there]
    rfl
  have provided := found.next (.room ⟨.provide (Function.update_self ..) pinned rfl rfl, trivial, trivial⟩ id)
  exact ⟨_, _, _, provided, List.mem_append_right _ (List.mem_singleton_self _), host_spared provided⟩

/-- The reader leaves before the reply arrives, and the host is told off. -/
theorem dropped_refused : ∃ ls w, (links some (fun _ => 0) 1 fun _ => 4).Run ls w ∧ ¬ ∀ l ∈ ls, Spared 1 l := by
  obtain ⟨s, peer, reached, idle, known, bound, room, hosted, table, there⟩ := replied_first
  obtain ⟨ls, run⟩ := reached.run
  have dropped := run.next (.room ⟨.drop there rfl nofun, trivial, trivial⟩ id)
  have passed := dropped.next
    (.chunk rfl ⟨.pass known (by simp [bound]) idle (check_first room hosted), trivial, trivial⟩)
  generalize before : Streams.handle _ 1 (some (.found fileFirst replyFirst)) = s' at passed
  have handling : s'.handling 1 = some (.found fileFirst replyFirst) := by
    simp only [← before, Streams.handle, Function.update_self]
  have entry : s'.subscribers fileFirst.serverFileId = ⟨2, true, [1]⟩ := by
    rw [← before]
    exact table
  have dead : s'.alive (fileFirst.serverFileId, 1) = false := by
    rw [← before]
    rfl
  have refused := passed.next
    (.room ⟨.expired handling rfl entry (List.mem_singleton_self _) dead, trivial, trivial⟩ id)
  refine ⟨_, _, refused, fun spared => ?_⟩
  have told := spared _ (List.mem_append_right _ (List.mem_singleton_self _)) rfl
  cases told

end Conspire.Files
