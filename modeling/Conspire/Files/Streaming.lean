import Conspire.Files.Streams

/-! The bytes of every download: what a step may do to one subscriber, the books
each subscriber keeps, and what follows for the reads of all runs. -/
namespace Conspire.Files
open Session Boundaries Transition

variable {decode : Bytes → Option Bytes} {size : MessageDto → Nat}

/-- A request may be begun only for what is next, when nothing is buffered. -/
def Fits (file : File) (subscriber : Subscriber) (count : Int) : Prop :=
  subscriber.request.outstanding = false → subscriber.chunk = none ∧ 0 < count ∧
    count ≤ file.fileSize - subscriber.progress

/-- What surrounds a step of one subscriber: the peers whose chunk message has
found it, the resumes whose scan is at it, the frames that were captured for its
host's binding, and how a sender may leave the lock. -/
structure Context where
  provides : PeerId → Prop
  visits : Binding → Prop
  captures : PeerId → OutboundFrame → Prop
  leaves : PeerId → Sending → Prop

/-- What a step may do to one subscriber. -/
inductive Stream.Step (c : Context) (stream : Stream) : Stream → Prop where
  | counted (references : Nat) (reading : Bool) : (0 < references → 0 < stream.references) →
      Step c stream { stream with references, reading }
  | filled (data : Bytes) : stream.locked = none → stream.subscriber.chunk = some data →
      Step c stream
        { stream with
          subscriber := { stream.subscriber with
            progress := stream.subscriber.progress + data.length, chunk := none }
          returned := stream.returned ++ data }
  | begun (after : Subscriber) (resume : Option Binding) (message : MessageDto) (count : Int) :
      stream.locked = none → Fits stream.file stream.subscriber count →
      Requested stream.subscriber stream.file count after (some message) →
      (∀ binding, resume = some binding →
        count = stream.subscriber.request.size ∧ c.visits binding) →
      Step c stream { stream with locked := some ⟨after, resume, .unsent message⟩ }
  | ended (after : Subscriber) (references : Nat) (count : Int) :
      stream.locked = none → Fits stream.file stream.subscriber count →
      Requested stream.subscriber stream.file count after none → references ≤ stream.references →
      Step c stream { stream with subscriber := after, locked := none, references }
  | captured (after : Subscriber) (resume : Option Binding) (frame : OutboundFrame) :
      stream.locked = some ⟨after, resume, .unsent frame.payload⟩ →
      c.captures stream.file.host frame →
      Step c stream { stream with locked := some ⟨after, resume, .captured frame⟩ }
  | released (after : Subscriber) (resume : Option Binding) (sending : Sending) (references : Nat) :
      stream.locked = some ⟨after, resume, sending⟩ → references ≤ stream.references →
      c.leaves stream.file.host sending →
      Step c stream { stream with subscriber := after, locked := none, references }
  | provided (sender : PeerId) (reply : ChunkReply) (after : Subscriber) (result : Result) :
      c.provides sender → stream.locked = none →
      stream.subscriber.provideFileChunk reply.requestId reply.position reply.size (some reply.data) =
        (after, result) →
      Step c stream (stream.provide after sender reply result)
  | cancelled (references : Nat) : stream.locked = none → references ≤ stream.references →
      Step c stream { stream with subscriber := stream.subscriber.invalidate, references }

/-- The surroundings of a subscriber in a step from `s` to `t`. A sender leaves
without a frame when the host is detached; with one, the frame is queued or the
binding it is for is invalidated. -/
def context (s t : Streams) (key : Key) : Context where
  provides sender := ∃ reply, s.handling sender = some (.providing key reply)
  visits binding := ∃ keys rest, t.scans binding = .visiting (key :: keys) rest
  captures host frame := ∃ peer, t.index.peers host = some peer ∧
    peer.socket = some frame.socket ∧ peer.socketGeneration = frame.generation
  leaves host
    | .unsent _ => ∀ peer, t.index.peers host = some peer → peer.socket = none
    | .captured frame => frame ∈ t.queued host ∨
      ∀ peer, t.index.peers host = some peer → peer.socketGeneration = frame.generation →
        peer.socket ≠ none → t.invalidated (host, frame.generation) = true

section Projections
variable (s : Streams)

@[simp] theorem setPeer_streams (host : PeerId) (peer : Peer) :
    (s.setPeer host peer).streams = s.streams := rfl
@[simp] theorem setScan_streams (binding : Binding) (scan : Scan) :
    (s.setScan binding scan).streams = s.streams := rfl
@[simp] theorem handle_streams (sender : PeerId) (handling : Option Handling) :
    (s.handle sender handling).streams = s.streams := rfl
@[simp] theorem setSubscribers_streams (file : Nat) (subscribers : Subscribers) :
    (s.setSubscribers file subscribers).streams = s.streams := rfl
@[simp] theorem setStream_streams (key : Key) (stream : Stream) :
    (s.setStream key stream).streams = Function.update s.streams key (some stream) := rfl

@[simp] theorem invalidate_streams (host : PeerId) (peer : Peer) (generation : Nat)
    (reason : CloseReason) : (s.invalidate host peer generation reason).streams = s.streams := by
  unfold Streams.invalidate
  dsimp only
  split <;> rfl

@[simp] theorem post_streams (host : PeerId) (peer : Peer) (frame : OutboundFrame) :
    (s.post size host peer frame).streams = s.streams := by
  unfold Streams.post
  split
  · rfl
  · exact invalidate_streams ..

theorem setStream_some (now : (s.setStream key stream).streams other = some next) :
    other = key ∧ next = stream ∨ s.streams other = some next := by
  by_cases here : other = key
  · subst here
    simp only [setStream_streams, Function.update_self, Option.some.injEq] at now
    exact .inl ⟨rfl, now.symm⟩
  · simp only [setStream_streams, Function.update_of_ne here] at now
    exact .inr now

theorem alive_some (present : s.streams key = some stream) :
    s.alive key = true ↔ 0 < stream.references := by
  simp [Streams.alive, present]

theorem live_alive (member : key ∈ s.live file) : s.alive key = true :=
  (List.mem_filter.mp member).2

theorem pin_some (alive : ∀ key ∈ keys, s.alive key = true)
    (now : (s.pin keys).streams key = some next) :
    ∃ stream references, s.streams key = some stream ∧ next = { stream with references } ∧
      (0 < references → 0 < stream.references) := by
  by_cases pinned : key ∈ keys
  · simp only [Streams.pin, pinned, if_true, Option.map_eq_some_iff] at now
    obtain ⟨stream, old, rfl⟩ := now
    exact ⟨stream, _, old, rfl, fun _ => (alive_some s old).mp (alive key pinned)⟩
  · simp only [Streams.pin, pinned, if_false] at now
    exact ⟨next, next.references, now, rfl, id⟩

theorem release_some (now : (s.release key stream after resume).streams other = some next) :
    other = key ∧ (∃ references, references ≤ stream.references ∧
      next = { stream with subscriber := after, locked := none, references }) ∨
      s.streams other = some next := by
  cases resume with
  | none =>
    rcases setStream_some s now with ⟨same, is⟩ | old
    · exact .inl ⟨same, stream.references, Nat.le_refl _, is⟩
    · exact .inr old
  | some binding =>
    rcases setStream_some s now with ⟨same, is⟩ | old
    · exact .inl ⟨same, stream.references - 1, Nat.sub_le .., is⟩
    · exact .inr old

end Projections

/-- What sending, releasing and invalidating leave alone. -/
structure Shell where
  found : List File
  subscribers : Nat → Subscribers
  handling : PeerId → Option Handling
  withdrawn : List File

def shell (s : Streams) : Shell := ⟨s.found, s.subscribers, s.handling, s.withdrawn⟩

theorem release_shell (s : Streams) (key : Key) (stream : Stream) (after : Subscriber)
    (resume : Option Binding) : shell (s.release key stream after resume) = shell s := by
  cases resume <;> rfl

theorem ask_shell (s : Streams) (key : Key) (stream : Stream) (after : Subscriber)
    (resume : Option Binding) (request : Option MessageDto) :
    shell (s.ask key stream after resume request) = shell s := by
  cases request with
  | none => exact release_shell ..
  | some message => rfl

theorem invalidate_shell (s : Streams) (host : PeerId) (peer : Peer) (generation : Nat)
    (reason : CloseReason) : shell (s.invalidate host peer generation reason) = shell s := by
  unfold Streams.invalidate
  dsimp only
  split <;> rfl

theorem post_shell (s : Streams) (host : PeerId) (peer : Peer) (frame : OutboundFrame) :
    shell (s.post size host peer frame) = shell s := by
  unfold Streams.post
  split
  · rfl
  · exact invalidate_shell ..

/-- A peer with the same files and the same transport. -/
structure SameBinding (peer after : Peer) : Prop where
  files : after.files = peer.files
  socket : after.socket = peer.socket
  generation : after.socketGeneration = peer.socketGeneration
  fence : after.transportGeneration = peer.transportGeneration

theorem enqueue_binding {peer after : Peer} (posted : peer.enqueue size frame = some after) :
    SameBinding peer after := by
  unfold Peer.enqueue at posted
  dsimp only at posted
  split at posted
  · contradiction
  · cases posted
    exact ⟨rfl, rfl, rfl, rfl⟩

theorem take_binding {peer after : Peer} (taken : peer.takeOutboundFrame size = (after, frame)) :
    SameBinding peer after := by
  unfold Peer.takeOutboundFrame at taken
  split at taken <;> cases taken <;> exact ⟨rfl, rfl, rfl, rfl⟩

theorem invalidate_binding (peer : Peer) (generation : Nat) (reason : CloseReason) :
    SameBinding peer (peer.invalidateSocketIfCurrent generation reason).1 := by
  unfold Peer.invalidateSocketIfCurrent
  split <;> exact ⟨rfl, rfl, rfl, rfl⟩

/-- A peer whose binding stayed or was lost. -/
structure Kept (peer after : Peer) : Prop where
  socket : after.socket = peer.socket ∨ after.socket = none
  generation : after.socketGeneration = peer.socketGeneration
  fence : after.transportGeneration.generation = peer.transportGeneration.generation

/-- A peer with a new binding. -/
structure Bound (peer after : Peer) : Prop where
  generation : after.socketGeneration = peer.transportGeneration.generation + 1
  fence : after.transportGeneration.generation = peer.transportGeneration.generation + 1

theorem SameBinding.kept {peer after : Peer} (same : SameBinding peer after) : Kept peer after where
  socket := .inl same.socket
  generation := same.generation
  fence := congrArg _ same.fence

theorem detach_kept {peer after : Peer} (detached : peer.detachIfCurrent socket = (after, known)) :
    after.files = peer.files ∧ Kept peer after := by
  unfold Peer.detachIfCurrent at detached
  split at detached
  · cases detached
    exact ⟨rfl, .inl rfl, rfl, rfl⟩
  · cases detached
    refine ⟨rfl, .inr rfl, rfl, ?_⟩
    simp only [TransportGeneration.detachIfCurrent]
    split <;> rfl

theorem release_index (s : Streams) (resume : Option Binding) :
    (s.release key stream after resume).index = s.index := by
  cases resume <;> rfl

theorem ask_index (s : Streams) (request : Option MessageDto) :
    (s.ask key stream after resume request).index = s.index := by
  cases request with
  | none => exact release_index ..
  | some message => rfl

theorem invalidate_index (s : Streams) (host : PeerId) (peer : Peer) (generation : Nat)
    (reason : CloseReason) : (s.invalidate host peer generation reason).index =
      s.index.setPeer host (peer.invalidateSocketIfCurrent generation reason).1 := by
  unfold Streams.invalidate
  dsimp only
  split <;> rfl

theorem post_index (s : Streams) (host : PeerId) (peer : Peer) (frame : OutboundFrame) :
    ∃ after, (s.post size host peer frame).index = s.index.setPeer host after ∧
      SameBinding peer after := by
  unfold Streams.post
  split
  · rename_i posted
    exact ⟨_, rfl, enqueue_binding posted⟩
  · exact ⟨_, invalidate_index .., invalidate_binding ..⟩

section Steps
variable {s t : Streams} {l : StreamsLabel} {stream next : Stream}

theorem ask_step {after : Subscriber} (present : s.streams key = some stream)
    (free : stream.locked = none) (fits : Fits stream.file stream.subscriber count)
    (requested : Requested stream.subscriber stream.file count after request)
    (again : ∀ binding, resume = some binding → count = stream.subscriber.request.size ∧
      ∃ keys rest, s.scans binding = .visiting (key :: keys) rest)
    (now : (s.ask key stream after resume request).streams other = some next) :
    ∃ old, s.streams other = some old ∧
      old.Step (context s (s.ask key stream after resume request) other) next := by
  cases request with
  | none =>
    rcases release_some s now with ⟨rfl, references, fewer, rfl⟩ | old
    · exact ⟨stream, present, .ended after references count free fits requested fewer⟩
    · exact ⟨next, old, .counted next.references next.reading id⟩
  | some message =>
    rcases setStream_some s now with ⟨rfl, rfl⟩ | old
    · exact ⟨stream, present, .begun after resume message count free fits requested again⟩
    · exact ⟨next, old, .counted next.references next.reading id⟩

theorem release_left (r s : Streams) (key : Key) (stream : Stream) (after : Subscriber)
    (resume : Option Binding) (sending : Sending) :
    (context r (s.release key stream after resume) key).leaves host sending =
      (context r s key).leaves host sending := by
  cases resume <;> rfl

/-- A captured frame is queued, or its binding is invalidated. -/
theorem post_left (s : Streams) (host : PeerId) (peer : Peer) (frame : OutboundFrame) :
    (context s (s.post size host peer frame) key).leaves host (.captured frame) := by
  simp only [context, Streams.post]
  split
  · exact .inl (by simp)
  · right
    intro after present same bound
    have binding := invalidate_binding peer frame.generation .writeError
    rw [invalidate_index, Index.setPeer] at present
    simp only [Function.update_self, Option.some.injEq] at present
    subst present
    rw [binding.generation] at same
    rw [binding.socket] at bound
    cases socket : peer.socket with
    | none => exact absurd socket bound
    | some T =>
      simp [Streams.invalidate, Peer.invalidateSocketIfCurrent, same, socket]

theorem requestSize_fits (more : subscriber.progress < file.fileSize) (count : Int)
    (positive : 0 < count) (empty : subscriber.chunk = none) :
    Fits file subscriber (subscriber.requestSize file count) := by
  intro _
  refine ⟨empty, ?_, ?_⟩
  · simp only [Subscriber.requestSize, Limits.chunkBytes]
    omega
  · simp only [Subscriber.requestSize]
    omega

theorem fits_of_outstanding (outstanding : subscriber.request.outstanding = true) :
    Fits file subscriber count := by
  intro idle
  rw [outstanding] at idle
  contradiction

/-- Every step does one of these to each subscriber, or makes a new one. -/
theorem streams_step (step : StreamsStep decode size s l t) (now : t.streams key = some next) :
    (∃ stream, s.streams key = some stream ∧ stream.Step (context s t key) next) ∨
      next.file ∈ s.found ∧ key.1 = next.file.serverFileId ∧
        next = { file := next.file, subscriber := { id := key.2 } } ∧
        key.2 ∈ (t.subscribers key.1).ids := by
  have same : s.streams key = some next →
      (∃ stream, s.streams key = some stream ∧ stream.Step (context s t key) next) ∨
        next.file ∈ s.found ∧ key.1 = next.file.serverFileId ∧
          next = { file := next.file, subscriber := { id := key.2 } } ∧
          key.2 ∈ (t.subscribers key.1).ids :=
    fun old => .inl ⟨next, old, .counted next.references next.reading id⟩
  cases step with
  | subscribe found =>
    rcases setStream_some _ now with ⟨rfl, rfl⟩ | old
    · exact .inr ⟨found, rfl, rfl, by simp [Streams.setSubscribers, Streams.setStream]⟩
    · exact same old
  | read present free _ _ done finished =>
    rcases setStream_some s now with ⟨rfl, rfl⟩ | old
    · refine .inl ⟨_, present, ?_⟩
      cases readChunk_spec _ _ _ done with
      | thrown => exact .counted _ _ id
      | filled data held => exact .filled data free held
      | waiting => exact absurd rfl (finished _)
      | ended => exact .counted _ _ id
    · exact same old
  | wait present free _ positive done =>
    cases readChunk_spec _ _ _ done with
    | waiting _ more empty requested =>
      exact .inl (ask_step present free (requestSize_fits more _ positive empty) requested
        (by rintro _ ⟨⟩) now)
  | drop present =>
    rcases setStream_some s now with ⟨rfl, rfl⟩ | old
    · exact .inl ⟨_, present, .counted _ _ fun more => Nat.lt_of_lt_of_le more (Nat.sub_le ..)⟩
    · exact same old
  | capture present held found read =>
    rcases setStream_some s now with ⟨rfl, rfl⟩ | old
    · obtain ⟨socket, bound, is⟩ := Option.map_eq_some_iff.mp read
      cases is
      exact .inl ⟨_, present, .captured _ _ ⟨_, _, _⟩ held ⟨_, found, bound, rfl⟩⟩
    · exact same old
  | detached present held found read =>
    rcases release_some s now with ⟨rfl, references, fewer, rfl⟩ | old
    · refine .inl ⟨_, present, .released _ _ _ references held fewer ?_⟩
      rw [release_left]
      intro peer also
      cases found.symm.trans also
      exact Option.map_eq_none_iff.mp read
    · exact same old
  | push present held =>
    rcases release_some _ now with ⟨rfl, references, fewer, rfl⟩ | old
    · refine .inl ⟨_, present, .released _ _ _ references held fewer ?_⟩
      rw [release_left]
      exact post_left ..
    · rw [post_streams] at old
      exact same old
  | lookup _ _ _ alive =>
    have one : ∀ key ∈ [_], s.alive key = true := fun _ member => List.mem_singleton.mp member ▸ alive
    obtain ⟨stream, references, old, rfl, more⟩ := pin_some _ one now
    exact .inl ⟨stream, old, .counted references stream.reading more⟩
  | provide handling present free answered =>
    rcases setStream_some _ now with ⟨rfl, rfl⟩ | old
    · exact .inl ⟨_, present, .provided _ _ _ _ ⟨_, handling⟩ free answered⟩
    · exact same old
  | clear =>
    obtain ⟨stream, references, old, rfl, more⟩ := pin_some _ (fun _ => live_alive _) now
    exact .inl ⟨stream, old, .counted references stream.reading more⟩
  | cancel _ present free =>
    rcases setStream_some _ now with ⟨rfl, rfl⟩ | old
    · exact .inl ⟨_, present, .cancelled _ free (Nat.sub_le ..)⟩
    · exact same old
  | file =>
    obtain ⟨stream, references, old, rfl, more⟩ := pin_some _ (fun _ => live_alive _) now
    exact .inl ⟨stream, old, .counted references stream.reading more⟩
  | skip _ present free =>
    rcases release_some s now with ⟨rfl, references, fewer, rfl⟩ | old
    · refine .inl ⟨_, present, ?_⟩
      rw [← free]
      exact .counted references _ fun more => Nat.lt_of_lt_of_le more fewer
    · exact same old
  | reissue is present free _ outstanding asked =>
    refine .inl (ask_step present free (fits_of_outstanding outstanding)
      (requestChunk_spec _ _ _ asked) ?_ now)
    rintro binding ⟨⟩
    exact ⟨rfl, _, _, is⟩
  | invalidate =>
    rw [invalidate_streams] at now
    exact same now
  | post =>
    rw [post_streams] at now
    exact same now
  | _ => exact same now

/-- The books of one subscriber, also for what the holder of its lock will leave. -/
structure Exact (stream : Stream) : Prop where
  ordered : Consecutive stream.file stream.accepted
  tracks : Tracks stream.file stream.accepted stream.returned stream.subscriber
  held : ∀ holder, stream.locked = some holder →
    Tracks stream.file stream.accepted stream.returned holder.after

theorem Exact.free (ordered : Consecutive stream.file stream.accepted)
    (tracks : Tracks stream.file stream.accepted stream.returned stream.subscriber)
    (free : stream.locked = none) : Exact stream where
  ordered := ordered
  tracks := tracks
  held holder held := by
    rw [free] at held
    contradiction

theorem Exact.start (size : 0 ≤ file.fileSize) (id : Nat) : Exact { file, subscriber := { id } } :=
  .free (.nil size) (.start file id) rfl

/-- A payload that is taken is the next of the file, from its host. -/
theorem Exact.provide {c : Context} {after : Subscriber} {reply : ChunkReply}
    (isExact : Exact stream) (hosts : ∀ sender, c.provides sender → sender = stream.file.host)
    (found : c.provides sender) (free : stream.locked = none)
    (answered : stream.subscriber.provideFileChunk reply.requestId reply.position reply.size
      (some reply.data) = (after, result)) : Exact (stream.provide after sender reply result) := by
  have tracks := isExact.tracks
  have empty := fun outstanding => (tracks.asked outstanding).2.1
  rcases provideFileChunk_spec empty answered with ⟨rfl, other⟩ | ⟨rfl, outstanding, id, offset, length, sized, rfl⟩
  · cases result with
    | accepted => contradiction
    | duplicate => exact ⟨isExact.ordered, tracks, isExact.held⟩
    | invalid => exact ⟨isExact.ordered, tracks, isExact.held⟩
  · obtain ⟨_, unread, nextPosition, positive, within, named⟩ := tracks.asked outstanding
    have whole := tracks.empty unread
    have progress := tracks.progress
    rw [whole] at progress
    refine .free (isExact.ordered.snoc (hosts sender found) (id.trans named)
      (offset.trans (nextPosition.trans progress)) ?_ ?_) ?_ free
    · intro nothing
      simp only at nothing
      rw [nothing, List.length_nil] at sized
      omega
    · simp only
      omega
    · exact tracks.provide outstanding ⟨sender, reply.requestId, reply.position, reply.data⟩

theorem Exact.step {c : Context} (isExact : Exact stream)
    (size : stream.file.fileSize ≤ Limits.fileBytes)
    (hosts : ∀ sender, c.provides sender → sender = stream.file.host)
    (step : stream.Step c next) : Exact next := by
  obtain ⟨ordered, tracks, held⟩ := isExact
  cases step with
  | counted => exact ⟨ordered, tracks, held⟩
  | filled data free unread => exact .free ordered (tracks.read unread) free
  | begun after resume message count free fits requested again =>
    refine ⟨ordered, tracks, ?_⟩
    rintro _ ⟨⟩
    exact tracks.request ordered size fits requested
  | ended after references count free fits requested =>
    exact .free ordered (tracks.request ordered size fits requested) rfl
  | captured after resume frame is =>
    refine ⟨ordered, tracks, ?_⟩
    rintro _ ⟨⟩
    have left := held _ is
    exact left
  | released after resume sending references is => exact .free ordered (held _ is) rfl
  | provided sender reply after result found free answered =>
    exact Exact.provide ⟨ordered, tracks, held⟩ hosts found free answered
  | cancelled references free => exact .free ordered tracks.invalidate free

/-- The index changes by a file operation, or in the transport of one peer; a new
binding waits for its scan. -/
theorem index_step (step : StreamsStep decode size s l t) :
    (∃ l', IndexStep s.index l' t.index ∧ Admitted s.index t.index ∧ l = .files t.index.mutation) ∨
      t.index = s.index ∨
      ∃ host peer after, s.index.peers host = some peer ∧ t.index = s.index.setPeer host after ∧
        after.files = peer.files ∧ (Kept peer after ∨ Bound peer after ∧ t.streams = s.streams ∧
          t.scans (host, after.socketGeneration) = .bound) := by
  cases step with
  | files step admitted => exact .inl ⟨_, step, admitted, rfl⟩
  | detached => exact .inr (.inl (release_index ..))
  | push _ _ found =>
    obtain ⟨after, is, same⟩ := post_index s _ _ _
    exact .inr (.inr ⟨_, _, after, found, (release_index ..).trans is, same.files, .inl same.kept⟩)
  | wait => exact .inr (.inl (ask_index ..))
  | skip => exact .inr (.inl (release_index ..))
  | reissue => exact .inr (.inl (ask_index ..))
  | bind found _ _ replaced =>
    cases replaced
    exact .inr (.inr ⟨_, _, _, found, rfl, rfl, .inr ⟨⟨rfl, rfl⟩, rfl, Function.update_self ..⟩⟩)
  | detach found _ lost =>
    obtain ⟨files, kept⟩ := detach_kept lost
    exact .inr (.inr ⟨_, _, _, found, rfl, files, .inl kept⟩)
  | invalidate found =>
    exact .inr (.inr ⟨_, _, _, found, invalidate_index .., (invalidate_binding ..).files,
      .inl (invalidate_binding ..).kept⟩)
  | post found =>
    obtain ⟨after, is, same⟩ := post_index s _ _ _
    exact .inr (.inr ⟨_, _, after, found, is, same.files, .inl same.kept⟩)
  | take found taken =>
    have same := take_binding taken
    exact .inr (.inr ⟨_, _, _, found, rfl, same.files, .inl same.kept⟩)
  | _ => exact .inr (.inl rfl)

/-- A chunk message that is being handled names a file of its sender. -/
def Handled (s : Streams) (sender : PeerId) : Option Handling → Prop
  | none => True
  | some (.found file _) => file ∈ s.index.created ∧ file.host = sender
  | some (.providing key _) =>
    ∃ file ∈ s.index.created, key.1 = file.serverFileId ∧ file.host = sender

def sharedDescriptors : Option Mutation → List FileDto
  | some (.sharing _ descriptors) | some (.hosted _ descriptors) => descriptors
  | _ => []

/-- Every file is one of the index, with a size that was admitted. -/
structure Filed (s : Streams) : Prop where
  agreed : Agreed s.index
  descriptors : ∀ descriptor ∈ sharedDescriptors s.index.mutation, validDescriptor (some descriptor) = true
  sizes : ∀ f ∈ s.index.created, 0 ≤ f.fileSize ∧ f.fileSize ≤ Limits.fileBytes
  found : ∀ f ∈ s.found, f ∈ s.index.created
  own : ∀ key stream, s.streams key = some stream →
    stream.file ∈ s.index.created ∧ key.1 = stream.file.serverFileId
  handled : ∀ sender, Handled s sender (s.handling sender)

theorem Handled.mono (handled : Handled s sender handling)
    (more : ∀ f ∈ s.index.created, f ∈ t.index.created) : Handled t sender handling := by
  match handling, handled with
  | none, _ => trivial
  | some (.found file _), ⟨created, host⟩ => exact ⟨more file created, host⟩
  | some (.providing key _), ⟨file, created, same, host⟩ => exact ⟨file, more file created, same, host⟩

theorem getFile_some (found : getFile room wireId = some file) :
    ∃ i, (i, file) ∈ room.fileById := by
  unfold getFile at found
  split at found
  · contradiction
  · obtain ⟨front, back, is, -⟩ := List.lookup_eq_some_iff.mp found
    exact ⟨wireId.toNat, is ▸ List.mem_append_right _ List.mem_cons_self⟩

/-- A chunk that passes the checks is for a file of the room that its sender hosts. -/
theorem checkFileChunk_passed
    (passed : checkFileChunk decode room hosted sender message = .passed file reply) :
    (∃ i, (i, file) ∈ room.fileById) ∧ file.host = sender := by
  unfold checkFileChunk at passed
  split at passed
  · contradiction
  · contradiction
  · split at passed
    · contradiction
    · contradiction
    · contradiction
    · split at passed
      · contradiction
      · rename_i found
        split at passed
        · contradiction
        · rename_i own
          simp only [Bool.or_eq_true, Bool.not_eq_eq_eq_not, Bool.not_true, decide_eq_true_eq,
            not_or, not_not] at own
          split at passed
          · contradiction
          · split at passed
            · split at passed
              · cases passed
                exact ⟨getFile_some found, own.2⟩
              · contradiction
            · contradiction
  · contradiction

theorem created_mono {l : IndexLabel} (step : IndexStep i l j) : ∀ f ∈ i.created, f ∈ j.created := by
  intro f member
  cases step with
  | prepare => exact List.mem_append_left _ member
  | _ => exact member

theorem validDescriptor_size (valid : validDescriptor (some descriptor) = true) :
    0 ≤ descriptor.size.getD 0 ∧ descriptor.size.getD 0 ≤ Limits.fileBytes := by
  unfold validDescriptor at valid
  split at valid
  · rename_i is
    cases is
    simp only [validFileDescriptor, Bool.and_eq_true, decide_eq_true_eq] at valid
    obtain ⟨⟨_, positive⟩, small⟩ := valid
    simp only [Option.getD_some]
    omega
  · contradiction

theorem createFiles_sizes (valid : ∀ descriptor ∈ descriptors, validDescriptor (some descriptor) = true)
    (member : file ∈ createFiles room host descriptors) :
    0 ≤ file.fileSize ∧ file.fileSize ≤ Limits.fileBytes := by
  obtain ⟨i, within, rfl⟩ := List.mem_mapIdx.mp member
  exact validDescriptor_size (valid _ (List.getElem_mem within))

/-- What a file operation puts into the index is admitted. -/
theorem admitted_step {i j : Index} {l : IndexLabel} (step : IndexStep i l j) (admitted : Admitted i j)
    (valid : ∀ descriptor ∈ sharedDescriptors i.mutation, validDescriptor (some descriptor) = true)
    (sizes : ∀ f ∈ i.created, 0 ≤ f.fileSize ∧ f.fileSize ≤ Limits.fileBytes) :
    (∀ descriptor ∈ sharedDescriptors j.mutation, validDescriptor (some descriptor) = true) ∧
      ∀ f ∈ j.created, 0 ≤ f.fileSize ∧ f.fileSize ≤ Limits.fileBytes := by
  cases step with
  | share => exact ⟨admitted.descriptors _ _ rfl, sizes⟩
  | host is =>
    rw [is] at valid
    exact ⟨valid, sizes⟩
  | prepare is =>
    rw [is] at valid
    refine ⟨by simp [sharedDescriptors], fun f member => ?_⟩
    rcases List.mem_append.mp member with old | new
    · exact sizes f old
    · exact createFiles_sizes valid new
  | join => exact ⟨valid, sizes⟩
  | remove => exact ⟨valid, sizes⟩
  | _ => exact ⟨by simp [sharedDescriptors, Index.setPeer], sizes⟩

theorem found_step (filed : Filed s) (step : StreamsStep decode size s l t) :
    ∀ f ∈ t.found, f ∈ s.index.created := by
  have known := filed.found
  have keep : shell t = shell s → ∀ f ∈ t.found, f ∈ s.index.created := by
    intro same
    rw [show t.found = s.found from congrArg Shell.found same]
    exact known
  cases step with
  | find member =>
    intro f present
    rcases List.mem_cons.mp present with rfl | old
    · exact (filed.agreed.entries _ _ member).1
    · exact known f old
  | detached => exact keep (release_shell ..)
  | push => exact keep ((release_shell ..).trans (post_shell ..))
  | wait => exact keep (ask_shell ..)
  | skip => exact keep (release_shell ..)
  | reissue => exact keep (ask_shell ..)
  | invalidate => exact keep (invalidate_shell ..)
  | post => exact keep (post_shell ..)
  | _ => exact known

theorem update_handled (handled : ∀ sender, Handled s sender (s.handling sender))
    (new : Handled s sender handling) (other : PeerId) :
    Handled s other (Function.update s.handling sender handling other) := by
  by_cases here : other = sender
  · subst here
    simpa using new
  · simpa [here] using handled other

theorem Filed.named (filed : Filed s) (is : s.handling sender = some (.found file reply)) :
    file ∈ s.index.created ∧ file.host = sender := by
  have handled := filed.handled sender
  rw [is] at handled
  exact handled

theorem handled_step (filed : Filed s) (step : StreamsStep decode size s l t) :
    ∀ sender, Handled s sender (t.handling sender) := by
  have known := filed.handled
  have keep : shell t = shell s → ∀ sender, Handled s sender (t.handling sender) := by
    intro same
    rw [show t.handling = s.handling from congrArg Shell.handling same]
    exact known
  cases step with
  | pass _ _ _ checked =>
    obtain ⟨⟨i, member⟩, host⟩ := checkFileChunk_passed checked
    exact update_handled known ⟨(filed.agreed.entries _ _ member).1, host⟩
  | absent => exact update_handled known trivial
  | expired => exact update_handled known trivial
  | lookup is =>
    have found := filed.named is
    exact update_handled known ⟨_, found.1, rfl, found.2⟩
  | provide => exact update_handled known trivial
  | detached => exact keep (release_shell ..)
  | push => exact keep ((release_shell ..).trans (post_shell ..))
  | wait => exact keep (ask_shell ..)
  | skip => exact keep (release_shell ..)
  | reissue => exact keep (ask_shell ..)
  | invalidate => exact keep (invalidate_shell ..)
  | post => exact keep (post_shell ..)
  | _ => exact known

/-- A dead subscriber stays dead. -/
theorem Stream.Step.references (step : stream.Step c next) (alive : 0 < next.references) :
    0 < stream.references := by
  cases step with
  | counted references reading more => exact more alive
  | ended after references count free fits requested fewer => exact Nat.lt_of_lt_of_le alive fewer
  | released after resume sending references held fewer => exact Nat.lt_of_lt_of_le alive fewer
  | provided sender reply after result =>
    cases result <;> exact Nat.lt_of_lt_of_le alive (Nat.sub_le ..)
  | cancelled references free fewer => exact Nat.lt_of_lt_of_le alive fewer
  | _ => exact alive

theorem Stream.Step.file (step : stream.Step c next) : next.file = stream.file := by
  cases step with
  | provided sender reply after result => cases result <;> rfl
  | _ => rfl

theorem filed_step (filed : Filed s) (step : StreamsStep decode size s l t) : Filed t := by
  have more : ∀ f ∈ s.index.created, f ∈ t.index.created := by
    rcases index_step step with ⟨l', moved, _⟩ | same | ⟨_, _, _, _, same, _⟩
    · exact created_mono moved
    · exact fun f member => same ▸ member
    · exact fun f member => same ▸ member
  have index : Agreed t.index ∧
      (∀ descriptor ∈ sharedDescriptors t.index.mutation,
        validDescriptor (some descriptor) = true) ∧
      ∀ f ∈ t.index.created, 0 ≤ f.fileSize ∧ f.fileSize ≤ Limits.fileBytes := by
    rcases index_step step with ⟨l', moved, admitted, _⟩ | same | ⟨_, _, _, present, same, files, _⟩
    · exact ⟨agreed_step filed.agreed moved,
        admitted_step moved admitted filed.descriptors filed.sizes⟩
    · rw [same]
      exact ⟨filed.agreed, filed.descriptors, filed.sizes⟩
    · rw [same]
      exact ⟨filed.agreed.rebind present files, filed.descriptors, filed.sizes⟩
  refine ⟨index.1, index.2.1, index.2.2, ?_, ?_, ?_⟩
  · exact fun f present => more f (found_step filed step f present)
  · intro key next present
    rcases streams_step step present with ⟨stream, old, moved⟩ | ⟨found, named, _⟩
    · obtain ⟨created, named⟩ := filed.own key stream old
      rw [moved.file]
      exact ⟨more _ created, named⟩
    · exact ⟨more _ (filed.found _ found), named⟩
  · exact fun sender => (handled_step filed step sender).mono more

theorem filed (reached : (streams decode size).Reachable s) : Filed s := by
  refine reached.invariant ?_ fun _ filed step => filed_step filed step
  rintro _ ⟨name, rfl⟩
  exact { agreed := agreed (.start ⟨name, rfl⟩), descriptors := by simp [sharedDescriptors]
          sizes := by simp, found := by simp, own := by simp
          handled := fun _ => trivial }

/-- A peer whose chunk message has found a subscriber is the host of its file. -/
theorem Filed.host (filed : Filed s) (present : s.streams key = some stream)
    (provides : ∃ reply, s.handling sender = some (.providing key reply)) : sender = stream.file.host := by
  obtain ⟨reply, handling⟩ := provides
  have handled := filed.handled sender
  rw [handling] at handled
  obtain ⟨file, created, named, host⟩ := handled
  obtain ⟨own, own_named⟩ := filed.own key stream present
  rw [← host, filed.agreed.same created own (named.symm.trans own_named)]

/-- Every subscriber's books are right. -/
def AllExact (s : Streams) : Prop := ∀ key stream, s.streams key = some stream → Exact stream

theorem allExact (reached : (streams decode size).Reachable s) : AllExact s := by
  refine reached.invariant ?_ ?_
  · rintro _ ⟨name, rfl⟩ key stream present
    cases present
  · intro s l t before known step key next present
    have filed := filed before
    rcases streams_step step present with ⟨stream, old, moved⟩ | ⟨found, _, is, _⟩
    · have created := (filed.own key stream old).1
      exact (known key stream old).step (filed.sizes _ created).2
        (fun sender => filed.host old) moved
    · rw [is]
      exact .start (filed.sizes _ (filed.found _ found)).1 _

/-- A read that returns 0 changes nothing: all bytes have been returned. -/
theorem read_zero (isExact : Exact stream) (count : Int)
    (done : stream.subscriber.readChunk stream.file hosted count = (after, result))
    (zero : result.count = some 0) :
    result = .ended ∧ after = stream.subscriber ∧
      stream.returned.length = stream.file.fileSize := by
  obtain ⟨ordered, tracks, _⟩ := isExact
  cases readChunk_spec _ _ _ done with
  | thrown => cases zero
  | waiting => cases zero
  | filled data held =>
    obtain ⟨front, payload, is, rfl, _⟩ := tracks.buffered data held
    have filled := ordered.filled payload (is ▸ List.mem_append_right _ (List.mem_singleton_self _))
    simp only [Read.count, Option.some.injEq, Int.natCast_eq_zero, List.length_eq_zero_iff] at zero
    exact absurd zero filled
  | ended _ finished =>
    have within := tracks.progress_le ordered
    have progress := tracks.progress
    exact ⟨rfl, rfl, by omega⟩

/-- The steps of a sender's chunk message. -/
def StreamsLabel.HandledBy (sender : PeerId) : StreamsLabel → Prop
  | .chunk peer _ _ | .found peer | .answer peer _ _ => peer = sender
  | _ => False

theorem pin_other (s : Streams) (other : key ≠ pinned) : (s.pin [pinned]).streams key = s.streams key := by
  simp [Streams.pin, other]

/-- A chunk message reaches the subscribers of its sender's files only. -/
theorem chunk_frame (filed : Filed s) (handled : l.HandledBy sender) (step : StreamsStep decode size s l t)
    (present : s.streams key = some stream) (other : stream.file.host ≠ sender) :
    t.streams key = some stream := by
  cases step with
  | refuse => exact present
  | pass => exact present
  | absent => exact present
  | expired => exact present
  | lookup handling =>
    cases handled
    have found := filed.named handling
    refine (pin_other _ ?_).trans present
    rintro rfl
    obtain ⟨own, named⟩ := filed.own _ _ present
    exact other ((filed.agreed.same own found.1 named.symm) ▸ found.2)
  | provide handling found =>
    cases handled
    refine (Function.update_of_ne ?_ _ _).trans present
    rintro rfl
    exact other (filed.host present ⟨_, handling⟩).symm
  | _ => cases handled

end Steps

/-- In every run, what a subscriber has returned is what was accepted for it, but
for the payload it still holds: the payloads came from the host of the file, each
for the offset where the earlier ones end and in answer to a request of its own,
and together they fit the file. A read returns 0 only when the whole file has been
returned, and a chunk message changes no subscriber of another peer's file. -/
theorem streaming_exact {s : Streams} (reached : (streams decode size).Reachable s) :
    (∀ key stream, s.streams key = some stream →
      Consecutive stream.file stream.accepted ∧
      stream.returned = content (if stream.subscriber.chunk.isSome then stream.accepted.dropLast
        else stream.accepted)) ∧
    (∀ {key result t}, StreamsStep decode size s (.read key result) t → result.count = some 0 →
      ∃ stream, s.streams key = some stream ∧ t.streams key = some stream ∧
        stream.returned.length = stream.file.fileSize) ∧
    ∀ {sender l t key stream}, l.HandledBy sender → StreamsStep decode size s l t →
      s.streams key = some stream → stream.file.host ≠ sender → t.streams key = some stream := by
  have filed := filed reached
  have books := allExact reached
  refine ⟨?_, ?_, chunk_frame filed⟩
  · intro key stream present
    obtain ⟨ordered, tracks, _⟩ := books key stream present
    exact ⟨ordered, tracks.returned_eq⟩
  · intro key result t step zero
    cases step with
    | read present _ _ _ done =>
      obtain ⟨rfl, rfl, whole⟩ := read_zero (books key _ present) _ done zero
      exact ⟨_, present, by simp [Stream.read], whole⟩
    | wait => cases zero

theorem Admitted.same {before after : Index} (peers : after.peers = before.peers)
    (valid : ∀ descriptor ∈ sharedDescriptors after.mutation, validDescriptor (some descriptor) = true) :
    Admitted before after where
  descriptors host descriptors is := by
    rw [is] at valid
    exact valid
  peers id peer absent present := by
    rw [peers, absent] at present
    contradiction

theorem Admitted.join {before : Index} {room : Room} (idle : before.mutation = none) :
    Admitted before ({ before with room }.setPeer member (Peer.create socket place nickname member now)) where
  descriptors host descriptors is := by
    cases idle.symm.trans is
  peers id peer absent present := by
    simp only [Index.setPeer, Function.update_apply] at present
    split at present
    · rename_i here
      cases present
      exact ⟨socket, place, nickname, now, by rw [here]⟩
    · cases absent.symm.trans present

/-- The peer 1 has shared a file. -/
def onlyShare (shared : FileDto) : Streams :=
  { index :=
    { room := { name := [], fileIdCounter := 2, fileById := [(1, File.create 1 1 shared)], peerById := [1] }
      peers := Function.update (Function.update (fun _ => none) 1 (some (Peer.create 5 0 [] 1 0))) 1
        (some { Peer.create 5 0 [] 1 0 with files := [File.create 1 1 shared] })
      created := [File.create 1 1 shared] } }

theorem onlyShare_reachable {ok : Streams → StreamsLabel → Prop} {shared : FileDto}
    (valid : validDescriptor (some shared) = true) (shares : ∀ s, ok s (.files (some (.sharing 1 [shared]))))
    (goes : ∀ s mutation, (∀ descriptors, mutation ≠ some (.sharing 1 descriptors)) →
      taker mutation = none → ok s (.files mutation)) :
    ((streams decode size).restrict ok).Reachable (onlyShare shared) := by
  have start : ((streams decode size).restrict ok).Reachable { index := { room := { name := [] } } } :=
    .start ⟨[], rfl⟩
  have only : ∀ descriptor ∈ [shared], validDescriptor (some descriptor) = true := by
    simpa using valid
  have joined := start.next ⟨.files (@IndexStep.join _ _ 1 (Peer.create 5 0 [] 1 0) rfl rfl rfl)
    (.join rfl), goes _ _ (fun _ => nofun) rfl⟩
  have asked := joined.next ⟨.files (@IndexStep.share _ 1 [shared] rfl) (.same rfl only), shares _⟩
  have hosted := asked.next ⟨.files (.host rfl (List.mem_singleton_self 1)) (.same rfl only),
    goes _ _ (fun _ => nofun) rfl⟩
  have prepared := hosted.next ⟨.files (.prepare rfl rfl) (.same rfl fun _ => nofun), goes _ _ (fun _ => nofun) rfl⟩
  have added := prepared.next ⟨.files (.add rfl rfl) ⟨nofun, fun id peer absent found => by
    by_cases here : id = 1
    · subst here
      cases absent
    · have before := (Function.update_of_ne here _ _).symm.trans found
      cases absent.symm.trans before⟩, goes _ _ (fun _ => nofun) rfl⟩
  have merged := added.next ⟨.files (.merge rfl) (.same rfl fun _ => nofun), goes _ _ (fun _ => nofun) rfl⟩
  exact merged

/-- A file of one byte, as its host describes it. -/
def sharedFirst : FileDto := { clientFileId := some 7, name := some [0x61], size := some 1 }

def fileFirst : File := File.create 1 1 sharedFirst

def hostedFirst : Streams := onlyShare sharedFirst

theorem hostedFirst_reachable {ok : Streams → StreamsLabel → Prop}
    (shares : ∀ s mutation, taker mutation = none → ok s (.files mutation)) :
    ((streams decode size).restrict ok).Reachable hostedFirst :=
  onlyShare_reachable (by decide) (fun s => shares s _ rfl) fun s mutation _ => shares s mutation

/-- Its content, as the host sends it. -/
def chunkFirst : MessageDto :=
  { code := some .fileChunkData
    files := some [some { serverFileId := some 1, subscriberId := some 1, chunkPosition := some 0
                          chunkSize := some 1, chunkRequestId := some 1, data := some [9] }] }

/-- A file of one byte is downloaded whole. -/
theorem streaming_exact_first :
    ∃ s stream, (streams some fun _ => 0).Reachable s ∧ s.streams (1, 1) = some stream ∧
      stream.returned = [9] ∧ Consecutive stream.file stream.accepted := by
  have hosted : (streams some fun _ => 0).Reachable hostedFirst :=
    (@hostedFirst_reachable _ _ (fun _ _ => True) fun _ _ _ => trivial).of_restrict
  have found := hosted.next
    (@StreamsStep.find _ _ 1 fileFirst _ (by decide))
  have subscribed := found.next (.subscribe (List.mem_singleton_self _) rfl rfl)
  have asked := subscribed.next
    (@StreamsStep.wait _ _ _ _ _ (1, 1) _ 4 rfl rfl rfl (by decide) rfl)
  have captured := asked.next (@StreamsStep.capture _ _ _ _ _ _ _ (1, 1) _ _ _ rfl rfl rfl rfl)
  have sent := captured.next (@StreamsStep.push _ _ _ _ _ _ (1, 1) _ _ rfl rfl rfl)
  have passed := sent.next (@StreamsStep.pass _ _ _ 1 chunkFirst _ _ _ rfl nofun rfl rfl)
  have known := passed.next (@StreamsStep.lookup _ _ _ 1 _ _ 1 rfl rfl (by decide) rfl)
  have provided := known.next (@StreamsStep.provide _ _ _ _ _ _ 1 _ (1, 1) rfl rfl rfl rfl)
  have filled := provided.next
    (@StreamsStep.read _ _ _ _ _ _ (1, 1) 4 rfl rfl rfl (by decide) rfl nofun)
  exact ⟨_, _, filled, rfl, rfl, ((streaming_exact filled).1 (1, 1) _ rfl).1⟩

end Conspire.Files
