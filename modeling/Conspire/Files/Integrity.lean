import Conspire.Files.Base64
import Conspire.Files.Replies

/-! The content of a download. A host sends the parts of its files that it is asked for, as often, as
late and in whatever order the network lets it; what its downloads return is the file from its start. -/
namespace Conspire.Files
open Session Boundaries Transition

/-- `Blob.slice`. A negative bound counts from the end. -/
def slice (content : Bytes) (start stop : Int) : Bytes :=
  let bound (n : Int) : Int := if n < 0 then max (content.length + n) 0 else min n content.length
  (content.drop (bound start).toNat).take (bound stop - bound start).toNat

/-- `sendFileChunks` for one file of a request. -/
def sendFileChunk (filesMap : Int → Option Bytes) (chunkInfo : FileDto) : Option MessageDto := do
  let file ← filesMap (← chunkInfo.clientFileId)
  let position ← chunkInfo.chunkPosition
  let posEnd := min (position + (← chunkInfo.chunkSize)) file.length
  some (createFileChunkMessage chunkInfo (Base64.btoa (slice file position posEnd)) (posEnd - position))

def sendFileChunks (filesMap : Int → Option Bytes) (message : MessageDto) : List MessageDto :=
  match message.files with
  | some [some chunkInfo] => (sendFileChunk filesMap chunkInfo).toList
  | _ => []

/-- A chosen file is shared with its size. -/
def Chosen (filesMap : Int → Option Bytes) (descriptor : FileDto) : Prop :=
  ∃ content, filesMap (descriptor.clientFileId.getD 0) = some content ∧ descriptor.size = some (content.length : Int)

/-- The host shares files it has, and sends what it makes of requests for them. -/
def Uploads (filesMap : Int → Option Bytes) (host : PeerId) (s : Streams) : StreamsLabel → Prop
  | .files mutation => ∀ descriptors, mutation = some (.sharing host descriptors) →
      ∀ descriptor ∈ descriptors, Chosen filesMap descriptor
  | .chunk sender message _ => sender = host → ∃ file ∈ s.index.created, file.host = host ∧
      ∃ subscriber position size requestId,
        message ∈ sendFileChunks filesMap (requestMessage file subscriber position size requestId)
  | _ => True

/-- Data from the place in a file that it is said to come from. -/
def PartOf (filesMap : Int → Option Bytes) (file : File) (position : Int) (data : Bytes) : Prop :=
  ∃ content, filesMap file.clientFileId = some content ∧ data = (content.drop position.toNat).take data.length

/-- A chunk message in its handler carries such data. -/
def Carries (filesMap : Int → Option Bytes) (s : Streams) : Handling → Prop
  | .found file reply => PartOf filesMap file reply.position reply.data
  | .providing key reply => ∃ file ∈ s.index.created, key.1 = file.serverFileId ∧
      PartOf filesMap file reply.position reply.data

/-- What a host's files are, what is on its way from it, and what was accepted. -/
structure Genuine (filesMap : Int → Option Bytes) (host : PeerId) (s : Streams) : Prop where
  descriptors : ∀ descriptors, s.index.mutation = some (.sharing host descriptors) ∨
    s.index.mutation = some (.hosted host descriptors) → ∀ descriptor ∈ descriptors, Chosen filesMap descriptor
  files : ∀ file ∈ s.index.created, file.host = host →
    ∃ content, filesMap file.clientFileId = some content ∧ file.fileSize = content.length
  handled : ∀ handling, s.handling host = some handling → Carries filesMap s handling
  accepted : ∀ key stream, s.streams key = some stream → stream.file.host = host →
    ∀ payload ∈ stream.accepted, PartOf filesMap stream.file payload.position payload.data

section Parts
variable {filesMap : Int → Option Bytes} {content : Bytes} {file : File} {message : MessageDto}

theorem slice_inside {content : Bytes} {start : Int} {length : Nat} (low : 0 ≤ start)
    (high : start + length ≤ content.length) : slice content start (start + length) =
    (content.drop start.toNat).take length := by
  simp only [slice, if_neg (Int.not_lt.mpr low), if_neg (show ¬ start + length < 0 by omega)]
  congr 2
  · omega
  · omega

/-- A chunk of the host that passes the checks is a part of the file it names. -/
theorem passed_part {s : Streams} {host : PeerId} {found : File} {reply : ChunkReply} {subscriber position size : Int}
    {requestId : Nat} (filed : Filed s) (created : file ∈ s.index.created)
    (sent : message ∈ sendFileChunks filesMap (requestMessage file subscriber position size requestId))
    (passed : checkFileChunk Base64.decode s.index.room s.hosted host message = .passed found reply) :
    PartOf filesMap found reply.position reply.data := by
  simp only [sendFileChunks, requestMessage, Option.mem_toList, sendFileChunk, Option.bind_eq_bind,
    Option.bind_some, Option.bind_eq_some_iff, Option.some.injEq] at sent
  obtain ⟨content, known, rfl⟩ := sent
  simp only [checkFileChunk, createFileChunkMessage, Base64.decode_btoa] at passed
  split at passed
  · contradiction
  · rename_i there is
    obtain ⟨other, same⟩ := filed.getFile is
    obtain rfl := filed.agreed.same other created (Int.ofNat_inj.mp same.symm)
    split at passed
    · contradiction
    · split at passed
      · rename_i valid
        cases passed
        simp only [validChunk] at valid
        split at valid
        · contradiction
        · rename_i inside
          have length : min (position + size) content.length =
              position + ((slice content position (min (position + size) content.length)).length : Int) := by omega
          refine ⟨content, known, ?_⟩
          dsimp only
          conv_lhs => rw [length]
          exact slice_inside (by omega) (by omega)
      · contradiction

end Parts

section Steps
variable {filesMap : Int → Option Bytes} {size : MessageDto → Nat} {host : PeerId} {s t : Streams} {l : StreamsLabel}
  {key : Key} {next : Stream}

/-- A subscriber with what was accepted for it before, and perhaps the data of a chunk message. -/
def Extends (s : Streams) (key : Key) (next : Stream) : Prop :=
  ∃ stream, s.streams key = some stream ∧ next.file = stream.file ∧ (next.accepted = stream.accepted ∨
    ∃ sender reply, s.handling sender = some (.providing key reply) ∧
      next.accepted = stream.accepted ++ [⟨sender, reply.requestId, reply.position, reply.data⟩])

theorem Extends.set {key' : Key} {stream next' : Stream} (present : s.streams key' = some stream)
    (now : (s.setStream key' next').streams key = some next) (file : next'.file = stream.file)
    (accepted : next'.accepted = stream.accepted) : Extends s key next := by
  rcases setStream_some s now with ⟨rfl, rfl⟩ | old
  · exact ⟨stream, present, file, .inl accepted⟩
  · exact ⟨next, old, rfl, .inl rfl⟩

theorem Extends.release {key' : Key} {stream : Stream} {after : Subscriber} {resume : Option Binding}
    (present : s.streams key' = some stream) (now : (s.release key' stream after resume).streams key = some next) :
    Extends s key next := by
  rcases release_some s now with ⟨rfl, references, -, rfl⟩ | old
  · exact ⟨stream, present, rfl, .inl rfl⟩
  · exact ⟨next, old, rfl, .inl rfl⟩

theorem Extends.ask {key' : Key} {stream : Stream} {after : Subscriber} {resume : Option Binding}
    {request : Option MessageDto} (present : s.streams key' = some stream)
    (now : (s.ask key' stream after resume request).streams key = some next) : Extends s key next := by
  cases request with
  | none => exact .release present now
  | some message => exact .set present now rfl rfl

theorem Extends.pin {keys : List Key} (now : (s.pin keys).streams key = some next) : Extends s key next := by
  simp only [Streams.pin] at now
  split at now
  · obtain ⟨stream, old, rfl⟩ := Option.map_eq_some_iff.mp now
    exact ⟨stream, old, rfl, .inl rfl⟩
  · exact ⟨next, now, rfl, .inl rfl⟩

theorem read_kept (stream : Stream) (after : Subscriber) (result : Read) :
    (stream.read after result).file = stream.file ∧ (stream.read after result).accepted = stream.accepted := by
  cases result <;> exact ⟨rfl, rfl⟩

theorem provide_kept (stream : Stream) (after : Subscriber) (sender : PeerId) (reply : ChunkReply) (result : Result) :
    (stream.provide after sender reply result).file = stream.file ∧
      ((stream.provide after sender reply result).accepted = stream.accepted ∨
        (stream.provide after sender reply result).accepted =
          stream.accepted ++ [⟨sender, reply.requestId, reply.position, reply.data⟩]) := by
  cases result with
  | accepted => exact ⟨rfl, .inr rfl⟩
  | duplicate => exact ⟨rfl, .inl rfl⟩
  | invalid => exact ⟨rfl, .inl rfl⟩

/-- What a step adds to what was accepted for a subscriber is in the handler of a chunk message. -/
theorem accepted_step {decode : Bytes → Option Bytes} (step : StreamsStep decode size s l t)
    (now : t.streams key = some next) : Extends s key next ∨ next.accepted = [] := by
  have same : s.streams key = some next → Extends s key next ∨ next.accepted = [] :=
    fun old => .inl ⟨next, old, rfl, .inl rfl⟩
  cases step with
  | subscribe =>
    rcases setStream_some _ now with ⟨rfl, rfl⟩ | old
    · exact .inr rfl
    · exact same old
  | read present => exact .inl (.set present now (read_kept ..).1 (read_kept ..).2)
  | wait present => exact .inl (.ask present now)
  | drop present => exact .inl (.set present now rfl rfl)
  | capture present => exact .inl (.set present now rfl rfl)
  | detached present => exact .inl (.release present now)
  | push present =>
    rcases release_some _ now with ⟨rfl, references, -, rfl⟩ | old
    · exact .inl ⟨_, present, rfl, .inl rfl⟩
    · rw [post_streams] at old
      exact same old
  | lookup => exact .inl (.pin now)
  | provide handling present =>
    rcases setStream_some _ now with ⟨rfl, rfl⟩ | old
    · obtain ⟨file, more⟩ := provide_kept _ _ _ _ _
      exact .inl ⟨_, present, file, more.imp_right fun added => ⟨_, _, handling, added⟩⟩
    · exact same old
  | clear => exact .inl (.pin now)
  | cancel _ present => exact .inl (.set present now rfl rfl)
  | file => exact .inl (.pin now)
  | skip _ present => exact .inl (.release present now)
  | reissue _ present => exact .inl (.ask present now)
  | invalidate =>
    rw [invalidate_streams] at now
    exact same now
  | post =>
    rw [post_streams] at now
    exact same now
  | _ => exact same now

/-- Hosted descriptors were shared before. -/
theorem shared_before {i j : Index} {l' : IndexLabel} {descriptors : List FileDto} (moved : IndexStep i l' j)
    (is : j.mutation = some (.sharing host descriptors) ∨ j.mutation = some (.hosted host descriptors)) :
    j.mutation = some (.sharing host descriptors) ∨ i.mutation = some (.sharing host descriptors) ∨
      i.mutation = some (.hosted host descriptors) := by
  cases moved with
  | join | remove => exact .inr is
  | share => exact .inl (is.resolve_right (by simp))
  | host before =>
    rcases is with is | is
    · cases is
    · cases is
      exact .inr (.inl before)
  | _ =>
    rcases is with is | is
    · cases is
    · cases is

theorem created_chosen {i j : Index} {l' : IndexLabel} {file : File} (moved : IndexStep i l' j)
    (created : file ∈ j.created) (own : file.host = host) :
    file ∈ i.created ∨ ∃ descriptors id descriptor, i.mutation = some (.hosted host descriptors) ∧
      descriptor ∈ descriptors ∧ file = File.create host id descriptor := by
  cases moved with
  | prepare is =>
    rcases List.mem_append.mp created with old | new
    · exact .inl old
    · obtain ⟨n, within, rfl⟩ := List.mem_mapIdx.mp new
      cases own
      exact .inr ⟨_, _, _, is, List.getElem_mem within, rfl⟩
  | _ => exact .inl created

theorem Carries.mono {handling : Handling} (carries : Carries filesMap s handling)
    (more : ∀ file ∈ s.index.created, file ∈ t.index.created) : Carries filesMap t handling := by
  cases handling with
  | found => exact carries
  | providing =>
    obtain ⟨file, created, rest⟩ := carries
    exact ⟨file, more file created, rest⟩

variable {decode : Bytes → Option Bytes}

theorem created_step (step : StreamsStep decode size s l t) : ∀ file ∈ s.index.created, file ∈ t.index.created := by
  rcases index_step step with ⟨_, moved, -⟩ | same | ⟨_, _, _, -, same, -⟩
  · exact created_mono moved
  · exact fun file member => same ▸ member
  · exact fun file member => same ▸ member

section Genuine
variable (genuine : Genuine filesMap host s) (step : StreamsStep Base64.decode size s l t)
  (uploads : Uploads filesMap host s l)
include genuine step

theorem Genuine.files_step : ∀ file ∈ t.index.created, file.host = host →
    ∃ content, filesMap file.clientFileId = some content ∧ file.fileSize = content.length := by
  intro file created own
  rcases index_step step with ⟨_, moved, -⟩ | same | ⟨_, _, _, -, same, -⟩
  · rcases created_chosen moved created own with old | ⟨descriptors, id, descriptor, is, member, rfl⟩
    · exact genuine.files file old own
    · obtain ⟨content, known, sized⟩ := genuine.descriptors descriptors (.inr is) descriptor member
      exact ⟨content, known, by simp [File.create, sized]⟩
  · exact genuine.files file (same ▸ created) own
  · rw [same] at created
    exact genuine.files file created own

include uploads

theorem Genuine.descriptors_step : ∀ descriptors, t.index.mutation = some (.sharing host descriptors) ∨
    t.index.mutation = some (.hosted host descriptors) → ∀ descriptor ∈ descriptors, Chosen filesMap descriptor := by
  intro descriptors is
  rcases index_step step with ⟨_, moved, -, rfl⟩ | same | ⟨_, _, _, -, same, -⟩
  · rcases shared_before moved is with now | before
    · exact uploads descriptors now
    · exact genuine.descriptors descriptors before
  · exact genuine.descriptors descriptors (same ▸ is)
  · rw [same] at is
    exact genuine.descriptors descriptors is

theorem Genuine.handled_step (filed : Filed s) :
    ∀ handling, t.handling host = some handling → Carries filesMap t handling := by
  intro handling now
  have more := created_step step
  by_cases chunk : ∃ message check, l = .chunk host message check
  · obtain ⟨message, check, rfl⟩ := chunk
    obtain ⟨idle, -, checked, ⟨-, rfl⟩ | ⟨found, reply, rfl, rfl⟩⟩ := chunk_step step
    · exact genuine.handled handling now
    · simp only [Streams.handle, Function.update_self, Option.some.injEq] at now
      subst now
      obtain ⟨file, created, -, subscriber, position, size, requestId, sent⟩ := uploads rfl
      exact passed_part filed created sent checked
  · rcases handling_step step fun message check is => chunk ⟨message, check, is⟩ with
      same | cleared | ⟨file, reply, id, before, -, -, after⟩
    · exact (genuine.handled handling (same ▸ now)).mono more
    · rw [cleared] at now
      contradiction
    · cases after.symm.trans now
      have part : PartOf filesMap file reply.position reply.data := genuine.handled _ before
      exact ⟨file, more file (filed.named before).1, rfl, part⟩

omit uploads in
theorem Genuine.accepted_step (filed : Filed s) :
    ∀ key stream, t.streams key = some stream → stream.file.host = host →
    ∀ payload ∈ stream.accepted, PartOf filesMap stream.file payload.position payload.data := by
  intro key next now own payload member
  rcases Files.accepted_step step now with ⟨stream, before, file, old | ⟨sender, reply, handling, more⟩⟩ | empty
  · rw [old] at member
    exact file ▸ genuine.accepted key stream before (file ▸ own) payload member
  · rw [more] at member
    rcases List.mem_append.mp member with old | new
    · exact file ▸ genuine.accepted key stream before (file ▸ own) payload old
    · obtain rfl := List.mem_singleton.mp new
      obtain rfl : sender = host := (filed.host before ⟨reply, handling⟩).trans (file ▸ own)
      obtain ⟨other, created, named, part⟩ := genuine.handled _ handling
      obtain ⟨there, same⟩ := filed.own key stream before
      obtain rfl := filed.agreed.same created there (named.symm.trans same)
      exact file ▸ part
  · rw [empty] at member
    exact absurd member List.not_mem_nil

end Genuine

theorem genuine_step (genuine : Genuine filesMap host s) (step : StreamsStep Base64.decode size s l t)
    (uploads : Uploads filesMap host s l) (filed : Filed s) : Genuine filesMap host t where
  descriptors := genuine.descriptors_step step uploads
  files := genuine.files_step step
  handled := genuine.handled_step step uploads filed
  accepted := genuine.accepted_step step filed

theorem genuine (reached : ((streams Base64.decode size).restrict (Uploads filesMap host)).Reachable s) :
    Genuine filesMap host s := by
  refine reached.invariant ?_ ?_
  · rintro _ ⟨name, rfl⟩
    exact { descriptors := by simp, files := by simp, handled := by simp, accepted := by simp }
  · intro s l t before known step
    exact genuine_step known step.1 step.2 (filed before.of_restrict)

end Steps

/-- Consecutive parts of a file make up its start. -/
theorem parts_prefix {filesMap : Int → Option Bytes} {file : File} {accepted : List Payload} {whole : Bytes}
    (ordered : Consecutive file accepted) (known : filesMap file.clientFileId = some whole)
    (parts : ∀ payload ∈ accepted, PartOf filesMap file payload.position payload.data)
    (front back : List Payload) (split : accepted = front ++ back) : content front <+: whole := by
  rw [List.prefix_iff_eq_take]
  induction front using List.reverseRecOn generalizing back with
  | nil => rfl
  | append_singleton front payload ih =>
    have split : accepted = front ++ payload :: back := by rw [split, List.append_assoc, List.singleton_append]
    obtain ⟨same, here, data⟩ := parts payload (split ▸ by simp)
    cases known.symm.trans here
    have place := ordered.offsets front payload back split
    rw [place, Int.toNat_natCast] at data
    rw [content_append, content_singleton, List.length_append, List.take_add, ← ih _ split, ← data]

/-- In every run in which a host shares files that it has with their sizes, and sends what its page
makes of requests for them, in any order and any number of times, each of its downloads has returned
the file from its start. A read that ends a download has returned the whole file. -/
theorem download_exact {filesMap : Int → Option Bytes} {host : PeerId} {s : Streams} {stream : Stream}
    (reached : ((streams Base64.decode size).restrict (Uploads filesMap host)).Reachable s)
    (present : s.streams key = some stream) (own : stream.file.host = host) :
    ∃ whole, filesMap stream.file.clientFileId = some whole ∧ stream.file.fileSize = whole.length ∧
      stream.returned <+: whole ∧ ∀ hosted count,
        (stream.subscriber.readChunk stream.file hosted count).2.count = some 0 → stream.returned = whole := by
  have room := reached.of_restrict
  have genuine := genuine reached
  obtain ⟨ordered, tracks, -⟩ := allExact room key stream present
  obtain ⟨whole, known, sized⟩ := genuine.files stream.file ((filed room).own key stream present).1 own
  have start : stream.returned <+: whole := by
    have parts := genuine.accepted key stream present own
    rw [tracks.returned_eq]
    split
    · rcases List.eq_nil_or_concat stream.accepted with empty | ⟨front, last, is⟩
      · rw [empty]
        exact List.nil_prefix
      · rw [is, List.concat_eq_append, List.dropLast_concat]
        rw [List.concat_eq_append] at is
        exact parts_prefix ordered known parts front [last] is
    · exact parts_prefix ordered known parts _ [] (List.append_nil _).symm
  refine ⟨whole, known, sized, start, fun hosted count ended => ?_⟩
  have full := (read_zero (allExact room key stream present) count rfl ended).2.2
  exact start.eq_of_length (by omega)

section First

/-- A file of three bytes. -/
def sharedWhole : FileDto := { clientFileId := some 7, name := some [0x61], size := some 3 }

def fileWhole : File := File.create 1 1 sharedWhole

/-- The host has it. -/
def chosenFirst (clientFileId : Int) : Option Bytes := if clientFileId = 7 then some [9, 8, 7] else none

/-- A part of it. -/
def partFirst (requestId : Nat) (position size : Int) (data : Bytes) : MessageDto :=
  { code := some .fileChunkData
    files := some [some { serverFileId := some 1, subscriberId := some 1, chunkPosition := some position
                          chunkSize := some size, chunkRequestId := some requestId, data := some data }] }

theorem onlyShare_uploads : ((streams decode size).restrict (Uploads chosenFirst 1)).Reachable
    (onlyShare sharedWhole) := by
  refine onlyShare_reachable (by decide) (fun s => ?_) fun s mutation other _ descriptors is => ?_
  · rintro descriptors ⟨⟩ descriptor inside
    obtain rfl := List.mem_singleton.mp inside
    exact ⟨[9, 8, 7], rfl, rfl⟩
  · exact absurd is (other descriptors)

/-- A file of three bytes arrives in two parts, and a read that finds its end has returned it whole. -/
theorem download_exact_first : ∃ s stream,
    ((streams Base64.decode fun _ => 0).restrict (Uploads chosenFirst 1)).Reachable s ∧
      s.streams (1, 1) = some stream ∧ stream.accepted.length = 2 ∧
      chosenFirst stream.file.clientFileId = some [9, 8, 7] ∧ stream.returned = [9, 8, 7] := by
  have hosted := @onlyShare_uploads Base64.decode fun _ => 0
  have found := hosted.next ⟨@StreamsStep.find _ _ 1 fileWhole _ (by decide), trivial⟩
  have subscribed := found.next ⟨.subscribe (List.mem_singleton_self _) rfl rfl, trivial⟩
  have asked := subscribed.next
    ⟨@StreamsStep.wait _ _ _ _ _ (1, 1) _ 2 rfl rfl rfl (by decide) rfl, trivial⟩
  have captured := asked.next ⟨@StreamsStep.capture _ _ _ _ _ _ _ (1, 1) _ _ _ rfl rfl rfl rfl, trivial⟩
  have sent := captured.next ⟨@StreamsStep.push _ _ _ _ _ _ (1, 1) _ _ rfl rfl rfl, trivial⟩
  have passed := sent.next ⟨@StreamsStep.pass _ _ _ 1 (partFirst 1 0 2 (ascii "CQg=")) _ _ _ rfl nofun rfl rfl,
    fun _ => ⟨fileWhole, List.mem_singleton_self _, rfl, 1, 0, 2, 1, .head _⟩⟩
  have known := passed.next ⟨@StreamsStep.lookup _ _ _ 1 _ _ 1 rfl rfl (by decide) rfl, trivial⟩
  have provided := known.next ⟨@StreamsStep.provide _ _ _ _ _ _ 1 _ (1, 1) rfl rfl rfl rfl, trivial⟩
  have filled := provided.next
    ⟨@StreamsStep.read _ _ _ _ _ _ (1, 1) 2 rfl rfl rfl (by decide) rfl nofun, trivial⟩
  -- the rest of the file
  have asked := filled.next
    ⟨@StreamsStep.wait _ _ _ _ _ (1, 1) _ 2 rfl rfl rfl (by decide) rfl, trivial⟩
  have captured := asked.next ⟨@StreamsStep.capture _ _ _ _ _ _ _ (1, 1) _ _ _ rfl rfl rfl rfl, trivial⟩
  have sent := captured.next ⟨@StreamsStep.push _ _ _ _ _ _ (1, 1) _ _ rfl rfl rfl, trivial⟩
  have passed := sent.next ⟨@StreamsStep.pass _ _ _ 1 (partFirst 2 2 1 (ascii "Bw==")) _ _ _ rfl nofun rfl rfl,
    fun _ => ⟨fileWhole, List.mem_singleton_self _, rfl, 1, 2, 1, 2, .head _⟩⟩
  have known := passed.next ⟨@StreamsStep.lookup _ _ _ 1 _ _ 1 rfl rfl (by decide) rfl, trivial⟩
  have provided := known.next ⟨@StreamsStep.provide _ _ _ _ _ _ 1 _ (1, 1) rfl rfl rfl rfl, trivial⟩
  have filled := provided.next
    ⟨@StreamsStep.read _ _ _ _ _ _ (1, 1) 2 rfl rfl rfl (by decide) rfl nofun, trivial⟩
  obtain ⟨whole, chosen, -, -, ended⟩ := @download_exact _ (1, 1) _ _ _ _ filled rfl rfl
  cases chosen
  exact ⟨_, _, filled, rfl, rfl, rfl, ended true 2 rfl⟩

end First

end Conspire.Files
