import Conspire.Files.Index
import Conspire.Files.Subscriber

/-! The downloads of a room. Readers, the hosts' chunk messages, the reissue after
a resume and the end of a file meet at the subscribers: each takes `m_chunkLock`
of one subscriber at a time, and what it writes is seen when it releases it. -/
namespace Conspire.Files
open Session Boundaries Transition

/-- A file and one of its subscribers, by their ids. -/
abbrev Key := Nat × Nat

/-- A binding of a peer, by its generation. -/
abbrev Binding := PeerId × Nat

/-- What `handleFileChunkMessage` passes to the file. -/
structure ChunkReply where
  subscriberId : Int
  requestId : Nat
  position : Int
  size : Int
  data : Bytes

/-- The checks of `handleFileChunkMessage`: an API error, a file that is not
there any more, an exception of the decoder, or a chunk for a file of the sender. -/
inductive ChunkCheck where
  | error (message : MessageDto)
  | ignored
  | thrown
  | passed (file : File) (reply : ChunkReply)

/-- `getFileById` for an id of the wire. -/
def getFile (room : Room) (id : Int) : Option File :=
  if id < 0 then none else room.getFileById id.toNat

def checkFileChunk (decode : Bytes → Option Bytes) (room : Room) (hosted : PeerId → Bool)
    (sender : PeerId) (message : MessageDto) : ChunkCheck :=
  match message.files with
  | none => .error (apiError (ascii "No file provided.") none)
  | some [none] => .error (apiError (ascii "File structure is not provided.") none)
  | some [some fileDto] =>
    match fileDto.serverFileId, fileDto.subscriberId, fileDto.data with
    | none, _, _ => .error (apiError (ascii "File clientId is not provided.") none)
    | _, none, _ => .error (apiError (ascii "File subscriberId is not provided.") none)
    | _, _, none => .error (apiError (ascii "File chunk data is not provided.") none)
    | some serverFileId, some subscriberId, some encoded =>
      match getFile room serverFileId with
      | none => .ignored
      | some file =>
        if !hosted file.host || file.host ≠ sender then
          .error (apiError (ascii "Wrong file host.") none)
        else
          match decode encoded with
          | none => .thrown
          | some data =>
            match fileDto.chunkPosition, fileDto.chunkSize, fileDto.chunkRequestId with
            | some position, some size, some requestId =>
              if validChunk position size data.length file.fileSize then
                .passed file { subscriberId, requestId, position, size, data }
              else .error (apiError (ascii "Invalid file chunk.") none)
            | _, _, _ => .error (apiError (ascii "Invalid file chunk.") none)
  | some _ => .error (apiError (ascii "Invalid files count. Expected - 1.") none)

/-- The answer of `handleFileChunkMessage` to a result of the file. -/
def chunkError : Result → Option MessageDto
  | .invalid => some (apiError (ascii "Unexpected file chunk.") none)
  | .accepted | .duplicate => none

/-- `sendMessageAsync` inside `requestChunk`: before and after the binding is read. -/
inductive Sending where
  | unsent (message : MessageDto)
  | captured (frame : OutboundFrame)

/-- The holder of `m_chunkLock` inside `requestChunk`, with what it will leave
and the resume it acts for, if it is no reader. -/
structure Holder where
  after : Subscriber
  resume : Option Binding
  sending : Sending

/-- A subscriber with its lock and the number of its owners. `accepted` are the
payloads it took and `returned` the bytes its reads returned. -/
structure Stream where
  file : File
  subscriber : Subscriber
  locked : Option Holder := none
  references : Nat := 1
  reading : Bool := true
  accepted : List Payload := []
  returned : Bytes := []

/-- `m_subscribers` and its company. -/
structure Subscribers where
  counter : Nat := 1
  available : Bool := true
  ids : List Nat := []

/-- A chunk message inside its handler: the file was found, then the subscriber. -/
inductive Handling where
  | found (file : File) (reply : ChunkReply)
  | providing (key : Key) (reply : ChunkReply)

/-- `reissueOutstandingFileRequests` after a resume: the files that are left, and
the subscribers of the file it is at. -/
inductive Scan where
  | done | bound
  | files (rest : List File)
  | visiting (here : List Key) (rest : List File)

def Scan.pop : Scan → Scan
  | .visiting (_ :: keys) rest => .visiting keys rest
  | scan => scan

/-- `queued` are all frames that were enqueued for a peer and `invalidated` the
bindings whose connection the server has invalidated. -/
structure Streams where
  index : Index
  destroyed : PeerId → Bool := fun _ => false
  found : List File := []
  subscribers : Nat → Subscribers := fun _ => {}
  streams : Key → Option Stream := fun _ => none
  handling : PeerId → Option Handling := fun _ => none
  withdrawn : List File := []
  invalidating : List Key := []
  scans : Binding → Scan := fun _ => .done
  queued : PeerId → List OutboundFrame := fun _ => []
  invalidated : Binding → Bool := fun _ => false

namespace Streams
variable (s : Streams)

def hosted (peer : PeerId) : Bool := !s.destroyed peer

def setStream (key : Key) (stream : Stream) : Streams :=
  { s with streams := Function.update s.streams key (some stream) }

def setPeer (id : PeerId) (peer : Peer) : Streams := { s with index := s.index.setPeer id peer }

def setSubscribers (file : Nat) (subscribers : Subscribers) : Streams :=
  { s with subscribers := Function.update s.subscribers file subscribers }

def handle (peer : PeerId) (handling : Option Handling) : Streams :=
  { s with handling := Function.update s.handling peer handling }

def setScan (binding : Binding) (scan : Scan) : Streams :=
  { s with scans := Function.update s.scans binding scan }

/-- `lock()` succeeds on a weak pointer to the subscriber. -/
def alive (key : Key) : Bool :=
  match s.streams key with
  | none => false
  | some stream => 0 < stream.references

/-- The subscribers of a file that are alive. -/
def live (file : File) : List Key :=
  ((s.subscribers file.serverFileId).ids.map fun id => (file.serverFileId, id)).filter s.alive

/-- Shared pointers to all of these subscribers are taken. -/
def pin (keys : List Key) : Streams :=
  { s with streams := fun key =>
      if key ∈ keys then
        (s.streams key).map fun stream => { stream with references := stream.references + 1 }
      else s.streams key }

/-- The lock is released: the subscriber is what its holder left. -/
def release (key : Key) (stream : Stream) (after : Subscriber) (resume : Option Binding) : Streams :=
  match resume with
  | none => s.setStream key { stream with subscriber := after, locked := none }
  | some binding =>
    (s.setStream key { stream with subscriber := after, locked := none
                                   references := stream.references - 1 }).setScan
      binding (s.scans binding).pop

/-- `requestChunk` has begun a request or has nothing to send. -/
def ask (key : Key) (stream : Stream) (after : Subscriber) (resume : Option Binding)
    (request : Option MessageDto) : Streams :=
  match request with
  | none => s.release key stream after resume
  | some message =>
    s.setStream key { stream with locked := some ⟨after, resume, .unsent message⟩ }

/-- `invalidateSocketIfCurrent`. -/
def invalidate (id : PeerId) (peer : Peer) (generation : Nat) (reason : CloseReason) : Streams :=
  let (next, socket) := peer.invalidateSocketIfCurrent generation reason
  let s := s.setPeer id next
  match socket with
  | none => s
  | some _ => { s with invalidated := Function.update s.invalidated (id, generation) true }

/-- The second section of `sendMessageAsync`. -/
def post (size : MessageDto → Nat) (id : PeerId) (peer : Peer) (frame : OutboundFrame) : Streams :=
  match peer.enqueue size frame with
  | some next =>
    { s.setPeer id next with queued := Function.update s.queued id (s.queued id ++ [frame]) }
  | none => s.invalidate id peer frame.generation .writeError

end Streams

/-- A read as its caller sees it. -/
def Stream.read (stream : Stream) (after : Subscriber) : Read → Stream
  | .filled data => { stream with subscriber := after, returned := stream.returned ++ data }
  | _ => { stream with subscriber := after }

/-- A chunk message has been answered by the subscriber. -/
def Stream.provide (stream : Stream) (after : Subscriber) (sender : PeerId) (reply : ChunkReply) :
    Result → Stream
  | .accepted =>
    { stream with subscriber := after, references := stream.references - 1
                  accepted := stream.accepted ++
                    [⟨sender, reply.requestId, reply.position, reply.data⟩] }
  | _ => { stream with subscriber := after, references := stream.references - 1 }

/-- The files a withdrawal has forgotten. -/
def forgottenFiles : IndexLabel → Option Mutation → List File
  | .forget _, some (.taken _ files) => files
  | _, _ => []

/-- What the commands and the hello put into the index: descriptors that passed
`validFileDescriptor` and peers as they are constructed. -/
structure Admitted (before after : Index) : Prop where
  descriptors : ∀ host descriptors, after.mutation = some (.sharing host descriptors) →
    ∀ descriptor ∈ descriptors, validDescriptor (some descriptor) = true
  peers : ∀ id peer, before.peers id = none → after.peers id = some peer →
    ∃ socket room nickname now, peer = Peer.create socket room nickname id now

inductive StreamsLabel where
  | files (mutation : Option Mutation)
  | read (key : Key) (result : Read)
  | chunk (sender : PeerId) (message : MessageDto) (check : ChunkCheck)
  | answer (sender : PeerId) (reply : ChunkReply) (result : Result)
  | found (sender : PeerId)
  | take (host : PeerId) (frame : Option OutboundFrame)
  | changed (host : PeerId)
  | internal

variable (decode : Bytes → Option Bytes) (size : MessageDto → Nat)

inductive StreamsStep : Streams → StreamsLabel → Streams → Prop where
  -- shares, withdrawals, joins and removals
  | files : IndexStep s.index l after → Admitted s.index after →
      StreamsStep s (.files after.mutation)
        { s with index := after, withdrawn := forgottenFiles l s.index.mutation ++ s.withdrawn }
  -- the download of a file
  | find : (fileId, file) ∈ s.index.room.fileById →
      StreamsStep s .internal { s with found := file :: s.found }
  | subscribe : file ∈ s.found → s.subscribers file.serverFileId = ⟨counter, true, ids⟩ →
      hasCapacity ids.length Limits.subscribersPerFile = true →
      StreamsStep s .internal
        ((s.setSubscribers file.serverFileId ⟨counter + 1, true, ids ++ [counter]⟩).setStream
          (file.serverFileId, counter) { file, subscriber := { id := counter } })
  | read {count : Int} : s.streams key = some stream → stream.locked = none →
      stream.reading = true → 0 < count →
      stream.subscriber.readChunk stream.file (s.hosted stream.file.host) count = (after, result) →
      (∀ request, result ≠ .waiting request) →
      StreamsStep s (.read key result) (s.setStream key (stream.read after result))
  | wait {count : Int} : s.streams key = some stream → stream.locked = none →
      stream.reading = true → 0 < count →
      stream.subscriber.readChunk stream.file (s.hosted stream.file.host) count =
        (after, .waiting request) →
      StreamsStep s (.read key (.waiting request)) (s.ask key stream after none request)
  | drop : s.streams key = some stream → stream.reading = true →
      (∀ holder, stream.locked = some holder → holder.resume ≠ none) →
      StreamsStep s .internal
        (s.setStream key { stream with reading := false, references := stream.references - 1 })
  | unsubscribe : s.streams key = some stream → stream.references = 0 →
      s.subscribers key.1 = ⟨counter, available, ids⟩ →
      StreamsStep s .internal (s.setSubscribers key.1 ⟨counter, available, ids.erase key.2⟩)
  -- sendMessageAsync of requestChunk
  | capture : s.streams key = some stream →
      stream.locked = some ⟨after, resume, .unsent message⟩ →
      s.index.peers stream.file.host = some peer → peer.capture = some (socket, generation) →
      StreamsStep s .internal
        (s.setStream key
          { stream with locked := some ⟨after, resume, .captured ⟨socket, generation, message⟩⟩ })
  | detached : s.streams key = some stream →
      stream.locked = some ⟨after, resume, .unsent message⟩ →
      s.index.peers stream.file.host = some peer → peer.capture = none →
      StreamsStep s .internal (s.release key stream after resume)
  | push : s.streams key = some stream →
      stream.locked = some ⟨after, resume, .captured frame⟩ →
      s.index.peers stream.file.host = some peer →
      StreamsStep s .internal
        ((s.post size stream.file.host peer frame).release key stream after resume)
  -- handleFileChunkMessage, under m_transportLock of its sender
  | refuse : s.index.peers sender = some peer → peer.socket ≠ none → s.handling sender = none →
      checkFileChunk decode s.index.room s.hosted sender message = check →
      (∀ file reply, check ≠ .passed file reply) →
      StreamsStep s (.chunk sender message check) s
  | pass : s.index.peers sender = some peer → peer.socket ≠ none → s.handling sender = none →
      checkFileChunk decode s.index.room s.hosted sender message = .passed file reply →
      StreamsStep s (.chunk sender message (.passed file reply))
        (s.handle sender (some (.found file reply)))
  | absent : s.handling sender = some (.found file reply) →
      (∀ id : Nat, reply.subscriberId = (id : Int) → id ∉ (s.subscribers file.serverFileId).ids) →
      StreamsStep s (.answer sender reply .invalid) (s.handle sender none)
  | expired {id : Nat} : s.handling sender = some (.found file reply) → reply.subscriberId = (id : Int) →
      s.subscribers file.serverFileId = ⟨counter, available, ids⟩ → id ∈ ids →
      s.alive (file.serverFileId, id) = false →
      StreamsStep s (.answer sender reply .invalid)
        ((s.handle sender none).setSubscribers file.serverFileId ⟨counter, available, ids.erase id⟩)
  | lookup {id : Nat} : s.handling sender = some (.found file reply) → reply.subscriberId = (id : Int) →
      id ∈ (s.subscribers file.serverFileId).ids → s.alive (file.serverFileId, id) = true →
      StreamsStep s (.found sender)
        ((s.handle sender (some (.providing (file.serverFileId, id) reply))).pin
          [(file.serverFileId, id)])
  | provide : s.handling sender = some (.providing key reply) → s.streams key = some stream →
      stream.locked = none →
      stream.subscriber.provideFileChunk reply.requestId reply.position reply.size (some reply.data) =
        (after, result) →
      StreamsStep s (.answer sender reply result)
        ((s.handle sender none).setStream key (stream.provide after sender reply result))
  -- clearSubscribers
  | clear : s.withdrawn = front ++ file :: back →
      s.subscribers file.serverFileId = ⟨counter, available, ids⟩ →
      StreamsStep s .internal
        (({ s with withdrawn := front ++ back
                   invalidating := s.invalidating ++ s.live file }.pin (s.live file)).setSubscribers
          file.serverFileId ⟨counter, false, []⟩)
  | cancel : s.invalidating = front ++ key :: back → s.streams key = some stream →
      stream.locked = none →
      StreamsStep s .internal
        ({ s with invalidating := front ++ back }.setStream key
          { stream with subscriber := stream.subscriber.invalidate
                        references := stream.references - 1 })
  -- the transport of a peer; its handler and a change of binding exclude each other
  | bind : s.index.peers host = some peer → s.destroyed host = false → s.handling host = none →
      peer.replaceSocket socket now = (next, previous) →
      StreamsStep s .internal ((s.setPeer host next).setScan (host, next.socketGeneration) .bound)
  | detach : s.index.peers host = some peer → s.handling host = none →
      peer.detachIfCurrent socket = (next, known) → StreamsStep s .internal (s.setPeer host next)
  | invalidate : s.index.peers host = some peer →
      StreamsStep s .internal (s.invalidate host peer generation reason)
  | post : s.index.peers host = some peer → frame.payload.code ≠ some .fileRequestChunk →
      StreamsStep s .internal (s.post size host peer frame)
  | take : s.index.peers host = some peer → peer.takeOutboundFrame size = (next, frame) →
      StreamsStep s (.take host frame) (s.setPeer host next)
  | destroy : s.index.peers host = some peer → peer.socket = none → s.handling host = none →
      (∀ generation, s.scans (host, generation) = .done) →
      StreamsStep s .internal { s with destroyed := Function.update s.destroyed host true }
  -- reissueOutstandingFileRequests, left out when the file capability has changed
  | changed : s.scans (host, generation) = .bound →
      StreamsStep s (.changed host) (s.setScan (host, generation) .done)
  | snapshot : s.scans (host, generation) = .bound → s.index.peers host = some peer →
      StreamsStep s .internal (s.setScan (host, generation) (.files peer.getFilesSnapshot))
  | file : s.scans binding = .files (file :: rest) →
      s.subscribers file.serverFileId = ⟨counter, available, ids⟩ →
      StreamsStep s .internal
        (((s.pin (s.live file)).setSubscribers file.serverFileId
          ⟨counter, available, (s.live file).map (·.2)⟩).setScan binding
            (.visiting (s.live file) rest))
  | skip : s.scans binding = .visiting (key :: keys) rest → s.streams key = some stream →
      stream.locked = none →
      (stream.subscriber.valid = false ∨ stream.subscriber.request.outstanding = false) →
      StreamsStep s .internal (s.release key stream stream.subscriber (some binding))
  | reissue : s.scans binding = .visiting (key :: keys) rest → s.streams key = some stream →
      stream.locked = none → stream.subscriber.valid = true →
      stream.subscriber.request.outstanding = true →
      stream.subscriber.requestChunk stream.file (s.hosted stream.file.host)
        stream.subscriber.request.size = (after, request) →
      StreamsStep s .internal (s.ask key stream after (some binding) request)
  | visited : s.scans binding = .visiting [] rest →
      StreamsStep s .internal (s.setScan binding (.files rest))
  | finish : s.scans binding = .files [] → StreamsStep s .internal (s.setScan binding .done)

/-- All runs of the downloads of one room. -/
def streams : Machine Streams StreamsLabel where
  init s := ∃ name, s = { index := { room := { name } } }
  step := StreamsStep decode size

end Conspire.Files
