import Conspire.Server.Room

/-! The command handlers of a session (`Peer::handleMessage`,
`Peer::handleFilesMessage`) up to their locks: the checks with the errors they
answer, and the messages they build. -/
namespace Conspire
open Session Boundaries

/-- `readMessage` fills in what the server knows. -/
def Peer.stamp (peer : Peer) (message : MessageDto) (timestamp : Int) : MessageDto :=
  { message with peerName := some peer.nickname, peerId := some peer.peerId
                 timestamp := some timestamp }

/-- The message of `onApiError`, which closes the transport after it. -/
def apiError (text : Bytes) (clientMessageId : Option Bytes) : MessageDto :=
  { code := some .apiError, message := some text, clientMessageId }

def messageAck (clientMessageId : Bytes) (serverSeq : Nat) : MessageDto :=
  { code := some .messageAck, clientMessageId := some clientMessageId, serverSeq := some serverSeq }

def capacityError (message : MessageDto) : MessageDto :=
  apiError (ascii "Retryable command capacity reached.") message.clientMessageId

def fileLimitError (message : MessageDto) : MessageDto :=
  apiError (ascii "File limit reached.") message.clientMessageId

/-- The checks of a PEER_MESSAGE. -/
def checkPeerMessage (message : MessageDto) : Option MessageDto :=
  if !message.message.any validMessageContent then
    some (apiError (ascii "Invalid message content.") message.clientMessageId)
  else if !message.clientMessageId.any validClientMessageId then
    some (apiError (ascii "Invalid client message id.") none)
  else none

def validDescriptor (file : Option FileDto) : Bool :=
  match file with
  | some { clientFileId := some _, name := some name, size := some size, .. } =>
    validFileDescriptor name size
  | _ => false

/-- The checks of a FILE_SHARE. -/
def checkFilesMessage (message : MessageDto) : Option MessageDto :=
  if !message.clientMessageId.any validClientMessageId then
    some (apiError (ascii "Invalid client message id.") none)
  else
    let files := message.files.getD []
    if files.isEmpty || Limits.filesPerMessage < files.length then
      some (apiError (ascii "Invalid files list.") message.clientMessageId)
    else if !files.all validDescriptor then
      some (apiError (ascii "Invalid file descriptor.") message.clientMessageId)
    else none

/-- The constructor drops a media type it does not know. -/
def File.create (host : PeerId) (serverFileId : Nat) (descriptor : FileDto) : File :=
  { host, serverFileId, clientFileId := descriptor.clientFileId.getD 0
    fileName := descriptor.name.getD [], fileSize := descriptor.size.getD 0
    mediaType := descriptor.mediaType.filter validImageMediaType }

/-- `shareFiles` under `m_fileMutationLock`; `none` is the empty result. Ids come
from a counter, so the index never holds one of them before. -/
def Room.shareFiles (room : Room) (host : Peer) (descriptors : List FileDto) :
    Option (Room × Peer × List File) :=
  if host.peerId ∉ room.peerById ||
      !hasCapacityFor host.files.length descriptors.length Limits.filesPerPeer then none
  else
    let files := descriptors.mapIdx fun index descriptor =>
      File.create host.peerId (room.fileIdCounter + index) descriptor
    some ({ room with fileIdCounter := room.fileIdCounter + descriptors.length
                      fileById := room.fileById ++ files.map fun file => (file.serverFileId, file) },
      host.addFiles files, files)

/-- What a registration changes. -/
theorem Room.shareFiles_eq_some {room after : Room} {host : Peer}
    (shared : room.shareFiles host descriptors = some (after, next, files)) :
    next = host.addFiles files ∧ after.sequencer = room.sequencer ∧ after.history = room.history := by
  simp only [Room.shareFiles] at shared
  split at shared
  · contradiction
  · cases shared
    exact ⟨rfl, rfl, rfl⟩

def sharedFile (file : File) : FileDto :=
  { serverFileId := some file.serverFileId, name := some file.fileName
    size := some file.fileSize, mediaType := file.mediaType }

/-- The announcement of shared files, without its sequence. -/
def fileMessage (peer : Peer) (timestamp : Int) (files : List File) : MessageDto :=
  { code := some .peerMessageFile, peerId := some peer.peerId, peerName := some peer.nickname
    timestamp := some timestamp, files := some (files.map fun file => some (sharedFile file)) }

/-- The first step of both handlers. -/
def checkCommand (message : MessageDto) : Option MessageDto :=
  if message.code = some .fileShare then checkFilesMessage message else checkPeerMessage message

theorem checkCommand_id (checked : checkCommand message = none) :
    ∃ id, message.clientMessageId = some id ∧ validClientMessageId id = true := by
  have known : message.clientMessageId.any validClientMessageId = true := by
    unfold checkCommand checkFilesMessage checkPeerMessage at checked
    split at checked
    · split at checked
      · contradiction
      · rename_i valid
        simpa using valid
    · split at checked
      · contradiction
      · split at checked
        · contradiction
        · rename_i valid
          simpa using valid
  cases id : message.clientMessageId with
  | none => simp [id] at known
  | some id' => exact ⟨id', rfl, by simpa [id] using known⟩

end Conspire
