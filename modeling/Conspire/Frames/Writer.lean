import Conspire.Library.Json
import Conspire.Server.Dto
import Mathlib.Algebra.GroupWithZero.Nat

/-! The frames the server writes (`ObjectMapper::writeToString`): the tree of a DTO
(`ObjectToTreeMapper`, without null fields and null elements), the escapes of its strings
(`json/Utils.cpp` with `FLAG_ESCAPE_ALL`) and the JSON text of the tree (`json/Serializer.cpp`). -/
namespace Conspire.Frames

section Strings

/-- `Unicode::getUtf8CharSequenceLength`. -/
def getUtf8CharSequenceLength (firstByte : UInt8) : Nat :=
  if firstByte < 128 then 1
  else if firstByte ||| 192 ≠ firstByte then 0
  else if firstByte ||| 32 ≠ firstByte then 2
  else if firstByte ||| 16 ≠ firstByte then 3
  else if firstByte ||| 8 ≠ firstByte then 4
  else if firstByte ||| 4 ≠ firstByte then 5
  else if firstByte ||| 2 ≠ firstByte then 6
  else 0

/-- `Unicode::encodeUtf8Char` of a sequence of two to six bytes: the low bits of its bytes. -/
def encodeUtf8Char : Bytes → Nat
  | [a, b] => a.toNat % 32 * 64 + b.toNat % 64
  | [a, b, c] => (a.toNat % 16 * 64 + b.toNat % 64) * 64 + c.toNat % 64
  | [a, b, c, d] => ((a.toNat % 8 * 64 + b.toNat % 64) * 64 + c.toNat % 64) * 64 + d.toNat % 64
  | [a, b, c, d, e] =>
    (((a.toNat % 4 * 64 + b.toNat % 64) * 64 + c.toNat % 64) * 64 + d.toNat % 64) * 64 + e.toNat % 64
  | [a, b, c, d, e, f] =>
    ((((a.toNat % 2 * 64 + b.toNat % 64) * 64 + c.toNat % 64) * 64 + d.toNat % 64) * 64 + e.toNat % 64) * 64 +
      f.toNat % 64
  | _ => 0

def hexDigit (nibble : Nat) : UInt8 := (ascii "0123456789ABCDEF").getD nibble 0

/-- `Hex::writeUInt16`. -/
def writeUInt16 (value : Nat) : Bytes :=
  [hexDigit (value / 4096 % 16), hexDigit (value / 256 % 16), hexDigit (value / 16 % 16), hexDigit (value % 16)]

/-- `Unicode::codeToUtf16SurrogatePair`. -/
def codeToUtf16SurrogatePair (code : Nat) : Nat × Nat :=
  (0xD800 + (code - 0x10000) / 1024 % 1024, 0xDC00 + (code - 0x10000) % 1024)

def unicodeEscape (value : Nat) : Bytes := 0x5c :: 0x75 :: writeUInt16 value

/-- `escapeUtf8Char`. The eight digits of a larger code overwrite the plus sign, and the last of
its eleven bytes stays zero. -/
def escapeUtf8Char (chunk : Bytes) : Bytes :=
  let code := encodeUtf8Char chunk
  if code < 0x10000 then unicodeEscape code
  else if code < 0x200000 then
    let (high, low) := codeToUtf16SurrogatePair code
    unicodeEscape high ++ unicodeEscape low
  else unicodeEscape (code / 0x10000) ++ writeUInt16 (code % 0x10000) ++ [0]

def escapeUtf8CharSize (chunk : Bytes) : Nat :=
  let code := encodeUtf8Char chunk
  if code < 0x10000 then 6 else if code < 0x200000 then 12 else 11

/-- The parts of a string that the loops of `calcEscapedStringSize` and `escapeString` take one at a
time: a byte, or as many as the first announces. The last part may have fewer. -/
def chunks : Bytes → List Bytes
  | [] => []
  | a :: rest =>
    (a :: rest.take (getUtf8CharSequenceLength a - 1)) :: chunks (rest.drop (getUtf8CharSequenceLength a - 1))
termination_by data => data.length
decreasing_by simp only [List.length_drop, List.length_cons]; omega

/-- The control characters with a letter of their own. -/
def controlLetter (a : UInt8) : Option UInt8 :=
  if a = 0x08 then some 'b'.toUInt8
  else if a = 0x0c then some 'f'.toUInt8
  else if a = 0x0a then some 'n'.toUInt8
  else if a = 0x0d then some 'r'.toUInt8
  else if a = 0x09 then some 't'.toUInt8
  else none

/-- Quote, backslash and solidus. -/
def isMarked (a : UInt8) : Bool := a = 0x22 || a = 0x5c || a = 0x2f

/-- What a part adds in `calcEscapedStringSize`. -/
def chunkSize (chunk : Bytes) : Nat :=
  match chunk with
  | [] => 0
  | a :: _ =>
    if a < 32 then if (controlLetter a).isSome then 2 else 6
    else if a < 128 then if isMarked a then 2 else 1
    else if getUtf8CharSequenceLength a = 0 then 1
    else if chunk.length < getUtf8CharSequenceLength a then getUtf8CharSequenceLength a
    else escapeUtf8CharSize chunk

/-- What `escapeString` writes for a part; one that is cut off is filled up. -/
def escapeChunk (chunk : Bytes) : Bytes :=
  match chunk with
  | [] => []
  | a :: _ =>
    if a < 32 then
      match controlLetter a with
      | some letter => [0x5c, letter]
      | none => unicodeEscape a.toNat
    else if a < 128 then if isMarked a then [0x5c, a] else [a]
    else if getUtf8CharSequenceLength a = 0 then [a]
    else if chunk.length < getUtf8CharSequenceLength a then
      List.replicate (getUtf8CharSequenceLength a) '?'.toUInt8
    else escapeUtf8Char chunk

def escapedSize (data : Bytes) : Nat := ((chunks data).map chunkSize).sum

/-- `Utils::escapeString`. A string that would not grow is left as it is. -/
def escapeString (data : Bytes) : Bytes :=
  if escapedSize data = data.length then data else (chunks data).flatMap escapeChunk

end Strings

section Trees

/-- The nodes of `data::mapping::Tree` that a frame has. -/
inductive Tree where
  | integer (value : Int)
  | bool (value : Bool)
  | string (value : Bytes)
  | vector (items : List Tree)
  | map (fields : List (Bytes × Tree))

def serializeString (data : Bytes) : Bytes := 0x22 :: escapeString data ++ [0x22]

def serializeInteger (value : Int) : Bytes := (Json.decimal value).map UInt8.ofNat

mutual

def Tree.serialize : Tree → Bytes
  | .integer value => serializeInteger value
  | .bool value => if value then ascii "true" else ascii "false"
  | .string value => serializeString value
  | .vector items => 0x5b :: serializeArray items ++ [0x5d]
  | .map fields => 0x7b :: serializeMap fields ++ [0x7d]

def serializeArray : List Tree → Bytes
  | [] => []
  | [item] => item.serialize
  | item :: next :: rest => item.serialize ++ 0x2c :: serializeArray (next :: rest)

def serializeMap : List (Bytes × Tree) → Bytes
  | [] => []
  | [(key, node)] => serializeString key ++ 0x3a :: node.serialize
  | (key, node) :: next :: rest =>
    serializeString key ++ 0x3a :: node.serialize ++ 0x2c :: serializeMap (next :: rest)

end

end Trees

section Objects

/-- The fields that are not null, in the order of the DTO. -/
def present (fields : List (String × Option Tree)) : List (Bytes × Tree) :=
  fields.filterMap fun (name, value) => value.map (ascii name, ·)

def object (fields : List (String × Option Tree)) : Tree := .map (present fields)

def natural (value : Nat) : Tree := .integer value

def peerTree (peer : PeerDto) : Tree :=
  object [("peerId", peer.peerId.map .integer), ("peerName", peer.peerName.map .string)]

def fileTree (file : FileDto) : Tree :=
  object [("clientFileId", file.clientFileId.map .integer), ("serverFileId", file.serverFileId.map .integer),
    ("name", file.name.map .string), ("size", file.size.map .integer), ("mediaType", file.mediaType.map .string),
    ("chunkPosition", file.chunkPosition.map .integer), ("chunkSize", file.chunkSize.map .integer),
    ("subscriberId", file.subscriberId.map .integer), ("chunkRequestId", file.chunkRequestId.map natural),
    ("available", file.available.map .bool), ("data", file.data.map .string)]

/-- The elements of a list that are not null. -/
def vector (tree : α → Tree) (list : List (Option α)) : Tree := .vector (list.reduceOption.map tree)

mutual

def messageTree : MessageDto → Tree
  | ⟨peerId, peerName, code, message, timestamp, serverSeq, lastServerSeq, latestServerSeq, protocolVersion,
      resumeToken, fileCapabilityId, clientMessageId, resumed, resyncRequired, connected, peers, history, files⟩ =>
    object [("peerId", peerId.map .integer), ("peerName", peerName.map .string),
      ("code", code.map fun code => natural code.value), ("message", message.map .string),
      ("timestamp", timestamp.map .integer), ("serverSeq", serverSeq.map natural),
      ("lastServerSeq", lastServerSeq.map natural), ("latestServerSeq", latestServerSeq.map natural),
      ("protocolVersion", protocolVersion.map .integer), ("resumeToken", resumeToken.map .string),
      ("fileCapabilityId", fileCapabilityId.map .string), ("clientMessageId", clientMessageId.map .string),
      ("resumed", resumed.map .bool), ("resyncRequired", resyncRequired.map .bool),
      ("connected", connected.map .bool), ("peers", peers.map (vector peerTree)),
      ("history", historyTree history), ("files", files.map (vector fileTree))]

def historyTree : Option (List (Option MessageDto)) → Option Tree
  | none => none
  | some history => some (.vector (messageTrees history))

def messageTrees : List (Option MessageDto) → List Tree
  | [] => []
  | none :: rest => messageTrees rest
  | some message :: rest => messageTree message :: messageTrees rest

end

/-- `writeToString`. -/
def writeToString (message : MessageDto) : Bytes := (messageTree message).serialize

end Objects

end Conspire.Frames
