import Conspire.Library.Json
import Conspire.Server.Dto
import Mathlib.Algebra.Group.Int.Defs

/-! The server's reader (`ObjectMapper::readFromString`): the JSON text of a message (`json/Deserializer.cpp`,
`json/Utils.cpp`, `parser/Caret.cpp`) as a tree, and the DTO of the tree (`TreeToObjectMapper`). The
bytes at the caret are taken as numbers. Whatever the reader reports or throws is `none`; an error of
the caret lets no object end. -/
namespace Conspire.Frames
open Json (hexValue isDigit Numeral)

section Strings

/-- `preparseString` behind the quote: the string up to the next quote that no backslash stands before. -/
def preparseString : List Nat → Option (List Nat × List Nat)
  | [] => none
  | unit :: rest =>
    if unit = Json.quote then some ([], rest)
    else if unit = Json.backslash then
      match rest with
      | [] => none
      | next :: rest => (preparseString rest).map fun (text, rest) => (unit :: next :: text, rest)
    else (preparseString rest).map fun (text, rest) => (unit :: text, rest)

/-- `Hex::readUInt16` and `Hex::readUInt32`. -/
def readHex (digits : List Nat) : Option Nat :=
  (digits.mapM hexValue).map fun values => values.foldl (fun n value => 16 * n + value) 0

/-- `Unicode::decodeUtf8Char`. The sixth byte of the largest codes has no mark. -/
def decodeUtf8Char (code : Nat) : List Nat :=
  if code < 0x80 then [code]
  else if code < 0x800 then [0xC0 + code / 64 % 32, 0x80 + code % 64]
  else if code < 0x10000 then [0xE0 + code / 4096 % 16, 0x80 + code / 64 % 64, 0x80 + code % 64]
  else if code < 0x200000 then
    [0xF0 + code / 262144 % 8, 0x80 + code / 4096 % 64, 0x80 + code / 64 % 64, 0x80 + code % 64]
  else if code < 0x4000000 then
    [0xF8 + code / 16777216 % 4, 0x80 + code / 262144 % 64, 0x80 + code / 4096 % 64, 0x80 + code / 64 % 64,
      0x80 + code % 64]
  else
    [0xFC + code / 1073741824 % 2, 0x80 + code / 16777216 % 64, 0x80 + code / 262144 % 64, 0x80 + code / 4096 % 64,
      0x80 + code / 64 % 64, code % 64]

def utf16SurrogatePairToCode (high low : Nat) : Nat := (high - 0xD800) * 1024 + (low - 0xDC00) + 0x10000

/-- The character behind a backslash and its letter. -/
def escapedLetter (letter : Nat) : Option Nat := Json.letterEscape letter

/-- `unescapeString`. Of a low surrogate only the four digits are looked at. -/
def unescapeString : List Nat → Option (List Nat)
  | [] => some []
  | unit :: rest =>
    if unit = Json.backslash then
      match rest with
      | 0x75 :: 0x2b :: a :: b :: c :: d :: e :: f :: g :: h :: rest => do
        let code ← readHex [a, b, c, d, e, f, g, h]
        let rest ← unescapeString rest
        some (decodeUtf8Char code ++ rest)
      | 0x75 :: 0x2b :: _ => none
      | 0x75 :: a :: b :: c :: d :: rest => do
        let code ← readHex [a, b, c, d]
        if 0xD800 ≤ code ∧ code ≤ 0xDBFF then
          match rest with
          | _ :: _ :: a :: b :: c :: d :: rest => do
            let low ← readHex [a, b, c, d]
            if 0xDC00 ≤ low ∧ low ≤ 0xDFFF then do
              let rest ← unescapeString rest
              some (decodeUtf8Char (utf16SurrogatePairToCode code low) ++ rest)
            else none
          | _ => none
        else do
          let rest ← unescapeString rest
          some (decodeUtf8Char code ++ rest)
      | letter :: rest => do
        let character ← escapedLetter letter
        let rest ← unescapeString rest
        some (character :: rest)
      | [] => none
    else (unescapeString rest).map (unit :: ·)

/-- `parseString` behind the quote. -/
def parseString (s : List Nat) : Option (Bytes × List Nat) := do
  let (text, rest) ← preparseString s
  let text ← unescapeString text
  some (text.map UInt8.ofNat, rest)

end Strings

section Nodes

/-- The nodes of the tree that is read. -/
inductive Node where
  | null
  | integer (value : Int)
  | float (value : Numeral)
  | bool (value : Bool)
  | string (value : Bytes)
  | vector (items : List Node)
  | map (fields : List (Bytes × Node))

def isBlank (unit : Nat) : Bool := unit = 0x20 || unit = 0x09 || unit = 0x0a || unit = 0x0d || unit = 0x0c

def skipBlankChars (s : List Nat) : List Nat := s.dropWhile isBlank

/-- `canContinueAtChar` for a character that may be left out. -/
def skipChar (character : Nat) (s : List Nat) : List Nat :=
  if s.head? = some character then s.tail else s

/-- `findDecimalSeparatorInCurrentNumber`. -/
def findDecimalSeparator (s : List Nat) : Bool :=
  (s.dropWhile fun unit => isDigit unit || unit = Json.minus).head? = some 0x2e

/-- `strtoll` at a digit or a minus. -/
def parseInt (s : List Nat) : Option (Int × List Nat) :=
  let negative := s.head? = some Json.minus
  let s := skipChar Json.minus s
  let run := s.takeWhile isDigit
  if run = [] then none
  else
    let value : Int := Json.natural run
    some (if negative then max (-value) (-2 ^ 63) else min value (2 ^ 63 - 1), s.dropWhile isDigit)

/-- The exponent of `strtod`, which takes none without digits. -/
def parseExponent (s : List Nat) : Int × List Nat :=
  match Json.readExponent s with
  | some (exponent, rest) => (exponent, rest)
  | none => (0, s)

/-- `strtod` at a digit or a minus, for a number with a decimal separator somewhere ahead. -/
def parseFloat64 (s : List Nat) : Option (Numeral × List Nat) :=
  let negative := s.head? = some Json.minus
  let s := skipChar Json.minus s
  let whole := s.takeWhile isDigit
  let (fraction, rest) :=
    match s.dropWhile isDigit with
    | 0x2e :: rest => (rest.takeWhile isDigit, rest.dropWhile isDigit)
    | rest => ([], rest)
  if whole ++ fraction = [] then none
  else
    let (exponent, rest) := parseExponent rest
    some (⟨negative, Json.natural (whole ++ fraction), exponent - fraction.length⟩, rest)

def deserializeNumber (s : List Nat) : Option (Node × List Nat) :=
  if findDecimalSeparator s then (parseFloat64 s).map fun (value, rest) => (.float value, rest)
  else (parseInt s).map fun (value, rest) => (.integer value, rest)

/-- `isAtText`, for the names, which begin differently. -/
def deserializeName (s : List Nat) : Option (Node × List Nat) :=
  if (Json.units "null").isPrefixOf s then some (.null, s.drop 4)
  else if (Json.units "true").isPrefixOf s then some (.bool true, s.drop 4)
  else if (Json.units "false").isPrefixOf s then some (.bool false, s.drop 5)
  else none

/-- `TreeMap::operator[]`: a key keeps its first place and its last node. -/
def assign (fields : List (Bytes × Node)) (key : Bytes) (node : Node) : List (Bytes × Node) :=
  if fields.any (·.1 = key) then fields.map fun field => if field.1 = key then (key, node) else field
  else fields ++ [(key, node)]

mutual

def deserialize : (fuel : Nat) → List Nat → Option (Node × List Nat)
  | 0, _ => none
  | fuel + 1, s =>
    match skipBlankChars s with
    | [] => none
    | unit :: rest =>
      if unit = Json.openBrace then
        (deserializeMap fuel (skipBlankChars rest) []).map fun (fields, rest) => (.map fields, rest)
      else if unit = Json.openBracket then
        (deserializeArray fuel (skipBlankChars rest)).map fun (items, rest) => (.vector items, rest)
      else if unit = Json.quote then (parseString rest).map fun (text, rest) => (.string text, rest)
      else if unit = Json.minus ∨ isDigit unit then deserializeNumber (unit :: rest)
      else deserializeName (unit :: rest)

/-- The loop of `deserializeArray`; the comma behind an element may be missing. -/
def deserializeArray : (fuel : Nat) → List Nat → Option (List Node × List Nat)
  | 0, _ => none
  | fuel + 1, s =>
    match s with
    | [] => none
    | unit :: rest =>
      if unit = Json.closeBracket then some ([], rest)
      else do
        let (item, rest) ← deserialize fuel (unit :: rest)
        let (items, rest) ← deserializeArray fuel (skipChar Json.comma (skipBlankChars rest))
        some (item :: items, rest)

/-- The loop of `deserializeMap`, with the fields so far. -/
def deserializeMap : (fuel : Nat) → List Nat → List (Bytes × Node) → Option (List (Bytes × Node) × List Nat)
  | 0, _, _ => none
  | fuel + 1, s, fields =>
    match s with
    | [] => none
    | unit :: rest =>
      if unit = Json.closeBrace then some (fields, rest)
      else
        match skipBlankChars (unit :: rest) with
        | [] => none
        | unit :: rest =>
          if unit = Json.quote then do
            let (key, rest) ← parseString rest
            if (skipBlankChars rest).head? = some Json.colon then do
              let (node, rest) ← deserialize fuel (skipBlankChars rest).tail
              deserializeMap fuel (skipChar Json.comma (skipBlankChars rest)) (assign fields key node)
            else none
          else none

end

end Nodes

section Objects
variable (cast : Numeral → Int)

/-- `cast` is what a double becomes in the conversion to an integer type, which is undefined where it
does not fit. -/
def readInt64 : Node → Option (Option Int)
  | .null => some none
  | .integer value => some (some value)
  | .float value => some (some (cast value))
  | .bool value => some (some (if value then 1 else 0))
  | _ => none

def readUInt64 (node : Node) : Option (Option Nat) :=
  (readInt64 cast node).map fun value => value.map fun value => (value % 2 ^ 64).toNat

def readInt32 (node : Node) : Option (Option Int) :=
  (readInt64 cast node).map fun value => value.map fun value => value.bmod (2 ^ 32)

def readBoolean : Node → Option (Option Bool)
  | .null => some none
  | .integer value => some (some (value ≠ 0))
  | .float value => some (some (value.double ≠ 0))
  | .bool value => some (some value)
  | _ => none

def readString : Node → Option (Option Bytes)
  | .null => some none
  | .string value => some (some value)
  | _ => none

/-- The codes that `Enum<MessageCodes>` lists. -/
def allCodes : List MessageCodes :=
  [.info, .peerJoined, .peerLeft, .peerMessage, .peerMessageFile, .peerIsTyping, .fileShare, .fileRequestChunk,
    .fileChunkData, .apiError, .sessionHello, .sessionReady, .messageAck, .peerConnectionState]

/-- `AsNumber::NotNull`: neither null nor a number without an entry. -/
def readCode (node : Node) : Option MessageCodes := do
  let value ← (← readInt32 cast node)
  allCodes.find? fun code => (code.value : Int) = value

/-- The fields of an object. A vector has none to give, so only the empty one passes. -/
def readObject (set : α → Bytes → Node → Option α) (empty : α) : Node → Option (Option α)
  | .null => some none
  | .vector [] => some (some empty)
  | .map fields => (fields.foldlM (fun object (key, node) => set object key node) empty).map some
  | _ => none

/-- The elements of a list, which a map may give too. -/
def readList (read : Node → Option (Option α)) : Node → Option (Option (List (Option α)))
  | .null => some none
  | .vector items => (items.mapM read).map some
  | .map fields => (fields.mapM fun field => read field.2).map some
  | _ => none

def setPeerField (peer : PeerDto) (key : Bytes) (node : Node) : Option PeerDto :=
  if key = ascii "peerId" then do some { peer with peerId := ← readInt64 cast node }
  else if key = ascii "peerName" then do some { peer with peerName := ← readString node }
  else some peer

def setFileField (file : FileDto) (key : Bytes) (node : Node) : Option FileDto :=
  if key = ascii "clientFileId" then do some { file with clientFileId := ← readInt64 cast node }
  else if key = ascii "serverFileId" then do some { file with serverFileId := ← readInt64 cast node }
  else if key = ascii "name" then do some { file with name := ← readString node }
  else if key = ascii "size" then do some { file with size := ← readInt64 cast node }
  else if key = ascii "mediaType" then do some { file with mediaType := ← readString node }
  else if key = ascii "chunkPosition" then do some { file with chunkPosition := ← readInt64 cast node }
  else if key = ascii "chunkSize" then do some { file with chunkSize := ← readInt64 cast node }
  else if key = ascii "subscriberId" then do some { file with subscriberId := ← readInt64 cast node }
  else if key = ascii "chunkRequestId" then do some { file with chunkRequestId := ← readUInt64 cast node }
  else if key = ascii "available" then do some { file with available := ← readBoolean node }
  else if key = ascii "data" then do some { file with data := ← readString node }
  else some file

/-- The fields of a message but its history. -/
def setMessageField (message : MessageDto) (key : Bytes) (node : Node) : Option MessageDto :=
  if key = ascii "peerId" then do some { message with peerId := ← readInt64 cast node }
  else if key = ascii "peerName" then do some { message with peerName := ← readString node }
  else if key = ascii "code" then do some { message with code := some (← readCode cast node) }
  else if key = ascii "message" then do some { message with message := ← readString node }
  else if key = ascii "timestamp" then do some { message with timestamp := ← readInt64 cast node }
  else if key = ascii "serverSeq" then do some { message with serverSeq := ← readUInt64 cast node }
  else if key = ascii "lastServerSeq" then do some { message with lastServerSeq := ← readUInt64 cast node }
  else if key = ascii "latestServerSeq" then do some { message with latestServerSeq := ← readUInt64 cast node }
  else if key = ascii "protocolVersion" then do some { message with protocolVersion := ← readInt32 cast node }
  else if key = ascii "resumeToken" then do some { message with resumeToken := ← readString node }
  else if key = ascii "fileCapabilityId" then do some { message with fileCapabilityId := ← readString node }
  else if key = ascii "clientMessageId" then do some { message with clientMessageId := ← readString node }
  else if key = ascii "resumed" then do some { message with resumed := ← readBoolean node }
  else if key = ascii "resyncRequired" then do some { message with resyncRequired := ← readBoolean node }
  else if key = ascii "connected" then do some { message with connected := ← readBoolean node }
  else if key = ascii "peers" then do
    some { message with peers := ← readList (readObject (setPeerField cast) {}) node }
  else if key = ascii "files" then do
    some { message with files := ← readList (readObject (setFileField cast) {}) node }
  else some message

mutual

def readMessage : Node → Option (Option MessageDto)
  | .null => some none
  | .vector [] => some (some {})
  | .map fields => (readMessageFields fields {}).map some
  | _ => none

def readMessageFields : List (Bytes × Node) → MessageDto → Option MessageDto
  | [], message => some message
  | (key, node) :: rest, message =>
    if key = ascii "history" then do
      let history ← readHistory node
      readMessageFields rest { message with history }
    else do
      let message ← setMessageField cast message key node
      readMessageFields rest message

def readHistory : Node → Option (Option (List (Option MessageDto)))
  | .null => some none
  | .vector items => (readMessages items).map some
  | .map fields => (readHistoryFields fields).map some
  | _ => none

def readMessages : List Node → Option (List (Option MessageDto))
  | [] => some []
  | item :: rest => do
    let message ← readMessage item
    let rest ← readMessages rest
    some (message :: rest)

def readHistoryFields : List (Bytes × Node) → Option (List (Option MessageDto))
  | [] => some []
  | (_, node) :: rest => do
    let message ← readMessage node
    let rest ← readHistoryFields rest
    some (message :: rest)

end

/-- `readFromString`; `none` is the exception. What is behind the value is not looked at. -/
def readFromString (data : Bytes) : Option (Option MessageDto) := do
  let (node, _) ← deserialize data.length (data.map UInt8.toNat)
  readMessage cast node

end Objects

end Conspire.Frames
