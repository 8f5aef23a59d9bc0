import Conspire.Browser.Reliability
import Conspire.Server.SessionCredentials

/-! What the browser queues (`submitMessage` and `handleFiles` of `chat/chat.js`, `randomId` of
`chat/reliability.js`). -/
namespace Conspire.Browser

/-- `btoa` of the sixteen bytes in the alphabet of URLs, without padding. -/
def randomId (random : Vector UInt8 16) : Bytes := Session.base64Url random.toList

/-- What `\s` matches. -/
def isSpace (unit : UInt16) : Bool :=
  (0x09 ≤ unit && unit ≤ 0x0d) || unit = 0x20 || unit = 0xa0 || unit = 0x1680 || (0x2000 ≤ unit && unit ≤ 0x200a) ||
    unit = 0x2028 || unit = 0x2029 || unit = 0x202f || unit = 0x205f || unit = 0x3000 || unit = 0xfeff

/-- The `maxlength` of the text area. -/
def maxTextLength : Nat := 4096

/-- The command that is queued for a text with something to read in it. -/
def submitMessage (outgoingMessage : JsString) (random : Vector UInt8 16) : Option Command :=
  if outgoingMessage.all isSpace then none
  else some { code := .peerMessage, message := some outgoingMessage, clientMessageId := randomId random }

def isHighSurrogate (unit : UInt16) : Bool := 0xD800 ≤ unit && unit ≤ 0xDBFF

def isLowSurrogate (unit : UInt16) : Bool := 0xDC00 ≤ unit && unit ≤ 0xDFFF

/-- `new TextEncoder().encode(text).length`; half a pair becomes a character of three bytes. -/
def encodedLength : JsString → Nat
  | [] => 0
  | [unit] => unitLength unit
  | high :: low :: rest =>
    if isHighSurrogate high && isLowSurrogate low then 4 + encodedLength rest
    else unitLength high + encodedLength (low :: rest)
where
  unitLength (unit : UInt16) : Nat := if unit < 0x80 then 1 else if unit < 0x800 then 2 else 3

def maxFilesPerMessage : Nat := 16
def maxFileBytes : Int := 100 * 1024 * 1024

/-- A `File` of the browser. -/
structure Selected where
  name : JsString
  size : JsNumber
  type : JsString

def isControl (unit : UInt16) : Bool := unit ≤ 0x1f || unit = 0x7f

/-- The tests on a selected file. -/
def isValid (file : Selected) : Bool :=
  match file.size with
  | none => false
  | some size =>
    !file.name.isEmpty && encodedLength file.name ≤ 255 && !file.name.any isControl && isSafeInteger (some size) &&
      0 ≤ size && size ≤ maxFileBytes

def jsString (literal : String) : JsString := literal.toList.map fun c => UInt16.ofNat c.toNat

def imageMediaTypes : List JsString := [jsString "image/jpeg", jsString "image/png", jsString "image/webp"]

def imageCandidateMediaType (value : JsString) : Option JsString :=
  if value.length ≤ 32 && value.all (· ≤ 0x7f) && imageMediaTypes.contains value then some value else none

/-- The command that is queued for the selected files, of which `nextFileId` numbers the first. -/
def handleFiles (selected : List Selected) (nextFileId : Nat) (random : Vector UInt8 16) : Option Command :=
  if selected.isEmpty || maxFilesPerMessage < selected.length || !selected.all isValid then none
  else
    let files := selected.mapIdx fun index file =>
      { name := file.name, clientFileId := nextFileId + index, size := (file.size.getD 0).toNat
        mediaType := imageCandidateMediaType file.type : JsFile }
    some { code := .fileShare, files := some files, clientMessageId := randomId random }

/-- What the browser can queue. -/
inductive Queued : Command → Prop where
  | message {text : JsString} : text.length ≤ maxTextLength → submitMessage text random = some command →
      Queued command
  | files {selected : List Selected} : handleFiles selected nextFileId random = some command → Queued command

theorem randomId_valid (random : Vector UInt8 16) : Session.validClientMessageId (randomId random) = true := by
  have valid : Session.validBase64UrlId (randomId random) 16 = true := by
    rw [randomId, Session.valid_base64Url, Vector.length_toList]
    rfl
  have length : (randomId random).length = 22 := by
    simp only [Session.validBase64UrlId, Bool.and_eq_true, decide_eq_true_eq] at valid
    exact valid.1
  have nonempty : (randomId random).isEmpty = false := by
    rw [List.isEmpty_eq_false_iff]
    intro empty
    rw [empty] at length
    contradiction
  simp [Session.validClientMessageId, nonempty, length, valid, Session.maxClientMessageIdBytes]

end Conspire.Browser
