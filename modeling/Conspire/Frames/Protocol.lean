import Conspire.Library.Json
import Conspire.Library.Utf8
import Conspire.Server.Dto

/-! How the browser takes a frame: the text of a WebSocket message, and `parseProtocolMessage`
(`chat/protocol.js`). -/
namespace Conspire.Frames
open Json

/-- The code units of a character in a string of the browser. -/
def utf16 (c : Char) : List Nat :=
  if c.toNat < 0x10000 then [c.toNat]
  else [0xD800 + (c.toNat - 0x10000) / 1024, 0xDC00 + (c.toNat - 0x10000) % 1024]

/-- The text of a message. One that is not UTF-8 fails the connection. -/
def payload (frame : Bytes) : Option (List Nat) := (Utf8.decode frame).map fun text => text.flatMap utf16

/-- `Object.values(MessageCode)`. -/
def messageCodes : List Nat := [0, 1, 2, 3, 4, 5, 6, 7, 8, 9, 10, 11, 12, 13]

/-- `knownCodes.has`, for which both zeros are the same. -/
def knownCode (code : Option Value) : Bool :=
  match code with
  | some (.number numeral) =>
    messageCodes.any fun code => numeral.double = code * 2 ^ places && (code = 0 || !numeral.negative)
  | _ => false

def imageMediaTypes : List (List Nat) := [units "image/jpeg", units "image/png", units "image/webp"]

/-- Whether `imageCandidateMediaType` returns a type. -/
def isImageCandidate (value : Option Value) : Bool :=
  match value with
  | some (.text value) => value.length ≤ 32 && value.all (· ≤ 0x7f) && imageMediaTypes.contains value
  | _ => false

def cleanFile (file : Value) : Value :=
  match file with
  | .object members =>
    if isImageCandidate (file.get (units "mediaType")) then file
    else .object (members.filter fun (name, _) => name ≠ units "mediaType")
  | _ => file

def cleanFiles (files : Value) : Value :=
  match files with
  | .array files => .array (files.map cleanFile)
  | _ => files

def parseProtocolMessage (payload : List Nat) : Option Value :=
  if 8192 < payload.length then none
  else
    match parse payload with
    | some (.object members) =>
      if knownCode (Value.get (units "code") (.object members)) then
        some (.object (members.map fun (name, value) =>
          (name, if name = units "files" then cleanFiles value else value)))
      else none
    | _ => none

/-- What the page is handed of a frame; `none` is a frame it never sees. -/
def receive (frame : Bytes) : Option Value := (payload frame).bind parseProtocolMessage

/-- The code of a message of the server is known to the browser. -/
theorem knownCode_value (code : MessageCodes) : knownCode (some (.number ⟨false, code.value, 0⟩)) = true := by
  have small : code.value < 2 ^ Rounding.precision := by cases code <;> decide
  have known : code.value ∈ messageCodes := by cases code <;> decide
  have read := Numeral.double_small false code.value small
  simp only [knownCode, read, List.any_eq_true]
  exact ⟨code.value, known, by simp⟩

/-- ASCII bytes arrive as they are. -/
theorem payload_ascii {frame : Bytes} (small : ∀ byte ∈ frame, byte.toNat < 0x80) :
    payload frame = some (frame.map UInt8.toNat) := by
  rw [payload, Utf8.decode_ascii small, Option.map_some, Utf8.asciiText]
  congr 1
  induction frame with
  | nil => rfl
  | cons byte frame ih =>
    have value := (Utf8.ascii_character (small byte List.mem_cons_self)).1
    have below := small byte List.mem_cons_self
    rw [List.map_cons, List.flatMap_cons, ih fun other member => small other (List.mem_cons_of_mem _ member), utf16,
      value, if_pos (by omega)]
    rfl

theorem payload_none {frame : Bytes} (broken : ¬ Utf8.WellFormed frame) : payload frame = none := by
  have none := mt Utf8.decode_isSome.mp broken
  rw [payload, Option.not_isSome_iff_eq_none.mp none]
  rfl

end Conspire.Frames
