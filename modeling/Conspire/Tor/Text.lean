import Conspire.Library.Infix
import Conspire.Library.Loop
import Conspire.Server.Boundaries

/-! The texts of a Tor control connection (`utils/TorControl.cpp`): hexadecimal numbers, quoted
values, the fields of a reply, and what a key and a service id look like. -/
namespace Conspire.Tor
open Loops

def maxLineBytes : Nat := 8192
def maxReplyBytes : Nat := 64 * 1024
def cookieBytes : Nat := 32
def nonceBytes : Nat := 32

def quote : UInt8 := 0x22
def backslash : UInt8 := 0x5c
def crlf : Bytes := [0x0d, 0x0a]

def hexDigit (nibble : Nat) : UInt8 := (ascii "0123456789ABCDEF").getD nibble 0

def hexEncode (data : Bytes) : Bytes :=
  data.flatMap fun byte => [hexDigit (byte.toNat / 16), hexDigit (byte.toNat % 16)]

def nibble (character : UInt8) : Option Nat :=
  if '0'.toUInt8 ≤ character ∧ character ≤ '9'.toUInt8 then some (character.toNat - '0'.toNat)
  else if 'a'.toUInt8 ≤ character ∧ character ≤ 'f'.toUInt8 then some (character.toNat - 'a'.toNat + 10)
  else if 'A'.toUInt8 ≤ character ∧ character ≤ 'F'.toUInt8 then some (character.toNat - 'A'.toNat + 10)
  else none

/-- The loop of `hexDecode` over a text of even length. -/
def hexPairs : Bytes → Option Bytes
  | high :: low :: rest => do
    let high ← nibble high
    let low ← nibble low
    let decoded ← hexPairs rest
    some (UInt8.ofNat (high * 16 + low) :: decoded)
  | _ => some []

def hexDecode (text : Bytes) : Option Bytes :=
  if text = [] ∨ text.length % 2 ≠ 0 then none else hexPairs text

def octalDigit (character : UInt8) : Bool := '0'.toUInt8 ≤ character ∧ character ≤ '7'.toUInt8

/-- The loop over the further digits of an octal escape, `count` of which are read already. -/
def octal : (left : Nat) → (octet : Nat) → Bytes → Nat × Bytes
  | left + 1, octet, digit :: rest =>
    if octalDigit digit then octal left (octet * 8 + (digit.toNat - '0'.toNat)) rest
    else (octet, digit :: rest)
  | _, octet, rest => (octet, rest)

theorem octal_length (left octet : Nat) (rest : Bytes) : (octal left octet rest).2.length ≤ rest.length := by
  induction left generalizing octet rest with
  | zero => exact Nat.le_refl _
  | succ left ih =>
    cases rest with
    | nil => exact Nat.le_refl _
    | cons digit rest =>
      rw [octal]
      split
      · exact Nat.le_succ_of_le (ih _ rest)
      · exact Nat.le_refl _

/-- `quotedValue` from what is left of the line and the value so far. -/
def quotedRound : Bytes × Bytes → Except Unit (Turn (Bytes × Bytes) Bytes)
  | ([], _) => .error ()
  | (character :: rest, value) =>
    if character = quote then .ok (.done value)
    else if character ≠ backslash then .ok (.next (rest, value ++ [character]))
    else
      match rest with
      | [] => .error ()
      | escaped :: rest =>
        if escaped = 'n'.toUInt8 then .ok (.next (rest, value ++ [0x0a]))
        else if escaped = 'r'.toUInt8 then .ok (.next (rest, value ++ [0x0d]))
        else if escaped = 't'.toUInt8 then .ok (.next (rest, value ++ [0x09]))
        else if ¬ octalDigit escaped then .ok (.next (rest, value ++ [escaped]))
        else
          let (octet, rest) := octal 2 (escaped.toNat - '0'.toNat) rest
          if 255 < octet then .error () else .ok (.next (rest, value ++ [UInt8.ofNat octet]))

def quotedLoop : Loop (Bytes × Bytes) Bytes Unit where
  round := quotedRound
  measure state := state.1.length
  falls := by
    rintro ⟨line, value⟩ next is
    cases line with
    | nil => cases is
    | cons character rest =>
      simp only [quotedRound] at is
      split at is
      · cases is
      split at is
      · cases is
        exact Nat.lt_succ_self _
      cases rest with
      | nil => cases is
      | cons escaped rest =>
        have read := octal_length 2 (escaped.toNat - '0'.toNat) rest
        simp only at is
        split at is
        · cases is
          exact Nat.lt_add_of_pos_right (Nat.succ_pos 1)
        split at is
        · cases is
          exact Nat.lt_add_of_pos_right (Nat.succ_pos 1)
        split at is
        · cases is
          exact Nat.lt_add_of_pos_right (Nat.succ_pos 1)
        split at is
        · cases is
          exact Nat.lt_add_of_pos_right (Nat.succ_pos 1)
        split at is
        · cases is
        · cases is
          simp only [List.length_cons]
          omega

def quotedValue (line name : Bytes) : Option Bytes :=
  match line.dropInfix? name with
  | some (_, first :: rest) =>
    if first = quote then (quotedLoop.run (rest, [])).toOption else none
  | _ => none

/-- Whether a method is among those that are separated by commas. -/
def containsMethod (methods method : Bytes) : Bool := method ∈ methods.splitOn ','.toUInt8

/-- What follows a field up to the next blank. -/
def fieldValue (line field : Bytes) : Bytes :=
  match line.dropInfix? field with
  | none => []
  | some (_, rest) => rest.takeWhile (· ≠ ' '.toUInt8)

def validServiceId (serviceId : Bytes) : Bool :=
  serviceId.length = 56 && serviceId.all fun character =>
    ('a'.toUInt8 ≤ character && character ≤ 'z'.toUInt8) ||
    ('2'.toUInt8 ≤ character && character ≤ '7'.toUInt8)

def keyPrefix : Bytes := ascii "ED25519-V3:"
def encodedKeyBytes : Nat := 88

def validPrivateKey (privateKey : Bytes) : Bool :=
  privateKey.length = keyPrefix.length + encodedKeyBytes &&
  privateKey.take keyPrefix.length = keyPrefix &&
  privateKey.drop (privateKey.length - 2) = ascii "==" &&
  ((privateKey.drop keyPrefix.length).dropLast.dropLast).all fun character =>
    ('A'.toUInt8 ≤ character && character ≤ 'Z'.toUInt8) ||
    ('a'.toUInt8 ≤ character && character ≤ 'z'.toUInt8) ||
    ('0'.toUInt8 ≤ character && character ≤ '9'.toUInt8) ||
    character = '+'.toUInt8 || character = '/'.toUInt8

structure Reply where
  status : Nat := 0
  lines : List Bytes := []
  deriving DecidableEq

def replyValue (reply : Reply) (field : Bytes) : Bytes :=
  match reply.lines.find? (field.isPrefixOf ·) with
  | some line => line.drop field.length
  | none => []

end Conspire.Tor
