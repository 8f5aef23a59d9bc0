import Mathlib.Data.List.TakeWhile
import Conspire.Server.Boundaries

/-! Values of the configuration and of a request in the scripts that the server hands out
(`javascriptString` of `utils/ServerBoundaries.hpp`, `DashboardJS` and `ChatJS` of
`controller/StaticController.hpp`), and how a browser reads them. -/
namespace Conspire
namespace Boundaries

def quote : UInt8 := 0x22
def backslash : UInt8 := 0x5c

def hexDigit (nibble : Nat) : UInt8 := (ascii "0123456789ABCDEF").getD nibble 0

def urlPathSegment (value : Bytes) : Bytes :=
  value.flatMap fun character =>
    if ('a'.toUInt8 ≤ character ∧ character ≤ 'z'.toUInt8) ∨ ('A'.toUInt8 ≤ character ∧ character ≤ 'Z'.toUInt8) ∨
        ('0'.toUInt8 ≤ character ∧ character ≤ '9'.toUInt8) ∨ character = '-'.toUInt8 ∨ character = '_'.toUInt8 ∨
        character = '.'.toUInt8 then [character]
    else ['%'.toUInt8, hexDigit (character.toNat / 16), hexDigit (character.toNat % 16)]

/-- The `switch` of `javascriptString`. -/
def javascriptCharacter (character : UInt8) : Bytes :=
  if character = backslash then [backslash, backslash]
  else if character = quote then [backslash, quote]
  else if character = 0x0a then [backslash, 'n'.toUInt8]
  else if character = 0x0d then [backslash, 'r'.toUInt8]
  else if character = 0x09 then [backslash, 't'.toUInt8]
  else if character = '<'.toUInt8 then backslash :: ascii "u003C"
  else if character = '>'.toUInt8 then backslash :: ascii "u003E"
  else if character < 0x20 || character = 0x7f then
    backslash :: ascii "u00" ++ [hexDigit (character.toNat / 16), hexDigit (character.toNat % 16)]
  else [character]

def javascriptString (value : Bytes) : Bytes := quote :: value.flatMap javascriptCharacter ++ [quote]

end Boundaries

namespace Controller
open Boundaries

/-- What a stream takes of a `const char*`. -/
def cString (value : Bytes) : Bytes := value.takeWhile (· ≠ 0)

/-- The body of `dashboard/app.js`. -/
def dashboardScript (statisticsUrl asset : Bytes) : Bytes :=
  let statsPath := javascriptString (ascii "/" ++ statisticsUrl)
  ascii "globalThis.ConspireDashboardConfig = \x7bstatsUrl: " ++ cString statsPath ++ ascii "\x7d;\n\n" ++ asset

/-- The body of `room/roomId/chat.js`, for a request that was admitted. -/
def chatScript (baseUrl roomId asset : Bytes) : Bytes :=
  let encodedRoom := urlPathSegment roomId
  let websocketUrl := javascriptString (baseUrl ++ ascii "/api/ws/room/" ++ encodedRoom)
  let roomUrl := javascriptString (ascii "/room/" ++ encodedRoom)
  ascii "globalThis.ConspireChatConfig = \x7burlWebsocket: " ++ cString websocketUrl ++ ascii ", urlRoom: " ++
    cString roomUrl ++ ascii "\x7d;\n" ++ ascii "\n" ++ asset

end Controller

/-! A string literal as the language reads it, as UTF-8. -/
namespace Javascript
open Boundaries

def hexValue (character : UInt8) : Option Nat :=
  if '0'.toUInt8 ≤ character ∧ character ≤ '9'.toUInt8 then some (character.toNat - '0'.toNat)
  else if 'a'.toUInt8 ≤ character ∧ character ≤ 'f'.toUInt8 then some (character.toNat - 'a'.toNat + 10)
  else if 'A'.toUInt8 ≤ character ∧ character ≤ 'F'.toUInt8 then some (character.toNat - 'A'.toNat + 10)
  else none

/-- The character of four digits; a surrogate alone is none. -/
def codeUnit (a b c d : UInt8) : Option Bytes := do
  let a ← hexValue a
  let b ← hexValue b
  let c ← hexValue c
  let d ← hexValue d
  let code := ((a * 16 + b) * 16 + c) * 16 + d
  if code < 0xD800 ∨ 0xDFFF < code then some (String.utf8EncodeChar (Char.ofNat code)) else none

def singleEscape (letter : UInt8) : Option UInt8 :=
  if letter = backslash then some backslash
  else if letter = quote then some quote
  else if letter = 'n'.toUInt8 then some 0x0a
  else if letter = 'r'.toUInt8 then some 0x0d
  else if letter = 't'.toUInt8 then some 0x09
  else none

/-- What stands before the closing quote, and what comes behind it. -/
def readBody : Bytes → Option (Bytes × Bytes)
  | [] => none
  | first :: text =>
    if first = quote then some ([], text)
    else if first = backslash then
      match text with
      | [] => none
      | letter :: text =>
        if letter = 'u'.toUInt8 then
          match text with
          | a :: b :: c :: d :: text => do
            let bytes ← codeUnit a b c d
            let (value, rest) ← readBody text
            some (bytes ++ value, rest)
          | _ => none
        else do
          let byte ← singleEscape letter
          let (value, rest) ← readBody text
          some (byte :: value, rest)
    -- a line ends within the literal
    else if first = 0x0a ∨ first = 0x0d then none
    else do
      let (value, rest) ← readBody text
      some (first :: value, rest)

def readLiteral : Bytes → Option (Bytes × Bytes)
  | [] => none
  | first :: text => if first = quote then readBody text else none

/-- A text that ends outside an escape and has no quote but in one. -/
inductive Enclosed : Bytes → Prop where
  | nil : Enclosed []
  | plain : byte ≠ quote → byte ≠ backslash → Enclosed text → Enclosed (byte :: text)
  | escape : Enclosed text → Enclosed (backslash :: byte :: text)

/-- No control byte and no angle bracket. -/
def Harmless (byte : UInt8) : Prop := isControl byte = false ∧ byte ≠ '<'.toUInt8 ∧ byte ≠ '>'.toUInt8

instance (byte : UInt8) : Decidable (Harmless byte) := inferInstanceAs (Decidable (_ ∧ _ ∧ _))

/-- How a character is written: as itself, with a letter, or with four digits. -/
inductive Written (character : UInt8) : Bytes → Prop where
  | plain : character ≠ quote → character ≠ backslash → Harmless character → Written character [character]
  | single : letter ≠ 'u'.toUInt8 → singleEscape letter = some character → Harmless letter →
      Written character [backslash, letter]
  | unicode : codeUnit a b c d = some [character] →
      (∀ digit ∈ [a, b, c, d], Harmless digit ∧ digit ≠ quote ∧ digit ≠ backslash) →
      Written character [backslash, 'u'.toUInt8, a, b, c, d]

variable {value text rest : Bytes} {character : UInt8}

theorem digits_unicode : ∀ n < 128,
    codeUnit '0'.toUInt8 '0'.toUInt8 (hexDigit (n / 16)) (hexDigit (n % 16)) = some [UInt8.ofNat n] := by
  decide +kernel

theorem digits_harmless : ∀ n < 16, Harmless (hexDigit n) ∧ hexDigit n ≠ quote ∧ hexDigit n ≠ backslash := by
  decide +kernel

theorem javascriptCharacter_written (character : UInt8) : Written character (javascriptCharacter character) := by
  rw [javascriptCharacter]
  split
  · rename_i is
    rw [is]
    exact .single (by decide) (by decide) (by decide)
  rename_i notBackslash
  split
  · rename_i is
    rw [is]
    exact .single (by decide) (by decide) (by decide)
  rename_i notQuote
  split
  · rename_i is
    rw [is]
    exact .single (by decide) (by decide) (by decide)
  split
  · rename_i is
    rw [is]
    exact .single (by decide) (by decide) (by decide)
  split
  · rename_i is
    rw [is]
    exact .single (by decide) (by decide) (by decide)
  split
  · rename_i is
    rw [is]
    exact .unicode (by decide) (by decide +kernel)
  rename_i less
  split
  · rename_i is
    rw [is]
    exact .unicode (by decide) (by decide +kernel)
  rename_i greater
  split
  · rename_i control
    have small : character.toNat < 128 := by
      simp only [Bool.or_eq_true, decide_eq_true_eq, UInt8.lt_iff_toNat_lt] at control
      rcases control with low | rfl
      · exact Nat.lt_trans low (by decide)
      · decide
    have zeros : ascii "u00" = ['u'.toUInt8, '0'.toUInt8, '0'.toUInt8] := by decide
    rw [zeros]
    refine .unicode ?_ ?_
    · rw [digits_unicode character.toNat small, UInt8.ofNat_toNat]
    · have zero := digits_harmless 0 (by decide)
      have first := digits_harmless (character.toNat / 16) (by omega)
      have second := digits_harmless (character.toNat % 16) (by omega)
      intro digit member
      simp only [List.mem_cons, List.not_mem_nil, or_false] at member
      rcases member with rfl | rfl | rfl | rfl
      · exact zero
      · exact zero
      · exact first
      · exact second
  · rename_i printable
    exact .plain notQuote notBackslash ⟨by simpa [isControl] using printable, less, greater⟩

/-- A character is read back, whatever comes behind it. -/
theorem readBody_character (character : UInt8) (read : readBody rest = some (value, text)) :
    readBody (javascriptCharacter character ++ rest) = some (character :: value, text) := by
  have apart : backslash ≠ quote := by decide
  generalize javascriptCharacter character = written, javascriptCharacter_written character = is
  cases is with
  | plain notQuote notBackslash harmless =>
    have line : ¬ (character = 0x0a ∨ character = 0x0d) := by
      rintro (rfl | rfl) <;> exact absurd harmless.1 (by decide)
    rw [List.cons_append, List.nil_append, readBody.eq_def]
    simp only [if_neg notQuote, if_neg notBackslash, if_neg line, read]
    rfl
  | single other escape =>
    rw [List.cons_append, List.cons_append, List.nil_append, readBody.eq_def]
    simp only [if_neg apart, if_pos, if_neg other, escape, read]
    rfl
  | unicode code =>
    simp only [List.cons_append, List.nil_append]
    rw [readBody.eq_def]
    simp only [if_neg apart, if_pos, code, read]
    rfl

theorem readLiteral_javascriptString (value rest : Bytes) :
    readLiteral (javascriptString value ++ rest) = some (value, rest) := by
  have body : readBody (value.flatMap javascriptCharacter ++ (quote :: rest)) = some (value, rest) := by
    induction value with
    | nil =>
      rw [List.flatMap_nil, List.nil_append, readBody.eq_def]
      simp only [if_pos]
    | cons character value ih =>
      rw [List.flatMap_cons, List.append_assoc]
      exact readBody_character character ih
  rw [javascriptString, List.append_assoc, List.cons_append, readLiteral, if_pos rfl]
  exact body

example : readLiteral (javascriptString [0x61, 0x22, 0x0, 0x3c]) = some ([0x61, 0x22, 0x0, 0x3c], []) := by decide

theorem javascriptString_injective : Function.Injective javascriptString := by
  intro value other same
  have first := readLiteral_javascriptString value []
  rw [same, readLiteral_javascriptString other []] at first
  cases first
  rfl

/-- Nothing that a character is written with ends the literal or the script around it. -/
theorem Written.safe (is : Written character written) (rest : Enclosed text) :
    Enclosed (written ++ text) ∧ ∀ byte ∈ written, Harmless byte := by
  have bar : Harmless backslash := by decide
  have letter : Harmless 'u'.toUInt8 := by decide
  cases is with
  | plain notQuote notBackslash harmless => exact ⟨.plain notQuote notBackslash rest, by simpa using harmless⟩
  | single _ _ harmless => exact ⟨.escape rest, by simpa using ⟨bar, harmless⟩⟩
  | @unicode a b c d _ digits =>
    have first := digits a (by simp)
    have second := digits b (by simp)
    have third := digits c (by simp)
    have fourth := digits d (by simp)
    refine ⟨.escape (.plain first.2.1 first.2.2 (.plain second.2.1 second.2.2 (.plain third.2.1 third.2.2
      (.plain fourth.2.1 fourth.2.2 rest)))), ?_⟩
    simpa using ⟨bar, letter, first.1, second.1, third.1, fourth.1⟩

theorem body_safe (value : Bytes) :
    Enclosed (value.flatMap javascriptCharacter) ∧ ∀ byte ∈ value.flatMap javascriptCharacter, Harmless byte := by
  induction value with
  | nil => exact ⟨.nil, by simp⟩
  | cons character value ih =>
    obtain ⟨enclosed, harmless⟩ := (javascriptCharacter_written character).safe ih.1
    rw [List.flatMap_cons]
    refine ⟨enclosed, fun byte member => ?_⟩
    rcases List.mem_append.mp member with first | later
    · exact harmless byte first
    · exact ih.2 byte later

/-- A literal has no zero byte, so a stream takes all of it. -/
theorem cString_javascriptString (value : Bytes) :
    Controller.cString (javascriptString value) = javascriptString value := by
  rw [Controller.cString, List.takeWhile_eq_self_iff]
  intro byte member
  simp only [javascriptString, List.cons_append, List.mem_cons, List.mem_append, List.not_mem_nil, or_false] at member
  have harmless : byte = quote ∨ Harmless byte := by
    rcases member with first | inside | last
    · exact .inl first
    · exact .inr ((body_safe value).2 byte inside)
    · exact .inl last
  rcases harmless with rfl | harmless
  · decide
  · refine decide_eq_true fun zero => ?_
    rw [zero] at harmless
    exact absurd harmless.1 (by decide)

/-- A script holds the value as a literal, in front of the rest. -/
def Holds (script front value rest : Bytes) : Prop :=
  ∃ text, script = front ++ text ∧ readLiteral text = some (value, rest)

theorem holds_literal (front value rest : Bytes) :
    Holds (front ++ Controller.cString (javascriptString value) ++ rest) front value rest :=
  ⟨javascriptString value ++ rest, by rw [cString_javascriptString, List.append_assoc],
    readLiteral_javascriptString value rest⟩

/-- A literal encloses its text, is read as the value whatever follows, and so are the values in
the prologues of the scripts. -/
theorem javascriptString_reads :
    (∀ value, ∃ body, javascriptString value = quote :: (body ++ [quote]) ∧ Enclosed body ∧
      ∀ byte ∈ body, Harmless byte) ∧
    (∀ value rest, readLiteral (javascriptString value ++ rest) = some (value, rest)) ∧
    Function.Injective javascriptString ∧
    (∀ statisticsUrl asset, Holds (Controller.dashboardScript statisticsUrl asset)
      (ascii "globalThis.ConspireDashboardConfig = \x7bstatsUrl: ") (ascii "/" ++ statisticsUrl)
      (ascii "\x7d;\n\n" ++ asset)) ∧
    ∀ baseUrl roomId asset, ∃ rest, Holds (Controller.chatScript baseUrl roomId asset)
      (ascii "globalThis.ConspireChatConfig = \x7burlWebsocket: ")
      (baseUrl ++ ascii "/api/ws/room/" ++ urlPathSegment roomId) rest ∧
      Holds rest (ascii ", urlRoom: ") (ascii "/room/" ++ urlPathSegment roomId)
        (ascii "\x7d;\n" ++ ascii "\n" ++ asset) := by
  refine ⟨fun value => ⟨_, rfl, body_safe value⟩, readLiteral_javascriptString, javascriptString_injective, ?_, ?_⟩
  · intro statisticsUrl asset
    have held := holds_literal (ascii "globalThis.ConspireDashboardConfig = \x7bstatsUrl: ")
      (ascii "/" ++ statisticsUrl) (ascii "\x7d;\n\n" ++ asset)
    rwa [← List.append_assoc] at held
  · intro baseUrl roomId asset
    have second := holds_literal (ascii ", urlRoom: ") (ascii "/room/" ++ urlPathSegment roomId)
      (ascii "\x7d;\n" ++ ascii "\n" ++ asset)
    refine ⟨_, ?_, second⟩
    have first := holds_literal (ascii "globalThis.ConspireChatConfig = \x7burlWebsocket: ")
      (baseUrl ++ ascii "/api/ws/room/" ++ urlPathSegment roomId)
    simpa only [Controller.chatScript, List.append_assoc] using first _

end Javascript
end Conspire
