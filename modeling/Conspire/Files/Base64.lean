import Conspire.Server.SessionCredentials

/-! The content of a chunk as text: `btoa` of the host's browser and the server's decoder
(`encoding/Base64.cpp`). The decoder stops at the first padding character and takes any number of
characters before it. -/
namespace Conspire.Base64
open Regrouping Session

def alphabet : Bytes := ascii "ABCDEFGHIJKLMNOPQRSTUVWXYZabcdefghijklmnopqrstuvwxyz0123456789+/"

def character (index : Nat) : UInt8 := alphabet.getD index 0

def paddingChar : UInt8 := '='.toUInt8

/-- `btoa` of a binary string. -/
def btoa : Bytes → Bytes
  | [] => []
  | [first] => ((sextets first.toNat 0 0).map character).take 2 ++ [paddingChar, paddingChar]
  | [first, second] => ((sextets first.toNat second.toNat 0).map character).take 3 ++ [paddingChar]
  | first :: second :: third :: rest =>
    (sextets first.toNat second.toNat third.toNat).map character ++ btoa rest

/-- `getAlphabetCharIndex` for the standard alphabet. -/
def getAlphabetCharIndex (a : UInt8) : Nat :=
  if 'A'.toUInt8 ≤ a ∧ a ≤ 'Z'.toUInt8 then a.toNat - 'A'.toNat
  else if 'a'.toUInt8 ≤ a ∧ a ≤ 'z'.toUInt8 then a.toNat - 'a'.toNat + 26
  else if '0'.toUInt8 ≤ a ∧ a ≤ '9'.toUInt8 then a.toNat - '0'.toNat + 52
  else if a = '+'.toUInt8 then 62
  else if a = '/'.toUInt8 then 63
  else 255

def isValidChar (a : UInt8) : Bool :=
  ('A'.toUInt8 ≤ a && a ≤ 'Z'.toUInt8) || ('a'.toUInt8 ≤ a && a ≤ 'z'.toUInt8) ||
    ('0'.toUInt8 ≤ a && a ≤ '9'.toUInt8) || a = '+'.toUInt8 || a = '/'.toUInt8

/-- The loop of `calcDecodedStringSize`: how many characters there are before the padding. -/
def base64StrLength : Bytes → Option Nat
  | [] => some 0
  | a :: rest =>
    if isValidChar a then (base64StrLength rest).map (· + 1)
    else if a = paddingChar then some 0
    else none

/-- The size of the result, and that length. -/
def calcDecodedStringSize (data : Bytes) : Option (Nat × Nat) :=
  (base64StrLength data).map fun i => (i / 4 * 3 + (i % 4 - 1), i)

/-- What is written for four indices. -/
def octets (b0 b1 b2 b3 : Nat) : List Nat :=
  [b0 <<< 2 ||| (b1 >>> 4 &&& 3), (b1 &&& 15) <<< 4 ||| (b2 >>> 2 &&& 15), (b2 &&& 3) <<< 6 ||| b3]

/-- Of three indices at the end two bytes are written, of two one. -/
def decodeIndices : List Nat → List Nat
  | b0 :: b1 :: b2 :: b3 :: rest => octets b0 b1 b2 b3 ++ decodeIndices rest
  | [b0, b1, b2] => (octets b0 b1 b2 0).take 2
  | [b0, b1] => (octets b0 b1 0 0).take 1
  | [_] | [] => []

/-- `Base64::decode`; `none` is a `DecodingError`. -/
def decode (data : Bytes) : Option Bytes :=
  (calcDecodedStringSize data).map fun (_, length) =>
    (decodeIndices ((data.take length).map getAlphabetCharIndex)).map UInt8.ofNat

section Decoding
variable {b0 b1 b2 b3 : Nat} {indices : List Nat} {data bytes : Bytes}

theorem octets_lt (one : b0 < 64) (four : b3 < 64) : ∀ n ∈ octets b0 b1 b2 b3, n < 2 ^ 8 := by
  have first : b0 <<< 2 ||| (b1 >>> 4 &&& 3) < 2 ^ 8 := by
    have low : b1 >>> 4 &&& 3 ≤ 3 := Nat.and_le_right
    refine Nat.or_lt_two_pow ?_ (by omega)
    rw [Nat.shiftLeft_eq]
    omega
  have second : (b1 &&& 15) <<< 4 ||| (b2 >>> 2 &&& 15) < 2 ^ 8 := by
    have high : b1 &&& 15 ≤ 15 := Nat.and_le_right
    have low : b2 >>> 2 &&& 15 ≤ 15 := Nat.and_le_right
    refine Nat.or_lt_two_pow ?_ (by omega)
    rw [Nat.shiftLeft_eq]
    omega
  have third : (b2 &&& 3) <<< 6 ||| b3 < 2 ^ 8 := by
    have high : b2 &&& 3 ≤ 3 := Nat.and_le_right
    refine Nat.or_lt_two_pow ?_ (by omega)
    rw [Nat.shiftLeft_eq]
    omega
  simp only [octets, List.forall_mem_cons, List.not_mem_nil, false_implies, implies_true, and_true]
  exact ⟨first, second, third⟩

/-- Four indices have the bits of three bytes. -/
theorem octets_bits (two : b1 < 64) (four : b3 < 64) :
    (octets b0 b1 b2 b3).flatMap (bits 8) = [b0, b1, b2, b3].flatMap (bits 6) := by
  have high (n i : Nat) (small : n < 64) (beyond : 6 ≤ i) : n.testBit i = false :=
    Nat.testBit_lt_two_pow (Nat.lt_of_lt_of_le small (Nat.pow_le_pow_right (n := 2) (by decide) beyond))
  have bits_six (n : Nat) : bits 6 n =
      [n.testBit 5, n.testBit 4, n.testBit 3, n.testBit 2, n.testBit 1, n.testBit 0] := rfl
  have bits_eight (n : Nat) : bits 8 n = n.testBit 7 :: n.testBit 6 :: bits 6 n := rfl
  simp only [octets, List.flatMap_cons, List.flatMap_nil, bits_eight, bits_six, Nat.testBit_or, Nat.testBit_and,
    Nat.testBit_shiftLeft, Nat.testBit_shiftRight, List.cons_append, List.nil_append]
  have masks : Nat.testBit 3 1 = true ∧ Nat.testBit 15 1 = true ∧ Nat.testBit 15 2 = true ∧ Nat.testBit 15 3 = true ∧
      Nat.testBit 15 4 = false ∧ Nat.testBit 15 5 = false ∧ Nat.testBit 15 6 = false ∧ Nat.testBit 15 7 = false := by
    decide
  simp [high _ _ two, high _ _ four, masks]

/-- The front of these bytes is what is whole in the front of the bits. -/
theorem octets_take {count : Nat} {row tail : List Bool} (one : b0 < 64) (four : b3 < 64)
    (is : (octets b0 b1 b2 b3).flatMap (bits 8) = row ++ tail) (long : count * 8 ≤ row.length)
    (short : row.length < count * 8 + 8) : (octets b0 b1 b2 b3).take count = words 8 row := by
  have front : row.take (count * 8) = ((octets b0 b1 b2 b3).take count).flatMap (bits 8) := by
    rw [← take_flatMap, is, List.take_append_of_le_length long]
  have small : ∀ n ∈ (octets b0 b1 b2 b3).take count, n < 2 ^ 8 := fun n member =>
    octets_lt one four n (List.mem_of_mem_take member)
  have rest : words 8 (row.drop (count * 8)) = [] := words_short (by rw [List.length_drop]; omega)
  rw [← List.take_append_drop (count * 8) row, front, words_flatMap small (by decide), rest, List.append_nil]

/-- What is decoded of indices are the whole bytes in their bits. -/
theorem decodeIndices_eq (small : ∀ n ∈ indices, n < 64) :
    decodeIndices indices = words 8 (indices.flatMap (bits 6)) := by
  induction indices using decodeIndices.induct with
  | case1 b0 b1 b2 b3 rest ih =>
    simp only [List.forall_mem_cons] at small
    obtain ⟨one, two, three, four, others⟩ := small
    have row : (b0 :: b1 :: b2 :: b3 :: rest).flatMap (bits 6) =
        (octets b0 b1 b2 b3).flatMap (bits 8) ++ rest.flatMap (bits 6) := by
      rw [octets_bits two four, ← List.flatMap_append]
      rfl
    rw [decodeIndices, row, words_flatMap (octets_lt one four) (by decide), ih others]
  | case2 b0 b1 b2 =>
    simp only [List.forall_mem_cons] at small
    obtain ⟨one, two, -, -⟩ := small
    have row : (octets b0 b1 b2 0).flatMap (bits 8) = [b0, b1, b2].flatMap (bits 6) ++ bits 6 0 := by
      rw [octets_bits two (by decide)]
      simp
    exact octets_take one (by decide) row (by simp) (by simp)
  | case3 b0 b1 =>
    simp only [List.forall_mem_cons] at small
    obtain ⟨one, two, -⟩ := small
    have row : (octets b0 b1 0 0).flatMap (bits 8) = [b0, b1].flatMap (bits 6) ++ [0, 0].flatMap (bits 6) := by
      rw [octets_bits two (by decide)]
      simp
    exact octets_take one (by decide) row (by simp) (by simp)
  | case4 b =>
    have few : ([b].flatMap (bits 6)).length < 8 := by simp
    rw [decodeIndices, words_short few]
  | case5 => rfl

end Decoding

section Encoding
variable {a b c n : Nat} {bytes : Bytes}

/-- Three bytes in front of a row are four sextets in front of its own. -/
theorem sextets_append (one : a < 256) (two : b < 256) (three : c < 256) (row : List Bool) :
    sextets a b c ++ words 6 row = words 6 (bits 8 a ++ (bits 8 b ++ bits 8 c) ++ row) := by
  rw [← sextets_bits two three, words_flatMap (sextets_lt one two three) (by decide)]

/-- Fewer bytes are the front of the sextets, when the bits that are missing are zero. -/
theorem sextets_take (one : a < 256) (two : b < 256) (three : c < 256) {row : List Bool} {count : Nat}
    (long : row.length = count * 6)
    (is : row ++ List.replicate (24 - count * 6) false = bits 8 a ++ (bits 8 b ++ bits 8 c)) :
    (sextets a b c).take count = words 6 row := by
  have front : row = ((sextets a b c).take count).flatMap (bits 6) := by
    rw [← take_flatMap, sextets_bits two three, ← is, ← long, List.take_left]
  have small : ∀ n ∈ (sextets a b c).take count, n < 2 ^ 6 := fun n member =>
    sextets_lt one two three n (List.mem_of_mem_take member)
  rw [front, words_flatMap_self small (by decide)]

/-- The text has the bits of the bytes, six to a character, and is filled up to fours. -/
theorem btoa_eq (bytes : Bytes) : btoa bytes =
    (words 6 (padded bytes)).map character ++ List.replicate ((3 - bytes.length % 3) % 3) paddingChar := by
  have byte (b : UInt8) : b.toNat < 256 := UInt8.toNat_lt b
  induction bytes using btoa.induct with
  | case1 => rfl
  | case2 first =>
    have front : (sextets first.toNat 0 0).take 2 = words 6 (padded [first]) :=
      sextets_take (byte _) (by decide) (by decide) (by simp [padded]) (by simp [padded, bits])
    rw [btoa, ← List.map_take, front]
    rfl
  | case3 first second =>
    have front : (sextets first.toNat second.toNat 0).take 3 = words 6 (padded [first, second]) :=
      sextets_take (byte _) (byte _) (by decide) (by simp [padded]) (by simp [padded, bits])
    rw [btoa, ← List.map_take, front]
    rfl
  | case4 first second third rest ih =>
    have same : padded (first :: second :: third :: rest) =
        bits 8 first.toNat ++ (bits 8 second.toNat ++ bits 8 third.toNat) ++ padded rest := by
      have count : (rest.length + 1 + 1 + 1) * 8 % 6 = rest.length * 8 % 6 := by omega
      simp only [padded, List.map_cons, List.flatMap_cons, List.length_cons, count, List.append_assoc]
    have fill : (3 - (first :: second :: third :: rest).length % 3) % 3 = (3 - rest.length % 3) % 3 := by
      simp only [List.length_cons]
      omega
    rw [btoa, ih, same, ← sextets_append (byte _) (byte _) (byte _), List.map_append, fill, List.append_assoc]

theorem length_btoa (bytes : Bytes) : (btoa bytes).length = (bytes.length + 2) / 3 * 4 := by
  rw [btoa_eq, List.length_append, List.length_map, length_words, length_padded, List.length_replicate,
    Nat.mul_div_cancel _ (by decide)]
  omega

/-- The decoder knows the characters of the encoder. -/
theorem character_index : ∀ n < 64, isValidChar (character n) = true ∧ getAlphabetCharIndex (character n) = n := by
  decide +kernel

/-- What is before the padding. -/
theorem strLength_front {front : Bytes} (valid : ∀ a ∈ front, isValidChar a = true) (count : Nat) :
    base64StrLength (front ++ List.replicate count paddingChar) = some front.length := by
  induction front with
  | nil =>
    cases count with
    | zero => rfl
    | succ count =>
      have pad : isValidChar paddingChar = false := by decide
      rw [List.replicate_succ, List.nil_append, base64StrLength, if_neg (by simp [pad]), if_pos rfl]
      rfl
  | cons a front ih =>
    obtain ⟨first, others⟩ := List.forall_mem_cons.mp valid
    rw [List.cons_append, base64StrLength, if_pos first, ih others]
    rfl

/-- The server takes out of the text what the browser has put into it. -/
theorem decode_btoa (bytes : Bytes) : decode (btoa bytes) = some bytes := by
  have byte : ∀ n ∈ bytes.map UInt8.toNat, n < 2 ^ 8 := by
    intro n member
    obtain ⟨b, _, rfl⟩ := List.mem_map.mp member
    exact UInt8.toNat_lt b
  have small := words_lt 6 (padded bytes)
  have valid : ∀ a ∈ (words 6 (padded bytes)).map character, isValidChar a = true := by
    intro a member
    obtain ⟨n, inside, rfl⟩ := List.mem_map.mp member
    exact (character_index n (small n inside)).1
  have indices : ((words 6 (padded bytes)).map character).map getAlphabetCharIndex = words 6 (padded bytes) := by
    rw [List.map_map]
    exact (List.map_congr_left fun n member => (character_index n (small n member)).2).trans (List.map_id _)
  -- the characters have all the bits, since these are a whole number of sextets
  have row : (words 6 (padded bytes)).flatMap (bits 6) = padded bytes := by
    have whole := @flatMap_words 6 (by decide) (padded bytes)
    have nothing : leftover 6 (padded bytes) = [] := by
      rw [leftover, length_padded, Nat.mul_div_cancel _ (by decide), ← length_padded, List.drop_length]
    rwa [nothing, List.append_nil] at whole
  have read : words 8 (padded bytes) = bytes.map UInt8.toNat := by
    have fill : (List.replicate ((6 - bytes.length * 8 % 6) % 6) false).length < 8 := by
      rw [List.length_replicate]
      omega
    rw [padded, words_flatMap byte (by decide), words_short fill, List.append_nil]
  have back : (bytes.map UInt8.toNat).map UInt8.ofNat = bytes := by simp [Function.comp_def]
  simp only [decode, calcDecodedStringSize, btoa_eq, strLength_front valid, Option.map_some, List.take_left, indices,
    decodeIndices_eq small, row, read, back]

end Encoding

section Result
variable {data bytes : Bytes} {size length : Nat}

theorem validChar_index (a : UInt8) (valid : isValidChar a = true) : getAlphabetCharIndex a < 64 := by
  have all : ∀ n < 256, isValidChar (UInt8.ofNat n) = true → getAlphabetCharIndex (UInt8.ofNat n) < 64 := by
    decide +kernel
  have here := all a.toNat a.toNat_lt
  rw [UInt8.ofNat_toNat] at here
  exact here valid

theorem strLength_some (is : base64StrLength data = some length) :
    length ≤ data.length ∧ ∀ a ∈ data.take length, isValidChar a = true := by
  induction data generalizing length with
  | nil =>
    cases is
    exact ⟨Nat.le_refl _, nofun⟩
  | cons a data ih =>
    rw [base64StrLength] at is
    split at is
    · rename_i valid
      obtain ⟨more, rest, rfl⟩ := Option.map_eq_some_iff.mp is
      obtain ⟨within, others⟩ := ih rest
      exact ⟨Nat.succ_le_succ within, List.forall_mem_cons.mpr ⟨valid, others⟩⟩
    · split at is
      · cases is
        exact ⟨Nat.zero_le _, nofun⟩
      · contradiction

/-- The decoder writes the whole of its result, and nothing behind it. -/
theorem decode_length (sized : calcDecodedStringSize data = some (size, length))
    (decoded : decode data = some bytes) :
    bytes.length = size := by
  rw [decode, sized, Option.map_some, Option.some.injEq] at decoded
  obtain ⟨known, counted, is⟩ := Option.map_eq_some_iff.mp sized
  cases is
  obtain ⟨within, valid⟩ := strLength_some counted
  have small : ∀ n ∈ (data.take length).map getAlphabetCharIndex, n < 64 := by
    intro n member
    obtain ⟨a, inside, rfl⟩ := List.mem_map.mp member
    exact validChar_index a (valid a inside)
  rw [← decoded, List.length_map, decodeIndices_eq small, length_words, length_flatMap_bits, List.length_map,
    List.length_take, Nat.min_eq_left within]
  omega

end Result

end Conspire.Base64
