import Conspire.Library.Regrouping
import Conspire.Server.SessionReliability

/-! Resume tokens as text (`utils/SessionCredentials.hpp`). The encoder goes through the
array three bytes at a time; what it writes is the bits of the array, six to a character. An
array is shorter than 2^62 bytes, so that `size_t` holds the lengths. -/
namespace Conspire.Session
open Regrouping

def alphabet : Bytes := ascii "ABCDEFGHIJKLMNOPQRSTUVWXYZabcdefghijklmnopqrstuvwxyz0123456789-_"

def character (index : Nat) : UInt8 := alphabet.getD index 0

/-- One round of `base64Url` for three bytes; missing ones are 0, and only the characters
that have a byte of the array in them are pushed. -/
def characters (first second third : Nat) : Bytes :=
  [character (first >>> 2), character ((first &&& 0x03) <<< 4 ||| second >>> 4),
    character ((second &&& 0x0f) <<< 2 ||| third >>> 6), character (third &&& 0x3f)]

def base64Url : Bytes → Bytes
  | [] => []
  | [first] => (characters first.toNat 0 0).take 2
  | [first, second] => (characters first.toNat second.toNat 0).take 3
  | first :: second :: third :: rest =>
    characters first.toNat second.toNat third.toNat ++ base64Url rest

/-- `random` is what `RAND_bytes` gives. -/
def makeResumeToken (random : Option (Vector UInt8 32)) : Option Bytes :=
  match random with
  | none => none
  | some bytes =>
    let token := base64Url bytes.toList
    if validBase64UrlId token bytes.size then some token else none

/-- The bytes that a text stands for, without padding: six bits a character, and bits that
make no whole byte are zero and fewer than a character's. -/
def decodeBase64Url (text : Bytes) : Option Bytes := do
  let sextets ← text.mapM alphabet.idxOf?
  let row := sextets.flatMap (bits 6)
  let padding := leftover 8 row
  if padding.length < 6 ∧ padding.all (· = false) then
    some ((words 8 row).map UInt8.ofNat)
  else none

/-- The bits of an array, with zeros up to a whole character. -/
def padded (bytes : Bytes) : List Bool :=
  (bytes.map UInt8.toNat).flatMap (bits 8) ++ List.replicate ((6 - bytes.length * 8 % 6) % 6) false

section Encoding
variable {first second third index : Nat} {bytes text : Bytes}

theorem idxOf_character : ∀ index < 64, alphabet.idxOf? (character index) = some index := by
  decide +kernel

theorem character_valid : ∀ index < 64, isBase64Url (character index) = true := by
  decide +kernel

/-- The four sextets of three bytes. -/
def sextets (first second third : Nat) : List Nat :=
  [first >>> 2, (first &&& 0x03) <<< 4 ||| second >>> 4, (second &&& 0x0f) <<< 2 ||| third >>> 6, third &&& 0x3f]

theorem characters_eq (first second third : Nat) :
    characters first second third = (sextets first second third).map character := rfl

theorem sextets_lt (one : first < 256) (two : second < 256) (three : third < 256) :
    ∀ n ∈ sextets first second third, n < 2 ^ 6 := by
  have quarter : first >>> 2 < 2 ^ 6 := by
    rw [Nat.shiftRight_eq_div_pow]
    omega
  have secondDigit : (first &&& 0x03) <<< 4 ||| second >>> 4 < 2 ^ 6 := by
    refine Nat.or_lt_two_pow ?_ ?_
    · have low : first &&& 0x03 ≤ 0x03 := Nat.and_le_right
      rw [Nat.shiftLeft_eq]
      omega
    · rw [Nat.shiftRight_eq_div_pow]
      omega
  have thirdDigit : (second &&& 0x0f) <<< 2 ||| third >>> 6 < 2 ^ 6 := by
    refine Nat.or_lt_two_pow ?_ ?_
    · have low : second &&& 0x0f ≤ 0x0f := Nat.and_le_right
      rw [Nat.shiftLeft_eq]
      omega
    · rw [Nat.shiftRight_eq_div_pow]
      omega
  have last : third &&& 0x3f < 2 ^ 6 := Nat.lt_of_le_of_lt Nat.and_le_right (by decide)
  simp only [sextets, List.forall_mem_cons, List.not_mem_nil, false_implies, implies_true, and_true]
  exact ⟨quarter, secondDigit, thirdDigit, last⟩

theorem sextets_bits (two : second < 256) (three : third < 256) :
    (sextets first second third).flatMap (bits 6) = bits 8 first ++ (bits 8 second ++ bits 8 third) := by
  have high (n i : Nat) (small : n < 256) (beyond : 8 ≤ i) : n.testBit i = false :=
    Nat.testBit_lt_two_pow (Nat.lt_of_lt_of_le small (Nat.pow_le_pow_right (n := 2) (by decide) beyond))
  have bits_six (n : Nat) : bits 6 n =
      [n.testBit 5, n.testBit 4, n.testBit 3, n.testBit 2, n.testBit 1, n.testBit 0] := rfl
  have bits_eight (n : Nat) : bits 8 n = n.testBit 7 :: n.testBit 6 :: bits 6 n := rfl
  simp only [sextets, List.flatMap_cons, List.flatMap_nil, bits_eight, bits_six, Nat.testBit_or, Nat.testBit_and,
    Nat.testBit_shiftLeft, Nat.testBit_shiftRight, List.cons_append, List.nil_append]
  simp [high _ _ two, high _ _ three]
  exact ⟨fun _ => rfl, fun _ => rfl, fun _ => rfl, fun _ => rfl, fun _ => rfl, fun _ => rfl, fun _ => rfl,
    fun _ => rfl, fun _ => rfl⟩

/-- Three bytes in front of a row are four characters in front of its own. -/
theorem characters_append (one : first < 256) (two : second < 256) (three : third < 256) (row : List Bool) :
    characters first second third ++ (words 6 row).map character =
      (words 6 (bits 8 first ++ (bits 8 second ++ bits 8 third) ++ row)).map character := by
  rw [characters_eq, ← List.map_append, ← sextets_bits two three,
    words_flatMap (sextets_lt one two three) (by decide)]

/-- Fewer bytes are the front of the characters, when the bits that are missing are zero. -/
theorem characters_take (one : first < 256) (two : second < 256) (three : third < 256) {row : List Bool}
    {count : Nat} (long : row.length = count * 6)
    (is : row ++ List.replicate (24 - count * 6) false = bits 8 first ++ (bits 8 second ++ bits 8 third)) :
    (characters first second third).take count = (words 6 row).map character := by
  have front : row = ((sextets first second third).take count).flatMap (bits 6) := by
    rw [← take_flatMap, sextets_bits two three, ← is, ← long, List.take_left]
  have small : ∀ n ∈ (sextets first second third).take count, n < 2 ^ 6 := fun n member =>
    sextets_lt one two three n (List.mem_of_mem_take member)
  rw [front, words_flatMap_self small (by decide), characters_eq, List.map_take]

/-- The encoder writes the bits of the array. -/
theorem base64Url_eq (bytes : Bytes) : base64Url bytes = (words 6 (padded bytes)).map character := by
  have byte (b : UInt8) : b.toNat < 256 := UInt8.toNat_lt b
  induction bytes using base64Url.induct with
  | case1 => rfl
  | case2 first => exact characters_take (byte _) (by decide) (by decide) (by simp [padded]) (by simp [padded, bits])
  | case3 first second =>
      exact characters_take (byte _) (byte _) (by decide) (by simp [padded]) (by simp [padded, bits])
  | case4 first second third rest ih =>
    have same : padded (first :: second :: third :: rest) =
        bits 8 first.toNat ++ (bits 8 second.toNat ++ bits 8 third.toNat) ++ padded rest := by
      have count : (rest.length + 1 + 1 + 1) * 8 % 6 = rest.length * 8 % 6 := by omega
      simp only [padded, List.map_cons, List.flatMap_cons, List.length_cons, count, List.append_assoc]
    rw [base64Url, ih, same, characters_append (byte _) (byte _) (byte _)]

theorem length_padded (bytes : Bytes) : (padded bytes).length = (bytes.length * 4 + 2) / 3 * 6 := by
  rw [padded, List.length_append, length_flatMap_bits, List.length_map, List.length_replicate]
  omega

@[simp] theorem length_base64Url (bytes : Bytes) : (base64Url bytes).length = (bytes.length * 4 + 2) / 3 := by
  rw [base64Url_eq, List.length_map, length_words, length_padded, Nat.mul_div_cancel _ (by decide)]

theorem base64Url_all (bytes : Bytes) : (base64Url bytes).all isBase64Url = true := by
  rw [base64Url_eq, List.all_map, List.all_eq_true]
  intro index member
  exact character_valid index (words_lt 6 _ index member)

/-- The validator asks for a length and nothing else of an encoded array. -/
theorem valid_base64Url (bytes : Bytes) (expectedBytes : Nat) :
    validBase64UrlId (base64Url bytes) expectedBytes =
      decide ((bytes.length * 4 + 2) / 3 = (expectedBytes * 4 + 2) / 3) := by
  rw [validBase64UrlId, length_base64Url, base64Url_all, Bool.and_true]

theorem mapM_idxOf (indices : List Nat) (small : ∀ n ∈ indices, n < 64) :
    (indices.map character).mapM alphabet.idxOf? = some indices := by
  induction indices with
  | nil => rfl
  | cons index indices ih =>
    have first := idxOf_character index (small index List.mem_cons_self)
    have rest := ih fun n member => small n (List.mem_cons_of_mem _ member)
    rw [List.map_cons, List.mapM_cons, first, rest]
    rfl

theorem decode_base64Url (bytes : Bytes) : decodeBase64Url (base64Url bytes) = some bytes := by
  have byte : ∀ n ∈ bytes.map UInt8.toNat, n < 2 ^ 8 := by
    intro n member
    obtain ⟨b, _, rfl⟩ := List.mem_map.mp member
    exact UInt8.toNat_lt b
  have fill : (List.replicate ((6 - bytes.length * 8 % 6) % 6) false).length < 8 := by
    rw [List.length_replicate]
    omega
  -- the characters have all the bits of the row, since it is a whole number of them
  have row : (words 6 (padded bytes)).flatMap (bits 6) = padded bytes := by
    have whole := @flatMap_words 6 (by decide) (padded bytes)
    have nothing : leftover 6 (padded bytes) = [] := by
      rw [leftover, length_padded, Nat.mul_div_cancel _ (by decide), ← length_padded, List.drop_length]
    rwa [nothing, List.append_nil] at whole
  have read : words 8 (padded bytes) = bytes.map UInt8.toNat := by
    rw [padded, words_flatMap byte (by decide), words_short fill, List.append_nil]
  have left : leftover 8 (padded bytes) = List.replicate ((6 - bytes.length * 8 % 6) % 6) false := by
    rw [padded, leftover_flatMap _ (by decide), leftover_short fill]
  have zeros : (leftover 8 (padded bytes)).length < 6 ∧ (leftover 8 (padded bytes)).all (· = false) = true := by
    rw [left, List.length_replicate]
    exact ⟨by omega, by simp⟩
  have back : (bytes.map UInt8.toNat).map UInt8.ofNat = bytes := by simp [Function.comp_def]
  rw [decodeBase64Url, base64Url_eq, mapM_idxOf _ (words_lt 6 _)]
  simp only [Option.bind_eq_bind, Option.bind_some, row]
  rw [if_pos zeros, read, back]

theorem of_mapM_idxOf {indices : List Nat} (is : text.mapM alphabet.idxOf? = some indices) :
    text = indices.map character ∧ ∀ n ∈ indices, n < 64 := by
  induction text generalizing indices with
  | nil =>
    cases is
    exact ⟨rfl, nofun⟩
  | cons c text ih =>
    simp only [List.mapM_cons, Option.bind_eq_bind, Option.bind_eq_some_iff, Option.pure_def, Option.some.injEq] at is
    obtain ⟨index, found, indices, rest, rfl⟩ := is
    obtain ⟨same, small⟩ := ih rest
    obtain ⟨below, here, _⟩ := List.findIdx?_eq_some_iff_getElem.mp found
    have read : character index = c := by
      rw [character, List.getD_eq_getElem _ _ below]
      exact eq_of_beq here
    refine ⟨by rw [List.map_cons, read, same], ?_⟩
    rw [List.forall_mem_cons]
    exact ⟨below, small⟩

/-- Whole characters whose last bits are zero are the bits of the bytes in them. -/
theorem padded_words {row : List Bool} (whole : row.length % 6 = 0) (short : (leftover 8 row).length < 6)
    (zeros : (leftover 8 row).all (· = false) = true) : padded ((words 8 row).map UInt8.ofNat) = row := by
  have back : ((words 8 row).map UInt8.ofNat).map UInt8.toNat = words 8 row := by
    rw [List.map_map]
    exact (List.map_congr_left fun n member => UInt8.toNat_ofNat_of_lt' (words_lt 8 row n member)).trans
      (List.map_id _)
  have split := @flatMap_words 8 (by decide) row
  have long : (leftover 8 row).length = (6 - (words 8 row).length * 8 % 6) % 6 := by
    have total := congrArg List.length split
    rw [List.length_append, length_flatMap_bits] at total
    omega
  have fill : leftover 8 row = List.replicate ((6 - (words 8 row).length * 8 % 6) % 6) false := by
    rw [← long]
    exact List.eq_replicate_of_mem fun bit member => by simpa using List.all_eq_true.mp zeros bit member
  rw [padded, back, List.length_map, ← fill, split]

/-- Only what the encoder writes is decoded. -/
theorem decodeBase64Url_eq_some : decodeBase64Url text = some bytes ↔ base64Url bytes = text := by
  constructor
  · intro is
    simp only [decodeBase64Url, Option.bind_eq_bind, Option.bind_eq_some_iff] at is
    obtain ⟨indices, read, is⟩ := is
    obtain ⟨rfl, small⟩ := of_mapM_idxOf read
    split at is
    · rename_i zeros
      cases is
      have whole : (indices.flatMap (bits 6)).length % 6 = 0 := by
        rw [length_flatMap_bits, Nat.mul_mod_left]
      rw [base64Url_eq, padded_words whole zeros.1 zeros.2, words_flatMap_self small (by decide)]
    · cases is
  · rintro rfl
    exact decode_base64Url bytes

theorem base64Url_injective : Function.Injective base64Url := fun first second same =>
  Option.some.inj (by rw [← decode_base64Url first, same, decode_base64Url])

end Encoding

/-- A token is made whenever there are random bytes. -/
theorem makeResumeToken_eq (random : Option (Vector UInt8 32)) :
    makeResumeToken random = random.map fun bytes => base64Url bytes.toList := by
  cases random with
  | none => rfl
  | some bytes => simp [makeResumeToken, valid_base64Url, Vector.size]

/-- The encoder and the validator agree. -/
theorem tokens_encoded :
    (∀ bytes, validBase64UrlId (base64Url bytes) bytes.length = true ∧
      decodeBase64Url (base64Url bytes) = some bytes) ∧
    Function.Injective base64Url ∧
    ∀ bytes expectedBytes, validBase64UrlId (base64Url bytes) expectedBytes =
      decide ((bytes.length * 4 + 2) / 3 = (expectedBytes * 4 + 2) / 3) := by
  refine ⟨fun bytes => ⟨?_, decode_base64Url bytes⟩, base64Url_injective, valid_base64Url⟩
  rw [valid_base64Url]
  exact decide_eq_true rfl

end Conspire.Session
