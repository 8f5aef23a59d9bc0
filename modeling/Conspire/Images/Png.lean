import Conspire.Images.Bytes

/-! The inspection of a PNG (`inspectPng`), and what one round of its loop comes to for
the chunk that lies at the position. -/
namespace Conspire.Images
open Octets Loops

def pngSignature : Bytes := [137, 80, 78, 71, 13, 10, 26, 10]

def animatedPngChunks : List Bytes := [ascii "acTL", ascii "fcTL", ascii "fdAT"]

def compressedPngMetadataChunks : List Bytes := [ascii "iCCP", ascii "zTXt"]

/-- `crc = (crc >>> 1) ^ (crc & 1 ? 0xedb88320 : 0)` -/
def crcBit (crc : UInt32) : UInt32 := (crc >>> 1) ^^^ (if crc &&& 1 ≠ 0 then 0xedb88320 else 0)

def crcByte (crc : UInt32) (byte : UInt8) : UInt32 := Nat.iterate crcBit 8 (crc ^^^ byte.toUInt32)

def crc32 (bytes : Bytes) (start stop : Nat) : UInt32 :=
  (List.range' start (stop - start)).foldl (fun crc offset => crcByte crc (bytes.getD offset 0)) 0xffffffff
    ^^^ 0xffffffff

def isLetter (character : Nat) : Bool :=
  (65 ≤ character && character ≤ 90) || (97 ≤ character && character ≤ 122)

/-- `while (at < end && bytes[at] !== 0) at += 1` -/
def seekZero (bytes : Bytes) (offset stop : Nat) : Nat :=
  if offset < stop && octet bytes offset ≠ 0 then seekZero bytes (offset + 1) stop else offset
termination_by stop - offset
decreasing_by simp_all; omega

/-- The checks of an iTXt chunk. -/
def inspectText (bytes : Bytes) (dataStart dataEnd : Nat) : Except Reason Unit := do
  let keywordEnd := seekZero bytes dataStart dataEnd
  reject (keywordEnd = dataStart || 79 < keywordEnd - dataStart || dataEnd < keywordEnd + 3) .invalid
  let compressed := octet bytes (keywordEnd + 1)
  let method := octet bytes (keywordEnd + 2)
  reject (1 < compressed || method ≠ 0) .invalid
  let languageEnd := seekZero bytes (keywordEnd + 3) dataEnd
  let translatedEnd := seekZero bytes (languageEnd + 1) dataEnd
  reject (dataEnd ≤ languageEnd || dataEnd ≤ translatedEnd) .invalid
  reject (compressed = 1) .unsupported

def checkText (bytes type : Bytes) (dataStart dataEnd : Nat) : Except Reason Unit :=
  if type = ascii "iTXt" then inspectText bytes dataStart dataEnd else .ok ()

/-- The variables of the loop. -/
structure PngState where
  offset : Nat := 8
  dimensions : Option Image := none
  colorType : Nat := 0
  bitDepth : Nat := 0
  sawPalette : Bool := false
  sawData : Bool := false
  dataEnded : Bool := false
  dataBytes : Nat := 0
  chunks : Nat := 0

def validDepths : Nat → List Nat
  | 0 => [1, 2, 4, 8, 16]
  | 2 => [8, 16]
  | 3 => [1, 2, 4, 8]
  | 4 => [8, 16]
  | 6 => [8, 16]
  | _ => []

namespace PngState
variable (s : PngState)

/-- The first chunk. -/
def takeHeader (bytes type : Bytes) (dataStart length : Nat) : Except Reason PngState := do
  reject (type ≠ ascii "IHDR" || length ≠ 13) .invalid
  let dimensions ← ok .png (u32 bytes dataStart) (u32 bytes (dataStart + 4))
  let bitDepth := octet bytes (dataStart + 8)
  let colorType := octet bytes (dataStart + 9)
  reject (!(validDepths colorType).contains bitDepth || octet bytes (dataStart + 10) ≠ 0 ||
    octet bytes (dataStart + 11) ≠ 0 || !([0, 1].contains (octet bytes (dataStart + 12)))) .unsupported
  return { s with dimensions := some dimensions, bitDepth, colorType }

/-- The other chunks. -/
def takeChunk (type : Bytes) (length : Nat) (last : Bool) : Except Reason (Turn PngState Image) :=
  if type = ascii "IHDR" then .error .invalid
  else if type = ascii "PLTE" then
    if s.sawPalette || s.sawData || s.colorType = 0 || s.colorType = 4 || length = 0 || 768 < length ||
        length % 3 ≠ 0 || (s.colorType = 3 && 2 ^ s.bitDepth < length / 3) then .error .invalid
    else .ok (.next { s with sawPalette := true })
  else if type = ascii "IDAT" then
    if s.dataEnded || (s.colorType = 3 && !s.sawPalette) then .error .invalid
    else .ok (.next { s with sawData := true, dataBytes := s.dataBytes + length })
  else if type = ascii "IEND" then
    if length ≠ 0 || !s.sawData || s.dataBytes = 0 || !last then .error .invalid
    else
      match s.dimensions with
      | some image => .ok (.done image)
      -- the first chunk has set the dimensions
      | none => .error .invalid
  else
    if (type.headD 0).toNat &&& 0x20 = 0 then .error .unsupported
    else .ok (.next { s with dataEnded := s.sawData || s.dataEnded })

def take (bytes type : Bytes) (dataStart length : Nat) (last : Bool) : Except Reason (Turn PngState Image) :=
  if s.chunks = 0 then (s.takeHeader bytes type dataStart length).map .next
  else s.takeChunk type length last

/-- `chunks += 1; at = end` -/
def advance (chunkEnd : Nat) : Turn PngState Image → Turn PngState Image
  | .next s => .next { s with chunks := s.chunks + 1, offset := chunkEnd }
  | .done image => .done image

end PngState

/-- One chunk. -/
def pngChunk (bytes : Bytes) (s : PngState) : Except Reason (Turn PngState Image) := do
  let length := u32 bytes s.offset
  let dataStart := s.offset + 8
  let dataEnd := dataStart + length
  let chunkEnd := dataEnd + 4
  reject (!isSafeInteger chunkEnd || bytes.length < chunkEnd) .invalid
  reject (!([4, 5, 6, 7].all fun index => isLetter (octet bytes (s.offset + index)))) .invalid
  reject (octet bytes (s.offset + 6) &&& 0x20 ≠ 0) .invalid
  let type := slice bytes (s.offset + 4) 4
  reject ((crc32 bytes (s.offset + 4) dataEnd).toNat ≠ u32 bytes dataEnd) .invalid
  reject (animatedPngChunks.contains type || compressedPngMetadataChunks.contains type) .unsupported
  checkText bytes type dataStart dataEnd
  let turn ← s.take bytes type dataStart length (chunkEnd = bytes.length)
  return PngState.advance chunkEnd turn

theorem pngChunk_falls {bytes : Bytes} {s t : PngState} (inside : s.offset + 12 ≤ bytes.length)
    (is : pngChunk bytes s = .ok (.next t)) : bytes.length - t.offset < bytes.length - s.offset := by
  simp only [pngChunk, reject_bind] at is
  obtain ⟨-, -, -, -, -, is⟩ := is
  obtain ⟨_, -, is⟩ := bind_ok.mp is
  obtain ⟨turn, -, is⟩ := bind_ok.mp is
  cases turn with
  | done => cases is
  | next u =>
    cases is
    simp only
    omega

def pngLoop (bytes : Bytes) : Loop PngState Image Reason where
  round s := if s.offset + 12 ≤ bytes.length then pngChunk bytes s else .error .invalid
  measure s := bytes.length - s.offset
  falls is := by
    split at is
    · rename_i inside
      exact pngChunk_falls inside is
    · cases is

def inspectPng (bytes : Bytes) : Inspection :=
  if bytes.length < 57 || bytes.take 8 ≠ pngSignature then .error .invalid
  else (pngLoop bytes).run {}

/-- A chunk of a PNG, without its length and CRC. -/
@[ext]
structure Chunk where
  type : Bytes
  data : Bytes
  deriving DecidableEq

/-- CRC-32 of a byte string. -/
def checksum (bytes : Bytes) : UInt32 := bytes.foldl crcByte 0xffffffff ^^^ 0xffffffff

namespace Chunk
variable (c : Chunk)

def encode : Bytes :=
  bigEndian 4 c.data.length ++ c.type ++ c.data ++ bigEndian 4 (checksum (c.type ++ c.data)).toNat

/-- The chunk that starts at a position. -/
def readAt (bytes : Bytes) (start : Nat) : Chunk :=
  { type := slice bytes (start + 4) 4, data := slice bytes (start + 8) (u32 bytes start) }

/-- The length and the letters of its type, the third of them in upper case. -/
structure Lawful : Prop where
  short : c.data.length < 2 ^ 32
  letters : ∃ one two three four, c.type = [one, two, three, four] ∧
    (∀ letter ∈ [one, two, three, four], isLetter letter.toNat = true) ∧
    65 ≤ three.toNat ∧ three.toNat ≤ 90

theorem length_encode (four : c.type.length = 4) : c.encode.length = 12 + c.data.length := by
  simp only [encode, List.length_append, length_bigEndian, four]
  omega

end Chunk

section
variable {bytes rest : Bytes} {start i : Nat}

theorem u32_eq (inside : start + 4 ≤ bytes.length) :
    u32 bytes start = ofBigEndian (slice bytes start 4) := by
  have length := length_slice inside
  have reads : ∀ i < 4, octet bytes (start + i) = octet (slice bytes start 4) i :=
    fun i before => (octet_slice before).symm
  match four : slice bytes start 4, length with
  | [a, b, c, d], _ =>
    rw [four] at reads
    have first : octet bytes start = a.toNat := reads 0 (by decide)
    simp only [u32, first, reads 1 (by decide), reads 2 (by decide), reads 3 (by decide), ofBigEndian]
    simp
    ring

theorem u32_lt (bytes : Bytes) (start : Nat) : u32 bytes start < 2 ^ 32 := by
  have one := octet_lt bytes start
  have two := octet_lt bytes (start + 1)
  have three := octet_lt bytes (start + 2)
  have four := octet_lt bytes (start + 3)
  simp only [u32]
  omega

/-- The four bytes at a position are the number there. -/
theorem bigEndian_u32 (inside : start + 4 ≤ bytes.length) :
    bigEndian 4 (u32 bytes start) = slice bytes start 4 := by
  have whole := bigEndian_ofBigEndian (slice bytes start 4)
  rwa [length_slice inside, ← u32_eq inside] at whole

theorem u32_of_drop {n : Nat} (fits : n < 2 ^ 32) (here : bytes.drop start = bigEndian 4 n ++ rest)
    (inside : start ≤ bytes.length) : u32 bytes start = n := by
  have within := le_of_drop here inside
  rw [length_bigEndian] at within
  have part := slice_of_drop here
  rw [length_bigEndian] at part
  rw [u32_eq (by omega), part]
  exact ofBigEndian_bigEndian fits

theorem crc32_eq (inside : start + i ≤ bytes.length) :
    crc32 bytes start (start + i) = checksum (slice bytes start i) := by
  have same : (List.range' start i).map (fun offset => bytes.getD offset 0) = slice bytes start i := by
    apply List.ext_getElem
    · rw [List.length_map, List.length_range', length_slice inside]
    · intro n before _
      simp only [List.length_map, List.length_range'] at before
      simp [slice, List.getD_eq_getElem?_getD, List.getElem?_eq_getElem (show start + n < bytes.length by omega)]
  rw [crc32, checksum, Nat.add_sub_cancel_left, ← same, List.foldl_map]

end

section
variable {bytes before after data : Bytes} {start stop dataStart : Nat}

/-- The search stops at the first zero, or at the end. -/
theorem seekZero_split (inside : stop ≤ bytes.length) (early : start ≤ stop) :
    ∃ before : Bytes, 0 ∉ before ∧ seekZero bytes start stop = start + before.length ∧
      bytes.drop start = before ++ bytes.drop (start + before.length) ∧
      start + before.length ≤ stop ∧
      (start + before.length < stop →
        bytes.drop (start + before.length) = 0 :: bytes.drop (start + before.length + 1)) := by
  fun_induction seekZero bytes start stop with
  | case1 start condition ih =>
    simp only [Bool.and_eq_true, decide_eq_true_eq] at condition
    obtain ⟨inner, nonzero⟩ := condition
    have here := List.drop_eq_getElem_cons (show start < bytes.length by omega)
    obtain ⟨before, zeroless, found, split, within, zero⟩ := ih (by omega)
    have shift : start + 1 + before.length = start + (bytes[start] :: before).length := by
      rw [List.length_cons]
      omega
    refine ⟨bytes[start] :: before, ?_, by rw [found, shift], ?_, by omega, ?_⟩
    · intro member
      rcases List.mem_cons.mp member with first | rest
      · apply nonzero
        rw [octet_eq_zero (by omega), here, ← first]
      · exact zeroless rest
    · rw [here, split, ← shift]
      rfl
    · rw [← shift]
      exact zero
  | case2 start condition =>
    refine ⟨[], nofun, rfl, rfl, early, fun inner => ?_⟩
    have inner : start < stop := inner
    apply (octet_eq_zero (by omega)).mp
    simpa [inner] using condition

theorem seekZero_found (here : bytes.drop start = before ++ 0 :: after) (zeroless : 0 ∉ before)
    (inner : start + before.length < stop) : seekZero bytes start stop = start + before.length := by
  induction before generalizing start with
  | nil =>
    have zero : octet bytes start = 0 := by
      have first := @octet_of_drop bytes [0] after start 0 here (by decide)
      simpa using first
    rw [seekZero, if_neg (by simp [zero])]
    rfl
  | cons byte before ih =>
    have first := @octet_of_drop bytes [byte] (before ++ 0 :: after) start 0 here (by simp)
    have nonzero : octet bytes start ≠ 0 := by
      intro zero
      apply zeroless
      have same : byte.toNat = 0 := first.symm.trans zero
      rw [show byte = 0 from UInt8.toNat_inj.mp same]
      exact List.mem_cons_self
    have later : bytes.drop (start + 1) = before ++ 0 :: after :=
      @drop_of_drop _ bytes [byte] _ start here
    rw [List.length_cons] at inner ⊢
    rw [seekZero, if_pos (by simp [nonzero]; omega),
      ih later (fun member => zeroless (List.mem_cons_of_mem _ member)) (by omega)]
    omega

/-- The data of an iTXt chunk that a decoder need not inflate: a keyword, two zero bytes
for "not compressed" and the method, a language tag, a translated keyword and the text. -/
def Text (data : Bytes) : Prop :=
  ∃ keyword language translated text : Bytes,
    data = keyword ++ [0, 0, 0] ++ language ++ [0] ++ translated ++ [0] ++ text ∧
    0 ∉ keyword ∧ 0 ∉ language ∧ 0 ∉ translated ∧ 1 ≤ keyword.length ∧ keyword.length ≤ 79

theorem inspectText_sound (inside : dataEnd ≤ bytes.length) (early : dataStart ≤ dataEnd)
    (accepted : inspectText bytes dataStart dataEnd = .ok ()) :
    Text (slice bytes dataStart (dataEnd - dataStart)) := by
  simp only [inspectText, reject_bind, reject_ok, Bool.or_eq_false_iff, decide_eq_false_iff_not] at accepted
  obtain ⟨⟨⟨nonempty, short⟩, flags⟩, ⟨plain, method⟩, ⟨ends, closes⟩, static⟩ := accepted
  obtain ⟨keyword, noKeyword, foundKeyword, hereKeyword, -, zeroKeyword⟩ := seekZero_split inside early
  rw [foundKeyword] at nonempty short flags plain method ends closes static
  obtain ⟨language, noLanguage, foundLanguage, hereLanguage, -, zeroLanguage⟩ :=
    @seekZero_split bytes (dataStart + keyword.length + 3) _ inside (by omega)
  rw [foundLanguage] at ends closes
  obtain ⟨translated, noTranslated, foundTranslated, hereTranslated, -, zeroTranslated⟩ :=
    @seekZero_split bytes (dataStart + keyword.length + 3 + language.length + 1) _ inside (by omega)
  rw [foundTranslated] at closes
  have flag : octet bytes (dataStart + keyword.length + 1) = 0 := by omega
  have plainFlag := (octet_eq_zero (by omega)).mp flag
  have zero : octet bytes (dataStart + keyword.length + 2) = 0 := by simpa using method
  have plainMethod := (octet_eq_zero (by omega)).mp zero
  have whole : bytes.drop dataStart =
      (keyword ++ [0, 0, 0] ++ language ++ [0] ++ translated ++ [0]) ++
        bytes.drop (dataStart + keyword.length + 3 + language.length + 1 + translated.length + 1) := by
    rw [hereKeyword, zeroKeyword (by omega), plainFlag, plainMethod, hereLanguage, zeroLanguage (by omega),
      hereTranslated, zeroTranslated (by omega)]
    simp
  refine ⟨keyword, language, translated, _, slice_of_prefix whole ?_, noKeyword, noLanguage, noTranslated,
    ?_, ?_⟩
  · simp only [List.length_append, List.length_cons, List.length_nil]
    omega
  · have nonempty : ¬ dataStart + keyword.length = dataStart := nonempty
    omega
  · omega

theorem inspectText_complete (here : bytes.drop dataStart = data ++ after) (text : Text data) :
    inspectText bytes dataStart (dataStart + data.length) = .ok () := by
  obtain ⟨keyword, language, translated, text, is, noKeyword, noLanguage, noTranslated, nonempty, short⟩ := text
  have length : data.length =
      keyword.length + 3 + language.length + 1 + translated.length + 1 + text.length := by
    rw [is]
    simp only [List.length_append, List.length_cons, List.length_nil]
  have hereKeyword : bytes.drop dataStart =
      keyword ++ 0 :: ([0, 0] ++ (language ++ [0] ++ translated ++ [0] ++ text ++ after)) := by
    rw [here, is]
    simp
  have hereFlags := drop_of_drop hereKeyword
  have hereLanguage : bytes.drop (dataStart + keyword.length + 3) =
      language ++ 0 :: (translated ++ [0] ++ text ++ after) := by
    refine (@drop_of_drop _ bytes [0, 0, 0] _ _ hereFlags).trans ?_
    simp
  have hereTranslated : bytes.drop (dataStart + keyword.length + 3 + language.length + 1) =
      translated ++ 0 :: (text ++ after) := by
    have rest := drop_of_drop hereLanguage
    refine (@drop_of_drop _ bytes [0] _ _ rest).trans ?_
    simp
  have foundKeyword := @seekZero_found _ _ _ _ (dataStart + data.length) hereKeyword noKeyword (by omega)
  have foundLanguage := @seekZero_found _ _ _ _ (dataStart + data.length) hereLanguage noLanguage (by omega)
  have foundTranslated :=
    @seekZero_found _ _ _ _ (dataStart + data.length) hereTranslated noTranslated (by omega)
  have flag : octet bytes (dataStart + keyword.length + 1) = 0 :=
    @octet_of_drop bytes [0, 0] _ _ 1 hereFlags (by decide)
  have method : octet bytes (dataStart + keyword.length + 2) = 0 :=
    @octet_of_drop bytes [0, 0, 0] _ _ 2 hereFlags (by decide)
  simp only [inspectText, reject_bind, reject_ok, foundKeyword, foundLanguage, foundTranslated, flag, method,
    Bool.or_eq_false_iff, decide_eq_false_iff_not]
  refine ⟨⟨⟨?_, ?_⟩, ?_⟩, ⟨by decide, by decide⟩, ⟨?_, ?_⟩, by decide⟩ <;> omega

end

section
variable {bytes rest : Bytes} {start : Nat} {c : Chunk}

theorem upper_iff {character : Nat} (byte : character < 256) (letter : isLetter character = true) :
    (character &&& 0x20 = 0 ↔ 65 ≤ character ∧ character ≤ 90) ∧
      (character &&& 0x20 ≠ 0 ↔ 97 ≤ character ∧ character ≤ 122) := by
  have all : ∀ n : Fin 256, isLetter n.val = true →
      ((n.val &&& 0x20 = 0 ↔ 65 ≤ n.val ∧ n.val ≤ 90) ∧
        (n.val &&& 0x20 ≠ 0 ↔ 97 ≤ n.val ∧ n.val ≤ 122)) := by decide +kernel
  exact all ⟨character, byte⟩ letter

/-- What lies at a position that passed the checks of length and CRC. -/
theorem encode_at (inside : start + 8 + u32 bytes start + 4 ≤ bytes.length)
    (crc : (crc32 bytes (start + 4) (start + 8 + u32 bytes start)).toNat =
      u32 bytes (start + 8 + u32 bytes start)) :
    bytes.drop start =
      (Chunk.readAt bytes start).encode ++ bytes.drop (start + 8 + u32 bytes start + 4) := by
  have data : (slice bytes (start + 8) (u32 bytes start)).length = u32 bytes start :=
    length_slice (by omega)
  have covered : crc32 bytes (start + 4) (start + 8 + u32 bytes start) =
      checksum (slice bytes (start + 4) 4 ++ slice bytes (start + 8) (u32 bytes start)) := by
    have whole := @crc32_eq bytes (start + 4) (4 + u32 bytes start) (by omega)
    rw [slice_add] at whole
    rw [show start + 8 + u32 bytes start = start + 4 + (4 + u32 bytes start) by omega, whole]
  rw [drop_slice bytes start 4, drop_slice bytes (start + 4) 4, drop_slice bytes (start + 8) (u32 bytes start),
    drop_slice bytes (start + 8 + u32 bytes start) 4]
  simp only [Chunk.encode, Chunk.readAt, data, ← covered, crc]
  rw [bigEndian_u32 (by omega), bigEndian_u32 (by omega)]
  simp only [List.append_assoc]

theorem lawful_at (inside : start + 8 ≤ bytes.length)
    (letters : ([4, 5, 6, 7].all fun index => isLetter (octet bytes (start + index))) = true)
    (upper : octet bytes (start + 6) &&& 0x20 = 0) (short : (Chunk.readAt bytes start).data.length < 2 ^ 32) :
    (Chunk.readAt bytes start).Lawful := by
  refine ⟨short, ?_⟩
  have length := @length_slice _ bytes (start + 4) 4 (by omega)
  have reads : ∀ i < 4, octet bytes (start + (4 + i)) = octet (slice bytes (start + 4) 4) i := by
    intro i before
    rw [octet_slice before, Nat.add_assoc]
  match type : slice bytes (start + 4) 4, length with
  | [a, b, c, d], _ =>
    rw [type] at reads
    simp only [List.all_cons, List.all_nil, Bool.and_true, Bool.and_eq_true] at letters
    obtain ⟨one, two, three, four⟩ := letters
    have first : octet bytes (start + 4) = a.toNat := reads 0 (by decide)
    have second : octet bytes (start + 5) = b.toNat := reads 1 (by decide)
    have third : octet bytes (start + 6) = c.toNat := reads 2 (by decide)
    have fourth : octet bytes (start + 7) = d.toNat := reads 3 (by decide)
    rw [first] at one
    rw [second] at two
    rw [third] at three upper
    rw [fourth] at four
    refine ⟨a, b, c, d, type, by simp [one, two, three, four], ?_⟩
    exact ((upper_iff (UInt8.toNat_lt c) three).1).mp upper

theorem checks_of_lawful (here : bytes.drop start = c.encode ++ rest) (lawful : c.Lawful) :
    (([4, 5, 6, 7].all fun index => isLetter (octet bytes (start + index))) = true) ∧
      octet bytes (start + 6) &&& 0x20 = 0 := by
  obtain ⟨-, one, two, three, four, type, letters, upper⟩ := lawful
  have past : bytes.drop (start + 4) = [one, two, three, four] ++
      (c.data ++ bigEndian 4 (checksum (c.type ++ c.data)).toNat ++ rest) := by
    have rest := @drop_of_drop _ bytes (bigEndian 4 c.data.length) (c.type ++ c.data ++
      bigEndian 4 (checksum (c.type ++ c.data)).toNat ++ rest) start (by simpa [Chunk.encode] using here)
    rw [length_bigEndian] at rest
    rw [rest, type]
    simp only [List.append_assoc]
  have reads : ∀ i < 4, octet bytes (start + (4 + i)) = octet [one, two, three, four] i := by
    intro i before
    rw [← Nat.add_assoc]
    exact octet_of_drop past before
  have first := reads 0 (by decide)
  have second := reads 1 (by decide)
  have third : octet bytes (start + 6) = three.toNat := reads 2 (by decide)
  have fourth := reads 3 (by decide)
  simp only [Nat.reduceAdd, octet_zero, octet_succ] at first second fourth
  have letter := letters three (by simp)
  constructor
  · simp only [List.all_cons, List.all_nil, Bool.and_true, Bool.and_eq_true, first, second, third, fourth]
    exact ⟨letters _ (by simp), letters _ (by simp), letter, letters _ (by simp)⟩
  · rw [third]
    exact ((upper_iff (UInt8.toNat_lt three) letter).1).mpr upper

end

end Conspire.Images
