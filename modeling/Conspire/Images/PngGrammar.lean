import Conspire.Images.Png
import Mathlib.Data.List.TakeWhile

/-! The grammar of the images that `inspectPng` accepts: which chunks a PNG consists of,
what follows what, and that the inspection is exactly this grammar. -/
namespace Conspire.Images
open Octets Loops

/-- A chunk that is admitted wherever its type is. -/
structure Chunk.Plain (c : Chunk) : Prop where
  lawful : c.Lawful
  still : c.type ∉ animatedPngChunks
  inflated : c.type ∉ compressedPngMetadataChunks
  text : c.type = ascii "iTXt" → Text c.data

section
variable {bytes rest : Bytes} {s : PngState} {c : Chunk} {turn : Turn PngState Image}

/-- A round looks at its chunk only. -/
def PngState.takes (s : PngState) (c : Chunk) (last : Bool) : Except Reason (Turn PngState Image) :=
  s.take c.data c.type 0 c.data.length last

theorem Chunk.Lawful.four (lawful : c.Lawful) : c.type.length = 4 := by
  obtain ⟨-, _, _, _, _, type, -⟩ := lawful
  rw [type]
  rfl

theorem u32_congr {a b : Bytes} {i j : Nat} (same : ∀ n < 4, octet a (i + n) = octet b (j + n)) :
    u32 a i = u32 b j := by
  have first : octet a i = octet b j := same 0 (by decide)
  simp only [u32, first, same 1 (by decide), same 2 (by decide), same 3 (by decide)]

theorem take_eq {start : Nat} (here : bytes.drop start = c.data ++ rest) (last : Bool) :
    s.take bytes c.type start c.data.length last = s.takes c last := by
  simp only [PngState.takes, PngState.take, PngState.takeHeader]
  by_cases length : c.data.length = 13
  · have reads : ∀ i < 13, octet bytes (start + i) = octet c.data (0 + i) := by
      intro i before
      rw [octet_of_drop here (length ▸ before), Nat.zero_add]
    have width : u32 bytes start = u32 c.data 0 :=
      u32_congr fun n before => reads n (by omega)
    have height : u32 bytes (start + 4) = u32 c.data (0 + 4) := by
      apply u32_congr
      intro n before
      rw [Nat.add_assoc, reads _ (by omega), Nat.add_assoc]
    rw [width, height, reads 8 (by decide), reads 9 (by decide), reads 10 (by decide),
      reads 11 (by decide), reads 12 (by decide)]
  · simp [length, reject, bind, Except.bind]

theorem encode_parts {start : Nat} (here : bytes.drop start = c.encode ++ rest) (lawful : c.Lawful)
    (inside : start ≤ bytes.length) :
    u32 bytes start = c.data.length ∧ slice bytes (start + 4) 4 = c.type ∧
      bytes.drop (start + 8) =
        c.data ++ (bigEndian 4 (checksum (c.type ++ c.data)).toNat ++ rest) ∧
      (crc32 bytes (start + 4) (start + 8 + c.data.length)).toNat =
        u32 bytes (start + 8 + c.data.length) ∧
      start + 8 + c.data.length + 4 + rest.length = bytes.length ∧
      bytes.drop (start + 8 + c.data.length + 4) = rest := by
  have size := le_of_drop here inside
  rw [c.length_encode lawful.four] at size
  simp only [Chunk.encode, List.append_assoc] at here
  have length := u32_of_drop lawful.short here inside
  have afterLength := drop_of_drop here
  rw [length_bigEndian] at afterLength
  have type := slice_of_drop afterLength
  rw [lawful.four] at type
  have afterType := drop_of_drop afterLength
  rw [lawful.four] at afterType
  have data := slice_of_drop afterType
  have afterData := drop_of_drop afterType
  have crc := u32_of_drop (checksum (c.type ++ c.data)).toNat_lt afterData (by omega)
  have afterCrc := drop_of_drop afterData
  rw [length_bigEndian] at afterCrc
  refine ⟨length, type, afterType, ?_, by omega, afterCrc⟩
  have whole := @crc32_eq bytes (start + 4) (4 + c.data.length) (by omega)
  rw [slice_add, type, show start + 4 + 4 = start + 8 from rfl, data] at whole
  rw [crc, show start + 8 + c.data.length = start + 4 + (4 + c.data.length) by omega, whole]

theorem pngChunk_sound (inside : s.offset + 12 ≤ bytes.length) (is : pngChunk bytes s = .ok turn) :
    ∃ c rest u, bytes.drop s.offset = c.encode ++ rest ∧ c.Plain ∧ s.takes c rest.isEmpty = .ok u ∧
      turn = PngState.advance (s.offset + c.encode.length) u := by
  simp only [pngChunk, reject_bind] at is
  obtain ⟨tiled, letters, upper, crc, still, is⟩ := is
  obtain ⟨_, texts, is⟩ := bind_ok.mp is
  obtain ⟨u, takes, is⟩ := bind_ok.mp is
  simp only [Bool.or_eq_false_iff, decide_eq_false_iff_not, not_not, Nat.not_lt, Bool.not_eq_false',
    List.contains_eq_mem] at tiled letters upper crc still
  have here := encode_at tiled.2 crc
  have short : (Chunk.readAt bytes s.offset).data.length < 2 ^ 32 := by
    have length : (Chunk.readAt bytes s.offset).data.length = u32 bytes s.offset := length_slice (by omega)
    rw [length]
    exact u32_lt bytes s.offset
  have lawful := lawful_at (by omega) letters upper short
  obtain ⟨length, type, data, -, size, -⟩ := encode_parts here lawful (by omega)
  refine ⟨_, _, u, here, ⟨lawful, still.1, still.2, fun isText => ?_⟩, ?_, ?_⟩
  · have accepted : inspectText bytes (s.offset + 8) (s.offset + 8 + u32 bytes s.offset) = .ok () := by
      simp only [checkText] at texts
      rwa [if_pos (show slice bytes (s.offset + 4) 4 = ascii "iTXt" from isText)] at texts
    have text := inspectText_sound (by omega) (by omega) accepted
    rwa [Nat.add_sub_cancel_left] at text
  · have last : (bytes.drop (s.offset + 8 + u32 bytes s.offset + 4)).isEmpty =
        decide (s.offset + 8 + u32 bytes s.offset + 4 = bytes.length) := by
      rw [Bool.eq_iff_iff, List.isEmpty_iff, List.drop_eq_nil_iff, decide_eq_true_eq]
      omega
    rw [← take_eq data, ← length, last]
    exact takes
  · cases is
    rw [Chunk.length_encode _ lawful.four, ← length]
    congr 1
    omega

theorem pngChunk_complete (small : bytes.length ≤ ImagePreviewLimits.encodedBytes)
    (inside : s.offset ≤ bytes.length) (here : bytes.drop s.offset = c.encode ++ rest) (plain : c.Plain)
    (takes : s.takes c rest.isEmpty = .ok turn) :
    pngChunk bytes s = .ok (PngState.advance (s.offset + c.encode.length) turn) := by
  obtain ⟨length, type, data, crc, size, -⟩ := encode_parts here plain.lawful inside
  obtain ⟨letters, upper⟩ := checks_of_lawful here plain.lawful
  have safe : isSafeInteger (s.offset + 8 + c.data.length + 4) = true := by
    have limit : ImagePreviewLimits.encodedBytes = 8388608 ∧ maxSafeInteger = 9007199254740991 := ⟨rfl, rfl⟩
    obtain ⟨few, safe⟩ := limit
    simp only [isSafeInteger, safe, decide_eq_true_eq]
    omega
  have texts : checkText bytes c.type (s.offset + 8) (s.offset + 8 + c.data.length) = .ok () := by
    simp only [checkText]
    split
    · rename_i isText
      exact inspectText_complete data (plain.text isText)
    · rfl
  have last : decide (s.offset + 8 + c.data.length + 4 = bytes.length) = rest.isEmpty := by
    rw [Bool.eq_iff_iff, List.isEmpty_iff_length_eq_zero, decide_eq_true_eq]
    omega
  simp only [pngChunk, reject_bind, length, type]
  refine ⟨?_, ?_, ?_, ?_, ?_, bind_ok.mpr ⟨(), texts, bind_ok.mpr ⟨turn, ?_, ?_⟩⟩⟩
  · simp only [safe, Bool.not_true, Bool.false_or, decide_eq_false_iff_not]
    omega
  · rw [letters]
    rfl
  · simpa using upper
  · simpa using crc
  · simp [plain.still, plain.inflated]
  · rw [last, take_eq data]
    exact takes
  · rw [Chunk.length_encode _ plain.lawful.four, show s.offset + (12 + c.data.length) =
      s.offset + 8 + c.data.length + 4 by omega]
    rfl

end

/-- What an IHDR chunk says. -/
structure Header where
  width : Nat
  height : Nat
  depth : Nat
  colour : Nat
  interlace : Nat
  deriving DecidableEq

namespace Header
variable (h : Header)

/-- Compression and filter method are 0. -/
def encode : Bytes :=
  bigEndian 4 h.width ++ bigEndian 4 h.height ++
    [UInt8.ofNat h.depth, UInt8.ofNat h.colour, 0, 0, UInt8.ofNat h.interlace]

/-- The pairs of a colour type and a bit depth. -/
def pairs : List (Nat × Nat) :=
  [(0, 1), (0, 2), (0, 4), (0, 8), (0, 16), (2, 8), (2, 16), (3, 1), (3, 2), (3, 4), (3, 8), (4, 8),
    (4, 16), (6, 8), (6, 16)]

structure Legal : Prop where
  fits : Fits h.width h.height
  pair : (h.colour, h.depth) ∈ pairs
  interlace : h.interlace = 0 ∨ h.interlace = 1

def image : Image := { format := .png, width := h.width, height := h.height, pixels := h.width * h.height }

def chunk : Chunk := { type := ascii "IHDR", data := h.encode }

theorem pairs_iff {colour depth : Nat} : (validDepths colour).contains depth = true ↔ (colour, depth) ∈ pairs := by
  simp only [List.contains_eq_mem, decide_eq_true_eq, pairs]
  unfold validDepths
  split <;> simp_all

variable {h}

theorem reads (legal : h.Legal) : u32 h.encode 0 = h.width ∧ u32 h.encode 4 = h.height ∧
    octet h.encode 8 = h.depth ∧ octet h.encode 9 = h.colour ∧ octet h.encode 10 = 0 ∧
    octet h.encode 11 = 0 ∧ octet h.encode 12 = h.interlace := by
  obtain ⟨⟨wide, high, -⟩, pair, interlace⟩ := legal
  have bounds : h.depth < 256 ∧ h.colour < 256 := by
    have all : ∀ p ∈ pairs, p.2 < 256 ∧ p.1 < 256 := by decide
    exact all _ pair
  have first : h.encode.drop 0 = bigEndian 4 h.width ++ (bigEndian 4 h.height ++
      [UInt8.ofNat h.depth, UInt8.ofNat h.colour, 0, 0, UInt8.ofNat h.interlace]) := by
    simp [encode]
  have second := drop_of_drop first
  have third := drop_of_drop second
  simp only [length_bigEndian, Nat.zero_add, Nat.reduceAdd] at second third
  have length : h.encode.length = 13 := by simp [encode]
  refine ⟨u32_of_drop (by omega) first (by omega), u32_of_drop (by omega) second (by omega), ?_⟩
  have tail : ∀ i < 5, octet h.encode (8 + i) =
      octet [UInt8.ofNat h.depth, UInt8.ofNat h.colour, 0, 0, UInt8.ofNat h.interlace] i := by
    intro i before
    exact octet_of_drop (third.trans (List.append_nil _).symm) before
  refine ⟨(tail 0 (by decide)).trans ?_, (tail 1 (by decide)).trans ?_, tail 2 (by decide), tail 3 (by decide),
    (tail 4 (by decide)).trans ?_⟩
  · exact UInt8.toNat_ofNat_of_lt' bounds.1
  · exact UInt8.toNat_ofNat_of_lt' bounds.2
  · exact UInt8.toNat_ofNat_of_lt' (by omega : h.interlace < 256)

/-- Thirteen bytes are the header they say. -/
theorem encode_read {data : Bytes} (length : data.length = 13) (compression : octet data 10 = 0)
    (filter : octet data 11 = 0) :
    data = encode ⟨u32 data 0, u32 data 4, octet data 8, octet data 9, octet data 12⟩ := by
  match data, length with
  | [a, b, c, d, e, f, g, h, i, j, k, l, m], _ =>
    have width := @bigEndian_u32 [a, b, c, d, e, f, g, h, i, j, k, l, m] 0 (by simp)
    have height := @bigEndian_u32 [a, b, c, d, e, f, g, h, i, j, k, l, m] 4 (by simp)
    simp only [encode, width, height]
    have zero : k = 0 ∧ l = 0 := ⟨UInt8.toNat_inj.mp compression, UInt8.toNat_inj.mp filter⟩
    obtain ⟨rfl, rfl⟩ := zero
    simp [slice, octet]

end Header

section
variable {s : PngState} {c : Chunk} {turn : Turn PngState Image} {last : Bool}

/-- The state after the first chunk. -/
def PngState.begun (s : PngState) (h : Header) : PngState :=
  { s with dimensions := some h.image, bitDepth := h.depth, colorType := h.colour }

theorem takes_header (first : s.chunks = 0) :
    s.takes c last = .ok turn ↔ ∃ h : Header, h.Legal ∧ c = h.chunk ∧ turn = .next (s.begun h) := by
  simp only [PngState.takes, PngState.take, if_pos first, map_ok]
  constructor
  · rintro ⟨t, header, rfl⟩
    simp only [PngState.takeHeader, reject_bind] at header
    obtain ⟨named, header⟩ := header
    obtain ⟨image, dimensions, header⟩ := bind_ok.mp header
    obtain ⟨fits, rfl⟩ := ok_iff.mp dimensions
    obtain ⟨legal, header⟩ := reject_bind.mp header
    cases header
    simp only [Bool.or_eq_false_iff, decide_eq_false_iff_not, not_not, Bool.not_eq_false'] at named legal
    obtain ⟨⟨⟨pair, compression⟩, filter⟩, interlace⟩ := legal
    refine ⟨⟨u32 c.data 0, u32 c.data 4, octet c.data 8, octet c.data 9, octet c.data 12⟩,
      ⟨fits, Header.pairs_iff.mp pair, by simpa using interlace⟩, ?_, rfl⟩
    exact Chunk.ext named.1 (Header.encode_read named.2 compression filter)
  · rintro ⟨h, legal, rfl, rfl⟩
    refine ⟨s.begun h, ?_, rfl⟩
    obtain ⟨width, height, depth, colour, compression, filter, interlace⟩ := Header.reads legal
    have length : h.chunk.data.length = 13 := by simp [Header.chunk, Header.encode]
    have named : h.chunk.type = ascii "IHDR" := rfl
    have data : h.chunk.data = h.encode := rfl
    have pair := Header.pairs_iff.mpr legal.pair
    have dimensions := ok_iff.mpr ⟨legal.fits, (rfl : h.image = _)⟩
    simp only [PngState.takeHeader, reject_bind, length, named]
    rw [data, Nat.zero_add, width, height]
    refine ⟨by simp, bind_ok.mpr ⟨h.image, dimensions, reject_bind.mpr ⟨?_, ?_⟩⟩⟩
    · rw [depth, colour, compression, filter, interlace, pair]
      rcases legal.interlace with zero | one
      · simp [zero]
      · simp [one]
    · rw [depth, colour]
      rfl

/-- The length of a palette. -/
structure Palette (colour depth length : Nat) : Prop where
  coloured : colour ≠ 0 ∧ colour ≠ 4
  entries : ∃ entries, length = 3 * entries ∧ 1 ≤ entries ∧ entries ≤ 256 ∧
    (colour = 3 → entries ≤ 2 ^ depth)

theorem palette_iff {colour depth length : Nat} : Palette colour depth length ↔
    ¬ (colour = 0 ∨ colour = 4 ∨ length = 0 ∨ 768 < length ∨ length % 3 ≠ 0 ∨
      (colour = 3 ∧ 2 ^ depth < length / 3)) := by
  constructor
  · rintro ⟨⟨gray, alpha⟩, entries, rfl, nonempty, few, indexed⟩
    have third : 3 * entries / 3 = entries := by omega
    rw [third]
    rintro (is | is | is | is | is | ⟨is, many⟩)
    · exact gray is
    · exact alpha is
    · omega
    · omega
    · omega
    · exact Nat.not_lt.mpr (indexed is) many
  · intro refuses
    simp only [not_or, not_and, not_lt, not_not] at refuses
    obtain ⟨gray, alpha, nonempty, few, whole, indexed⟩ := refuses
    exact ⟨⟨gray, alpha⟩, length / 3, by omega, by omega, by omega, indexed⟩

/-- A chunk that the loop goes on after, when it is not the first. -/
structure PngState.Admits (s : PngState) (c : Chunk) : Prop where
  inner : c.type ≠ ascii "IHDR" ∧ c.type ≠ ascii "IEND"
  palette : c.type = ascii "PLTE" →
    s.sawPalette = false ∧ s.sawData = false ∧ Palette s.colorType s.bitDepth c.data.length
  data : c.type = ascii "IDAT" → s.dataEnded = false ∧ (s.colorType = 3 → s.sawPalette = true)
  other : c.type ≠ ascii "PLTE" → c.type ≠ ascii "IDAT" → (c.type.headD 0).toNat &&& 0x20 ≠ 0

def PngState.after (s : PngState) (c : Chunk) : PngState :=
  { s with
    sawPalette := s.sawPalette || c.type = ascii "PLTE"
    sawData := s.sawData || c.type = ascii "IDAT"
    dataEnded := s.dataEnded || (s.sawData && c.type ≠ ascii "IDAT")
    dataBytes := s.dataBytes + if c.type = ascii "IDAT" then c.data.length else 0 }

theorem types_apart : ascii "PLTE" ≠ ascii "IDAT" ∧ ascii "IDAT" ≠ ascii "PLTE" ∧
    ascii "IEND" ≠ ascii "IHDR" ∧ ascii "IEND" ≠ ascii "PLTE" ∧ ascii "IEND" ≠ ascii "IDAT" := by decide

theorem takes_next (later : s.chunks ≠ 0) {t : PngState} :
    s.takes c last = .ok (.next t) ↔ s.Admits c ∧ t = s.after c := by
  simp only [PngState.takes, PngState.take, if_neg later, PngState.takeChunk]
  by_cases header : c.type = ascii "IHDR"
  · rw [if_pos header]
    exact ⟨nofun, fun admits => absurd header admits.1.inner.1⟩
  rw [if_neg header]
  by_cases palette : c.type = ascii "PLTE"
  · rw [if_pos palette]
    have whole : ∀ p q : Bool, (¬ (p || q || s.colorType = 0 || s.colorType = 4 || c.data.length = 0 ||
        768 < c.data.length || c.data.length % 3 ≠ 0 ||
        (s.colorType = 3 && 2 ^ s.bitDepth < c.data.length / 3)) = true) ↔
          p = false ∧ q = false ∧ Palette s.colorType s.bitDepth c.data.length := by
      intro p q
      rw [palette_iff]
      cases p <;> cases q <;> simp [or_assoc]
    by_cases refused : (s.sawPalette || s.sawData || s.colorType = 0 || s.colorType = 4 ||
        c.data.length = 0 || 768 < c.data.length || c.data.length % 3 ≠ 0 ||
        (s.colorType = 3 && 2 ^ s.bitDepth < c.data.length / 3)) = true
    · rw [if_pos refused]
      exact ⟨nofun, fun admits => absurd ((whole _ _).mpr (admits.1.palette palette)) (not_not.mpr refused)⟩
    · rw [if_neg refused]
      obtain ⟨fresh, before, fits⟩ := (whole _ _).mp refused
      have next : s.after c = { s with sawPalette := true } := by
        simp [PngState.after, palette, types_apart, before]
      rw [next]
      constructor
      · intro is
        cases is
        refine ⟨⟨⟨header, ?_⟩, fun _ => ⟨fresh, before, fits⟩, ?_, fun other => absurd palette other⟩, rfl⟩
        · rw [palette]
          exact types_apart.2.2.2.1.symm
        · rw [palette]
          exact fun is => absurd is types_apart.1
      · rintro ⟨-, rfl⟩
        rfl
  rw [if_neg palette]
  by_cases data : c.type = ascii "IDAT"
  · rw [if_pos data]
    have next : s.after c =
        { s with sawData := true, dataBytes := s.dataBytes + c.data.length } := by
      simp [PngState.after, data, types_apart]
    rw [next]
    by_cases refused : (s.dataEnded || (s.colorType = 3 && !s.sawPalette)) = true
    · rw [if_pos refused]
      refine ⟨nofun, fun admits => ?_⟩
      obtain ⟨unended, indexed⟩ := admits.1.data data
      simp only [unended, Bool.false_or, Bool.and_eq_true, decide_eq_true_eq] at refused
      simp [indexed refused.1] at refused
    · rw [if_neg refused]
      simp only [Bool.or_eq_true, Bool.and_eq_true, decide_eq_true_eq, Bool.not_eq_true', not_or, not_and,
        Bool.not_eq_true, Bool.not_eq_false] at refused
      constructor
      · intro is
        cases is
        refine ⟨⟨⟨header, ?_⟩, fun is => absurd is palette, fun _ => refused, fun _ other => absurd data other⟩, rfl⟩
        rw [data]
        exact types_apart.2.2.2.2.symm
      · rintro ⟨-, rfl⟩
        rfl
  rw [if_neg data]
  by_cases isEnd : c.type = ascii "IEND"
  · rw [if_pos isEnd]
    refine ⟨fun is => ?_, fun admits => absurd isEnd admits.1.inner.2⟩
    split at is
    · cases is
    · split at is <;> cases is
  rw [if_neg isEnd]
  have next : s.after c = { s with dataEnded := s.sawData || s.dataEnded } := by
    simp [PngState.after, palette, data, Bool.or_comm]
  rw [next]
  by_cases critical : (c.type.headD 0).toNat &&& 0x20 = 0
  · rw [if_pos critical]
    exact ⟨nofun, fun admits => absurd critical (admits.1.other palette data)⟩
  · rw [if_neg critical]
    constructor
    · intro is
      cases is
      exact ⟨⟨⟨header, isEnd⟩, fun is => absurd is palette, fun is => absurd is data, fun _ _ => critical⟩, rfl⟩
    · rintro ⟨-, rfl⟩
      rfl

theorem takes_done (later : s.chunks ≠ 0) {image : Image} :
    s.takes c last = .ok (.done image) ↔ c = ⟨ascii "IEND", []⟩ ∧ s.sawData = true ∧ s.dataBytes ≠ 0 ∧
      last = true ∧ s.dimensions = some image := by
  simp only [PngState.takes, PngState.take, if_neg later, PngState.takeChunk]
  constructor
  · intro is
    split at is
    · cases is
    split at is
    · split at is <;> cases is
    split at is
    · split at is <;> cases is
    split at is
    · rename_i isEnd
      split at is
      · cases is
      · rename_i accepted
        simp only [Bool.or_eq_true, decide_eq_true_eq, Bool.not_eq_true', not_or, not_not,
          Bool.not_eq_false] at accepted
        obtain ⟨⟨⟨empty, data⟩, hasData⟩, final⟩ := accepted
        split at is
        · rename_i known
          cases is
          exact ⟨Chunk.ext isEnd (List.length_eq_zero_iff.mp empty), data, hasData, final, known⟩
        · cases is
    · split at is <;> cases is
  · rintro ⟨rfl, data, hasData, rfl, known⟩
    simp [types_apart, data, hasData, known]

end

def Chunk.isOther (c : Chunk) : Bool := c.type ≠ ascii "IDAT"

/-- There is a chunk of image data, and one of another type after it. -/
def dataEnded (done : List Chunk) : Bool := (done.dropWhile Chunk.isOther).any Chunk.isOther

section
variable {done rest : List Chunk} {c : Chunk}

theorem isOther_iff : c.isOther = true ↔ c.type ≠ ascii "IDAT" := by simp [Chunk.isOther]

theorem any_data_iff : (∃ d ∈ done, d.type = ascii "IDAT") ↔ done.dropWhile Chunk.isOther ≠ [] := by
  rw [ne_eq, List.dropWhile_eq_nil_iff]
  simp [Chunk.isOther]

theorem dataEnded_snoc : dataEnded (done ++ [c]) = true ↔
    dataEnded done = true ∨ (∃ d ∈ done, d.type = ascii "IDAT") ∧ c.type ≠ ascii "IDAT" := by
  rw [any_data_iff, ← isOther_iff]
  simp only [dataEnded, List.dropWhile_append]
  cases tail : done.dropWhile Chunk.isOther with
  | nil =>
    cases other : c.isOther <;> simp [other]
  | cons d after => simp [or_assoc]

theorem dataEnded_of {before after : List Chunk} (data : ∃ d ∈ before, d.type = ascii "IDAT")
    (other : c.type ≠ ascii "IDAT") : dataEnded (before ++ c :: after) = true := by
  rw [any_data_iff] at data
  rw [← isOther_iff] at other
  simp only [dataEnded, List.dropWhile_append]
  rw [if_neg (by simpa using data)]
  simp [other]

theorem dataEnded_split (ended : dataEnded done = true) : ∃ before c after, done = before ++ c :: after ∧
    c.type ≠ ascii "IDAT" ∧ ∃ d ∈ before, d.type = ascii "IDAT" := by
  obtain ⟨c, member, other⟩ := List.any_eq_true.mp ended
  have whole := @List.takeWhile_append_dropWhile _ Chunk.isOther done
  cases tail : done.dropWhile Chunk.isOther with
  | nil =>
    rw [tail] at member
    cases member
  | cons d after =>
    have first : d.isOther = false := by
      have stops := List.head?_dropWhile_not Chunk.isOther done
      rw [tail] at stops
      exact stops
    rw [tail] at member whole
    rcases List.mem_cons.mp member with rfl | later
    · rw [first] at other
      cases other
    · obtain ⟨before, after, rfl⟩ := List.append_of_mem later
      refine ⟨done.takeWhile Chunk.isOther ++ d :: before, c, after, ?_, isOther_iff.mp other, d, by simp, ?_⟩
      · rw [List.append_assoc]
        exact whole.symm
      · by_contra is
        rw [isOther_iff.mpr is] at first
        cases first

/-- What the state of the loop says of the chunks before. -/
structure Describes (h : Header) (done : List Chunk) (s : PngState) : Prop where
  begun : s.dimensions = some h.image ∧ s.bitDepth = h.depth ∧ s.colorType = h.colour
  later : s.chunks ≠ 0
  palette : s.sawPalette = true ↔ ∃ c ∈ done, c.type = ascii "PLTE"
  data : s.sawData = true ↔ ∃ c ∈ done, c.type = ascii "IDAT"
  ended : s.dataEnded = dataEnded done
  bytes : s.dataBytes ≠ 0 ↔ ∃ c ∈ done, c.type = ascii "IDAT" ∧ c.data ≠ []

/-- A chunk that may come after others. -/
structure Admitted (h : Header) (done : List Chunk) (c : Chunk) : Prop where
  inner : c.type ≠ ascii "IHDR" ∧ c.type ≠ ascii "IEND"
  palette : c.type = ascii "PLTE" →
    (∀ d ∈ done, d.type ≠ ascii "PLTE" ∧ d.type ≠ ascii "IDAT") ∧ Palette h.colour h.depth c.data.length
  data : c.type = ascii "IDAT" →
    dataEnded done = false ∧ (h.colour = 3 → ∃ d ∈ done, d.type = ascii "PLTE")
  other : c.type ≠ ascii "PLTE" → c.type ≠ ascii "IDAT" → (c.type.headD 0).toNat &&& 0x20 ≠ 0

variable {h : Header} {s : PngState}

theorem Describes.admits_iff (describes : Describes h done s) : s.Admits c ↔ Admitted h done c := by
  obtain ⟨⟨-, depth, colour⟩, -, palette, data, ended, -⟩ := describes
  have fresh : (s.sawPalette = false ∧ s.sawData = false) ↔
      ∀ d ∈ done, d.type ≠ ascii "PLTE" ∧ d.type ≠ ascii "IDAT" := by
    rw [← Bool.not_eq_true, ← Bool.not_eq_true, palette, data]
    simp only [not_exists, not_and]
    exact ⟨fun unseen d member => ⟨unseen.1 d member, unseen.2 d member⟩,
      fun unseen => ⟨fun d member => (unseen d member).1, fun d member => (unseen d member).2⟩⟩
  constructor
  · rintro ⟨inner, plte, idat, other⟩
    refine ⟨inner, fun is => ?_, fun is => ?_, other⟩
    · obtain ⟨one, two, fits⟩ := plte is
      exact ⟨fresh.mp ⟨one, two⟩, colour ▸ depth ▸ fits⟩
    · obtain ⟨unended, indexed⟩ := idat is
      exact ⟨ended ▸ unended, fun three => palette.mp (indexed (colour.trans three))⟩
  · rintro ⟨inner, plte, idat, other⟩
    refine ⟨inner, fun is => ?_, fun is => ?_, other⟩
    · obtain ⟨unseen, fits⟩ := plte is
      exact ⟨(fresh.mpr unseen).1, (fresh.mpr unseen).2, colour ▸ depth ▸ fits⟩
    · obtain ⟨unended, indexed⟩ := idat is
      exact ⟨ended.trans unended, fun three => palette.mpr (indexed (colour.symm.trans three))⟩

theorem Describes.after (describes : Describes h done s) (chunkEnd : Nat) :
    Describes h (done ++ [c]) { s.after c with chunks := s.chunks + 1, offset := chunkEnd } := by
  obtain ⟨begun, later, palette, data, ended, bytes⟩ := describes
  refine ⟨begun, Nat.succ_ne_zero _, ?_, ?_, ?_, ?_⟩
  · simp [PngState.after, palette, or_and_right, exists_or]
  · simp [PngState.after, data, or_and_right, exists_or]
  · rw [Bool.eq_iff_iff, dataEnded_snoc, ← data, ← ended]
    simp [PngState.after]
  · simp only [PngState.after, List.mem_append, List.mem_singleton, or_and_right, exists_or, exists_eq_left]
    rw [← bytes]
    split
    · rename_i is
      simp only [is, true_and, ne_eq, ← List.length_eq_zero_iff]
      omega
    · rename_i other
      simp [other]

end

/-- The chunk that ends a PNG. -/
def pngEnd : Chunk := { type := ascii "IEND", data := [] }

/-- The chunks that may come after others, up to the last one. -/
inductive Follows (h : Header) : List Chunk → List Chunk → Prop where
  | last : (∃ c ∈ done, c.type = ascii "IDAT" ∧ c.data ≠ []) → Follows h done [pngEnd]
  | next : c.Plain → Admitted h done c → Follows h (done ++ [c]) rest → Follows h done (c :: rest)

section
variable {done rest : List Chunk} {c : Chunk} {h : Header} {s : PngState}

theorem pngEnd_plain : pngEnd.Plain where
  lawful := ⟨by decide, 73, 69, 78, 68, by decide, by simp [isLetter], by decide⟩
  still := by decide
  inflated := by decide
  text is := absurd is (by decide)

theorem round_eq {bytes : Bytes} {turn : Turn PngState Image} :
    (pngLoop bytes).round s = .ok turn ↔
      s.offset + 12 ≤ bytes.length ∧ pngChunk bytes s = .ok turn := by
  simp only [pngLoop]
  split
  · rename_i inside
    simp [inside]
  · rename_i outside
    exact ⟨nofun, fun is => absurd is.1 outside⟩

theorem follows_of_rounds {bytes : Bytes} {image : Image} (rounds : (pngLoop bytes).Rounds s image)
    (describes : Describes h done s) :
    image = h.image ∧ ∃ rest : List Chunk, bytes.drop s.offset = rest.flatMap Chunk.encode ∧
      Follows h done rest := by
  induction rounds generalizing done with
  | done is =>
    obtain ⟨inside, is⟩ := round_eq.mp is
    obtain ⟨c, rest, u, here, plain, takes, turn⟩ := pngChunk_sound inside is
    cases u with
    | next => cases turn
    | done =>
      cases turn
      obtain ⟨rfl, -, hasData, final, known⟩ := (takes_done describes.later).mp takes
      obtain rfl := List.isEmpty_iff.mp final
      obtain rfl := Option.some.inj (known.symm.trans describes.begun.1)
      exact ⟨rfl, [pngEnd], by simpa [pngEnd] using here, .last (describes.bytes.mp hasData)⟩
  | next is _ ih =>
    obtain ⟨inside, is⟩ := round_eq.mp is
    obtain ⟨c, rest, u, here, plain, takes, turn⟩ := pngChunk_sound inside is
    cases u with
    | done => cases turn
    | next t =>
      cases turn
      obtain ⟨admits, rfl⟩ := (takes_next describes.later).mp takes
      obtain ⟨image, chunks, there, follows⟩ := ih (describes.after _)
      rw [drop_of_drop here] at there
      refine ⟨image, c :: chunks, ?_, .next plain (describes.admits_iff.mp admits) follows⟩
      rw [here, there, List.flatMap_cons]

theorem rounds_of_follows {bytes : Bytes} (small : bytes.length ≤ ImagePreviewLimits.encodedBytes)
    (follows : Follows h done rest) (describes : Describes h done s)
    (inside : s.offset ≤ bytes.length) (here : bytes.drop s.offset = rest.flatMap Chunk.encode) :
    (pngLoop bytes).Rounds s h.image := by
  induction follows generalizing s with
  | @last done hasData =>
    have here : bytes.drop s.offset = pngEnd.encode ++ [] := by simpa using here
    have data : s.sawData = true := by
      apply describes.data.mpr
      obtain ⟨c, member, is, _⟩ := hasData
      exact ⟨c, member, is⟩
    have takes : s.takes pngEnd true = .ok (.done h.image) :=
      (takes_done describes.later).mpr ⟨rfl, data, describes.bytes.mpr hasData, rfl, describes.begun.1⟩
    have size := le_of_drop here inside
    rw [Chunk.length_encode _ pngEnd_plain.lawful.four] at size
    exact .done (round_eq.mpr ⟨by omega, pngChunk_complete small inside here pngEnd_plain takes⟩)
  | @next done c rest plain admitted _ ih =>
    rw [List.flatMap_cons] at here
    have takes := fun last : Bool => (@takes_next s c last describes.later (s.after c)).mpr
      ⟨describes.admits_iff.mpr admitted, rfl⟩
    have size := le_of_drop here inside
    have long := Chunk.length_encode _ plain.lawful.four
    refine .next (round_eq.mpr ⟨by omega, pngChunk_complete small inside here plain (takes _)⟩) ?_
    exact ih (describes.after _) (by simp only; omega) (drop_of_drop here)

theorem follows_iff : Follows h done rest ↔ ∃ middle, rest = middle ++ [pngEnd] ∧
    (∀ c ∈ middle, c.Plain) ∧
    (∀ before c after, middle = before ++ c :: after → Admitted h (done ++ before) c) ∧
    ∃ c ∈ done ++ middle, c.type = ascii "IDAT" ∧ c.data ≠ [] := by
  constructor
  · intro follows
    induction follows with
    | last hasData => exact ⟨[], rfl, nofun, by simp, by simpa using hasData⟩
    | @next done c rest plain admitted _ ih =>
      obtain ⟨middle, rfl, plains, all, hasData⟩ := ih
      refine ⟨c :: middle, rfl, List.forall_mem_cons.mpr ⟨plain, plains⟩, ?_, by simpa using hasData⟩
      intro before d after is
      rcases List.cons_eq_append_iff.mp is with ⟨rfl, first⟩ | ⟨later, rfl, rest⟩
      · cases first
        rwa [List.append_nil]
      · rw [← List.singleton_append, ← List.append_assoc]
        exact all later d after rest
  · rintro ⟨middle, rfl, plains, all, hasData⟩
    induction middle generalizing done with
    | nil => exact .last (by simpa using hasData)
    | cons c middle ih =>
      obtain ⟨plain, plains⟩ := List.forall_mem_cons.mp plains
      have first := all [] c middle rfl
      rw [List.append_nil] at first
      refine .next plain first (ih plains (fun before d after is => ?_) (by simpa using hasData))
      rw [List.append_assoc]
      exact all (c :: before) d after (by rw [is]; rfl)

end

/-- The chunks of a PNG with the header. -/
structure Png (h : Header) (chunks : List Chunk) : Prop where
  /-- Four letters, no animation, no compressed metadata, every iTXt uncompressed. -/
  plain : ∀ c ∈ chunks, c.Plain
  header : h.Legal ∧ ∃ rest, chunks = h.chunk :: rest ∧ ∀ c ∈ rest, c.type ≠ ascii "IHDR"
  palette : ∀ before c after, chunks = before ++ c :: after → c.type = ascii "PLTE" →
    (∀ d ∈ before, d.type ≠ ascii "PLTE" ∧ d.type ≠ ascii "IDAT") ∧ Palette h.colour h.depth c.data.length
  consecutive : ∀ before c after, chunks = before ++ c :: after → c.type ≠ ascii "IDAT" →
    (∃ d ∈ before, d.type = ascii "IDAT") → ∀ e ∈ after, e.type ≠ ascii "IDAT"
  data : ∃ c ∈ chunks, c.type = ascii "IDAT" ∧ c.data ≠ []
  indexed : h.colour = 3 → ∀ before c after, chunks = before ++ c :: after → c.type = ascii "IDAT" →
    ∃ d ∈ before, d.type = ascii "PLTE"
  /-- Every other chunk is ancillary: its first letter is in lower case. -/
  other : ∀ c ∈ chunks, c.type ∉ [ascii "IHDR", ascii "PLTE", ascii "IDAT", ascii "IEND"] →
    97 ≤ (c.type.headD 0).toNat ∧ (c.type.headD 0).toNat ≤ 122
  last : ∃ front, chunks = front ++ [pngEnd] ∧ ∀ c ∈ front, c.type ≠ ascii "IEND"

/-- The signature and chunks of a PNG of this size, and nothing else. -/
def PngFile (bytes : Bytes) (width height : Nat) : Prop :=
  ∃ h chunks, Png h chunks ∧ bytes = pngSignature ++ chunks.flatMap Chunk.encode ∧
    h.width = width ∧ h.height = height

section
variable {h : Header} {rest chunks : List Chunk}

theorem Chunk.Plain.ancillary_iff {c : Chunk} (plain : c.Plain) :
    (c.type.headD 0).toNat &&& 0x20 ≠ 0 ↔
      97 ≤ (c.type.headD 0).toNat ∧ (c.type.headD 0).toNat ≤ 122 := by
  obtain ⟨-, one, _, _, _, type, letters, -⟩ := plain.lawful
  rw [type]
  exact (upper_iff (UInt8.toNat_lt one) (letters one (by simp))).2

theorem headerChunk_plain : h.chunk.Plain where
  lawful := ⟨by simp [Header.chunk, Header.encode], 73, 72, 68, 82, rfl, by simp [isLetter], by decide⟩
  still := show ascii "IHDR" ∉ _ by decide
  inflated := show ascii "IHDR" ∉ _ by decide
  text is := absurd (show ascii "IHDR" = ascii "iTXt" from is) (by decide)

/-- A chunk that is neither an IHDR nor an IEND lies between the first and the last. -/
theorem inner_split {middle before after : List Chunk} {c : Chunk}
    (is : h.chunk :: (middle ++ [pngEnd]) = before ++ c :: after) (notFirst : c.type ≠ ascii "IHDR")
    (notLast : c.type ≠ ascii "IEND") :
    ∃ front back, before = h.chunk :: front ∧ after = back ++ [pngEnd] ∧ middle = front ++ c :: back := by
  cases before with
  | nil =>
    obtain ⟨rfl, -⟩ := List.cons.inj is
    exact absurd rfl notFirst
  | cons first front =>
    obtain ⟨rfl, rest⟩ := List.cons.inj is
    have inner : middle ++ [pngEnd] = front ++ c :: after := rest
    rcases List.eq_nil_or_concat after with rfl | ⟨back, last, rfl⟩
    · obtain ⟨-, same⟩ := List.append_inj' inner rfl
      obtain rfl := List.singleton_inj.mp same
      exact absurd rfl notLast
    · rw [List.concat_eq_append, ← List.cons_append, ← List.append_assoc] at inner
      obtain ⟨rfl, same⟩ := List.append_inj' inner rfl
      obtain rfl := List.singleton_inj.mp same
      exact ⟨front, back, rfl, List.concat_eq_append, rfl⟩

theorem data_inner {type : Bytes} (is : type = ascii "IDAT") : type ≠ ascii "IHDR" ∧ type ≠ ascii "IEND" := by
  rw [is]
  decide

theorem palette_inner {type : Bytes} (is : type = ascii "PLTE") :
    type ≠ ascii "IHDR" ∧ type ≠ ascii "IEND" := by
  rw [is]
  decide

theorem png_of_follows (legal : h.Legal) (follows : Follows h [h.chunk] rest) : Png h (h.chunk :: rest) := by
  obtain ⟨middle, rfl, plains, all, hasData⟩ := follows_iff.mp follows
  have each : ∀ c ∈ middle, ∃ done, Admitted h done c := by
    intro c member
    obtain ⟨before, after, is⟩ := List.append_of_mem member
    exact ⟨_, all before c after is⟩
  constructor
  · intro c member
    rcases List.mem_cons.mp member with rfl | later
    · exact headerChunk_plain
    · rcases List.mem_append.mp later with inner | last
      · exact plains c inner
      · rw [List.mem_singleton.mp last]
        exact pngEnd_plain
  · refine ⟨legal, _, rfl, fun c member => ?_⟩
    rcases List.mem_append.mp member with inner | last
    · obtain ⟨_, admitted⟩ := each c inner
      exact admitted.inner.1
    · rw [List.mem_singleton.mp last]
      decide
  · intro before c after is palette
    obtain ⟨notFirst, notLast⟩ := palette_inner palette
    obtain ⟨front, back, rfl, rfl, here⟩ := inner_split is notFirst notLast
    exact (all front c back here).palette palette
  · intro before c after is other data e member isData
    obtain ⟨p, q, rfl⟩ := List.append_of_mem member
    obtain ⟨notFirst, notLast⟩ := data_inner isData
    obtain ⟨front, back, start, -, here⟩ :=
      @inner_split h middle (before ++ c :: p) q e (by simpa using is) notFirst notLast
    have unended := ((all front e back here).data isData).1
    rw [List.singleton_append, ← start, dataEnded_of data other] at unended
    cases unended
  · obtain ⟨c, member, data⟩ := hasData
    exact ⟨c, by simp only [List.mem_cons, List.mem_append] at member ⊢; tauto, data⟩
  · intro three before c after is data
    obtain ⟨notFirst, notLast⟩ := data_inner data
    obtain ⟨front, back, rfl, rfl, here⟩ := inner_split is notFirst notLast
    exact ((all front c back here).data data).2 three
  · intro c member plain
    simp only [List.mem_cons, List.not_mem_nil, or_false, not_or] at plain
    obtain ⟨notFirst, notPalette, notData, notLast⟩ := plain
    have inner : c ∈ middle := by
      rcases List.mem_cons.mp member with rfl | later
      · exact absurd rfl notFirst
      · rcases List.mem_append.mp later with inner | last
        · exact inner
        · rw [List.mem_singleton.mp last] at notLast
          exact absurd rfl notLast
    obtain ⟨_, admitted⟩ := each c inner
    exact (plains c inner).ancillary_iff.mp (admitted.other notPalette notData)
  · refine ⟨h.chunk :: middle, rfl, fun c member => ?_⟩
    rcases List.mem_cons.mp member with rfl | inner
    · exact show ascii "IHDR" ≠ ascii "IEND" by decide
    · obtain ⟨_, admitted⟩ := each c inner
      exact admitted.inner.2

theorem follows_of_png (png : Png h chunks) : ∃ rest, chunks = h.chunk :: rest ∧ Follows h [h.chunk] rest := by
  obtain ⟨plain, ⟨-, rest, rfl, once⟩, palette, consecutive, data, indexed, other, front, is, inner⟩ := png
  refine ⟨rest, rfl, ?_⟩
  cases front with
  | nil =>
    obtain ⟨first, -⟩ := List.cons.inj is
    exact absurd (congrArg Chunk.type first) (show ascii "IHDR" ≠ ascii "IEND" by decide)
  | cons first middle =>
    obtain ⟨rfl, rfl⟩ := List.cons.inj is
    have within : ∀ c ∈ middle, c ∈ h.chunk :: (middle ++ [pngEnd]) :=
      fun c member => List.mem_cons_of_mem _ (List.mem_append_left _ member)
    refine follows_iff.mpr ⟨middle, rfl, fun c member => plain c (within c member), ?_, ?_⟩
    · rintro before c after rfl
      have here : h.chunk :: (before ++ c :: after ++ [pngEnd]) =
          (h.chunk :: before) ++ c :: (after ++ [pngEnd]) := by simp
      have member : c ∈ before ++ c :: after := by simp
      have notFirst := once c (List.mem_append_left _ member)
      have notLast := inner c (List.mem_cons_of_mem _ member)
      refine ⟨⟨notFirst, notLast⟩, palette _ _ _ here,
        fun isData => ⟨?_, fun three => indexed three _ _ _ here isData⟩,
        fun notPalette notData => ?_⟩
      · by_contra ended
        obtain ⟨x, y, z, split, notData, nonempty⟩ := dataEnded_split (Bool.not_eq_false _ ▸ ended)
        have whole : h.chunk :: (before ++ c :: after ++ [pngEnd]) =
            x ++ y :: (z ++ c :: (after ++ [pngEnd])) := by
          rw [here, ← List.singleton_append, split]
          simp
        exact consecutive x y _ whole notData nonempty c (by simp) isData
      · apply (plain c (within c member)).ancillary_iff.mpr
        exact other c (within c member) (by simp [notFirst, notPalette, notData, notLast])
    · obtain ⟨c, member, isData, nonempty⟩ := data
      refine ⟨c, ?_, isData, nonempty⟩
      rcases List.mem_cons.mp member with rfl | later
      · exact List.mem_cons_self
      · rcases List.mem_append.mp later with inside | last
        · exact List.mem_cons_of_mem _ inside
        · rw [List.mem_singleton.mp last] at isData
          exact absurd isData (by decide)

/-- What the first round leaves describes the header. -/
theorem describes_begun (s : PngState) (chunkEnd : Nat) (fresh : s = {}) :
    Describes h [h.chunk] { s.begun h with chunks := s.chunks + 1, offset := chunkEnd } := by
  subst fresh
  have type : h.chunk.type = ascii "IHDR" := rfl
  have apart : ascii "IHDR" ≠ ascii "PLTE" ∧ ascii "IHDR" ≠ ascii "IDAT" := by decide
  refine ⟨⟨rfl, rfl, rfl⟩, Nat.succ_ne_zero _, ?_, ?_, ?_, ?_⟩
  · simp [PngState.begun, type, apart]
  · simp [PngState.begun, type, apart]
  · simp [PngState.begun, dataEnded, Chunk.isOther, type, apart]
  · simp [PngState.begun, type, apart]

theorem length_of_follows (follows : Follows h [h.chunk] rest) :
    57 ≤ (pngSignature ++ (h.chunk :: rest).flatMap Chunk.encode).length := by
  obtain ⟨middle, rfl, plains, all, c, member, isData, filled⟩ := follows_iff.mp follows
  have inner : c ∈ middle := by
    rcases List.mem_cons.mp member with rfl | later
    · exact absurd isData (show ascii "IHDR" ≠ ascii "IDAT" by decide)
    · exact later
  obtain ⟨before, after, rfl⟩ := List.append_of_mem inner
  have header := h.chunk.length_encode headerChunk_plain.lawful.four
  have data := c.length_encode (plains c inner).lawful.four
  have final := pngEnd.length_encode pngEnd_plain.lawful.four
  have filled : 0 < c.data.length := List.length_pos_iff.mpr filled
  have thirteen : h.chunk.data.length = 13 := by simp [Header.chunk, Header.encode]
  have signature : pngSignature.length = 8 := rfl
  simp only [List.length_append, List.flatMap_cons, List.flatMap_append, List.flatMap_nil, header, data, final,
    thirteen, signature]
  omega

/-- The inspection accepts exactly the grammar. -/
theorem inspectPng_iff {bytes : Bytes} {image : Image}
    (small : bytes.length ≤ ImagePreviewLimits.encodedBytes) :
    inspectPng bytes = .ok image ↔ ∃ width height, PngFile bytes width height ∧
      image = { format := .png, width, height, pixels := width * height } := by
  simp only [inspectPng]
  constructor
  · intro accepted
    split at accepted
    · cases accepted
    rename_i starts
    simp only [Bool.or_eq_true, decide_eq_true_eq, not_or, not_lt, not_not] at starts
    obtain ⟨long, signature⟩ := starts
    cases Loop.run_ok_iff.mp accepted with
    | done is =>
      obtain ⟨inside, is⟩ := round_eq.mp is
      obtain ⟨c, rest, u, -, -, takes, turn⟩ := pngChunk_sound inside is
      obtain ⟨h, -, -, rfl⟩ := (takes_header rfl).mp takes
      cases turn
    | next is rounds =>
      obtain ⟨inside, is⟩ := round_eq.mp is
      obtain ⟨c, tail, u, here, -, takes, turn⟩ := pngChunk_sound inside is
      obtain ⟨h, legal, rfl, rfl⟩ := (takes_header rfl).mp takes
      cases turn
      obtain ⟨rfl, rest, there, follows⟩ := follows_of_rounds rounds (describes_begun _ _ rfl)
      rw [drop_of_drop here] at there
      refine ⟨h.width, h.height, ⟨h, h.chunk :: rest, png_of_follows legal follows, ?_, rfl, rfl⟩, rfl⟩
      rw [List.flatMap_cons, ← there, ← here, ← signature, List.take_append_drop]
  · rintro ⟨_, _, ⟨h, chunks, png, rfl, rfl, rfl⟩, rfl⟩
    obtain ⟨rest, rfl, follows⟩ := follows_of_png png
    have long := length_of_follows follows
    have starts : ¬ ((pngSignature ++ (h.chunk :: rest).flatMap Chunk.encode).length < 57 ∨
        (pngSignature ++ (h.chunk :: rest).flatMap Chunk.encode).take 8 ≠ pngSignature) := by
      rintro (short | other)
      · omega
      · exact other rfl
    rw [if_neg (by simpa only [Bool.or_eq_true, decide_eq_true_eq] using starts)]
    apply Loop.run_ok_iff.mpr
    have here : (pngSignature ++ (h.chunk :: rest).flatMap Chunk.encode).drop 8 =
        h.chunk.encode ++ rest.flatMap Chunk.encode := rfl
    have takes := fun last : Bool =>
      (@takes_header {} h.chunk (.next (PngState.begun {} h)) last rfl).mpr ⟨h, png.header.1, rfl, rfl⟩
    have inside : 8 ≤ (pngSignature ++ (h.chunk :: rest).flatMap Chunk.encode).length := by omega
    have size := le_of_drop here inside
    refine .next (round_eq.mpr ⟨by simp only; omega,
      pngChunk_complete small inside here headerChunk_plain (takes _)⟩) ?_
    exact rounds_of_follows small follows (describes_begun _ _ rfl) (by simp only; omega) (drop_of_drop here)

end

end Conspire.Images
