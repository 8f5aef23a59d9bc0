import Conspire.Images.Bytes

/-! The inspection of a WebP (`inspectWebp`). -/
namespace Conspire.Images
open Octets Loops

/-- The variables of the loop. -/
structure WebpState where
  offset : Nat := 12
  canvas : Option Image := none
  primary : Option Image := none
  flags : Nat := 0
  chunks : Nat := 0
  primaryTag : Bytes := []
  primaryHasAlpha : Bool := false
  features : List Bytes := []

def webpFeatures : List Bytes := [ascii "ICCP", ascii "ALPH", ascii "EXIF", ascii "XMP "]

namespace WebpState
variable (s : WebpState) (bytes : Bytes) (length : Nat)

/-- A VP8X chunk. -/
def takeCanvas : Except Reason WebpState := do
  reject (length ≠ 10 || s.chunks ≠ 0 || s.canvas.isSome) .invalid
  let flags := octet bytes (s.offset + 8)
  reject (flags &&& 0x02 ≠ 0 || flags &&& 0xc1 ≠ 0 || octet bytes (s.offset + 9) ≠ 0 ||
    octet bytes (s.offset + 10) ≠ 0 || octet bytes (s.offset + 11) ≠ 0) .unsupported
  let canvas ← ok .webp (little24 bytes (s.offset + 12) + 1) (little24 bytes (s.offset + 15) + 1)
  return { s with flags, canvas := some canvas }

/-- A VP8 chunk. The frame tag is read before the length is checked; what is read beyond
the end of the array then plays no part. -/
def takeLossy (tag : Bytes) : Except Reason WebpState := do
  let frameTag := little24 bytes (s.offset + 8)
  let firstPartition := frameTag >>> 5
  reject (length < 11 || frameTag &&& 1 ≠ 0 || 3 < (frameTag >>> 1) &&& 0x07 || frameTag &&& 0x10 = 0 ||
    firstPartition = 0 || length - 10 < firstPartition ||
    octet bytes (s.offset + 11) ≠ 0x9d || octet bytes (s.offset + 12) ≠ 0x01 ||
    octet bytes (s.offset + 13) ≠ 0x2a) .invalid
  reject s.primary.isSome .invalid
  let primary ← ok .webp (little16 bytes (s.offset + 14) &&& 0x3fff) (little16 bytes (s.offset + 16) &&& 0x3fff)
  return { s with primary := some primary, primaryTag := tag }

/-- A VP8L chunk. -/
def takeLossless (tag : Bytes) : Except Reason WebpState := do
  reject (length < 6 || octet bytes (s.offset + 8) ≠ 0x2f) .invalid
  reject s.primary.isSome .invalid
  let value := little32 bytes (s.offset + 9)
  reject (value >>> 29 ≠ 0) .unsupported
  let primary ← ok .webp ((value &&& 0x3fff) + 1) (((value >>> 14) &&& 0x3fff) + 1)
  return { s with primary := some primary, primaryTag := tag, primaryHasAlpha := value &&& 0x10000000 ≠ 0 }

/-- An ICCP, ALPH, EXIF or XMP chunk. -/
def takeFeature (tag : Bytes) : Except Reason WebpState := do
  reject (s.canvas.isNone || s.features.contains tag || (tag = ascii "ICCP" && s.primary.isSome) ||
    (tag = ascii "ALPH" && (s.primary.isSome || length < 2)) ||
    (tag ≠ ascii "ALPH" && tag ≠ ascii "ICCP" && s.primary.isNone)) .invalid
  let header := octet bytes (s.offset + 8)
  reject (tag = ascii "ALPH" &&
    (header &&& 0xc0 ≠ 0 || 1 < (header >>> 4) &&& 0x03 || 1 < header &&& 0x03)) .unsupported
  return { s with features := s.features ++ [tag] }

def take (tag : Bytes) : Except Reason WebpState :=
  if tag = ascii "VP8X" then s.takeCanvas bytes length
  else if tag = ascii "VP8 " then s.takeLossy bytes length tag
  else if tag = ascii "VP8L" then s.takeLossless bytes length tag
  else if webpFeatures.contains tag then s.takeFeature bytes length tag
  else if s.canvas.isNone && s.primary.isNone then .error .unsupported
  else .ok s

/-- The checks after the last chunk. -/
def finish : Inspection :=
  match s.primary with
  | none => .error .invalid
  | some primary => do
    reject (s.offset ≠ bytes.length) .invalid
    match s.canvas with
    | none => if s.chunks = 1 then return primary else .error .invalid
    | some canvas =>
      reject (canvas.width ≠ primary.width || canvas.height ≠ primary.height ||
        decide (s.flags &&& 0x20 ≠ 0) ≠ s.features.contains (ascii "ICCP") ||
        decide (s.flags &&& 0x08 ≠ 0) ≠ s.features.contains (ascii "EXIF") ||
        decide (s.flags &&& 0x04 ≠ 0) ≠ s.features.contains (ascii "XMP ") ||
        decide (s.flags &&& 0x10 ≠ 0) ≠ (s.features.contains (ascii "ALPH") || s.primaryHasAlpha)) .invalid
      reject (s.features.contains (ascii "ALPH") && s.primaryTag ≠ ascii "VP8 ") .invalid
      return primary

end WebpState

/-- One chunk. -/
def webpChunk (bytes : Bytes) (s : WebpState) : Except Reason WebpState := do
  let tag := slice bytes s.offset 4
  let length := little32 bytes (s.offset + 4)
  let chunkEnd := s.offset + 8 + length + (length &&& 1)
  reject (!isSafeInteger chunkEnd || bytes.length < chunkEnd ||
    (length &&& 1 ≠ 0 && octet bytes (chunkEnd - 1) ≠ 0)) .invalid
  reject (tag = ascii "ANIM" || tag = ascii "ANMF") .unsupported
  let t ← s.take bytes length tag
  return { t with chunks := t.chunks + 1, offset := chunkEnd }

theorem webpChunk_at {bytes : Bytes} {s t : WebpState} (is : webpChunk bytes s = .ok t) :
    s.offset + 8 ≤ t.offset := by
  simp only [webpChunk, reject_bind] at is
  obtain ⟨-, -, is⟩ := is
  obtain ⟨u, -, is⟩ := bind_ok.mp is
  cases is
  simp only
  omega

def webpLoop (bytes : Bytes) : Loop WebpState Image Reason where
  round s :=
    if s.offset + 8 ≤ bytes.length then (webpChunk bytes s).map .next else (s.finish bytes).map .done
  measure s := bytes.length - s.offset
  falls is := by
    split at is
    · rename_i inside
      obtain ⟨u, chunk, same⟩ := map_ok.mp is
      cases same
      have forward := webpChunk_at chunk
      omega
    · obtain ⟨_, -, same⟩ := map_ok.mp is
      cases same

def inspectWebp (bytes : Bytes) : Inspection :=
  if bytes.length < 16 || slice bytes 0 4 ≠ ascii "RIFF" || slice bytes 8 4 ≠ ascii "WEBP" ||
      little32 bytes 4 + 8 ≠ bytes.length then .error .invalid
  else (webpLoop bytes).run {}

/-- A chunk of a WebP, without its length and padding. -/
@[ext]
structure WebpChunk where
  tag : Bytes
  data : Bytes
  deriving DecidableEq

namespace WebpChunk
variable (c : WebpChunk)

/-- Chunks of odd length are followed by a zero. -/
def encode : Bytes :=
  c.tag ++ littleEndian 4 c.data.length ++ c.data ++ if c.data.length % 2 = 1 then [0] else []

/-- The chunk that starts at a position. -/
def readAt (bytes : Bytes) (start : Nat) : WebpChunk :=
  { tag := slice bytes start 4, data := slice bytes (start + 8) (little32 bytes (start + 4)) }

/-- The image data itself. -/
def isPrimary : Prop := c.tag = ascii "VP8 " ∨ c.tag = ascii "VP8L"

instance : Decidable c.isPrimary := inferInstanceAs (Decidable (_ ∨ _))

/-- A VP8X chunk with flags of a still image and the size of the canvas. -/
structure Canvas (flags width height : Nat) : Prop where
  tag : c.tag = ascii "VP8X"
  length : c.data.length = 10
  said : octet c.data 0 = flags
  /-- Neither the animation flag nor one of the reserved bits. -/
  still : flags &&& 0x02 = 0 ∧ flags &&& 0xc1 = 0 ∧ octet c.data 1 = 0 ∧ octet c.data 2 = 0 ∧ octet c.data 3 = 0
  width : little24 c.data 4 + 1 = width
  height : little24 c.data 7 + 1 = height

/-- A primary chunk whose own header says the size, and whether there is an alpha channel. -/
inductive Says (c : WebpChunk) : Nat → Nat → Bool → Prop where
  /-- A key frame that is shown, with its start code. -/
  | lossy : c.tag = ascii "VP8 " → 11 ≤ c.data.length → little24 c.data 0 &&& 1 = 0 →
      little24 c.data 0 &&& 0x10 ≠ 0 → octet c.data 3 = 0x9d → octet c.data 4 = 0x01 →
      octet c.data 5 = 0x2a →
      Says c (little16 c.data 6 % 2 ^ 14) (little16 c.data 8 % 2 ^ 14) false
  /-- A signature, two sizes of 14 bits, the alpha bit and version 0. -/
  | lossless : c.tag = ascii "VP8L" → 6 ≤ c.data.length → octet c.data 0 = 0x2f → value < 2 ^ 29 →
      little32 c.data 1 = value →
      Says c (value % 2 ^ 14 + 1) (value / 2 ^ 14 % 2 ^ 14 + 1) (value / 2 ^ 28 = 1)

end WebpChunk

section
variable {bytes rest : Bytes} {start i : Nat}

theorem little32_eq (inside : start + 4 ≤ bytes.length) :
    little32 bytes start = ofLittleEndian (slice bytes start 4) := by
  have length := length_slice inside
  have reads : ∀ i < 4, octet bytes (start + i) = octet (slice bytes start 4) i :=
    fun i before => (octet_slice before).symm
  match four : slice bytes start 4, length with
  | [a, b, c, d], _ =>
    rw [four] at reads
    have first : octet bytes start = a.toNat := reads 0 (by decide)
    have second : octet bytes (start + 1) = b.toNat := reads 1 (by decide)
    have third : octet bytes (start + 2) = c.toNat := reads 2 (by decide)
    have fourth : octet bytes (start + 3) = d.toNat := reads 3 (by decide)
    simp only [little32, first, second, third, fourth, ofLittleEndian, List.foldr_cons, List.foldr_nil]
    omega

/-- The four bytes at a position are the number there. -/
theorem littleEndian_little32 (inside : start + 4 ≤ bytes.length) :
    littleEndian 4 (little32 bytes start) = slice bytes start 4 := by
  have whole := littleEndian_ofLittleEndian (slice bytes start 4)
  rwa [length_slice inside, ← little32_eq inside] at whole

theorem padding_here {n : Nat} (inside : start + (n &&& 1) ≤ bytes.length)
    (padded : n &&& 1 ≠ 0 → octet bytes start = 0) :
    bytes.drop start = (if n % 2 = 1 then [0] else []) ++ bytes.drop (start + (n &&& 1)) := by
  rw [Nat.and_one_is_mod] at inside padded ⊢
  split
  · rename_i odd
    rw [odd] at inside ⊢
    exact (octet_eq_zero inside).mp (padded (by omega))
  · rename_i even
    have even : n % 2 = 0 := by omega
    rw [even, Nat.add_zero, List.nil_append]

/-- What lies at a position whose chunk ends within the bytes. -/
theorem webpChunk_here {n : Nat} (length : little32 bytes (start + 4) = n)
    (inside : start + 8 + n + (n &&& 1) ≤ bytes.length)
    (padded : n &&& 1 ≠ 0 → octet bytes (start + 8 + n) = 0) :
    (WebpChunk.readAt bytes start).data.length = n ∧
    bytes.drop (start + 8) = (WebpChunk.readAt bytes start).data ++ bytes.drop (start + 8 + n) ∧
    bytes.drop start = (WebpChunk.readAt bytes start).encode ++ bytes.drop (start + 8 + n + (n &&& 1)) := by
  have size : (WebpChunk.readAt bytes start).data.length = n := by
    simp only [WebpChunk.readAt, length]
    exact length_slice (by omega)
  have data : bytes.drop (start + 8) = (WebpChunk.readAt bytes start).data ++ bytes.drop (start + 8 + n) := by
    simp only [WebpChunk.readAt, length]
    exact drop_slice bytes (start + 8) n
  refine ⟨size, data, ?_⟩
  have field := @littleEndian_little32 bytes (start + 4) (by omega)
  rw [length] at field
  rw [drop_slice bytes start 4, drop_slice bytes (start + 4) 4, data, padding_here inside padded]
  simp only [WebpChunk.encode, size, field, List.append_assoc]
  rfl

end

end Conspire.Images
