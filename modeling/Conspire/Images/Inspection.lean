import Conspire.Images.JpegGrammar
import Conspire.Images.PngGrammar
import Conspire.Images.WebpGrammar

/-! What image bytes are admitted for a preview (`inspectImageBytes`). -/
namespace Conspire.Images
open Octets Loops

/-- The arguments are what a caller passes: `none` is no `Uint8Array`, no integer, no string. -/
def inspectImageBytes (input : Option Bytes) (declaredSize : Option Int) (hint : Option String) : Inspection :=
  match input, declaredSize with
  | some input, some declaredSize => do
    reject (declaredSize.natAbs > maxSafeInteger || declaredSize < 0) .invalid
    reject ((ImagePreviewLimits.encodedBytes : Int) < declaredSize) .tooLarge
    reject ((input.length : Int) ≠ declaredSize) .invalid
    match imageCandidateMediaType hint with
    | none => .error .unsupported
    | some expected =>
      let result ← match expected with
        | .png => inspectPng input
        | .jpeg => inspectJpeg input
        | .webp => inspectWebp input
      if result.format ≠ expected then .error .unsupported else return result
  | _, _ => .error .invalid

/-- Bytes of the declared size reach the inspection of the hint's format. -/
theorem inspectImageBytes_png {bytes : Bytes} {image : Image}
    (small : bytes.length ≤ ImagePreviewLimits.encodedBytes) :
    inspectImageBytes (some bytes) (some bytes.length) (some "image/png") = .ok image ↔
      inspectPng bytes = .ok image := by
  have limit : ImagePreviewLimits.encodedBytes = 8388608 := rfl
  have safe : maxSafeInteger = 9007199254740991 := rfl
  have candidate : imageCandidateMediaType (some "image/png") = some .png := rfl
  rw [limit] at small
  simp only [inspectImageBytes, candidate, reject_bind, limit, safe]
  constructor
  · rintro ⟨-, -, -, is⟩
    obtain ⟨result, inspected, is⟩ := bind_ok.mp is
    split at is
    · cases is
    · cases is
      exact inspected
  · intro inspected
    obtain ⟨_, _, _, rfl⟩ := (inspectPng_iff (limit ▸ small)).mp inspected
    refine ⟨?_, by simpa using small, by simp, ?_⟩
    · simp only [gt_iff_lt, Int.natAbs_natCast, Bool.or_eq_false_iff, decide_eq_false_iff_not, not_lt]
      omega
    · rw [inspected]
      rfl

/-- A PNG is accepted just when it is one by the grammar, and its size is returned. -/
theorem png_admission (bytes : Bytes) (small : bytes.length ≤ 8 * 1024 * 1024) (image : Image) :
    inspectImageBytes (some bytes) (some bytes.length) (some "image/png") = .ok image ↔
      ∃ width height, PngFile bytes width height ∧
        image = { format := .png, width, height, pixels := width * height } := by
  rw [inspectImageBytes_png small]
  exact inspectPng_iff small

/-- A PNG of one pixel. -/
def dot : Bytes :=
  [137, 80, 78, 71, 13, 10, 26, 10, 0, 0, 0, 13, 73, 72, 68, 82, 0, 0, 0, 1, 0, 0, 0, 1, 8, 4, 0,
   0, 0, 181, 28, 12, 2, 0, 0, 0, 11, 73, 68, 65, 84, 120, 218, 99, 100, 248, 15, 0, 1, 5, 1, 1,
   39, 24, 227, 102, 0, 0, 0, 0, 73, 69, 78, 68, 174, 66, 96, 130]

theorem png_admission_dot :
    ∃ width height, PngFile dot width height ∧
      ({ format := .png, width := 1, height := 1, pixels := 1 } : Image) =
        { format := .png, width, height, pixels := width * height } :=
  (png_admission dot (by decide) _).mp (by decide +kernel)

/-- The inspection of a WebP ends after at most a round for each byte, and accepts nothing but
a WebP of the size it returns. -/
theorem webp_admission (bytes : Bytes) :
    (∃ rounds ≤ bytes.length + 1, (webpLoop bytes).Ends rounds {} ((webpLoop bytes).run {})) ∧
    ∀ image, inspectWebp bytes = .ok image → WebpFile bytes image.width image.height ∧
      image = { format := .webp, width := image.width, height := image.height,
                pixels := image.width * image.height } := by
  refine ⟨?_, fun image is => inspectWebp_spec is⟩
  obtain ⟨rounds, few, ends⟩ := (webpLoop bytes).run_ends {}
  simp only [webpLoop] at few
  exact ⟨rounds, by omega, ends⟩

/-- A lossless WebP of two by two pixels. -/
def square : Bytes :=
  ascii "RIFF" ++ littleEndian 4 18 ++ ascii "WEBP" ++ ascii "VP8L" ++ littleEndian 4 6 ++ [0x2f, 1, 0x40, 0, 0, 0]

theorem webp_admission_square : WebpFile square 2 2 :=
  ((webp_admission square).2 { format := .webp, width := 2, height := 2, pixels := 4 } (by decide)).1

/-- The inspection of a JPEG ends after at most a round for each byte, and accepts nothing but
a JPEG of the size it returns. -/
theorem jpeg_admission (bytes : Bytes) :
    (∃ rounds ≤ bytes.length + 1, (jpegLoop bytes).Ends rounds {} ((jpegLoop bytes).run {})) ∧
    ∀ image, inspectJpeg bytes = .ok image → JpegFile bytes image.width image.height ∧
      image = { format := .jpeg, width := image.width, height := image.height,
                pixels := image.width * image.height } := by
  refine ⟨?_, fun image is => inspectJpeg_spec is⟩
  obtain ⟨rounds, few, ends⟩ := (jpegLoop bytes).run_ends {}
  simp only [jpegLoop] at few
  exact ⟨rounds, by omega, ends⟩

/-- A JPEG of two by three pixels. -/
def tile : Bytes :=
  [0xff, 0xd8, 0xff, 0xdb, 0, 67, 0] ++ List.replicate 64 1 ++
  [0xff, 0xc0, 0, 11, 8, 0, 3, 0, 2, 1, 1, 0x11, 0] ++
  [0xff, 0xc4, 0, 20, 0, 1] ++ List.replicate 15 0 ++ [0] ++
  [0xff, 0xc4, 0, 20, 0x10, 1] ++ List.replicate 15 0 ++ [0] ++
  [0xff, 0xda, 0, 8, 1, 1, 0, 0, 63, 0, 0x2a, 0xff, 0xd9]

theorem jpeg_admission_tile : JpegFile tile 2 3 :=
  ((jpeg_admission tile).2 { format := .jpeg, width := 2, height := 3, pixels := 6 } (by decide +kernel)).1

end Conspire.Images
