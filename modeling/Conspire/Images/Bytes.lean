import Conspire.Library.Loop
import Conspire.Library.Octets
import Conspire.Server.Boundaries

/-! What the inspections of encoded images share (`chat/image-preview.js`,
`chat/protocol.js`): limits, results, and numbers read from an `Uint8Array`. -/
namespace Conspire.Images
open Octets

namespace ImagePreviewLimits
def encodedBytes : Nat := 8 * 1024 * 1024
def pixels : Nat := 16 * 1024 * 1024
def axisPixels : Nat := 8192
def livePreviews : Nat := 3
def retainedBlobBytes : Nat := 24 * 1024 * 1024
def livePixels : Nat := 24 * 1024 * 1024
end ImagePreviewLimits

inductive Format where
  | jpeg | png | webp
  deriving DecidableEq, Repr

inductive Reason where
  | invalid | unsupported | tooLarge
  deriving DecidableEq, Repr

structure Image where
  format : Format
  width : Nat
  height : Nat
  pixels : Nat
  deriving DecidableEq, Repr

abbrev Inspection := Except Reason Image

def maxSafeInteger : Nat := 2 ^ 53 - 1

def isSafeInteger (n : Nat) : Bool := n ≤ maxSafeInteger

def imageCandidateMediaType (value : Option String) : Option Format :=
  match value with
  | none => none
  | some value =>
    if value.length ≤ 32 && value.toList.all (fun c => c.toNat ≤ 0x7f) then
      if value = "image/jpeg" then some .jpeg
      else if value = "image/png" then some .png
      else if value = "image/webp" then some .webp
      else none
    else none

def previewDimensions (width height : Nat) : Option (Nat × Nat × Nat) :=
  if !isSafeInteger width || !isSafeInteger height || width = 0 || height = 0 ||
      ImagePreviewLimits.axisPixels < width || ImagePreviewLimits.axisPixels < height then none
  else if ImagePreviewLimits.pixels / height < width then none
  else if width * height ≤ ImagePreviewLimits.pixels then some (width, height, width * height)
  else none

def ok (format : Format) (width height : Nat) : Inspection :=
  match previewDimensions width height with
  | some (width, height, pixels) => .ok { format, width, height, pixels }
  | none => .error .tooLarge

/-- `if (condition) return fail(reason)`. -/
def reject (condition : Bool) (reason : Reason) : Except Reason Unit :=
  if condition then .error reason else .ok ()

def u16 (bytes : Bytes) (i : Nat) : Nat := octet bytes i * 256 + octet bytes (i + 1)

def little16 (bytes : Bytes) (i : Nat) : Nat := octet bytes i + octet bytes (i + 1) * 256

def little24 (bytes : Bytes) (i : Nat) : Nat :=
  octet bytes i + octet bytes (i + 1) * 256 + octet bytes (i + 2) * 65536

def u32 (bytes : Bytes) (i : Nat) : Nat :=
  octet bytes i * 0x1000000 + octet bytes (i + 1) * 0x10000 + octet bytes (i + 2) * 256 + octet bytes (i + 3)

def little32 (bytes : Bytes) (i : Nat) : Nat :=
  octet bytes i + octet bytes (i + 1) * 256 + octet bytes (i + 2) * 65536 + octet bytes (i + 3) * 0x1000000

/-- The limits of a preview. -/
structure Fits (width height : Nat) : Prop where
  wide : 1 ≤ width ∧ width ≤ 8192
  high : 1 ≤ height ∧ height ≤ 8192
  pixels : width * height ≤ 16777216

theorem ok_iff {format : Format} {width height : Nat} {image : Image} :
    ok format width height = .ok image ↔
      Fits width height ∧ image = { format, width, height, pixels := width * height } := by
  have limits : ImagePreviewLimits.axisPixels = 8192 ∧ ImagePreviewLimits.pixels = 16777216 ∧
      maxSafeInteger = 9007199254740991 := ⟨rfl, rfl, rfl⟩
  obtain ⟨axis, pixels, safe⟩ := limits
  constructor
  · intro is
    simp only [ok, previewDimensions, isSafeInteger, axis, pixels, safe] at is
    split at is
    · rename_i found
      split at found
      · cases found
      · rename_i bounds
        simp only [Bool.or_eq_true, Bool.not_eq_true', decide_eq_false_iff_not, decide_eq_true_eq,
          not_or] at bounds
        split at found
        · cases found
        · split at found <;> cases found
          cases is
          exact ⟨⟨by omega, by omega, by assumption⟩, rfl⟩
    · cases is
  · rintro ⟨⟨wide, high, few⟩, rfl⟩
    have quotient : ¬ 16777216 / height < width :=
      Nat.not_lt.mpr ((Nat.le_div_iff_mul_le (by omega)).mpr few)
    have inside : ¬ (9007199254740991 < width ∨ 9007199254740991 < height ∨ width = 0 ∨ height = 0 ∨
        8192 < width ∨ 8192 < height) := by omega
    simp only [ok, previewDimensions, isSafeInteger, axis, pixels, safe]
    rw [if_neg, if_neg quotient, if_pos few]
    simpa [not_or, and_assoc] using inside

theorem bind_ok {m : Except Reason α} {next : α → Except Reason β} {result : β} :
    (m >>= next) = .ok result ↔ ∃ value, m = .ok value ∧ next value = .ok result := by
  cases m with
  | error reason => exact ⟨nofun, fun ⟨_, is, _⟩ => nomatch is⟩
  | ok value => exact ⟨fun is => ⟨value, rfl, is⟩, fun ⟨_, is, holds⟩ => by cases is; exact holds⟩

theorem map_ok {m : Except Reason α} {f : α → β} {result : β} :
    m.map f = .ok result ↔ ∃ value, m = .ok value ∧ f value = result := by
  cases m with
  | error reason => exact ⟨nofun, fun ⟨_, is, _⟩ => nomatch is⟩
  | ok value => simp [Except.map]

theorem reject_ok {condition : Bool} {reason : Reason} :
    reject condition reason = .ok () ↔ condition = false := by
  cases condition <;> simp [reject]

theorem reject_bind {condition : Bool} {reason : Reason} {next : Unit → Except Reason β} {result : β} :
    (reject condition reason >>= next) = .ok result ↔ condition = false ∧ next () = .ok result := by
  rw [bind_ok]
  constructor
  · rintro ⟨_, checked, is⟩
    exact ⟨reject_ok.mp checked, is⟩
  · rintro ⟨checked, is⟩
    exact ⟨(), reject_ok.mpr checked, is⟩

end Conspire.Images
