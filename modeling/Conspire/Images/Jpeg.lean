import Conspire.Images.Bytes
import Mathlib.Data.Finset.Card

/-! The inspection of a JPEG (`isSof`, `inspectJpeg`). A `Set` of ids or tables is a
`Finset`. -/
namespace Conspire.Images
open Octets Loops

def maxHeaderBytes : Nat := 1024 * 1024

def isSof (marker : Nat) : Bool :=
  (0xc0 ≤ marker && marker ≤ 0xc3) || (0xc5 ≤ marker && marker ≤ 0xc7) ||
    (0xc9 ≤ marker && marker ≤ 0xcb) || (0xcd ≤ marker && marker ≤ 0xcf)

/-- The variables of the loop. What a frame header sets is read only once `dimensions` is. -/
structure JpegState where
  offset : Nat := 2
  pendingMarker : Option Nat := none
  dimensions : Option Image := none
  componentIds : Finset Nat := ∅
  componentQuantizers : List (Nat × Nat) := []
  frameMarker : Nat := 0
  sawScan : Bool := false
  initialComponents : Finset Nat := ∅
  quantizers : Finset Nat := ∅
  dcTables : Finset Nat := ∅
  acTables : Finset Nat := ∅

/-- `while (at < bytes.length && bytes[at] === 0xff) at += 1` -/
def skipFill (bytes : Bytes) (offset : Nat) : Nat :=
  offset + ((bytes.drop offset).takeWhile (· = 0xff)).length

theorem le_skipFill (bytes : Bytes) (offset : Nat) : offset ≤ skipFill bytes offset := Nat.le_add_right _ _

/-- The components of a frame header, with their quantization tables. -/
def frameComponents (bytes : Bytes) (offset componentCount : Nat) : Except Reason (Finset Nat × List (Nat × Nat)) :=
  (List.range componentCount).foldlM (fun (componentIds, componentQuantizers) index => do
    let componentAt := offset + 8 + index * 3
    let id := octet bytes componentAt
    let sampling := octet bytes (componentAt + 1)
    reject (decide (id ∈ componentIds) || sampling >>> 4 = 0 || 4 < sampling >>> 4 || sampling &&& 0x0f = 0 ||
      4 < sampling &&& 0x0f || 3 < octet bytes (componentAt + 2)) .invalid
    return (insert id componentIds, componentQuantizers ++ [(id, octet bytes (componentAt + 2))])) (∅, [])

/-- The tables of a DQT segment. -/
def quantizerLoop (bytes : Bytes) (segmentEnd : Nat) : Loop (Nat × Finset Nat) (Finset Nat) Reason where
  round s :=
    if s.1 < segmentEnd then do
      let precision := octet bytes s.1 >>> 4
      let id := octet bytes s.1 &&& 0x0f
      let tableBytes := if precision = 0 then 64 else 128
      reject (1 < precision || 3 < id || segmentEnd < s.1 + 1 + tableBytes) .invalid
      reject ((List.range 64).any fun i =>
        (if precision = 0 then octet bytes (s.1 + 1 + i) else u16 bytes (s.1 + 1 + 2 * i)) = 0) .invalid
      return .next (s.1 + 1 + tableBytes, insert id s.2)
    else if s.1 ≠ segmentEnd then .error .invalid
    else .ok (.done s.2)
  measure s := segmentEnd - s.1
  falls is := by
    split at is
    · rename_i inside
      simp only [reject_bind] at is
      obtain ⟨-, -, is⟩ := is
      cases is
      simp only
      omega
    · split at is <;> cases is

/-- The number of codes of a Huffman table, with no more of a length than are still free. -/
def huffmanSymbols (bytes : Bytes) (item : Nat) : Except Reason Nat := do
  let codes ← (List.range 16).foldlM (fun (availableCodes, symbols) depth => do
    let codes := octet bytes (item + 1 + depth)
    reject (availableCodes * 2 < codes) .invalid
    return (availableCodes * 2 - codes, symbols + codes)) (1, 0)
  return codes.2

/-- The tables of a DHT segment. -/
def huffmanLoop (bytes : Bytes) (segmentEnd : Nat) :
    Loop (Nat × Finset Nat × Finset Nat) (Finset Nat × Finset Nat) Reason where
  round s :=
    if s.1 < segmentEnd then do
      reject (segmentEnd < s.1 + 17) .invalid
      let tableClass := octet bytes s.1 >>> 4
      let id := octet bytes s.1 &&& 0x0f
      reject (1 < tableClass || 3 < id) .invalid
      let symbols ← huffmanSymbols bytes s.1
      reject (symbols = 0 || 256 < symbols || segmentEnd < s.1 + 17 + symbols) .invalid
      return .next (s.1 + 17 + symbols,
        if tableClass = 0 then (insert id s.2.1, s.2.2) else (s.2.1, insert id s.2.2))
    else if s.1 ≠ segmentEnd then .error .invalid
    else .ok (.done s.2)
  measure s := segmentEnd - s.1
  falls is := by
    split at is
    · rename_i inside
      simp only [reject_bind] at is
      obtain ⟨-, -, is⟩ := is
      obtain ⟨symbols, -, is⟩ := bind_ok.mp is
      simp only [reject_bind] at is
      obtain ⟨-, is⟩ := is
      cases is
      simp only
      omega
    · split at is <;> cases is

/-- The components a scan names. -/
def scanComponentIds (bytes : Bytes) (s : JpegState) (scanComponents : Nat) : Except Reason (Finset Nat) :=
  (List.range scanComponents).foldlM (fun scanIds index => do
    let componentAt := s.offset + 3 + index * 2
    let id := octet bytes componentAt
    let tables := octet bytes (componentAt + 1)
    reject (decide (id ∉ s.componentIds) || decide (id ∈ scanIds) || 3 < tables >>> 4 || 3 < tables &&& 0x0f) .invalid
    return insert id scanIds) ∅

/-- The data of a scan: the position behind the marker that ends it, and that marker. -/
def scanLoop (bytes : Bytes) : Loop (Nat × Nat) (Nat × Nat) Reason where
  round s :=
    if s.1 < bytes.length then
      if octet bytes s.1 ≠ 0xff then .ok (.next (s.1 + 1, s.2 + 1))
      else
        let offset := skipFill bytes (s.1 + 1)
        if bytes.length ≤ offset then .error .invalid
        else
          let next := octet bytes offset
          if next = 0x00 then .ok (.next (offset + 1, s.2 + 1))
          else if 0xd0 ≤ next && next ≤ 0xd7 then .ok (.next (offset + 1, s.2))
          else if s.2 = 0 then .error .invalid
          else .ok (.done (offset + 1, next))
    else .error .invalid
  measure s := bytes.length - s.1
  falls {s t} is := by
    have forward := le_skipFill bytes (s.1 + 1)
    split at is
    · split at is
      · cases is
        simp only
        omega
      · simp only at is
        split at is
        · cases is
        split at is
        · cases is
          simp only
          omega
        split at is
        · cases is
          simp only
          omega
        split at is <;> cases is
    · cases is

namespace JpegState
variable (s : JpegState) (bytes : Bytes) (marker length segmentEnd : Nat)

/-- A frame header. -/
def takeFrame : Except Reason JpegState := do
  reject s.dimensions.isSome .invalid
  reject (!([0xc0, 0xc1, 0xc2].contains marker) || maxHeaderBytes < segmentEnd || length < 11 ||
    octet bytes (s.offset + 2) ≠ 8) .unsupported
  let componentCount := octet bytes (s.offset + 7)
  reject (componentCount = 0 || 4 < componentCount || length ≠ 8 + 3 * componentCount) .invalid
  let dimensions ← ok .jpeg (u16 bytes (s.offset + 5)) (u16 bytes (s.offset + 3))
  let components ← frameComponents bytes s.offset componentCount
  return { s with
    dimensions := some dimensions
    frameMarker := marker
    componentIds := components.1
    componentQuantizers := components.2
    offset := segmentEnd }

/-- What the last three bytes of a scan header may say. -/
def spectralFault (scanComponents spectralStart spectralEnd successiveHigh successiveLow : Nat) : Bool :=
  spectralEnd < spectralStart || 63 < spectralEnd || 13 < successiveHigh || 13 < successiveLow ||
  (s.frameMarker ≠ 0xc2 && (spectralStart ≠ 0 || spectralEnd ≠ 63 || successiveHigh ≠ 0 || successiveLow ≠ 0)) ||
  (s.frameMarker = 0xc2 && ((spectralStart = 0 && spectralEnd ≠ 0) || (0 < spectralStart && scanComponents ≠ 1) ||
    (0 < successiveHigh && successiveHigh ≠ successiveLow + 1)))

/-- A scan header and the data after it. -/
def takeScan : Except Reason JpegState := do
  reject (s.dimensions.isNone || length < 8) .invalid
  reject (s.componentQuantizers.any fun component => component.2 ∉ s.quantizers) .invalid
  let scanComponents := octet bytes (s.offset + 2)
  reject (scanComponents = 0 || s.componentIds.card < scanComponents || length ≠ 6 + 2 * scanComponents) .invalid
  let scanIds ← scanComponentIds bytes s scanComponents
  let spectralAt := s.offset + 3 + 2 * scanComponents
  let spectralStart := octet bytes spectralAt
  let spectralEnd := octet bytes (spectralAt + 1)
  let successiveHigh := octet bytes (spectralAt + 2) >>> 4
  let successiveLow := octet bytes (spectralAt + 2) &&& 0x0f
  reject (s.spectralFault scanComponents spectralStart spectralEnd successiveHigh successiveLow) .invalid
  reject (s.frameMarker = 0xc2 && (0 < spectralStart || 0 < successiveHigh) &&
    decide (¬ scanIds ⊆ s.initialComponents)) .invalid
  reject ((List.range scanComponents).any fun index =>
    let tables := octet bytes (s.offset + 4 + index * 2)
    (spectralStart = 0 && decide (tables >>> 4 ∉ s.dcTables)) ||
      (0 < spectralEnd && decide (tables &&& 0x0f ∉ s.acTables))) .invalid
  let behind ← (scanLoop bytes).run (segmentEnd, 0)
  return { s with
    initialComponents :=
      if spectralStart = 0 && successiveHigh = 0 then s.initialComponents ∪ scanIds else s.initialComponents
    sawScan := true
    offset := behind.1
    pendingMarker := some behind.2 }

/-- A segment by its marker. -/
def take : Except Reason JpegState :=
  if isSof marker then s.takeFrame bytes marker length segmentEnd
  else if marker = 0xdb then do
    let quantizers ← (quantizerLoop bytes segmentEnd).run (s.offset + 2, s.quantizers)
    return { s with quantizers, offset := segmentEnd }
  else if marker = 0xc4 then do
    let tables ← (huffmanLoop bytes segmentEnd).run (s.offset + 2, s.dcTables, s.acTables)
    return { s with dcTables := tables.1, acTables := tables.2, offset := segmentEnd }
  else if marker = 0xdd then
    if length ≠ 4 then .error .invalid else .ok { s with offset := segmentEnd }
  else if marker = 0xda then s.takeScan bytes length segmentEnd
  else if marker = 0xcc || (0xdc ≤ marker && marker ≤ 0xdf) then .error .unsupported
  else if !((0xe0 ≤ marker && marker ≤ 0xef) || marker = 0xfe) then .error .unsupported
  else .ok { s with offset := segmentEnd }

/-- The marker a round is about: the one that ended a scan, or the next one. -/
def nextMarker : Except Reason (Nat × JpegState) :=
  match s.pendingMarker with
  | some marker => .ok (marker, { s with pendingMarker := none })
  | none => do
    reject (octet bytes s.offset ≠ 0xff) .invalid
    let offset := skipFill bytes (s.offset + 1)
    reject (bytes.length ≤ offset) .invalid
    return (octet bytes offset, { s with offset := offset + 1 })

/-- The checks at the end of the image. -/
def finish : Inspection :=
  match s.dimensions with
  | some dimensions =>
    if s.sawScan && s.initialComponents.card = s.componentIds.card && s.offset = bytes.length then .ok dimensions
    else .error .invalid
  | none => .error .invalid

end JpegState

/-- A segment behind its marker. -/
def jpegSegment (bytes : Bytes) (marker : Nat) (s : JpegState) : Except Reason JpegState := do
  reject (marker = 0x00 || marker = 0xd8 || (0xd0 ≤ marker && marker ≤ 0xd7)) .invalid
  reject (marker = 0x01) .unsupported
  reject (bytes.length < s.offset + 2) .invalid
  let length := u16 bytes s.offset
  let segmentEnd := s.offset + length
  reject (length < 2 || !isSafeInteger segmentEnd || bytes.length < segmentEnd) .invalid
  reject (s.dimensions.isNone && maxHeaderBytes < segmentEnd) .unsupported
  s.take bytes marker length segmentEnd

/-- One marker. -/
def jpegRound (bytes : Bytes) (s : JpegState) : Except Reason (Turn JpegState Image) :=
  if s.offset < bytes.length || s.pendingMarker.isSome then do
    reject (s.dimensions.isNone && maxHeaderBytes ≤ s.offset) .unsupported
    let (marker, s) ← s.nextMarker bytes
    if marker = 0xd9 then (s.finish bytes).map .done else (jpegSegment bytes marker s).map .next
  else .error .invalid

section
variable {bytes : Bytes} {s t : JpegState} {marker length segmentEnd : Nat}

theorem scanLoop_forward {behind : Nat × Nat} (is : (scanLoop bytes).run (segmentEnd, 0) = .ok behind) :
    segmentEnd ≤ behind.1 ∧ behind.1 ≤ bytes.length := by
  obtain ⟨last, forward, left⟩ := (Loop.run_ok_iff.mp is).invariant (P := fun s => segmentEnd ≤ s.1)
    (Nat.le_refl _) (by
      intro s t before round
      have advance := (scanLoop bytes).falls round
      simp only [scanLoop] at advance
      omega)
  have skipped := le_skipFill bytes (last.1 + 1)
  simp only [scanLoop] at left
  split at left
  · split at left
    · cases left
    split at left
    · cases left
    rename_i inside
    split at left
    · cases left
    split at left
    · cases left
    split at left
    · cases left
    · cases left
      simp only
      omega
  · cases left

/-- A segment leaves the position at its end, and a scan behind its data. -/
theorem JpegState.take_forward (inside : segmentEnd ≤ bytes.length)
    (taken : s.take bytes marker length segmentEnd = .ok t) :
    segmentEnd ≤ t.offset ∧ t.offset ≤ bytes.length := by
  rw [JpegState.take] at taken
  split at taken
  · simp only [JpegState.takeFrame, reject_bind] at taken
    obtain ⟨-, -, -, taken⟩ := taken
    obtain ⟨_, -, taken⟩ := bind_ok.mp taken
    obtain ⟨_, -, taken⟩ := bind_ok.mp taken
    cases taken
    exact ⟨Nat.le_refl _, inside⟩
  split at taken
  · obtain ⟨_, -, taken⟩ := bind_ok.mp taken
    cases taken
    exact ⟨Nat.le_refl _, inside⟩
  split at taken
  · obtain ⟨_, -, taken⟩ := bind_ok.mp taken
    cases taken
    exact ⟨Nat.le_refl _, inside⟩
  split at taken
  · split at taken
    · cases taken
    · cases taken
      exact ⟨Nat.le_refl _, inside⟩
  split at taken
  · simp only [JpegState.takeScan, reject_bind] at taken
    obtain ⟨-, -, -, taken⟩ := taken
    obtain ⟨_, -, taken⟩ := bind_ok.mp taken
    simp only [reject_bind] at taken
    obtain ⟨-, -, -, taken⟩ := taken
    obtain ⟨behind, scanned, taken⟩ := bind_ok.mp taken
    cases taken
    exact scanLoop_forward scanned
  split at taken
  · cases taken
  split at taken
  · cases taken
  · cases taken
    exact ⟨Nat.le_refl _, inside⟩

theorem JpegState.nextMarker_forward (is : s.nextMarker bytes = .ok (marker, t)) : s.offset ≤ t.offset := by
  rw [JpegState.nextMarker] at is
  split at is
  · cases is
    exact Nat.le_refl _
  · simp only [reject_bind] at is
    obtain ⟨-, -, is⟩ := is
    cases is
    have skipped := le_skipFill bytes (s.offset + 1)
    simp only
    omega

theorem jpegSegment_forward (is : jpegSegment bytes marker s = .ok t) :
    s.offset + 2 ≤ t.offset ∧ t.offset ≤ bytes.length := by
  simp only [jpegSegment, reject_bind] at is
  obtain ⟨-, -, -, bounds, -, is⟩ := is
  simp only [Bool.or_eq_false_iff, decide_eq_false_iff_not, not_lt] at bounds
  have forward := JpegState.take_forward bounds.2 is
  omega

end

def jpegLoop (bytes : Bytes) : Loop JpegState Image Reason where
  round := jpegRound bytes
  measure s := bytes.length - s.offset
  falls is := by
    rw [jpegRound] at is
    split at is
    · simp only [reject_bind] at is
      obtain ⟨-, is⟩ := is
      obtain ⟨⟨marker, u⟩, next, is⟩ := bind_ok.mp is
      simp only at is
      split at is
      · obtain ⟨_, -, same⟩ := map_ok.mp is
        cases same
      · obtain ⟨_, segment, same⟩ := map_ok.mp is
        cases same
        have marked := JpegState.nextMarker_forward next
        have forward := jpegSegment_forward segment
        omega
    · cases is

def inspectJpeg (bytes : Bytes) : Inspection :=
  if bytes.length < 4 || octet bytes 0 ≠ 0xff || octet bytes 1 ≠ 0xd8 then .error .invalid
  else (jpegLoop bytes).run {}

end Conspire.Images
