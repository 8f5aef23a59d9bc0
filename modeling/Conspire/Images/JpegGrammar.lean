import Conspire.Images.Jpeg
import Mathlib.Data.List.TakeWhile

/-! What the bytes are that `inspectJpeg` accepts: segments behind their markers and the
data of scans, and what an earlier segment has to say for a later one. -/
namespace Conspire.Images
open Octets Loops

/-- A marker with the bytes that fill the space before it. -/
def mark (fill : Nat) (marker : UInt8) : Bytes := List.replicate (fill + 1) 0xff ++ [marker]

/-- What the data of a scan consists of. -/
inductive Entropy where
  | literal (byte : UInt8)
  | stuffed (fill : Nat)
  | restart (fill : Nat) (marker : UInt8)

namespace Entropy

def encode : Entropy → Bytes
  | literal byte => [byte]
  | stuffed fill => mark fill 0x00
  | restart fill marker => mark fill marker

def Lawful : Entropy → Prop
  | literal byte => byte ≠ 0xff
  | stuffed _ => True
  | restart _ marker => 0xd0 ≤ marker.toNat ∧ marker.toNat ≤ 0xd7

def isData : Entropy → Bool
  | restart _ _ => false
  | _ => true

end Entropy

/-- The tables of a DQT segment, by their ids. -/
inductive QuantizerTables : Bytes → List Nat → Prop where
  | nil : QuantizerTables [] []
  | cons {table rest : Bytes} {id : Nat} {ids : List Nat} : octet table 0 >>> 4 ≤ 1 →
      octet table 0 &&& 0x0f = id → id ≤ 3 →
      table.length = 1 + (if octet table 0 >>> 4 = 0 then 64 else 128) →
      QuantizerTables rest ids → QuantizerTables (table ++ rest) (id :: ids)

/-- The tables of a DHT segment, by their classes and ids. -/
inductive HuffmanTables : Bytes → List (Nat × Nat) → Prop where
  | nil : HuffmanTables [] []
  | cons {table rest : Bytes} {tableClass id symbols : Nat} {ids : List (Nat × Nat)} :
      octet table 0 >>> 4 = tableClass → tableClass ≤ 1 → octet table 0 &&& 0x0f = id → id ≤ 3 →
      ((List.range 16).map fun depth => octet table (1 + depth)).sum = symbols →
      1 ≤ symbols → symbols ≤ 256 → table.length = 17 + symbols →
      HuffmanTables rest ids → HuffmanTables (table ++ rest) ((tableClass, id) :: ids)

/-- A segment behind its marker; only a scan is followed by data. -/
structure Segment where
  fill : Nat
  marker : UInt8
  data : Bytes
  entropy : List Entropy

namespace Segment
variable (c : Segment)

def encode : Bytes :=
  mark c.fill c.marker ++ bigEndian 2 (c.data.length + 2) ++ c.data ++ c.entropy.flatMap Entropy.encode

/-- Frames, tables, restart intervals, scans, and what belongs to an application. -/
structure Lawful : Prop where
  marker : c.marker.toNat ∈ [0xc0, 0xc1, 0xc2, 0xc4, 0xda, 0xdb, 0xdd, 0xfe] ∨
    (0xe0 ≤ c.marker.toNat ∧ c.marker.toNat ≤ 0xef)
  short : c.data.length + 2 < 2 ^ 16
  entropy : (∀ unit ∈ c.entropy, unit.Lawful) ∧ (c.marker ≠ 0xda → c.entropy = [])

def DefinesQuantizer (id : Nat) : Prop :=
  c.marker = 0xdb ∧ ∃ ids, QuantizerTables c.data ids ∧ id ∈ ids

def DefinesHuffman (tableClass id : Nat) : Prop :=
  c.marker = 0xc4 ∧ ∃ ids, HuffmanTables c.data ids ∧ (tableClass, id) ∈ ids

/-- The components of a frame header, each with its quantization table. -/
def components : List (Nat × Nat) :=
  (List.range (octet c.data 5)).map fun index =>
    (octet c.data (6 + index * 3), octet c.data (6 + index * 3 + 2))

def componentIds : List Nat := c.components.map Prod.fst

/-- A frame header with samples of 8 bits. -/
structure IsFrame (width height : Nat) : Prop where
  marker : c.marker.toNat ∈ [0xc0, 0xc1, 0xc2]
  precision : octet c.data 0 = 8
  size : u16 c.data 3 = width ∧ u16 c.data 1 = height
  count : 1 ≤ octet c.data 5 ∧ octet c.data 5 ≤ 4 ∧ c.data.length = 6 + 3 * octet c.data 5
  distinct : c.componentIds.Nodup

/-- The components a scan header names, each with its two tables. -/
def selectors : List (Nat × Nat) :=
  (List.range (octet c.data 0)).map fun index =>
    (octet c.data (1 + index * 2), octet c.data (2 + index * 2))

def scanIds : List Nat := c.selectors.map Prod.fst

def spectralStart : Nat := octet c.data (1 + 2 * octet c.data 0)

def spectralEnd : Nat := octet c.data (2 + 2 * octet c.data 0)

def successiveHigh : Nat := octet c.data (3 + 2 * octet c.data 0) >>> 4

/-- A scan that gives its components their DC coefficients for the first time. -/
structure Initial : Prop where
  marker : c.marker = 0xda
  start : c.spectralStart = 0
  first : c.successiveHigh = 0

/-- A scan, by the segments before it. -/
structure Scan (frame : Segment) (before : List Segment) : Prop where
  after : frame ∈ before
  length : 1 ≤ octet c.data 0 ∧ c.data.length = 4 + 2 * octet c.data 0
  distinct : c.scanIds.Nodup
  declared : ∀ id ∈ c.scanIds, id ∈ frame.componentIds
  quantizers : ∀ component ∈ frame.components, ∃ d ∈ before, d.DefinesQuantizer component.2
  dc : c.spectralStart = 0 → ∀ selector ∈ c.selectors, ∃ d ∈ before, d.DefinesHuffman 0 (selector.2 >>> 4)
  ac : 0 < c.spectralEnd → ∀ selector ∈ c.selectors, ∃ d ∈ before, d.DefinesHuffman 1 (selector.2 &&& 0x0f)
  refines : frame.marker = 0xc2 → (0 < c.spectralStart ∨ 0 < c.successiveHigh) →
    ∀ id ∈ c.scanIds, ∃ d ∈ before, d.Initial ∧ id ∈ d.scanIds
  data : ∃ unit ∈ c.entropy, unit.isData = true

end Segment

/-- Segments with one frame header, which every scan follows. -/
structure Framed (segments : List Segment) (frame : Segment) (width height : Nat) : Prop where
  own : frame.IsFrame width height
  one : ∃ earlier later, segments = earlier ++ frame :: later ∧
    (∀ c ∈ earlier ++ later, isSof c.marker.toNat = false) ∧
    2 + ((earlier ++ [frame]).flatMap Segment.encode).length ≤ 1024 * 1024
  scans : ∀ before c after, segments = before ++ c :: after → c.marker = 0xda → c.Scan frame before

/-- The segments of a JPEG of this size. -/
structure Jpeg (segments : List Segment) (width height : Nat) : Prop where
  fits : Fits width height
  lawful : ∀ c ∈ segments, c.Lawful
  framed : ∃ frame, Framed segments frame width height ∧
    ∀ id ∈ frame.componentIds, ∃ c ∈ segments, c.Initial ∧ id ∈ c.scanIds

/-- A JPEG between its first marker and its last one, which ends the bytes. -/
def JpegFile (bytes : Bytes) (width height : Nat) : Prop :=
  ∃ segments fill, Jpeg segments width height ∧
    bytes = [0xff, 0xd8] ++ segments.flatMap Segment.encode ++ mark fill 0xd9

section
variable {bytes : Bytes} {start segmentEnd n : Nat}

theorem octet_eq_getElem (inside : start < bytes.length) : octet bytes start = bytes[start].toNat := by
  simp [octet, List.getD_eq_getElem?_getD, List.getElem?_eq_getElem inside]

theorem fill_here (xs : Bytes) : ∃ rest, xs = List.replicate (xs.takeWhile (· = 0xff)).length 0xff ++ rest ∧
    ∀ byte tail, rest = byte :: tail → byte ≠ 0xff := by
  induction xs with
  | nil => exact ⟨[], rfl, nofun⟩
  | cons byte xs ih =>
    by_cases is : byte = 0xff
    · obtain ⟨rest, whole, other⟩ := ih
      refine ⟨rest, ?_, other⟩
      rw [List.takeWhile_cons_of_pos (by simpa using is), List.length_cons, List.replicate_succ,
        List.cons_append, ← whole, is]
    · refine ⟨byte :: xs, ?_, fun first _ same => ?_⟩
      · rw [List.takeWhile_cons_of_neg (by simpa using is)]
        rfl
      · exact (List.cons.inj same).1 ▸ is

/-- A byte 0xff, and the marker behind all that follow it. -/
theorem marker_here (first : octet bytes start = 0xff) (inside : skipFill bytes (start + 1) < bytes.length) :
    ∃ fill marker, bytes.drop start = mark fill marker ++ bytes.drop (skipFill bytes (start + 1) + 1) ∧
      marker.toNat = octet bytes (skipFill bytes (start + 1)) ∧ marker ≠ 0xff := by
  have skipped := le_skipFill bytes (start + 1)
  have before : start < bytes.length := by omega
  have head : bytes[start] = 0xff := by
    apply UInt8.toNat_inj.mp
    rw [← octet_eq_getElem before, first]
    rfl
  obtain ⟨rest, here, other⟩ := fill_here (bytes.drop (start + 1))
  generalize count : ((bytes.drop (start + 1)).takeWhile (· = 0xff)).length = fill at here
  have skip : skipFill bytes (start + 1) = start + 1 + fill := congrArg _ count
  have behind := drop_of_drop here
  rw [List.length_replicate, ← skip, List.drop_eq_getElem_cons inside] at behind
  refine ⟨fill, bytes[skipFill bytes (start + 1)], ?_, (octet_eq_getElem inside).symm, other _ _ behind.symm⟩
  rw [List.drop_eq_getElem_cons before, head, here, ← behind, mark, List.replicate_succ, List.cons_append,
    List.cons_append, List.append_assoc, List.singleton_append]

/-- What the bytes of a scan are up to the marker that ends it. -/
theorem scanLoop_spec {behind : Nat × Nat}
    (is : (scanLoop bytes).run (segmentEnd, 0) = .ok behind) :
    ∃ (run : List Entropy) (fill : Nat) (marker : UInt8),
      bytes.drop segmentEnd = run.flatMap Entropy.encode ++ (mark fill marker ++ bytes.drop behind.1) ∧
      marker.toNat = behind.2 ∧ (∀ unit ∈ run, unit.Lawful) ∧ (∃ unit ∈ run, unit.isData = true) := by
  obtain ⟨last, ⟨run, here, lawful, counted⟩, left⟩ := (Loop.run_ok_iff.mp is).invariant
    (P := fun s => ∃ run : List Entropy, bytes.drop segmentEnd = run.flatMap Entropy.encode ++ bytes.drop s.1 ∧
      (∀ unit ∈ run, unit.Lawful) ∧ (s.2 ≠ 0 → ∃ unit ∈ run, unit.isData = true))
    ⟨[], rfl, nofun, fun nonempty => absurd rfl nonempty⟩ (by
    rintro s t ⟨run, here, lawful, counted⟩ round
    -- the unit that the round has read
    suffices next : ∃ unit : Entropy, bytes.drop s.1 = unit.encode ++ bytes.drop t.1 ∧ unit.Lawful ∧
        (t.2 = s.2 ∨ unit.isData = true) by
      obtain ⟨unit, more, fine, same⟩ := next
      refine ⟨run ++ [unit], ?_, fun v member => ?_, fun nonempty => ?_⟩
      · rw [here, more, List.flatMap_append, List.flatMap_singleton, List.append_assoc]
      · rcases List.mem_append.mp member with old | new
        · exact lawful v old
        · rwa [List.mem_singleton.mp new]
      · rcases same with same | data
        · obtain ⟨v, member, data⟩ := counted (same ▸ nonempty)
          exact ⟨v, List.mem_append_left _ member, data⟩
        · exact ⟨unit, List.mem_append_right _ (List.mem_singleton.mpr rfl), data⟩
    simp only [scanLoop] at round
    split at round
    · rename_i before
      split at round
      · rename_i other
        cases round
        refine ⟨.literal bytes[s.1], List.drop_eq_getElem_cons before, fun is => ?_, .inr rfl⟩
        rw [octet_eq_getElem before, is] at other
        exact other rfl
      rename_i first
      split at round
      · cases round
      rename_i within
      obtain ⟨fill, marker, more, number, -⟩ := marker_here (not_not.mp first) (not_le.mp within)
      rw [← number] at round
      split at round
      · rename_i zero
        cases round
        obtain rfl : marker = 0x00 := UInt8.toNat_inj.mp zero
        exact ⟨.stuffed fill, more, trivial, .inr rfl⟩
      split at round
      · rename_i restart
        cases round
        exact ⟨.restart fill marker, more, by simpa [Entropy.Lawful] using restart, .inl rfl⟩
      split at round <;> cases round
    · cases round)
  simp only [scanLoop] at left
  split at left
  · split at left
    · cases left
    rename_i first
    split at left
    · cases left
    rename_i within
    obtain ⟨fill, marker, more, number, -⟩ := marker_here (not_not.mp first) (not_le.mp within)
    split at left
    · cases left
    split at left
    · cases left
    split at left
    · cases left
    · rename_i nonempty
      cases left
      exact ⟨run, fill, marker, by rw [here, more], number, lawful, counted nonempty⟩
  · cases left

theorem u16_eq (inside : start + 2 ≤ bytes.length) : u16 bytes start = ofBigEndian (slice bytes start 2) := by
  have length := length_slice inside
  have reads : ∀ i < 2, octet bytes (start + i) = octet (slice bytes start 2) i :=
    fun i before => (octet_slice before).symm
  match two : slice bytes start 2, length with
  | [a, b], _ =>
    rw [two] at reads
    have first : octet bytes start = a.toNat := reads 0 (by decide)
    have second : octet bytes (start + 1) = b.toNat := reads 1 (by decide)
    simp [u16, first, second, ofBigEndian]

theorem u16_lt (bytes : Bytes) (start : Nat) : u16 bytes start < 2 ^ 16 := by
  have one := octet_lt bytes start
  have two := octet_lt bytes (start + 1)
  simp only [u16]
  omega

/-- What lies behind a marker: a length, and as many bytes. -/
theorem segment_here {length : Nat} (is : u16 bytes start = length) (two : 2 ≤ length)
    (inside : start + length ≤ bytes.length) :
    (slice bytes (start + 2) (length - 2)).length + 2 = length ∧
    bytes.drop start = bigEndian 2 length ++ slice bytes (start + 2) (length - 2) ++ bytes.drop (start + length) := by
  have size : (slice bytes (start + 2) (length - 2)).length = length - 2 := length_slice (by omega)
  have field := bigEndian_ofBigEndian (slice bytes start 2)
  rw [length_slice (by omega), ← u16_eq (by omega), is] at field
  refine ⟨by omega, ?_⟩
  rw [field, drop_slice bytes start 2, drop_slice bytes (start + 2) (length - 2), List.append_assoc,
    show start + 2 + (length - 2) = start + length by omega]

/-- The bytes between two positions begin with those up to a third. -/
theorem slice_split (middle : Nat) (first : start ≤ middle) (second : middle ≤ segmentEnd) :
    slice bytes start (segmentEnd - start) = slice bytes start (middle - start) ++
      slice bytes middle (segmentEnd - middle) := by
  rw [show segmentEnd - start = (middle - start) + (segmentEnd - middle) by omega, slice_add,
    show start + (middle - start) = middle by omega]

theorem quantizerLoop_spec {s : Nat × Finset Nat} {known : Finset Nat}
    (rounds : (quantizerLoop bytes segmentEnd).Rounds s known)
    (inside : segmentEnd ≤ bytes.length) :
    ∃ ids, QuantizerTables (slice bytes s.1 (segmentEnd - s.1)) ids ∧ ∀ id ∈ known, id ∈ s.2 ∨ id ∈ ids := by
  induction rounds with
  | @done s _ is =>
    simp only [quantizerLoop] at is
    split at is
    · simp only [reject_bind] at is
      obtain ⟨-, -, is⟩ := is
      cases is
    split at is
    · cases is
    · rename_i atEnd
      cases is
      rw [not_not.mp atEnd, Nat.sub_self]
      exact ⟨[], .nil, fun id member => .inl member⟩
  | @next s t _ is _ ih =>
    obtain ⟨ids, tables, all⟩ := ih
    simp only [quantizerLoop] at is
    split at is
    · simp only [reject_bind] at is
      obtain ⟨bounds, -, is⟩ := is
      cases is
      simp only [Bool.or_eq_false_iff, decide_eq_false_iff_not, not_lt] at bounds
      obtain ⟨⟨precision, few⟩, within⟩ := bounds
      generalize size : (if octet bytes s.1 >>> 4 = 0 then 64 else 128) = tableBytes at within tables all ⊢
      have first : octet (slice bytes s.1 (s.1 + 1 + tableBytes - s.1)) 0 = octet bytes s.1 :=
        octet_slice (by omega)
      rw [slice_split (s.1 + 1 + tableBytes) (by omega) within]
      refine ⟨(octet bytes s.1 &&& 0x0f) :: ids, .cons (first ▸ precision)
        (first ▸ rfl) few ?_ tables, fun id member => ?_⟩
      · rw [length_slice (by omega), first, size]
        omega
      · rcases all id member with old | new
        · rcases Finset.mem_insert.mp old with rfl | old
          · exact .inr (List.mem_cons_self ..)
          · exact .inl old
        · exact .inr (List.mem_cons_of_mem _ new)
    · split at is <;> cases is

theorem huffmanSymbols_spec {symbols : Nat} (is : huffmanSymbols bytes start = .ok symbols) :
    symbols = ((List.range 16).map fun depth => octet bytes (start + 1 + depth)).sum := by
  simp only [huffmanSymbols] at is
  obtain ⟨codes, folded, is⟩ := bind_ok.mp is
  cases is
  refine foldlM_range (P := fun n s => s.2 = ((List.range n).map fun depth => octet bytes (start + 1 + depth)).sum)
    folded rfl ?_
  intro n _ s t before round
  simp only [reject_bind] at round
  obtain ⟨-, round⟩ := round
  cases round
  simp [List.range_succ, before]

theorem huffmanLoop_spec {s : Nat × Finset Nat × Finset Nat} {known : Finset Nat × Finset Nat}
    (rounds : (huffmanLoop bytes segmentEnd).Rounds s known) (inside : segmentEnd ≤ bytes.length) :
    ∃ ids, HuffmanTables (slice bytes s.1 (segmentEnd - s.1)) ids ∧
      (∀ id ∈ known.1, id ∈ s.2.1 ∨ (0, id) ∈ ids) ∧ ∀ id ∈ known.2, id ∈ s.2.2 ∨ (1, id) ∈ ids := by
  induction rounds with
  | @done s _ is =>
    simp only [huffmanLoop] at is
    split at is
    · simp only [reject_bind] at is
      obtain ⟨-, -, is⟩ := is
      obtain ⟨_, -, is⟩ := bind_ok.mp is
      simp only [reject_bind] at is
      obtain ⟨-, is⟩ := is
      cases is
    split at is
    · cases is
    · rename_i atEnd
      cases is
      rw [not_not.mp atEnd, Nat.sub_self]
      exact ⟨[], .nil, fun id member => .inl member, fun id member => .inl member⟩
  | @next s t _ is _ ih =>
    obtain ⟨ids, tables, dc, ac⟩ := ih
    simp only [huffmanLoop] at is
    split at is
    · simp only [reject_bind] at is
      obtain ⟨long, bounds, is⟩ := is
      obtain ⟨symbols, counted, is⟩ := bind_ok.mp is
      simp only [reject_bind] at is
      obtain ⟨sizes, is⟩ := is
      cases is
      simp only [Bool.or_eq_false_iff, decide_eq_false_iff_not, not_lt] at long bounds sizes
      obtain ⟨⟨positive, few⟩, within⟩ := sizes
      have sum := huffmanSymbols_spec counted
      have reads : ∀ i < 17, octet (slice bytes s.1 (s.1 + 17 + symbols - s.1)) i = octet bytes (s.1 + i) :=
        fun i before => octet_slice (by omega)
      have first : octet (slice bytes s.1 (s.1 + 17 + symbols - s.1)) 0 = octet bytes s.1 := reads 0 (by decide)
      have same : (List.range 16).map (fun depth => octet (slice bytes s.1 (s.1 + 17 + symbols - s.1)) (1 + depth)) =
          (List.range 16).map fun depth => octet bytes (s.1 + 1 + depth) := by
        apply List.map_congr_left
        intro depth below
        rw [reads _ (by have bound := List.mem_range.mp below; omega), Nat.add_assoc]
      rw [slice_split (s.1 + 17 + symbols) (by omega) within]
      refine ⟨(octet bytes s.1 >>> 4, octet bytes s.1 &&& 0x0f) :: ids,
        .cons (first ▸ rfl) bounds.1 (first ▸ rfl) bounds.2 (same ▸ sum.symm) (by omega) few ?_ tables, ?_, ?_⟩
      · rw [length_slice (by omega)]
        omega
      · intro id member
        rcases dc id member with old | new
        · split at old
          · rename_i zero
            rcases Finset.mem_insert.mp old with rfl | old
            · rw [zero]
              exact .inr (List.mem_cons_self ..)
            · exact .inl old
          · exact .inl old
        · exact .inr (List.mem_cons_of_mem _ new)
      · intro id member
        rcases ac id member with old | new
        · split at old
          · exact .inl old
          · rename_i other
            have one : octet bytes s.1 >>> 4 = 1 := by omega
            rcases Finset.mem_insert.mp old with rfl | old
            · rw [one]
              exact .inr (List.mem_cons_self ..)
            · exact .inl old
        · exact .inr (List.mem_cons_of_mem _ new)
    · split at is <;> cases is

theorem frameComponents_spec {result : Finset Nat × List (Nat × Nat)}
    (is : frameComponents bytes start n = .ok result) :
    result.2 = (List.range n).map (fun index =>
      (octet bytes (start + 8 + index * 3), octet bytes (start + 8 + index * 3 + 2))) ∧
    (result.2.map Prod.fst).Nodup ∧ result.1 = (result.2.map Prod.fst).toFinset := by
  refine foldlM_range (P := fun n s => s.2 = (List.range n).map (fun index =>
      (octet bytes (start + 8 + index * 3), octet bytes (start + 8 + index * 3 + 2))) ∧
    (s.2.map Prod.fst).Nodup ∧ s.1 = (s.2.map Prod.fst).toFinset) is ⟨rfl, List.nodup_nil, rfl⟩ ?_
  rintro n - ⟨ids, quantizers⟩ t ⟨listed, distinct, set⟩ round
  simp only [reject_bind] at round
  obtain ⟨fresh, round⟩ := round
  cases round
  simp only [Bool.or_eq_false_iff, decide_eq_false_iff_not] at fresh listed distinct set ⊢
  have new : octet bytes (start + 8 + n * 3) ∉ quantizers.map Prod.fst := by
    intro member
    apply fresh.1.1.1.1.1
    rw [set]
    exact List.mem_toFinset.mpr member
  refine ⟨by rw [List.range_succ, List.map_append, listed]; rfl, ?_, ?_⟩
  · rw [List.map_append, List.map_singleton]
    exact List.nodup_append.mpr ⟨distinct, List.nodup_singleton _, fun a before b last => by
      rintro rfl
      have same : a = octet bytes (start + 8 + n * 3) := List.mem_singleton.mp last
      exact new (same ▸ before)⟩
  · rw [List.map_append, List.toFinset_append, ← set, Finset.union_comm]
    rfl

theorem scanComponentIds_spec {s : JpegState} {scanIds : Finset Nat}
    (is : scanComponentIds bytes s n = .ok scanIds) :
    ((List.range n).map fun index => octet bytes (s.offset + 3 + index * 2)).Nodup ∧
    scanIds = ((List.range n).map fun index => octet bytes (s.offset + 3 + index * 2)).toFinset ∧
    scanIds ⊆ s.componentIds := by
  refine foldlM_range (P := fun n ids => ((List.range n).map fun index => octet bytes (s.offset + 3 + index * 2)).Nodup ∧
    ids = ((List.range n).map fun index => octet bytes (s.offset + 3 + index * 2)).toFinset ∧
    ids ⊆ s.componentIds) is ⟨List.nodup_nil, rfl, Finset.empty_subset _⟩ ?_
  rintro n - ids t ⟨distinct, set, declared⟩ round
  simp only [reject_bind] at round
  obtain ⟨fresh, round⟩ := round
  cases round
  simp only [Bool.or_eq_false_iff, decide_eq_false_iff_not, not_not] at fresh
  obtain ⟨⟨⟨known, new⟩, -⟩, -⟩ := fresh
  rw [List.range_succ, List.map_append, List.map_singleton]
  refine ⟨?_, ?_, Finset.insert_subset known declared⟩
  · rw [set] at new
    exact List.nodup_append.mpr ⟨distinct, List.nodup_singleton _, fun a before b last => by
      rintro rfl
      exact new (List.mem_toFinset.mpr (List.mem_singleton.mp last ▸ before))⟩
  · rw [List.toFinset_append, ← set, Finset.union_comm]
    rfl

end

section
variable {done : List Segment} {c frame : Segment} {width height : Nat}

/-- What is said of every segment and of those before it holds of one more segment too. -/
theorem splits_snoc {P : List Segment → Segment → Prop}
    (all : ∀ before d after, done = before ++ d :: after → P before d) (last : P done c) :
    ∀ before d after, done ++ [c] = before ++ d :: after → P before d := by
  intro before d after is
  rcases List.eq_nil_or_concat after with rfl | ⟨front, e, rfl⟩
  · obtain ⟨rfl, same⟩ := List.append_inj' is rfl
    obtain rfl := (List.cons.inj same).1
    exact last
  · rw [List.concat_eq_append, ← List.cons_append, ← List.append_assoc] at is
    exact all before d front (List.append_inj' is rfl).1

theorem Framed.snoc (framed : Framed done frame width height) (other : isSof c.marker.toNat = false)
    (scan : c.marker = 0xda → c.Scan frame done) : Framed (done ++ [c]) frame width height := by
  obtain ⟨own, ⟨earlier, later, rfl, others, short⟩, scans⟩ := framed
  refine ⟨own, ⟨earlier, later ++ [c], by simp, fun d member => ?_, short⟩, splits_snoc scans scan⟩
  rw [← List.append_assoc] at member
  rcases List.mem_append.mp member with old | new
  · exact others d old
  · rwa [List.mem_singleton.mp new]

/-- What the state says of the frame header. -/
def FrameOf (done : List Segment) (s : JpegState) : Prop :=
  match s.dimensions with
  | none => s.initialComponents = ∅ ∧ ∀ c ∈ done, isSof c.marker.toNat = false ∧ c.marker ≠ 0xda
  | some image => ∃ frame, Framed done frame image.width image.height ∧ Fits image.width image.height ∧
      image = { format := .jpeg, width := image.width, height := image.height,
                pixels := image.width * image.height } ∧
      s.componentIds = frame.componentIds.toFinset ∧ s.componentQuantizers = frame.components ∧
      s.frameMarker = frame.marker.toNat ∧ s.initialComponents ⊆ s.componentIds

/-- What the state of the loop says of the segments before. -/
structure Parsed (done : List Segment) (s : JpegState) : Prop where
  lawful : ∀ c ∈ done, c.Lawful
  quantizers : ∀ id ∈ s.quantizers, ∃ c ∈ done, c.DefinesQuantizer id
  dcTables : ∀ id ∈ s.dcTables, ∃ c ∈ done, c.DefinesHuffman 0 id
  acTables : ∀ id ∈ s.acTables, ∃ c ∈ done, c.DefinesHuffman 1 id
  initial : ∀ id ∈ s.initialComponents, ∃ c ∈ done, c.Initial ∧ id ∈ c.scanIds
  frame : FrameOf done s

variable {s t : JpegState}

theorem mem_snoc {P : Segment → Prop} (found : (∃ d ∈ done, P d) ∨ P c) : ∃ d ∈ done ++ [c], P d := by
  rcases found with ⟨d, member, holds⟩ | holds
  · exact ⟨d, List.mem_append_left _ member, holds⟩
  · exact ⟨c, List.mem_append_right _ (List.mem_singleton.mpr rfl), holds⟩

theorem all_snoc {P : Segment → Prop} (all : ∀ d ∈ done, P d) (last : P c) : ∀ d ∈ done ++ [c], P d := by
  intro d member
  rcases List.mem_append.mp member with old | new
  · exact all d old
  · rwa [List.mem_singleton.mp new]

/-- A segment that is neither a frame header nor a scan may add tables. -/
theorem Parsed.other (parsed : Parsed done s) (lawful : c.Lawful)
    (plain : isSof c.marker.toNat = false ∧ c.marker ≠ 0xda)
    (quantizers : ∀ id ∈ t.quantizers, id ∈ s.quantizers ∨ c.DefinesQuantizer id)
    (dcTables : ∀ id ∈ t.dcTables, id ∈ s.dcTables ∨ c.DefinesHuffman 0 id)
    (acTables : ∀ id ∈ t.acTables, id ∈ s.acTables ∨ c.DefinesHuffman 1 id)
    (dimensions : t.dimensions = s.dimensions) (ids : t.componentIds = s.componentIds)
    (chosen : t.componentQuantizers = s.componentQuantizers) (marker : t.frameMarker = s.frameMarker)
    (initial : t.initialComponents = s.initialComponents) : Parsed (done ++ [c]) t where
  lawful := all_snoc parsed.lawful lawful
  quantizers id member := mem_snoc ((quantizers id member).imp_left (parsed.quantizers id))
  dcTables id member := mem_snoc ((dcTables id member).imp_left (parsed.dcTables id))
  acTables id member := mem_snoc ((acTables id member).imp_left (parsed.acTables id))
  initial id member := mem_snoc (.inl (parsed.initial id (initial ▸ member)))
  frame := by
    have frame := parsed.frame
    simp only [FrameOf, dimensions, ids, chosen, marker, initial] at frame ⊢
    cases known : s.dimensions with
    | none =>
      rw [known] at frame
      exact ⟨frame.1, all_snoc frame.2 plain⟩
    | some image =>
      rw [known] at frame
      obtain ⟨header, framed, rest⟩ := frame
      exact ⟨header, framed.snoc plain.1 fun is => absurd is plain.2, rest⟩

/-- The first frame header. -/
theorem Parsed.frames (parsed : Parsed done s) (unknown : s.dimensions = none) (lawful : c.Lawful)
    {image : Image} (own : c.IsFrame image.width image.height) (fits : Fits image.width image.height)
    (is : image = { format := .jpeg, width := image.width, height := image.height,
                    pixels := image.width * image.height })
    (short : 2 + ((done ++ [c]).flatMap Segment.encode).length ≤ 1024 * 1024)
    (quantizers : t.quantizers = s.quantizers) (dcTables : t.dcTables = s.dcTables)
    (acTables : t.acTables = s.acTables) (initial : t.initialComponents = s.initialComponents)
    (dimensions : t.dimensions = some image) (ids : t.componentIds = c.componentIds.toFinset)
    (chosen : t.componentQuantizers = c.components) (marker : t.frameMarker = c.marker.toNat) :
    Parsed (done ++ [c]) t where
  lawful := all_snoc parsed.lawful lawful
  quantizers id member := mem_snoc (.inl (parsed.quantizers id (quantizers ▸ member)))
  dcTables id member := mem_snoc (.inl (parsed.dcTables id (dcTables ▸ member)))
  acTables id member := mem_snoc (.inl (parsed.acTables id (acTables ▸ member)))
  initial id member := mem_snoc (.inl (parsed.initial id (initial ▸ member)))
  frame := by
    have frame := parsed.frame
    simp only [FrameOf, unknown] at frame
    obtain ⟨empty, unseen⟩ := frame
    simp only [FrameOf, dimensions]
    refine ⟨c, ⟨own, ⟨done, [], rfl, ?_, short⟩, ?_⟩, fits, is, ids, chosen, marker, ?_⟩
    · rw [List.append_nil]
      exact fun d member => (unseen d member).1
    · refine splits_snoc (fun before d after same scan => ?_) fun scan => ?_
      · exact absurd scan (unseen d (by rw [same]; simp)).2
      · have header := own.marker
        rw [scan] at header
        exact absurd header (by decide)
    · rw [initial, empty]
      exact Finset.empty_subset _

/-- A scan behind the frame header. -/
theorem Parsed.scans (parsed : Parsed done s) (lawful : c.Lawful) (marker : c.marker = 0xda)
    (scan : ∀ image frame, s.dimensions = some image → Framed done frame image.width image.height →
      s.componentIds = frame.componentIds.toFinset → s.componentQuantizers = frame.components →
      s.frameMarker = frame.marker.toNat → c.Scan frame done)
    (known : s.dimensions ≠ none)
    (declared : ∀ id ∈ c.scanIds, id ∈ s.componentIds)
    (quantizers : t.quantizers = s.quantizers) (dcTables : t.dcTables = s.dcTables)
    (acTables : t.acTables = s.acTables) (dimensions : t.dimensions = s.dimensions)
    (ids : t.componentIds = s.componentIds) (chosen : t.componentQuantizers = s.componentQuantizers)
    (header : t.frameMarker = s.frameMarker)
    (initial : ∀ id ∈ t.initialComponents, id ∈ s.initialComponents ∨ (c.Initial ∧ id ∈ c.scanIds)) :
    Parsed (done ++ [c]) t where
  lawful := all_snoc parsed.lawful lawful
  quantizers id member := mem_snoc (.inl (parsed.quantizers id (quantizers ▸ member)))
  dcTables id member := mem_snoc (.inl (parsed.dcTables id (dcTables ▸ member)))
  acTables id member := mem_snoc (.inl (parsed.acTables id (acTables ▸ member)))
  initial id member := mem_snoc ((initial id member).imp_left (parsed.initial id))
  frame := by
    have frame := parsed.frame
    simp only [FrameOf, dimensions, ids, chosen, header] at frame ⊢
    cases found : s.dimensions with
    | none => exact absurd found known
    | some image =>
      rw [found] at frame
      obtain ⟨own, framed, fits, whole, set, tables, kind, within⟩ := frame
      have next := framed.snoc (c := c) (by rw [marker]; decide) fun _ =>
        scan image own found framed set tables kind
      refine ⟨own, next, fits, whole, set, tables, kind, fun id member => ?_⟩
      rcases initial id member with old | new
      · exact within old
      · exact declared id new.2

/-- The bytes up to the end of some segments. -/
def front (done : List Segment) : Bytes := [0xff, 0xd8] ++ done.flatMap Segment.encode

theorem front_snoc (done : List Segment) (c : Segment) : front (done ++ [c]) = front done ++ c.encode := by
  simp [front, List.flatMap_append]

/-- The segments before the position, and the marker that ended the last of them. -/
def Stands (bytes : Bytes) (done : List Segment) (s : JpegState) : Prop :=
  s.offset ≤ bytes.length ∧
  match s.pendingMarker with
  | none => bytes = front done ++ bytes.drop s.offset
  | some number => ∃ fill marker, bytes = front done ++ (mark fill marker ++ bytes.drop s.offset) ∧
      marker.toNat = number

variable {bytes : Bytes} {number : Nat}

/-- The marker that a round is about lies behind the segments before. -/
theorem JpegState.nextMarker_spec (stands : Stands bytes done s) (is : s.nextMarker bytes = .ok (number, t)) :
    ∃ fill marker, bytes = front done ++ (mark fill marker ++ bytes.drop t.offset) ∧ marker.toNat = number ∧
      t = { s with offset := t.offset, pendingMarker := none } := by
  obtain ⟨-, stands⟩ := stands
  rw [JpegState.nextMarker] at is
  split at is
  · rename_i marker pending
    rw [pending] at stands
    cases is
    obtain ⟨fill, marker, whole, same⟩ := stands
    exact ⟨fill, marker, whole, same, rfl⟩
  · rename_i pending
    rw [pending] at stands
    simp only [reject_bind, decide_eq_false_iff_not, not_not, not_le] at is
    obtain ⟨first, inside, is⟩ := is
    cases is
    obtain ⟨fill, marker, here, same, -⟩ := marker_here first inside
    refine ⟨fill, marker, ?_, same, ?_⟩
    · rw [← here]
      exact stands
    · cases s
      cases pending
      rfl

/-- The length and the bytes of a segment lie at the position. -/
structure Reads (bytes : Bytes) (s : JpegState) (c : Segment) (length segmentEnd : Nat) : Prop where
  size : c.data.length + 2 = length
  ends : s.offset + length = segmentEnd
  inside : segmentEnd ≤ bytes.length
  here : bytes.drop s.offset = bigEndian 2 length ++ c.data ++ bytes.drop segmentEnd

namespace Reads
variable {length segmentEnd i : Nat} (reads : Reads bytes s c length segmentEnd)
include reads

theorem octet_data (before : i < c.data.length) : octet bytes (s.offset + (2 + i)) = octet c.data i := by
  have split := drop_of_drop (reads.here.trans (List.append_assoc ..))
  rw [length_bigEndian] at split
  rw [← Nat.add_assoc]
  exact octet_of_drop split before

theorem octet_at (n : Nat) (stands : n = s.offset + 2 + i) (before : i < c.data.length) :
    octet bytes n = octet c.data i := by
  rw [stands, Nat.add_assoc]
  exact reads.octet_data before

theorem slice_data : slice bytes (s.offset + 2) (segmentEnd - (s.offset + 2)) = c.data := by
  have split := drop_of_drop (reads.here.trans (List.append_assoc ..))
  rw [length_bigEndian] at split
  have part := slice_of_drop split
  rwa [show c.data.length = segmentEnd - (s.offset + 2) by have l := reads.size; have e := reads.ends; omega] at part

end Reads

variable {length segmentEnd : Nat}

theorem JpegState.takeFrame_spec (parsed : Parsed done s) (reads : Reads bytes s c length segmentEnd)
    (lawful : c.marker.toNat ∈ [0xc0, 0xc1, 0xc2] → c.Lawful)
    (ends : (front (done ++ [c])).length = segmentEnd)
    (taken : s.takeFrame bytes c.marker.toNat length segmentEnd = .ok t) :
    Parsed (done ++ [c]) t ∧ t.offset = segmentEnd ∧ t.pendingMarker = s.pendingMarker := by
  simp only [JpegState.takeFrame, reject_bind] at taken
  obtain ⟨unknown, kind, count, taken⟩ := taken
  obtain ⟨image, size, taken⟩ := bind_ok.mp taken
  obtain ⟨components, listed, taken⟩ := bind_ok.mp taken
  cases taken
  simp only [Bool.or_eq_false_iff, decide_eq_false_iff_not, not_not, not_lt, Bool.not_eq_false',
    List.contains_iff_mem, Option.isSome_eq_false_iff, Option.isNone_iff_eq_none] at unknown kind count
  obtain ⟨⟨⟨marker, bounded⟩, long⟩, precision⟩ := kind
  obtain ⟨fits, rfl⟩ := ok_iff.mp size
  have total := reads.size
  have counted : octet bytes (s.offset + 7) = octet c.data 5 := reads.octet_at _ (by omega) (by omega)
  have wide : u16 bytes (s.offset + 5) = u16 c.data 3 := by
    rw [u16, u16, reads.octet_at (s.offset + 5) (i := 3) (by omega) (by omega),
      reads.octet_at (s.offset + 5 + 1) (i := 4) (by omega) (by omega)]
  have high : u16 bytes (s.offset + 3) = u16 c.data 1 := by
    rw [u16, u16, reads.octet_at (s.offset + 3) (i := 1) (by omega) (by omega),
      reads.octet_at (s.offset + 3 + 1) (i := 2) (by omega) (by omega)]
  rw [counted] at count listed
  obtain ⟨quantizers, distinct, ids⟩ := frameComponents_spec listed
  have same : components.2 = c.components := by
    rw [quantizers]
    apply List.map_congr_left
    intro index below
    have bound := List.mem_range.mp below
    rw [reads.octet_at (s.offset + 8 + index * 3) (i := 6 + index * 3) (by omega) (by omega),
      reads.octet_at (s.offset + 8 + index * 3 + 2) (i := 6 + index * 3 + 2) (by omega) (by omega)]
  rw [same] at distinct ids
  have own : c.IsFrame (u16 bytes (s.offset + 5)) (u16 bytes (s.offset + 3)) :=
    { marker
      precision := (reads.octet_at (s.offset + 2) (i := 0) (by omega) (by omega)).symm.trans precision
      size := ⟨wide.symm, high.symm⟩
      count := by omega
      distinct }
  refine ⟨parsed.frames unknown (lawful marker) own fits rfl ?_ rfl rfl rfl rfl rfl ids same rfl, rfl, rfl⟩
  rw [front, List.length_append] at ends
  have limit : maxHeaderBytes = 1024 * 1024 := rfl
  rw [limit, ← ends] at bounded
  exact bounded

theorem JpegState.takeScan_spec (parsed : Parsed done s) (reads : Reads bytes s c length segmentEnd)
    (lawful : c.Lawful) (marker : c.marker = 0xda)
    (data : ∃ unit ∈ c.entropy, unit.isData = true)
    (taken : s.takeScan bytes length segmentEnd = .ok t) :
    Parsed (done ++ [c]) t := by
  simp only [JpegState.takeScan, reject_bind] at taken
  obtain ⟨known, tables, count, taken⟩ := taken
  obtain ⟨scanIds, named, taken⟩ := bind_ok.mp taken
  simp only [reject_bind] at taken
  obtain ⟨-, refines, defined, taken⟩ := taken
  obtain ⟨behind, -, taken⟩ := bind_ok.mp taken
  cases taken
  simp only [Bool.or_eq_false_iff, decide_eq_false_iff_not, not_not, not_lt,
    Option.isNone_eq_false_iff] at known count
  obtain ⟨known, long⟩ := known
  have total := reads.size
  have counted : octet bytes (s.offset + 2) = octet c.data 0 := reads.octet_at _ (by omega) (by omega)
  rw [counted] at count named refines defined
  obtain ⟨⟨positive, few⟩, lengthIs⟩ := count
  have start : octet bytes (s.offset + 3 + 2 * octet c.data 0) = c.spectralStart :=
    reads.octet_at _ (by omega) (by omega)
  have stop : octet bytes (s.offset + 3 + 2 * octet c.data 0 + 1) = c.spectralEnd :=
    reads.octet_at _ (by omega) (by omega)
  have successive : octet bytes (s.offset + 3 + 2 * octet c.data 0 + 2) >>> 4 = c.successiveHigh := by
    rw [reads.octet_at (s.offset + 3 + 2 * octet c.data 0 + 2) (i := 3 + 2 * octet c.data 0) (by omega) (by omega)]
    rfl
  obtain ⟨distinct, set, declared⟩ := scanComponentIds_spec named
  have same : (List.range (octet c.data 0)).map (fun index =>
      octet bytes (s.offset + 3 + index * 2)) = c.scanIds := by
    rw [Segment.scanIds, Segment.selectors, List.map_map]
    apply List.map_congr_left
    intro index below
    have bound := List.mem_range.mp below
    exact reads.octet_at _ (by omega) (by omega)
  rw [same] at distinct set
  have member_iff : ∀ id, id ∈ scanIds ↔ id ∈ c.scanIds := fun id => by rw [set, List.mem_toFinset]
  have selector : ∀ index < octet c.data 0,
      octet bytes (s.offset + 4 + index * 2) = octet c.data (2 + index * 2) :=
    fun index below => reads.octet_at _ (by omega) (by omega)
  rw [start, stop] at defined
  rw [start, successive] at refines
  have each : ∀ selector ∈ c.selectors, (c.spectralStart = 0 → selector.2 >>> 4 ∈ s.dcTables) ∧
      (0 < c.spectralEnd → selector.2 &&& 0x0f ∈ s.acTables) := by
    intro chosen member
    obtain ⟨index, below, rfl⟩ := List.mem_map.mp member
    have checked := List.any_eq_false.mp defined index below
    rw [selector index (List.mem_range.mp below)] at checked
    simp only [Bool.or_eq_true, Bool.and_eq_true, decide_eq_true_eq, not_or, not_and, not_not] at checked
    exact checked
  refine parsed.scans lawful marker ?_ ?_ (fun id member => declared ((member_iff id).mpr member))
    rfl rfl rfl rfl rfl rfl rfl ?_
  · intro image frame is framed ids quantizers header
    rw [ids] at declared
    refine ⟨?_, by omega, distinct, ?_, ?_, ?_, ?_, ?_, data⟩
    · obtain ⟨_, ⟨earlier, later, rfl, -⟩, -⟩ := framed
      simp
    · exact fun id member => List.mem_toFinset.mp (declared ((member_iff id).mpr member))
    · intro component member
      have there := List.any_eq_false.mp tables component (quantizers ▸ member)
      simp only [decide_eq_true_eq, not_not] at there
      exact parsed.quantizers _ there
    · exact fun zero chosen member => parsed.dcTables _ ((each chosen member).1 zero)
    · exact fun scanned chosen member => parsed.acTables _ ((each chosen member).2 scanned)
    · intro progressive later id member
      rw [header, progressive] at refines
      have within : scanIds ⊆ s.initialComponents := by
        by_contra outside
        simp [outside] at refines
        omega
      exact parsed.initial id (within ((member_iff id).mpr member))
  · intro absent
    rw [absent] at known
    cases known
  · intro id member
    simp only [counted, start, successive] at member
    split at member
    · rename_i first
      simp only [Bool.and_eq_true, decide_eq_true_eq] at first
      rcases Finset.mem_union.mp member with old | new
      · exact .inl old
      · exact .inr ⟨⟨marker, first.1, first.2⟩, (member_iff id).mp new⟩
    · exact .inl member

theorem JpegState.takeScan_behind (taken : s.takeScan bytes length segmentEnd = .ok t) :
    ∃ behind, (scanLoop bytes).run (segmentEnd, 0) = .ok behind ∧ t.offset = behind.1 ∧
      t.pendingMarker = some behind.2 := by
  simp only [JpegState.takeScan, reject_bind] at taken
  obtain ⟨-, -, -, taken⟩ := taken
  obtain ⟨_, -, taken⟩ := bind_ok.mp taken
  simp only [reject_bind] at taken
  obtain ⟨-, -, -, taken⟩ := taken
  obtain ⟨behind, scanned, taken⟩ := bind_ok.mp taken
  cases taken
  exact ⟨behind, scanned, rfl, rfl⟩

/-- One round reads one segment, and the data behind it when it is a scan. -/
theorem jpegSegment_spec {fill : Nat} {marker : UInt8} (parsed : Parsed done s)
    (whole : bytes = front done ++ (mark fill marker ++ bytes.drop s.offset)) (pending : s.pendingMarker = none)
    (is : jpegSegment bytes marker.toNat s = .ok t) : ∃ c, Parsed (done ++ [c]) t ∧ Stands bytes (done ++ [c]) t := by
  have within := (jpegSegment_forward is).2
  simp only [jpegSegment, reject_bind] at is
  obtain ⟨-, -, -, bounds, -, taken⟩ := is
  generalize field : u16 bytes s.offset = length at bounds taken
  generalize ends : s.offset + length = segmentEnd at bounds taken
  simp only [Bool.or_eq_false_iff, decide_eq_false_iff_not, not_lt] at bounds
  obtain ⟨⟨two, -⟩, inside⟩ := bounds
  obtain ⟨size, here⟩ := segment_here field two (ends ▸ inside)
  rw [ends] at here
  generalize slice bytes (s.offset + 2) (length - 2) = data at size here
  have short : data.length + 2 < 2 ^ 16 := by
    rw [size, ← field]
    exact u16_lt bytes s.offset
  have read : ∀ entropy, Reads bytes s ⟨fill, marker, data, entropy⟩ length segmentEnd :=
    fun _ => ⟨size, ends, inside, here⟩
  have upTo : bytes = front (done ++ [⟨fill, marker, data, []⟩]) ++ bytes.drop segmentEnd := by
    rw [front_snoc, Segment.encode, size, List.flatMap_nil, List.append_nil]
    simp only [List.append_assoc] at here ⊢
    rw [← here]
    exact whole
  have position : (front (done ++ [⟨fill, marker, data, []⟩])).length = segmentEnd := by
    have lengths := congrArg List.length upTo
    rw [List.length_append, List.length_drop] at lengths
    omega
  have stands : t.offset = segmentEnd → t.pendingMarker = s.pendingMarker →
      Stands bytes (done ++ [⟨fill, marker, data, []⟩]) t := by
    intro standing same
    refine ⟨within, ?_⟩
    rw [same, pending, standing]
    exact upTo
  have lawful : marker.toNat ∈ [0xc0, 0xc1, 0xc2, 0xc4, 0xda, 0xdb, 0xdd, 0xfe] ∨
      (0xe0 ≤ marker.toNat ∧ marker.toNat ≤ 0xef) → (⟨fill, marker, data, []⟩ : Segment).Lawful :=
    fun kind => ⟨kind, short, nofun, fun _ => rfl⟩
  -- a segment with neither a frame header nor a scan
  have other : ∀ {number}, marker.toNat = number →
      (number ∈ [0xc4, 0xdb, 0xdd, 0xfe] ∨ (0xe0 ≤ number ∧ number ≤ 0xef)) →
      (⟨fill, marker, data, []⟩ : Segment).Lawful ∧ isSof marker.toNat = false ∧ marker ≠ 0xda := by
    rintro _ rfl kind
    refine ⟨lawful ?_, ?_, ?_⟩
    · simp only [List.mem_cons, List.not_mem_nil, or_false] at kind ⊢
      omega
    · simp only [List.mem_cons, List.not_mem_nil, or_false] at kind
      simp only [isSof, Bool.or_eq_false_iff, Bool.and_eq_false_iff, decide_eq_false_iff_not]
      omega
    · rintro rfl
      revert kind
      decide
  rw [JpegState.take] at taken
  split at taken
  · have header : marker.toNat ∈ [0xc0, 0xc1, 0xc2] → (⟨fill, marker, data, []⟩ : Segment).Lawful := by
      intro kind
      apply lawful
      simp only [List.mem_cons, List.not_mem_nil, or_false] at kind ⊢
      omega
    obtain ⟨next, ends, same⟩ := JpegState.takeFrame_spec parsed (read []) header position taken
    exact ⟨_, next, stands ends same⟩
  split at taken
  · rename_i number
    obtain ⟨quantizers, tables, taken⟩ := bind_ok.mp taken
    cases taken
    obtain ⟨fine, plain⟩ := other number (.inl (by decide))
    obtain ⟨ids, described, all⟩ := quantizerLoop_spec (Loop.run_ok_iff.mp tables) inside
    rw [(read []).slice_data] at described
    refine ⟨_, parsed.other fine plain (fun id member => (all id member).imp_right fun listed => ?_)
      (fun _ => .inl) (fun _ => .inl) rfl rfl rfl rfl rfl, stands rfl rfl⟩
    exact ⟨UInt8.toNat_inj.mp number, ids, described, listed⟩
  split at taken
  · rename_i number
    obtain ⟨known, tables, taken⟩ := bind_ok.mp taken
    cases taken
    obtain ⟨fine, plain⟩ := other number (.inl (by decide))
    obtain ⟨ids, described, dc, ac⟩ := huffmanLoop_spec (Loop.run_ok_iff.mp tables) inside
    rw [(read []).slice_data] at described
    refine ⟨_, parsed.other fine plain (fun _ => .inl) (fun id member => (dc id member).imp_right fun listed => ?_)
      (fun id member => (ac id member).imp_right fun listed => ?_) rfl rfl rfl rfl rfl, stands rfl rfl⟩
    · exact ⟨UInt8.toNat_inj.mp number, ids, described, listed⟩
    · exact ⟨UInt8.toNat_inj.mp number, ids, described, listed⟩
  split at taken
  · rename_i number
    split at taken
    · cases taken
    cases taken
    obtain ⟨fine, plain⟩ := other number (.inl (by decide))
    exact ⟨_, parsed.other fine plain (fun _ => .inl) (fun _ => .inl) (fun _ => .inl) rfl rfl rfl rfl rfl,
      stands rfl rfl⟩
  split at taken
  · rename_i number
    obtain rfl : marker = 0xda := UInt8.toNat_inj.mp number
    obtain ⟨behind, scanned, ends, last⟩ := JpegState.takeScan_behind taken
    obtain ⟨run, fill', marker', more, same, units, counted⟩ := scanLoop_spec scanned
    refine ⟨⟨fill, 0xda, data, run⟩, JpegState.takeScan_spec parsed (read run)
      ⟨.inl (show (0xda : UInt8).toNat ∈ _ by decide), short, units,
        fun no => absurd rfl no⟩ rfl counted taken, within, ?_⟩
    rw [last]
    refine ⟨fill', marker', ?_, same⟩
    rw [ends]
    calc bytes = front (done ++ [⟨fill, 0xda, data, []⟩]) ++ bytes.drop segmentEnd := upTo
      _ = _ := by
        rw [more, front_snoc, front_snoc]
        simp only [Segment.encode, List.flatMap_nil, List.append_nil, List.append_assoc]
  split at taken
  · cases taken
  split at taken
  · cases taken
  · rename_i application
    cases taken
    have kind : marker.toNat ∈ [0xc4, 0xdb, 0xdd, 0xfe] ∨ (0xe0 ≤ marker.toNat ∧ marker.toNat ≤ 0xef) := by
      simp only [Bool.not_eq_true', Bool.or_eq_false_iff, Bool.and_eq_false_iff,
        decide_eq_false_iff_not] at application
      simp only [List.mem_cons, List.not_mem_nil, or_false]
      omega
    obtain ⟨fine, plain⟩ := other rfl kind
    exact ⟨_, parsed.other fine plain (fun _ => .inl) (fun _ => .inl) (fun _ => .inl) rfl rfl rfl rfl rfl,
      stands rfl rfl⟩

theorem JpegState.finish_spec {image : Image} (parsed : Parsed done s) (is : s.finish bytes = .ok image) :
    s.offset = bytes.length ∧ Jpeg done image.width image.height ∧
      image = { format := .jpeg, width := image.width, height := image.height,
                pixels := image.width * image.height } := by
  have frame := parsed.frame
  simp only [JpegState.finish, FrameOf] at is frame
  cases known : s.dimensions with
  | none =>
    rw [known] at is
    cases is
  | some dimensions =>
    rw [known] at is frame
    simp only at is
    split at is
    · rename_i complete
      cases is
      simp only [Bool.and_eq_true, decide_eq_true_eq] at complete
      obtain ⟨⟨-, all⟩, atEnd⟩ := complete
      obtain ⟨own, framed, fits, whole, ids, -, -, within⟩ := frame
      have same : s.initialComponents = s.componentIds := Finset.eq_of_subset_of_card_le within (by omega)
      refine ⟨atEnd, ⟨fits, parsed.lawful, own, framed, fun id member => parsed.initial id ?_⟩, whole⟩
      rw [same, ids]
      exact List.mem_toFinset.mpr member
    · cases is

/-- Whatever `inspectJpeg` accepts is a JPEG of the size it returns. -/
theorem inspectJpeg_spec {image : Image} (is : inspectJpeg bytes = .ok image) :
    JpegFile bytes image.width image.height ∧
      image = { format := .jpeg, width := image.width, height := image.height,
                pixels := image.width * image.height } := by
  rw [inspectJpeg] at is
  split at is
  · cases is
  rename_i header
  simp only [Bool.or_eq_true, decide_eq_true_eq, not_or, not_lt, not_not] at header
  obtain ⟨⟨long, first⟩, second⟩ := header
  have start : bytes = front [] ++ bytes.drop 2 := by
    match bytes, long, first, second with
    | a :: b :: rest, _, first, second =>
      obtain rfl : a = 0xff := UInt8.toNat_inj.mp first
      obtain rfl : b = 0xd8 := UInt8.toNat_inj.mp second
      rfl
  obtain ⟨last, ⟨done, parsed, stands⟩, returned⟩ := (Loop.run_ok_iff.mp is).invariant
    (P := fun s => ∃ done, Parsed done s ∧ Stands bytes done s)
    ⟨[], ⟨nofun, by simp, by simp, by simp, by simp, rfl, nofun⟩, by simp only; omega, start⟩ (by
    rintro s t ⟨done, parsed, stands⟩ round
    simp only [jpegLoop, jpegRound] at round
    split at round
    · simp only [reject_bind] at round
      obtain ⟨-, round⟩ := round
      obtain ⟨⟨number, u⟩, next, round⟩ := bind_ok.mp round
      obtain ⟨fill, marker, whole, rfl, same⟩ := JpegState.nextMarker_spec stands next
      simp only at round
      split at round
      · obtain ⟨_, -, same⟩ := map_ok.mp round
        cases same
      · obtain ⟨v, segment, same'⟩ := map_ok.mp round
        cases same'
        have pending : u.pendingMarker = none := by rw [same]
        have before : Parsed done u := by
          rw [same]
          exact ⟨parsed.lawful, parsed.quantizers, parsed.dcTables, parsed.acTables, parsed.initial, parsed.frame⟩
        obtain ⟨c, next⟩ := jpegSegment_spec before whole pending segment
        exact ⟨_, next⟩
    · cases round)
  simp only [jpegLoop, jpegRound] at returned
  split at returned
  · simp only [reject_bind] at returned
    obtain ⟨-, returned⟩ := returned
    obtain ⟨⟨number, u⟩, next, returned⟩ := bind_ok.mp returned
    obtain ⟨fill, marker, whole, rfl, same⟩ := JpegState.nextMarker_spec stands next
    simp only at returned
    split at returned
    · rename_i ending
      obtain ⟨_, left, same'⟩ := map_ok.mp returned
      cases same'
      have before : Parsed done u := by
        rw [same]
        exact ⟨parsed.lawful, parsed.quantizers, parsed.dcTables, parsed.acTables, parsed.initial, parsed.frame⟩
      obtain ⟨atEnd, grammar, shape⟩ := JpegState.finish_spec before left
      obtain rfl : marker = 0xd9 := UInt8.toNat_inj.mp ending
      rw [atEnd, List.drop_length, List.append_nil] at whole
      exact ⟨⟨done, fill, grammar, whole⟩, shape⟩
    · obtain ⟨_, -, same'⟩ := map_ok.mp returned
      cases same'
  · cases returned

end

end Conspire.Images
