import Conspire.Images.Inspection

/-! One changed byte in an accepted PNG. A step of the CRC loses nothing, neither of the remainder
nor of the byte, so the checksum of a chunk tells any two contents apart that differ in one byte. -/
namespace Conspire.Images
open Octets Loops

section
variable {a b crc : UInt32} {x y : UInt8} {xs : Bytes} {i : Nat}

theorem low_iff (crc : UInt32) : crc &&& 1 ≠ 0 ↔ crc.toNat % 2 = 1 := by
  rw [ne_eq, ← UInt32.toNat_inj, UInt32.toNat_and]
  show ¬ crc.toNat &&& 1 = 0 ↔ _
  rw [Nat.and_one_is_mod]
  omega

/-- The highest bit of the polynomial keeps the bit that is shifted out. -/
theorem crcBit_top (crc : UInt32) : (crcBit crc).toNat.testBit 31 = decide (crc.toNat % 2 = 1) := by
  have shifted : (crc >>> 1).toNat.testBit 31 = false := by
    apply Nat.testBit_lt_two_pow
    have small := crc.toNat_lt
    rw [UInt32.toNat_shiftRight]
    show crc.toNat >>> 1 < 2 ^ 31
    rw [Nat.shiftRight_eq_div_pow]
    omega
  rw [crcBit, UInt32.toNat_xor, Nat.testBit_xor, shifted, Bool.false_xor]
  split
  · rename_i low
    rw [decide_eq_true ((low_iff crc).mp low)]
    decide
  · rename_i low
    rw [decide_eq_false (mt (low_iff crc).mpr low)]
    exact Nat.zero_testBit 31

theorem crcBit_injective : Function.Injective crcBit := by
  intro a b same
  have tops := congrArg (fun crc => crc.toNat.testBit 31) same
  simp only [crcBit_top, decide_eq_decide] at tops
  have low : (a &&& 1 ≠ 0) = (b &&& 1 ≠ 0) := propext (by rw [low_iff, low_iff, tops])
  have halves : a >>> 1 = b >>> 1 := by
    simp only [crcBit, low] at same
    exact (UInt32.xor_left_inj _).mp same
  have numbers := congrArg UInt32.toNat halves
  simp only [UInt32.toNat_shiftRight] at numbers
  replace numbers : a.toNat >>> 1 = b.toNat >>> 1 := numbers
  rw [Nat.shiftRight_eq_div_pow, Nat.shiftRight_eq_div_pow] at numbers
  exact UInt32.toNat_inj.mp (by omega)

theorem crcByte_injective (x : UInt8) : Function.Injective fun crc => crcByte crc x := by
  intro a b same
  exact (UInt32.xor_left_inj _).mp (crcBit_injective.iterate 8 same)

theorem crcByte_byte (crc : UInt32) : Function.Injective (crcByte crc) := by
  intro x y same
  have wide := (UInt32.xor_right_inj _).mp (crcBit_injective.iterate 8 same)
  have numbers := congrArg UInt32.toNat wide
  simp only [UInt8.toNat_toUInt32] at numbers
  exact UInt8.toNat_inj.mp numbers

theorem crc_injective (xs : Bytes) : Function.Injective fun crc => xs.foldl crcByte crc := by
  induction xs with
  | nil => exact Function.injective_id
  | cons x xs ih => exact ih.comp (crcByte_injective x)

/-- A checksum notices one byte. -/
theorem checksum_set (inside : i < xs.length) (other : xs[i]? ≠ some y) : checksum (xs.set i y) ≠ checksum xs := by
  intro same
  have split : xs = xs.take i ++ xs[i] :: xs.drop (i + 1) := by
    rw [List.getElem_cons_drop, List.take_append_drop]
  have folded := (UInt32.xor_left_inj _).mp same
  rw [List.set_eq_take_append_cons_drop, if_pos inside] at folded
  conv at folded => rhs; rw [split]
  simp only [List.foldl_append, List.foldl_cons] at folded
  have byte := crcByte_byte _ (crc_injective _ folded)
  exact other (by rw [List.getElem?_eq_getElem inside, byte])

end

/-- The chunks from a position on, as their lengths say. -/
inductive ChunkAt (bytes : Bytes) : Nat → Nat → Prop where
  | here : ChunkAt bytes start start
  | later : offset + 12 + u32 bytes offset < bytes.length → ChunkAt bytes (offset + 12 + u32 bytes offset) start →
      ChunkAt bytes offset start

/-- The chunk lies within the file, and its CRC is the checksum of its type and data. -/
structure Checked (bytes : Bytes) (start : Nat) : Prop where
  inside : start + 12 + u32 bytes start ≤ bytes.length
  crc : (checksum (slice bytes (start + 4) (4 + u32 bytes start))).toNat = u32 bytes (start + 8 + u32 bytes start)

section
variable {bytes : Bytes} {s t : PngState} {image : Image} {start p : Nat} {value : UInt8}

theorem pngChunk_checked (is : pngChunk bytes s = .ok turn) :
    Checked bytes s.offset := by
  simp only [pngChunk, reject_bind] at is
  obtain ⟨tiled, -, -, crc, -⟩ := is
  simp only [Bool.or_eq_false_iff, decide_eq_false_iff_not, not_not, Nat.not_lt] at tiled crc
  refine ⟨by omega, ?_⟩
  have whole := @crc32_eq bytes (s.offset + 4) (4 + u32 bytes s.offset) (by omega)
  rw [← crc, ← whole, show s.offset + 8 + u32 bytes s.offset = s.offset + 4 + (4 + u32 bytes s.offset) by omega]

/-- A round that goes on goes on behind its chunk, and the last one has no chunk behind it. -/
theorem pngChunk_next (is : pngChunk bytes s = .ok (.next t)) : t.offset = s.offset + 12 + u32 bytes s.offset := by
  simp only [pngChunk, reject_bind] at is
  obtain ⟨-, -, -, -, -, is⟩ := is
  obtain ⟨_, -, is⟩ := bind_ok.mp is
  obtain ⟨turn, -, is⟩ := bind_ok.mp is
  cases turn with
  | done => cases is
  | next u =>
    cases is
    simp only
    omega

theorem pngChunk_done (inside : s.offset + 12 ≤ bytes.length) (is : pngChunk bytes s = .ok (.done image)) :
    bytes.length = s.offset + 12 + u32 bytes s.offset := by
  obtain ⟨c, rest, u, here, plain, takes, turn⟩ := pngChunk_sound inside is
  obtain ⟨length, -, -, -, size, -⟩ := encode_parts here plain.lawful (by omega)
  have ended : rest = [] := by
    by_cases first : s.chunks = 0
    · obtain ⟨h, -, -, rfl⟩ := (takes_header first).mp takes
      cases turn
    · cases u with
      | next => cases turn
      | done image => exact List.isEmpty_iff.mp ((takes_done first).mp takes).2.2.2.1
  rw [ended, List.length_nil] at size
  omega

/-- The loop checks every chunk. -/
theorem rounds_checked (rounds : (pngLoop bytes).Rounds s image) (chunk : ChunkAt bytes s.offset start) :
    Checked bytes start := by
  induction rounds with
  | done is =>
    obtain ⟨inside, is⟩ := round_eq.mp is
    cases chunk with
    | here => exact pngChunk_checked is
    | later before _ =>
      have ended := pngChunk_done inside is
      omega
  | next is _ ih =>
    obtain ⟨inside, is⟩ := round_eq.mp is
    cases chunk with
    | here => exact pngChunk_checked is
    | later _ rest => exact ih (pngChunk_next is ▸ rest)

theorem accepted_checked (accepted : inspectPng bytes = .ok image) (chunk : ChunkAt bytes 8 start) :
    Checked bytes start := by
  rw [inspectPng] at accepted
  split at accepted
  · cases accepted
  · exact rounds_checked (Loop.run_ok_iff.mp accepted) chunk

theorem octet_set (apart : p ≠ i) : octet (bytes.set p value) i = octet bytes i := by
  simp only [octet, List.getD_eq_getElem?_getD, List.getElem?_set_ne apart]

/-- A number that does not hold the changed byte is read as before. -/
theorem u32_set (apart : ∀ n < 4, p ≠ i + n) : u32 (bytes.set p value) i = u32 bytes i :=
  u32_congr fun n before => octet_set (apart n before)

theorem slice_set (behind : start ≤ p) :
    slice (bytes.set p value) start count = (slice bytes start count).set (p - start) value := by
  rw [slice, slice, List.drop_set, if_neg (by omega), List.take_set]

/-- A number that holds it is another one. -/
theorem u32_set_ne (inside : i + 4 ≤ bytes.length) (first : i ≤ p) (last : p < i + 4)
    (other : bytes[p]? ≠ some value) : u32 (bytes.set p value) i ≠ u32 bytes i := by
  intro same
  have slices : (slice bytes i 4).set (p - i) value = slice bytes i 4 := by
    rw [← slice_set first, ← bigEndian_u32 inside, ← same, bigEndian_u32 (by rwa [List.length_set])]
  have within : p - i < (slice bytes i 4).length := by
    rw [length_slice inside]
    omega
  have there : (slice bytes i 4)[p - i]? = bytes[p]? := by
    rw [slice, List.getElem?_take_of_lt (by omega), List.getElem?_drop, Nat.add_sub_cancel' first]
  rw [← there, ← slices, List.getElem?_set_self within] at other
  exact other rfl

theorem chunkAt_le (chunk : ChunkAt bytes first start) : first ≤ start := by
  induction chunk with
  | here => exact Nat.le.refl
  | later _ _ ih => omega

/-- The lengths in front of the change lead to the same chunk. -/
theorem chunkAt_set (chunk : ChunkAt bytes first start) (behind : start + 4 ≤ p) :
    ChunkAt (bytes.set p value) first start := by
  induction chunk with
  | here => exact .here
  | @later offset start before rest ih =>
    have past := chunkAt_le rest
    have same : u32 (bytes.set p value) offset = u32 bytes offset := u32_set fun n few => by omega
    rw [← same] at before ih
    exact .later (by rwa [List.length_set]) (ih behind)

/-- No byte of a type, of the data or of a CRC can be changed alone. -/
theorem corruption_caught (accepted : inspectPng bytes = .ok image) (chunk : ChunkAt bytes 8 start)
    (behind : start + 4 ≤ p) (within : p < start + 12 + u32 bytes start) (other : bytes[p]? ≠ some value) :
    ∀ image', inspectPng (bytes.set p value) ≠ .ok image' := by
  intro image' accepted'
  obtain ⟨inside, crc⟩ := accepted_checked accepted chunk
  obtain ⟨-, crc'⟩ := accepted_checked accepted' (chunkAt_set chunk behind)
  rw [u32_set fun n _ => by omega, slice_set behind] at crc'
  have length := @length_slice _ bytes (start + 4) (4 + u32 bytes start) (by omega)
  by_cases data : p < start + 8 + u32 bytes start
  · rw [u32_set fun n _ => by omega, ← crc] at crc'
    refine checksum_set (by omega) ?_ (UInt32.toNat_inj.mp crc')
    rw [slice, List.getElem?_take_of_lt (by omega), List.getElem?_drop]
    rwa [show start + 4 + (p - (start + 4)) = p by omega]
  · rw [List.set_eq_of_length_le (by omega), crc] at crc'
    exact u32_set_ne (by omega) (by omega) (by omega) other crc'.symm

/-- The first byte of a header's CRC. -/
theorem corruption_caught_dot : inspectPng (dot.set 29 0) ≠ inspectPng dot := by
  have accepted : inspectPng dot = .ok { format := .png, width := 1, height := 1, pixels := 1 } := by decide +kernel
  rw [accepted]
  exact corruption_caught accepted .here (by decide) (by decide) (by decide) _

end
end Conspire.Images
