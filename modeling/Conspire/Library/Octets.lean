import Mathlib.Data.List.Basic
import Mathlib.Tactic.Ring

/-! Byte strings that are read by position: slices, what lies at a position when a part
of known length is there, and numbers of fixed width in both byte orders. -/
namespace Octets

section
variable {α : Type*} {xs part rest : List α} {start count i : Nat}

/-- The `count` elements from `start` on. -/
def slice (xs : List α) (start count : Nat) : List α := (xs.drop start).take count

theorem length_slice (fits : start + count ≤ xs.length) : (slice xs start count).length = count := by
  simp only [slice, List.length_take, List.length_drop]
  omega

theorem drop_slice (xs : List α) (start count : Nat) :
    xs.drop start = slice xs start count ++ xs.drop (start + count) := by
  rw [slice, ← List.drop_drop, List.take_append_drop]

theorem slice_add (xs : List α) (start count i : Nat) :
    slice xs start (count + i) = slice xs start count ++ slice xs (start + count) i := by
  simp only [slice, ← List.drop_drop]
  rw [List.take_add]

/-- A part that lies at a position is the slice there. -/
theorem slice_of_drop (here : xs.drop start = part ++ rest) : slice xs start part.length = part := by
  rw [slice, here, List.take_left]

theorem slice_of_prefix (here : xs.drop start = part ++ rest) (within : part.length ≤ count) :
    slice xs start count = part ++ rest.take (count - part.length) := by
  rw [slice, here, List.take_append, List.take_of_length_le within]

theorem drop_of_drop (here : xs.drop start = part ++ rest) : xs.drop (start + part.length) = rest := by
  rw [← List.drop_drop, here, List.drop_left]

/-- What lies at a position ends within the whole. -/
theorem le_of_drop (here : xs.drop start = part ++ rest) (inside : start ≤ xs.length) :
    start + part.length + rest.length = xs.length := by
  have lengths := congrArg List.length here
  simp only [List.length_drop, List.length_append] at lengths
  omega

end

/-- `bytes[at]` as a number, and 0 beyond the end. -/
def octet (bytes : List UInt8) (i : Nat) : Nat := (bytes.getD i 0).toNat

section
variable {bytes part rest : List UInt8} {start count width i n : Nat}

theorem octet_lt (bytes : List UInt8) (i : Nat) : octet bytes i < 256 := UInt8.toNat_lt _

@[simp] theorem octet_zero (byte : UInt8) (rest : List UInt8) : octet (byte :: rest) 0 = byte.toNat := rfl

@[simp] theorem octet_succ (byte : UInt8) (rest : List UInt8) (i : Nat) :
    octet (byte :: rest) (i + 1) = octet rest i := rfl

theorem octet_drop (bytes : List UInt8) (start i : Nat) :
    octet (bytes.drop start) i = octet bytes (start + i) := by
  simp [octet, List.getD_eq_getElem?_getD]

theorem octet_append (before : i < part.length) : octet (part ++ rest) i = octet part i := by
  simp [octet, List.getD_eq_getElem?_getD, List.getElem?_append_left before]

theorem octet_of_drop (here : bytes.drop start = part ++ rest) (before : i < part.length) :
    octet bytes (start + i) = octet part i := by
  rw [← octet_drop, here, octet_append before]

theorem octet_slice (before : i < count) : octet (slice bytes start count) i = octet bytes (start + i) := by
  rw [← octet_drop]
  simp [octet, slice, List.getD_eq_getElem?_getD, before]

theorem octet_eq_zero {start : Nat} (inside : start < bytes.length) :
    octet bytes start = 0 ↔ bytes.drop start = 0 :: bytes.drop (start + 1) := by
  rw [List.drop_eq_getElem_cons inside]
  have reads : octet bytes start = bytes[start].toNat := by
    simp [octet, List.getD_eq_getElem?_getD, List.getElem?_eq_getElem inside]
  rw [reads]
  constructor
  · intro zero
    rw [show bytes[start] = 0 from UInt8.toNat_inj.mp zero]
  · intro same
    rw [(List.cons.inj same).1]
    rfl

/-- The most significant byte first. -/
def bigEndian : Nat → Nat → List UInt8
  | 0, _ => []
  | width + 1, n => UInt8.ofNat (n / 256 ^ width) :: bigEndian width n

/-- The least significant byte first. -/
def littleEndian : Nat → Nat → List UInt8
  | 0, _ => []
  | width + 1, n => UInt8.ofNat n :: littleEndian width (n / 256)

def ofBigEndian (bytes : List UInt8) : Nat := bytes.foldl (fun n byte => n * 256 + byte.toNat) 0

def ofLittleEndian (bytes : List UInt8) : Nat := bytes.foldr (fun byte n => byte.toNat + n * 256) 0

@[simp] theorem length_bigEndian (width n : Nat) : (bigEndian width n).length = width := by
  induction width with
  | zero => rfl
  | succ width ih => simp [bigEndian, ih]

@[simp] theorem length_littleEndian (width n : Nat) : (littleEndian width n).length = width := by
  induction width generalizing n with
  | zero => rfl
  | succ width ih => simp [littleEndian, ih]

theorem foldl_bigEndian (bytes : List UInt8) (n : Nat) :
    bytes.foldl (fun n byte => n * 256 + byte.toNat) n = n * 256 ^ bytes.length + ofBigEndian bytes := by
  induction bytes generalizing n with
  | nil => simp [ofBigEndian]
  | cons byte rest ih =>
    simp only [ofBigEndian, List.foldl_cons, List.length_cons]
    rw [ih, ih (0 * 256 + byte.toNat)]
    ring

theorem ofBigEndian_cons (byte : UInt8) (rest : List UInt8) :
    ofBigEndian (byte :: rest) = byte.toNat * 256 ^ rest.length + ofBigEndian rest := by
  have whole := foldl_bigEndian rest (0 * 256 + byte.toNat)
  simpa [ofBigEndian] using whole

theorem ofBigEndian_lt (bytes : List UInt8) : ofBigEndian bytes < 256 ^ bytes.length := by
  induction bytes with
  | nil => exact Nat.one_pos
  | cons byte rest ih =>
    have first : byte.toNat < 256 := UInt8.toNat_lt _
    have step : (byte.toNat + 1) * 256 ^ rest.length ≤ 256 * 256 ^ rest.length :=
      Nat.mul_le_mul_right _ first
    rw [ofBigEndian_cons, List.length_cons, Nat.pow_succ]
    rw [Nat.add_mul] at step
    omega

theorem ofLittleEndian_lt (bytes : List UInt8) : ofLittleEndian bytes < 256 ^ bytes.length := by
  induction bytes with
  | nil => exact Nat.one_pos
  | cons byte rest ih =>
    have first : byte.toNat < 256 := UInt8.toNat_lt _
    simp only [ofLittleEndian, List.foldr_cons, List.length_cons, Nat.pow_succ] at ih ⊢
    omega

/-- A number that fits is read as it was written. -/
theorem ofBigEndian_bigEndian (fits : n < 256 ^ width) : ofBigEndian (bigEndian width n) = n := by
  suffices all : ∀ n, ofBigEndian (bigEndian width n) = n % 256 ^ width by
    rw [all, Nat.mod_eq_of_lt fits]
  intro n
  clear fits
  induction width with
  | zero => simp [bigEndian, ofBigEndian, Nat.mod_one]
  | succ width ih =>
    have parts : n % (256 ^ width * 256) = n % 256 ^ width + 256 ^ width * (n / 256 ^ width % 256) :=
      Nat.mod_mul
    have wider : 256 ^ (width + 1) = 256 ^ width * 256 := Nat.pow_succ _ _
    rw [bigEndian, ofBigEndian_cons, ih, length_bigEndian, UInt8.toNat_ofNat', wider, parts,
      Nat.mul_comm, Nat.add_comm]

/-- Bytes are written as they were read. -/
theorem bigEndian_ofBigEndian (bytes : List UInt8) :
    bigEndian bytes.length (ofBigEndian bytes) = bytes := by
  suffices all : ∀ high, bigEndian bytes.length (high * 256 ^ bytes.length + ofBigEndian bytes) = bytes by
    simpa using all 0
  induction bytes with
  | nil => exact fun _ => rfl
  | cons byte rest ih =>
    intro high
    have bound := ofBigEndian_lt rest
    have first : byte.toNat < 256 := UInt8.toNat_lt _
    have same : high * 256 ^ (rest.length + 1) + (byte.toNat * 256 ^ rest.length + ofBigEndian rest) =
        (high * 256 + byte.toNat) * 256 ^ rest.length + ofBigEndian rest := by
      ring
    rw [List.length_cons, ofBigEndian_cons, bigEndian, same, ih]
    congr 1
    apply UInt8.toNat_inj.mp
    have quotient : ((high * 256 + byte.toNat) * 256 ^ rest.length + ofBigEndian rest) /
        256 ^ rest.length = high * 256 + byte.toNat := by
      rw [Nat.mul_comm, Nat.mul_add_div (Nat.pow_pos (by decide)), Nat.div_eq_of_lt bound, Nat.add_zero]
    rw [UInt8.toNat_ofNat', quotient]
    omega

theorem littleEndian_ofLittleEndian (bytes : List UInt8) :
    littleEndian bytes.length (ofLittleEndian bytes) = bytes := by
  induction bytes with
  | nil => rfl
  | cons byte rest ih =>
    have first : byte.toNat < 256 := UInt8.toNat_lt _
    have split : ofLittleEndian (byte :: rest) = byte.toNat + ofLittleEndian rest * 256 := rfl
    have quotient : (byte.toNat + ofLittleEndian rest * 256) / 256 = ofLittleEndian rest := by omega
    rw [List.length_cons, littleEndian, split, quotient, ih]
    congr 1
    apply UInt8.toNat_inj.mp
    rw [UInt8.toNat_ofNat']
    omega

end

end Octets
