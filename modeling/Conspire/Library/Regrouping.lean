import Mathlib.Data.List.Basic
import Mathlib.Data.Nat.Bitwise
import Mathlib.Tactic.Ring

/-! Numbers of one width written as numbers of another: the bits of the numbers, the most
significant first, and the numbers of a width that a row of bits holds. -/
namespace Regrouping

def bits : Nat → Nat → List Bool
  | 0, _ => []
  | width + 1, n => n.testBit width :: bits width n

def ofBits (row : List Bool) : Nat := row.foldl (fun n bit => 2 * n + bit.toNat) 0

/-- The whole numbers of a width in a row; what is left over is less than one. -/
def words (width : Nat) (row : List Bool) : List Nat :=
  (List.range (row.length / width)).map fun i => ofBits ((row.drop (i * width)).take width)

def leftover (width : Nat) (row : List Bool) : List Bool := row.drop (row.length / width * width)

variable {width n : Nat} {ns : List Nat} {row rest : List Bool}

@[simp] theorem length_bits (width n : Nat) : (bits width n).length = width := by
  induction width with
  | zero => rfl
  | succ width ih => rw [bits, List.length_cons, ih]

@[simp] theorem length_flatMap_bits (width : Nat) (ns : List Nat) :
    (ns.flatMap (bits width)).length = ns.length * width := by
  induction ns with
  | nil => simp
  | cons n ns ih => rw [List.flatMap_cons, List.length_append, length_bits, ih, List.length_cons, Nat.succ_mul,
      Nat.add_comm]

@[simp] theorem length_words (width : Nat) (row : List Bool) : (words width row).length = row.length / width := by
  rw [words, List.length_map, List.length_range]

theorem foldl_bits (n : Nat) (row : List Bool) :
    row.foldl (fun n bit => 2 * n + bit.toNat) n = n * 2 ^ row.length + ofBits row := by
  induction row generalizing n with
  | nil => simp [ofBits]
  | cons bit row ih =>
    simp only [ofBits, List.foldl_cons, List.length_cons]
    rw [ih, ih (2 * 0 + bit.toNat), Nat.pow_succ]
    ring

theorem ofBits_cons (bit : Bool) (row : List Bool) :
    ofBits (bit :: row) = bit.toNat * 2 ^ row.length + ofBits row := by
  have whole := foldl_bits (2 * 0 + bit.toNat) row
  simpa [ofBits] using whole

/-- A number is read as it was written, up to its width. -/
theorem ofBits_bits (width n : Nat) : ofBits (bits width n) = n % 2 ^ width := by
  induction width with
  | zero => simp [bits, ofBits, Nat.mod_one]
  | succ width ih =>
    rw [bits, ofBits_cons, ih, length_bits, Nat.testBit_eq_decide_div_mod_eq, Nat.pow_succ, Nat.mod_mul]
    rcases Nat.mod_two_eq_zero_or_one (n / 2 ^ width) with zero | one
    · simp [zero]
    · simp [one, Nat.add_comm]

theorem ofBits_lt (row : List Bool) : ofBits row < 2 ^ row.length := by
  induction row with
  | nil => exact Nat.one_pos
  | cons bit row ih =>
    rw [ofBits_cons, List.length_cons, Nat.pow_succ]
    cases bit with
    | false => simp only [Bool.toNat_false, Nat.zero_mul]; omega
    | true => simp only [Bool.toNat_true, Nat.one_mul]; omega

/-- Bits are written as they were read. -/
theorem bits_ofBits (row : List Bool) : bits row.length (ofBits row) = row := by
  suffices all : ∀ high, bits row.length (high * 2 ^ row.length + ofBits row) = row by
    simpa using all 0
  induction row with
  | nil => exact fun _ => rfl
  | cons bit row ih =>
    intro high
    have bound := ofBits_lt row
    have same : high * 2 ^ (row.length + 1) + (bit.toNat * 2 ^ row.length + ofBits row) =
        (high * 2 + bit.toNat) * 2 ^ row.length + ofBits row := by
      ring
    have quotient : ((high * 2 + bit.toNat) * 2 ^ row.length + ofBits row) / 2 ^ row.length =
        high * 2 + bit.toNat := by
      rw [Nat.mul_comm, Nat.mul_add_div (Nat.pow_pos (by decide)), Nat.div_eq_of_lt bound, Nat.add_zero]
    rw [List.length_cons, ofBits_cons, bits, same, ih, Nat.testBit_eq_decide_div_mod_eq, quotient]
    cases bit with
    | false => simp
    | true => simp

theorem words_short (short : row.length < width) : words width row = [] := by
  rw [words, Nat.div_eq_of_lt short]
  rfl

theorem leftover_short (short : row.length < width) : leftover width row = row := by
  rw [leftover, Nat.div_eq_of_lt short, Nat.zero_mul, List.drop_zero]

theorem words_append (front : row.length = width) (positive : 0 < width) :
    words width (row ++ rest) = ofBits row :: words width rest := by
  have count : (row ++ rest).length / width = rest.length / width + 1 := by
    rw [List.length_append, front, Nat.add_comm, Nat.add_div_right _ positive]
  have first : (row ++ rest).take width = row := front ▸ List.take_left
  have later (i : Nat) : (row ++ rest).drop ((i + 1) * width) = rest.drop (i * width) := by
    rw [Nat.succ_mul, Nat.add_comm, ← List.drop_drop, List.drop_left' front]
  rw [words, count, List.range_succ_eq_map, List.map_cons, Nat.zero_mul, List.drop_zero, first, List.map_map]
  congr 1
  exact List.map_congr_left fun i _ => by rw [Function.comp_apply, Nat.succ_eq_add_one, later]

theorem leftover_append (front : row.length = width) (positive : 0 < width) :
    leftover width (row ++ rest) = leftover width rest := by
  have count : (row ++ rest).length / width = rest.length / width + 1 := by
    rw [List.length_append, front, Nat.add_comm, Nat.add_div_right _ positive]
  rw [leftover, count, Nat.succ_mul, Nat.add_comm, ← List.drop_drop, List.drop_left' front, leftover]

/-- The numbers that were written are read back. -/
theorem words_flatMap (small : ∀ n ∈ ns, n < 2 ^ width) (positive : 0 < width) (row : List Bool) :
    words width (ns.flatMap (bits width) ++ row) = ns ++ words width row := by
  induction ns with
  | nil => rfl
  | cons n ns ih =>
    have first : ofBits (bits width n) = n := by
      rw [ofBits_bits, Nat.mod_eq_of_lt (small n List.mem_cons_self)]
    rw [List.flatMap_cons, List.append_assoc, words_append (length_bits ..) positive, first,
      ih fun n member => small n (List.mem_cons_of_mem _ member), List.cons_append]

theorem words_flatMap_self (small : ∀ n ∈ ns, n < 2 ^ width) (positive : 0 < width) :
    words width (ns.flatMap (bits width)) = ns := by
  have whole := words_flatMap small positive []
  have nothing : words width [] = [] := words_short positive
  rwa [nothing, List.append_nil, List.append_nil] at whole

/-- The first numbers are the front of the row. -/
theorem take_flatMap (width count : Nat) (ns : List Nat) :
    (ns.flatMap (bits width)).take (count * width) = (ns.take count).flatMap (bits width) := by
  induction ns generalizing count with
  | nil => simp
  | cons n ns ih =>
    cases count with
    | zero => simp
    | succ count =>
      have more : width ≤ (count + 1) * width := Nat.le_mul_of_pos_left width (Nat.succ_pos count)
      rw [List.take_succ_cons, List.flatMap_cons, List.flatMap_cons, ← ih, List.take_append, length_bits,
        List.take_of_length_le (by rw [length_bits]; exact more), Nat.succ_mul, Nat.add_sub_cancel]

theorem leftover_flatMap (ns : List Nat) (positive : 0 < width) (row : List Bool) :
    leftover width (ns.flatMap (bits width) ++ row) = leftover width row := by
  induction ns with
  | nil => rfl
  | cons n ns ih =>
    rw [List.flatMap_cons, List.append_assoc, leftover_append (length_bits ..) positive, ih]

/-- A row is its numbers and what is left over. -/
theorem flatMap_words (positive : 0 < width) (row : List Bool) :
    (words width row).flatMap (bits width) ++ leftover width row = row := by
  induction h : row.length using Nat.strongRecOn generalizing row with
  | _ length ih =>
    by_cases short : row.length < width
    · rw [words_short short, leftover_short short]
      rfl
    · have front : (row.take width).length = width := by
        rw [List.length_take]
        omega
      have fewer : (row.drop width).length < length := by
        rw [List.length_drop]
        omega
      have here : bits width (ofBits (row.take width)) = row.take width := by
        have same := bits_ofBits (row.take width)
        rwa [front] at same
      have split := List.take_append_drop width row
      calc (words width row).flatMap (bits width) ++ leftover width row
          = (words width (row.take width ++ row.drop width)).flatMap (bits width) ++
              leftover width (row.take width ++ row.drop width) := by rw [split]
        _ = row.take width ++ ((words width (row.drop width)).flatMap (bits width) ++
              leftover width (row.drop width)) := by
          rw [words_append front positive, leftover_append front positive, List.flatMap_cons, here,
            List.append_assoc]
        _ = row := by rw [ih _ fewer _ rfl, split]

theorem words_lt (width : Nat) (row : List Bool) : ∀ n ∈ words width row, n < 2 ^ width := by
  intro n member
  obtain ⟨i, below, rfl⟩ := List.mem_map.mp member
  have bound := ofBits_lt ((row.drop (i * width)).take width)
  refine Nat.lt_of_lt_of_le bound (Nat.pow_le_pow_right (by decide) ?_)
  rw [List.length_take]
  exact Nat.min_le_left ..

end Regrouping
