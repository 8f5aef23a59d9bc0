import Conspire.Library.Loop
import Conspire.Library.Utf8
import Conspire.Server.Peer

/-! What a peer keeps of the reason in a close frame (`boundedCloseDetail`): whole UTF-8 sequences
as they came and a question mark for every other byte, within a budget. -/
namespace Conspire
open Loops

namespace CloseDetail

def maxBytes : Nat := 120

def question : UInt8 := '?'.toUInt8

/-- `length`: how many bytes the lead announces, and 0 for a byte that is no lead. -/
def sequenceLength (lead : UInt8) : Nat :=
  if lead < 0x80 then 1
  else if 0xc2 ≤ lead && lead ≤ 0xdf then 2
  else if 0xe0 ≤ lead && lead ≤ 0xef then 3
  else if 0xf0 ≤ lead && lead ≤ 0xf4 then 4
  else 0

def isContinuation (byte : UInt8) : Bool := byte &&& 0xc0 = 0x80

/-- `valid`: the sequence is complete. `rest` is what lies from `index` on. -/
def validSequence (rest : Bytes) (length : Nat) : Bool :=
  length ≠ 0 && length ≤ rest.length && ((rest.take length).drop 1).all isContinuation

/-- One iteration, from what is left of the value and what is safe so far. -/
def round : Bytes × Bytes → Except Empty (Turn (Bytes × Bytes) Bytes)
  | ([], safe) => .ok (.done safe)
  | (lead :: tail, safe) =>
    if safe.length < maxBytes then
      let length := sequenceLength lead
      if !validSequence (lead :: tail) length || safe.length + length > maxBytes then
        .ok (.next (tail, safe ++ [question]))
      else .ok (.next ((lead :: tail).drop length, safe ++ (lead :: tail).take length))
    else .ok (.done safe)

theorem round_falls (is : round s = .ok (.next t)) : t.1.length < s.1.length := by
  obtain ⟨rest, safe⟩ := s
  cases rest with
  | nil => cases is
  | cons lead tail =>
    rw [round] at is
    split at is
    · dsimp only at is
      split at is
      · cases is
        exact Nat.lt_succ_self _
      · rename_i valid
        cases is
        simp only [validSequence, Bool.or_eq_true, Bool.not_eq_eq_eq_not, Bool.not_true, not_or, Bool.not_eq_false,
          Bool.and_eq_true, decide_eq_true_eq] at valid
        have positive := valid.1.1.1
        rw [List.length_drop, List.length_cons]
        omega
    · cases is

def detailLoop : Loop (Bytes × Bytes) Bytes Empty where
  round := round
  measure s := s.1.length
  falls := round_falls

end CloseDetail

open CloseDetail in
def boundedCloseDetail (detail : Option Bytes) : Bytes :=
  match detail with
  | none => []
  | some value =>
    match detailLoop.run (value, []) with
    | .ok safe => safe

namespace CloseDetail
open Utf8

/-- What the loop makes of a text within a number of bytes: characters by their shape, and a
question mark for what is none or would not fit. -/
inductive Cut : Nat → Bytes → List Bytes → Prop where
  | ended : Cut room [] []
  | full : Cut 0 rest []
  | copied : Shaped part → part.length ≤ room → Cut (room - part.length) rest pieces →
      Cut room (part ++ rest) (part :: pieces)
  | replaced : 0 < room → (∀ part tail, Shaped part → byte :: rest = part ++ tail → room < part.length) →
      Cut (room - 1) rest pieces → Cut room (byte :: rest) ([question] :: pieces)

variable {value rest part : Bytes} {pieces parts : List Bytes} {room : Nat}

theorem and_tail : ∀ n < 256, n &&& 0xc0 = 0x80 ↔ 0x80 ≤ n ∧ n < 0xC0 := by decide +kernel

theorem isContinuation_iff (byte : UInt8) : isContinuation byte = true ↔ Tail byte := by
  have bits := and_tail byte.toNat byte.toNat_lt
  rw [isContinuation, decide_eq_true_eq, ← UInt8.toNat_inj, UInt8.toNat_and]
  exact bits

theorem sequenceLength_cases (lead : UInt8) :
    sequenceLength lead = 1 ∧ lead.toNat < 0x80 ∨
    sequenceLength lead = 2 ∧ 0xC2 ≤ lead.toNat ∧ lead.toNat < 0xE0 ∨
    sequenceLength lead = 3 ∧ 0xE0 ≤ lead.toNat ∧ lead.toNat < 0xF0 ∨
    sequenceLength lead = 4 ∧ 0xF0 ≤ lead.toNat ∧ lead.toNat < 0xF5 ∨
    sequenceLength lead = 0 ∧ 0x80 ≤ lead.toNat ∧ (lead.toNat < 0xC2 ∨ 0xF5 ≤ lead.toNat) := by
  simp only [sequenceLength, UInt8.lt_iff_toNat_lt, UInt8.le_iff_toNat_le, Bool.and_eq_true, decide_eq_true_eq]
  have ascii : UInt8.toNat 0x80 = 0x80 := rfl
  have two : UInt8.toNat 0xc2 = 0xC2 ∧ UInt8.toNat 0xdf = 0xDF := ⟨rfl, rfl⟩
  have three : UInt8.toNat 0xe0 = 0xE0 ∧ UInt8.toNat 0xef = 0xEF := ⟨rfl, rfl⟩
  have four : UInt8.toNat 0xf0 = 0xF0 ∧ UInt8.toNat 0xf4 = 0xF4 := ⟨rfl, rfl⟩
  simp only [ascii, two, three, four]
  split
  · omega
  split
  · omega
  split
  · omega
  split
  · omega
  · omega

/-- A valid sequence has the shape of its lead. -/
theorem valid_shaped (valid : validSequence (lead :: tail) (sequenceLength lead) = true) :
    Shaped ((lead :: tail).take (sequenceLength lead)) := by
  simp only [validSequence, ne_eq, decide_not, Bool.and_eq_true, Bool.not_eq_eq_eq_not, Bool.not_true,
    decide_eq_false_iff_not, decide_eq_true_eq, List.all_eq_true, isContinuation_iff] at valid
  obtain ⟨⟨nonempty, fits⟩, tails⟩ := valid
  rcases sequenceLength_cases lead with ⟨is, ascii⟩ | ⟨is, low, high⟩ | ⟨is, low, high⟩ | ⟨is, low, high⟩ | is
  · rw [is]
    exact .one ascii
  · rw [is] at fits tails ⊢
    obtain ⟨b, tail, rfl⟩ := List.exists_cons_of_length_pos (Nat.le_of_succ_le_succ fits)
    exact .two low high (tails b (by simp))
  · rw [is] at fits tails ⊢
    match tail, fits, tails with
    | b :: c :: _, _, tails => exact .three low high (tails b (by simp)) (tails c (by simp))
  · rw [is] at fits tails ⊢
    match tail, fits, tails with
    | b :: c :: d :: _, _, tails =>
      exact .four low high (tails b (by simp)) (tails c (by simp)) (tails d (by simp))
  · exact absurd is.1 nonempty

/-- And a part of a shape is a valid sequence. -/
theorem shaped_valid (shaped : Shaped part) (is : lead :: tail = part ++ rest) :
    sequenceLength lead = part.length ∧ validSequence (lead :: tail) part.length = true := by
  have same : sequenceLength lead = part.length := by
    have announced := sequenceLength_cases lead
    cases shaped with
    | one ascii =>
      obtain ⟨rfl, _⟩ := List.cons_eq_cons.mp is
      simp only [List.length_cons, List.length_nil]
      omega
    | two low high =>
      obtain ⟨rfl, _⟩ := List.cons_eq_cons.mp is
      simp only [List.length_cons, List.length_nil]
      omega
    | three low high =>
      obtain ⟨rfl, _⟩ := List.cons_eq_cons.mp is
      simp only [List.length_cons, List.length_nil]
      omega
    | four low high =>
      obtain ⟨rfl, _⟩ := List.cons_eq_cons.mp is
      simp only [List.length_cons, List.length_nil]
      omega
  obtain ⟨first, tails, rfl, -, all⟩ := shaped.tails
  refine ⟨same, ?_⟩
  rw [is, validSequence, List.take_left]
  simpa [isContinuation_iff] using all

theorem round_done (is : round (rest, safe) = .ok (.done out)) :
    out = safe ∧ (rest = [] ∨ maxBytes ≤ safe.length) := by
  cases rest with
  | nil =>
    cases is
    exact ⟨rfl, .inl rfl⟩
  | cons lead tail =>
    rw [round] at is
    split at is
    · dsimp only at is
      split at is <;> cases is
    · rename_i full
      cases is
      exact ⟨rfl, .inr (Nat.le_of_not_lt full)⟩

/-- An iteration copies a part that fits, or replaces a byte at which there is none. -/
theorem round_next (is : round (rest, safe) = .ok (.next t)) :
    safe.length < maxBytes ∧
      ((∃ part tail, Shaped part ∧ rest = part ++ tail ∧ safe.length + part.length ≤ maxBytes ∧
        t = (tail, safe ++ part)) ∨
      ∃ byte tail, rest = byte :: tail ∧ t = (tail, safe ++ [question]) ∧
        ∀ part tail', Shaped part → rest = part ++ tail' → maxBytes < safe.length + part.length) := by
  cases rest with
  | nil => cases is
  | cons lead tail =>
    rw [round] at is
    split at is
    · rename_i roomLeft
      refine ⟨roomLeft, ?_⟩
      dsimp only at is
      split at is
      · rename_i invalid
        cases is
        refine .inr ⟨lead, tail, rfl, rfl, fun part tail' shaped split => ?_⟩
        obtain ⟨announced, valid⟩ := shaped_valid shaped split
        simpa [announced, valid] using invalid
      · rename_i valid
        cases is
        simp only [Bool.or_eq_true, Bool.not_eq_eq_eq_not, Bool.not_true, decide_eq_true_eq,
          not_or, Bool.not_eq_false,
          Nat.not_lt] at valid
        refine .inl ⟨_, _, valid_shaped valid.1, (List.take_append_drop _ _).symm, ?_, rfl⟩
        have taken := List.length_take_le (sequenceLength lead) (lead :: tail)
        omega
    · cases is

/-- The loop makes such a cut of the value. -/
theorem cut_of_rounds (rounds : detailLoop.Rounds s out) :
    ∀ rest safe, s = (rest, safe) → ∃ pieces, out = safe ++ pieces.flatten ∧
    Cut (maxBytes - safe.length) rest pieces := by
  induction rounds with
  | done is =>
    rintro rest safe rfl
    obtain ⟨rfl, ended⟩ := round_done is
    refine ⟨[], (List.append_nil _).symm, ?_⟩
    rcases ended with rfl | full
    · exact .ended
    · rw [Nat.sub_eq_zero_of_le full]
      exact .full
  | next is _ ih =>
    rintro rest safe rfl
    obtain ⟨roomLeft, ⟨part, tail, shaped, rfl, fits, rfl⟩ | ⟨byte, tail, rfl, rfl, unmatched⟩⟩ := round_next is
    · obtain ⟨pieces, same, cut⟩ := ih tail (safe ++ part) rfl
      rw [List.length_append, ← Nat.sub_sub] at cut
      exact ⟨part :: pieces, by simpa using same, .copied shaped (by omega) cut⟩
    · obtain ⟨pieces, same, cut⟩ := ih tail (safe ++ [question]) rfl
      rw [List.length_append, ← Nat.sub_sub] at cut
      refine ⟨[question] :: pieces, by simpa using same, .replaced (by omega) (fun part tail' shaped split => ?_) cut⟩
      have large := unmatched part tail' shaped split
      omega

theorem boundedCloseDetail_cut (value : Bytes) :
    ∃ pieces, boundedCloseDetail (some value) = pieces.flatten ∧ Cut maxBytes value pieces := by
  rw [boundedCloseDetail]
  cases is : detailLoop.run (value, []) with
  | error e => cases e
  | ok out => exact cut_of_rounds (Loop.run_ok_iff.mp is) value [] rfl

theorem Cut.length_le (cut : Cut room rest pieces) : pieces.flatten.length ≤ room := by
  induction cut with
  | ended => exact Nat.zero_le _
  | full => exact Nat.zero_le _
  | copied _ fits _ ih =>
    rw [List.flatten_cons, List.length_append]
    omega
  | replaced roomLeft _ _ ih =>
    rw [List.flatten_cons, List.length_append, List.length_singleton]
    omega

theorem Cut.shaped (cut : Cut room rest pieces) : ∀ piece ∈ pieces, Shaped piece := by
  induction cut with
  | ended => simp
  | full => simp
  | copied shaped _ _ ih => simpa using ⟨shaped, ih⟩
  | replaced _ _ _ ih => simpa using ⟨.one (by decide), ih⟩

/-- Nothing is lost of a text of whole characters that fits. -/
theorem Cut.unchanged (cut : Cut room rest pieces) (all : ∀ part ∈ parts, Shaped part) (is : rest = parts.flatten)
    (fits : rest.length ≤ room) : pieces.flatten = rest := by
  induction cut generalizing parts with
  | ended => rfl
  | full => exact (List.eq_nil_of_length_eq_zero (Nat.le_zero.mp fits)).symm
  | copied shaped _ _ ih =>
    cases parts with
    | nil => exact absurd (List.append_eq_nil_iff.mp is).1 shaped.ne_nil
    | cons first parts =>
      rw [List.flatten_cons] at is
      obtain ⟨rfl, rest⟩ := shaped.unique (all first List.mem_cons_self) is
      rw [List.length_append] at fits
      rw [List.flatten_cons, ih (fun part member => all part (List.mem_cons_of_mem _ member)) rest (by omega)]
  | replaced _ unmatched _ _ =>
    cases parts with
    | nil => cases is
    | cons first parts =>
      have large := unmatched first parts.flatten (all first List.mem_cons_self) is
      rw [is, List.flatten_cons, List.length_append] at fits
      omega

/-- What is restricted in the pieces was copied from the value. -/
theorem Cut.restricted_copied (cut : Cut room rest pieces) (member : part ∈ pieces) (restricted : Restricted part) :
    part <:+: rest.take room := by
  induction cut with
  | ended => cases member
  | full => cases member
  | @copied first room rest pieces _ fits _ ih =>
    rw [List.take_append, List.take_of_length_le fits]
    rcases List.mem_cons.mp member with rfl | later
    · exact List.infix_append' [] _ _
    · exact (ih later).trans (List.suffix_append _ _).isInfix
  | @replaced room byte rest pieces roomLeft _ _ ih =>
    rcases List.mem_cons.mp member with rfl | later
    · cases restricted
    · obtain ⟨n, rfl⟩ := Nat.exists_eq_succ_of_ne_zero (Nat.ne_of_gt roomLeft)
      rw [List.take_succ_cons]
      exact (ih later).trans (List.suffix_cons _ _).isInfix

/-- A part that fits is not missed. -/
theorem Cut.copies (cut : Cut room rest pieces) (shaped : Shaped part)
    (is : rest.take room = front ++ (part ++ back)) : part ∈ pieces := by
  induction cut generalizing front with
  | ended =>
    simp only [List.take_nil, List.nil_eq, List.append_eq_nil_iff] at is
    exact absurd is.2.1 shaped.ne_nil
  | full =>
    simp only [List.take_zero, List.nil_eq, List.append_eq_nil_iff] at is
    exact absurd is.2.1 shaped.ne_nil
  | copied first fits _ ih =>
    rw [List.take_append, List.take_of_length_le fits] at is
    rcases shaped.split first is with rfl | ⟨behind, rest⟩
    · exact List.mem_cons_self
    · exact List.mem_cons_of_mem _ (ih rest)
  | @replaced room byte rest pieces roomLeft unmatched _ ih =>
    cases front with
    | nil =>
      have large := unmatched part (back ++ (byte :: rest).drop room) shaped (by
        rw [← List.append_assoc, ← List.nil_append (part ++ back), ← is, List.take_append_drop])
      have short := congrArg List.length is
      simp only [List.nil_append, List.length_take, List.length_append] at short
      omega
    | cons first front =>
      obtain ⟨n, rfl⟩ := Nat.exists_eq_succ_of_ne_zero (Nat.ne_of_gt roomLeft)
      rw [List.take_succ_cons, List.cons_append, List.cons.injEq] at is
      exact List.mem_cons_of_mem _ (ih is.2)

example : boundedCloseDetail (some [0x61, 0xff, 0xc3, 0xa4, 0xc3]) = [0x61, 0x3f, 0xc3, 0xa4, 0x3f] := by decide

/-- Whatever comes in: at most 120 bytes of UTF-8, and what is such a text as it is. -/
def Bounded (value : Bytes) : Prop :=
  (boundedCloseDetail (some value)).length ≤ 120 ∧ WellFormed (boundedCloseDetail (some value)) ∧
    (WellFormed value → value.length ≤ 120 → boundedCloseDetail (some value) = value)

/-- It is so unless one of the sequences that the loop does not tell from a character lies in the
first 120 bytes. -/
theorem boundedCloseDetail_bounded (value : Bytes) :
    Bounded value ↔ ∀ part, Restricted part → ¬ part <:+: value.take 120 := by
  obtain ⟨pieces, is, cut⟩ := boundedCloseDetail_cut value
  have formed : WellFormed pieces.flatten ↔ ∀ part, Restricted part → ¬ part <:+: value.take 120 := by
    rw [wellFormed_iff cut.shaped]
    constructor
    · rintro allowed part restricted ⟨front, back, within⟩
      rw [List.append_assoc] at within
      exact allowed part (cut.copies restricted.shaped within.symm) restricted
    · intro unmatched part member restricted
      exact unmatched part restricted (cut.restricted_copied member restricted)
  rw [Bounded, is, ← formed]
  constructor
  · exact fun bounded => bounded.2.1
  · intro well
    refine ⟨cut.length_le, well, fun formed fits => ?_⟩
    obtain ⟨parts, same, characters⟩ := formed.parts
    exact cut.unchanged (fun part member => (characters part member).1) same fits

/-- An overlong form goes through. -/
theorem overlong_unbounded : ¬ Bounded [0xe0, 0x80, 0x80] := by
  rintro ⟨-, formed, -⟩
  have restricted : Restricted [0xe0, 0x80, 0x80] :=
    .overlongThree (by decide) (by simp [Tail]) (by decide) (by simp [Tail])
  have copied : boundedCloseDetail (some [0xe0, 0x80, 0x80]) = [[0xe0, 0x80, 0x80]].flatten := by decide
  rw [copied, wellFormed_iff (by simpa using restricted.shaped)] at formed
  exact formed _ (List.mem_singleton_self _) restricted

end CloseDetail

/-- `onClose`, with whether its caller counts the close. -/
def Peer.onClose (peer : Peer) (socket : Socket) (code : Nat) (detail : Option Bytes) : Peer × Bool :=
  if some socket ≠ peer.socket then (peer, false)
  else
    let (closed, accountClose) := peer.selectCloseReasonLocked .remoteClose
    ({ closed with closeCode := code, closeDetail := boundedCloseDetail detail }, accountClose)

/-- No close frame makes a peer keep more. -/
theorem Peer.onClose_detail (peer : Peer) (kept : peer.closeDetail.length ≤ 120) (socket : Socket) (code : Nat)
    (detail : Option Bytes) : (peer.onClose socket code detail).1.closeDetail.length ≤ 120 := by
  rw [Peer.onClose]
  split
  · exact kept
  · cases detail with
    | none => exact Nat.zero_le _
    | some value =>
      obtain ⟨pieces, is, cut⟩ := CloseDetail.boundedCloseDetail_cut value
      show (boundedCloseDetail (some value)).length ≤ 120
      rw [is]
      exact cut.length_le

end Conspire
