import Conspire.Tor.Text

/-! The quoted values of a reply: what each spelling of a value is read as, and which texts are
no value. -/
namespace Conspire.Tor
open Loops

/-- The letters that stand for control characters. -/
def control : List (UInt8 × UInt8) :=
  [('n'.toUInt8, 0x0a), ('r'.toUInt8, 0x0d), ('t'.toUInt8, 0x09)]

/-- The value of three octal digits. -/
def octalValue (first second third : UInt8) : Nat :=
  ((first.toNat - '0'.toNat) * 8 + (second.toNat - '0'.toNat)) * 8 + (third.toNat - '0'.toNat)

/-- A text between quotes and the bytes it spells. -/
inductive Spelling : Bytes → Bytes → Prop where
  | nil : Spelling [] []
  | plain : byte ≠ quote → byte ≠ backslash → Spelling spelling bytes → Spelling (byte :: spelling) (byte :: bytes)
  | control {letter byte : UInt8} : (letter, byte) ∈ control → Spelling spelling bytes →
      Spelling (backslash :: letter :: spelling) (byte :: bytes)
  | escaped {byte : UInt8} : (∀ entry ∈ control, entry.1 ≠ byte) → octalDigit byte = false → Spelling spelling bytes →
      Spelling (backslash :: byte :: spelling) (byte :: bytes)
  | octal : octalDigit first = true → octalDigit second = true → octalDigit third = true →
      octalValue first second third = byte.toNat → Spelling spelling bytes →
      Spelling (backslash :: first :: second :: third :: spelling) (byte :: bytes)

/-- A text without an unescaped quote that ends outside an escape. -/
inductive Unquoted : Bytes → Prop where
  | nil : Unquoted []
  | plain : byte ≠ quote → byte ≠ backslash → Unquoted text → Unquoted (byte :: text)
  | escaped : Unquoted text → Unquoted (backslash :: byte :: text)

/-- The name stands first right before the quote that opens the text. -/
def Opens (line name text : Bytes) : Prop :=
  ∃ front, line = front ++ name ++ quote :: text ∧
    ∀ before after, line = before ++ name ++ after → front.length ≤ before.length

theorem quotedValue_opens (opens : Opens line name text) :
    quotedValue line name = (quotedLoop.run (text, [])).toOption := by
  obtain ⟨front, is, first⟩ := opens
  rw [quotedValue, Infix.split_iff.mpr ⟨is, first⟩]
  exact if_pos rfl

theorem octal_three (first : octalDigit second = true) (last : octalDigit third = true) (octet : Nat) :
    octal 2 octet (second :: third :: rest) =
      ((octet * 8 + (second.toNat - '0'.toNat)) * 8 + (third.toNat - '0'.toNat), rest) := by
  rw [octal, if_pos first, octal, if_pos last]
  cases rest <;> rfl

theorem octalDigit_plain (digit : octalDigit byte = true) :
    byte ≠ quote ∧ byte ≠ backslash ∧ ∀ entry ∈ control, entry.1 ≠ byte := by
  simp only [octalDigit, decide_eq_true_eq] at digit
  refine ⟨?_, ?_, ?_⟩
  · rintro rfl
    exact absurd digit (by decide)
  · rintro rfl
    exact absurd digit (by decide)
  · rintro entry member rfl
    simp only [control, List.mem_cons, List.not_mem_nil, or_false] at member
    obtain rfl | rfl | rfl := member <;> exact absurd digit (by decide)

section Rounds
variable {byte letter : UInt8} {text value : Bytes}

theorem round_quote : quotedRound (quote :: text, value) = .ok (.done value) := by
  rw [quotedRound.eq_def]
  exact if_pos rfl

theorem round_plain (notQuote : byte ≠ quote) (notBackslash : byte ≠ backslash) :
    quotedRound (byte :: text, value) = .ok (.next (text, value ++ [byte])) := by
  rw [quotedRound.eq_def]
  exact (if_neg notQuote).trans (if_pos notBackslash)

theorem backslash_ne_quote : backslash ≠ quote := by decide

theorem round_control (member : (letter, byte) ∈ control) :
    quotedRound (backslash :: letter :: text, value) = .ok (.next (text, value ++ [byte])) := by
  rw [quotedRound, if_neg backslash_ne_quote, if_neg (not_not.mpr rfl)]
  simp only [control, List.mem_cons, Prod.mk.injEq, List.not_mem_nil, or_false] at member
  rcases member with ⟨rfl, rfl⟩ | ⟨rfl, rfl⟩ | ⟨rfl, rfl⟩ <;> rfl

theorem round_other (other : ∀ entry ∈ control, entry.1 ≠ byte) :
    quotedRound (backslash :: byte :: text, value) =
      if ¬ octalDigit byte then .ok (.next (text, value ++ [byte]))
      else
        let (octet, rest) := octal 2 (byte.toNat - '0'.toNat) text
        if 255 < octet then .error () else .ok (.next (rest, value ++ [UInt8.ofNat octet])) := by
  have n : byte ≠ 'n'.toUInt8 := fun is => other _ (List.mem_cons_self ..) is.symm
  have r : byte ≠ 'r'.toUInt8 := fun is => other ('r'.toUInt8, 0x0d) (by decide) is.symm
  have t : byte ≠ 't'.toUInt8 := fun is => other ('t'.toUInt8, 0x09) (by decide) is.symm
  rw [quotedRound, if_neg backslash_ne_quote, if_neg (not_not.mpr rfl)]
  simp only [if_neg n, if_neg r, if_neg t]

end Rounds

theorem spelling_run (spelled : Spelling spelling bytes) (rest value : Bytes) :
    quotedLoop.run (spelling ++ rest, value) = quotedLoop.run (rest, value ++ bytes) := by
  have small : ∀ byte : UInt8, ¬ 255 < byte.toNat := fun byte => Nat.not_lt.mpr (Nat.le_of_lt_succ byte.toNat_lt)
  induction spelled generalizing value with
  | nil => rw [List.nil_append, List.append_nil]
  | plain notQuote notBackslash _ ih =>
    rw [List.append_cons value, ← ih]
    exact Loop.run_next (round_plain notQuote notBackslash)
  | control member _ ih =>
    rw [List.append_cons value, ← ih]
    exact Loop.run_next (round_control member)
  | escaped other digit _ ih =>
    rw [List.append_cons value, ← ih]
    refine Loop.run_next ((round_other other).trans ?_)
    rw [digit]
    rfl
  | octal digit second third is _ ih =>
    rw [List.append_cons value, ← ih]
    simp only [octalValue] at is
    simp only [List.cons_append]
    refine Loop.run_next ((round_other (octalDigit_plain digit).2.2).trans ?_)
    simp only [digit, not_true_eq_false, if_false, octal_three second third, is, if_neg (small _), UInt8.ofNat_toNat]

/-- An octal escape with a value that is no byte. -/
def Exceeds (first : UInt8) (text : Bytes) : Prop :=
  ∃ second third rest, text = second :: third :: rest ∧ octalDigit first = true ∧ octalDigit second = true ∧
    octalDigit third = true ∧ 255 < octalValue first second third

/-- The texts that are no value: a kind of text that no quote closes and that reading a byte or
an escape does not leave, unless the escape exceeds a byte. -/
structure Hopeless (P : Bytes → Prop) : Prop where
  closed : ∀ text, ¬ P (quote :: text)
  plain : ∀ byte text, byte ≠ quote → byte ≠ backslash → P (byte :: text) → P text
  escaped : ∀ byte text, P (backslash :: byte :: text) → P text ∨ Exceeds byte text

theorem Hopeless.octal {P : Bytes → Prop} (hopeless : Hopeless P) (left octet : Nat) (holds : P text) :
    P (Tor.octal left octet text).2 := by
  induction left generalizing octet text with
  | zero => exact holds
  | succ left ih =>
    cases text with
    | nil => exact holds
    | cons digit rest =>
      rw [Tor.octal]
      split
      · rename_i is
        obtain ⟨notQuote, notBackslash, -⟩ := octalDigit_plain is
        exact ih _ (hopeless.plain digit rest notQuote notBackslash holds)
      · exact holds

theorem Hopeless.run {P : Bytes → Prop} (hopeless : Hopeless P) (holds : P text) (value : Bytes) :
    quotedLoop.run (text, value) = .error () := by
  induction h : text.length using Nat.strongRecOn generalizing text value with
  | _ n ih =>
    have next : ∀ rest value', rest.length < text.length → P rest →
        quotedRound (text, value) = .ok (.next (rest, value')) → quotedLoop.run (text, value) = .error () :=
      fun rest value' less still is => (Loop.run_next is).trans (ih rest.length (h ▸ less) still value' rfl)
    cases text with
    | nil => exact Loop.run_fail rfl
    | cons byte rest =>
      by_cases notQuote : byte = quote
      · exact absurd (notQuote ▸ holds) (hopeless.closed rest)
      by_cases notBackslash : byte = backslash
      · subst notBackslash
        cases rest with
        | nil => exact Loop.run_fail rfl
        | cons letter rest =>
          have inside := hopeless.escaped letter rest holds
          by_cases member : ∃ byte, (letter, byte) ∈ control
          · obtain ⟨byte, member⟩ := member
            refine next rest _ (Nat.lt_add_of_pos_right (Nat.succ_pos 1)) (inside.resolve_right ?_)
              (round_control member)
            rintro ⟨_, _, _, -, digit, -⟩
            exact (octalDigit_plain digit).2.2 _ member rfl
          have other : ∀ entry ∈ control, entry.1 ≠ letter := by
            rintro ⟨_, byte⟩ entry rfl
            exact member ⟨byte, entry⟩
          have is : quotedRound (backslash :: letter :: rest, value) = _ := round_other other
          cases digit : octalDigit letter with
          | false =>
            rw [digit] at is
            refine next rest _ (Nat.lt_add_of_pos_right (Nat.succ_pos 1)) (inside.resolve_right ?_) is
            rintro ⟨_, _, _, -, octal, -⟩
            rw [digit] at octal
            cases octal
          | true =>
            simp only [digit, not_true_eq_false, if_false] at is
            rcases inside with still | ⟨second, third, back, rfl, -, first, last, above⟩
            · split at is
              · exact Loop.run_fail is
              · have read := octal_length 2 (letter.toNat - '0'.toNat) rest
                refine next _ _ ?_ (hopeless.octal 2 _ still) is
                simp only [List.length_cons]
                omega
            · rw [octal_three first last] at is
              exact Loop.run_fail (is.trans (if_pos above))
      · exact next rest _ (Nat.lt_succ_self _) (hopeless.plain byte rest notQuote notBackslash holds)
          (round_plain notQuote notBackslash)

/-- A text that no unescaped quote closes. -/
theorem hopeless_open : Hopeless fun text => ∀ front back, Unquoted front → text ≠ front ++ quote :: back where
  closed _ holds := holds [] _ .nil rfl
  plain byte text notQuote notBackslash holds front back unquoted is :=
    holds (byte :: front) back (.plain notQuote notBackslash unquoted) (congrArg _ is)
  escaped byte text holds := by
    refine .inl fun front back unquoted is => ?_
    exact holds (backslash :: byte :: front) back (.escaped unquoted) (congrArg (backslash :: byte :: ·) is)

/-- A text with an octal escape that exceeds a byte. -/
theorem hopeless_octal : Hopeless fun text => ∃ front first back, Unquoted front ∧
    text = front ++ backslash :: first :: back ∧ Exceeds first back where
  closed := by
    rintro text ⟨front, first, back, unquoted, is, -⟩
    cases unquoted with
    | nil => cases is
    | plain notQuote =>
      cases is
      exact notQuote rfl
    | escaped => cases is
  plain := by
    rintro byte text - notBackslash ⟨front, first, back, unquoted, is, exceeds⟩
    cases unquoted with
    | nil =>
      cases is
      exact absurd rfl notBackslash
    | plain _ _ rest => exact ⟨_, first, back, rest, (List.cons.inj is).2, exceeds⟩
    | escaped => exact absurd (List.cons.inj is).1 notBackslash
  escaped := by
    rintro byte text ⟨front, first, back, unquoted, is, exceeds⟩
    cases unquoted with
    | nil =>
      cases is
      exact .inr exceeds
    | plain _ notBackslash => exact absurd (List.cons.inj is).1.symm notBackslash
    | escaped rest => exact .inl ⟨_, first, back, rest, (List.cons.inj (List.cons.inj is).2).2, exceeds⟩

/-- Every spelling of a value is read as the value; a text that no quote closes, or with an octal
escape that exceeds a byte, is none. -/
theorem quotedValue_decodes (line name text : Bytes) (opens : Opens line name text) :
    (∀ spelling bytes back, Spelling spelling bytes → text = spelling ++ quote :: back →
      quotedValue line name = some bytes) ∧
    ((∀ front back, Unquoted front → text ≠ front ++ quote :: back) → quotedValue line name = none) ∧
    (∀ front first back, Unquoted front → text = front ++ backslash :: first :: back → Exceeds first back →
      quotedValue line name = none) := by
  rw [quotedValue_opens opens]
  refine ⟨?_, ?_, ?_⟩
  · rintro spelling bytes back spelled rfl
    rw [spelling_run spelled (quote :: back) [], Loop.run_done (@round_quote back _)]
    rfl
  · intro unclosed
    rw [hopeless_open.run unclosed]
    rfl
  · intro front first back unquoted is exceeds
    rw [hopeless_octal.run ⟨front, first, back, unquoted, is, exceeds⟩]
    rfl

/-- `\101` spells the letter A. -/
theorem quotedValue_decodes_letter :
    let name := ascii "COOKIEFILE="
    Opens (name ++ quote :: [backslash, 0x31, 0x30, 0x31, quote]) name [backslash, 0x31, 0x30, 0x31, quote] ∧
      quotedValue (name ++ quote :: [backslash, 0x31, 0x30, 0x31, quote]) name = some (ascii "A") := by
  intro name
  have opens : Opens (name ++ quote :: [backslash, 0x31, 0x30, 0x31, quote]) name
      [backslash, 0x31, 0x30, 0x31, quote] := ⟨[], rfl, fun _ _ _ => Nat.zero_le _⟩
  have spelled : Spelling [backslash, 0x31, 0x30, 0x31] (ascii "A") :=
    .octal (by decide) (by decide) (by decide) (by decide) .nil
  exact ⟨opens, (quotedValue_decodes _ _ _ opens).1 _ _ [] spelled rfl⟩

end Conspire.Tor
