import Mathlib.Data.List.Basic

/-! Byte strings that are UTF-8. A character is encoded as `String.utf8EncodeChar` does; its bytes
have the shape that their lead announces, and of the byte strings of such a shape only the
restricted ones (overlong forms, surrogates, values above U+10FFFF) encode nothing. -/
namespace Utf8

/-- A concatenation of encoded characters. -/
def WellFormed (bytes : List UInt8) : Prop :=
  ∃ text : List Char, bytes = text.flatMap String.utf8EncodeChar

/-- A byte behind a lead. -/
def Tail (byte : UInt8) : Prop := 0x80 ≤ byte.toNat ∧ byte.toNat < 0xC0

/-- A lead with as many bytes behind it as it announces. -/
inductive Shaped : List UInt8 → Prop where
  | one {a : UInt8} : a.toNat < 0x80 → Shaped [a]
  | two {a b : UInt8} : 0xC2 ≤ a.toNat → a.toNat < 0xE0 → Tail b → Shaped [a, b]
  | three {a b c : UInt8} : 0xE0 ≤ a.toNat → a.toNat < 0xF0 → Tail b → Tail c → Shaped [a, b, c]
  | four {a b c d : UInt8} : 0xF0 ≤ a.toNat → a.toNat < 0xF5 → Tail b → Tail c → Tail d → Shaped [a, b, c, d]

/-- The second bytes that some leads exclude. -/
inductive Restricted : List UInt8 → Prop where
  | overlongThree {a b c : UInt8} : a.toNat = 0xE0 → Tail b → b.toNat < 0xA0 → Tail c → Restricted [a, b, c]
  | surrogate {a b c : UInt8} : a.toNat = 0xED → Tail b → 0xA0 ≤ b.toNat → Tail c → Restricted [a, b, c]
  | overlongFour {a b c d : UInt8} : a.toNat = 0xF0 → Tail b → b.toNat < 0x90 → Tail c → Tail d →
      Restricted [a, b, c, d]
  | beyond {a b c d : UInt8} : a.toNat = 0xF4 → Tail b → 0x90 ≤ b.toNat → Tail c → Tail d →
      Restricted [a, b, c, d]

variable {part part' rest rest' front back : List UInt8} {pieces : List (List UInt8)}

theorem Restricted.shaped (restricted : Restricted part) : Shaped part := by
  cases restricted with
  | overlongThree lead second _ third => exact .three (by omega) (by omega) second third
  | surrogate lead second _ third => exact .three (by omega) (by omega) second third
  | overlongFour lead second _ third fourth => exact .four (by omega) (by omega) second third fourth
  | beyond lead second _ third fourth => exact .four (by omega) (by omega) second third fourth

/-- The lead alone says how long the part is. -/
theorem Shaped.unique (shaped : Shaped part) (shaped' : Shaped part') (same : part ++ rest = part' ++ rest') :
    part = part' ∧ rest = rest' := by
  cases shaped <;> cases shaped' <;> simp only [List.cons_append, List.nil_append, List.cons.injEq] at same <;>
    first
    | (obtain ⟨rfl, _⟩ := same; omega)
    | grind

theorem Shaped.ne_nil (shaped : Shaped part) : part ≠ [] := by
  cases shaped <;> exact List.cons_ne_nil _ _

/-- Behind the lead are tails, and the lead is none. -/
theorem Shaped.tails (shaped : Shaped part) :
    ∃ lead tails, part = lead :: tails ∧ ¬ Tail lead ∧ ∀ byte ∈ tails, Tail byte := by
  cases shaped with
  | one ascii => exact ⟨_, _, rfl, by simp only [Tail]; omega, by simp⟩
  | two low high second => exact ⟨_, _, rfl, by simp only [Tail]; omega, by simpa using second⟩
  | three low high second third => exact ⟨_, _, rfl, by simp only [Tail]; omega, by simpa using ⟨second, third⟩⟩
  | four low high second third fourth =>
    exact ⟨_, _, rfl, by simp only [Tail]; omega, by simpa using ⟨second, third, fourth⟩⟩

/-- No part begins behind the lead of another. -/
theorem Shaped.not_inside (shaped : Shaped part) (other : Shaped (front ++ middle)) (begun : front ≠ [])
    (nonempty : middle ≠ []) : part ++ back ≠ middle ++ rest := by
  intro same
  obtain ⟨lead, tails, rfl, leads, -⟩ := shaped.tails
  obtain ⟨lead', tails', is, -, all⟩ := other.tails
  obtain ⟨first, front, rfl⟩ := List.exists_cons_of_ne_nil begun
  obtain ⟨second, middle, rfl⟩ := List.exists_cons_of_ne_nil nonempty
  simp only [List.cons_append, List.cons.injEq] at is same
  obtain ⟨-, rfl⟩ := is
  obtain ⟨rfl, -⟩ := same
  exact leads (all _ (by simp))

/-- A part behind another one begins: it is that one, or it comes behind it. -/
theorem Shaped.split (shaped : Shaped part) (other : Shaped part') (is : part' ++ rest = front ++ (part ++ back)) :
    part = part' ∨ ∃ behind, rest = behind ++ (part ++ back) := by
  rcases List.append_eq_append_iff.mp is with ⟨behind, -, is⟩ | ⟨middle, whole, is⟩
  · exact .inr ⟨behind, is⟩
  · by_cases ended : middle = []
    · exact .inr ⟨[], by rw [is, ended]; rfl⟩
    · by_cases first : front = []
      · rw [first, List.nil_append] at whole
        rw [whole] at other ⊢
        exact .inl (shaped.unique other is).1
      · exact absurd is (shaped.not_inside (whole ▸ other) first ended)

/-- A part in the concatenation of others is one of them. -/
theorem Shaped.mem_pieces (shaped : Shaped part) (all : ∀ piece ∈ pieces, Shaped piece)
    (is : pieces.flatten = front ++ (part ++ back)) : part ∈ pieces := by
  induction pieces generalizing front with
  | nil =>
    simp only [List.flatten_nil, List.nil_eq, List.append_eq_nil_iff] at is
    exact absurd is.2.1 shaped.ne_nil
  | cons piece pieces ih =>
    rw [List.flatten_cons] at is
    rcases shaped.split (all piece List.mem_cons_self) is with rfl | ⟨behind, rest⟩
    · exact List.mem_cons_self
    · exact List.mem_cons_of_mem _ (ih (fun piece member => all piece (List.mem_cons_of_mem _ member)) rest)

/-- The bytes of an encoded character, which is no surrogate. -/
theorem encoded_shaped (c : Char) : Shaped (String.utf8EncodeChar c) ∧ ¬ Restricted (String.utf8EncodeChar c) := by
  have scalar : c.val.toNat < 0xD800 ∨ 0xDFFF < c.val.toNat ∧ c.val.toNat < 0x110000 := c.valid
  unfold String.utf8EncodeChar
  generalize c.val.toNat = n at scalar
  dsimp only
  split
  · refine ⟨.one (by simp; omega), fun restricted => ?_⟩
    cases restricted
  · split
    · refine ⟨.two (by simp; omega) (by simp; omega) (by simp [Tail]; omega), fun restricted => ?_⟩
      cases restricted
    · split
      · refine ⟨.three (by simp; omega) (by simp; omega) (by simp [Tail]; omega) (by simp [Tail]; omega), ?_⟩
        intro restricted
        cases restricted with
        | overlongThree lead _ second => simp at lead second; omega
        | surrogate lead _ second => simp at lead second; omega
      · refine ⟨.four (by simp; omega) (by simp; omega) (by simp [Tail]; omega) (by simp [Tail]; omega)
          (by simp [Tail]; omega), fun restricted => ?_⟩
        cases restricted with
        | overlongFour lead _ second => simp at lead second; omega
        | beyond lead _ second => simp at lead second; omega

theorem exists_char (scalar : n < 0xD800 ∨ 0xDFFF < n ∧ n < 0x110000) : ∃ c : Char, c.val.toNat = n :=
  ⟨Char.ofNatAux n scalar, rfl⟩

theorem ofNat_eq (byte : UInt8) (is : n = byte.toNat) : UInt8.ofNat n = byte := by
  rw [is, UInt8.ofNat_toNat]

/-- Every other part encodes a character. -/
theorem Shaped.encoded (shaped : Shaped part) (allowed : ¬ Restricted part) :
    ∃ c : Char, part = String.utf8EncodeChar c := by
  cases shaped with
  | @one a ascii =>
    obtain ⟨c, is⟩ := exists_char (n := a.toNat) (by omega)
    refine ⟨c, ?_⟩
    rw [String.utf8EncodeChar, is, if_pos (by omega), ofNat_eq a rfl]
  | @two a b low high second =>
    obtain ⟨c, is⟩ := exists_char (n := (a.toNat - 0xC0) * 64 + (b.toNat - 0x80))
      (by simp only [Tail] at second; omega)
    refine ⟨c, ?_⟩
    obtain ⟨second, below⟩ := second
    rw [String.utf8EncodeChar, is, if_neg (by omega), if_pos (by omega), ofNat_eq a (by omega),
      ofNat_eq b (by omega)]
  | @three a b c low high second third =>
    have overlong : a.toNat = 0xE0 → 0xA0 ≤ b.toNat := fun lead =>
      Nat.le_of_not_lt fun small => allowed (.overlongThree lead second small third)
    have surrogate : a.toNat = 0xED → b.toNat < 0xA0 := fun lead =>
      Nat.lt_of_not_le fun large => allowed (.surrogate lead second large third)
    obtain ⟨second, below⟩ := second
    obtain ⟨third, below'⟩ := third
    obtain ⟨character, is⟩ := exists_char
      (n := (a.toNat - 0xE0) * 4096 + (b.toNat - 0x80) * 64 + (c.toNat - 0x80)) (by omega)
    refine ⟨character, ?_⟩
    rw [String.utf8EncodeChar, is, if_neg (by omega), if_neg (by omega), if_pos (by omega), ofNat_eq a (by omega),
      ofNat_eq b (by omega), ofNat_eq c (by omega)]
  | @four a b c d low high second third fourth =>
    have overlong : a.toNat = 0xF0 → 0x90 ≤ b.toNat := fun lead =>
      Nat.le_of_not_lt fun small => allowed (.overlongFour lead second small third fourth)
    have beyond : a.toNat = 0xF4 → b.toNat < 0x90 := fun lead =>
      Nat.lt_of_not_le fun large => allowed (.beyond lead second large third fourth)
    obtain ⟨second, below⟩ := second
    obtain ⟨third, below'⟩ := third
    obtain ⟨fourth, below''⟩ := fourth
    obtain ⟨character, is⟩ := exists_char (n := (a.toNat - 0xF0) * 262144 + (b.toNat - 0x80) * 4096 +
      (c.toNat - 0x80) * 64 + (d.toNat - 0x80)) (by omega)
    refine ⟨character, ?_⟩
    rw [String.utf8EncodeChar, is, if_neg (by omega), if_neg (by omega), if_neg (by omega), ofNat_eq a (by omega),
      ofNat_eq b (by omega), ofNat_eq c (by omega), ofNat_eq d (by omega)]

theorem WellFormed.parts (formed : WellFormed bytes) :
    ∃ pieces : List (List UInt8), bytes = pieces.flatten ∧ ∀ piece ∈ pieces, Shaped piece ∧ ¬ Restricted piece := by
  obtain ⟨text, rfl⟩ := formed
  refine ⟨text.map String.utf8EncodeChar, rfl, fun piece member => ?_⟩
  obtain ⟨c, -, rfl⟩ := List.mem_map.mp member
  exact encoded_shaped c

/-- A concatenation of parts is UTF-8 if none of them is restricted. -/
theorem wellFormed_iff (all : ∀ piece ∈ pieces, Shaped piece) :
    WellFormed pieces.flatten ↔ ∀ piece ∈ pieces, ¬ Restricted piece := by
  constructor
  · intro formed piece member restricted
    obtain ⟨others, same, encoded⟩ := formed.parts
    obtain ⟨before, after, split⟩ := List.append_of_mem member
    have whole : others.flatten = before.flatten ++ (piece ++ after.flatten) := by
      rw [← same, split, List.flatten_append, List.flatten_cons]
    have found := (all piece member).mem_pieces (fun other inside => (encoded other inside).1) whole
    exact (encoded piece found).2 restricted
  · intro allowed
    induction pieces with
    | nil => exact ⟨[], rfl⟩
    | cons piece pieces ih =>
      obtain ⟨text, rest⟩ := ih (fun piece member => all piece (List.mem_cons_of_mem _ member))
        (fun piece member => allowed piece (List.mem_cons_of_mem _ member))
      obtain ⟨c, first⟩ := (all piece List.mem_cons_self).encoded (allowed piece List.mem_cons_self)
      exact ⟨c :: text, by rw [List.flatten_cons, List.flatMap_cons, first, rest]⟩

/-- The text that a byte string encodes, if it is UTF-8. -/
def decode (bytes : List UInt8) : Option (List Char) := bytes.toByteArray.utf8Decode?.map Array.toList

theorem decode_encoded (text : List Char) : decode (text.flatMap String.utf8EncodeChar) = some text := by
  have read := List.utf8Decode?_utf8Encode (l := text)
  rw [List.utf8Encode] at read
  rw [decode, read]
  rfl

theorem toByteArray_injective {bytes bytes' : List UInt8} (same : bytes.toByteArray = bytes'.toByteArray) :
    bytes = bytes' := by
  have lists := congrArg (fun array : ByteArray => array.data.toList) same
  simpa using lists

theorem decode_isSome : (decode bytes).isSome ↔ WellFormed bytes := by
  rw [decode, Option.isSome_map, ByteArray.isSome_utf8Decode?_iff]
  constructor
  · rintro ⟨text, is⟩
    exact ⟨text, toByteArray_injective is⟩
  · rintro ⟨text, rfl⟩
    exact ⟨text, rfl⟩

/-- The characters of ASCII bytes. -/
def asciiText (bytes : List UInt8) : List Char := bytes.map fun byte => Char.ofNat byte.toNat

theorem ascii_character {byte : UInt8} (small : byte.toNat < 0x80) :
    (Char.ofNat byte.toNat).toNat = byte.toNat ∧ String.utf8EncodeChar (Char.ofNat byte.toNat) = [byte] := by
  have value : (Char.ofNat byte.toNat).toNat = byte.toNat := by
    rw [Char.ofNat, dif_pos (.inl (by omega))]
    rfl
  refine ⟨value, ?_⟩
  have is : (Char.ofNat byte.toNat).val.toNat = byte.toNat := value
  rw [String.utf8EncodeChar, is, if_pos (by omega), ofNat_eq byte rfl]

theorem decode_ascii (small : ∀ byte ∈ bytes, byte.toNat < 0x80) : decode bytes = some (asciiText bytes) := by
  have encoded : bytes = (asciiText bytes).flatMap String.utf8EncodeChar := by
    induction bytes with
    | nil => rfl
    | cons byte bytes ih =>
      have rest := ih fun other member => small other (List.mem_cons_of_mem _ member)
      rw [asciiText, List.map_cons, List.flatMap_cons, (ascii_character (small byte List.mem_cons_self)).2,
        ← asciiText, ← rest]
      rfl
  rw [congrArg decode encoded]
  exact decode_encoded _

/-- A byte with which a character begins. -/
def Lead (byte : UInt8) : Prop := byte.toNat < 0x80 ∨ 0xC2 ≤ byte.toNat ∧ byte.toNat < 0xF5

theorem Shaped.lead (shaped : Shaped (byte :: part)) : Lead byte := by
  cases shaped with
  | one ascii => exact .inl ascii
  | two low high second => exact .inr ⟨low, by omega⟩
  | three low high second third => exact .inr ⟨by omega, by omega⟩
  | four low high second third fourth => exact .inr ⟨by omega, high⟩

/-- Behind ASCII bytes a character begins. -/
theorem lead_pieces {byte : UInt8} {pieces : List (List UInt8)} (all : ∀ piece ∈ pieces, Shaped piece)
    (is : pieces.flatten = front ++ byte :: rest)
    (small : ∀ other ∈ front, other.toNat < 0x80) : Lead byte := by
  induction pieces generalizing front with
  | nil => simp at is
  | cons piece pieces ih =>
    have shaped := all piece List.mem_cons_self
    rw [List.flatten_cons] at is
    cases front with
    | nil =>
      obtain ⟨first, others, rfl⟩ := List.exists_cons_of_ne_nil shaped.ne_nil
      obtain ⟨rfl, -⟩ := List.cons.inj is
      exact shaped.lead
    | cons first front =>
      obtain ⟨same, is⟩ := shaped.unique (.one (small first List.mem_cons_self)) (show _ = _ ++ (front ++ byte :: rest) from is)
      exact ih (fun other member => all other (List.mem_cons_of_mem _ member)) is
        fun other member => small other (List.mem_cons_of_mem _ member)

theorem WellFormed.lead {byte : UInt8} (formed : WellFormed (front ++ byte :: rest))
    (small : ∀ other ∈ front, other.toNat < 0x80) : Lead byte := by
  obtain ⟨pieces, is, all⟩ := formed.parts
  exact lead_pieces (fun piece member => (all piece member).1) is.symm small

end Utf8
