import Conspire.Library.Rounding
import Mathlib.Data.List.Nodup

/-! JSON texts as lists of code units: the reader of the grammar (ECMA-404, as `JSON.parse` has it) and
the texts a writer that leaves no space makes of a tree. What is read in such a text is what the pieces
of the tree's strings stand for, and nothing if one of them stands for nothing. -/
namespace Json

def quote : Nat := 0x22
def backslash : Nat := 0x5c
def comma : Nat := 0x2c
def colon : Nat := 0x3a
def minus : Nat := 0x2d
def openBracket : Nat := 0x5b
def closeBracket : Nat := 0x5d
def openBrace : Nat := 0x7b
def closeBrace : Nat := 0x7d

/-- The code units of an ASCII string literal. -/
def units (literal : String) : List Nat := literal.toList.map Char.toNat

/-- A number as it is written: `± digits * 10 ^ exponent`. -/
structure Numeral where
  negative : Bool
  digits : Nat
  exponent : Int
  deriving DecidableEq, Repr

/-- The last binary place of a double. -/
def places : Nat := 1074

/-- The double nearest to a number, in units of the last place and without its sign. -/
def Numeral.double (numeral : Numeral) : Nat :=
  Rounding.roundQuotient (numeral.digits * 10 ^ numeral.exponent.toNat * 2 ^ places) (10 ^ (-numeral.exponent).toNat)

inductive Value where
  | null
  | bool (value : Bool)
  | number (numeral : Numeral)
  | text (units : List Nat)
  | array (items : List Value)
  | object (members : List (List Nat × Value))

/-- A member of an object; of members with one name the last one counts. -/
def Value.get (name : List Nat) : Value → Option Value
  | .object members => members.reverse.lookup name
  | _ => none

theorem Numeral.double_small (negative : Bool) (n : Nat) (small : n < 2 ^ Rounding.precision) :
    (⟨negative, n, 0⟩ : Numeral).double = n * 2 ^ places := by
  have exact := @Rounding.roundQuotient_exact 1 n places small Nat.one_pos
  rw [Nat.mul_one] at exact
  simpa only [Numeral.double, Int.toNat_zero, Nat.pow_zero, Nat.mul_one, Int.neg_zero] using exact

section Reader

def isSpace (unit : Nat) : Bool := unit = 0x20 || unit = 0x09 || unit = 0x0a || unit = 0x0d

def skip (s : List Nat) : List Nat := s.dropWhile isSpace

def hexValue (unit : Nat) : Option Nat :=
  if 0x30 ≤ unit ∧ unit ≤ 0x39 then some (unit - 0x30)
  else if 0x41 ≤ unit ∧ unit ≤ 0x46 then some (unit - 0x41 + 10)
  else if 0x61 ≤ unit ∧ unit ≤ 0x66 then some (unit - 0x61 + 10)
  else none

def hexUnit (a b c d : Nat) : Option Nat := do
  let a ← hexValue a
  let b ← hexValue b
  let c ← hexValue c
  let d ← hexValue d
  some (((a * 16 + b) * 16 + c) * 16 + d)

def letterEscape (letter : Nat) : Option Nat :=
  if letter = quote ∨ letter = backslash ∨ letter = 0x2f then some letter
  else if letter = 0x62 then some 0x08
  else if letter = 0x66 then some 0x0c
  else if letter = 0x6e then some 0x0a
  else if letter = 0x72 then some 0x0d
  else if letter = 0x74 then some 0x09
  else none

/-- The rest of a string, behind its first quote. -/
def readText : List Nat → Option (List Nat × List Nat)
  | [] => none
  | unit :: rest =>
    if unit = quote then some ([], rest)
    else if unit < 0x20 then none
    else if unit = backslash then
      match rest with
      | 0x75 :: a :: b :: c :: d :: rest => do
        let unit ← hexUnit a b c d
        let (units, rest) ← readText rest
        some (unit :: units, rest)
      | letter :: rest => do
        let unit ← letterEscape letter
        let (units, rest) ← readText rest
        some (unit :: units, rest)
      | [] => none
    else do
      let (units, rest) ← readText rest
      some (unit :: units, rest)

def isDigit (unit : Nat) : Bool := 0x30 ≤ unit && unit ≤ 0x39

def natural (run : List Nat) : Nat := run.foldl (fun n unit => 10 * n + (unit - 0x30)) 0

/-- A sign that may be left out. -/
def readSign : List Nat → Bool × List Nat
  | 0x2d :: rest => (true, rest)
  | 0x2b :: rest => (false, rest)
  | rest => (false, rest)

def readFraction (s : List Nat) : Option (List Nat × List Nat) :=
  match s with
  | 0x2e :: rest =>
    if rest.takeWhile isDigit = [] then none
    else some (rest.takeWhile isDigit, rest.dropWhile isDigit)
  | rest => some ([], rest)

def readExponent (s : List Nat) : Option (Int × List Nat) :=
  match s with
  | [] => some (0, [])
  | unit :: rest =>
    if unit = 0x65 ∨ unit = 0x45 then
      let (negative, rest) := readSign rest
      let run := rest.takeWhile isDigit
      if run = [] then none
      else some (if negative then -natural run else natural run, rest.dropWhile isDigit)
    else some (0, unit :: rest)

def readMagnitude (negative : Bool) (s : List Nat) : Option (Numeral × List Nat) :=
  let whole := s.takeWhile isDigit
  -- no zero before other digits
  if whole = [] ∨ whole.head? = some 0x30 ∧ whole ≠ [0x30] then none
  else do
    let (fraction, rest) ← readFraction (s.dropWhile isDigit)
    let (exponent, rest) ← readExponent rest
    some (⟨negative, natural (whole ++ fraction), exponent - fraction.length⟩, rest)

def readNumeral (s : List Nat) : Option (Numeral × List Nat) :=
  match s with
  | 0x2d :: rest => readMagnitude true rest
  | rest => readMagnitude false rest

/-- One of the three names, which begin differently. -/
def readName (s : List Nat) : Option (Value × List Nat) :=
  if (units "true").isPrefixOf s then some (.bool true, s.drop 4)
  else if (units "false").isPrefixOf s then some (.bool false, s.drop 5)
  else if (units "null").isPrefixOf s then some (.null, s.drop 4)
  else none

mutual

/-- A value and what is behind it. Every reading takes fewer steps than there are code units. -/
def readValue : (fuel : Nat) → List Nat → Option (Value × List Nat)
  | 0, _ => none
  | fuel + 1, s =>
    match skip s with
    | [] => none
    | unit :: rest =>
      if unit = quote then (readText rest).map fun (units, rest) => (.text units, rest)
      else if unit = openBracket then
        if (skip rest).head? = some closeBracket then some (.array [], (skip rest).tail)
        else (readItems fuel rest).map fun (items, rest) => (.array items, rest)
      else if unit = openBrace then
        if (skip rest).head? = some closeBrace then some (.object [], (skip rest).tail)
        else (readMembers fuel rest).map fun (members, rest) => (.object members, rest)
      else if unit = minus ∨ isDigit unit then
        (readNumeral (unit :: rest)).map fun (numeral, rest) => (.number numeral, rest)
      else readName (unit :: rest)

/-- The items of an array up to its end. -/
def readItems : (fuel : Nat) → List Nat → Option (List Value × List Nat)
  | 0, _ => none
  | fuel + 1, s => do
    let (item, rest) ← readValue fuel s
    match skip rest with
    | [] => none
    | unit :: rest =>
      if unit = closeBracket then some ([item], rest)
      else if unit = comma then do
        let (items, rest) ← readItems fuel rest
        some (item :: items, rest)
      else none

/-- The members of an object up to its end. -/
def readMembers : (fuel : Nat) → List Nat → Option (List (List Nat × Value) × List Nat)
  | 0, _ => none
  | fuel + 1, s =>
    match skip s with
    | [] => none
    | unit :: rest =>
      if unit = quote then do
        let (name, rest) ← readText rest
        if (skip rest).head? = some colon then do
          let (value, rest) ← readValue fuel (skip rest).tail
          match skip rest with
          | [] => none
          | unit :: rest =>
            if unit = closeBrace then some ([(name, value)], rest)
            else if unit = comma then do
              let (members, rest) ← readMembers fuel rest
              some ((name, value) :: members, rest)
            else none
        else none
      else none

end

/-- `JSON.parse`; `none` is the `SyntaxError`. -/
def parse (s : List Nat) : Option Value :=
  match readValue s.length s with
  | some (value, rest) => if skip rest = [] then some value else none
  | none => none

end Reader

section Spelling

/-- A piece of a string between its quotes: a code unit that neither ends the string nor escapes, or
an escape. -/
inductive Piece where
  | plain (unit : Nat) (inside : unit ≠ quote ∧ unit ≠ backslash)
  | letter (unit : Nat) (known : (letterEscape unit).isSome)
  | code (a b c d : Nat) (digits : (hexUnit a b c d).isSome)

def Piece.render : Piece → List Nat
  | .plain unit _ => [unit]
  | .letter unit _ => [backslash, unit]
  | .code a b c d _ => [backslash, 0x75, a, b, c, d]

/-- The code unit a piece stands for; a control character stands for none. -/
def Piece.unit : Piece → Option Nat
  | .plain unit _ => if unit < 0x20 then none else some unit
  | .letter unit _ => letterEscape unit
  | .code a b c d _ => hexUnit a b c d

/-- The pieces of a text, quoted. -/
def renderText (pieces : List Piece) : List Nat := quote :: pieces.flatMap Piece.render ++ [quote]

def digits (n : Nat) : List Nat := (Nat.toDigits 10 n).map Char.toNat

def decimal : Int → List Nat
  | .ofNat n => digits n
  | .negSucc n => minus :: digits (n + 1)

/-- A value as a writer spells it. -/
inductive Spelling where
  | null
  | bool (value : Bool)
  | integer (value : Int)
  | text (pieces : List Piece)
  | array (items : List Spelling)
  | object (members : List (List Piece × Spelling))

mutual

/-- The text without white space. -/
def Spelling.render : Spelling → List Nat
  | .null => units "null"
  | .bool value => if value then units "true" else units "false"
  | .integer value => decimal value
  | .text pieces => renderText pieces
  | .array items => openBracket :: renderItems items ++ [closeBracket]
  | .object members => openBrace :: renderMembers members ++ [closeBrace]

def renderItems : List Spelling → List Nat
  | [] => []
  | [item] => item.render
  | item :: next :: rest => item.render ++ comma :: renderItems (next :: rest)

def renderMembers : List (List Piece × Spelling) → List Nat
  | [] => []
  | [(name, value)] => renderText name ++ colon :: value.render
  | (name, value) :: next :: rest => renderText name ++ colon :: value.render ++ comma :: renderMembers (next :: rest)

end

mutual

/-- The value that is spelled, if every piece stands for a code unit. -/
def Spelling.meaning : Spelling → Option Value
  | .null => some .null
  | .bool value => some (.bool value)
  | .integer value => some (.number ⟨decide (value < 0), value.natAbs, 0⟩)
  | .text pieces => (pieces.mapM Piece.unit).map .text
  | .array items => (meaningItems items).map .array
  | .object members => (meaningMembers members).map .object

def meaningItems : List Spelling → Option (List Value)
  | [] => some []
  | item :: rest => do
    let item ← item.meaning
    let rest ← meaningItems rest
    some (item :: rest)

def meaningMembers : List (List Piece × Spelling) → Option (List (List Nat × Value))
  | [] => some []
  | (name, value) :: rest => do
    let name ← name.mapM Piece.unit
    let value ← value.meaning
    let rest ← meaningMembers rest
    some ((name, value) :: rest)

end

variable {rest : List Nat} {unit letter : Nat} {fuel : Nat}

theorem letterEscape_ne (known : (letterEscape letter).isSome) : letter ≠ 0x75 := by
  rintro rfl
  exact absurd known (by decide)

theorem readText_quote : readText (quote :: rest) = some ([], rest) := by
  rw [readText.eq_def]
  simp

theorem readText_plain (inside : unit ≠ quote ∧ unit ≠ backslash) :
    readText (unit :: rest) =
      if unit < 0x20 then none else (readText rest).map fun (units, rest) => (unit :: units, rest) := by
  rw [readText.eq_def]
  simp only [inside, ↓reduceIte]
  split
  · rfl
  · cases readText rest <;> rfl

theorem readText_letter (alone : letter ≠ 0x75) :
    readText (backslash :: letter :: rest) =
      (letterEscape letter).bind fun unit => (readText rest).map fun (units, rest) => (unit :: units, rest) := by
  rw [readText.eq_3 _ _ _ (fun _ _ _ _ _ is _ => alone is)]
  simp only [show backslash ≠ quote by decide, show ¬ backslash < 0x20 by decide, ↓reduceIte]
  cases letterEscape letter <;> cases readText rest <;> rfl

theorem readText_code :
    readText (backslash :: 0x75 :: a :: b :: c :: d :: rest) =
      (hexUnit a b c d).bind fun unit => (readText rest).map fun (units, rest) => (unit :: units, rest) := by
  rw [readText.eq_2]
  simp only [show backslash ≠ quote by decide, show ¬ backslash < 0x20 by decide, ↓reduceIte]
  cases hexUnit a b c d <;> cases readText rest <;> rfl

theorem readText_piece (piece : Piece) : readText (piece.render ++ rest) =
    piece.unit.bind fun unit => (readText rest).map fun (units, rest) => (unit :: units, rest) := by
  cases piece with
  | plain unit inside =>
    rw [Piece.render, List.singleton_append, readText_plain inside]
    by_cases control : unit < 0x20 <;> simp [Piece.unit, control]
  | letter unit known => exact readText_letter (letterEscape_ne known)
  | code a b c d digits => exact readText_code

/-- The pieces are read to the quote behind them. -/
theorem readText_pieces (pieces : List Piece) :
    readText (pieces.flatMap Piece.render ++ quote :: rest) = (pieces.mapM Piece.unit).map (·, rest) := by
  induction pieces with
  | nil => exact readText_quote
  | cons piece pieces ih =>
    rw [List.flatMap_cons, List.append_assoc, readText_piece, ih, List.mapM_cons]
    cases piece.unit <;> cases pieces.mapM Piece.unit <;> rfl

theorem isDigit_toNat {c : Char} (digit : c ∈ Nat.toDigits 10 n) : isDigit c.toNat = true := by
  have is := Nat.isDigit_of_mem_toDigits (by decide) (by decide) digit
  simp only [Char.isDigit, Bool.and_eq_true, decide_eq_true_eq, ge_iff_le, UInt32.le_iff_toNat_le] at is
  rw [isDigit, Bool.and_eq_true, decide_eq_true_eq, decide_eq_true_eq]
  exact is

theorem digits_all (n : Nat) : ∀ unit ∈ digits n, isDigit unit = true := by
  intro unit member
  obtain ⟨c, digit, rfl⟩ := List.mem_map.mp member
  exact isDigit_toNat digit

theorem digits_ne_nil (n : Nat) : digits n ≠ [] := by
  unfold digits
  simp [Nat.toDigits_ne_nil]

theorem decimal_length {value : Int} (count : Nat) (small : value.natAbs < 10 ^ count) (positive : 0 < count) :
    0 < (decimal value).length ∧ (decimal value).length ≤ count + 1 := by
  have digits : ∀ n, n < 10 ^ count → 0 < (digits n).length ∧ (digits n).length ≤ count := by
    intro n below
    refine ⟨List.length_pos_iff.mpr (digits_ne_nil n), ?_⟩
    rw [digits, List.length_map]
    exact (Nat.length_toDigits_le_iff (by decide) positive).mpr below
  cases value with
  | ofNat n =>
    obtain ⟨nonempty, short⟩ := digits n small
    exact ⟨nonempty, Nat.le_succ_of_le short⟩
  | negSucc n =>
    obtain ⟨-, short⟩ := digits (n + 1) small
    exact ⟨Nat.succ_pos _, Nat.succ_le_succ short⟩

theorem natural_digits (n : Nat) : natural (digits n) = n := by
  have chars := Nat.ofDigitChars_ten_toDigits (n := n)
  rw [Nat.ofDigitChars_eq_foldl] at chars
  rw [natural, digits, List.foldl_map]
  exact chars

/-- Only zero is written with a zero in front. -/
theorem digits_zero (n : Nat) : (digits n).head? = some 0x30 → digits n = [0x30] := by
  induction n using Nat.strongRecOn with
  | ind n ih =>
    intro first
    by_cases small : n < 10
    · have is : digits n = [n.digitChar.toNat] := by rw [digits, Nat.toDigits_of_lt_base small]; rfl
      rw [is] at first ⊢
      simpa using first
    · have is : digits n = digits (n / 10) ++ [(n % 10).digitChar.toNat] := by
        rw [digits, Nat.toDigits_of_base_le (by decide) (Nat.le_of_not_lt small), List.map_append]
        rfl
      have nonempty := digits_ne_nil (n / 10)
      rw [is, List.head?_append_of_ne_nil _ nonempty] at first
      have zero := natural_digits (n / 10)
      rw [ih (n / 10) (by omega) first] at zero
      simp only [natural, List.foldl_cons, List.foldl_nil] at zero
      omega

/-- What stands behind a number in a text. -/
def Ends (rest : List Nat) : Prop :=
  ∀ unit ∈ rest.head?, isDigit unit = false ∧ unit ≠ 0x2e ∧ unit ≠ 0x65 ∧ unit ≠ 0x45

theorem Ends.nil : Ends [] := by simp [Ends]

theorem Ends.cons (is : unit = comma ∨ unit = closeBracket ∨ unit = closeBrace) : Ends (unit :: rest) := by
  intro first here
  cases here
  rcases is with rfl | rfl | rfl <;> decide

theorem Ends.run (ends : Ends rest) (n : Nat) :
    (digits n ++ rest).takeWhile isDigit = digits n ∧ (digits n ++ rest).dropWhile isDigit = rest := by
  rw [List.takeWhile_append_of_pos (digits_all n), List.dropWhile_append_of_pos (digits_all n)]
  cases rest with
  | nil => exact ⟨List.append_nil _, rfl⟩
  | cons unit rest =>
    have other := (ends unit rfl).1
    rw [List.takeWhile_cons_of_neg (by simp [other]), List.dropWhile_cons_of_neg (by simp [other])]
    exact ⟨List.append_nil _, rfl⟩

theorem Ends.fraction (ends : Ends rest) : readFraction rest = some ([], rest) := by
  cases rest with
  | nil => rfl
  | cons unit rest =>
    have other := (ends unit rfl).2.1
    unfold readFraction
    split
    · rename_i is
      exact absurd (List.cons.inj is).1 other
    · rfl

theorem Ends.exponent (ends : Ends rest) : readExponent rest = some (0, rest) := by
  cases rest with
  | nil => rfl
  | cons unit rest =>
    obtain ⟨-, -, small, large⟩ := ends unit rfl
    simp only [readExponent, small, large, or_self, if_false]

theorem readMagnitude_digits (negative : Bool) (n : Nat) (ends : Ends rest) :
    readMagnitude negative (digits n ++ rest) = some (⟨negative, n, 0⟩, rest) := by
  obtain ⟨taken, dropped⟩ := ends.run n
  have shape : ¬ (digits n = [] ∨ (digits n).head? = some 0x30 ∧ digits n ≠ [0x30]) := by
    rintro (empty | ⟨zero, more⟩)
    · exact digits_ne_nil n empty
    · exact more (digits_zero n zero)
  simp only [readMagnitude, taken, dropped, if_neg shape, ends.fraction, ends.exponent, Option.bind_eq_bind,
    Option.bind_some, List.append_nil, natural_digits, List.length_nil]
  rfl

theorem readNumeral_decimal (value : Int) (ends : Ends rest) :
    readNumeral (decimal value ++ rest) = some (⟨decide (value < 0), value.natAbs, 0⟩, rest) := by
  cases value with
  | negSucc n =>
    have sign : decide (Int.negSucc n < 0) = true := by simp [Int.negSucc_lt_zero]
    rw [sign]
    exact readMagnitude_digits true (n + 1) ends
  | ofNat n =>
    have unsigned : readNumeral (digits n ++ rest) = readMagnitude false (digits n ++ rest) := by
      unfold readNumeral
      split
      · rename_i is
        obtain ⟨first, others, here⟩ := List.exists_cons_of_ne_nil (digits_ne_nil n)
        have digit := digits_all n first (by rw [here]; exact List.mem_cons_self)
        rw [here, List.cons_append] at is
        rw [(List.cons.inj is).1] at digit
        exact absurd digit (by decide)
      · rfl
    have sign : decide (Int.ofNat n < 0) = false := by simp
    rw [sign]
    exact unsigned.trans (readMagnitude_digits false n ends)

theorem isSpace_false (visible : 0x20 < unit) : isSpace unit = false := by
  simp only [isSpace, Bool.or_eq_false_iff, decide_eq_false_iff_not]
  omega

theorem skip_cons (visible : 0x20 < unit) : skip (unit :: rest) = unit :: rest := by
  simp [skip, isSpace_false visible]

theorem decimal_head (value : Int) :
    ∃ first others, decimal value = first :: others ∧ (first = minus ∨ isDigit first = true) := by
  cases value with
  | negSucc n => exact ⟨_, _, rfl, .inl rfl⟩
  | ofNat n =>
    obtain ⟨first, others, is⟩ := List.exists_cons_of_ne_nil (digits_ne_nil n)
    exact ⟨first, others, is, .inr (digits_all n first (is ▸ List.mem_cons_self))⟩

/-- The code units with which no number begins. -/
theorem not_number (unit : Nat) (numeric : unit = minus ∨ isDigit unit = true) :
    0x20 < unit ∧ unit ≠ quote ∧ unit ≠ openBracket ∧ unit ≠ openBrace ∧ unit ≠ closeBracket := by
  rcases numeric with rfl | digit
  · decide
  · simp only [isDigit, Bool.and_eq_true, decide_eq_true_eq] at digit
    simp only [quote, openBracket, openBrace, closeBracket]
    omega

theorem Spelling.head (t : Spelling) :
    ∃ first others, t.render = first :: others ∧ 0x20 < first ∧ first ≠ closeBracket := by
  cases t with
  | null => exact ⟨_, _, rfl, by decide, by decide⟩
  | bool value => cases value <;> exact ⟨_, _, rfl, by decide, by decide⟩
  | integer value =>
    obtain ⟨first, others, is, numeric⟩ := decimal_head value
    obtain ⟨visible, -, -, -, unclosed⟩ := not_number first numeric
    exact ⟨first, others, is, visible, unclosed⟩
  | text pieces => exact ⟨_, _, rfl, by decide, by decide⟩
  | array items => exact ⟨_, _, rfl, by decide, by decide⟩
  | object members => exact ⟨_, _, rfl, by decide, by decide⟩

theorem readValue_cons (visible : 0x20 < unit) : readValue (fuel + 1) (unit :: rest) =
    if unit = quote then (readText rest).map fun (units, rest) => (.text units, rest)
    else if unit = openBracket then
      if (skip rest).head? = some closeBracket then some (.array [], (skip rest).tail)
      else (readItems fuel rest).map fun (items, rest) => (.array items, rest)
    else if unit = openBrace then
      if (skip rest).head? = some closeBrace then some (.object [], (skip rest).tail)
      else (readMembers fuel rest).map fun (members, rest) => (.object members, rest)
    else if unit = minus ∨ isDigit unit then
      (readNumeral (unit :: rest)).map fun (numeral, rest) => (.number numeral, rest)
    else readName (unit :: rest) := by
  rw [readValue, skip_cons visible]

theorem readValue_name (name : List Nat) (is : name = units "null" ∨ name = units "true" ∨ name = units "false") :
    readValue (fuel + 1) (name ++ rest) = readName (name ++ rest) := by
  rcases is with rfl | rfl | rfl <;> exact readValue_cons (by decide)

theorem readValue_integer (value : Int) (ends : Ends rest) : readValue (fuel + 1) (decimal value ++ rest) =
    some (.number ⟨decide (value < 0), value.natAbs, 0⟩, rest) := by
  have read := readNumeral_decimal value ends
  obtain ⟨first, others, is, numeric⟩ := decimal_head value
  obtain ⟨visible, notQuote, notBracket, notBrace, -⟩ := not_number first numeric
  rw [is, List.cons_append] at read ⊢
  rw [readValue_cons visible, if_neg notQuote, if_neg notBracket, if_neg notBrace, if_pos numeric, read]
  rfl

theorem readItems_last {s : List Nat} {item : Option Value}
    (read : readValue fuel s = item.map (·, closeBracket :: rest)) :
    readItems (fuel + 1) s = item.map fun item => ([item], rest) := by
  rw [readItems, read]
  cases item <;> simp [skip_cons (show 0x20 < closeBracket by decide)]

theorem readItems_next {s : List Nat} {item : Option Value}
    (read : readValue fuel s = item.map (·, comma :: rest)) :
    readItems (fuel + 1) s =
      item.bind fun item => (readItems fuel rest).map fun (items, rest) => (item :: items, rest) := by
  rw [readItems, read]
  cases item with
  | none => rfl
  | some item =>
    simp only [Option.map_some, Option.bind_eq_bind, Option.bind_some, skip_cons (show 0x20 < comma by decide),
      show comma ≠ closeBracket by decide, ↓reduceIte]
    cases readItems fuel rest <;> rfl

/-- A member is read to the code unit behind it. -/
theorem readMembers_value {s : List Nat} {name : List Piece} {value : Option Value}
    (read : readValue fuel s = value.map (·, unit :: rest)) (visible : 0x20 < unit) :
    readMembers (fuel + 1) (renderText name ++ colon :: s) =
      (name.mapM Piece.unit).bind fun name => value.bind fun value =>
        if unit = closeBrace then some ([(name, value)], rest)
        else if unit = comma then
          (readMembers fuel rest).map fun (members, rest) => ((name, value) :: members, rest)
        else none := by
  have whole : renderText name ++ colon :: s = quote :: (name.flatMap Piece.render ++ quote :: colon :: s) := by
    simp [renderText]
  rw [readMembers, whole, skip_cons (show 0x20 < quote by decide)]
  simp only [↓reduceIte, readText_pieces]
  cases name.mapM Piece.unit with
  | none => rfl
  | some name =>
    simp only [Option.map_some, Option.bind_eq_bind, Option.bind_some, skip_cons (show 0x20 < colon by decide),
      List.head?_cons, List.tail_cons, ↓reduceIte, read]
    cases value with
    | none => rfl
    | some value =>
      simp only [Option.map_some, Option.bind_some, skip_cons visible]
      split
      · rfl
      · split
        · cases readMembers fuel rest <;> rfl
        · rfl

theorem renderItems_head (item : Spelling) (items : List Spelling) :
    ∃ first others, renderItems (item :: items) = first :: others ∧ 0x20 < first ∧ first ≠ closeBracket := by
  obtain ⟨first, others, is, visible, unclosed⟩ := item.head
  cases items with
  | nil => exact ⟨first, others, is, visible, unclosed⟩
  | cons next items =>
    refine ⟨first, others ++ comma :: renderItems (next :: items), ?_, visible, unclosed⟩
    rw [renderItems, is, List.cons_append]

theorem renderMembers_head (member : List Piece × Spelling) (members : List (List Piece × Spelling)) :
    ∃ others, renderMembers (member :: members) = quote :: others := by
  obtain ⟨name, value⟩ := member
  cases members with
  | nil => exact ⟨_, rfl⟩
  | cons next members => exact ⟨_, rfl⟩

theorem meaningItems_cons (item : Spelling) (items : List Spelling) :
    meaningItems (item :: items) = item.meaning.bind fun item => (meaningItems items).map (item :: ·) := by
  rw [meaningItems]
  cases item.meaning <;> cases meaningItems items <;> rfl

theorem meaningMembers_cons (name : List Piece) (value : Spelling) (members : List (List Piece × Spelling)) :
    meaningMembers ((name, value) :: members) = (name.mapM Piece.unit).bind fun name =>
      value.meaning.bind fun value => (meaningMembers members).map ((name, value) :: ·) := by
  rw [meaningMembers]
  cases name.mapM Piece.unit <;> cases value.meaning <;> cases meaningMembers members <;> rfl

theorem meaningItems_nil : meaningItems [] = some [] := by rw [meaningItems]

theorem meaningMembers_nil : meaningMembers [] = some [] := by rw [meaningMembers]

theorem readValue_items (visible : 0x20 < unit) (unclosed : unit ≠ closeBracket) :
    readValue (fuel + 1) (openBracket :: unit :: rest) =
      (readItems fuel (unit :: rest)).map fun (items, rest) => (.array items, rest) := by
  rw [readValue_cons (by decide), if_neg (by decide), if_pos rfl, skip_cons visible, if_neg (by simpa using unclosed)]

theorem readValue_members : readValue (fuel + 1) (openBrace :: quote :: rest) =
    (readMembers fuel (quote :: rest)).map fun (members, rest) => (.object members, rest) := by
  rw [readValue_cons (by decide), if_neg (by decide), if_neg (by decide), if_pos rfl, skip_cons (by decide),
    if_neg (by simp [quote, closeBrace])]

mutual

/-- Every spelled value is read to its end, with the meaning it has. -/
theorem readValue_render (t : Spelling) (fuel : Nat) (enough : t.render.length ≤ fuel) (rest : List Nat)
    (ends : Ends rest) : readValue fuel (t.render ++ rest) = t.meaning.map (·, rest) := by
  cases fuel with
  | zero =>
    obtain ⟨first, others, is, -⟩ := t.head
    rw [is] at enough
    exact absurd enough (Nat.not_succ_le_zero _)
  | succ fuel =>
    match t with
    | .null => exact readValue_name _ (.inl rfl)
    | .bool true => exact readValue_name _ (.inr (.inl rfl))
    | .bool false => exact readValue_name _ (.inr (.inr rfl))
    | .integer value => exact readValue_integer value ends
    | .text pieces =>
      rw [Spelling.render, renderText, List.append_assoc, List.cons_append, List.singleton_append,
        readValue_cons (by decide), if_pos rfl, readText_pieces, Spelling.meaning]
      cases pieces.mapM Piece.unit <;> rfl
    | .array [] => exact readValue_cons (by decide)
    | .object [] => exact readValue_cons (by decide)
    | .array (item :: items) =>
      have shorter : (renderItems (item :: items)).length < fuel := by
        simp only [Spelling.render, List.length_append, List.length_cons] at enough
        omega
      have read := readItems_render (item :: items) (List.cons_ne_nil _ _) fuel shorter rest
      obtain ⟨first, others, is, visible, unclosed⟩ := renderItems_head item items
      have whole : (Spelling.array (item :: items)).render ++ rest =
          openBracket :: (renderItems (item :: items) ++ closeBracket :: rest) := by
        simp [Spelling.render]
      rw [whole]
      rw [is, List.cons_append] at read ⊢
      rw [readValue_items visible unclosed, read, Spelling.meaning]
      cases meaningItems (item :: items) <;> rfl
    | .object (member :: members) =>
      have shorter : (renderMembers (member :: members)).length < fuel := by
        simp only [Spelling.render, List.length_append, List.length_cons] at enough
        omega
      have read := readMembers_render (member :: members) (List.cons_ne_nil _ _) fuel shorter rest
      obtain ⟨others, is⟩ := renderMembers_head member members
      have whole : (Spelling.object (member :: members)).render ++ rest =
          openBrace :: (renderMembers (member :: members) ++ closeBrace :: rest) := by
        simp [Spelling.render]
      rw [whole]
      rw [is, List.cons_append] at read ⊢
      rw [readValue_members, read, Spelling.meaning]
      cases meaningMembers (member :: members) <;> rfl

theorem readItems_render (items : List Spelling) (nonempty : items ≠ []) (fuel : Nat)
    (enough : (renderItems items).length < fuel) (rest : List Nat) :
    readItems fuel (renderItems items ++ closeBracket :: rest) = (meaningItems items).map (·, rest) := by
  cases fuel with
  | zero => exact absurd enough (Nat.not_lt_zero _)
  | succ fuel =>
    match items with
    | [] => exact absurd rfl nonempty
    | [item] =>
      have read := readValue_render item fuel (Nat.le_of_lt_succ enough) (closeBracket :: rest) (.cons (by simp))
      rw [renderItems, readItems_last read, meaningItems_cons, meaningItems]
      cases item.meaning <;> rfl
    | item :: next :: items =>
      simp only [renderItems, List.length_append, List.length_cons] at enough
      have read := readValue_render item fuel (by omega)
        (comma :: (renderItems (next :: items) ++ closeBracket :: rest))
        (.cons (by simp))
      have others := readItems_render (next :: items) (List.cons_ne_nil _ _) fuel (by omega) rest
      rw [renderItems, List.append_assoc, List.cons_append, readItems_next read, others, meaningItems_cons item]
      cases item.meaning <;> cases meaningItems (next :: items) <;> rfl

theorem readMembers_render (members : List (List Piece × Spelling)) (nonempty : members ≠ []) (fuel : Nat)
    (enough : (renderMembers members).length < fuel) (rest : List Nat) :
    readMembers fuel (renderMembers members ++ closeBrace :: rest) = (meaningMembers members).map (·, rest) := by
  cases fuel with
  | zero => exact absurd enough (Nat.not_lt_zero _)
  | succ fuel =>
    match members with
    | [] => exact absurd rfl nonempty
    | [(name, value)] =>
      simp only [renderMembers, List.length_append, List.length_cons] at enough
      have read := readValue_render value fuel (by omega) (closeBrace :: rest) (.cons (by simp))
      rw [renderMembers, List.append_assoc, List.cons_append, readMembers_value read (by decide), meaningMembers_cons,
        meaningMembers]
      cases name.mapM Piece.unit <;> cases value.meaning <;> rfl
    | (name, value) :: next :: members =>
      simp only [renderMembers, List.length_append, List.length_cons] at enough
      have read := readValue_render value fuel (by omega)
        (comma :: (renderMembers (next :: members) ++ closeBrace :: rest)) (.cons (by simp))
      have others := readMembers_render (next :: members) (List.cons_ne_nil _ _) fuel (by omega) rest
      have whole : renderMembers ((name, value) :: next :: members) ++ closeBrace :: rest = renderText name ++
          colon :: (value.render ++ comma :: (renderMembers (next :: members) ++ closeBrace :: rest)) := by
        simp [renderMembers]
      rw [whole, readMembers_value read (by decide), meaningMembers_cons name]
      simp only [show comma ≠ closeBrace by decide, ↓reduceIte, others]
      cases name.mapM Piece.unit <;> cases value.meaning <;> cases meaningMembers (next :: members) <;> rfl

end

theorem mapM_unit_isSome (pieces : List Piece) :
    (pieces.mapM Piece.unit).isSome = pieces.all (·.unit.isSome) := by
  induction pieces with
  | nil => rfl
  | cons piece pieces ih =>
    rw [List.mapM_cons, List.all_cons, ← ih]
    cases piece.unit <;> cases pieces.mapM Piece.unit <;> rfl

theorem meaningItems_isSome (item : Spelling) (items : List Spelling) :
    (meaningItems (item :: items)).isSome = (item.meaning.isSome && (meaningItems items).isSome) := by
  rw [meaningItems_cons item]
  cases item.meaning <;> cases meaningItems items <;> rfl

theorem meaningMembers_isSome (name : List Piece) (value : Spelling) (members : List (List Piece × Spelling)) :
    (meaningMembers ((name, value) :: members)).isSome =
      (name.all (·.unit.isSome) && value.meaning.isSome && (meaningMembers members).isSome) := by
  rw [meaningMembers_cons name, ← mapM_unit_isSome]
  cases name.mapM Piece.unit <;> cases value.meaning <;> cases meaningMembers members <;> rfl

theorem decimal_ascii (value : Int) : ∀ unit ∈ decimal value, unit < 0x80 := by
  have small : ∀ n, ∀ unit ∈ digits n, unit < 0x80 := by
    intro n unit member
    have digit := digits_all n unit member
    simp only [isDigit, Bool.and_eq_true, decide_eq_true_eq] at digit
    omega
  intro unit member
  cases value with
  | ofNat n => exact small n unit member
  | negSucc n =>
    rcases List.mem_cons.mp member with rfl | digit
    · decide
    · exact small (n + 1) unit digit

/-- Members of different names are found by them. -/
theorem get_of_nodup {members : List (List Nat × Value)} {name : List Nat} {value : Value}
    (distinct : (members.map Prod.fst).Nodup) (member : (name, value) ∈ members) :
    (Value.object members).get name = some value := by
  have reversed : (members.reverse.map Prod.fst).Nodup := by
    rw [List.map_reverse, List.nodup_reverse]
    exact distinct
  obtain ⟨before, after, is⟩ := List.append_of_mem (List.mem_reverse.mpr member)
  rw [is, List.map_append, List.map_cons, List.nodup_append] at reversed
  rw [Value.get, is, List.lookup_eq_some_iff]
  refine ⟨before, after, rfl, fun other earlier => ?_⟩
  have different := reversed.2.2 other.1 (List.mem_map_of_mem earlier) name List.mem_cons_self
  simpa using Ne.symm different

/-- What `JSON.parse` makes of a text without white space. -/
theorem parse_render (t : Spelling) : parse t.render = t.meaning := by
  have read := readValue_render t t.render.length (Nat.le_refl _) [] .nil
  rw [List.append_nil] at read
  rw [parse, read]
  cases t.meaning <;> rfl

end Spelling

end Json
