import Conspire.Frames.Acknowledged

/-! What a text is when it arrives. The browser spells it in JSON, the server takes the escapes out, the
writer of the server puts others in, and the other browsers read these. -/
namespace Conspire.Frames
open Session Browser
open Json (Piece)

section Codes

/-- The bytes that the server keeps for a code. -/
def codeBytes (code : Nat) : Bytes := (decodeUtf8Char code).map UInt8.ofNat

/-- The code units of a code in a string of the browser. -/
def codeUnits (code : Nat) : List Nat :=
  if code < 0x10000 then [code] else [0xD800 + (code - 0x10000) / 1024, 0xDC00 + (code - 0x10000) % 1024]

/-- What JSON makes of a string that the server writes. -/
def spelledUnits (data : Bytes) : Option (List Nat) := (pieces data).mapM Piece.unit

theorem chunkPieces_ascii : ∀ code < 0x80, (chunkPieces [UInt8.ofNat code]).mapM Piece.unit = some [code] := by
  decide +kernel

theorem codePieces_units (small : code < 0x110000) : (codePieces code).mapM Piece.unit = some (codeUnits code) := by
  unfold codePieces codeUnits
  by_cases basic : code < 0x10000
  · rw [if_pos basic, if_pos basic, List.mapM_cons, codePiece_unit, Nat.mod_eq_of_lt basic]
    rfl
  · rw [if_neg basic, if_neg basic, if_pos (by omega), List.mapM_cons, List.mapM_cons, codePiece_unit, codePiece_unit]
    have high : (codeToUtf16SurrogatePair code).1 % 0x10000 = 0xD800 + (code - 0x10000) / 1024 := by
      simp only [codeToUtf16SurrogatePair]
      omega
    have low : (codeToUtf16SurrogatePair code).2 % 0x10000 = 0xDC00 + (code - 0x10000) % 1024 := by
      simp only [codeToUtf16SurrogatePair]
      omega
    rw [high, low]
    rfl

theorem chunkPieces_long {a : UInt8} {tails : Bytes} (large : 0x80 ≤ a.toNat)
    (length : getUtf8CharSequenceLength a = tails.length + 1) :
    chunkPieces (a :: tails) = codePieces (encodeUtf8Char (a :: tails)) := by
  have control : ¬ a < 32 := by simp [UInt8.lt_iff_toNat_lt]; omega
  have ascii : ¬ a < 128 := by simp [UInt8.lt_iff_toNat_lt]; omega
  simp [chunkPieces, control, ascii, length]

theorem sequenceLength_lead : ∀ n < 256,
    (n < 0x80 → getUtf8CharSequenceLength (UInt8.ofNat n) = 1) ∧
      (0xC0 ≤ n → n < 0xE0 → getUtf8CharSequenceLength (UInt8.ofNat n) = 2) ∧
      (0xE0 ≤ n → n < 0xF0 → getUtf8CharSequenceLength (UInt8.ofNat n) = 3) ∧
      (0xF0 ≤ n → n < 0xF8 → getUtf8CharSequenceLength (UInt8.ofNat n) = 4) := by
  decide +kernel

/-- The bytes of a code are one part of a string. -/
theorem codeBytes_chunk (small : code < 0x110000) : ∃ a tails, codeBytes code = a :: tails ∧
    getUtf8CharSequenceLength a = tails.length + 1 ∧
    (chunkPieces (codeBytes code)).mapM Piece.unit = some (codeUnits code) := by
  unfold codeBytes decodeUtf8Char
  by_cases one : code < 0x80
  · rw [if_pos one, codeUnits, if_pos (by omega)]
    exact ⟨_, _, rfl, (sequenceLength_lead code (by omega)).1 one, chunkPieces_ascii code one⟩
  · by_cases two : code < 0x800
    · rw [if_neg one, if_pos two]
      have length := (sequenceLength_lead (0xC0 + code / 64 % 32) (by omega)).2.1 (by omega) (by omega)
      refine ⟨_, _, rfl, length, ?_⟩
      rw [← codePieces_units small]
      refine congrArg _ ((chunkPieces_long (by simp; omega) length).trans (congrArg codePieces ?_))
      simp only [encodeUtf8Char, List.map_cons, List.map_nil, UInt8.toNat_ofNat']
      omega
    · by_cases three : code < 0x10000
      · rw [if_neg one, if_neg two, if_pos three]
        have length := (sequenceLength_lead (0xE0 + code / 4096 % 16) (by omega)).2.2.1 (by omega) (by omega)
        refine ⟨_, _, rfl, length, ?_⟩
        rw [← codePieces_units small]
        refine congrArg _ ((chunkPieces_long (by simp; omega) length).trans (congrArg codePieces ?_))
        simp only [encodeUtf8Char, List.map_cons, List.map_nil, UInt8.toNat_ofNat']
        omega
      · rw [if_neg one, if_neg two, if_neg three, if_pos (by omega)]
        have length := (sequenceLength_lead (0xF0 + code / 262144 % 8) (by omega)).2.2.2 (by omega) (by omega)
        refine ⟨_, _, rfl, length, ?_⟩
        rw [← codePieces_units small]
        refine congrArg _ ((chunkPieces_long (by simp; omega) length).trans (congrArg codePieces ?_))
        simp only [encodeUtf8Char, List.map_cons, List.map_nil, UInt8.toNat_ofNat']
        omega

/-- It is spelled as its code units. -/
theorem spelledUnits_code (small : code < 0x110000) (rest : Bytes) :
    spelledUnits (codeBytes code ++ rest) = (spelledUnits rest).map (codeUnits code ++ ·) := by
  obtain ⟨a, tails, is, length, units⟩ := codeBytes_chunk small
  have taken : (tails ++ rest).take (getUtf8CharSequenceLength a - 1) = tails := by
    rw [length, Nat.add_sub_cancel]
    exact List.take_left
  have dropped : (tails ++ rest).drop (getUtf8CharSequenceLength a - 1) = rest := by
    rw [length, Nat.add_sub_cancel]
    exact List.drop_left
  rw [is] at units
  rw [spelledUnits, pieces, is, List.cons_append, chunks_cons, taken, dropped, List.flatMap_cons, List.mapM_append,
    units, ← pieces, ← spelledUnits]
  cases spelledUnits rest <;> rfl

theorem char_small (c : Char) : c.toNat < 0x110000 := by
  have scalar : c.val.toNat < 0xD800 ∨ 0xDFFF < c.val.toNat ∧ c.val.toNat < 0x110000 := c.valid
  rw [Char.toNat]
  omega

theorem codeBytes_char (c : Char) : codeBytes c.toNat = String.utf8EncodeChar c := by
  have small := char_small c
  obtain ⟨code, is⟩ : ∃ code, c.val.toNat = code := ⟨_, rfl⟩
  have value : c.toNat = code := is
  rw [value] at small
  rw [String.utf8EncodeChar, is, value, codeBytes, decodeUtf8Char]
  by_cases one : code < 0x80
  · rw [if_pos one, if_pos (by omega)]
    rfl
  · by_cases two : code < 0x800
    · rw [if_neg one, if_pos two, if_neg (by omega), if_pos (by omega)]
      simp only [List.map_cons, List.map_nil, Nat.add_comm]
    · by_cases three : code < 0x10000
      · rw [if_neg one, if_neg two, if_pos three, if_neg (by omega), if_neg (by omega), if_pos (by omega)]
        simp only [List.map_cons, List.map_nil, Nat.add_comm]
      · rw [if_neg one, if_neg two, if_neg three, if_pos (by omega), if_neg (by omega), if_neg (by omega),
          if_neg (by omega)]
        simp only [List.map_cons, List.map_nil, Nat.add_comm]

theorem spelledUnits_nil : spelledUnits [] = some [] := by
  rw [spelledUnits, pieces, chunks]
  rfl

end Codes

section Escapes
variable {unit a b c d code : Nat} {rest : List Nat}

theorem unescapeString_unit (other : unit ≠ Json.backslash) :
    unescapeString (unit :: rest) = (unescapeString rest).map (unit :: ·) := by
  rw [unescapeString.eq_def]
  simp only [other, if_false]

theorem unescapeString_letter {letter character : Nat} (known : Json.letterEscape letter = some character) :
    unescapeString (Json.backslash :: letter :: rest) = (unescapeString rest).map (character :: ·) := by
  have alone := Json.letterEscape_ne (Option.isSome_iff_exists.mpr ⟨_, known⟩)
  rw [unescapeString.eq_def]
  simp only [if_true]
  split
  · rename_i same
    exact absurd (List.cons.inj same).1 alone
  · rename_i same
    exact absurd (List.cons.inj same).1 alone
  · rename_i same
    exact absurd (List.cons.inj same).1 alone
  · rename_i same
    cases same
    rw [escapedLetter, known]
    cases unescapeString rest <;> rfl
  · rename_i same
    cases same

theorem readHex_four (a b c d : Nat) : readHex [a, b, c, d] = Json.hexUnit a b c d := by
  simp only [readHex, List.mapM_cons, List.mapM_nil, Json.hexUnit]
  cases Json.hexValue a with
  | none => rfl
  | some a =>
    cases Json.hexValue b with
    | none => rfl
    | some b =>
      cases Json.hexValue c with
      | none => rfl
      | some c =>
        cases Json.hexValue d with
        | none => rfl
        | some d =>
          have same : 16 * (16 * (16 * (16 * 0 + a) + b) + c) + d = ((a * 16 + b) * 16 + c) * 16 + d := by omega
          exact congrArg some same

/-- An escape of four digits that is no first half of a pair. -/
theorem unescapeString_code (digits : Json.hexUnit a b c d = some code) (single : ¬ (0xD800 ≤ code ∧ code ≤ 0xDBFF)) :
    unescapeString (Json.backslash :: 0x75 :: a :: b :: c :: d :: rest) =
      (unescapeString rest).map (decodeUtf8Char code ++ ·) := by
  have digit : a ≠ 0x2b := by
    rintro rfl
    simp [Json.hexUnit, Json.hexValue] at digits
  rw [unescapeString.eq_def]
  simp only [if_true]
  split
  · rename_i same
    exact absurd (List.cons.inj (List.cons.inj same).2).1 digit
  · rename_i same
    exact absurd (List.cons.inj (List.cons.inj same).2).1 digit
  · rename_i same
    cases same
    rw [readHex_four, digits]
    simp only [Option.bind_eq_bind, Option.bind_some, if_neg single]
    cases unescapeString rest <;> rfl
  · rename_i others same
    cases same
    exact (others a b c d rest rfl rfl).elim
  · rename_i same
    cases same

/-- A first half takes the next six for the second. -/
theorem unescapeString_half {units : List Nat} (digits : Json.hexUnit a b c d = some code)
    (half : 0xD800 ≤ code ∧ code ≤ 0xDBFF)
    (is : unescapeString (Json.backslash :: 0x75 :: a :: b :: c :: d :: rest) = some units) :
    ∃ low others, 0xDC00 ≤ low ∧ low ≤ 0xDFFF ∧
    units = decodeUtf8Char (utf16SurrogatePairToCode code low) ++ others := by
  have digit : a ≠ 0x2b := by
    rintro rfl
    simp [Json.hexUnit, Json.hexValue] at digits
  rw [unescapeString.eq_def] at is
  simp only [if_true] at is
  split at is
  · rename_i same
    exact absurd (List.cons.inj (List.cons.inj same).2).1 digit
  · rename_i same
    exact absurd (List.cons.inj (List.cons.inj same).2).1 digit
  · rename_i same
    cases same
    rw [readHex_four, digits] at is
    simp only [Option.bind_eq_bind, Option.bind_some, if_pos half] at is
    split at is
    · obtain ⟨low, -, is⟩ := Option.bind_eq_some_iff.mp is
      split at is
      · rename_i second
        obtain ⟨others, -, is⟩ := Option.bind_eq_some_iff.mp is
        exact ⟨low, others, second.1, second.2, (Option.some.inj is).symm⟩
      · contradiction
    · contradiction
  · rename_i others same
    cases same
    exact (others a b c d rest rfl rfl).elim
  · rename_i same
    cases same

theorem unescapeString_bytes {bytes : Bytes}
    (inside : ∀ byte ∈ bytes, byte.toNat ≠ Json.quote ∧ byte.toNat ≠ Json.backslash) :
    unescapeString ((plainPieces bytes).flatMap Piece.render ++ rest) =
      (unescapeString rest).map (bytes.map UInt8.toNat ++ ·) := by
  rw [plain_render inside]
  induction bytes with
  | nil => simp
  | cons byte bytes ih =>
    obtain ⟨first, others⟩ := List.forall_mem_cons.mp inside
    rw [List.map_cons, List.cons_append, unescapeString_unit first.2, ih others, Option.map_map]
    rfl

end Escapes

section Typing

/-- The codes of a text: two halves of a pair make one. -/
def codePoints : JsString → List Nat
  | [] => []
  | [unit] => [unit.toNat]
  | high :: low :: rest =>
    if isHighSurrogate high && isLowSurrogate low then
      ((high.toNat - 0xD800) * 1024 + (low.toNat - 0xDC00) + 0x10000) :: codePoints rest
    else high.toNat :: codePoints (low :: rest)

/-- No first half of a pair is without the second. -/
def Paired : JsString → Prop
  | [] => True
  | [unit] => isHighSurrogate unit = false
  | high :: low :: rest =>
    if isHighSurrogate high && isLowSurrogate low then Paired rest else isHighSurrogate high = false ∧
      Paired (low :: rest)

theorem codePoints_units (text : JsString) : (codePoints text).flatMap codeUnits = text.map UInt16.toNat := by
  induction text using codePoints.induct with
  | case1 => rfl
  | case2 unit =>
    have basic := unit.toNat_lt
    rw [codePoints, List.flatMap_cons, codeUnits, if_pos basic]
    rfl
  | case3 high low rest pair ih =>
    have halves : (0xD800 ≤ high.toNat ∧ high.toNat ≤ 0xDBFF) ∧ 0xDC00 ≤ low.toNat ∧ low.toNat ≤ 0xDFFF := by
      simpa [isHighSurrogate, isLowSurrogate, UInt16.le_iff_toNat_le] using pair
    rw [codePoints, if_pos pair, List.flatMap_cons, ih, codeUnits, if_neg (by omega)]
    have first : 0xD800 + ((high.toNat - 0xD800) * 1024 + (low.toNat - 0xDC00) + 0x10000 - 0x10000) / 1024 =
        high.toNat := by omega
    have second : 0xDC00 + ((high.toNat - 0xD800) * 1024 + (low.toNat - 0xDC00) + 0x10000 - 0x10000) % 1024 =
        low.toNat := by omega
    rw [first, second]
    rfl
  | case4 high low rest alone ih =>
    have basic := high.toNat_lt
    rw [codePoints, if_neg alone, List.flatMap_cons, ih, codeUnits, if_pos basic]
    rfl

theorem codePoints_small (text : JsString) : ∀ code ∈ codePoints text, code < 0x110000 := by
  induction text using codePoints.induct with
  | case1 => exact fun _ none => absurd none List.not_mem_nil
  | case2 unit =>
    have basic := unit.toNat_lt
    rw [codePoints]
    intro code member
    rw [List.mem_singleton.mp member]
    omega
  | case3 high low rest pair ih =>
    have halves : (0xD800 ≤ high.toNat ∧ high.toNat ≤ 0xDBFF) ∧ 0xDC00 ≤ low.toNat ∧ low.toNat ≤ 0xDFFF := by
      simpa [isHighSurrogate, isLowSurrogate, UInt16.le_iff_toNat_le] using pair
    rw [codePoints, if_pos pair]
    exact List.forall_mem_cons.mpr ⟨by omega, ih⟩
  | case4 high low rest alone ih =>
    have basic := high.toNat_lt
    rw [codePoints, if_neg alone]
    exact List.forall_mem_cons.mpr ⟨by omega, ih⟩

theorem decodeUtf8Char_range (small : code < 0x110000) : ∀ unit ∈ decodeUtf8Char code,
    unit < 256 ∧ (code ≠ Json.quote → unit ≠ Json.quote) ∧ (code ≠ Json.backslash → unit ≠ Json.backslash) := by
  simp only [Json.quote, Json.backslash]
  unfold decodeUtf8Char
  by_cases one : code < 0x80
  · rw [if_pos one]
    intro unit member
    rw [List.mem_singleton.mp member]
    omega
  · rw [if_neg one]
    intro unit member
    have large : 0x80 ≤ unit ∧ unit < 256 := by
      split at member
      · simp only [List.mem_cons, List.not_mem_nil, or_false] at member
        omega
      · split at member
        · simp only [List.mem_cons, List.not_mem_nil, or_false] at member
          omega
        · rw [if_pos (by omega)] at member
          simp only [List.mem_cons, List.not_mem_nil, or_false] at member
          omega
    omega

theorem codeBytes_units (small : code < 0x110000) : (codeBytes code).map UInt8.toNat = decodeUtf8Char code := by
  rw [codeBytes, List.map_map]
  refine (List.map_congr_left fun unit member => ?_).trans (List.map_id _)
  have byte := (decodeUtf8Char_range small unit member).1
  rw [Function.comp_apply, UInt8.toNat_ofNat', id_eq]
  omega

theorem codeBytes_inside (small : code < 0x110000) (quote : code ≠ Json.quote) (backslash : code ≠ Json.backslash) :
    ∀ byte ∈ codeBytes code, byte.toNat ≠ Json.quote ∧ byte.toNat ≠ Json.backslash := by
  intro byte member
  have unit : byte.toNat ∈ decodeUtf8Char code := codeBytes_units small ▸ List.mem_map_of_mem member
  obtain ⟨-, first, second⟩ := decodeUtf8Char_range small _ unit
  exact ⟨first quote, second backslash⟩

/-- A character that is spelled as it is. -/
theorem unescapeString_point {rest : List Nat} (scalar : code < 0xD800 ∨ 0xDFFF < code ∧ code < 0x110000)
    (quote : code ≠ Json.quote) (backslash : code ≠ Json.backslash) :
    unescapeString ((encodePoint code).flatMap Piece.render ++ rest) =
      (unescapeString rest).map (decodeUtf8Char code ++ ·) := by
  have small : code < 0x110000 := by omega
  have value : (Char.ofNat code).toNat = code := by
    rw [Char.ofNat, dif_pos scalar]
    rfl
  rw [encodePoint, ← codeBytes_char, value, unescapeString_bytes (codeBytes_inside small quote backslash),
    codeBytes_units small]

theorem singleEscape_known (is : singleEscape unit = some letter) :
    Json.letterEscape letter.toNat = some unit.toNat ∧ decodeUtf8Char unit.toNat = [unit.toNat] := by
  unfold singleEscape at is
  repeat' split at is
  all_goals first | contradiction | (cases is; subst_vars; decide)

theorem unescapeString_quoteUnit {unit : UInt16} {rest : List Nat} (single : isHighSurrogate unit = false) :
    unescapeString ((quoteUnit unit).flatMap Piece.render ++ rest) =
      (unescapeString rest).map (decodeUtf8Char unit.toNat ++ ·) := by
  have basic := unit.toNat_lt
  unfold quoteUnit
  split
  · rename_i letter escaped
    obtain ⟨known, is⟩ := singleEscape_known escaped
    rw [letterPiece_render (Option.isSome_iff_exists.mpr ⟨_, known⟩), is]
    exact unescapeString_letter known
  · rename_i whole
    split
    · have digits := lowerHexUnit unit.toNat
      rw [Nat.mod_eq_of_lt basic] at digits
      have low : ¬ (0xD800 ≤ unit.toNat ∧ unit.toNat ≤ 0xDBFF) := by
        simpa [isHighSurrogate, UInt16.le_iff_toNat_le] using single
      rw [List.flatMap_cons, List.flatMap_nil, List.append_nil]
      exact unescapeString_code digits low
    · rename_i visible
      have quote : unit.toNat ≠ Json.quote := by
        intro is
        rw [show unit = 0x22 from UInt16.toNat_inj.mp is] at whole
        contradiction
      have backslash : unit.toNat ≠ Json.backslash := by
        intro is
        rw [show unit = 0x5c from UInt16.toNat_inj.mp is] at whole
        contradiction
      have scalar : unit.toNat < 0xD800 ∨ 0xDFFF < unit.toNat ∧ unit.toNat < 0x110000 := by
        simp only [isHighSurrogate, isLowSurrogate, Bool.or_eq_true, Bool.and_eq_true, decide_eq_true_eq,
          UInt16.le_iff_toNat_le, not_or, not_and] at visible
        have high := visible.1.2
        have low := visible.2
        simp at high low
        omega
      exact unescapeString_point scalar quote backslash

/-- What the server makes of a text. -/
theorem unescapeString_quoteText {text : JsString} (paired : Paired text) :
    unescapeString ((quoteText text).flatMap Piece.render) = some ((codePoints text).flatMap decodeUtf8Char) := by
  induction text using codePoints.induct with
  | case1 => rfl
  | case2 unit =>
    have whole : unescapeString ((quoteUnit unit).flatMap Piece.render ++ []) = _ := unescapeString_quoteUnit paired
    rw [List.append_nil] at whole
    rw [quoteText, whole]
    rfl
  | case3 high low rest pair ih =>
    rw [Paired, if_pos pair] at paired
    have halves : (0xD800 ≤ high.toNat ∧ high.toNat ≤ 0xDBFF) ∧ 0xDC00 ≤ low.toNat ∧ low.toNat ≤ 0xDFFF := by
      simpa [isHighSurrogate, isLowSurrogate, UInt16.le_iff_toNat_le] using pair
    rw [quoteText, if_pos pair, List.flatMap_append, unescapeString_point (.inr (by omega))
      (by simp only [Json.quote]; omega) (by simp only [Json.backslash]; omega), ih paired, codePoints, if_pos pair]
    rfl
  | case4 high low rest alone ih =>
    rw [Paired, if_neg alone] at paired
    rw [quoteText, if_neg alone, List.flatMap_append, unescapeString_quoteUnit paired.1, ih paired.2, codePoints,
      if_neg alone]
    rfl

theorem received_paired {text : JsString} (paired : Paired text) :
    received text = some ((codePoints text).flatMap codeBytes) := by
  rw [received, stringOf, unescapeString_quoteText paired, Option.map_some, List.map_flatMap]
  rfl

/-- And what its readers make of that is the text. -/
theorem spelledUnits_codes {codes : List Nat} (small : ∀ code ∈ codes, code < 0x110000) :
    spelledUnits (codes.flatMap codeBytes) = some (codes.flatMap codeUnits) := by
  induction codes with
  | nil => exact spelledUnits_nil
  | cons code codes ih =>
    obtain ⟨first, others⟩ := List.forall_mem_cons.mp small
    rw [List.flatMap_cons, spelledUnits_code first, ih others]
    rfl

/-- A text without a lone first half comes back as it was typed. -/
theorem text_returns {text : JsString} (paired : Paired text) :
    ∃ data, received text = some data ∧ spelledUnits data = some (text.map UInt16.toNat) := by
  refine ⟨_, received_paired paired, ?_⟩
  rw [spelledUnits_codes (codePoints_small text), codePoints_units]

theorem spelledUnits_point (small : code < 0x110000) {others : List Nat}
    (is : spelledUnits ((decodeUtf8Char code ++ others).map UInt8.ofNat) = some units) :
    ∃ rest, spelledUnits (others.map UInt8.ofNat) = some rest ∧ units = codeUnits code ++ rest := by
  rw [List.map_append] at is
  obtain ⟨rest, spelled, same⟩ := Option.map_eq_some_iff.mp ((spelledUnits_code small _).symm.trans is)
  exact ⟨rest, spelled, same.symm⟩

/-- A lone first half is refused, or read with what is behind it as a whole pair. -/
theorem half_changes {unit : UInt16} {rest units text : List Nat} (half : isHighSurrogate unit = true)
    (read : unescapeString ((quoteUnit unit).flatMap Piece.render ++ rest) = some units)
    (back : spelledUnits (units.map UInt8.ofNat) = some text) :
    ∃ first second others, text = first :: second :: others ∧ 0xDC00 ≤ second ∧ second ≤ 0xDFFF := by
  have range : 0xD800 ≤ unit.toNat ∧ unit.toNat ≤ 0xDBFF := by
    simpa [isHighSurrogate, UInt16.le_iff_toNat_le] using half
  have single : singleEscape unit = none := by
    cases known : singleEscape unit with
    | none => rfl
    | some letter =>
      have decoded := (singleEscape_known known).2
      rw [decodeUtf8Char, if_neg (by omega), if_neg (by omega), if_pos (by omega)] at decoded
      exact absurd (congrArg List.length decoded) (by simp)
  have escaped : quoteUnit unit = [unicodePiece unit] := by
    simp only [quoteUnit, single, half, Bool.or_true, Bool.true_or, if_true]
  have basic := unit.toNat_lt
  have digits := lowerHexUnit unit.toNat
  rw [Nat.mod_eq_of_lt basic] at digits
  rw [escaped, List.flatMap_cons, List.flatMap_nil, List.append_nil] at read
  obtain ⟨low, others, least, most, is⟩ := unescapeString_half digits range read
  have small : utf16SurrogatePairToCode unit.toNat low < 0x110000 := by
    rw [utf16SurrogatePairToCode]
    omega
  have large : ¬ utf16SurrogatePairToCode unit.toNat low < 0x10000 := by
    rw [utf16SurrogatePairToCode]
    omega
  rw [is] at back
  obtain ⟨more, -, same⟩ := spelledUnits_point small back
  rw [codeUnits, if_neg large] at same
  exact ⟨_, _, more, same, by omega, by omega⟩

theorem paired_of_returned {text : JsString} {units : List Nat}
    (read : unescapeString ((quoteText text).flatMap Piece.render) = some units)
    (back : spelledUnits (units.map UInt8.ofNat) = some (text.map UInt16.toNat)) : Paired text := by
  induction text using codePoints.induct generalizing units with
  | case1 => trivial
  | case2 unit =>
    cases half : isHighSurrogate unit with
    | false => exact half
    | true =>
      rw [quoteText, ← List.append_nil ((quoteUnit unit).flatMap Piece.render)] at read
      obtain ⟨_, _, _, is, -⟩ := half_changes half read back
      cases is
  | case3 high low rest pair ih =>
    have halves : (0xD800 ≤ high.toNat ∧ high.toNat ≤ 0xDBFF) ∧ 0xDC00 ≤ low.toNat ∧ low.toNat ≤ 0xDFFF := by
      simpa [isHighSurrogate, isLowSurrogate, UInt16.le_iff_toNat_le] using pair
    rw [quoteText, if_pos pair, List.flatMap_append, unescapeString_point (.inr (by omega))
      (by simp only [Json.quote]; omega) (by simp only [Json.backslash]; omega)] at read
    obtain ⟨others, behind, rfl⟩ := Option.map_eq_some_iff.mp read
    obtain ⟨more, spelled, is⟩ := spelledUnits_point (by omega) back
    rw [codeUnits, if_neg (by omega), List.map_cons, List.map_cons, List.cons_append, List.cons_append,
      List.nil_append] at is
    rw [Paired, if_pos pair]
    exact ih behind (spelled.trans (congrArg some (List.cons.inj (List.cons.inj is).2).2.symm))
  | case4 high low rest alone ih =>
    rw [quoteText, if_neg alone, List.flatMap_append] at read
    rw [Paired, if_neg alone]
    cases half : isHighSurrogate high with
    | true =>
      obtain ⟨_, _, _, is, least, most⟩ := half_changes half read back
      rw [List.map_cons, List.map_cons] at is
      obtain ⟨-, same, -⟩ := (List.cons.inj is).imp id List.cons.inj
      have second : isLowSurrogate low = true := by
        simp only [isLowSurrogate, Bool.and_eq_true, decide_eq_true_eq, UInt16.le_iff_toNat_le]
        exact ⟨same ▸ least, same ▸ most⟩
      exact absurd (by rw [half, second]; rfl) alone
    | false =>
      have basic := high.toNat_lt
      rw [unescapeString_quoteUnit half] at read
      obtain ⟨others, behind, rfl⟩ := Option.map_eq_some_iff.mp read
      obtain ⟨more, spelled, is⟩ := spelledUnits_point (by omega) back
      rw [codeUnits, if_pos basic, List.map_cons, List.cons_append, List.nil_append] at is
      exact ⟨rfl, ih behind (spelled.trans (congrArg some (List.cons.inj is).2.symm))⟩

/-- It comes back so in no other case. -/
theorem text_returns_iff {text : JsString} {data : Bytes} (read : received text = some data) :
    spelledUnits data = some (text.map UInt16.toNat) ↔ Paired text := by
  constructor
  · intro back
    obtain ⟨units, unescaped, rfl⟩ := Option.map_eq_some_iff.mp read
    exact paired_of_returned unescaped back
  · intro paired
    obtain ⟨same, is, back⟩ := text_returns paired
    rw [read] at is
    cases is
    exact back

end Typing

end Conspire.Frames
