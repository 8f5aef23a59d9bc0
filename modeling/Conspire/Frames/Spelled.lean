import Conspire.Frames.Writer
import Conspire.Library.Utf8

/-! What a frame spells. A string is legible if the writer escapes all of it beyond ASCII and spoils
nothing; a frame whose strings are legible is ASCII and spells its tree, any other is not UTF-8 or
holds a string that no reader of JSON accepts. -/
namespace Conspire.Frames
open Json (Piece Spelling)

section Pieces

def plainPiece (unit : Nat) : List Piece :=
  if inside : unit ≠ Json.quote ∧ unit ≠ Json.backslash then [.plain unit inside] else []

def plainPieces (bytes : Bytes) : List Piece := bytes.flatMap fun byte => plainPiece byte.toNat

def letterPiece (unit : Nat) : List Piece :=
  if known : (Json.letterEscape unit).isSome then [.letter unit known] else []

theorem hexDigit_value : ∀ n < 16, Json.hexValue (hexDigit n).toNat = some n ∧ (hexDigit n).toNat < 0x80 ∧
    0x20 ≤ (hexDigit n).toNat ∧ (hexDigit n).toNat ≠ Json.quote ∧ (hexDigit n).toNat ≠ Json.backslash := by
  decide +kernel

theorem hexUnit_digits (value : Nat) : Json.hexUnit (hexDigit (value / 4096 % 16)).toNat
    (hexDigit (value / 256 % 16)).toNat (hexDigit (value / 16 % 16)).toNat (hexDigit (value % 16)).toNat =
      some (value % 0x10000) := by
  have a := (hexDigit_value (value / 4096 % 16) (Nat.mod_lt _ (by decide))).1
  have b := (hexDigit_value (value / 256 % 16) (Nat.mod_lt _ (by decide))).1
  have c := (hexDigit_value (value / 16 % 16) (Nat.mod_lt _ (by decide))).1
  have d := (hexDigit_value (value % 16) (Nat.mod_lt _ (by decide))).1
  simp only [Json.hexUnit, a, b, c, d, Option.bind_eq_bind, Option.bind_some, Option.some.injEq]
  omega

def codePiece (value : Nat) : Piece :=
  .code (hexDigit (value / 4096 % 16)).toNat (hexDigit (value / 256 % 16)).toNat (hexDigit (value / 16 % 16)).toNat
    (hexDigit (value % 16)).toNat (by rw [hexUnit_digits]; rfl)

/-- The pieces that `escapeUtf8Char` writes. -/
def codePieces (code : Nat) : List Piece :=
  if code < 0x10000 then [codePiece code]
  else if code < 0x200000 then
    [codePiece (codeToUtf16SurrogatePair code).1, codePiece (codeToUtf16SurrogatePair code).2]
  else codePiece (code / 0x10000) :: plainPieces (writeUInt16 (code % 0x10000) ++ [0])

def chunkPieces (chunk : Bytes) : List Piece :=
  match chunk with
  | [] => []
  | a :: _ =>
    if a < 32 then
      match controlLetter a with
      | some letter => letterPiece letter.toNat
      | none => [codePiece a.toNat]
    else if a < 128 then if isMarked a then letterPiece a.toNat else plainPiece a.toNat
    else if getUtf8CharSequenceLength a = 0 then plainPiece a.toNat
    else if chunk.length < getUtf8CharSequenceLength a then
      plainPieces (List.replicate (getUtf8CharSequenceLength a) '?'.toUInt8)
    else codePieces (encodeUtf8Char chunk)

def pieces (data : Bytes) : List Piece := (chunks data).flatMap chunkPieces

/-- A part that is written as it came, and with which no character begins. -/
def strayChunk (chunk : Bytes) : Bool :=
  match chunk with
  | [] => false
  | a :: _ => 128 ≤ a && getUtf8CharSequenceLength a = 0

/-- A part whose escape ends in a zero byte. -/
def spoiltChunk (chunk : Bytes) : Bool :=
  match chunk with
  | [] => false
  | a :: _ =>
    128 ≤ a && getUtf8CharSequenceLength a ≠ 0 && getUtf8CharSequenceLength a ≤ chunk.length &&
      0x200000 ≤ encodeUtf8Char chunk

/-- A string of which a reader of the frame can make something. -/
def legible (data : Bytes) : Bool :=
  (chunks data).all (fun chunk => !strayChunk chunk && !spoiltChunk chunk) &&
    (data.all (· < 128) || escapedSize data ≠ data.length)

end Pieces

section Chunks

theorem plainPiece_render (inside : unit ≠ Json.quote ∧ unit ≠ Json.backslash) :
    (plainPiece unit).flatMap Piece.render = [unit] := by
  rw [plainPiece, dif_pos inside]
  rfl

theorem letterPiece_render (known : (Json.letterEscape unit).isSome) :
    (letterPiece unit).flatMap Piece.render = [Json.backslash, unit] := by
  rw [letterPiece, dif_pos known]
  rfl

theorem codePiece_render (value : Nat) : (codePiece value).render = (unicodeEscape value).map UInt8.toNat := rfl

theorem codePiece_unit (value : Nat) : (codePiece value).unit = some (value % 0x10000) := hexUnit_digits value

theorem writeUInt16_range (value : Nat) : ∀ byte ∈ writeUInt16 value, byte.toNat < 0x80 ∧
    byte.toNat ≠ Json.quote ∧ byte.toNat ≠ Json.backslash := by
  intro byte member
  have all : ∀ n, (hexDigit (n % 16)).toNat < 0x80 ∧ (hexDigit (n % 16)).toNat ≠ Json.quote ∧
      (hexDigit (n % 16)).toNat ≠ Json.backslash := fun n =>
    let ⟨_, small, _, notQuote, notBackslash⟩ := hexDigit_value (n % 16) (Nat.mod_lt _ (by decide))
    ⟨small, notQuote, notBackslash⟩
  simp only [writeUInt16, List.mem_cons, List.not_mem_nil, or_false] at member
  rcases member with rfl | rfl | rfl | rfl <;> exact all _

theorem plain_render {bytes : Bytes}
    (inside : ∀ byte ∈ bytes, byte.toNat ≠ Json.quote ∧ byte.toNat ≠ Json.backslash) :
    (plainPieces bytes).flatMap Piece.render = bytes.map UInt8.toNat := by
  induction bytes with
  | nil => rfl
  | cons byte bytes ih =>
    rw [plainPieces, List.flatMap_cons, List.flatMap_append, plainPiece_render (inside byte List.mem_cons_self),
      ← plainPieces, ih fun other member => inside other (List.mem_cons_of_mem _ member)]
    rfl

theorem codePieces_render (chunk : Bytes) :
    (codePieces (encodeUtf8Char chunk)).flatMap Piece.render = (escapeUtf8Char chunk).map UInt8.toNat := by
  unfold codePieces escapeUtf8Char
  dsimp only
  split
  · rw [List.flatMap_cons, codePiece_render, List.flatMap_nil, List.append_nil]
  · split
    · rw [List.flatMap_cons, codePiece_render, List.flatMap_cons, codePiece_render, List.flatMap_nil, List.append_nil,
        List.map_append]
    · have inside : ∀ byte ∈ writeUInt16 (encodeUtf8Char chunk % 0x10000) ++ [0],
          byte.toNat ≠ Json.quote ∧ byte.toNat ≠ Json.backslash := by
        intro byte member
        rcases List.mem_append.mp member with digit | zero
        · exact (writeUInt16_range _ byte digit).2
        · cases List.mem_singleton.mp zero
          decide
      rw [List.flatMap_cons, codePiece_render, plain_render inside]
      simp only [List.map_append, List.append_assoc]

theorem controlLetter_known (is : controlLetter a = some letter) :
    letter.toNat < 0x80 ∧ (Json.letterEscape letter.toNat).isSome := by
  unfold controlLetter at is
  repeat' split at is
  all_goals first | contradiction | (cases is; decide)

theorem isMarked_iff (a : UInt8) : isMarked a = true ↔ a.toNat = 0x22 ∨ a.toNat = 0x5c ∨ a.toNat = 0x2f := by
  simp [isMarked, ← UInt8.toNat_inj, or_assoc]

theorem letterEscape_marked (marked : isMarked a = true) : (Json.letterEscape a.toNat).isSome = true := by
  rcases (isMarked_iff a).mp marked with is | is | is <;> rw [is] <;> decide

/-- The pieces are those the writer puts down. -/
theorem chunkPieces_render (chunk : Bytes) :
    (chunkPieces chunk).flatMap Piece.render = (escapeChunk chunk).map UInt8.toNat := by
  cases chunk with
  | nil => rfl
  | cons a rest =>
    simp only [chunkPieces, escapeChunk]
    by_cases control : a < 32
    · simp only [if_pos control]
      cases is : controlLetter a with
      | none => rw [List.flatMap_cons, codePiece_render, List.flatMap_nil, List.append_nil]
      | some letter => exact letterPiece_render (controlLetter_known is).2
    · simp only [if_neg control]
      by_cases small : a < 128
      · simp only [if_pos small]
        by_cases marked : isMarked a
        · simp only [if_pos marked]
          exact letterPiece_render (letterEscape_marked marked)
        · simp only [if_neg marked]
          rw [isMarked_iff] at marked
          refine plainPiece_render ⟨?_, ?_⟩ <;> simp only [Json.quote, Json.backslash] <;> omega
      · simp only [if_neg small]
        have large : 128 ≤ a.toNat := by simpa [UInt8.lt_iff_toNat_lt] using small
        split
        · refine plainPiece_render ⟨?_, ?_⟩ <;> simp only [Json.quote, Json.backslash] <;> omega
        · split
          · refine plain_render fun byte member => ?_
            rw [(List.mem_replicate.mp member).2]
            decide
          · exact codePieces_render _

theorem escapeUtf8Char_ascii (chunk : Bytes) : ∀ byte ∈ escapeUtf8Char chunk, byte.toNat < 0x80 := by
  have escape : ∀ value, ∀ byte ∈ unicodeEscape value, byte.toNat < 0x80 := by
    intro value byte member
    simp only [unicodeEscape, List.mem_cons] at member
    rcases member with rfl | rfl | digit
    · decide
    · decide
    · exact (writeUInt16_range value byte digit).1
  intro byte member
  unfold escapeUtf8Char at member
  dsimp only at member
  split at member
  · exact escape _ byte member
  · split at member
    · rcases List.mem_append.mp member with first | second
      · exact escape _ byte first
      · exact escape _ byte second
    · simp only [List.append_assoc, List.mem_append, List.mem_singleton] at member
      rcases member with first | digit | rfl
      · exact escape _ byte first
      · exact (writeUInt16_range _ byte digit).1
      · decide

/-- Only a stray part is written beyond ASCII. -/
theorem escapeChunk_ascii (whole : strayChunk chunk = false) : ∀ byte ∈ escapeChunk chunk, byte.toNat < 0x80 := by
  cases chunk with
  | nil => exact fun _ none => absurd none List.not_mem_nil
  | cons a rest =>
    simp only [escapeChunk]
    by_cases control : a < 32
    · simp only [if_pos control]
      have small : a.toNat < 32 := by simpa [UInt8.lt_iff_toNat_lt] using control
      cases is : controlLetter a with
      | none =>
        intro byte member
        simp only [unicodeEscape, List.mem_cons] at member
        rcases member with rfl | rfl | digit
        · decide
        · decide
        · exact (writeUInt16_range _ byte digit).1
      | some letter =>
        intro byte member
        simp only [List.mem_cons, List.not_mem_nil, or_false] at member
        rcases member with rfl | rfl
        · decide
        · exact (controlLetter_known is).1
    · simp only [if_neg control]
      by_cases small : a < 128
      · simp only [if_pos small]
        have below : a.toNat < 0x80 := by simpa [UInt8.lt_iff_toNat_lt] using small
        intro byte member
        split at member
        · simp only [List.mem_cons, List.not_mem_nil, or_false] at member
          rcases member with rfl | rfl
          · decide
          · exact below
        · rw [List.mem_singleton.mp member]
          exact below
      · simp only [if_neg small]
        have large : 128 ≤ a := by simpa using small
        simp only [strayChunk, large, decide_true, Bool.true_and, decide_eq_false_iff_not] at whole
        simp only [if_neg whole]
        intro byte member
        split at member
        · rw [(List.mem_replicate.mp member).2]
          decide
        · exact escapeUtf8Char_ascii _ byte member

theorem sequenceLength_range : ∀ n < 256,
    (getUtf8CharSequenceLength (UInt8.ofNat n) = 0 ↔ 128 ≤ n ∧ n < 192 ∨ 254 ≤ n) ∧
      (getUtf8CharSequenceLength (UInt8.ofNat n) = 1 ↔ n < 128) ∧
      (getUtf8CharSequenceLength (UInt8.ofNat n) = 6 ↔ 252 ≤ n ∧ n < 254) ∧
      getUtf8CharSequenceLength (UInt8.ofNat n) ≤ 6 := by
  decide +kernel

theorem sequenceLength (a : UInt8) :
    (getUtf8CharSequenceLength a = 0 ↔ 128 ≤ a.toNat ∧ a.toNat < 192 ∨ 254 ≤ a.toNat) ∧
    (getUtf8CharSequenceLength a = 1 ↔ a.toNat < 128) ∧
    (getUtf8CharSequenceLength a = 6 ↔ 252 ≤ a.toNat ∧ a.toNat < 254) ∧ getUtf8CharSequenceLength a ≤ 6 := by
  have range := sequenceLength_range a.toNat a.toNat_lt
  rwa [UInt8.ofNat_toNat] at range

theorem stray_lead (stray : strayChunk (a :: rest) = true) : ¬ Utf8.Lead a ∧ escapeChunk (a :: rest) = [a] := by
  simp only [strayChunk, Bool.and_eq_true, decide_eq_true_eq] at stray
  obtain ⟨large, none⟩ := stray
  have range := (sequenceLength a).1.mp none
  have high : 128 ≤ a.toNat := by simpa [UInt8.le_iff_toNat_le] using large
  have notControl : ¬ a < 32 := by simp [UInt8.lt_iff_toNat_lt]; omega
  have notSmall : ¬ a < 128 := by simp [UInt8.lt_iff_toNat_lt]; omega
  refine ⟨?_, ?_⟩
  · simp only [Utf8.Lead]
    omega
  · rw [escapeChunk, if_neg notControl, if_neg notSmall, if_pos none]

end Chunks

section Units

theorem plainPiece_unit (visible : 0x20 ≤ unit) : (plainPiece unit).all (·.unit.isSome) = true := by
  unfold plainPiece
  split
  · simp [Piece.unit, Nat.not_lt.mpr visible]
  · rfl

theorem plainPieces_unit {bytes : Bytes} (visible : ∀ byte ∈ bytes, 0x20 ≤ byte.toNat) :
    (plainPieces bytes).all (·.unit.isSome) = true := by
  rw [plainPieces, List.all_flatMap, List.all_eq_true]
  exact fun byte member => plainPiece_unit (visible byte member)

/-- The zero byte is what no string may hold. -/
theorem codePieces_unit (code : Nat) : (codePieces code).all (·.unit.isSome) = decide (code < 0x200000) := by
  unfold codePieces
  split
  · simp only [List.all_cons, codePiece_unit, List.all_nil]
    simp
    omega
  · split
    · rename_i small
      simp only [List.all_cons, codePiece_unit, List.all_nil, small]
      rfl
    · rename_i large
      have zero : (plainPieces [0]).all (·.unit.isSome) = false := by decide
      have split : plainPieces (writeUInt16 (code % 0x10000) ++ [0]) =
          plainPieces (writeUInt16 (code % 0x10000)) ++ plainPieces [0] := List.flatMap_append
      rw [List.all_cons, split, List.all_append, zero, Bool.and_false, Bool.and_false, decide_eq_false large]

theorem chunkPieces_unit (chunk : Bytes) :
    (chunkPieces chunk).all (·.unit.isSome) = !spoiltChunk chunk := by
  cases chunk with
  | nil => rfl
  | cons a rest =>
    simp only [chunkPieces, spoiltChunk]
    by_cases control : a < 32
    · have below : ¬ 128 ≤ a := by simp [UInt8.lt_iff_toNat_lt, UInt8.le_iff_toNat_le] at control ⊢; omega
      simp only [if_pos control, below, decide_false, Bool.false_and, Bool.not_false]
      cases is : controlLetter a with
      | none => simp [codePiece_unit]
      | some letter =>
        have known := (controlLetter_known is).2
        simp [letterPiece, known, Piece.unit]
    · simp only [if_neg control]
      have visible : 0x20 ≤ a.toNat := by simpa [UInt8.lt_iff_toNat_lt] using control
      by_cases small : a < 128
      · have below : ¬ 128 ≤ a := by simpa using small
        simp only [if_pos small, below, decide_false, Bool.false_and, Bool.not_false]
        split
        · rename_i marked
          have known := letterEscape_marked marked
          simp [letterPiece, known, Piece.unit]
        · exact plainPiece_unit visible
      · have large : 128 ≤ a := by simpa using small
        simp only [if_neg small, large, decide_true, Bool.true_and]
        by_cases stray : getUtf8CharSequenceLength a = 0
        · simp only [stray]
          exact plainPiece_unit visible
        · rw [if_neg stray]
          by_cases cut : (a :: rest).length < getUtf8CharSequenceLength a
          · have short : rest.length + 1 < getUtf8CharSequenceLength a := cut
            rw [if_pos cut]
            refine (plainPieces_unit fun byte member => ?_).trans (by simp [short])
            rw [(List.mem_replicate.mp member).2]
            decide
          · have long : getUtf8CharSequenceLength a ≤ rest.length + 1 := Nat.le_of_not_lt cut
            rw [if_neg cut, codePieces_unit]
            by_cases fits : encodeUtf8Char (a :: rest) < 0x200000
            · simp [fits, Nat.not_le.mpr fits]
            · simp [fits, stray, long, Nat.le_of_not_lt fits]

theorem length_escapeUtf8Char (chunk : Bytes) : (escapeUtf8Char chunk).length = escapeUtf8CharSize chunk := by
  unfold escapeUtf8Char escapeUtf8CharSize
  dsimp only
  split
  · rfl
  · split
    · rfl
    · rfl

theorem length_escapeChunk (chunk : Bytes) : (escapeChunk chunk).length = chunkSize chunk := by
  cases chunk with
  | nil => rfl
  | cons a rest =>
    simp only [escapeChunk, chunkSize]
    split
    · cases controlLetter a <;> rfl
    · split
      · split <;> rfl
      · split
        · rfl
        · split
          · exact List.length_replicate
          · exact length_escapeUtf8Char _

end Units

section Escapes

/-- The first byte beyond ASCII is one with which no character begins. -/
def Undecodable (bytes : Bytes) : Prop :=
  ∃ front byte rest, bytes = front ++ byte :: rest ∧ (∀ other ∈ front, other.toNat < 0x80) ∧ ¬ Utf8.Lead byte

theorem Undecodable.broken (undecodable : Undecodable bytes) : ¬ Utf8.WellFormed bytes := by
  obtain ⟨front, byte, rest, rfl, small, other⟩ := undecodable
  exact fun formed => other (formed.lead small)

/-- What the reader of a frame will find: the code units, and whether they mean anything; or bytes it
never gets. -/
def Written (bytes : Bytes) (units : List Nat) (meant fine : Bool) : Prop :=
  (∀ byte ∈ bytes, byte.toNat < 0x80) ∧ bytes.map UInt8.toNat = units ∧ meant = fine ∨
    Undecodable bytes ∧ fine = false

theorem Written.append (first : Written bytes units meant fine) (second : Written bytes' units' meant' fine') :
    Written (bytes ++ bytes') (units ++ units') (meant && meant') (fine && fine') := by
  rcases first with ⟨small, rfl, rfl⟩ | ⟨⟨front, byte, rest, rfl, small, other⟩, rfl⟩
  · rcases second with ⟨small', rfl, rfl⟩ | ⟨⟨front, byte, rest, rfl, small', other⟩, rfl⟩
    · refine .inl ⟨fun byte member => ?_, List.map_append, rfl⟩
      rcases List.mem_append.mp member with left | right
      · exact small byte left
      · exact small' byte right
    · refine .inr ⟨⟨bytes ++ front, byte, rest, (List.append_assoc _ _ _).symm, fun byte member => ?_, other⟩,
        Bool.and_false _⟩
      rcases List.mem_append.mp member with left | right
      · exact small byte left
      · exact small' byte right
  · exact .inr ⟨⟨front, byte, rest ++ bytes', by simp, small, other⟩, Bool.false_and _⟩

theorem Written.ascii {bytes : Bytes} (small : ∀ byte ∈ bytes, byte.toNat < 0x80) :
    Written bytes (bytes.map UInt8.toNat) true true := .inl ⟨small, rfl, rfl⟩

theorem chunks_cons (a : UInt8) (rest : Bytes) : chunks (a :: rest) =
    (a :: rest.take (getUtf8CharSequenceLength a - 1)) :: chunks (rest.drop (getUtf8CharSequenceLength a - 1)) := by
  rw [chunks]

/-- A string is escaped character by character. -/
theorem escapedSize_append (a : UInt8) (tails rest : Bytes) (whole : getUtf8CharSequenceLength a = tails.length + 1) :
    escapedSize (a :: tails ++ rest) = chunkSize (a :: tails) + escapedSize rest := by
  have taken : (tails ++ rest).take (getUtf8CharSequenceLength a - 1) = tails := by
    rw [whole, Nat.add_sub_cancel]
    exact List.take_left
  have dropped : (tails ++ rest).drop (getUtf8CharSequenceLength a - 1) = rest := by
    rw [whole, Nat.add_sub_cancel]
    exact List.drop_left
  rw [escapedSize, List.cons_append, chunks_cons, taken, dropped, List.map_cons, List.sum_cons]
  rfl

theorem escapedSize_replicate (a : UInt8) (tails : Bytes) (whole : getUtf8CharSequenceLength a = tails.length + 1)
    (n : Nat) : escapedSize (List.replicate n (a :: tails)).flatten = n * chunkSize (a :: tails) := by
  induction n with
  | zero =>
    rw [List.replicate_zero, List.flatten_nil, escapedSize, chunks, Nat.zero_mul]
    rfl
  | succ n ih =>
    rw [List.replicate_succ, List.flatten_cons, escapedSize_append a tails _ whole, ih, Nat.succ_mul]
    exact Nat.add_comm _ _

/-- A part is no longer than its first byte says. -/
theorem length_le_chunkSize (a : UInt8) (rest : Bytes) :
    (a :: rest.take (getUtf8CharSequenceLength a - 1)).length ≤
      chunkSize (a :: rest.take (getUtf8CharSequenceLength a - 1)) := by
  obtain ⟨none, one, -, most⟩ := sequenceLength a
  have taken : (rest.take (getUtf8CharSequenceLength a - 1)).length ≤ getUtf8CharSequenceLength a - 1 :=
    List.length_take_le _ _
  simp only [chunkSize, List.length_cons]
  by_cases control : a < 32
  · have below : a.toNat < 32 := by simpa [UInt8.lt_iff_toNat_lt] using control
    have single := one.mpr (by omega)
    rw [if_pos control]
    split <;> omega
  · rw [if_neg control]
    by_cases small : a < 128
    · have below : a.toNat < 128 := by simpa [UInt8.lt_iff_toNat_lt] using small
      have single := one.mpr below
      rw [if_pos small]
      split <;> omega
    · rw [if_neg small]
      split
      · omega
      · split
        · omega
        · unfold escapeUtf8CharSize
          dsimp only
          split
          · omega
          · split <;> omega

theorem length_le_escapedSize (data : Bytes) : data.length ≤ escapedSize data := by
  induction data using chunks.induct with
  | case1 => exact Nat.zero_le _
  | case2 a rest ih =>
    have first := length_le_chunkSize a rest
    have whole : (a :: rest).length = (a :: rest.take (getUtf8CharSequenceLength a - 1)).length +
        (rest.drop (getUtf8CharSequenceLength a - 1)).length := by
      simp only [List.length_cons, List.length_take, List.length_drop]
      omega
    rw [whole, escapedSize, chunks_cons, List.map_cons, List.sum_cons]
    exact Nat.add_le_add first ih

/-- A part that would not grow is one byte of ASCII, or none with which a character begins. -/
theorem chunk_kept (a : UInt8) (rest : Bytes)
    (same : chunkSize (a :: rest.take (getUtf8CharSequenceLength a - 1)) =
      (a :: rest.take (getUtf8CharSequenceLength a - 1)).length) :
    a.toNat < 0x80 ∧ rest.take (getUtf8CharSequenceLength a - 1) = [] ∧ escapeChunk [a] = [a] ∨ ¬ Utf8.Lead a := by
  obtain ⟨none, one, six, most⟩ := sequenceLength a
  have taken : (rest.take (getUtf8CharSequenceLength a - 1)).length ≤ getUtf8CharSequenceLength a - 1 :=
    List.length_take_le _ _
  simp only [chunkSize, List.length_cons] at same
  by_cases control : a < 32
  · have below : a.toNat < 32 := by simpa [UInt8.lt_iff_toNat_lt] using control
    have single := one.mpr (by omega)
    rw [if_pos control] at same
    split at same <;> omega
  · rw [if_neg control] at same
    by_cases small : a < 128
    · have below : a.toNat < 128 := by simpa [UInt8.lt_iff_toNat_lt] using small
      have single := one.mpr below
      rw [if_pos small] at same
      by_cases marked : isMarked a
      · rw [if_pos marked] at same
        omega
      · refine .inl ⟨below, by rw [single]; rfl, ?_⟩
        rw [escapeChunk, if_neg control, if_pos small, if_neg marked]
    · rw [if_neg small] at same
      have large : 128 ≤ a.toNat := by simpa [UInt8.lt_iff_toNat_lt] using small
      right
      simp only [Utf8.Lead]
      by_cases stray : getUtf8CharSequenceLength a = 0
      · have range := none.mp stray
        omega
      · rw [if_neg stray] at same
        split at same
        · omega
        · unfold escapeUtf8CharSize at same
          dsimp only at same
          have range : getUtf8CharSequenceLength a = 6 := by
            split at same
            · omega
            · split at same <;> omega
          have lead := six.mp range
          omega

/-- A string that is written as it came. -/
theorem kept (data : Bytes) (same : escapedSize data = data.length) :
    (∀ byte ∈ data, byte.toNat < 0x80) ∧ (chunks data).flatMap escapeChunk = data ∨ Undecodable data := by
  induction data using chunks.induct with
  | case1 =>
    left
    rw [chunks]
    exact ⟨fun _ none => absurd none List.not_mem_nil, rfl⟩
  | case2 a rest ih =>
    have first := length_le_chunkSize a rest
    have others := length_le_escapedSize (rest.drop (getUtf8CharSequenceLength a - 1))
    have whole : (a :: rest).length = (a :: rest.take (getUtf8CharSequenceLength a - 1)).length +
        (rest.drop (getUtf8CharSequenceLength a - 1)).length := by
      simp only [List.length_cons, List.length_take, List.length_drop]
      omega
    rw [whole, escapedSize, chunks_cons, List.map_cons, List.sum_cons, ← escapedSize] at same
    rcases chunk_kept a rest (by omega) with ⟨small, single, written⟩ | other
    · have dropped : rest.drop (getUtf8CharSequenceLength a - 1) = rest := by
        have together := List.take_append_drop (getUtf8CharSequenceLength a - 1) rest
        rwa [single, List.nil_append] at together
      rw [dropped] at ih same others
      rcases ih (by omega) with ⟨all, is⟩ | ⟨front, byte, tail, is, all, other⟩
      · left
        rw [chunks_cons, single, dropped, List.flatMap_cons, written, is]
        exact ⟨List.forall_mem_cons.mpr ⟨small, all⟩, rfl⟩
      · exact .inr ⟨a :: front, byte, tail, by rw [is]; rfl, List.forall_mem_cons.mpr ⟨small, all⟩, other⟩
    · exact .inr ⟨[], a, rest, rfl, fun _ none => absurd none List.not_mem_nil, other⟩

theorem chunks_written (parts : List Bytes) :
    Written (parts.flatMap escapeChunk) ((parts.flatMap chunkPieces).flatMap Piece.render)
      ((parts.flatMap chunkPieces).all (·.unit.isSome))
      (parts.all fun chunk => !strayChunk chunk && !spoiltChunk chunk) := by
  induction parts with
  | nil => exact .ascii fun _ none => absurd none List.not_mem_nil
  | cons chunk parts ih =>
    rw [List.flatMap_cons, List.flatMap_cons, List.flatMap_append, List.all_append, List.all_cons]
    refine .append ?_ ih
    rw [chunkPieces_render, chunkPieces_unit]
    cases stray : strayChunk chunk with
    | false => exact .inl ⟨escapeChunk_ascii stray, rfl, rfl⟩
    | true =>
      cases chunk with
      | nil => contradiction
      | cons a rest =>
        obtain ⟨other, is⟩ := stray_lead stray
        rw [is]
        exact .inr ⟨⟨[], a, [], rfl, fun _ none => absurd none List.not_mem_nil, other⟩, rfl⟩

theorem Undecodable.not_ascii (undecodable : Undecodable data) : data.all (· < 128) = false := by
  obtain ⟨front, byte, rest, rfl, -, other⟩ := undecodable
  have large : ¬ byte < 128 := fun small => other (.inl (by simpa [UInt8.lt_iff_toNat_lt] using small))
  simp [large]

theorem escapeString_written (data : Bytes) :
    Written (escapeString data) ((pieces data).flatMap Piece.render) ((pieces data).all (·.unit.isSome))
      (legible data) := by
  have written := chunks_written (chunks data)
  unfold escapeString legible pieces
  by_cases same : escapedSize data = data.length
  · rw [if_pos same]
    rcases kept data same with ⟨small, is⟩ | undecodable
    · have ascii : data.all (· < 128) = true := by
        rw [List.all_eq_true]
        exact fun byte member => by simpa [UInt8.lt_iff_toNat_lt] using small byte member
      rw [is] at written
      rw [ascii, Bool.true_or, Bool.and_true]
      exact written
    · exact .inr ⟨undecodable, by rw [undecodable.not_ascii]; simp [same]⟩
  · rw [if_neg same]
    simpa [same] using written

theorem serializeString_written (data : Bytes) :
    Written (serializeString data) (Json.renderText (pieces data)) ((pieces data).all (·.unit.isSome))
      (legible data) := by
  have mark : ∀ byte ∈ ([0x22] : Bytes), byte.toNat < 0x80 := List.forall_mem_singleton.mpr (by decide)
  have written := ((Written.ascii mark).append (escapeString_written data)).append (.ascii mark)
  simpa [serializeString, Json.renderText, Json.quote] using written

end Escapes

section Trees

mutual

def Tree.spelled : Tree → Spelling
  | .integer value => .integer value
  | .bool value => .bool value
  | .string value => .text (pieces value)
  | .vector items => .array (spelledItems items)
  | .map fields => .object (spelledFields fields)

def spelledItems : List Tree → List Spelling
  | [] => []
  | item :: rest => item.spelled :: spelledItems rest

def spelledFields : List (Bytes × Tree) → List (List Piece × Spelling)
  | [] => []
  | (key, node) :: rest => (pieces key, node.spelled) :: spelledFields rest

end

mutual

/-- All strings of a tree are legible. -/
def Tree.legible : Tree → Bool
  | .integer _ => true
  | .bool _ => true
  | .string value => Frames.legible value
  | .vector items => legibleItems items
  | .map fields => legibleFields fields

def legibleItems : List Tree → Bool
  | [] => true
  | item :: rest => item.legible && legibleItems rest

def legibleFields : List (Bytes × Tree) → Bool
  | [] => true
  | (key, node) :: rest => Frames.legible key && node.legible && legibleFields rest

end

theorem serializeInteger_written (value : Int) : Written (serializeInteger value) (Json.decimal value) true true := by
  have small := Json.decimal_ascii value
  have back : (serializeInteger value).map UInt8.toNat = Json.decimal value := by
    rw [serializeInteger, List.map_map]
    refine (List.map_congr_left fun unit member => ?_).trans (List.map_id _)
    have below := small unit member
    rw [Function.comp_apply, UInt8.toNat_ofNat', id_eq]
    omega
  refine .inl ⟨fun byte member => ?_, back, rfl⟩
  have unit : byte.toNat ∈ Json.decimal value := back ▸ List.mem_map_of_mem member
  exact small _ unit

theorem Written.char (byte : UInt8) (small : byte.toNat < 0x80) : Written [byte] [byte.toNat] true true :=
  .inl ⟨by simpa using small, rfl, rfl⟩

mutual

/-- A frame is ASCII and spells its tree, or no reader gets it. -/
theorem serialize_written (t : Tree) : Written t.serialize t.spelled.render t.spelled.meaning.isSome t.legible := by
  match t with
  | .integer value => exact serializeInteger_written value
  | .bool true => exact .ascii (by decide +kernel)
  | .bool false => exact .ascii (by decide +kernel)
  | .string value =>
    have written := serializeString_written value
    rw [← Json.mapM_unit_isSome] at written
    simpa [Tree.serialize, Tree.spelled, Json.Spelling.render, Json.Spelling.meaning, Tree.legible] using written
  | .vector items =>
    have written := ((Written.char 0x5b (by decide)).append (serializeArray_written items)).append
      (.char 0x5d (by decide))
    simpa [Tree.serialize, Tree.spelled, Json.Spelling.render, Json.Spelling.meaning, Tree.legible,
      Json.openBracket, Json.closeBracket] using written
  | .map fields =>
    have written := ((Written.char 0x7b (by decide)).append (serializeMap_written fields)).append
      (.char 0x7d (by decide))
    simpa [Tree.serialize, Tree.spelled, Json.Spelling.render, Json.Spelling.meaning, Tree.legible,
      Json.openBrace, Json.closeBrace] using written

theorem serializeArray_written (items : List Tree) : Written (serializeArray items)
    (Json.renderItems (spelledItems items)) (Json.meaningItems (spelledItems items)).isSome (legibleItems items) := by
  match items with
  | [] => exact .ascii fun _ none => absurd none List.not_mem_nil
  | [item] =>
    have written := serialize_written item
    simpa [serializeArray, spelledItems, Json.renderItems, Json.meaningItems_isSome, Json.meaningItems_nil,
      legibleItems] using written
  | item :: next :: rest =>
    have written := ((serialize_written item).append (.char 0x2c (by decide))).append
      (serializeArray_written (next :: rest))
    simpa [serializeArray, spelledItems, Json.renderItems, Json.meaningItems_isSome, legibleItems, Json.comma]
      using written

theorem serializeMap_written (fields : List (Bytes × Tree)) : Written (serializeMap fields)
    (Json.renderMembers (spelledFields fields)) (Json.meaningMembers (spelledFields fields)).isSome
    (legibleFields fields) := by
  match fields with
  | [] => exact .ascii fun _ none => absurd none List.not_mem_nil
  | [(key, node)] =>
    have written := ((serializeString_written key).append (.char 0x3a (by decide))).append (serialize_written node)
    simpa [serializeMap, spelledFields, Json.renderMembers, Json.meaningMembers_isSome, Json.meaningMembers_nil,
      legibleFields, Json.colon] using written
  | (key, node) :: next :: rest =>
    have written := ((((serializeString_written key).append (.char 0x3a (by decide))).append
      (serialize_written node)).append (.char 0x2c (by decide))).append (serializeMap_written (next :: rest))
    simpa [serializeMap, spelledFields, Json.renderMembers, Json.meaningMembers_isSome, legibleFields, Json.colon,
      Json.comma] using written

end

end Trees

section Widths

def stringWidth (data : Bytes) : Nat := escapedSize data + 2

mutual

/-- The characters a tree takes; an item or a field takes one more for what separates or closes it. -/
def Tree.width : Tree → Nat
  | .integer value => (Json.decimal value).length
  | .bool value => if value then 4 else 5
  | .string value => stringWidth value
  | .vector items => 1 + max 1 (itemsWidth items)
  | .map fields => 1 + max 1 (fieldsWidth fields)

def itemsWidth : List Tree → Nat
  | [] => 0
  | item :: rest => item.width + 1 + itemsWidth rest

def fieldsWidth : List (Bytes × Tree) → Nat
  | [] => 0
  | (key, node) :: rest => stringWidth key + 1 + node.width + 1 + fieldsWidth rest

end

theorem length_escapeString (data : Bytes) : (escapeString data).length = escapedSize data := by
  unfold escapeString
  split
  · rename_i same
    exact same.symm
  · rw [List.length_flatMap, escapedSize]
    congr 1
    exact List.map_congr_left fun chunk _ => length_escapeChunk chunk

theorem length_serializeString (data : Bytes) : (serializeString data).length = stringWidth data := by
  rw [serializeString, List.length_append, List.length_cons, length_escapeString]
  rfl

mutual

theorem length_serialize (t : Tree) : t.serialize.length = t.width := by
  match t with
  | .integer value => exact List.length_map _
  | .bool true => rfl
  | .bool false => rfl
  | .string value => exact length_serializeString value
  | .vector items =>
    have inside := length_serializeArray items
    simp only [Tree.serialize, Tree.width, List.length_append, List.length_cons, List.length_nil]
    omega
  | .map fields =>
    have inside := length_serializeMap fields
    simp only [Tree.serialize, Tree.width, List.length_append, List.length_cons, List.length_nil]
    omega

theorem length_serializeArray (items : List Tree) : (serializeArray items).length + 1 = max 1 (itemsWidth items) := by
  match items with
  | [] => rfl
  | [item] =>
    have first := length_serialize item
    simp only [serializeArray, itemsWidth]
    omega
  | item :: next :: rest =>
    have first := length_serialize item
    have others := length_serializeArray (next :: rest)
    simp only [itemsWidth] at others
    simp only [serializeArray, itemsWidth, List.length_append, List.length_cons]
    omega

theorem length_serializeMap (fields : List (Bytes × Tree)) :
    (serializeMap fields).length + 1 = max 1 (fieldsWidth fields) := by
  match fields with
  | [] => rfl
  | [(key, node)] =>
    have name := length_serializeString key
    have first := length_serialize node
    simp only [serializeMap, fieldsWidth, List.length_append, List.length_cons]
    omega
  | (key, node) :: next :: rest =>
    have name := length_serializeString key
    have first := length_serialize node
    have others := length_serializeMap (next :: rest)
    simp only [fieldsWidth] at others
    simp only [serializeMap, fieldsWidth, List.length_append, List.length_cons]
    omega

end

end Widths

end Conspire.Frames
