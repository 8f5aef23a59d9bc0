import Conspire.Frames.Reader

/-! A spelled text at the server: every value is read to its end, with the strings that its pieces
unescape to. -/
namespace Conspire.Frames
open Json (Piece Spelling)

/-- The string of the pieces between two quotes. -/
def stringOf (pieces : List Piece) : Option Bytes :=
  (unescapeString (pieces.flatMap Piece.render)).map fun text => text.map UInt8.ofNat

/-- `strtoll` keeps a number within its bounds. -/
def clamp (value : Int) : Int := max (-2 ^ 63) (min value (2 ^ 63 - 1))

mutual

def nodeOf : Spelling → Option Node
  | .null => some .null
  | .bool value => some (.bool value)
  | .integer value => some (.integer (clamp value))
  | .text pieces => (stringOf pieces).map .string
  | .array items => (nodesOf items).map .vector
  | .object members => (fieldsOf members []).map .map

def nodesOf : List Spelling → Option (List Node)
  | [] => some []
  | item :: rest => do
    let item ← nodeOf item
    let rest ← nodesOf rest
    some (item :: rest)

def fieldsOf : List (List Piece × Spelling) → List (Bytes × Node) → Option (List (Bytes × Node))
  | [], fields => some fields
  | (name, value) :: rest, fields => do
    let key ← stringOf name
    let node ← nodeOf value
    fieldsOf rest (assign fields key node)

end

section Strings
variable {rest : List Nat} {unit : Nat}

theorem hexValue_inside (digit : (Json.hexValue unit).isSome) : unit ≠ Json.quote ∧ unit ≠ Json.backslash := by
  constructor
  · rintro rfl
    exact absurd digit (by decide)
  · rintro rfl
    exact absurd digit (by decide)

theorem hexUnit_inside (digits : (Json.hexUnit a b c d).isSome) :
    ∀ unit ∈ [a, b, c, d], unit ≠ Json.quote ∧ unit ≠ Json.backslash := by
  obtain ⟨value, is⟩ := Option.isSome_iff_exists.mp digits
  simp only [Json.hexUnit, Option.bind_eq_bind, Option.bind_eq_some_iff] at is
  obtain ⟨_, first, _, second, _, third, _, fourth, -⟩ := is
  have inside : ∀ {unit value}, Json.hexValue unit = some value → unit ≠ Json.quote ∧ unit ≠ Json.backslash :=
    fun digit => hexValue_inside (by rw [digit]; rfl)
  simp only [List.forall_mem_cons]
  exact ⟨inside first, inside second, inside third, inside fourth, fun _ none => absurd none List.not_mem_nil⟩

theorem preparseString_plain (inside : unit ≠ Json.quote ∧ unit ≠ Json.backslash) :
    preparseString (unit :: rest) = (preparseString rest).map fun (text, rest) => (unit :: text, rest) := by
  rw [preparseString.eq_def]
  simp only [inside, if_false]

theorem preparseString_escape (next : Nat) : preparseString (Json.backslash :: next :: rest) =
    (preparseString rest).map fun (text, rest) => (Json.backslash :: next :: text, rest) := by
  rw [preparseString.eq_def]
  simp only [show Json.backslash ≠ Json.quote by decide, if_false, if_true]

theorem preparseString_piece (piece : Piece) : preparseString (piece.render ++ rest) =
    (preparseString rest).map fun (text, rest) => (piece.render ++ text, rest) := by
  cases piece with
  | plain unit inside => exact preparseString_plain inside
  | letter unit known => exact preparseString_escape unit
  | code a b c d digits =>
    have inside := hexUnit_inside digits
    simp only [List.forall_mem_cons] at inside
    obtain ⟨first, second, third, fourth, -⟩ := inside
    simp only [Piece.render, List.cons_append, List.nil_append]
    rw [preparseString_escape, preparseString_plain first, preparseString_plain second, preparseString_plain third,
      preparseString_plain fourth]
    cases preparseString rest <;> rfl

/-- The quote behind the pieces is the first that closes them. -/
theorem preparseString_pieces (pieces : List Piece) :
    preparseString (pieces.flatMap Piece.render ++ Json.quote :: rest) = some (pieces.flatMap Piece.render, rest) := by
  induction pieces with
  | nil =>
    rw [List.flatMap_nil, List.nil_append, preparseString.eq_def]
    simp
  | cons piece pieces ih =>
    rw [List.flatMap_cons, List.append_assoc, preparseString_piece, ih]
    rfl

theorem parseString_pieces (pieces : List Piece) :
    parseString (pieces.flatMap Piece.render ++ Json.quote :: rest) = (stringOf pieces).map (·, rest) := by
  simp only [parseString, preparseString_pieces, stringOf, Option.bind_eq_bind, Option.bind_some]
  cases unescapeString (pieces.flatMap Piece.render) <;> rfl

end Strings

section Values
variable {rest : List Nat} {unit fuel : Nat}

/-- What stands behind a value in a text. -/
def Closes (rest : List Nat) : Prop :=
  ∀ unit ∈ rest.head?, unit = Json.comma ∨ unit = Json.closeBracket ∨ unit = Json.closeBrace

theorem Closes.nil : Closes [] := by simp [Closes]

theorem Closes.cons (is : unit = Json.comma ∨ unit = Json.closeBracket ∨ unit = Json.closeBrace) :
    Closes (unit :: rest) := by
  intro first here
  cases here
  exact is

theorem Closes.ends (closes : Closes rest) : Json.Ends rest := by
  cases rest with
  | nil => exact .nil
  | cons unit rest => exact .cons (closes unit rfl)

theorem skipBlankChars_cons (visible : 0x20 < unit) : skipBlankChars (unit :: rest) = unit :: rest := by
  have solid : isBlank unit = false := by
    simp only [isBlank, Bool.or_eq_false_iff, decide_eq_false_iff_not]
    omega
  simp [skipBlankChars, solid]

theorem Closes.integral (closes : Closes rest) (n : Nat) :
    findDecimalSeparator (Json.digits n ++ rest) = false := by
  have all : ∀ unit ∈ Json.digits n, (Json.isDigit unit || decide (unit = Json.minus)) = true := by
    intro unit member
    rw [Json.digits_all n unit member]
    rfl
  rw [findDecimalSeparator, List.dropWhile_append_of_pos all]
  cases rest with
  | nil => rfl
  | cons unit rest =>
    rcases closes unit rfl with rfl | rfl | rfl <;> rfl

theorem skipChar_other (other : unit ≠ character) : skipChar character (unit :: rest) = unit :: rest := by
  simp [skipChar, other]

theorem parseInt_digits (closes : Closes rest) (n : Nat) :
    deserializeNumber (Json.digits n ++ rest) = some (.integer (clamp n), rest) := by
  obtain ⟨taken, dropped⟩ := closes.ends.run n
  obtain ⟨first, others, is⟩ := List.exists_cons_of_ne_nil (Json.digits_ne_nil n)
  have digit := Json.digits_all n first (by rw [is]; exact List.mem_cons_self)
  have unsigned : first ≠ Json.minus := by
    rintro rfl
    exact absurd digit (by decide)
  have sign : ((Json.digits n ++ rest).head? = some Json.minus) = False := by
    simp [is, unsigned]
  have kept : skipChar Json.minus (Json.digits n ++ rest) = Json.digits n ++ rest := by
    rw [is]
    exact skipChar_other unsigned
  have bounds : min (n : Int) (2 ^ 63 - 1) = clamp n := by
    simp only [clamp]
    omega
  rw [deserializeNumber, closes.integral]
  simp only [parseInt, kept, taken, dropped, sign, if_neg (Json.digits_ne_nil n), Json.natural_digits, bounds]
  rfl

theorem deserializeNumber_decimal (closes : Closes rest) (value : Int) :
    deserializeNumber (Json.decimal value ++ rest) = some (.integer (clamp value), rest) := by
  cases value with
  | ofNat n => exact parseInt_digits closes n
  | negSucc n =>
    obtain ⟨taken, dropped⟩ := closes.ends.run (n + 1)
    have integral : findDecimalSeparator (Json.minus :: (Json.digits (n + 1) ++ rest)) = false := by
      rw [findDecimalSeparator, List.dropWhile_cons_of_pos (by decide)]
      exact closes.integral (n + 1)
    have bounds : max (-((n + 1 : Nat) : Int)) (-2 ^ 63) = clamp (Int.negSucc n) := by
      simp only [clamp]
      omega
    have kept : skipChar Json.minus (Json.minus :: (Json.digits (n + 1) ++ rest)) = Json.digits (n + 1) ++ rest := rfl
    rw [deserializeNumber, Json.decimal, List.cons_append, integral]
    simp only [parseInt, kept, taken, dropped, if_neg (Json.digits_ne_nil (n + 1)), Json.natural_digits,
      List.head?_cons, Bool.false_eq_true, ↓reduceIte, Option.map_some, bounds]

theorem deserialize_cons (visible : 0x20 < unit) : deserialize (fuel + 1) (unit :: rest) =
    if unit = Json.openBrace then
      (deserializeMap fuel (skipBlankChars rest) []).map fun (fields, rest) => (.map fields, rest)
    else if unit = Json.openBracket then
      (deserializeArray fuel (skipBlankChars rest)).map fun (items, rest) => (.vector items, rest)
    else if unit = Json.quote then (parseString rest).map fun (text, rest) => (.string text, rest)
    else if unit = Json.minus ∨ Json.isDigit unit then deserializeNumber (unit :: rest)
    else deserializeName (unit :: rest) := by
  rw [deserialize, skipBlankChars_cons visible]

theorem deserialize_name (name : List Nat)
    (is : name = Json.units "null" ∨ name = Json.units "true" ∨ name = Json.units "false") :
    deserialize (fuel + 1) (name ++ rest) = deserializeName (name ++ rest) := by
  rcases is with rfl | rfl | rfl <;> exact deserialize_cons (by decide)

theorem deserialize_integer (closes : Closes rest) (value : Int) :
    deserialize (fuel + 1) (Json.decimal value ++ rest) = some (.integer (clamp value), rest) := by
  have read := deserializeNumber_decimal closes value
  obtain ⟨first, others, is, numeric⟩ := Json.decimal_head value
  obtain ⟨visible, notQuote, notBracket, notBrace, -⟩ := Json.not_number first numeric
  rw [is, List.cons_append] at read ⊢
  rw [deserialize_cons visible, if_neg notBrace, if_neg notBracket, if_neg notQuote, if_pos numeric, read]

theorem deserializeArray_cons (unclosed : unit ≠ Json.closeBracket) : deserializeArray (fuel + 1) (unit :: rest) =
    (deserialize fuel (unit :: rest)).bind fun (item, rest) =>
      (deserializeArray fuel (skipChar Json.comma (skipBlankChars rest))).map fun (items, rest) =>
        (item :: items, rest) := by
  rw [deserializeArray, if_neg unclosed]
  cases deserialize fuel (unit :: rest) with
  | none => rfl
  | some read =>
    simp only [Option.bind_eq_bind, Option.bind_some]
    cases deserializeArray fuel (skipChar Json.comma (skipBlankChars read.2)) <;> rfl

theorem deserializeArray_close : deserializeArray (fuel + 1) (Json.closeBracket :: rest) = some ([], rest) := by
  rw [deserializeArray, if_pos rfl]

theorem deserializeMap_close (fields : List (Bytes × Node)) :
    deserializeMap (fuel + 1) (Json.closeBrace :: rest) fields = some (fields, rest) := by
  rw [deserializeMap, if_pos rfl]

/-- A field up to what is behind its node. -/
theorem deserializeMap_field {s : List Nat} {name : List Piece} {fields : List (Bytes × Node)} {node : Option Node}
    (read : deserialize fuel s = node.map (·, unit :: rest)) (visible : 0x20 < unit) :
    deserializeMap (fuel + 1) (Json.renderText name ++ Json.colon :: s) fields =
      (stringOf name).bind fun key => node.bind fun node =>
        deserializeMap fuel (skipChar Json.comma (unit :: rest)) (assign fields key node) := by
  have whole : Json.renderText name ++ Json.colon :: s =
      Json.quote :: (name.flatMap Piece.render ++ Json.quote :: Json.colon :: s) := by
    simp [Json.renderText]
  rw [whole, deserializeMap, skipBlankChars_cons (show 0x20 < Json.quote by decide)]
  simp only [show Json.quote ≠ Json.closeBrace by decide, ↓reduceIte, parseString_pieces]
  cases stringOf name with
  | none => rfl
  | some key =>
    simp only [Option.map_some, Option.bind_eq_bind, Option.bind_some,
      skipBlankChars_cons (show 0x20 < Json.colon by decide), List.head?_cons, List.tail_cons, ↓reduceIte, read]
    cases node with
    | none => rfl
    | some node => simp only [Option.map_some, Option.bind_some, skipBlankChars_cons visible]

theorem nodesOf_cons (item : Spelling) (items : List Spelling) :
    nodesOf (item :: items) = (nodeOf item).bind fun item => (nodesOf items).map (item :: ·) := by
  rw [nodesOf]
  cases nodeOf item <;> cases nodesOf items <;> rfl

theorem fieldsOf_cons (name : List Piece) (value : Spelling) (members : List (List Piece × Spelling))
    (fields : List (Bytes × Node)) : fieldsOf ((name, value) :: members) fields =
      (stringOf name).bind fun key => (nodeOf value).bind fun node => fieldsOf members (assign fields key node) := by
  rw [fieldsOf]
  rfl

mutual

/-- Every spelled value is read to its end. -/
theorem deserialize_render (t : Spelling) (fuel : Nat) (enough : t.render.length ≤ fuel) (rest : List Nat)
    (closes : Closes rest) : deserialize fuel (t.render ++ rest) = (nodeOf t).map (·, rest) := by
  cases fuel with
  | zero =>
    obtain ⟨first, others, is, -⟩ := t.head
    rw [is] at enough
    exact absurd enough (Nat.not_succ_le_zero _)
  | succ fuel =>
    match t with
    | .null => exact deserialize_name _ (.inl rfl)
    | .bool true => exact deserialize_name _ (.inr (.inl rfl))
    | .bool false => exact deserialize_name _ (.inr (.inr rfl))
    | .integer value => exact deserialize_integer closes value
    | .text pieces =>
      rw [Spelling.render, Json.renderText, List.append_assoc, List.cons_append, List.singleton_append,
        deserialize_cons (by decide), if_neg (by decide), if_neg (by decide), if_pos rfl, parseString_pieces, nodeOf]
      cases stringOf pieces <;> rfl
    | .array items =>
      have shorter : (Json.renderItems items).length < fuel := by
        simp only [Spelling.render, List.length_append, List.length_cons] at enough
        omega
      have read := deserializeArray_render items fuel shorter rest
      have whole : (Spelling.array items).render ++ rest =
          Json.openBracket :: (Json.renderItems items ++ Json.closeBracket :: rest) := by
        simp [Spelling.render]
      have solid : skipBlankChars (Json.renderItems items ++ Json.closeBracket :: rest) =
          Json.renderItems items ++ Json.closeBracket :: rest := by
        cases items with
        | nil => exact skipBlankChars_cons (by decide)
        | cons item items =>
          obtain ⟨first, others, is, visible, -⟩ := Json.renderItems_head item items
          rw [is]
          exact skipBlankChars_cons visible
      rw [whole, deserialize_cons (by decide), if_neg (by decide), if_pos rfl, solid, read, nodeOf]
      cases nodesOf items <;> rfl
    | .object members =>
      have shorter : (Json.renderMembers members).length < fuel := by
        simp only [Spelling.render, List.length_append, List.length_cons] at enough
        omega
      have read := deserializeMap_render members fuel shorter rest []
      have whole : (Spelling.object members).render ++ rest =
          Json.openBrace :: (Json.renderMembers members ++ Json.closeBrace :: rest) := by
        simp [Spelling.render]
      have solid : skipBlankChars (Json.renderMembers members ++ Json.closeBrace :: rest) =
          Json.renderMembers members ++ Json.closeBrace :: rest := by
        cases members with
        | nil => exact skipBlankChars_cons (by decide)
        | cons member members =>
          obtain ⟨others, is⟩ := Json.renderMembers_head member members
          rw [is]
          exact skipBlankChars_cons (by decide)
      rw [whole, deserialize_cons (by decide), if_pos rfl, solid, read, nodeOf]
      cases fieldsOf members [] <;> rfl

theorem deserializeArray_render (items : List Spelling) (fuel : Nat)
    (enough : (Json.renderItems items).length < fuel) (rest : List Nat) :
    deserializeArray fuel (Json.renderItems items ++ Json.closeBracket :: rest) = (nodesOf items).map (·, rest) := by
  cases fuel with
  | zero => exact absurd enough (Nat.not_lt_zero _)
  | succ fuel =>
    match items with
    | [] =>
      rw [nodesOf]
      exact deserializeArray_close
    | [item] =>
      have read := deserialize_render item fuel (Nat.le_of_lt_succ enough) (Json.closeBracket :: rest)
        (.cons (by simp))
      obtain ⟨first, others, is, -, unclosed⟩ := item.head
      rw [Json.renderItems] at enough ⊢
      cases fuel with
      | zero =>
        rw [is] at enough
        exact absurd enough (by simp)
      | succ fuel =>
        rw [is, List.cons_append] at read ⊢
        rw [deserializeArray_cons unclosed, read, nodesOf_cons, nodesOf]
        cases nodeOf item with
        | none => rfl
        | some item =>
          simp only [Option.map_some, Option.bind_some, skipBlankChars_cons (show 0x20 < Json.closeBracket by decide),
            skipChar_other (show Json.closeBracket ≠ Json.comma by decide), deserializeArray_close]
    | item :: next :: items =>
      simp only [Json.renderItems, List.length_append, List.length_cons] at enough
      have read := deserialize_render item fuel (by omega)
        (Json.comma :: (Json.renderItems (next :: items) ++ Json.closeBracket :: rest)) (.cons (by simp))
      have others := deserializeArray_render (next :: items) fuel (by omega) rest
      obtain ⟨first, tail, is, -, unclosed⟩ := item.head
      rw [Json.renderItems, List.append_assoc, List.cons_append]
      rw [is, List.cons_append] at read ⊢
      rw [deserializeArray_cons unclosed, read, nodesOf_cons item]
      cases nodeOf item with
      | none => rfl
      | some item =>
        simp only [Option.map_some, Option.bind_some, skipBlankChars_cons (show 0x20 < Json.comma by decide),
          skipChar, List.head?_cons, ↓reduceIte, List.tail_cons, others]
        cases nodesOf (next :: items) <;> rfl

theorem deserializeMap_render (members : List (List Piece × Spelling)) (fuel : Nat)
    (enough : (Json.renderMembers members).length < fuel) (rest : List Nat) (fields : List (Bytes × Node)) :
    deserializeMap fuel (Json.renderMembers members ++ Json.closeBrace :: rest) fields =
      (fieldsOf members fields).map (·, rest) := by
  cases fuel with
  | zero => exact absurd enough (Nat.not_lt_zero _)
  | succ fuel =>
    match members with
    | [] =>
      rw [fieldsOf]
      exact deserializeMap_close fields
    | [(name, value)] =>
      simp only [Json.renderMembers, List.length_append, List.length_cons] at enough
      have read := deserialize_render value fuel (by omega) (Json.closeBrace :: rest) (.cons (by simp))
      cases fuel with
      | zero => exact absurd enough (by simp)
      | succ fuel =>
        rw [Json.renderMembers, List.append_assoc, List.cons_append, deserializeMap_field read (by decide),
          fieldsOf_cons]
        cases stringOf name with
        | none => rfl
        | some key =>
          cases nodeOf value with
          | none => rfl
          | some node =>
            simp only [Option.bind_some, fieldsOf,
              skipChar_other (show Json.closeBrace ≠ Json.comma by decide), deserializeMap_close, Option.map_some]
    | (name, value) :: next :: members =>
      simp only [Json.renderMembers, List.length_append, List.length_cons] at enough
      have read := deserialize_render value fuel (by omega)
        (Json.comma :: (Json.renderMembers (next :: members) ++ Json.closeBrace :: rest)) (.cons (by simp))
      have whole : Json.renderMembers ((name, value) :: next :: members) ++ Json.closeBrace :: rest =
          Json.renderText name ++ Json.colon ::
            (value.render ++ Json.comma :: (Json.renderMembers (next :: members) ++ Json.closeBrace :: rest)) := by
        simp [Json.renderMembers]
      rw [whole, deserializeMap_field read (by decide), fieldsOf_cons name]
      cases stringOf name with
      | none => rfl
      | some key =>
        cases nodeOf value with
        | none => rfl
        | some node =>
          have others := deserializeMap_render (next :: members) fuel (by omega) rest (assign fields key node)
          simp only [Option.bind_some, skipChar, List.head?_cons, ↓reduceIte, List.tail_cons, others]

end

/-- A message whose bytes spell a tree is what the objects of the tree's nodes are. -/
theorem readFromString_spelled (cast : Json.Numeral → Int) (t : Spelling) (data : Bytes)
    (spelled : data.map UInt8.toNat = t.render) : readFromString cast data = (nodeOf t).bind (readMessage cast) := by
  have length : data.length = t.render.length := by rw [← spelled, List.length_map]
  have read := deserialize_render t data.length (Nat.le_of_eq length.symm) [] .nil
  rw [List.append_nil] at read
  rw [readFromString, spelled, read]
  cases nodeOf t <;> rfl

end Values

end Conspire.Frames
