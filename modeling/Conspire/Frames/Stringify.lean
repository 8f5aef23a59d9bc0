import Conspire.Browser.Compose
import Conspire.Frames.Delivery
import Conspire.Frames.Reading
import Conspire.Server.SessionReliability

/-! The commands of the browser on the wire (`retryPendingCommands` in `chat/reliability.js`): the text
that `JSON.stringify` makes of a command without its `delivery`, in UTF-8. -/
namespace Conspire.Frames
open Browser
open Json (Piece Spelling)

section Quoting

def lowerHexDigit (nibble : Nat) : Nat := (ascii "0123456789abcdef").getD nibble 0 |>.toNat

theorem lowerHexDigit_value : ∀ n < 16, Json.hexValue (lowerHexDigit n) = some n ∧ lowerHexDigit n < 256 := by
  decide

theorem lowerHexUnit (value : Nat) : Json.hexUnit (lowerHexDigit (value / 4096 % 16))
    (lowerHexDigit (value / 256 % 16)) (lowerHexDigit (value / 16 % 16)) (lowerHexDigit (value % 16)) =
      some (value % 0x10000) := by
  have a := (lowerHexDigit_value (value / 4096 % 16) (Nat.mod_lt _ (by decide))).1
  have b := (lowerHexDigit_value (value / 256 % 16) (Nat.mod_lt _ (by decide))).1
  have c := (lowerHexDigit_value (value / 16 % 16) (Nat.mod_lt _ (by decide))).1
  have d := (lowerHexDigit_value (value % 16) (Nat.mod_lt _ (by decide))).1
  simp only [Json.hexUnit, a, b, c, d, Option.bind_eq_bind, Option.bind_some, Option.some.injEq]
  omega

/-- `UnicodeEscape`. -/
def unicodePiece (unit : UInt16) : Piece :=
  .code (lowerHexDigit (unit.toNat / 4096 % 16)) (lowerHexDigit (unit.toNat / 256 % 16))
    (lowerHexDigit (unit.toNat / 16 % 16)) (lowerHexDigit (unit.toNat % 16)) (by rw [lowerHexUnit]; rfl)

/-- The code points with an escape of one letter. -/
def singleEscape (unit : UInt16) : Option Char :=
  if unit = 0x08 then some 'b'
  else if unit = 0x09 then some 't'
  else if unit = 0x0a then some 'n'
  else if unit = 0x0c then some 'f'
  else if unit = 0x0d then some 'r'
  else if unit = 0x22 then some '"'
  else if unit = 0x5c then some '\\'
  else none

def encodePoint (code : Nat) : List Piece := plainPieces (String.utf8EncodeChar (Char.ofNat code))

/-- A code unit that is no half of a pair. -/
def quoteUnit (unit : UInt16) : List Piece :=
  match singleEscape unit with
  | some letter => letterPiece letter.toNat
  | none =>
    if unit < 0x20 || isHighSurrogate unit || isLowSurrogate unit then [unicodePiece unit]
    else encodePoint unit.toNat

/-- `QuoteJSONString` between the quotes, with the characters in UTF-8. -/
def quoteText : JsString → List Piece
  | [] => []
  | [unit] => quoteUnit unit
  | high :: low :: rest =>
    if isHighSurrogate high && isLowSurrogate low then
      encodePoint ((high.toNat - 0xD800) * 1024 + (low.toNat - 0xDC00) + 0x10000) ++ quoteText rest
    else quoteUnit high ++ quoteText (low :: rest)

end Quoting

section Commands

def member (name : String) (value : Spelling) : List Piece × Spelling := (plainPieces (ascii name), value)

def fileMembers (file : JsFile) : List (String × Spelling) :=
  [("name", .text (quoteText file.name)), ("clientFileId", .integer file.clientFileId),
    ("size", .integer file.size)] ++
    (file.mediaType.map fun mediaType => ("mediaType", .text (quoteText mediaType))).toList

def objectSpelling (members : List (String × Spelling)) : Spelling :=
  .object (members.map fun entry => member entry.1 entry.2)

/-- `submitMessage` gives a command its message, `handleFiles` its files. -/
def commandMembers (command : Command) : List (String × Spelling) :=
  ("code", .integer command.code.value) ::
    ((command.message.map fun message => ("message", .text (quoteText message))).toList ++
      (command.files.map fun files => ("files", .array (files.map (objectSpelling ∘ fileMembers)))).toList ++
        [("clientMessageId", .text (plainPieces command.clientMessageId))])

def commandSpelling (command : Command) : Spelling := objectSpelling (commandMembers command)

/-- What is sent. -/
def wireCommand (command : Command) : Bytes := (commandSpelling command).render.map UInt8.ofNat

end Commands

section Texts
variable {bytes : Bytes} {pieces : List Piece}

theorem unescapeString_plain {units : List Nat} (inside : ∀ unit ∈ units, unit ≠ Json.backslash) :
    unescapeString units = some units := by
  induction units with
  | nil => rfl
  | cons unit units ih =>
    rw [unescapeString.eq_def]
    simp only [inside unit List.mem_cons_self, if_false]
    rw [ih fun other member => inside other (List.mem_cons_of_mem _ member)]
    rfl

theorem ofNat_toNat (bytes : Bytes) : (bytes.map UInt8.toNat).map UInt8.ofNat = bytes := by
  rw [List.map_map]
  exact (List.map_congr_left fun byte _ => UInt8.ofNat_toNat).trans (List.map_id _)

/-- Bytes that neither end nor escape anything are read as they are. -/
theorem stringOf_plain (inside : ∀ byte ∈ bytes, byte.toNat ≠ Json.quote ∧ byte.toNat ≠ Json.backslash) :
    stringOf (plainPieces bytes) = some bytes := by
  have units : ∀ unit ∈ bytes.map UInt8.toNat, unit ≠ Json.backslash := by
    intro unit member
    obtain ⟨byte, here, rfl⟩ := List.mem_map.mp member
    exact (inside byte here).2
  rw [stringOf, plain_render inside, unescapeString_plain units, Option.map_some, ofNat_toNat]

theorem Plain.inside (plain : Plain key) :
    ∀ byte ∈ key, byte.toNat ≠ Json.quote ∧ byte.toNat ≠ Json.backslash := by
  intro byte member
  have marks := mt (isMarked_iff byte).mpr (by simp [(plain.chunks.2 byte member).2.2])
  simp only [Json.quote, Json.backslash]
  omega

/-- Members of plain and different names become the fields of these names. -/
theorem fieldsOf_named (members : List (String × Spelling)) (fields : List (Bytes × Node))
    (named : (members.map fun entry => ascii entry.1).Nodup)
    (fresh : ∀ entry ∈ members, ∀ field ∈ fields, field.1 ≠ ascii entry.1)
    (plain : ∀ entry ∈ members, Plain (ascii entry.1)) :
    fieldsOf (members.map fun entry => member entry.1 entry.2) fields =
      (members.mapM fun entry => (nodeOf entry.2).map (ascii entry.1, ·)).map (fields ++ ·) := by
  induction members generalizing fields with
  | nil =>
    rw [List.map_nil, fieldsOf, List.mapM_nil, Option.pure_def, Option.map_some, List.append_nil]
  | cons entry members ih =>
    obtain ⟨name, value⟩ := entry
    simp only [List.map_cons, List.nodup_cons, List.mem_map, not_exists, not_and] at named
    have key := stringOf_plain (plain _ List.mem_cons_self).inside
    have new : fields.any (·.1 = ascii name) = false := by
      rw [List.any_eq_false]
      exact fun field inside => by simpa using fresh _ List.mem_cons_self field inside
    rw [List.map_cons, member, fieldsOf_cons, key, Option.bind_some, List.mapM_cons]
    cases nodeOf value with
    | none => rfl
    | some node =>
      have others := ih (fields ++ [(ascii name, node)]) named.2 (fun entry inside field here => by
        rcases List.mem_append.mp here with old | last
        · exact fresh entry (List.mem_cons_of_mem _ inside) field old
        · rw [List.mem_singleton.mp last]
          exact fun same => named.1 entry inside same.symm) fun entry inside =>
            plain entry (List.mem_cons_of_mem _ inside)
      rw [Option.bind_some, assign, new, if_neg (by simp), others]
      simp only [Option.map_some, Option.bind_eq_bind, Option.bind_some]
      cases members.mapM fun entry => (nodeOf entry.2).map (ascii entry.1, ·) <;> simp

end Texts

section Octets
variable {pieces : List Piece}

/-- Pieces that are bytes. -/
def Octets (pieces : List Piece) : Prop := ∀ unit ∈ pieces.flatMap Piece.render, unit < 256

theorem Octets.append (first : Octets pieces) (second : Octets more) : Octets (pieces ++ more) := by
  intro unit inside
  rw [List.flatMap_append] at inside
  rcases List.mem_append.mp inside with left | right
  · exact first unit left
  · exact second unit right

theorem Octets.plain (bytes : Bytes) : Octets (plainPieces bytes) := by
  induction bytes with
  | nil => exact fun _ none => absurd none List.not_mem_nil
  | cons byte bytes ih =>
    have first : Octets (plainPiece byte.toNat) := by
      unfold plainPiece
      split
      · intro unit inside
        rw [List.mem_singleton.mp inside]
        exact byte.toNat_lt
      · exact fun _ none => absurd none List.not_mem_nil
    exact first.append ih

theorem Octets.letter (letter : Char) : Octets (letterPiece letter.toNat) := by
  unfold letterPiece
  split
  · rename_i known
    have small : letter.toNat < 256 := by
      by_contra large
      have other : ∀ n < 256, letter.toNat ≠ n := fun n small => by omega
      have unknown : Json.letterEscape letter.toNat = none := by
        simp [Json.letterEscape, Json.quote, Json.backslash, other]
      rw [unknown] at known
      contradiction
    intro unit inside
    simp only [Piece.render, List.flatMap_cons, List.flatMap_nil, List.append_nil, List.mem_cons, List.not_mem_nil,
      or_false] at inside
    rcases inside with rfl | rfl
    · decide
    · exact small
  · exact fun _ none => absurd none List.not_mem_nil

theorem Octets.unicode (value : UInt16) : Octets [unicodePiece value] := by
  have digit : ∀ n, lowerHexDigit (n % 16) < 256 := fun n => (lowerHexDigit_value _ (Nat.mod_lt _ (by decide))).2
  intro unit inside
  simp only [unicodePiece, Piece.render, List.flatMap_cons, List.flatMap_nil, List.append_nil, List.mem_cons,
    List.not_mem_nil, or_false] at inside
  rcases inside with rfl | rfl | rfl | rfl | rfl | rfl
  · decide
  · decide
  all_goals exact digit _

theorem Octets.quoteUnit (unit : UInt16) : Octets (quoteUnit unit) := by
  unfold Frames.quoteUnit
  split
  · exact .letter _
  · split
    · exact .unicode unit
    · exact .plain _

theorem Octets.quoteText (text : JsString) : Octets (quoteText text) := by
  induction text using quoteText.induct with
  | case1 => exact fun _ none => absurd none List.not_mem_nil
  | case2 unit =>
    rw [Frames.quoteText]
    exact .quoteUnit unit
  | case3 high low rest pair ih =>
    rw [Frames.quoteText, if_pos pair]
    exact .append (.plain _) ih
  | case4 high low rest alone ih =>
    rw [Frames.quoteText, if_neg alone]
    exact .append (.quoteUnit high) ih

theorem Octets.renderText (octets : Octets pieces) : ∀ unit ∈ Json.renderText pieces, unit < 256 := by
  intro unit inside
  simp only [Json.renderText, List.cons_append, List.mem_cons, List.mem_append, List.not_mem_nil, or_false] at inside
  rcases inside with rfl | text | rfl
  · decide
  · exact octets unit text
  · decide

/-- A tree whose strings are bytes. -/
inductive Bytewise : Spelling → Prop where
  | integer (value : Int) : Bytewise (.integer value)
  | text {pieces : List Piece} : Octets pieces → Bytewise (.text pieces)
  | array {items : List Spelling} : (∀ item ∈ items, Bytewise item) → Bytewise (.array items)
  | object {members : List (List Piece × Spelling)} : (∀ entry ∈ members, Octets entry.1) →
      (∀ entry ∈ members, Bytewise entry.2) → Bytewise (.object members)

theorem renderItems_octets {items : List Spelling} (all : ∀ item ∈ items, ∀ unit ∈ item.render, unit < 256) :
    ∀ unit ∈ Json.renderItems items, unit < 256 := by
  induction items with
  | nil => exact fun _ none => absurd none List.not_mem_nil
  | cons item rest ih =>
    obtain ⟨first, others⟩ := List.forall_mem_cons.mp all
    cases rest with
    | nil => exact first
    | cons next rest =>
      intro unit inside
      rw [Json.renderItems, List.mem_append, List.mem_cons] at inside
      rcases inside with here | rfl | behind
      · exact first unit here
      · decide
      · exact ih others unit behind

theorem renderMembers_octets {members : List (List Piece × Spelling)}
    (names : ∀ entry ∈ members, Octets entry.1) (values : ∀ entry ∈ members, ∀ unit ∈ entry.2.render, unit < 256) :
    ∀ unit ∈ Json.renderMembers members, unit < 256 := by
  induction members with
  | nil => exact fun _ none => absurd none List.not_mem_nil
  | cons entry rest ih =>
    obtain ⟨name, value⟩ := entry
    obtain ⟨octets, names⟩ := List.forall_mem_cons.mp names
    obtain ⟨small, values⟩ := List.forall_mem_cons.mp values
    intro unit inside
    cases rest with
    | nil =>
      simp only [Json.renderMembers, List.mem_append, List.mem_cons] at inside
      rcases inside with first | rfl | second
      · exact octets.renderText unit first
      · decide
      · exact small unit second
    | cons next rest =>
      simp only [Json.renderMembers, List.mem_append, List.mem_cons] at inside
      rcases inside with (first | rfl | second) | rfl | behind
      · exact octets.renderText unit first
      · decide
      · exact small unit second
      · decide
      · exact ih names values unit behind

theorem Bytewise.render {t : Spelling} (bytewise : Bytewise t) : ∀ unit ∈ t.render, unit < 256 := by
  induction bytewise with
  | integer value => exact fun unit inside => Nat.lt_trans (Json.decimal_ascii value unit inside) (by decide)
  | text octets => exact octets.renderText
  | array all ih =>
    intro unit inside
    simp only [Spelling.render, List.cons_append, List.mem_cons, List.mem_append,
      List.not_mem_nil, or_false] at inside
    rcases inside with rfl | items | rfl
    · decide
    · exact renderItems_octets ih unit items
    · decide
  | object names all ih =>
    intro unit inside
    simp only [Spelling.render, List.cons_append, List.mem_cons, List.mem_append,
      List.not_mem_nil, or_false] at inside
    rcases inside with rfl | members | rfl
    · decide
    · exact renderMembers_octets names ih unit members
    · decide

theorem Bytewise.members {members : List (String × Spelling)} (all : ∀ entry ∈ members, Bytewise entry.2) :
    Bytewise (objectSpelling members) := by
  apply Bytewise.object
  · intro entry inside
    obtain ⟨named, _, rfl⟩ := List.mem_map.mp inside
    exact .plain _
  · intro entry inside
    obtain ⟨named, here, rfl⟩ := List.mem_map.mp inside
    exact all named here

theorem fileMembers_bytewise (file : JsFile) : Bytewise (objectSpelling (fileMembers file)) := by
  apply Bytewise.members
  intro entry inside
  simp only [fileMembers, List.mem_append, List.mem_cons, List.not_mem_nil, or_false, Option.mem_toList,
    Option.map_eq_some_iff] at inside
  rcases inside with (rfl | rfl | rfl) | ⟨mediaType, -, rfl⟩
  · exact .text (.quoteText _)
  · exact .integer _
  · exact .integer _
  · exact .text (.quoteText _)

theorem commandSpelling_bytewise (command : Command) : Bytewise (commandSpelling command) := by
  apply Bytewise.members
  intro entry inside
  simp only [commandMembers, List.mem_append, List.mem_cons, List.not_mem_nil, or_false, Option.mem_toList,
    Option.map_eq_some_iff] at inside
  rcases inside with rfl | (⟨message, -, rfl⟩ | ⟨files, -, rfl⟩) | rfl
  · exact .integer _
  · exact .text (.quoteText _)
  · apply Bytewise.array
    intro item here
    obtain ⟨file, _, rfl⟩ := List.mem_map.mp here
    exact fileMembers_bytewise file
  · exact .text (.plain _)

end Octets

section Reading
variable (cast : Json.Numeral → Int)

/-- A text of the browser as the server reads it. -/
def received (text : JsString) : Option Bytes := stringOf (quoteText text)

def receivedFile (file : JsFile) : Option FileDto := do
  let name ← received file.name
  let mediaType ← file.mediaType.mapM received
  some { name := some name, clientFileId := some (clamp file.clientFileId),
         size := some (clamp file.size), mediaType }

/-- A command as the server reads it. -/
def receivedCommand (command : Command) : Option MessageDto := do
  let message ← command.message.mapM received
  let files ← command.files.mapM fun files => files.mapM receivedFile
  some { code := some command.code, message, files := files.map fun files => files.map some
         clientMessageId := some command.clientMessageId }

theorem readFromString_wire (command : Command) :
    readFromString cast (wireCommand command) = (nodeOf (commandSpelling command)).bind (readMessage cast) := by
  apply readFromString_spelled
  rw [wireCommand, List.map_map]
  refine (List.map_congr_left fun unit inside => ?_).trans (List.map_id _)
  have small := (commandSpelling_bytewise command).render unit inside
  rw [Function.comp_apply, UInt8.toNat_ofNat', id_eq]
  omega

theorem readCode_value (code : MessageCodes) : readCode cast (.integer (clamp code.value)) = some code := by
  cases code <;> rfl

/-- Names that are plain and different. -/
def Distinct (members : List (String × Spelling)) : Prop :=
  (members.map fun entry => ascii entry.1).Nodup ∧ ∀ entry ∈ members, Plain (ascii entry.1)

theorem Distinct.of_names {members : List (String × Spelling)} (names : List String)
    (among : (members.map Prod.fst).Sublist names)
    (distinct : (names.map ascii).Nodup ∧ ∀ name ∈ names, Plain (ascii name)) : Distinct members := by
  constructor
  · have mapped := among.map ascii
    rw [List.map_map] at mapped
    exact distinct.1.sublist mapped
  · exact fun entry inside => distinct.2 _ (among.subset (List.mem_map_of_mem inside))

theorem nodeOf_object {members : List (String × Spelling)} (distinct : Distinct members) :
    nodeOf (objectSpelling members) = (members.mapM fun entry =>
      (nodeOf entry.2).map (ascii entry.1, ·)).map .map := by
  rw [objectSpelling, nodeOf, fieldsOf_named members [] distinct.1 (by simp) distinct.2]
  cases members.mapM fun entry => (nodeOf entry.2).map (ascii entry.1, ·) <;> rfl

theorem fileMembers_distinct (file : JsFile) : Distinct (fileMembers file) := by
  apply Distinct.of_names ["name", "clientFileId", "size", "mediaType"]
  · cases file with
    | mk name fileId size mediaType =>
      cases mediaType with
      | none => exact (List.sublist_append_left ["name", "clientFileId", "size"] ["mediaType"])
      | some mediaType => exact List.Sublist.refl _
  · decide

theorem readFile (file : JsFile) : (nodeOf (objectSpelling (fileMembers file))).bind
    (readObject (setFileField cast) {}) = (receivedFile file).map some := by
  have name : ∀ (file : FileDto) (text : Bytes), setFileField cast file (ascii "name") (.string text) =
      some { file with name := some text } := by
    intro file text
    rw [setFileField, if_neg (by decide), if_neg (by decide), if_pos rfl]
    rfl
  have fileId : ∀ (file : FileDto) (value : Int), setFileField cast file (ascii "clientFileId") (.integer value) =
      some { file with clientFileId := some value } := by
    intro file value
    rw [setFileField, if_pos rfl]
    rfl
  have size : ∀ (file : FileDto) (value : Int), setFileField cast file (ascii "size") (.integer value) =
      some { file with size := some value } := by
    intro file value
    rw [setFileField, if_neg (by decide), if_neg (by decide), if_neg (by decide), if_pos rfl]
    rfl
  have mediaType : ∀ (file : FileDto) (text : Bytes), setFileField cast file (ascii "mediaType") (.string text) =
      some { file with mediaType := some text } := by
    intro file text
    rw [setFileField, if_neg (by decide), if_neg (by decide), if_neg (by decide),
      if_neg (by decide), if_pos rfl]
    rfl
  rw [nodeOf_object (fileMembers_distinct file), receivedFile]
  cases file with
  | mk text clientFileId fileSize type =>
    cases type with
    | none =>
      simp only [fileMembers, Option.map_none, Option.toList_none, List.append_nil, List.mapM_cons, List.mapM_nil,
        nodeOf, received]
      cases stringOf (quoteText text) with
      | none => rfl
      | some known => simp [readObject, name, fileId, size]
    | some type =>
      simp only [fileMembers, Option.map_some, Option.toList_some, List.cons_append, List.nil_append, List.mapM_cons,
        List.mapM_nil, nodeOf, received]
      cases stringOf (quoteText text) with
      | none => rfl
      | some known =>
        cases found : stringOf (quoteText type) with
        | none => simp [found, received]
        | some media => simp [found, received, readObject, name, fileId, size, mediaType]

theorem readFiles (files : List JsFile) :
    (nodesOf (files.map (objectSpelling ∘ fileMembers))).bind (List.mapM (readObject (setFileField cast) {})) =
      (files.mapM receivedFile).map fun files => files.map some := by
  induction files with
  | nil => rfl
  | cons file files ih =>
    have first := readFile cast file
    rw [List.map_cons, nodesOf_cons, List.mapM_cons, Function.comp_apply]
    cases node : nodeOf (objectSpelling (fileMembers file)) with
    | none =>
      rw [node, Option.bind_none] at first
      rw [Option.map_eq_none_iff.mp first.symm]
      rfl
    | some node' =>
      rw [node, Option.bind_some] at first
      cases nodes : nodesOf (files.map (objectSpelling ∘ fileMembers)) with
      | none =>
        rw [nodes, Option.bind_none] at ih
        rw [Option.map_eq_none_iff.mp ih.symm]
        cases receivedFile file <;> rfl
      | some nodes' =>
        rw [nodes, Option.bind_some] at ih
        simp only [Option.bind_some, Option.map_some, List.mapM_cons, first, ih]
        cases receivedFile file <;> cases files.mapM receivedFile <;> rfl

theorem setMessageField_code (message : MessageDto) (code : MessageCodes) :
    setMessageField cast message (ascii "code") (.integer (clamp code.value)) =
      some { message with code := some code } := by
  rw [setMessageField, if_neg (by decide), if_neg (by decide), if_pos rfl, readCode_value]
  rfl

theorem setMessageField_message (message : MessageDto) (text : Bytes) :
    setMessageField cast message (ascii "message") (.string text) = some { message with message := some text } := by
  rw [setMessageField, if_neg (by decide), if_neg (by decide), if_neg (by decide), if_pos rfl]
  rfl

theorem setMessageField_clientMessageId (message : MessageDto) (text : Bytes) :
    setMessageField cast message (ascii "clientMessageId") (.string text) =
      some { message with clientMessageId := some text } := by
  rw [setMessageField]
  iterate 11 rw [if_neg (by decide)]
  rw [if_pos rfl]
  rfl

theorem setMessageField_files (message : MessageDto) (items : List Node) :
    setMessageField cast message (ascii "files") (.vector items) =
      (items.mapM (readObject (setFileField cast) {})).map fun files => { message with files := some files } := by
  rw [setMessageField]
  iterate 16 rw [if_neg (by decide)]
  rw [if_pos rfl]
  simp only [readList]
  cases items.mapM (readObject (setFileField cast) {}) <;> rfl

theorem commandMembers_distinct (command : Command) : Distinct (commandMembers command) := by
  apply Distinct.of_names ["code", "message", "files", "clientMessageId"]
  · cases command with
    | mk code message files clientMessageId delivery =>
      apply List.Sublist.cons_cons
      cases message with
      | none =>
        cases files with
        | none => exact List.sublist_append_right ["message", "files"] ["clientMessageId"]
        | some files => exact List.sublist_append_right ["message"] ["files", "clientMessageId"]
      | some message =>
        apply List.Sublist.cons_cons
        cases files with
        | none => exact List.sublist_append_right ["files"] ["clientMessageId"]
        | some files => exact List.Sublist.refl _
  · decide

theorem readCommand (command : Command)
    (id : stringOf (plainPieces command.clientMessageId) = some command.clientMessageId) :
    readFromString cast (wireCommand command) = (receivedCommand command).map some := by
  have notHistory : ascii "code" ≠ ascii "history" ∧ ascii "message" ≠ ascii "history" ∧
      ascii "files" ≠ ascii "history" ∧ ascii "clientMessageId" ≠ ascii "history" := by decide
  obtain ⟨notCode, notMessage, notFiles, notId⟩ := notHistory
  rw [readFromString_wire, commandSpelling, nodeOf_object (commandMembers_distinct command), receivedCommand]
  cases command with
  | mk code message files clientMessageId delivery =>
    dsimp only at id
    cases message with
    | none =>
      cases files with
      | none =>
        simp [commandMembers, nodeOf, id, readMessage, readMessageFields, notCode, notId,
          setMessageField_code, setMessageField_clientMessageId]
      | some files =>
        have read := readFiles cast files
        cases nodes : nodesOf (files.map (objectSpelling ∘ fileMembers)) with
        | none =>
          rw [nodes, Option.bind_none] at read
          have none := Option.map_eq_none_iff.mp read.symm
          simp [commandMembers, nodeOf, nodes, none]
        | some items =>
          rw [nodes, Option.bind_some] at read
          simp [commandMembers, nodeOf, id, nodes, readMessage, readMessageFields, notCode,
            notFiles, notId, setMessageField_code, setMessageField_clientMessageId, setMessageField_files, read]
          cases files.mapM receivedFile <;> simp
    | some message =>
      cases text : stringOf (quoteText message) with
      | none => simp [commandMembers, nodeOf, text, received]
      | some text' =>
        cases files with
        | none =>
          simp [commandMembers, nodeOf, id, text, received, readMessage, readMessageFields,
            notCode, notMessage, notId,
            setMessageField_code, setMessageField_message, setMessageField_clientMessageId]
        | some files =>
          have read := readFiles cast files
          cases nodes : nodesOf (files.map (objectSpelling ∘ fileMembers)) with
          | none =>
            rw [nodes, Option.bind_none] at read
            have none := Option.map_eq_none_iff.mp read.symm
            simp [commandMembers, nodeOf, nodes, none]
          | some items =>
            rw [nodes, Option.bind_some] at read
            simp [commandMembers, nodeOf, id, text, received, nodes, readMessage, readMessageFields, notCode,
              notMessage, notFiles, notId, setMessageField_code, setMessageField_message,
              setMessageField_clientMessageId, setMessageField_files, read]
            cases files.mapM receivedFile <;> simp

end Reading

section Characters
variable {text : JsString} {bytes id : Bytes}

/-- A code unit that is written as its character. -/
def Whole (unit : UInt16) : Prop :=
  singleEscape unit = none ∧ (unit < 0x20 || isHighSurrogate unit || isLowSurrogate unit) = false

instance (unit : UInt16) : Decidable (Whole unit) := inferInstanceAs (Decidable (_ ∧ _))

def encoded (text : JsString) : Bytes := text.flatMap fun unit => String.utf8EncodeChar (Char.ofNat unit.toNat)

theorem quoteUnit_whole (whole : Whole unit) : quoteUnit unit = encodePoint unit.toNat := by
  obtain ⟨unescaped, visible⟩ := whole
  simp only [quoteUnit, unescaped, visible]
  rfl

theorem quoteText_whole (whole : ∀ unit ∈ text, Whole unit) : quoteText text = plainPieces (encoded text) := by
  induction text using quoteText.induct with
  | case1 => rfl
  | case2 unit =>
    rw [quoteText, quoteUnit_whole (whole unit List.mem_cons_self), encoded, List.flatMap_singleton]
    rfl
  | case3 high low rest pair ih =>
    have visible := (whole high List.mem_cons_self).2
    simp only [Bool.and_eq_true] at pair
    simp [pair.1] at visible
  | case4 high low rest alone ih =>
    obtain ⟨first, others⟩ := List.forall_mem_cons.mp whole
    rw [quoteText, if_neg alone, quoteUnit_whole first, ih others]
    exact List.flatMap_append.symm

theorem received_whole (whole : ∀ unit ∈ text, Whole unit)
    (inside : ∀ byte ∈ encoded text, byte.toNat ≠ Json.quote ∧ byte.toNat ≠ Json.backslash) :
    received text = some (encoded text) := by
  rw [received, quoteText_whole whole, stringOf_plain inside]

theorem length_renderText (inside : ∀ byte ∈ bytes, byte.toNat ≠ Json.quote ∧ byte.toNat ≠ Json.backslash) :
    (Json.renderText (plainPieces bytes)).length = bytes.length + 2 := by
  rw [Json.renderText, plain_render inside]
  simp

/-- A message of such characters on the wire. -/
theorem length_wireCommand {command : Command} (code : command.code = .peerMessage) (files : command.files = none)
    (message : command.message = some text) (whole : ∀ unit ∈ text, Whole unit)
    (inside : ∀ byte ∈ encoded text, byte.toNat ≠ Json.quote ∧ byte.toNat ≠ Json.backslash)
    (id : ∀ byte ∈ command.clientMessageId, byte.toNat ≠ Json.quote ∧ byte.toNat ≠ Json.backslash) :
    (wireCommand command).length = (encoded text).length + command.clientMessageId.length + 44 := by
  have names : (∀ byte ∈ ascii "code", byte.toNat ≠ Json.quote ∧ byte.toNat ≠ Json.backslash) ∧
      (∀ byte ∈ ascii "message", byte.toNat ≠ Json.quote ∧ byte.toNat ≠ Json.backslash) ∧
      (∀ byte ∈ ascii "clientMessageId", byte.toNat ≠ Json.quote ∧ byte.toNat ≠ Json.backslash) ∧
      (ascii "code").length = 4 ∧ (ascii "message").length = 7 ∧ (ascii "clientMessageId").length = 15 ∧
      (Json.decimal 3).length = 1 := by decide +kernel
  obtain ⟨codeName, messageName, idName, four, seven, fifteen, one⟩ := names
  have number : (MessageCodes.peerMessage.value : Int) = 3 := rfl
  simp only [wireCommand, commandSpelling, objectSpelling, commandMembers, code, files, message, Option.map_some,
    Option.map_none, Option.toList_some, Option.toList_none, List.cons_append, List.nil_append, List.map_cons,
    List.map_nil, member, Spelling.render, Json.renderMembers, List.length_map, List.length_append, List.length_cons,
    List.length_nil, quoteText_whole whole, length_renderText inside, length_renderText id,
    length_renderText codeName, length_renderText messageName, length_renderText idName, four, seven, fifteen, one,
    number]
  omega

theorem clientMessageId_inside (valid : Session.validClientMessageId id = true) :
    ∀ byte ∈ id, byte.toNat ≠ Json.quote ∧ byte.toNat ≠ Json.backslash := by
  intro byte member
  simp only [Session.validClientMessageId, Session.validBase64UrlId, Bool.and_eq_true, List.all_eq_true] at valid
  have digit := valid.2.2 byte member
  simp only [Session.isBase64Url, Bool.or_eq_true, Bool.and_eq_true, decide_eq_true_eq, UInt8.le_iff_toNat_le,
    ← UInt8.toNat_inj] at digit
  simp at digit
  simp only [Json.quote, Json.backslash]
  omega

end Characters

end Conspire.Frames
