import Conspire.Frames.Protocol
import Conspire.Frames.Spelled

/-! A frame of the server at the browser: the page is handed it if all its strings are legible and it
takes no more characters than `parseProtocolMessage` admits. -/
namespace Conspire.Frames
open Json (Piece Spelling Value)

/-- A string that is written as it is, in ASCII. -/
def Plain (key : Bytes) : Prop := key.all (fun byte => 0x20 ≤ byte && byte < 0x80 && !isMarked byte) = true

instance : Decidable (Plain key) := inferInstanceAs (Decidable (_ = true))

theorem Plain.chunks (plain : Plain key) :
    chunks key = key.map ([·]) ∧ ∀ byte ∈ key, ¬ byte < 32 ∧ byte < 128 ∧ isMarked byte = false := by
  induction key with
  | nil => exact ⟨by rw [Frames.chunks]; rfl, fun _ none => absurd none List.not_mem_nil⟩
  | cons a rest ih =>
    simp only [Plain, List.all_cons, Bool.and_eq_true, decide_eq_true_eq, Bool.not_eq_true'] at plain
    obtain ⟨⟨⟨visible, small⟩, unmarked⟩, plain⟩ := plain
    obtain ⟨is, all⟩ := ih plain
    have below : a.toNat < 128 := by simpa [UInt8.lt_iff_toNat_lt] using small
    have single := (sequenceLength a).2.1.mpr below
    refine ⟨by rw [chunks_cons, single, List.take_zero, List.drop_zero, is]; rfl, List.forall_mem_cons.mpr ⟨?_, all⟩⟩
    exact ⟨by simpa using visible, small, unmarked⟩

theorem Plain.meaning (plain : Plain key) : (pieces key).mapM Piece.unit = some (key.map UInt8.toNat) := by
  obtain ⟨is, all⟩ := plain.chunks
  rw [pieces, is, List.flatMap_map]
  clear is plain
  induction key with
  | nil => rfl
  | cons a rest ih =>
    obtain ⟨⟨visible, small, unmarked⟩, others⟩ := List.forall_mem_cons.mp all
    have inside : a.toNat ≠ Json.quote ∧ a.toNat ≠ Json.backslash := by
      have marks := mt (isMarked_iff a).mpr (by simp [unmarked])
      simp only [Json.quote, Json.backslash]
      omega
    have whole : ¬ a.toNat < 0x20 := by simpa [UInt8.lt_iff_toNat_lt] using visible
    rw [List.flatMap_cons, chunkPieces, if_neg visible, if_pos small, if_neg (by simp [unmarked]), plainPiece,
      dif_pos inside, List.singleton_append, List.mapM_cons, ih others, Piece.unit, if_neg whole]
    rfl

/-- The members that fields of plain names become. -/
theorem members_of {fields : List (Bytes × Tree)} {members : List (List Nat × Value)}
    (is : Json.meaningMembers (spelledFields fields) = some members) (plain : ∀ field ∈ fields, Plain field.1) :
    members.map Prod.fst = fields.map (fun field => field.1.map UInt8.toNat) ∧
      ∀ key node, (key, node) ∈ fields → ∃ value, node.spelled.meaning = some value ∧
        (key.map UInt8.toNat, value) ∈ members := by
  induction fields generalizing members with
  | nil =>
    rw [spelledFields, Json.meaningMembers_nil] at is
    cases is
    exact ⟨rfl, fun _ _ none => absurd none List.not_mem_nil⟩
  | cons field fields ih =>
    obtain ⟨key, node⟩ := field
    rw [spelledFields, Json.meaningMembers_cons, (plain _ List.mem_cons_self).meaning, Option.bind_some,
      Option.bind_eq_some_iff] at is
    obtain ⟨value, meaning, is⟩ := is
    obtain ⟨others, rest, rfl⟩ := Option.map_eq_some_iff.mp is
    obtain ⟨names, values⟩ := ih rest fun field member => plain field (List.mem_cons_of_mem _ member)
    refine ⟨by rw [List.map_cons, names]; rfl, fun other inner member => ?_⟩
    rcases List.mem_cons.mp member with same | later
    · cases same
      exact ⟨value, meaning, List.mem_cons_self⟩
    · obtain ⟨value, meaning, found⟩ := values other inner later
      exact ⟨value, meaning, List.mem_cons_of_mem _ found⟩

/-- Fields with these names are plain and different. -/
def WellNamed (fields : List (String × Option Tree)) : Prop :=
  (fields.map fun field => ascii field.1).Nodup ∧ ∀ field ∈ fields, Plain (ascii field.1)

theorem toNat_injective : Function.Injective (List.map UInt8.toNat) :=
  List.map_injective_iff.mpr fun _ _ same => UInt8.toNat_inj.mp same

theorem object_get {fields : List (String × Option Tree)} {value : Value} (named : WellNamed fields)
    (meaning : (object fields).spelled.meaning = some value) (member : (name, some node) ∈ fields) :
    ∃ members, value = .object members ∧
      ∃ inner, node.spelled.meaning = some inner ∧ value.get ((ascii name).map UInt8.toNat) = some inner := by
  obtain ⟨distinct, plain⟩ := named
  rw [object, Tree.spelled, Spelling.meaning] at meaning
  obtain ⟨members, is, rfl⟩ := Option.map_eq_some_iff.mp meaning
  have kept : ∀ field ∈ present fields, Plain field.1 := by
    intro field member
    obtain ⟨⟨name, node⟩, inside, is⟩ := List.mem_filterMap.mp member
    obtain ⟨node, rfl, rfl⟩ := Option.map_eq_some_iff.mp is
    exact plain _ inside
  obtain ⟨names, values⟩ := members_of is kept
  have unique : (members.map Prod.fst).Nodup := by
    have keys : ((present fields).map Prod.fst).Sublist (fields.map fun field => ascii field.1) := by
      clear is meaning kept names values member plain distinct
      induction fields with
      | nil => exact .slnil
      | cons field fields ih =>
        obtain ⟨name, node⟩ := field
        cases node with
        | none => exact .cons _ ih
        | some node => exact .cons_cons _ ih
    rw [names]
    have mapped := (distinct.sublist keys).map toNat_injective
    rwa [List.map_map] at mapped
  have found : (ascii name, node) ∈ present fields :=
    List.mem_filterMap.mpr ⟨_, member, rfl⟩
  obtain ⟨inner, meaning, inside⟩ := values _ _ found
  exact ⟨members, rfl, inner, meaning, Json.get_of_nodup unique inside⟩

/-- The page is handed a frame with a known code if the frame is legible and not too long. -/
theorem receive_object {fields : List (String × Option Tree)} {code : MessageCodes} (named : WellNamed fields)
    (coded : ("code", some (natural code.value)) ∈ fields) :
    (receive (object fields).serialize).isSome ↔ (object fields).legible = true ∧ (object fields).width ≤ 8192 := by
  rcases serialize_written (object fields) with ⟨small, units, meant⟩ | ⟨undecodable, fine⟩
  · have length : (object fields).spelled.render.length = (object fields).width := by
      rw [← units, List.length_map, length_serialize]
    rw [receive, payload_ascii small, Option.bind_some, units, parseProtocolMessage, length, Json.parse_render,
      ← meant]
    by_cases long : 8192 < (object fields).width
    · rw [if_pos long]
      simp only [Option.isSome_none, Bool.false_eq_true, false_iff, not_and]
      omega
    · rw [if_neg long]
      cases meaning : (object fields).spelled.meaning with
      | none => simp
      | some value =>
        obtain ⟨members, rfl, inner, number, found⟩ := object_get named meaning coded
        rw [natural, Tree.spelled, Spelling.meaning] at number
        cases number
        have name : (ascii "code").map UInt8.toNat = Json.units "code" := by decide
        have sign : decide ((code.value : Int) < 0) = false := by simp
        rw [name, sign, Int.natAbs_natCast] at found
        simp [found, knownCode_value, Nat.le_of_not_lt long]
  · rw [receive, payload_none undecodable.broken, fine]
    simp

theorem legible_ascii {data : Bytes} (small : ∀ byte ∈ data, byte < 128) : legible data = true := by
  have all : ∀ chunk ∈ chunks data, (!strayChunk chunk && !spoiltChunk chunk) = true := by
    induction data using chunks.induct with
    | case1 =>
      rw [chunks]
      exact fun _ none => absurd none List.not_mem_nil
    | case2 a rest ih =>
      rw [chunks_cons]
      refine List.forall_mem_cons.mpr ⟨?_, ?_⟩
      · have below : ¬ 128 ≤ a := by simpa using small a List.mem_cons_self
        simp [strayChunk, spoiltChunk, below]
      · exact ih fun byte member => small byte (List.mem_cons_of_mem _ (List.mem_of_mem_drop member))
  have ascii : data.all (· < 128) = true := List.all_eq_true.mpr fun byte member => by simpa using small byte member
  rw [legible, ascii, Bool.true_or, Bool.and_true]
  exact List.all_eq_true.mpr all

theorem Plain.legible (plain : Plain key) : Frames.legible key = true :=
  legible_ascii fun byte member => (plain.chunks.2 byte member).2.1

theorem Plain.width (plain : Plain key) : stringWidth key = key.length + 2 := by
  obtain ⟨is, all⟩ := plain.chunks
  rw [stringWidth, escapedSize, is, List.map_map]
  clear is plain
  congr 1
  induction key with
  | nil => rfl
  | cons a rest ih =>
    obtain ⟨⟨visible, small, unmarked⟩, others⟩ := List.forall_mem_cons.mp all
    have one : chunkSize [a] = 1 := by rw [chunkSize, if_neg visible, if_pos small, if_neg (by simp [unmarked])]
    rw [List.map_cons, List.sum_cons, ih others, Function.comp_apply, one, List.length_cons, Nat.add_comm]

/-- A field is as long as its name and its node. -/
def fieldWidth (name : String) (width : Nat) : Nat := stringWidth (ascii name) + 1 + width + 1

theorem object_width (fields : List (String × Option Tree)) : (object fields).width =
    1 + max 1 (fields.map fun (name, node) => node.elim 0 fun node => fieldWidth name node.width).sum := by
  rw [object, Tree.width]
  congr 2
  induction fields with
  | nil => rfl
  | cons field fields ih =>
    obtain ⟨name, node⟩ := field
    cases node with
    | none =>
      rw [List.map_cons, List.sum_cons, ← ih]
      exact (Nat.zero_add _).symm
    | some node =>
      rw [List.map_cons, List.sum_cons, ← ih]
      rfl

theorem object_legible {fields : List (String × Option Tree)} (plain : ∀ field ∈ fields, Plain (ascii field.1)) :
    (object fields).legible = fields.all fun (_, node) => node.all Tree.legible := by
  rw [object, Tree.legible]
  induction fields with
  | nil => rfl
  | cons field fields ih =>
    obtain ⟨name, node⟩ := field
    have others := ih fun field member => plain field (List.mem_cons_of_mem _ member)
    have known := (plain (name, node) List.mem_cons_self).legible
    cases node with
    | none =>
      rw [List.all_cons, ← others]
      exact (Bool.true_and _).symm
    | some node =>
      rw [List.all_cons, ← others, present, List.filterMap_cons]
      simp only [Option.map_some, legibleFields, known, Bool.true_and, Option.all_some]
      rfl

theorem legibleItems_map (tree : α → Tree) (list : List α) :
    legibleItems (list.map tree) = list.all fun element => (tree element).legible := by
  induction list with
  | nil => rfl
  | cons element list ih => rw [List.map_cons, legibleItems, ih, List.all_cons]

theorem itemsWidth_map (tree : α → Tree) (list : List α) :
    itemsWidth (list.map tree) = (list.map fun element => (tree element).width + 1).sum := by
  induction list with
  | nil => rfl
  | cons element list ih => rw [List.map_cons, itemsWidth, ih, List.map_cons, List.sum_cons]

def messageNames : List String :=
  ["peerId", "peerName", "code", "message", "timestamp", "serverSeq", "lastServerSeq", "latestServerSeq",
    "protocolVersion", "resumeToken", "fileCapabilityId", "clientMessageId", "resumed", "resyncRequired", "connected",
    "peers", "history", "files"]

theorem messageNames_named : (messageNames.map ascii).Nodup ∧ ∀ name ∈ messageNames, Plain (ascii name) := by
  decide

theorem messageNames_width : ∀ name ∈ messageNames, stringWidth (ascii name) ≤ 18 := by
  intro name member
  rw [(messageNames_named.2 name member).width]
  exact (by decide : ∀ name ∈ messageNames, (ascii name).length + 2 ≤ 18) name member

theorem messageTree_object (message : MessageDto) (code : message.code = some c) :
    ∃ fields, messageTree message = object fields ∧ WellNamed fields ∧ ("code", some (natural c.value)) ∈ fields := by
  obtain ⟨distinct, plain⟩ := messageNames_named
  cases message
  cases code
  refine ⟨_, by rw [messageTree], ⟨?_, ?_⟩, ?_⟩
  · exact distinct
  · intro field member
    exact plain field.1 (List.mem_map_of_mem (f := Prod.fst) member)
  · simp

/-- A message of the server is handed to the page, or its frame is too long or not legible. -/
theorem receive_message (message : MessageDto) (code : message.code = some c) :
    (receive (writeToString message)).isSome ↔
      (messageTree message).legible = true ∧ (messageTree message).width ≤ 8192 := by
  obtain ⟨fields, is, named, coded⟩ := messageTree_object message code
  rw [writeToString, is]
  exact receive_object named coded

end Conspire.Frames
