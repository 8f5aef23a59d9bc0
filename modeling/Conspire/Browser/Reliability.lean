import Conspire.Server.Dto

/-! The browser's retry and replay state (`front/chat/reliability.js`): the outbox
of unacknowledged commands, the durable cursor, the pre-READY inbox and the
reconciliation of a server snapshot. -/
namespace Conspire.Browser

/-- The UTF-16 code units of a JavaScript string. -/
abbrev JsString := List UInt16

/-- A JavaScript number read from a message field: its value when it is an
integer, `none` for anything else (also for a missing field). -/
abbrev JsNumber := Option Int

def maxSafeInteger : Nat := 2 ^ 53 - 1

def isSafeInteger (value : JsNumber) : Bool :=
  match value with
  | none => false
  | some value => value.natAbs ≤ maxSafeInteger

/-- The number `JSON.parse` reads from a field the server wrote as `uint64_t`.
Integers above the safe range keep their decimal value here: the double they
round to is not safe either, and the browser only asks for that. -/
def jsNumber (field : Option Nat) : JsNumber := field.map Int.ofNat

/-- A file descriptor of a FILE_SHARE command. -/
structure JsFile where
  name : JsString
  clientFileId : Nat
  size : Nat
  mediaType : Option JsString := none
  deriving DecidableEq, Repr

inductive Delivery where
  | sending | sent | notSent
  deriving DecidableEq, Repr

/-- A retryable command; `delivery` never reaches the wire. -/
structure Command where
  code : MessageCodes
  message : Option JsString := none
  files : Option (List JsFile) := none
  clientMessageId : Bytes
  delivery : Delivery := .sending
  deriving DecidableEq, Repr

def maxOutbox : Nat := 100
def maxSeen : Nat := 2048
def maxHandshakeInbox : Nat := 256

/-- `outbox` is a `Map` in insertion order, `seen` a `Set`. -/
structure ReliabilityState where
  outbox : List Command := []
  abandoned : List Command := []
  seen : List Int := []
  highestServerSeq : Int := 0
  deriving Repr

/-- `while (seen.delete(this.highestServerSeq + 1)) this.highestServerSeq += 1;`
Every round deletes one element, so `seen.size` rounds are enough. -/
def advance : Nat → List Int → Int → List Int × Int
  | 0, seen, highest => (seen, highest)
  | rounds + 1, seen, highest =>
    if highest + 1 ∈ seen then advance rounds (seen.erase (highest + 1)) (highest + 1)
    else (seen, highest)

namespace ReliabilityState

/-- `Map.set` on the outbox: a known id keeps its place. -/
def setCommand (outbox : List Command) (command : Command) : List Command :=
  if outbox.any (·.clientMessageId = command.clientMessageId) then
    outbox.map fun old => if old.clientMessageId = command.clientMessageId then command else old
  else outbox ++ [command]

def enqueue (state : ReliabilityState) (command : Command) : ReliabilityState × Bool :=
  if maxOutbox ≤ state.outbox.length then (state, false)
  else ({ state with outbox := setCommand state.outbox command }, true)

def remove (state : ReliabilityState) (id : Bytes) : ReliabilityState :=
  { state with outbox := state.outbox.filter (·.clientMessageId ≠ id) }

def acknowledge (state : ReliabilityState) (id : Bytes) : ReliabilityState × Option Command :=
  (state.remove id,
   (state.outbox.find? (·.clientMessageId = id)).map fun command => { command with delivery := .sent })

def reject (state : ReliabilityState) (id : Bytes) : ReliabilityState × Option Command :=
  match state.outbox.find? (·.clientMessageId = id) with
  | none => (state, none)
  | some command =>
    let command := { command with delivery := .notSent }
    ({ state.remove id with abandoned := state.abandoned ++ [command] }, some command)

def pending (state : ReliabilityState) : List Command := state.outbox

def restoreCursor (state : ReliabilityState) (sequence : JsNumber) : ReliabilityState :=
  match sequence with
  | none => state
  | some value =>
    if state.seen.isEmpty && state.highestServerSeq = 0 && isSafeInteger sequence && 0 < value then
      { state with highestServerSeq := value }
    else state

def resetSequence (state : ReliabilityState) : ReliabilityState :=
  { state with seen := [], highestServerSeq := 0 }

def acceptSequence (state : ReliabilityState) (sequence : JsNumber) : ReliabilityState × Bool :=
  match sequence with
  | none => (state, false)
  | some value =>
    if !isSafeInteger sequence || value ≤ state.highestServerSeq || value ∈ state.seen then
      (state, false)
    else if maxSeen ≤ state.seen.length && value ≠ state.highestServerSeq + 1 then (state, false)
    else
      let seen := state.seen ++ [value]
      let (seen, highest) := advance seen.length seen state.highestServerSeq
      ({ state with seen, highestServerSeq := highest }, true)

/-- The sequences of a snapshot that `replaceHistory` looks at. -/
def safeSequences (events : List MessageDto) : List Int :=
  events.filterMap fun event =>
    match jsNumber event.serverSeq with
    | none => none
    | some value => if isSafeInteger (some value) && 0 < value then some value else none

/-- The cursor a snapshot starts from: just below its earliest event. -/
def replaceHistory (state : ReliabilityState) (events : List MessageDto)
    (latestServerSeq : JsNumber) : ReliabilityState :=
  let highest := match (safeSequences events).min? with
    | some least => least - 1
    | none => match latestServerSeq with
      | some latest => if isSafeInteger latestServerSeq && 0 < latest then latest else 0
      | none => 0
  { state.resetSequence with highestServerSeq := highest }

def abandon (state : ReliabilityState) : ReliabilityState :=
  { state with
    outbox := []
    abandoned := state.abandoned ++ state.outbox.map fun command => { command with delivery := .notSent } }

end ReliabilityState

/-- `push` of the handshake inbox; `none` is its refusal. -/
def pushHandshake (inbox : List MessageDto) (message : MessageDto) : Option (List MessageDto) :=
  if maxHandshakeInbox ≤ inbox.length then none else some (inbox ++ [message])

/-- In-order delivery: the next safe sequence is admitted and `seen` stays empty. -/
theorem acceptSequence_next (state : ReliabilityState) (empty : state.seen = [])
    (positive : 0 ≤ state.highestServerSeq)
    (safe : (state.highestServerSeq + 1).natAbs ≤ maxSafeInteger) :
    state.acceptSequence (some (state.highestServerSeq + 1)) =
      ({ state with highestServerSeq := state.highestServerSeq + 1 }, true) := by
  have next : ¬ state.highestServerSeq + 1 ≤ state.highestServerSeq := by omega
  obtain ⟨outbox, abandoned, seen, highest⟩ := state
  simp only at empty
  subst empty
  simp_all [ReliabilityState.acceptSequence, isSafeInteger, advance]

/-- A sequence at or below the cursor changes nothing. -/
theorem acceptSequence_old (state : ReliabilityState) (sequence : Int)
    (old : sequence ≤ state.highestServerSeq) :
    state.acceptSequence (some sequence) = (state, false) := by
  simp [ReliabilityState.acceptSequence, old]

end Conspire.Browser
