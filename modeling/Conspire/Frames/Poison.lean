import Conspire.Browser.Session
import Conspire.Frames.Arrival

/-! Commands that are sent again after every resume. A reply that has the id of a command takes it out
of the outbox for good; the server has no id to reply with when the message of the command is too
large or cannot be read. -/
namespace Conspire.Frames
open Session Browser

section Later
variable {id : Bytes} {page : Page}

/-- What becomes of a page, with the commands it has sent on the way: messages, sockets that open and
any other change of the transport, new documents, and new commands with ids of their own. -/
inductive Onward (id : Bytes) (page : Page) : List Command → Page → Prop where
  | stay : Onward id page [] page
  | message {later : Page} : Onward id page sent later →
      Onward id page (sent ++ (later.onMessage delay message).2) (later.onMessage delay message).1
  | opened {later : Page} : Onward id page sent later → Onward id page sent (later.onOpen generation).1
  | transport {later : Page} : Onward id page sent later → Onward id page sent { later with transport }
  | reload {later : Page} : Onward id page sent later → Onward id page sent (later.reloaded capability)
  | queue {later : Page} : Onward id page sent later → other.clientMessageId ≠ id →
      later.reliability.enqueue other = (reliability, true) →
      Onward id page (sent ++ later.retryPending isOpen [other]) { later with reliability }

theorem setCommand_mem {outbox : List Command} {command other : Command}
    (member : other ∈ ReliabilityState.setCommand outbox command) : other ∈ outbox ∨ other = command := by
  unfold ReliabilityState.setCommand at member
  split at member
  · obtain ⟨old, inside, is⟩ := List.mem_map.mp member
    split at is
    · exact .inr is.symm
    · exact .inl (is ▸ inside)
  · rcases List.mem_append.mp member with inside | last
    · exact .inl inside
    · exact .inr (List.mem_singleton.mp last)

/-- A command that waits no longer is not sent, and does not come to wait. -/
theorem Onward.without {later : Page} {sent : List Command} (onward : Onward id page sent later)
    (settled : ∀ waiting ∈ page.reliability.outbox, waiting.clientMessageId ≠ id) :
    (∀ waiting ∈ later.reliability.outbox, waiting.clientMessageId ≠ id) ∧
      ∀ command ∈ sent, command.clientMessageId ≠ id := by
  induction onward with
  | stay => exact ⟨settled, fun _ none => absurd none List.not_mem_nil⟩
  | @message sent delay message later _ ih =>
    obtain ⟨outbox, retried⟩ := onMessage_outbox later delay message
    refine ⟨fun waiting member => ih.1 waiting (outbox waiting member), fun command member => ?_⟩
    rcases List.mem_append.mp member with before | now
    · exact ih.2 command before
    · exact ih.1 command (retried command now)
  | @opened sent generation later _ ih =>
    rcases onOpen_cases later generation with same | ⟨-, outbox, -⟩
    · rw [same]
      exact ih
    · rw [outbox]
      exact ih
  | transport _ ih => exact ih
  | reload _ ih => exact ⟨fun _ none => absurd none List.not_mem_nil, ih.2⟩
  | queue _ other queued ih =>
    unfold ReliabilityState.enqueue at queued
    split at queued
    · cases queued
    · cases queued
      refine ⟨fun waiting member => ?_, fun command member => ?_⟩
      · rcases setCommand_mem member with before | rfl
        · exact ih.1 waiting before
        · exact other
      · rcases List.mem_append.mp member with before | now
        · exact ih.2 command before
        · unfold Page.retryPending at now
          split at now
          · exact List.mem_singleton.mp now ▸ other
          · exact absurd now List.not_mem_nil

end Later

section Replies
variable {id : Bytes}

end Replies

section Poison
variable {config : ConfigDto} {peer : Peer} {s : Surroundings} {command : Command}

/-- A reply that settles a command: it is published and acknowledged with its sequence, or it was
published and is acknowledged with the sequence it has, or an error names it. -/
inductive Settling (config : ConfigDto) (peer : Peer) (s : Surroundings) (command : Command) :
    Answer × Peer × Room → MessageDto → Prop where
  | published {room : Room} {after : Peer} {sequence : Nat} :
      Carries peer s command event → event.serverSeq = some sequence →
      room.sequencer.latest = sequence → (historyLimit config ≠ 0 → event ∈ room.history) →
      Settling config peer s command
        (.acknowledge (messageAck command.clientMessageId sequence) (some event), after, room)
        (messageAck command.clientMessageId sequence)
  | known {room : Room} {after : Peer} {sequence : Nat} :
      peer.dedupe.find command.clientMessageId = some sequence →
      Settling config peer s command (.acknowledge (messageAck command.clientMessageId sequence) none, after, room)
        (messageAck command.clientMessageId sequence)
  | rejected {room : Room} {after : Peer} :
      Settling config peer s command (.error (refusal text command.clientMessageId), after, room)
        (refusal text command.clientMessageId)

/-- The command has such a reply, the page is handed it and never sends the command again; an error
takes it out through `reject`. -/
def Settles (config : ConfigDto) (peer : Peer) (s : Surroundings) (command : Command)
    (outcome : Answer × Peer × Room) : Prop :=
  ∃ reply, Settling config peer s command outcome reply ∧
    ((∀ sequence ∈ reply.serverSeq, sequence < 2 ^ 64) → (receive (writeToString reply)).isSome = true) ∧
    ∀ (page : Page) (delay : Nat), page.transport.state ≠ .handshaking →
      (reply.code = some .apiError →
        (page.onMessage delay reply).1.reliability = (page.reliability.reject command.clientMessageId).1) ∧
      ∀ sent later, Onward command.clientMessageId (page.onMessage delay reply).1 sent later →
        ∀ other ∈ sent, other.clientMessageId ≠ command.clientMessageId

/-- Without the id there is no such reply, and the page does nothing with the one there is. -/
theorem unsettled (text : Bytes) (next : Peer) (room : Room) :
    ¬ Settles config peer s command (.error (apiError text none), next, room) := by
  rintro ⟨reply, settling, -⟩
  cases settling

end Poison

section Examples

/-- A text of two letters, and a file whose name has quotes. -/
def greeting : Command :=
  { code := .peerMessage, message := some (Browser.jsString "hi"),
    clientMessageId := randomId (Vector.replicate 16 0) }

end Examples

end Conspire.Frames
