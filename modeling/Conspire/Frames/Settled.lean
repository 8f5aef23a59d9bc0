import Conspire.Browser.Chat
import Conspire.Frames.Acknowledged

/-! What comes of a command that the browser has queued. The server answers it with an acknowledgement
or an error that names it, unless it never gets to the command's id: the message is too large or has
an escape that the reader of the server does not take. -/
namespace Conspire.Frames
open Session Browser
open Json (Piece Spelling)

section Receiving

/-- The shape of a queued command. -/
structure Shape (command : Command) : Prop where
  id : validClientMessageId command.clientMessageId = true
  code : command.code = .peerMessage ∨ command.code = .fileShare
  mediaTypes : ∀ files ∈ command.files, ∀ file ∈ files, ∀ mediaType ∈ file.mediaType,
    mediaType ∈ Browser.imageMediaTypes

theorem shape_of_queued (queued : Queued command) : Shape command := by
  cases queued with
  | message _ submitted =>
    unfold submitMessage at submitted
    split at submitted
    · contradiction
    · cases submitted
      exact ⟨randomId_valid _, .inl rfl, fun _ none => absurd none (by simp)⟩
  | files handled =>
    unfold handleFiles at handled
    split at handled
    · contradiction
    · cases handled
      refine ⟨randomId_valid _, .inr rfl, fun files listed file member mediaType kept => ?_⟩
      cases listed
      obtain ⟨index, within, rfl⟩ := List.mem_mapIdx.mp member
      dsimp only at kept
      unfold imageCandidateMediaType at kept
      split at kept
      · rename_i candidate
        cases kept
        simp only [Bool.and_eq_true] at candidate
        exact List.contains_iff_mem.mp candidate.2
      · contradiction

end Receiving

section Answers
variable {config : ConfigDto} {peer next : Peer} {s : Surroundings} {message : MessageDto} {id : Bytes}

/-- An acknowledgement or an error with the command's id. -/
def Answered (id : Bytes) : Answer → Prop
  | .acknowledge reply _ => reply.code = some .messageAck ∧ reply.clientMessageId = some id
  | .error reply => reply.code = some .apiError ∧ reply.clientMessageId = some id
  | .thrown | .unanswered => False

/-- The handler neither refuses the command nor has it handled before. -/
def Publishes (peer : Peer) (s : Surroundings) (message : MessageDto) : Prop :=
  checkCommand message = none ∧ peer.dedupe.find (message.clientMessageId.getD []) = none ∧
    peer.dedupe.full = false ∧ (prepare peer s.room message s.shared).isSome = true

/-- A refusal that names the command. -/
def refusal (text id : Bytes) : MessageDto := apiError text (some id)

/-- The texts of such refusals. -/
def refusals : List String :=
  ["Invalid message content.", "Invalid files list.", "Invalid file descriptor.",
    "Retryable command capacity reached.", "File limit reached."]

/-- What the handlers of PEER_MESSAGE and FILE_SHARE make of a command that has its id. -/
inductive Handled (config : ConfigDto) (peer : Peer) (s : Surroundings) (message : MessageDto) (id : Bytes) :
    Answer × Peer × Room → Prop where
  | refused : text ∈ refusals → ¬ Publishes peer s message →
      Handled config peer s message id (.error (refusal (ascii text) id), peer, s.room)
  | known : peer.dedupe.find id = some prior → ¬ Publishes peer s message →
      Handled config peer s message id (.acknowledge (messageAck id prior) none, peer, s.room)
  | exhausted {after : Peer} : Publishes peer s message →
      (s.ordering peer message).sequencer.latest = maxSequence →
      Handled config peer s message id (.thrown, after, room)
  | published {after : Peer} : Publishes peer s message → (s.ordering peer message).sequencer.latest ≠ maxSequence →
      (s.ordering peer message).addHistoryMessage config base = some (room, event) →
      Handled config peer s message id (.acknowledge (messageAck id room.sequencer.latest) (some event), after, room)

/-- What is sent for an answer. -/
def Answer.reply : Answer → Option MessageDto
  | .acknowledge reply _ => some reply
  | .error reply => some reply
  | .thrown | .unanswered => none

/-- The command is acknowledged or rejected, and not sent again. -/
theorem Answered.leaves {answer : Answer} {page : Page} (answered : Answered id answer)
    (sent : answer.reply = some message) (established : page.transport.state ≠ .handshaking) :
    ∀ command ∈ (page.onOtherMessage delay message).reliability.outbox, command.clientMessageId ≠ id := by
  have removed : ∀ state : ReliabilityState, ∀ command ∈ (state.remove id).outbox, command.clientMessageId ≠ id := by
    intro state command member
    simpa using (List.mem_filter.mp member).2
  intro command member
  cases answer with
  | acknowledge reply event =>
    cases sent
    obtain ⟨code, named⟩ := answered
    simp only [Page.onOtherMessage, code, named, ReliabilityState.acknowledge] at member
    exact removed _ command member
  | error reply =>
    cases sent
    obtain ⟨code, named⟩ := answered
    simp only [Page.onOtherMessage, code, named, if_neg established, ReliabilityState.reject] at member
    split at member
    · rename_i unknown
      have other := List.find?_eq_none.mp unknown command member
      simpa using other
    · exact removed _ command member
  | thrown => contradiction
  | unanswered => contradiction

end Answers

section Examples

end Examples

end Conspire.Frames
