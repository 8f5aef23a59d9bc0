import Conspire.Tor.Text

/-! The replies of a Tor control connection as they are read from its socket: lines out of the
bytes that arrive, and replies out of lines. -/
namespace Conspire.Tor
open Loops

/-- What `recv` returns: bytes, of which there are none once the connection is closed, or an
error with its text. -/
inductive Recv where
  | received (bytes : Bytes)
  | interrupted
  | failed (reason : Bytes)

/-- `m_readBuffer` and what is yet to arrive; behind it the connection is closed. -/
structure Incoming where
  buffer : Bytes
  arrivals : List Recv

def socketError (action reason : Bytes) : Bytes := action ++ ascii ": " ++ reason

def readLine (arrivals : List Recv) (buffer : Bytes) : Except Bytes Bytes × Incoming :=
  match buffer.dropInfix? crlf with
  | some (line, rest) => (.ok line, ⟨rest, arrivals⟩)
  | none =>
    if maxLineBytes ≤ buffer.length then
      (.error (ascii "Tor control reply line exceeds limit"), ⟨buffer, arrivals⟩)
    else
      match arrivals with
      | [] => (.error (ascii "Tor control connection closed while reading"), ⟨buffer, []⟩)
      | .interrupted :: rest => readLine rest buffer
      | .failed reason :: rest => (.error (socketError (ascii "reading Tor control reply") reason), ⟨buffer, rest⟩)
      | .received [] :: rest => (.error (ascii "Tor control connection closed while reading"), ⟨buffer, rest⟩)
      | .received (byte :: bytes) :: rest => readLine rest (buffer ++ byte :: bytes)

def Incoming.readLine (incoming : Incoming) : Except Bytes Bytes × Incoming :=
  Tor.readLine incoming.arrivals incoming.buffer

def isDigit (character : UInt8) : Bool := '0'.toUInt8 ≤ character ∧ character ≤ '9'.toUInt8

/-- A reply so far, with the bytes of its lines. -/
structure Progress where
  reply : Reply := {}
  total : Nat := 0

/-- `if (reply.status == 0) reply.status = status;` -/
def Reply.begun (reply : Reply) (status : Nat) : Nat := if reply.status = 0 then status else reply.status

/-- One more line of a reply. -/
def takeLine (progress : Progress) (line : Bytes) : Except Bytes (Turn Progress Reply) :=
  let total := progress.total + line.length
  match line with
  | first :: second :: third :: separator :: text =>
    if maxReplyBytes < total ∨ ¬ isDigit first ∨ ¬ isDigit second ∨ ¬ isDigit third then
      .error (ascii "malformed Tor control reply")
    else
      let status := (first.toNat - '0'.toNat) * 100 + (second.toNat - '0'.toNat) * 10 + (third.toNat - '0'.toNat)
      let replyStatus := progress.reply.begun status
      if status ≠ replyStatus ∨ separator ≠ '-'.toUInt8 ∧ separator ≠ ' '.toUInt8 then
        .error (ascii "unsupported Tor control reply framing")
      else
        let reply : Reply := { status := replyStatus, lines := progress.reply.lines ++ [text] }
        if separator = ' '.toUInt8 then .ok (.done reply) else .ok (.next { reply, total })
  | _ => .error (ascii "malformed Tor control reply")

theorem takeLine_next (is : takeLine progress line = .ok (.next next)) :
    progress.total < next.total ∧ next.total ≤ maxReplyBytes := by
  unfold takeLine at is
  dsimp only at is
  split at is
  · rename_i first second third separator text
    split at is
    · cases is
    split at is
    · cases is
    split at is
    · cases is
    · rename_i sized _ _
      cases is
      simp only [List.length_cons, not_or, Nat.not_lt] at sized ⊢
      exact ⟨by omega, sized.1⟩
  · cases is

/-- One line of `readReply`. -/
def replyRound : Progress × Incoming → Except (Bytes × Incoming) (Turn (Progress × Incoming) (Reply × Incoming))
  | (progress, incoming) =>
    match incoming.readLine with
    | (.error e, incoming) => .error (e, incoming)
    | (.ok line, incoming) =>
      match takeLine progress line with
      | .error e => .error (e, incoming)
      | .ok (.done reply) => .ok (.done (reply, incoming))
      | .ok (.next next) => .ok (.next (next, incoming))

/-- The lines of a reply are at least four bytes each, and `maxReplyBytes` at most together. -/
def replyLoop : Loop (Progress × Incoming) (Reply × Incoming) (Bytes × Incoming) where
  round := replyRound
  measure state := maxReplyBytes - state.1.total
  falls := by
    rintro ⟨progress, incoming⟩ ⟨next, after⟩ is
    simp only [replyRound] at is
    split at is
    · cases is
    split at is
    · cases is
    · cases is
    · rename_i taken
      cases is
      have grows := takeLine_next taken
      dsimp only
      omega

/-- `readReply` with a part of the reply read. -/
def Incoming.readReplyFrom (progress : Progress) (incoming : Incoming) : Except Bytes Reply × Incoming :=
  match replyLoop.run (progress, incoming) with
  | .ok (reply, incoming) => (.ok reply, incoming)
  | .error (e, incoming) => (.error e, incoming)

def Incoming.readReply (incoming : Incoming) : Except Bytes Reply × Incoming := incoming.readReplyFrom {}

section
variable {incoming after : Incoming} {progress next : Progress} {line : Bytes}

theorem readReplyFrom_fail (is : incoming.readLine = (.error e, after)) :
    incoming.readReplyFrom progress = (.error e, after) := by
  have round : replyRound (progress, incoming) = .error (e, after) := by
    rw [replyRound, is]
  have ends : replyLoop.run (progress, incoming) = .error (e, after) := Loop.run_fail round
  rw [Incoming.readReplyFrom, ends]

theorem readReplyFrom_error (is : incoming.readLine = (.ok line, after)) (taken : takeLine progress line = .error e) :
    incoming.readReplyFrom progress = (.error e, after) := by
  have round : replyRound (progress, incoming) = .error (e, after) := by
    simp only [replyRound, is, taken]
  have ends : replyLoop.run (progress, incoming) = .error (e, after) := Loop.run_fail round
  rw [Incoming.readReplyFrom, ends]

theorem readReplyFrom_done (is : incoming.readLine = (.ok line, after))
    (taken : takeLine progress line = .ok (.done reply)) :
    incoming.readReplyFrom progress = (.ok reply, after) := by
  have round : replyRound (progress, incoming) = .ok (.done (reply, after)) := by
    simp only [replyRound, is, taken]
  have ends : replyLoop.run (progress, incoming) = .ok (reply, after) := Loop.run_done round
  rw [Incoming.readReplyFrom, ends]

theorem readReplyFrom_next (is : incoming.readLine = (.ok line, after))
    (taken : takeLine progress line = .ok (.next next)) :
    incoming.readReplyFrom progress = after.readReplyFrom next := by
  have round : replyRound (progress, incoming) = .ok (.next (next, after)) := by
    simp only [replyRound, is, taken]
  have goes : replyLoop.run (progress, incoming) = replyLoop.run (next, after) := Loop.run_next round
  rw [Incoming.readReplyFrom, goes, Incoming.readReplyFrom]

end

/-- A call of `recv` that is not made again. -/
def Recv.counts : Recv → Bool
  | .interrupted => false
  | _ => true

/-- A line takes no more off the connection than it may be long. -/
theorem readLine_bounded (arrivals : List Recv) (buffer : Bytes) :
    ∃ taken, arrivals = taken ++ (readLine arrivals buffer).2.arrivals ∧
      taken.countP Recv.counts ≤ maxLineBytes - buffer.length := by
  induction arrivals generalizing buffer with
  | nil =>
    refine ⟨[], ?_, Nat.zero_le _⟩
    rw [readLine]
    split
    · rfl
    · split <;> rfl
  | cons arrival rest ih =>
    rw [readLine.eq_def]
    split
    · exact ⟨[], rfl, Nat.zero_le _⟩
    split
    · exact ⟨[], rfl, Nat.zero_le _⟩
    rename_i short
    have room : 1 ≤ maxLineBytes - buffer.length := by omega
    cases arrival with
    | interrupted =>
      obtain ⟨taken, is, few⟩ := ih buffer
      refine ⟨.interrupted :: taken, by simpa using is, ?_⟩
      simpa [List.countP_cons, Recv.counts] using few
    | failed reason => exact ⟨[.failed reason], rfl, room⟩
    | received bytes =>
      cases bytes with
      | nil => exact ⟨[.received []], rfl, room⟩
      | cons byte bytes =>
        obtain ⟨taken, is, few⟩ := ih (buffer ++ byte :: bytes)
        refine ⟨.received (byte :: bytes) :: taken, by simpa using is, ?_⟩
        simp only [List.countP_cons, Recv.counts, if_true, List.length_append, List.length_cons] at few ⊢
        omega

/-- What is left of a connection after a round. -/
def roundAfter : Except (Bytes × Incoming) (Turn (Progress × Incoming) (Reply × Incoming)) → Incoming
  | .ok (.next (_, incoming)) => incoming
  | .ok (.done (_, incoming)) => incoming
  | .error (_, incoming) => incoming

/-- What is left of a connection after a reply. -/
def replyAfter : Except (Bytes × Incoming) (Reply × Incoming) → Incoming
  | .ok (_, incoming) => incoming
  | .error (_, incoming) => incoming

theorem replyRound_bounded (state : Progress × Incoming) :
    ∃ taken, state.2.arrivals = taken ++ (roundAfter (replyRound state)).arrivals ∧
      taken.countP Recv.counts ≤ maxLineBytes := by
  obtain ⟨progress, incoming⟩ := state
  obtain ⟨taken, is, few⟩ := readLine_bounded incoming.arrivals incoming.buffer
  have same : roundAfter (replyRound (progress, incoming)) = incoming.readLine.2 := by
    simp only [replyRound]
    obtain ⟨read, after⟩ := incoming.readLine
    cases read with
    | error e => rfl
    | ok line =>
      dsimp only
      split <;> rfl
  exact ⟨taken, by rw [same]; exact is, by omega⟩

theorem rounds_bounded {n : Nat} {state : Progress × Incoming} {result : Except (Bytes × Incoming) (Reply × Incoming)}
    (ends : replyLoop.Ends n state result) :
    ∃ taken, state.2.arrivals = taken ++ (replyAfter result).arrivals ∧
      taken.countP Recv.counts ≤ n * maxLineBytes := by
  have first (state : Progress × Incoming) := replyRound_bounded state
  induction ends with
  | @fail state e is =>
    obtain ⟨taken, split, few⟩ := first state
    rw [show replyRound state = .error e from is] at split
    exact ⟨taken, split, by omega⟩
  | @done state r is =>
    obtain ⟨taken, split, few⟩ := first state
    rw [show replyRound state = .ok (.done r) from is] at split
    exact ⟨taken, split, by omega⟩
  | @next state t rounds result is ends ih =>
    obtain ⟨taken, split, few⟩ := first state
    obtain ⟨later, split', few'⟩ := ih
    rw [show replyRound state = .ok (.next t) from is] at split
    refine ⟨taken ++ later, ?_, ?_⟩
    · rw [List.append_assoc, ← split']
      exact split
    · rw [List.countP_append, Nat.add_mul]
      omega

theorem readReply_bounded (incoming : Incoming) :
    ∃ taken, incoming.arrivals = taken ++ incoming.readReply.2.arrivals ∧
      taken.countP Recv.counts ≤ (maxReplyBytes + 1) * maxLineBytes := by
  obtain ⟨rounds, few, ends⟩ := replyLoop.run_ends ({}, incoming)
  obtain ⟨taken, is, bounded⟩ := rounds_bounded ends
  refine ⟨taken, ?_, Nat.le_trans bounded (Nat.mul_le_mul_right _ few)⟩
  rw [is, Incoming.readReply, Incoming.readReplyFrom]
  cases replyLoop.run ({}, incoming) <;> rfl

end Conspire.Tor
