import Conspire.Tor.Reply

/-! Replies and the way their bytes are split on the way. The length of a line is tested on what
the buffer holds before its end has arrived, so that the same line may pass or not. -/
namespace Conspire.Tor
open Loops

def recvBytes : Nat := 2048

/-- The lines up to `shortLine` bytes pass however they arrive, and none beyond `longLine` does. -/
def shortLine : Nat := maxLineBytes - crlf.length
def longLine : Nat := maxLineBytes - 1 + recvBytes - crlf.length

/-- A way of splitting a stream into successive results of `recv`. -/
structure Segments (stream : Bytes) (chunks : List Bytes) : Prop where
  whole : chunks.flatten = stream
  sized : ∀ chunk ∈ chunks, 1 ≤ chunk.length ∧ chunk.length ≤ recvBytes

def arrive (chunks : List Bytes) : Incoming := ⟨[], chunks.map .received⟩

/-- What the calls of `readReply` return, one after the other. -/
def outcome : Nat → Incoming → Option Reply
  | 0, incoming => incoming.readReply.1.toOption
  | call + 1, incoming => outcome call incoming.readReply.2

/-- Replies that do not depend on how their bytes are split. -/
def Independent (stream : Bytes) : Prop :=
  ∀ chunks chunks', Segments stream chunks → Segments stream chunks' →
    ∀ call, outcome call (arrive chunks) = outcome call (arrive chunks')

theorem rest_shorter {stream line rest : Bytes} (found : stream.dropInfix? crlf = some (line, rest)) :
    rest.length < stream.length := by
  rw [(Infix.split_iff.mp found).1]
  simp only [List.length_append, crlf, List.length_cons]
  omega

/-- The lines of a stream that have an end. -/
def lines (stream : Bytes) : List Bytes :=
  match _split : stream.dropInfix? crlf with
  | none => []
  | some (line, rest) => line :: lines rest
termination_by stream.length
decreasing_by exact rest_shorter _split

theorem lines_none (unended : stream.dropInfix? crlf = none) : lines stream = [] := by
  rw [lines]
  split
  · rfl
  · rename_i found
    rw [unended] at found
    cases found

theorem lines_some (found : stream.dropInfix? crlf = some (line, rest)) : lines stream = line :: lines rest := by
  rw [lines]
  split
  · rename_i unended
    rw [found] at unended
    cases unended
  · rename_i here
    rw [found] at here
    cases here
    rfl

/-- Whether a reply is completed by lines that follow on a reply so far. -/
def Completes : Progress → List Bytes → Prop
  | _, [] => False
  | progress, line :: rest =>
    match takeLine progress line with
    | .ok (.done _) => True
    | .ok (.next next) => Completes next rest
    | .error _ => Completes {} rest

/-- The reply that is being read behind some lines. -/
def progressAfter : Progress → List Bytes → Progress
  | progress, [] => progress
  | progress, line :: rest =>
    match takeLine progress line with
    | .ok (.next next) => progressAfter next rest
    | .ok (.done _) | .error _ => progressAfter {} rest

/-- The lines that pass however they arrive: those in front of the first that is not short. -/
def sureLines (stream : Bytes) : List Bytes := (lines stream).takeWhile (·.length ≤ shortLine)

/-- The lines behind these that pass if they arrive in the right pieces. -/
def doubtfulLines (stream : Bytes) : List Bytes :=
  ((lines stream).dropWhile (·.length ≤ shortLine)).takeWhile (·.length ≤ longLine)

/-- From its first line that is not short on, the stream completes no reply. -/
def Settled (stream : Bytes) : Prop :=
  ¬ Completes (progressAfter {} (sureLines stream)) (doubtfulLines stream)

/-- The lines that a connection delivers before it fails for good. -/
inductive Delivers : Incoming → List Bytes → Prop where
  | stuck {incoming after : Incoming} {e : Bytes} : incoming.readLine = (.error e, after) →
      after.readLine = (.error e, after) →
      Delivers incoming []
  | line {incoming after : Incoming} {line : Bytes} {rest : List Bytes} : incoming.readLine = (.ok line, after) →
      Delivers after rest → Delivers incoming (line :: rest)

/-- One call of `readReply` on the lines, with those that it leaves. -/
def call : Progress → List Bytes → Option Reply × List Bytes
  | _, [] => (none, [])
  | progress, line :: rest =>
    match takeLine progress line with
    | .ok (.done reply) => (some reply, rest)
    | .ok (.next next) => call next rest
    | .error _ => (none, rest)

theorem Delivers.read (delivers : Delivers incoming delivered) (progress : Progress) :
    (incoming.readReplyFrom progress).1.toOption = (call progress delivered).1 ∧
      Delivers (incoming.readReplyFrom progress).2 (call progress delivered).2 := by
  induction delivers generalizing progress with
  | stuck is again =>
    rw [readReplyFrom_fail is]
    exact ⟨rfl, .stuck again again⟩
  | @line incoming after line rest is delivers ih =>
    cases taken : takeLine progress line with
    | error e =>
      rw [readReplyFrom_error is taken, call, taken]
      exact ⟨rfl, delivers⟩
    | ok turn =>
      cases turn with
      | done reply =>
        rw [readReplyFrom_done is taken, call, taken]
        exact ⟨rfl, delivers⟩
      | next next =>
        rw [readReplyFrom_next is taken, call, taken]
        exact ih next

/-- The calls of `readReply` on the lines, one after the other. -/
def calls : Nat → Progress → List Bytes → Option Reply
  | 0, progress, lines => (call progress lines).1
  | n + 1, progress, lines => calls n {} (call progress lines).2

theorem Delivers.outcome (delivers : Delivers incoming delivered) (n : Nat) :
    outcome n incoming = calls n {} delivered := by
  induction n generalizing incoming delivered with
  | zero => exact (delivers.read {}).1
  | succ n ih => exact ih (delivers.read {}).2

section Calls
variable {progress next : Progress} {line : Bytes} {front back : List Bytes}

theorem calls_next (taken : takeLine progress line = .ok (.next next)) (n : Nat) :
    calls n progress (line :: back) = calls n next back := by
  cases n <;> rw [calls, calls, call, taken]

theorem calls_done (taken : takeLine progress line = .ok (.done reply)) :
    calls 0 progress (line :: back) = some reply ∧ ∀ n, calls (n + 1) progress (line :: back) = calls n {} back := by
  refine ⟨by rw [calls, call, taken], fun n => ?_⟩
  rw [calls, call, taken]

theorem calls_error (taken : takeLine progress line = .error e) :
    calls 0 progress (line :: back) = none ∧ ∀ n, calls (n + 1) progress (line :: back) = calls n {} back := by
  refine ⟨by rw [calls, call, taken], fun n => ?_⟩
  rw [calls, call, taken]

theorem not_completes_nil : ¬ Completes progress [] := id

/-- Lines that complete no reply only fail. -/
theorem calls_none (settled : ¬ Completes progress back) (n : Nat) : calls n progress back = none := by
  induction back generalizing progress n with
  | nil =>
    induction n generalizing progress with
    | zero => rfl
    | succ n ih => exact ih not_completes_nil
  | cons line rest ih =>
    rw [Completes] at settled
    cases taken : takeLine progress line with
    | error e =>
      rw [taken] at settled
      cases n with
      | zero => exact (calls_error taken).1
      | succ n => exact ((calls_error taken).2 n).trans (ih settled n)
    | ok turn =>
      rw [taken] at settled
      cases turn with
      | done reply => exact absurd trivial settled
      | next next => exact (calls_next taken n).trans (ih settled n)

theorem calls_some (completes : Completes progress back) : ∃ n, calls n progress back ≠ none := by
  induction back generalizing progress with
  | nil => cases completes
  | cons line rest ih =>
    rw [Completes] at completes
    cases taken : takeLine progress line with
    | error e =>
      rw [taken] at completes
      obtain ⟨n, called⟩ := ih completes
      exact ⟨n + 1, by rwa [(calls_error taken).2 n]⟩
    | ok turn =>
      rw [taken] at completes
      cases turn with
      | done reply => exact ⟨0, by rw [(calls_done taken).1]; exact Option.some_ne_none reply⟩
      | next next =>
        obtain ⟨n, called⟩ := ih completes
        exact ⟨n, by rwa [calls_next taken]⟩

theorem completes_append (completes : Completes progress front) (back : List Bytes) :
    Completes progress (front ++ back) := by
  induction front generalizing progress with
  | nil => cases completes
  | cons line rest ih =>
    rw [List.cons_append, Completes]
    rw [Completes] at completes
    cases taken : takeLine progress line with
    | error e =>
      rw [taken] at completes
      exact ih completes
    | ok turn =>
      rw [taken] at completes
      cases turn with
      | done reply => trivial
      | next next => exact ih completes

/-- The calls that end within some lines do not depend on the lines behind them, and the others
go on with the reply that the lines have begun. -/
theorem calls_front (front : List Bytes) (progress : Progress) : ∃ n, ∀ back,
    (∀ k < n, calls k progress (front ++ back) = calls k progress (front ++ [])) ∧
    ∀ m, calls (n + m) progress (front ++ back) = calls m (progressAfter progress front) back := by
  induction front generalizing progress with
  | nil =>
    refine ⟨0, fun back => ⟨nofun, fun m => ?_⟩⟩
    rw [Nat.zero_add, List.nil_append, progressAfter]
  | cons line rest ih =>
    cases taken : takeLine progress line with
    | error e =>
      obtain ⟨n, goes⟩ := ih {}
      refine ⟨n + 1, fun back => ⟨fun k below => ?_, fun m => ?_⟩⟩
      · cases k with
        | zero => exact (calls_error taken).1.trans (calls_error taken).1.symm
        | succ k =>
          rw [List.cons_append, List.cons_append, (calls_error taken).2, (calls_error taken).2]
          exact (goes back).1 k (Nat.lt_of_succ_lt_succ below)
      · rw [Nat.add_right_comm, List.cons_append, (calls_error taken).2, (goes back).2, progressAfter, taken]
    | ok turn =>
      cases turn with
      | done reply =>
        obtain ⟨n, goes⟩ := ih {}
        refine ⟨n + 1, fun back => ⟨fun k below => ?_, fun m => ?_⟩⟩
        · cases k with
          | zero => exact (calls_done taken).1.trans (calls_done taken).1.symm
          | succ k =>
            rw [List.cons_append, List.cons_append, (calls_done taken).2, (calls_done taken).2]
            exact (goes back).1 k (Nat.lt_of_succ_lt_succ below)
        · rw [Nat.add_right_comm, List.cons_append, (calls_done taken).2, (goes back).2, progressAfter, taken]
      | next next =>
        obtain ⟨n, goes⟩ := ih next
        refine ⟨n, fun back => ⟨fun k below => ?_, fun m => ?_⟩⟩
        · rw [List.cons_append, List.cons_append, calls_next taken, calls_next taken]
          exact (goes back).1 k below
        · rw [List.cons_append, calls_next taken, (goes back).2, progressAfter, taken]

/-- Calls on lines of which the last complete no reply. -/
theorem calls_append (settled : ¬ Completes (progressAfter progress front) back) (n : Nat) :
    calls n progress (front ++ back) = calls n progress front := by
  obtain ⟨count, goes⟩ := calls_front front progress
  have alone := goes []
  rw [List.append_nil] at alone
  rcases Nat.lt_or_ge n count with below | above
  · rw [(goes back).1 n below, List.append_nil]
  · obtain ⟨m, rfl⟩ := Nat.exists_eq_add_of_le above
    rw [(goes back).2, alone.2, calls_none settled, calls_none not_completes_nil]

theorem calls_differ (completes : Completes (progressAfter progress front) back) :
    ∃ n, calls n progress (front ++ back) ≠ calls n progress front := by
  obtain ⟨count, goes⟩ := calls_front front progress
  have alone := goes []
  rw [List.append_nil] at alone
  obtain ⟨m, called⟩ := calls_some completes
  refine ⟨count + m, ?_⟩
  rwa [(goes back).2, alone.2, calls_none not_completes_nil]

end Calls

/-- A connection that still carries the stream, in results of `recv` of the right size. -/
def Carries (incoming : Incoming) (stream : Bytes) : Prop :=
  ∃ chunks : List Bytes, incoming.arrivals = chunks.map .received ∧
    (∀ chunk ∈ chunks, 1 ≤ chunk.length ∧ chunk.length ≤ recvBytes) ∧
    incoming.buffer ++ chunks.flatten = stream ∧ incoming.buffer.length < maxLineBytes + recvBytes

/-- What `readLine` comes to: the first line of the stream, or a failure that stays, of which a
short line is no cause. -/
inductive LineRead (stream : Bytes) : Except Bytes Bytes × Incoming → Prop where
  | line {line rest : Bytes} {after : Incoming} : stream.dropInfix? crlf = some (line, rest) → Carries after rest →
      line.length ≤ longLine → LineRead stream (.ok line, after)
  | stuck {e : Bytes} {after : Incoming} : after.readLine = (.error e, after) →
      (∀ line rest, stream.dropInfix? crlf = some (line, rest) → shortLine < line.length) →
      LineRead stream (.error e, after)

theorem readLine_found (found : buffer.dropInfix? crlf = some (line, rest)) (arrivals : List Recv) :
    readLine arrivals buffer = (.ok line, ⟨rest, arrivals⟩) := by
  rw [readLine.eq_def, found]

theorem readLine_full (unended : buffer.dropInfix? crlf = none) (full : maxLineBytes ≤ buffer.length)
    (arrivals : List Recv) : readLine arrivals buffer =
      (.error (ascii "Tor control reply line exceeds limit"), ⟨buffer, arrivals⟩) := by
  rw [readLine.eq_def, unended]
  exact if_pos full

theorem readLine_closed (unended : buffer.dropInfix? crlf = none) (room : buffer.length < maxLineBytes) :
    readLine [] buffer = (.error (ascii "Tor control connection closed while reading"), ⟨buffer, []⟩) := by
  rw [readLine, unended]
  exact if_neg (Nat.not_le.mpr room)

theorem readLine_received (unended : buffer.dropInfix? crlf = none) (room : buffer.length < maxLineBytes)
    (nonempty : 1 ≤ chunk.length) (arrivals : List Recv) :
    readLine (.received chunk :: arrivals) buffer = readLine arrivals (buffer ++ chunk) := by
  cases chunk with
  | nil => cases nonempty
  | cons byte bytes =>
    rw [readLine, unended]
    exact if_neg (Nat.not_le.mpr room)

section Reads
variable {chunks : List Bytes} {buffer line rest : Bytes}

theorem read_found (found : buffer.dropInfix? crlf = some (line, rest))
    (sized : ∀ chunk ∈ chunks, 1 ≤ chunk.length ∧ chunk.length ≤ recvBytes)
    (held : buffer.length < maxLineBytes + recvBytes) :
    LineRead (buffer ++ chunks.flatten) (readLine (chunks.map .received) buffer) := by
  have parts := congrArg List.length (Infix.split_iff.mp found).1
  simp only [List.length_append, crlf, List.length_cons, List.length_nil] at parts
  rw [readLine_found found]
  refine .line (Infix.split_append found _) ⟨chunks, rfl, sized, rfl, ?_⟩ ?_
  · change rest.length < _
    omega
  · simp only [longLine, maxLineBytes, recvBytes, crlf, List.length_cons, List.length_nil] at held ⊢
    omega

theorem read_full (unended : buffer.dropInfix? crlf = none) (full : maxLineBytes ≤ buffer.length) :
    LineRead (buffer ++ chunks.flatten) (readLine (chunks.map .received) buffer) := by
  rw [readLine_full unended full]
  refine .stuck (readLine_full unended full _) fun line rest found => ?_
  have beyond := Infix.split_beyond found (List.prefix_append buffer _) unended
  simp only [shortLine, maxLineBytes, crlf, List.length_cons, List.length_nil] at beyond full ⊢
  omega

/-- The first line of the stream is read, or a failure stays that no short line is the cause of. -/
theorem readLine_read (sized : ∀ chunk ∈ chunks, 1 ≤ chunk.length ∧ chunk.length ≤ recvBytes)
    (held : buffer.length < maxLineBytes + recvBytes) :
    LineRead (buffer ++ chunks.flatten) (readLine (chunks.map .received) buffer) := by
  induction chunks generalizing buffer with
  | nil =>
    cases found : buffer.dropInfix? crlf with
    | some sides => exact read_found found sized held
    | none =>
      by_cases full : maxLineBytes ≤ buffer.length
      · exact read_full found full
      · have room := Nat.not_le.mp full
        rw [List.map_nil, readLine_closed found room]
        refine .stuck (readLine_closed found room) fun line rest is => ?_
        rw [List.flatten_nil, List.append_nil, found] at is
        cases is
  | cons chunk chunks ih =>
    cases found : buffer.dropInfix? crlf with
    | some sides => exact read_found found sized held
    | none =>
      by_cases full : maxLineBytes ≤ buffer.length
      · exact read_full found full
      · have room := Nat.not_le.mp full
        obtain ⟨nonempty, small⟩ := sized chunk (List.mem_cons_self ..)
        rw [List.map_cons, readLine_received found room nonempty, List.flatten_cons, ← List.append_assoc]
        apply ih fun other member => sized other (List.mem_cons_of_mem _ member)
        rw [List.length_append]
        omega

end Reads

theorem sureLines_cons (found : stream.dropInfix? crlf = some (line, rest)) (short : line.length ≤ shortLine) :
    sureLines stream = line :: sureLines rest ∧ doubtfulLines stream = doubtfulLines rest := by
  rw [sureLines, doubtfulLines, lines_some found]
  exact ⟨List.takeWhile_cons_of_pos (by simpa using short),
    by rw [List.dropWhile_cons_of_pos (by simpa using short), doubtfulLines]⟩

theorem sureLines_nil (longer : ∀ line rest, stream.dropInfix? crlf = some (line, rest) → shortLine < line.length) :
    sureLines stream = [] ∧ doubtfulLines stream = (lines stream).takeWhile (·.length ≤ longLine) := by
  rw [sureLines, doubtfulLines]
  cases found : stream.dropInfix? crlf with
  | none =>
    rw [lines_none found]
    exact ⟨rfl, rfl⟩
  | some sides =>
    have long := longer sides.1 sides.2 found
    rw [lines_some found]
    exact ⟨List.takeWhile_cons_of_neg (by simpa using long),
      by rw [List.dropWhile_cons_of_neg (by simpa using long)]⟩

/-- The sure lines and the doubtful ones are all that can pass. -/
theorem sure_append_doubtful (stream : Bytes) :
    sureLines stream ++ doubtfulLines stream = (lines stream).takeWhile (·.length ≤ longLine) := by
  rw [sureLines, doubtfulLines]
  induction lines stream with
  | nil => rfl
  | cons line rest ih =>
    by_cases short : line.length ≤ shortLine
    · have long : line.length ≤ longLine := Nat.le_trans short (by decide)
      rw [List.takeWhile_cons_of_pos (by simpa using short), List.dropWhile_cons_of_pos (by simpa using short),
        List.takeWhile_cons_of_pos (by simpa using long), List.cons_append, ih]
    · rw [List.takeWhile_cons_of_neg (by simpa using short), List.dropWhile_cons_of_neg (by simpa using short),
        List.nil_append]

/-- A connection delivers the sure lines at least, and none beyond the doubtful ones. -/
theorem Carries.delivers (carries : Carries incoming stream) : ∃ middle back,
    Delivers incoming (sureLines stream ++ middle) ∧ middle ++ back = doubtfulLines stream := by
  induction h : stream.length using Nat.strongRecOn generalizing incoming stream with
  | _ n ih =>
    obtain ⟨chunks, arrivals, sized, rfl, held⟩ := carries
    have read := readLine_read sized held
    rw [← arrivals] at read
    cases is : incoming.readLine with
    | mk result after =>
      change LineRead _ incoming.readLine at read
      rw [is] at read
      cases read with
      | stuck again long =>
        obtain ⟨noLines, rest⟩ := sureLines_nil long
        refine ⟨[], doubtfulLines _, ?_, rfl⟩
        rw [noLines]
        exact .stuck is again
      | @line line rest _ found carries within =>
        obtain ⟨middle, back, delivers, split⟩ := ih rest.length (h ▸ rest_shorter found) carries rfl
        by_cases short : line.length ≤ shortLine
        · obtain ⟨sure, doubtful⟩ := sureLines_cons found short
          refine ⟨middle, back, ?_, split.trans doubtful.symm⟩
          rw [sure]
          exact .line is delivers
        · have long : ∀ other back, (incoming.buffer ++ chunks.flatten).dropInfix? crlf = some (other, back) →
              shortLine < other.length := by
            intro other back is
            rw [found] at is
            cases is
            exact Nat.not_le.mp short
          obtain ⟨sure, doubtful⟩ := sureLines_nil long
          refine ⟨line :: (sureLines rest ++ middle), back, ?_, ?_⟩
          · rw [sure]
            exact .line is delivers
          · rw [doubtful, lines_some found,
              List.takeWhile_cons_of_pos (by simpa using within), ← sure_append_doubtful,
              ← split, List.cons_append, List.append_assoc]

section Pieces
variable {stream line rest : Bytes}

/-- A stream that arrives byte by byte. -/
def singles (stream : Bytes) : List Bytes := stream.map fun byte => [byte]

theorem singles_segments (stream : Bytes) : Segments stream (singles stream) where
  whole := by
    induction stream with
    | nil => rfl
    | cons byte rest ih => exact congrArg (byte :: ·) ih
  sized chunk member := by
    obtain ⟨byte, -, rfl⟩ := List.mem_map.mp member
    exact ⟨Nat.le_refl 1, Nat.succ_le_succ (Nat.zero_le _)⟩

theorem readLine_singles {bytes : Bytes} (buffer : Bytes) (arrivals : List Recv)
    (unended : (buffer ++ bytes).dropInfix? crlf = none)
    (fits : (buffer ++ bytes).length ≤ maxLineBytes) :
    readLine ((singles bytes).map .received ++ arrivals) buffer = readLine arrivals (buffer ++ bytes) := by
  induction bytes generalizing buffer with
  | nil =>
    rw [List.append_nil]
    rfl
  | cons byte rest ih =>
    have before := Infix.split_none_within unended (List.prefix_append buffer (byte :: rest))
    have room : buffer.length < maxLineBytes := by
      simp only [List.length_append, List.length_cons] at fits
      omega
    rw [List.append_cons] at unended fits ⊢
    rw [← ih _ unended fits]
    exact readLine_received before room (Nat.le_refl [byte].length) _

/-- The end of a line that arrives in one piece, behind bytes that fit the buffer. -/
theorem readLine_piece (first last : Bytes) (found : stream.dropInfix? crlf = some (line, rest))
    (is : first ++ last = line ++ crlf)
    (nonempty : 1 ≤ last.length) (room : first.length < maxLineBytes) (arrivals : List Recv) :
    readLine ((singles first).map .received ++ .received last :: arrivals) [] = (.ok line, ⟨[], arrivals⟩) := by
  have unended : first.dropInfix? crlf = none := by
    refine Infix.split_within (Infix.split_front found) ⟨last, is⟩ ?_
    have lengths := congrArg List.length is
    rw [List.length_append, List.length_append] at lengths
    omega
  rw [readLine_singles [] _ unended (Nat.le_of_lt room), List.nil_append, readLine_received unended room nonempty, is,
    readLine_found (Infix.split_front found)]

theorem singles_append (front back : Bytes) : singles (front ++ back) = singles front ++ singles back :=
  List.map_append

/-- A line that is not short fills the buffer before its end arrives. -/
theorem singles_stuck (long : ∀ line rest, stream.dropInfix? crlf = some (line, rest) → shortLine < line.length) :
    Delivers (arrive (singles stream)) [] := by
  have front : stream.take maxLineBytes <+: stream := List.take_prefix ..
  have unended : (stream.take maxLineBytes).dropInfix? crlf = none := by
    cases found : stream.dropInfix? crlf with
    | none => exact Infix.split_none_within found front
    | some sides =>
      refine Infix.split_within found front ?_
      have beyond := long sides.1 sides.2 found
      simp only [shortLine, crlf, List.length_take, List.length_cons, List.length_nil] at beyond ⊢
      omega
  have read := readLine_singles [] ((singles (stream.drop maxLineBytes)).map .received) unended
    (List.length_take_le ..)
  rw [← List.map_append, ← singles_append, List.take_append_drop, List.nil_append] at read
  rcases Nat.lt_or_ge stream.length maxLineBytes with room | full
  · rw [List.drop_of_length_le (Nat.le_of_lt room)] at read
    have closed := readLine_closed unended (Nat.lt_of_le_of_lt (List.length_take_le' ..) room)
    exact .stuck (read.trans closed) closed
  · have fills : maxLineBytes ≤ (stream.take maxLineBytes).length :=
      Nat.le_of_eq (List.length_take_of_le full).symm
    have stays := readLine_full unended fills ((singles (stream.drop maxLineBytes)).map .received)
    exact .stuck (read.trans stays) stays

/-- Byte by byte the lines in doubt do not pass. -/
theorem singles_delivers (stream : Bytes) : Delivers (arrive (singles stream)) (sureLines stream) := by
  induction h : stream.length using Nat.strongRecOn generalizing stream with
  | _ n ih =>
    by_cases long : ∀ line rest, stream.dropInfix? crlf = some (line, rest) → shortLine < line.length
    · rw [(sureLines_nil long).1]
      exact singles_stuck long
    · obtain ⟨line, rest, found, short⟩ : ∃ line rest, stream.dropInfix? crlf = some (line, rest) ∧
          line.length ≤ shortLine := by
        simpa only [not_forall, Nat.not_lt, exists_prop] using long
      rw [(sureLines_cons found short).1]
      have pieces : singles stream = singles (line ++ [0x0d]) ++ [0x0a] :: singles rest := by
        rw [(Infix.split_iff.mp found).1]
        simp only [singles, crlf, List.map_append, List.map_cons, List.map_nil, List.append_assoc, List.cons_append,
          List.nil_append]
      have room : (line ++ [0x0d]).length < maxLineBytes := by
        simp only [shortLine, crlf, maxLineBytes, List.length_append, List.length_cons, List.length_nil] at short ⊢
        omega
      have read := readLine_piece (line ++ [0x0d]) [0x0a] found (List.append_assoc ..) (Nat.le_refl _) room
        ((singles rest).map .received)
      rw [← List.map_cons, ← List.map_append, ← pieces] at read
      exact .line read (ih rest.length (h ▸ rest_shorter found) rest rfl)

/-- A text in two pieces, of which the last is as long as it may be. -/
theorem last_piece (text : Bytes) (nonempty : 1 ≤ text.length) (within : text.length ≤ longLine + crlf.length) :
    ∃ first last, first ++ last = text ∧ (1 ≤ last.length ∧ last.length ≤ recvBytes) ∧
    first.length < maxLineBytes := by
  refine ⟨text.take (text.length - recvBytes), text.drop (text.length - recvBytes), List.take_append_drop .., ?_⟩
  simp only [longLine, maxLineBytes, recvBytes, crlf, List.length_cons, List.length_nil, List.length_take,
    List.length_drop] at within ⊢
  omega

/-- There are pieces in which all lines in doubt pass. -/
theorem pieces_deliver (stream : Bytes) : ∃ chunks, Segments stream chunks ∧
    Delivers (arrive chunks) (sureLines stream ++ doubtfulLines stream) := by
  induction h : stream.length using Nat.strongRecOn generalizing stream with
  | _ n ih =>
    by_cases hopeless : ∀ line rest, stream.dropInfix? crlf = some (line, rest) → longLine < line.length
    · have long : ∀ line rest, stream.dropInfix? crlf = some (line, rest) → shortLine < line.length :=
        fun line rest found => Nat.lt_trans (by decide) (hopeless line rest found)
      refine ⟨singles stream, singles_segments stream, ?_⟩
      have noLines : (lines stream).takeWhile (·.length ≤ longLine) = [] := by
        cases found : stream.dropInfix? crlf with
        | none => rw [lines_none found, List.takeWhile_nil]
        | some sides =>
          have beyond := hopeless sides.1 sides.2 found
          rw [lines_some found, List.takeWhile_cons_of_neg (by simpa using beyond)]
      rw [sure_append_doubtful, noLines]
      exact singles_stuck long
    · obtain ⟨line, rest, found, within⟩ : ∃ line rest, stream.dropInfix? crlf = some (line, rest) ∧
          line.length ≤ longLine := by
        simpa only [not_forall, Nat.not_lt, exists_prop] using hopeless
      obtain ⟨chunks, segments, delivers⟩ := ih rest.length (h ▸ rest_shorter found) rest rfl
      have length : (line ++ crlf).length = line.length + crlf.length := List.length_append
      obtain ⟨first, last, is, piece, room⟩ := last_piece (line ++ crlf) (length ▸ Nat.le_add_left 1 _)
        (length ▸ Nat.add_le_add_right within _)
      refine ⟨singles first ++ last :: chunks, ⟨?_, ?_⟩, ?_⟩
      · rw [List.flatten_append, List.flatten_cons, (singles_segments _).whole, segments.whole,
          ← List.append_assoc, is]
        exact (Infix.split_iff.mp found).1.symm
      · intro chunk member
        rcases List.mem_append.mp member with front | back
        · exact (singles_segments _).sized chunk front
        · rcases List.mem_cons.mp back with rfl | other
          · exact piece
          · exact segments.sized chunk other
      · have read := readLine_piece first last found is piece.1 room (chunks.map .received)
        rw [← List.map_cons, ← List.map_append] at read
        rw [sure_append_doubtful, lines_some found, List.takeWhile_cons_of_pos (by simpa using within),
          ← sure_append_doubtful]
        exact .line read delivers

end Pieces

theorem independent (settled : Settled stream) : Independent stream := by
  have same : ∀ chunks, Segments stream chunks → ∀ n, outcome n (arrive chunks) = calls n {} (sureLines stream) := by
    intro chunks segments n
    have carries : Carries (arrive chunks) stream :=
      ⟨chunks, rfl, segments.sized, segments.whole, by change 0 < _; decide⟩
    obtain ⟨middle, back, delivers, split⟩ := carries.delivers
    rw [delivers.outcome, calls_append fun completes => settled ?_]
    rw [← split]
    exact completes_append completes back
  intro chunks chunks' segments segments' call
  rw [same chunks segments, same chunks' segments']

theorem dependent (completes : ¬ Settled stream) : ¬ Independent stream := by
  rw [Settled, not_not] at completes
  intro independent
  obtain ⟨n, differ⟩ := calls_differ completes
  obtain ⟨chunks, segments, delivers⟩ := pieces_deliver stream
  have same := independent chunks (singles stream) segments (singles_segments stream) n
  rw [delivers.outcome, (singles_delivers stream).outcome] at same
  exact differ same

/-- The replies do not depend on how their bytes are split, exactly when the lines from the first
one that is not short on complete none of them. -/
theorem segmentation_matters (stream : Bytes) : Independent stream ↔ Settled stream := by
  constructor
  · intro independent
    by_contra unsettled
    exact dependent unsettled independent
  · exact independent

/-- A stream of one line that is neither short nor beyond what may pass, and completes a reply. -/
theorem long_reply (absent : 0x0d ∉ line) (long : shortLine < line.length) (within : line.length ≤ longLine)
    (taken : takeLine {} line = .ok (.done reply)) : ¬ Independent (line ++ crlf) := by
  have found : (line ++ crlf).dropInfix? crlf = some (line, []) := by
    have split := Infix.split_of_not_mem absent [0x0a] []
    rwa [List.append_nil] at split
  have last : lines [] = [] := lines_none rfl
  have beyond : ∀ other rest, (line ++ crlf).dropInfix? crlf = some (other, rest) → shortLine < other.length := by
    intro other rest is
    rw [found] at is
    cases is
    exact long
  obtain ⟨sure, doubtful⟩ := sureLines_nil beyond
  apply dependent
  rw [Settled, not_not, sure, doubtful, lines_some found, last, List.takeWhile_cons_of_pos (by simpa using within),
    progressAfter, Completes, taken]
  trivial

/-- A reply `250` whose one line is filled up to a length. -/
theorem filled_reply (n : Nat) (fits : n + 4 ≤ maxReplyBytes) :
    0x0d ∉ (0x32 :: 0x35 :: 0x30 :: 0x20 :: List.replicate n 0x78 : Bytes) ∧
    takeLine {} (0x32 :: 0x35 :: 0x30 :: 0x20 :: List.replicate n 0x78) =
      .ok (.done { status := 250, lines := [List.replicate n 0x78] }) := by
  have small : ¬ maxReplyBytes < 0 + (0x32 :: 0x35 :: 0x30 :: 0x20 :: List.replicate n (0x78 : UInt8)).length := by
    simp only [List.length_cons, List.length_replicate]
    omega
  refine ⟨by simp [List.mem_replicate], ?_⟩
  rw [takeLine]
  exact if_neg (not_or.mpr ⟨small, by decide⟩)

/-- The line is filled up to 8194 bytes. -/
theorem split_reply : ¬ Independent ((0x32 :: 0x35 :: 0x30 :: 0x20 :: List.replicate 8190 0x78) ++ crlf) := by
  have length : (0x32 :: 0x35 :: 0x30 :: 0x20 :: List.replicate 8190 (0x78 : UInt8)).length = 8194 := by
    rw [List.length_cons, List.length_cons, List.length_cons, List.length_cons, List.length_replicate]
  obtain ⟨absent, taken⟩ := filled_reply 8190 (by decide)
  refine long_reply absent ?_ ?_ taken
  · rw [length]
    decide
  · rw [length]
    decide

end Conspire.Tor
