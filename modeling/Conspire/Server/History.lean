import Conspire.Library.Sequence
import Conspire.Server.Room

/-! The durable log of a room. `addHistoryMessage` numbers the events from 1 and
retains the last of them; a snapshot returned by `getHistoryAfter` is a run of
consecutive events that ends at the latest one. -/
namespace Conspire
open Session Boundaries Sequence

/-- The sequence of a durable event; other messages have none. -/
def durableSeq (message : MessageDto) : Option Nat :=
  if durableCode message.code then message.serverSeq else none

def seqs (messages : List MessageDto) : List Nat := messages.filterMap durableSeq

/-- Durable events numbered `after + 1, …, upTo` in order. -/
def Numbered (after upTo : Nat) (events : List MessageDto) : Prop :=
  after ≤ upTo ∧ events.map durableSeq = (List.range' (after + 1) (upTo - after)).map some

def historyLimit (config : ConfigDto) : Nat := config.maxRoomHistoryMessages.getD 0

/-- `log` holds all events the room has published, oldest first. -/
structure Room.Logged (config : ConfigDto) (room : Room) (log : List MessageDto) : Prop where
  latest : room.sequencer.latest = log.length
  numbered : Numbered 0 log.length log
  history : room.history = retainLast log (historyLimit config)

/-- The same of messages of any code: the room numbers whatever it is given. -/
structure Room.Retains (config : ConfigDto) (room : Room) (log : List MessageDto) : Prop where
  latest : room.sequencer.latest = log.length
  numbered : Keyed MessageDto.serverSeq 0 log.length log
  history : room.history = retainLast log (historyLimit config)

/-- The rooms that `publishDurable` calls lead to, with what they published; a
call that throws on an exhausted sequencer leaves the room as it is. -/
inductive Room.Publishes (config : ConfigDto) (name : Bytes) : Room → List MessageDto → Prop where
  | create : Publishes config name { name } []
  | publish : Publishes config name room log →
      room.addHistoryMessage config message = some (room', event) →
      Publishes config name room' (log ++ [event])

variable {after upTo cursor sequence : Nat} {events log : List MessageDto} {message : MessageDto}

@[simp] theorem seqs_nil : seqs [] = [] := rfl

@[simp] theorem seqs_append (first second : List MessageDto) :
    seqs (first ++ second) = seqs first ++ seqs second := List.filterMap_append

theorem seqs_cons (first : MessageDto) (rest : List MessageDto) :
    seqs (first :: rest) = (durableSeq first).toList ++ seqs rest := by
  cases known : durableSeq first with
  | none => simp [seqs, known]
  | some sequence => simp [seqs, known]

theorem durableSeq_eq_some (known : durableSeq message = some sequence) :
    durableCode message.code = true ∧ message.serverSeq = some sequence := by
  unfold durableSeq at known
  split at known
  · rename_i durable
    exact ⟨durable, known⟩
  · contradiction

namespace Numbered

theorem nil (n : Nat) : Numbered n n [] := Keyed.nil durableSeq n

theorem seqs (run : Numbered after upTo events) : Consecutive after upTo (seqs events) :=
  Keyed.consecutive run

theorem length (run : Numbered after upTo events) : events.length = upTo - after := Keyed.length run

theorem durable (run : Numbered after upTo events) (member : message ∈ events) :
    ∃ sequence, durableSeq message = some sequence ∧ after < sequence ∧ sequence ≤ upTo :=
  Keyed.mem run member

theorem increasing (run : Numbered after upTo events) : events.Pairwise fun first second =>
    ∃ m n, durableSeq first = some m ∧ durableSeq second = some n ∧ m < n := Keyed.increasing run

/-- One event for each number of the run. -/
theorem unique (run : Numbered after upTo events) {first second : MessageDto}
    (left : first ∈ events) (right : second ∈ events)
    (same : durableSeq first = durableSeq second) : first = second := Keyed.unique run left right same

theorem snoc (run : Numbered after upTo events) (next : durableSeq message = some (upTo + 1)) :
    Numbered after (upTo + 1) (events ++ [message]) := Keyed.snoc run next

theorem drop (run : Numbered after upTo events) (n : Nat) (within : after + n ≤ upTo) :
    Numbered (after + n) upTo (events.drop n) := Keyed.drop run n within

/-- On events of the run the filter only reads the number. -/
theorem isAfter_durable (message : MessageDto) (sequence : Nat)
    (known : durableSeq message = some sequence) :
    Room.isAfter cursor message = decide (cursor < sequence) := by
  simp [Room.isAfter, (durableSeq_eq_some known).2]

theorem filter (run : Numbered after upTo events) (above : after ≤ cursor) (below : cursor ≤ upTo) :
    Numbered cursor upTo (events.filter (Room.isAfter cursor)) :=
  Keyed.filter run above below isAfter_durable

end Numbered

namespace Room
variable {config : ConfigDto} {room room' : Room} {event : MessageDto}

/-- What a publication changes. -/
theorem addHistoryMessage_eq_some (h : room.addHistoryMessage config message = some (room', event)) :
    event = { message with serverSeq := some (room.sequencer.latest + 1) } ∧
      room' = { room with
        sequencer := { latest := room.sequencer.latest + 1 }
        history := if historyLimit config = 0 then room.history
          else retainLast (room.history ++ [event]) (historyLimit config) } := by
  unfold addHistoryMessage at h
  split at h
  · contradiction
  · rename_i sequencer sequence numbered
    obtain ⟨_, rfl, rfl⟩ := RoomSequencer.next_eq_some numbered
    dsimp only at h
    split at h
    · rename_i unlimited
      cases h
      exact ⟨rfl, by simp [historyLimit, unlimited]⟩
    · rename_i zero
      cases h
      exact ⟨rfl, by simp [historyLimit, zero]⟩
    · rename_i limit positive limited
      cases h
      have : limit ≠ 0 := fun zero => positive zero
      exact ⟨rfl, by simp [historyLimit, limited, this]⟩

theorem addHistoryMessage_positive (h : room.addHistoryMessage config message = some (room', event))
    (number : event.serverSeq = some sequence) : 0 < sequence := by
  obtain ⟨rfl, _⟩ := addHistoryMessage_eq_some h
  cases number
  omega

theorem addHistoryMessage_members (h : room.addHistoryMessage config message = some (room', event)) :
    room'.peerById = room.peerById := by
  obtain ⟨_, rfl⟩ := addHistoryMessage_eq_some h
  rfl

theorem addPeer_eq_some (h : room.addPeer member = some room') (new : member ∉ room.peerById) :
    room' = { room with peerById := room.peerById ++ [member] } := by
  unfold addPeer at h
  split at h
  · contradiction
  · simp only [Option.some.injEq] at h
    exact h.symm

theorem addPeer_log (h : room.addPeer member = some room') :
    room'.sequencer = room.sequencer ∧ room'.history = room.history := by
  unfold addPeer at h
  split at h
  · contradiction
  · cases h
    exact ⟨rfl, rfl⟩

theorem addPeer_files (h : room.addPeer member = some room') : room'.fileById = room.fileById := by
  unfold addPeer at h
  split at h
  · contradiction
  · cases h
    rfl

/-- A peer is only added while there is room for it. -/
theorem addPeer_length (h : room.addPeer member = some room') :
    room'.peerById.length ≤ Limits.peersPerRoom := by
  unfold addPeer at h
  split at h
  · contradiction
  · rename_i capacity
    have below : room.peerById.length < Limits.peersPerRoom := by
      apply hasCapacity_iff.mp
      simpa [hasPeerCapacity] using capacity
    cases h
    dsimp only
    split
    · exact Nat.le_of_lt below
    · rw [List.length_append, List.length_singleton]
      exact below

namespace Retains

theorem start (name : Bytes) : Retains config { name } [] :=
  ⟨rfl, Keyed.nil _ 0, by simp [retainLast]⟩

theorem publish (retains : room.Retains config log)
    (h : room.addHistoryMessage config message = some (room', event)) :
    room'.Retains config (log ++ [event]) := by
  obtain ⟨event_eq, rfl⟩ := addHistoryMessage_eq_some h
  have next : event.serverSeq = some (log.length + 1) := by rw [event_eq, retains.latest]
  refine ⟨by simp [retains.latest], ?_, ?_⟩
  · rw [List.length_append]
    exact retains.numbered.snoc next
  · by_cases unlimited : historyLimit config = 0
    · simp [unlimited, retains.history, retainLast]
    · simp only [unlimited, if_false, retains.history]
      exact retainLast_snoc ..

/-- The retained events end at the latest one. -/
theorem retained (retains : room.Retains config log) :
    Keyed MessageDto.serverSeq (log.length - historyLimit config) log.length room.history := by
  rw [retains.history, retainLast]
  have := retains.numbered.drop (log.length - historyLimit config) (by omega)
  rwa [Nat.zero_add] at this

theorem earliestRetained (retains : room.Retains config log) :
    room.earliestRetained =
      if log.length - historyLimit config = log.length then none
      else some (log.length - historyLimit config + 1) := by
  have retained := retains.retained
  unfold Room.earliestRetained
  cases kept : room.history with
  | nil =>
    rw [kept] at retained
    have := retained.length
    simp only [List.length_nil] at this
    rw [if_pos (by omega)]
  | cons first rest =>
    rw [kept] at retained
    have length := retained.length
    simp only [List.length_cons] at length
    rw [if_neg (by omega)]
    have head := retained.2
    rw [show log.length - (log.length - historyLimit config) = rest.length + 1 by omega,
      List.range'_succ] at head
    simp only [List.map_cons, List.cons.injEq] at head
    exact head.1

/-- A cursor is replayed without a resync exactly when all events after it are retained. -/
theorem resync_iff (retains : room.Retains config log) (cursor : Nat) :
    (room.getHistoryAfter cursor).2 = false ↔
      log.length - historyLimit config ≤ cursor ∧ cursor ≤ log.length := by
  simp only [Room.getHistoryAfter, retains.earliestRetained, retains.latest, requiresReplayResync]
  by_cases beyond : cursor > log.length
  · simp only [beyond, if_true, Bool.true_eq_false, false_iff]
    omega
  · rw [if_neg beyond]
    by_cases whole : log.length - historyLimit config = log.length
    · simp only [whole, if_true, decide_eq_false_iff_not]
      omega
    · simp only [whole, if_false, Bool.and_eq_false_iff, decide_eq_false_iff_not]
      omega

/-- The filter of `getHistoryAfter` reads the sequence only. -/
theorem isAfter_serverSeq (message : MessageDto) (sequence : Nat)
    (known : message.serverSeq = some sequence) :
    isAfter cursor message = decide (cursor < sequence) := by
  simp [isAfter, known]

theorem snapshot_all (resync : (room.getHistoryAfter cursor).2 = true) :
    (room.getHistoryAfter cursor).1 = room.history := by
  simp only [Room.getHistoryAfter] at resync ⊢
  simp [resync]

theorem snapshot_after (complete : (room.getHistoryAfter cursor).2 = false) :
    (room.getHistoryAfter cursor).1 = room.history.filter (isAfter cursor) := by
  simp only [Room.getHistoryAfter] at complete ⊢
  simp [complete]

/-- Without a resync the snapshot is the log without its first events. -/
theorem snapshot_drop (retains : room.Retains config log)
    (complete : (room.getHistoryAfter cursor).2 = false) :
    (room.getHistoryAfter cursor).1 = log.drop cursor := by
  obtain ⟨above, below⟩ := (retains.resync_iff cursor).mp complete
  -- the events that retention dropped are at most the cursor
  have front : (log.take (log.length - historyLimit config)).filter (isAfter cursor) = [] := by
    rw [List.filter_eq_nil_iff]
    intro message member
    obtain ⟨sequence, known, _, le⟩ := (retains.numbered.take _ (by omega)).mem member
    rw [isAfter_serverSeq message sequence known, decide_eq_true_eq]
    omega
  rw [← retains.numbered.filter_eq_drop below isAfter_serverSeq, snapshot_after complete,
    retains.history, retainLast]
  calc (log.drop (log.length - historyLimit config)).filter (isAfter cursor)
      = (log.take (log.length - historyLimit config) ++
          log.drop (log.length - historyLimit config)).filter (isAfter cursor) := by
        rw [List.filter_append, front, List.nil_append]
    _ = log.filter (isAfter cursor) := by rw [List.take_append_drop]

end Retains

theorem Publishes.retains {name : Bytes} (published : Publishes config name room log) : room.Retains config log := by
  induction published with
  | create => exact Retains.start name
  | publish _ numbered ih => exact ih.publish numbered

/-- What a room retains and replays after any calls of `publishDurable`. -/
theorem replay_exact {name : Bytes} (published : Publishes config name room log) (cursor : Nat) :
    log.map MessageDto.serverSeq = (List.range' 1 room.latestServerSeq).map some ∧
      room.history =
        log.drop (room.latestServerSeq - min (historyLimit config) room.latestServerSeq) ∧
      room.history.length = min (historyLimit config) room.latestServerSeq ∧
      ((room.getHistoryAfter cursor).2 = true ↔
        room.latestServerSeq < cursor ∨
          ∃ event ∈ log, isAfter cursor event = true ∧ event ∉ room.history) ∧
      ((room.getHistoryAfter cursor).2 = false →
        (room.getHistoryAfter cursor).1 = log.drop cursor ∧
          (room.getHistoryAfter cursor).1.map MessageDto.serverSeq =
            (List.range' (cursor + 1) (room.latestServerSeq - cursor)).map some) ∧
      ((room.getHistoryAfter cursor).2 = true →
        (room.getHistoryAfter cursor).1 = room.history) := by
  have retains := published.retains
  have latest : room.latestServerSeq = log.length := retains.latest
  have first : log.length - min (historyLimit config) log.length =
      log.length - historyLimit config := by omega
  have retained := retains.retained
  rw [latest]
  refine ⟨retains.numbered.2, ?_, ?_, ?_, ?_, Retains.snapshot_all⟩
  · rw [first, retains.history, retainLast]
  · rw [retained.length]
    omega
  · have complete := retains.resync_iff cursor
    constructor
    · intro resync
      by_cases beyond : log.length < cursor
      · exact .inl beyond
      · -- the event next to the cursor is lost
        have lost : cursor < log.length - historyLimit config := by
          by_contra reached
          rw [complete.mpr ⟨by omega, by omega⟩] at resync
          contradiction
        have named := retains.numbered.mem_keys.mpr (show 0 < cursor + 1 ∧ cursor + 1 ≤ log.length by omega)
        rw [List.mem_map] at named
        obtain ⟨event, member, number⟩ := named
        refine .inr ⟨event, member, ?_, ?_⟩
        · rw [Retains.isAfter_serverSeq event _ number]
          simp
        · intro kept
          obtain ⟨sequence, known, above, _⟩ := retained.mem kept
          rw [number] at known
          cases known
          omega
    · intro missing
      by_contra quiet
      obtain ⟨above, below⟩ := complete.mp (by simpa using quiet)
      rcases missing with beyond | ⟨event, member, later, gone⟩
      · omega
      · obtain ⟨sequence, known, _, le⟩ := retains.numbered.mem member
        rw [Retains.isAfter_serverSeq event sequence known, decide_eq_true_eq] at later
        have named := retained.mem_keys.mpr (show log.length - historyLimit config < sequence ∧
          sequence ≤ log.length by omega)
        rw [List.mem_map] at named
        obtain ⟨other, kept, number⟩ := named
        have old : other ∈ log := by
          rw [retains.history] at kept
          exact List.mem_of_mem_drop kept
        rw [← known] at number
        rw [retains.numbered.unique old member number] at kept
        exact gone kept
  · intro complete
    have snapshot := retains.snapshot_drop complete
    obtain ⟨_, below⟩ := (retains.resync_iff cursor).mp complete
    refine ⟨snapshot, ?_⟩
    rw [snapshot]
    have := (retains.numbered.drop cursor (by omega)).2
    rwa [Nat.zero_add] at this

def limitFirst : ConfigDto := { maxRoomHistoryMessages := some 1 }

def messageFirst : MessageDto := { code := some .peerMessage, message := some [104, 105] }

/-- Two messages of a room that retains one, and a cursor before both. -/
theorem replay_exact_first : ∃ room log, Publishes limitFirst [49] room log ∧
    room.latestServerSeq = 2 ∧ (room.getHistoryAfter 0).2 = true ∧
      (room.getHistoryAfter 0).1 = log.drop 1 := by
  have first : Publishes limitFirst [49] _ _ :=
    .publish .create (rfl : addHistoryMessage limitFirst { name := [49] } messageFirst = _)
  have second : Publishes limitFirst [49] _ _ :=
    .publish first (rfl : addHistoryMessage limitFirst _ messageFirst = _)
  obtain ⟨_, kept, _, _, _, all⟩ := replay_exact second 0
  exact ⟨_, _, second, rfl, rfl, (all rfl).trans kept⟩

namespace Logged

theorem start (name : Bytes) : Logged config { name } [] :=
  ⟨rfl, Numbered.nil 0, by simp [retainLast]⟩

theorem retains (logged : room.Logged config log) : room.Retains config log := by
  refine ⟨logged.latest, ⟨logged.numbered.1, ?_⟩, logged.history⟩
  rw [← logged.numbered.2, List.map_inj_left]
  intro message member
  obtain ⟨sequence, known, _⟩ := logged.numbered.durable member
  rw [known, (durableSeq_eq_some known).2]

theorem publish (logged : room.Logged config log) (durable : durableCode message.code = true)
    (h : room.addHistoryMessage config message = some (room', event)) :
    room'.Logged config (log ++ [event]) := by
  obtain ⟨latest, _, history⟩ := logged.retains.publish h
  obtain ⟨event_eq, _⟩ := addHistoryMessage_eq_some h
  have numbered : durableSeq event = some (log.length + 1) := by
    simp [durableSeq, event_eq, durable, logged.latest]
  refine ⟨latest, ?_, history⟩
  rw [List.length_append]
  exact logged.numbered.snoc numbered

/-- The retained events end at the latest one. -/
theorem retained (logged : room.Logged config log) :
    Numbered (log.length - historyLimit config) log.length room.history := by
  rw [logged.history, retainLast]
  have := logged.numbered.drop (log.length - historyLimit config) (by omega)
  rwa [Nat.zero_add] at this

/-- A cursor is replayed without a resync exactly when all events after it are retained. -/
theorem resync_iff (logged : room.Logged config log) (cursor : Nat) :
    (room.getHistoryAfter cursor).2 = false ↔
      log.length - historyLimit config ≤ cursor ∧ cursor ≤ log.length :=
  logged.retains.resync_iff cursor

/-- The snapshot is those events, or all that are retained. -/
theorem getHistoryAfter (logged : room.Logged config log) (cursor : Nat) :
    Numbered (if (room.getHistoryAfter cursor).2 then log.length - historyLimit config else cursor)
      log.length (room.getHistoryAfter cursor).1 := by
  cases resync : (room.getHistoryAfter cursor).2 with
  | true =>
    rw [if_pos rfl, Retains.snapshot_all resync]
    exact logged.retained
  | false =>
    obtain ⟨above, below⟩ := (logged.resync_iff cursor).mp resync
    rw [if_neg (by simp), Retains.snapshot_after resync]
    exact logged.retained.filter above below

theorem mem_log (logged : room.Logged config log)
    (member : message ∈ (room.getHistoryAfter cursor).1) : message ∈ log := by
  have kept : message ∈ room.history := List.mem_of_mem_filter member
  rw [logged.history] at kept
  exact List.mem_of_mem_drop kept

end Logged
end Room
end Conspire
