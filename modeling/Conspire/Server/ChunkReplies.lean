import Conspire.Library.Machine
import Conspire.Server.Boundaries

/-! Every run of calls on one `ChunkRequest`. The answers are compared with a ledger of the calls
before: the request that is open, the replies that were accepted, the ids given out. -/
namespace Conspire.Boundaries
open Transition

/-- A call with what it returned. -/
inductive RequestCall where
  | begin (position size : Int) (id : Nat)
  | accept (requestId : Nat) (position size : Int) (receivedSize : Nat) (result : Result)
  | cancel
  deriving DecidableEq, Repr

inductive RequestStep : ChunkRequest → RequestCall → ChunkRequest → Prop where
  | begin (began : request.begin position size = (next, requestId)) :
      RequestStep request (.begin position size requestId) next
  | accept {requestId receivedSize : Nat} {position size : Int}
      (answered : request.accept requestId position size receivedSize = (next, result)) :
      RequestStep request (.accept requestId position size receivedSize result) next
  | cancel : RequestStep request .cancel request.cancel

def chunkRequests : Machine ChunkRequest RequestCall where
  init request := request = {}
  step := RequestStep

/-- A part of a file as it is asked for, and as a reply names it. -/
structure ChunkPart where
  requestId : Nat
  position : Int
  size : Int
  deriving DecidableEq, Repr

/-- What the calls so far say, whatever the object stores. -/
structure Ledger where
  asked : Option ChunkPart := none
  accepted : List ChunkPart := []
  issued : List Nat := []

def Ledger.record (ledger : Ledger) : RequestCall → Ledger
  | .begin position size id =>
    if ledger.asked.isSome then ledger
    else { ledger with asked := some ⟨id, position, size⟩, issued := ledger.issued ++ [id] }
  | .accept requestId position size _ .accepted =>
    { ledger with asked := none, accepted := ledger.accepted ++ [⟨requestId, position, size⟩] }
  | .accept .. => ledger
  | .cancel => { ledger with asked := none }

def ledger (calls : List RequestCall) : Ledger := calls.foldl Ledger.record {}

def RequestCall.isBegin : RequestCall → Bool
  | .begin .. => true
  | _ => false

def begins (calls : List RequestCall) : Nat := calls.countP RequestCall.isBegin

/-- How one call has to be answered, and when it may change the object. -/
def Ledger.Allows (ledger : Ledger) (request : ChunkRequest) : RequestCall → ChunkRequest → Prop
  | .begin _ _ id, next =>
    match ledger.asked with
    | some part => id = part.requestId ∧ next = request
    | none => id ≠ 0 ∧ id ∉ ledger.issued
  | .accept requestId position size receivedSize result, next =>
    (result = .accepted ↔ ledger.asked = some ⟨requestId, position, size⟩ ∧ size = receivedSize) ∧
    (result = .duplicate ↔
      ledger.accepted.getLast? = some ⟨requestId, position, size⟩ ∧ size = receivedSize) ∧
    (result = .accepted → ∀ part ∈ ledger.accepted, part.requestId ≠ requestId) ∧
    (result ≠ .accepted → next = request)
  | .cancel, _ => True

/-- Every call of the run is answered so. -/
def Classified (calls : List RequestCall) : Prop :=
  ∀ front call back, calls = front ++ call :: back → ∀ request next,
    chunkRequests.Run front request → RequestStep request call next →
      (ledger front).Allows request call next

/-- An empty reply that bears the initial values of the completed request, while nothing was
accepted. -/
def Ledger.Blank (ledger : Ledger) (call : RequestCall) : Prop :=
  ledger.accepted = [] ∧ ∃ result, call = .accept 0 0 0 0 result

variable {calls front back : List RequestCall} {call : RequestCall} {request next : ChunkRequest}
  {ledger : Ledger} {requestId receivedSize : Nat} {position size : Int}

@[simp] theorem ledger_snoc : Boundaries.ledger (calls ++ [call]) = (Boundaries.ledger calls).record call := by
  simp only [Boundaries.ledger, List.foldl_append, List.foldl_cons, List.foldl_nil]

@[simp] theorem begins_snoc :
    begins (calls ++ [call]) = begins calls + if call.isBegin then 1 else 0 := by
  simp only [begins, List.countP_append, List.countP_singleton]

/-- No id is issued but by a `begin`. -/
theorem issued_le (calls : List RequestCall) : (Boundaries.ledger calls).issued.length ≤ begins calls := by
  induction calls using List.reverseRecOn with
  | nil => exact Nat.le.refl
  | append_singleton calls call ih =>
    rw [ledger_snoc, begins_snoc]
    cases call with
    | begin position size id =>
      simp only [Ledger.record, RequestCall.isBegin]
      split
      · exact Nat.le_succ_of_le ih
      · simpa using ih
    | accept requestId position size receivedSize result =>
      cases result <;> simpa [Ledger.record, RequestCall.isBegin] using ih
    | cancel => simpa [Ledger.record, RequestCall.isBegin] using ih

/-- What the fields of the object mean. An id is given out again only after 2^64 of them. -/
structure Ledger.Describes (ledger : Ledger) (request : ChunkRequest) : Prop where
  asked : ledger.asked =
    if request.outstanding then some ⟨request.requestId, request.position, request.size⟩ else none
  completed : ⟨request.completedId, request.completedPosition, request.completedSize⟩ =
    ledger.accepted.getLastD ⟨0, 0, 0⟩
  count : request.requestId = ledger.issued.length
  issued : ∀ id ∈ ledger.issued, 0 < id ∧ id ≤ request.requestId
  begun : request.outstanding = true → 0 < request.requestId
  accepted : ∀ part ∈ ledger.accepted, 0 < part.requestId ∧ part.requestId ≤ request.requestId ∧
    (request.outstanding = true → part.requestId ≠ request.requestId)

theorem describes_first : Ledger.Describes {} {} := by
  constructor <;> simp

theorem Ledger.Describes.idle (describes : ledger.Describes request) (idle : request.outstanding = false) :
    ledger.asked = none := by
  rw [describes.asked, if_neg (by simp [idle])]

theorem Ledger.Describes.busy (describes : ledger.Describes request) (busy : request.outstanding = true) :
    ledger.asked = some ⟨request.requestId, request.position, request.size⟩ := by
  rw [describes.asked, if_pos busy]

theorem Ledger.Describes.asked_iff (describes : ledger.Describes request) :
    ledger.asked = some ⟨requestId, position, size⟩ ↔ request.outstanding = true ∧
      requestId = request.requestId ∧ position = request.position ∧ size = request.size := by
  rw [describes.asked]
  split
  · rename_i busy
    simp only [Option.some.injEq, ChunkPart.mk.injEq, busy, true_and]
    constructor <;> rintro ⟨rfl, rfl, rfl⟩ <;> exact ⟨rfl, rfl, rfl⟩
  · rename_i idle
    simp [idle]

/-- The open request was not accepted before. -/
theorem Ledger.Describes.unanswered (describes : ledger.Describes request) (busy : request.outstanding = true)
    (member : part ∈ ledger.accepted) : part.requestId ≠ request.requestId :=
  (describes.accepted part member).2.2 busy

/-- The stored duplicate is the last reply, and no reply while nothing was accepted. -/
theorem Ledger.Describes.last_iff (describes : ledger.Describes request) :
    requestId = request.completedId ∧ position = request.completedPosition ∧ size = request.completedSize ↔
      ledger.accepted.getLast? = some ⟨requestId, position, size⟩ ∨
        ledger.accepted = [] ∧ requestId = 0 ∧ position = 0 ∧ size = 0 := by
  have completed := describes.completed
  rcases List.eq_nil_or_concat ledger.accepted with empty | ⟨earlier, part, ending⟩
  · rw [empty, List.getLastD_nil, ChunkPart.mk.injEq] at completed
    obtain ⟨first, second, third⟩ := completed
    simp [empty, first, second, third]
  · rw [ending, List.concat_eq_append, List.getLastD_concat] at completed
    simp only [ending, List.concat_eq_append, List.getLast?_concat, ← completed, Option.some.injEq,
      ChunkPart.mk.injEq, List.append_eq_nil_iff, List.cons_ne_self, and_false, false_and, or_false]
    constructor <;> rintro ⟨rfl, rfl, rfl⟩ <;> exact ⟨rfl, rfl, rfl⟩

/-- What each call does to the object is what it does to the ledger. -/
theorem describes_step (describes : ledger.Describes request) (step : RequestStep request call next)
    (few : call.isBegin = true → ledger.issued.length + 1 < 2 ^ 64) : (ledger.record call).Describes next := by
  cases step with
  | begin began =>
    rename_i position size id
    by_cases busy : request.outstanding = true
    · rw [ChunkRequest.begin_again busy] at began
      cases began
      rw [Ledger.record, if_pos (by simp [describes.busy busy])]
      exact describes
    · rw [ChunkRequest.begin_fresh (by simpa using busy),
        nextRequestId_eq (by rw [describes.count]; exact few rfl)] at began
      cases began
      rw [Ledger.record, if_neg (by simp [describes.idle (by simpa using busy)])]
      refine ⟨by simp, describes.completed, by simp [describes.count], ?_, by simp, ?_⟩
      · intro id member
        simp only [List.mem_append, List.mem_singleton] at member
        rcases member with old | rfl
        · have := describes.issued id old
          exact ⟨this.1, Nat.le_succ_of_le this.2⟩
        · exact ⟨Nat.succ_pos _, Nat.le.refl⟩
      · intro part member
        have := describes.accepted part member
        exact ⟨this.1, Nat.le_succ_of_le this.2.1, fun _ => Nat.ne_of_lt (Nat.lt_succ_of_le this.2.1)⟩
  | accept answered =>
    rename_i result requestId receivedSize position size
    by_cases accepted : result = .accepted
    · subst accepted
      obtain ⟨busy, rfl, rfl, rfl, sized, rfl⟩ := ChunkRequest.accept_accepted answered
      refine ⟨by simp [Ledger.record], by simp [Ledger.record], describes.count, describes.issued, by simp, ?_⟩
      intro part member
      simp only [Ledger.record, List.mem_append, List.mem_singleton] at member
      rcases member with old | rfl
      · have := describes.accepted part old
        exact ⟨this.1, this.2.1, by simp⟩
      · exact ⟨describes.begun busy, Nat.le.refl, by simp⟩
    · have same := ChunkRequest.accept_other answered accepted
      subst same
      have unrecorded : ledger.record (.accept requestId position size receivedSize result) = ledger := by
        cases result with
        | accepted => contradiction
        | duplicate => rfl
        | invalid => rfl
      rw [unrecorded]
      exact describes
  | cancel =>
    refine ⟨by simp [Ledger.record, ChunkRequest.cancel], describes.completed, describes.count, describes.issued,
      by simp [ChunkRequest.cancel], fun part member => ?_⟩
    have := describes.accepted part member
    exact ⟨this.1, this.2.1, by simp [ChunkRequest.cancel]⟩

theorem describes (run : chunkRequests.Run calls request) (few : begins calls < 2 ^ 64) :
    (Boundaries.ledger calls).Describes request := by
  induction run with
  | start initial =>
    rw [initial]
    exact describes_first
  | next before step ih =>
    rename_i earlier s call t
    rw [begins_snoc] at few
    have described := ih (by omega)
    have bound := issued_le earlier
    rw [ledger_snoc]
    refine describes_step described step fun isBegin => ?_
    rw [if_pos isBegin] at few
    omega

/-- The answer to a reply with as many bytes as it declares. -/
theorem accept_sized : (request.accept requestId position receivedSize receivedSize).2 =
    if requestId = request.completedId ∧ position = request.completedPosition ∧
        (receivedSize : Int) = request.completedSize then .duplicate
    else if request.outstanding = true ∧ requestId = request.requestId ∧ position = request.position ∧
        (receivedSize : Int) = request.size then .accepted
    else .invalid := by
  rw [ChunkRequest.accept, if_neg (by simp)]
  split
  · rfl
  · by_cases busy : request.outstanding = true
    · rw [if_neg (not_not_intro busy)]
      simp only [busy, true_and, ne_eq, ← not_and_or]
      split
      · rfl
      · rename_i same
        rw [if_pos (not_not.mp same)]
    · rw [if_pos busy, if_neg fun both => busy both.1]

theorem accept_unsized (unsized : size ≠ receivedSize) :
    request.accept requestId position size receivedSize = (request, .invalid) := by
  rw [ChunkRequest.accept, if_pos (by omega)]

/-- A reply is classified as the ledger says, unless it is the blank one. -/
theorem accept_allowed (describes : ledger.Describes request)
    (answered : request.accept requestId position size receivedSize = (next, result))
    (asked : ¬ ledger.Blank (.accept requestId position size receivedSize result)) :
    ledger.Allows request (.accept requestId position size receivedSize result) next := by
  have classified : (result = .accepted ↔ ledger.asked = some ⟨requestId, position, size⟩ ∧ size = receivedSize) ∧
      (result = .duplicate ↔
        ledger.accepted.getLast? = some ⟨requestId, position, size⟩ ∧ size = receivedSize) := by
    by_cases sized : size = receivedSize
    · subst sized
      have answer : (request.accept requestId position receivedSize receivedSize).2 = result := by rw [answered]
      rw [accept_sized] at answer
      rw [describes.asked_iff]
      have blank : ¬ (ledger.accepted = [] ∧ requestId = 0 ∧ position = 0 ∧ (receivedSize : Int) = 0) := by
        rintro ⟨empty, rfl, rfl, zero⟩
        obtain rfl : receivedSize = 0 := by omega
        exact asked ⟨empty, result, rfl⟩
      have repeated := @Ledger.Describes.last_iff _ _ requestId position receivedSize describes
      simp only [blank, or_false] at repeated
      -- the reply that was accepted last is not the open one
      have apart : request.outstanding = true → requestId = request.requestId →
          ledger.accepted.getLast? ≠ some ⟨requestId, position, receivedSize⟩ := by
        intro busy same last
        exact describes.unanswered busy (List.mem_of_getLast? last) same
      subst answer
      grind
    · rw [accept_unsized sized] at answered
      cases answered
      simp [sized]
  refine ⟨classified.1, classified.2, fun accepted part member => ?_, ChunkRequest.accept_other answered⟩
  subst accepted
  obtain ⟨busy, rfl, -⟩ := ChunkRequest.accept_accepted answered
  exact describes.unanswered busy member

theorem allowed (describes : ledger.Describes request) (step : RequestStep request call next)
    (few : call.isBegin = true → ledger.issued.length + 1 < 2 ^ 64) (asked : ¬ ledger.Blank call) :
    ledger.Allows request call next := by
  cases step with
  | begin began =>
    by_cases busy : request.outstanding = true
    · rw [ChunkRequest.begin_again busy] at began
      cases began
      simp [Ledger.Allows, describes.busy busy]
    · have idle : request.outstanding = false := by simpa using busy
      rw [ChunkRequest.begin_fresh idle, nextRequestId_eq (by rw [describes.count]; exact few rfl)] at began
      cases began
      simp only [Ledger.Allows, describes.idle idle, ne_eq, Nat.succ_ne_zero, not_false_eq_true, true_and]
      intro issued
      exact Nat.not_succ_le_self _ (describes.issued _ issued).2
  | accept answered => exact accept_allowed describes answered asked
  | cancel => trivial

/-- The blank reply is taken for a duplicate of a reply that never was. -/
theorem blank_refused (describes : ledger.Describes request) (step : RequestStep request call next)
    (blank : ledger.Blank call) : ¬ ledger.Allows request call next := by
  obtain ⟨empty, result, rfl⟩ := blank
  cases step with
  | accept answered =>
    have answer : (request.accept 0 0 0 0).2 = .duplicate := by
      rw [← Int.natCast_zero, accept_sized, if_pos]
      exact describes.last_iff.mpr (.inr ⟨empty, rfl, rfl, rfl⟩)
    rw [answered] at answer
    rintro ⟨-, duplicate, -⟩
    have := (duplicate.mp answer).1
    simp [empty] at this

/-- Every run answers every call as the ledger says exactly if it has no blank reply. -/
theorem replies_classified (run : chunkRequests.Run calls request) (few : begins calls < 2 ^ 64) :
    Classified calls ↔
      ∀ front call back, calls = front ++ call :: back → ¬ (Boundaries.ledger front).Blank call := by
  have fewer : ∀ {front call back}, calls = front ++ call :: back → begins (front ++ [call]) < 2 ^ 64 := by
    rintro front call back rfl
    refine Nat.lt_of_le_of_lt ?_ few
    rw [List.append_cons front call back]
    exact (List.sublist_append_left _ _).countP_le
  have described : ∀ {front call back request}, calls = front ++ call :: back →
      chunkRequests.Run front request → (Boundaries.ledger front).Describes request := by
    intro front call back request split before
    have bound := fewer split
    rw [begins_snoc] at bound
    exact describes before (by omega)
  constructor
  · rintro classified front call back rfl blank
    obtain ⟨s, t, before, step⟩ := run.inside
    exact blank_refused (described rfl before) step blank (classified front call back rfl s t before step)
  · intro asked front call back split s t before step
    refine allowed (described split before) step (fun isBegin => ?_) (asked front call back split)
    have bound := fewer split
    have issued := issued_le front
    rw [begins_snoc, if_pos isBegin] at bound
    omega

/-- One request, its reply, and the reply once more. -/
theorem replies_classified_repeat : ∃ request, chunkRequests.Run
    [.begin 0 10 1, .accept 1 0 10 10 .accepted, .accept 1 0 10 10 .duplicate] request ∧
      Classified [.begin 0 10 1, .accept 1 0 10 10 .accepted, .accept 1 0 10 10 .duplicate] := by
  have begun : RequestStep {} (.begin 0 10 1) { size := 10, requestId := 1, outstanding := true } := .begin rfl
  have answered : RequestStep { size := 10, requestId := 1, outstanding := true }
      (.accept 1 0 10 10 .accepted)
      { size := 10, requestId := 1, completedId := 1, completedSize := 10 } := .accept rfl
  have repeated : RequestStep { size := 10, requestId := 1, completedId := 1, completedSize := 10 }
      (.accept 1 0 10 10 .duplicate)
      { size := 10, requestId := 1, completedId := 1, completedSize := 10 } := .accept rfl
  have run := (((Machine.Run.start (m := chunkRequests) rfl).next begun).next answered).next repeated
  refine ⟨_, run, (replies_classified run (by decide)).mpr ?_⟩
  rintro front call back split ⟨-, result, rfl⟩
  have member : RequestCall.accept 0 0 0 0 result ∈ front ++ RequestCall.accept 0 0 0 0 result :: back := by simp
  rw [← split] at member
  simp at member

/-- The blank reply to an object that was never asked for anything. -/
theorem blank_unclassified : ∃ request, chunkRequests.Run [.accept 0 0 0 0 .duplicate] request ∧
    begins [.accept 0 0 0 0 .duplicate] = 0 ∧ ¬ Classified [.accept 0 0 0 0 .duplicate] := by
  have blank : RequestStep {} (.accept 0 0 0 0 .duplicate) {} := .accept rfl
  refine ⟨_, (Machine.Run.start (m := chunkRequests) rfl).next blank, rfl, fun classified => ?_⟩
  have allowed := classified [] _ [] rfl {} {} (.start rfl) blank
  have duplicate := (allowed.2.1.mp rfl).1
  simp [ledger] at duplicate

end Conspire.Boundaries
