import Conspire.Files.Streams

/-! The end of one file. `clearSubscribers` empties the table under `m_subscribersLock` and
invalidates what it has found there afterwards, one `m_chunkLock` after the other, while
readers, chunk messages and resumes go on with the subscribers they hold. -/
namespace Conspire.Files
open Session Boundaries Transition

/-- `File::subscribe`: the id of the new subscriber, or null. -/
def Subscribers.subscribe (table : Subscribers) : Subscribers × Option Nat :=
  if !table.available then (table, none)
  else if !hasCapacity table.ids.length Limits.subscribersPerFile then (table, none)
  else ({ table with counter := table.counter + 1, ids := table.ids ++ [table.counter] }, some table.counter)

def Subscriber.reissueOutstandingRequest (subscriber : Subscriber) (file : File) (hosted : Bool) :
    Subscriber × Option MessageDto :=
  if !subscriber.valid || !subscriber.request.outstanding then (subscriber, none)
  else subscriber.requestChunk file hosted subscriber.request.size

/-- Who holds shared pointers to subscribers: the body of a download, `provideFileChunk`
between its two locks, and the vectors of `reissueOutstandingRequests` and `clearSubscribers`,
as the part that has been visited and the part that is left. -/
inductive Owner where
  | download (id : Nat)
  | reply (id : Nat) (reply : ChunkReply)
  | reissue (visited left : List Nat)
  | clear (visited left : List Nat)

def Owner.holds : Owner → List Nat
  | .download id | .reply id _ => [id]
  | .reissue visited left | .clear visited left => visited ++ left

/-- A file with its subscribers that are not destroyed yet. -/
structure Sharing where
  file : File
  table : Subscribers := {}
  hosted : Bool := true
  subscribers : Nat → Option Subscriber := fun _ => none
  owners : List Owner := []

namespace Sharing
variable (s : Sharing)

/-- A weak pointer to the subscriber can be locked. -/
def alive (id : Nat) : Bool := s.owners.any fun owner => id ∈ owner.holds

def live : List Nat := s.table.ids.filter s.alive

def setSubscriber (id : Nat) (subscriber : Subscriber) : Sharing :=
  { s with subscribers := Function.update s.subscribers id (some subscriber) }

/-- `m_subscribers.erase(id)` -/
def erase (id : Nat) : Sharing := { s with table := { s.table with ids := s.table.ids.erase id } }

end Sharing

inductive SharingLabel where
  | subscribed (id : Option Nat)
  | read (id : Nat) (result : Read)
  | answered (reply : ChunkReply) (result : Result)
  | reissued (id : Nat) (request : Option MessageDto)
  | withdrawn
  | internal

/-- What may happen at a file that has been withdrawn: null, an exception, an answer that is not
ACCEPTED, and no request. -/
def SharingLabel.Inert : SharingLabel → Prop
  | .subscribed id => id = none
  | .read _ result => result = .thrown (ascii "File is not valid any more.")
  | .answered _ result => result ≠ .accepted
  | .reissued _ request => request = none
  | .withdrawn => False
  | .internal => True

/-- Each step is a section under one of the two locks. A file is handed to
`clearSubscribers` once, by the withdrawal or removal that takes it from its host
(`taken_once`). -/
inductive SharingStep : Sharing → SharingLabel → Sharing → Prop where
  | subscribe {id : Nat} : s.table.subscribe = (table, some id) →
      SharingStep s (.subscribed (some id))
        { s.setSubscriber id { id } with table, owners := .download id :: s.owners }
  | refuse : s.table.subscribe = (table, none) → SharingStep s (.subscribed none) { s with table }
  | read {id : Nat} {count : Int} : .download id ∈ s.owners → s.subscribers id = some subscriber →
      subscriber.readChunk s.file s.hosted count = (after, result) →
      SharingStep s (.read id result) (s.setSubscriber id after)
  | drop {id : Nat} : s.owners = front ++ .download id :: back →
      SharingStep s .internal { s with owners := front ++ back }
  -- ~Subscriber
  | destroy {id : Nat} : s.subscribers id = some subscriber → s.alive id = false →
      SharingStep s .internal { s.erase id with subscribers := Function.update s.subscribers id none }
  -- provideFileChunk
  | absent : (∀ id : Nat, reply.subscriberId = (id : Int) → id ∉ s.table.ids) →
      SharingStep s (.answered reply .invalid) s
  | expired {id : Nat} : reply.subscriberId = (id : Int) → id ∈ s.table.ids → s.alive id = false →
      SharingStep s (.answered reply .invalid) (s.erase id)
  | lookup {id : Nat} : reply.subscriberId = (id : Int) → id ∈ s.table.ids → s.alive id = true →
      SharingStep s .internal { s with owners := .reply id reply :: s.owners }
  | provide {id : Nat} : s.owners = front ++ .reply id reply :: back → s.subscribers id = some subscriber →
      subscriber.provideFileChunk reply.requestId reply.position reply.size (some reply.data) = (after, result) →
      SharingStep s (.answered reply result) { s.setSubscriber id after with owners := front ++ back }
  -- reissueOutstandingRequests
  | reissue : SharingStep s .internal
      { s with table := { s.table with ids := s.live }, owners := .reissue [] s.live :: s.owners }
  | visit {id : Nat} : s.owners = front ++ .reissue visited (id :: left) :: back →
      s.subscribers id = some subscriber →
      subscriber.reissueOutstandingRequest s.file s.hosted = (after, request) →
      SharingStep s (.reissued id request)
        { s.setSubscriber id after with owners := front ++ .reissue (id :: visited) left :: back }
  | visited : s.owners = front ++ .reissue visited [] :: back →
      SharingStep s .internal { s with owners := front ++ back }
  -- clearSubscribers
  | clear : s.table.available = true →
      SharingStep s .internal
        { s with table := { s.table with available := false, ids := [] }
                 owners := .clear [] s.live :: s.owners }
  | cancel {id : Nat} : s.owners = front ++ .clear visited (id :: left) :: back → s.subscribers id = some subscriber →
      SharingStep s .internal
        { s.setSubscriber id subscriber.invalidate with owners := front ++ .clear (id :: visited) left :: back }
  | cleared : s.owners = front ++ .clear visited [] :: back →
      SharingStep s .withdrawn { s with owners := front ++ back }
  -- the host's last owner lets go of it
  | leave : SharingStep s .internal { s with hosted := false }

/-- All runs of one file. -/
def sharing : Machine Sharing SharingLabel where
  init s := ∃ file, s = { file }
  step := SharingStep

/-- Whether it is a call of `clearSubscribers`. -/
def Owner.clears : Owner → Bool
  | .clear .. => true
  | .download _ | .reply .. | .reissue .. => false

namespace Sharing
variable {s t : Sharing} {id : Nat} {front back : List Owner} {owner : Owner}

/-- The calls of `clearSubscribers` that have not returned. -/
def clears (s : Sharing) : List Owner := s.owners.filter Owner.clears

theorem alive_iff : s.alive id = true ↔ ∃ owner ∈ s.owners, id ∈ owner.holds := by
  simp only [alive, List.any_eq_true, decide_eq_true_eq]

/-- How table, subscribers and owners stand to each other before and after the withdrawal. -/
structure Kept (s : Sharing) : Prop where
  idle : ∀ id subscriber, s.subscribers id = some subscriber → subscriber.valid = false →
    subscriber.request.outstanding = false
  empty : s.table.available = false → s.table.ids = []
  listed : s.table.available = true → ∀ id, s.alive id = true → id ∈ s.table.ids
  before : s.table.available = true → s.clears = []
  once : s.clears.length ≤ 1
  pending : s.table.available = false → ∀ id subscriber, s.subscribers id = some subscriber →
    s.alive id = true → subscriber.valid = true → ∃ visited left, .clear visited left ∈ s.clears ∧ id ∈ left

/-- A subscriber that is no more valid than before, and waits for nothing when it is not. -/
structure Weaker (before after : Subscriber) : Prop where
  valid : after.valid = true → before.valid = true
  idle : after.valid = false → after.request.outstanding = false

theorem requestChunk_weaker {subscriber after : Subscriber} {file : File} {hosted : Bool} {size : Int}
    (idle : subscriber.valid = false → subscriber.request.outstanding = false)
    (asked : subscriber.requestChunk file hosted size = (after, request)) : Weaker subscriber after := by
  cases requestChunk_spec file hosted size asked with
  | invalid => exact ⟨fun valid => valid, idle⟩
  | again => exact ⟨fun valid => valid, idle⟩
  | fresh _ valid =>
    refine ⟨fun _ => valid, fun invalid => ?_⟩
    change subscriber.valid = false at invalid
    rw [valid] at invalid
    cases invalid
  | gone request valid absent => exact ⟨fun _ => valid, fun _ => absent⟩

theorem readChunk_weaker {subscriber after : Subscriber} {file : File} {hosted : Bool} {count : Int}
    (idle : subscriber.valid = false → subscriber.request.outstanding = false)
    (done : subscriber.readChunk file hosted count = (after, result)) : Weaker subscriber after := by
  rw [Subscriber.readChunk] at done
  split at done
  · cases done
    exact ⟨fun valid => valid, idle⟩
  split at done
  · split at done
    · split at done <;> cases done <;> exact ⟨fun valid => valid, idle⟩
    · cases done
      exact requestChunk_weaker idle rfl
  · cases done
    exact ⟨fun valid => valid, idle⟩

theorem reissue_weaker {subscriber after : Subscriber} {file : File} {hosted : Bool}
    (idle : subscriber.valid = false → subscriber.request.outstanding = false)
    (asked : subscriber.reissueOutstandingRequest file hosted = (after, request)) : Weaker subscriber after := by
  rw [Subscriber.reissueOutstandingRequest] at asked
  split at asked
  · cases asked
    exact ⟨fun valid => valid, idle⟩
  · exact requestChunk_weaker idle asked

theorem provide_weaker {subscriber after : Subscriber} {data : Option Bytes}
    (idle : subscriber.valid = false → subscriber.request.outstanding = false)
    (provided : subscriber.provideFileChunk requestId position size data = (after, result)) :
    Weaker subscriber after ∧ (result = .accepted → subscriber.request.outstanding = true) := by
  rw [Subscriber.provideFileChunk] at provided
  split at provided
  · rename_i request answered
    obtain ⟨outstanding, -, -, -, -, rfl⟩ := ChunkRequest.accept_accepted answered
    split at provided <;> cases provided <;>
      exact ⟨⟨fun valid => valid, fun _ => rfl⟩, fun _ => outstanding⟩
  · rename_i request answer other answered
    obtain rfl := ChunkRequest.accept_other answered fun same => other (by rw [same])
    cases provided
    exact ⟨⟨fun valid => valid, idle⟩, fun same => absurd same fun same => other (by rw [same])⟩

/-- Steps that neither begin nor end a call of `clearSubscribers`. -/
theorem Kept.next (kept : s.Kept) (available : t.table.available = s.table.available)
    (empty : s.table.ids = [] → t.table.ids = [])
    (listed : ∀ id, t.alive id = true → id ∈ s.table.ids → id ∈ t.table.ids)
    (alive : ∀ id, t.alive id = true → s.alive id = true) (clears : t.clears = s.clears)
    (weaker : ∀ id after, t.subscribers id = some after →
      ∃ before, s.subscribers id = some before ∧ Weaker before after) : t.Kept where
  idle id after present := by
    obtain ⟨before, -, weaker⟩ := weaker id after present
    exact weaker.idle
  empty gone := empty (kept.empty (available ▸ gone))
  listed there id living := listed id living (kept.listed (available ▸ there) id (alive id living))
  before there := clears.trans (kept.before (available ▸ there))
  once := by
    rw [clears]
    exact kept.once
  pending gone id after present living valid := by
    obtain ⟨before, known, weaker⟩ := weaker id after present
    rw [clears]
    exact kept.pending (available ▸ gone) id before known (alive id living) (weaker.valid valid)

theorem Kept.same (kept : s.Kept) (id : Nat) (after : Subscriber) (present : s.subscribers id = some after) :
    ∃ before, s.subscribers id = some before ∧ Weaker before after :=
  ⟨after, present, fun valid => valid, kept.idle id after present⟩

/-- One subscriber changes. -/
theorem Kept.set (kept : s.Kept) {subscriber after : Subscriber} (present : s.subscribers id = some subscriber)
    (weaker : Weaker subscriber after) (other : Nat) (next : Subscriber)
    (now : Function.update s.subscribers id (some after) other = some next) :
    ∃ before, s.subscribers other = some before ∧ Weaker before next := by
  by_cases here : other = id
  · subst here
    rw [Function.update_self, Option.some.injEq] at now
    exact ⟨subscriber, present, now ▸ weaker⟩
  · rw [Function.update_of_ne here] at now
    exact kept.same other next now

/-- An owner is replaced by one that holds no other subscribers. -/
theorem alive_replaced (others : List Owner) (is : s.owners = front ++ owner :: back)
    (now : t.owners = front ++ (others ++ back)) (fewer : ∀ next ∈ others, ∀ id ∈ next.holds, id ∈ owner.holds)
    (id : Nat) (living : t.alive id = true) : s.alive id = true := by
  rw [alive_iff] at living ⊢
  obtain ⟨next, member, holds⟩ := living
  rw [is]
  simp only [now, List.mem_append] at member
  rcases member with first | new | last
  · exact ⟨next, List.mem_append_left _ first, holds⟩
  · exact ⟨owner, List.mem_append_right _ (List.mem_cons_self ..), fewer next new id holds⟩
  · exact ⟨next, List.mem_append_right _ (List.mem_cons_of_mem _ last), holds⟩

/-- Owners of subscribers that are alive join. -/
theorem alive_joined (now : t.owners = owner :: s.owners) (fewer : ∀ id ∈ owner.holds, s.alive id = true)
    (id : Nat) (living : t.alive id = true) : s.alive id = true := by
  rw [alive_iff, now] at living
  obtain ⟨next, member, holds⟩ := living
  rcases List.mem_cons.mp member with rfl | old
  · exact fewer id holds
  · exact alive_iff.mpr ⟨next, old, holds⟩

theorem erase_listed (dead : s.alive id = false) (other : Nat) (living : s.alive other = true)
    (member : other ∈ s.table.ids) : other ∈ s.table.ids.erase id := by
  apply (List.mem_erase_of_ne ?_).mpr member
  rintro rfl
  rw [dead] at living
  cases living

theorem live_alive (member : id ∈ s.live) : s.alive id = true := (List.mem_filter.mp member).2

theorem clears_replaced (others : List Owner) (is : s.owners = front ++ owner :: back)
    (now : t.owners = front ++ (others ++ back)) (other : owner.clears = false)
    (unclearing : ∀ next ∈ others, next.clears = false) : t.clears = s.clears := by
  have empty : others.filter Owner.clears = [] := by
    apply List.filter_eq_nil_iff.mpr
    intro next member
    rw [unclearing next member]
    exact Bool.false_ne_true
  rw [clears, clears, is, now, List.filter_append, List.filter_append, List.filter_append, empty,
    List.nil_append, List.filter_cons_of_neg (by simp [other])]

theorem clears_joined (now : t.owners = owner :: s.owners) (other : owner.clears = false) :
    t.clears = s.clears := by
  rw [clears, clears, now, List.filter_cons_of_neg (by simp [other])]

theorem Kept.subscribe {table : Subscribers} (kept : s.Kept) (is : s.table.subscribe = (table, some id)) :
    Kept { s.setSubscriber id { id } with table, owners := .download id :: s.owners } := by
  rw [Subscribers.subscribe] at is
  split at is
  · cases is
  split at is
  · cases is
  · rename_i there _
    cases is
    have there : s.table.available = true := by simpa using there
    refine ⟨fun other subscriber present invalid => ?_, fun gone => ?_, fun _ other living => ?_,
      fun _ => ?_, ?_, fun gone => ?_⟩
    · simp only [setSubscriber, Function.update_apply] at present
      split at present
      · cases present
        rfl
      · exact kept.idle other subscriber present invalid
    · rw [there] at gone
      cases gone
    · obtain ⟨owner, member, holds⟩ := alive_iff.mp living
      rcases List.mem_cons.mp member with rfl | old
      · exact List.mem_append_right _ holds
      · exact List.mem_append_left _ (kept.listed there other (alive_iff.mpr ⟨owner, old, holds⟩))
    · exact (clears_joined rfl rfl).trans (kept.before there)
    · rw [clears_joined (s := s) rfl rfl]
      exact kept.once
    · rw [there] at gone
      cases gone

/-- A dead subscriber leaves the table. -/
theorem Kept.erase (kept : s.Kept) (dead : s.alive id = false) : (s.erase id).Kept := by
  refine kept.next rfl (fun empty => ?_) (erase_listed dead) (fun _ living => living) rfl kept.same
  simp only [Sharing.erase, empty, List.erase_nil]

/-- The table is emptied by the one call of `clearSubscribers`, which has found all that is
alive. -/
theorem Kept.clear (kept : s.Kept) (there : s.table.available = true) :
    Kept { s with table := { s.table with available := false, ids := [] }
                  owners := .clear [] s.live :: s.owners } := by
  have noneBefore := kept.before there
  refine ⟨kept.idle, fun _ => rfl, nofun, nofun, ?_, fun _ other subscriber present living valid => ?_⟩
  · change (List.filter Owner.clears (.clear [] s.live :: s.owners)).length ≤ 1
    rw [List.filter_cons_of_pos rfl, List.length_cons, ← clears, noneBefore]
    exact Nat.le_refl _
  · have before := alive_joined rfl (fun _ => live_alive) other living
    refine ⟨[], s.live, List.mem_filter.mpr ⟨List.mem_cons_self .., rfl⟩, ?_⟩
    exact List.mem_filter.mpr ⟨kept.listed there other before, before⟩

/-- There is one call of `clearSubscribers` at most. -/
theorem Kept.only (kept : s.Kept) {visited left : List Nat} (is : s.owners = front ++ .clear visited left :: back) :
    front.filter Owner.clears = [] ∧ back.filter Owner.clears = [] ∧ s.clears = [.clear visited left] ∧
      s.table.available = false := by
  have all : s.clears = front.filter Owner.clears ++ .clear visited left :: back.filter Owner.clears := by
    rw [clears, is, List.filter_append, List.filter_cons_of_pos rfl]
  have once := kept.once
  rw [all, List.length_append, List.length_cons] at once
  have first : front.filter Owner.clears = [] := List.length_eq_zero_iff.mp (by omega)
  have last : back.filter Owner.clears = [] := List.length_eq_zero_iff.mp (by omega)
  rw [first, last, List.nil_append] at all
  refine ⟨first, last, all, ?_⟩
  cases available : s.table.available with
  | false => rfl
  | true =>
    rw [kept.before available] at all
    cases all

theorem Kept.cancel (kept : s.Kept) {visited left : List Nat} {subscriber : Subscriber}
    (is : s.owners = front ++ .clear visited (id :: left) :: back) (present : s.subscribers id = some subscriber) :
    Kept { s.setSubscriber id subscriber.invalidate with owners := front ++ .clear (id :: visited) left :: back } := by
  obtain ⟨first, last, all, gone⟩ := kept.only is
  have clears : Sharing.clears { s.setSubscriber id subscriber.invalidate with
      owners := front ++ .clear (id :: visited) left :: back } = [.clear (id :: visited) left] := by
    rw [Sharing.clears, List.filter_append, List.filter_cons_of_pos rfl, first, last, List.nil_append]
  have alive : ∀ other, Sharing.alive { s.setSubscriber id subscriber.invalidate with
      owners := front ++ .clear (id :: visited) left :: back } other = true → s.alive other = true := by
    apply alive_replaced [.clear (id :: visited) left] is rfl
    intro next member other holds
    rw [List.mem_singleton.mp member] at holds
    exact List.perm_middle.mem_iff.mpr holds
  have weaker : Weaker subscriber subscriber.invalidate := ⟨nofun, fun _ => rfl⟩
  refine ⟨fun other next now => ?_, kept.empty, fun there => ?_, fun there => ?_, ?_,
    fun _ other next now living valid => ?_⟩
  · obtain ⟨_, -, weaker⟩ := kept.set present weaker other next now
    exact weaker.idle
  · exact absurd (gone.symm.trans there) nofun
  · exact absurd (gone.symm.trans there) nofun
  · rw [clears]
    exact Nat.le_refl _
  · by_cases here : other = id
    · subst here
      simp only [setSubscriber, Function.update_self, Option.some.injEq] at now
      rw [← now] at valid
      cases valid
    · simp only [setSubscriber, Function.update_of_ne here] at now
      obtain ⟨_, _, member, within⟩ := kept.pending gone other next now (alive other living) valid
      rw [all, List.mem_singleton] at member
      cases member
      refine ⟨id :: visited, left, by rw [clears]; exact List.mem_singleton_self _, ?_⟩
      exact (List.mem_cons.mp within).resolve_left here

/-- The call has returned. -/
structure Withdrawn (s : Sharing) : Prop where
  gone : s.table.available = false
  done : s.clears = []

theorem Kept.returned (kept : s.Kept) {visited left : List Nat}
    (is : s.owners = front ++ .clear visited left :: back) : Withdrawn { s with owners := front ++ back } := by
  obtain ⟨first, last, -, gone⟩ := kept.only is
  refine ⟨gone, ?_⟩
  rw [clears, List.filter_append, first, last, List.nil_append]

theorem Kept.cleared (kept : s.Kept) {visited : List Nat} (is : s.owners = front ++ .clear visited [] :: back) :
    Kept { s with owners := front ++ back } := by
  obtain ⟨-, -, all, gone⟩ := kept.only is
  have done := (kept.returned is).done
  refine ⟨kept.idle, kept.empty, fun there => ?_, fun _ => done, ?_, fun _ other next now living valid => ?_⟩
  · exact absurd (gone.symm.trans there) nofun
  · rw [done]
    exact Nat.zero_le _
  · have before := alive_replaced [] is rfl nofun other living
    obtain ⟨_, left, member, within⟩ := kept.pending gone other next now before valid
    rw [all, List.mem_singleton] at member
    cases member
    cases within

theorem subscribe_none {table next : Subscribers} (is : table.subscribe = (next, none)) : next = table := by
  rw [Subscribers.subscribe] at is
  split at is
  · exact (Prod.mk.inj is).1.symm
  split at is
  · exact (Prod.mk.inj is).1.symm
  · cases (Prod.mk.inj is).2

theorem kept_step (kept : s.Kept) (step : SharingStep s label t) : t.Kept := by
  cases step with
  | subscribe is => exact kept.subscribe is
  | refuse is =>
    rw [subscribe_none is]
    exact kept
  | read _ present done =>
    have weaker := readChunk_weaker (kept.idle _ _ present) done
    exact kept.next rfl id (fun _ _ => id) (fun _ => id) rfl (kept.set present weaker)
  | drop is =>
    refine kept.next rfl id (fun _ _ => id) ?_ ?_ kept.same
    · exact alive_replaced [] is rfl nofun
    · exact clears_replaced [] is rfl rfl nofun
  | destroy present dead =>
    refine (kept.erase dead).next rfl (fun empty => empty) (fun _ _ listed => listed) (fun _ living => living)
      rfl fun other after now => ?_
    apply kept.same
    simp only [Function.update_apply] at now
    split at now
    · cases now
    · exact now
  | absent => exact kept
  | expired _ _ dead => exact kept.erase dead
  | lookup _ _ living =>
    refine kept.next rfl id (fun _ _ => id) ?_ (clears_joined rfl rfl) kept.same
    apply alive_joined rfl
    intro other holds
    rwa [List.mem_singleton.mp holds]
  | provide is present provided =>
    have weaker := (provide_weaker (kept.idle _ _ present) provided).1
    refine kept.next rfl id (fun _ _ => id) ?_ ?_ (kept.set present weaker)
    · exact alive_replaced [] is rfl nofun
    · exact clears_replaced [] is rfl rfl nofun
  | reissue =>
    refine kept.next rfl (fun empty => ?_) (fun other living listed => ?_) ?_ (clears_joined rfl rfl) kept.same
    · simp only [live, empty, List.filter_nil]
    · have before := alive_joined rfl (fun _ => live_alive) other living
      exact List.mem_filter.mpr ⟨listed, before⟩
    · exact alive_joined rfl fun _ => live_alive
  | visit is present asked =>
    have weaker := reissue_weaker (kept.idle _ _ present) asked
    refine kept.next rfl id (fun _ _ => id) ?_ ?_ (kept.set present weaker)
    · apply alive_replaced [.reissue _ _] is rfl
      intro next member other holds
      rw [List.mem_singleton.mp member] at holds
      exact List.perm_middle.mem_iff.mpr holds
    · apply clears_replaced [.reissue _ _] is rfl rfl
      intro next member
      rw [List.mem_singleton.mp member]
      rfl
  | visited is =>
    refine kept.next rfl id (fun _ _ => id) ?_ ?_ kept.same
    · exact alive_replaced [] is rfl nofun
    · exact clears_replaced [] is rfl rfl nofun
  | clear there => exact kept.clear there
  | cancel is present => exact kept.cancel is present
  | cleared is => exact kept.cleared is
  | leave => exact kept.next rfl id (fun _ _ => id) (fun _ => id) rfl kept.same

theorem kept (reached : sharing.Reachable s) : s.Kept := by
  apply reached.invariant
  · rintro s ⟨file, rfl⟩
    exact ⟨nofun, nofun, nofun, fun _ => rfl, Nat.zero_le _, nofun⟩
  · exact fun _ kept step => kept_step kept step

theorem Withdrawn.invalid (withdrawn : s.Withdrawn) (kept : s.Kept) {subscriber : Subscriber}
    (present : s.subscribers id = some subscriber) (living : s.alive id = true) :
    subscriber.valid = false := by
  cases valid : subscriber.valid with
  | false => rfl
  | true =>
    obtain ⟨visited, left, member, -⟩ := kept.pending withdrawn.gone id subscriber present living valid
    rw [withdrawn.done] at member
    cases member

theorem readChunk_invalid {subscriber : Subscriber} (invalid : subscriber.valid = false) (file : File)
    (hosted : Bool) (count : Int) : subscriber.readChunk file hosted count =
      (subscriber, .thrown (ascii "File is not valid any more.")) := by
  rw [Subscriber.readChunk, if_pos (by simp [invalid])]

theorem subscribe_gone {table : Subscribers} (gone : table.available = false) :
    table.subscribe = (table, none) := by
  rw [Subscribers.subscribe, if_pos (by simp [gone])]

theorem Withdrawn.step (withdrawn : s.Withdrawn) (kept : s.Kept) (step : SharingStep s label t) :
    t.Withdrawn ∧ label.Inert := by
  obtain ⟨gone, done⟩ := withdrawn
  cases step with
  | subscribe is =>
    rw [subscribe_gone gone] at is
    cases is
  | refuse is =>
    rw [subscribe_none is]
    exact ⟨⟨gone, done⟩, rfl⟩
  | read owned present read =>
    have living := alive_iff.mpr ⟨_, owned, List.mem_singleton_self _⟩
    have invalid := Withdrawn.invalid ⟨gone, done⟩ kept present living
    rw [readChunk_invalid invalid] at read
    cases read
    exact ⟨⟨gone, done⟩, rfl⟩
  | drop is => exact ⟨⟨gone, (clears_replaced [] is rfl rfl nofun).trans done⟩, trivial⟩
  | destroy => exact ⟨⟨gone, done⟩, trivial⟩
  | absent => exact ⟨⟨gone, done⟩, nofun⟩
  | expired => exact ⟨⟨gone, done⟩, nofun⟩
  | lookup => exact ⟨⟨gone, (clears_joined rfl rfl).trans done⟩, trivial⟩
  | provide is present provided =>
    have living := alive_iff.mpr
      ⟨_, is ▸ List.mem_append_right _ (List.mem_cons_self ..), List.mem_singleton_self _⟩
    have idle := kept.idle _ _ present (Withdrawn.invalid ⟨gone, done⟩ kept present living)
    refine ⟨⟨gone, (clears_replaced [] is rfl rfl nofun).trans done⟩, fun accepted => ?_⟩
    have waiting := (provide_weaker (kept.idle _ _ present) provided).2 accepted
    rw [idle] at waiting
    cases waiting
  | reissue => exact ⟨⟨gone, (clears_joined rfl rfl).trans done⟩, trivial⟩
  | visit is present asked =>
    have living := alive_iff.mpr ⟨_, is ▸ List.mem_append_right _ (List.mem_cons_self ..),
      List.mem_append_right _ (List.mem_cons_self ..)⟩
    have invalid := Withdrawn.invalid ⟨gone, done⟩ kept present living
    rw [Subscriber.reissueOutstandingRequest, if_pos (by simp [invalid])] at asked
    cases asked
    refine ⟨⟨gone, (clears_replaced [.reissue _ _] is rfl rfl fun next member => ?_).trans done⟩, rfl⟩
    rw [List.mem_singleton.mp member]
    rfl
  | visited is => exact ⟨⟨gone, (clears_replaced [] is rfl rfl nofun).trans done⟩, trivial⟩
  | clear there => exact absurd (gone.symm.trans there) nofun
  | cancel is =>
    obtain ⟨-, -, all, -⟩ := kept.only is
    rw [done] at all
    cases all
  | cleared is =>
    obtain ⟨-, -, all, -⟩ := kept.only is
    rw [done] at all
    cases all
  | leave => exact ⟨⟨gone, done⟩, trivial⟩

/-- Once `clearSubscribers` has returned, nobody is subscribed any more, the table stays empty
and every subscriber that anyone holds is invalid, so that its reads throw; no chunk is accepted
and no request is sent from there on. -/
theorem withdrawn_stays {earlier later : List SharingLabel} (run : sharing.Run (earlier ++ .withdrawn :: later) s) :
    (s.table.ids = [] ∧ s.table.subscribe = (s.table, none)) ∧
    (∀ id subscriber, s.subscribers id = some subscriber → s.alive id = true →
      subscriber.valid = false ∧ ∀ hosted count, subscriber.readChunk s.file hosted count =
        (subscriber, .thrown (ascii "File is not valid any more."))) ∧
    ∀ label ∈ later, label.Inert := by
  have kept := kept run.reachable
  obtain ⟨withdrawn, inert⟩ := run.after (P := Withdrawn)
    (fun reached step => by
      cases step with
      | cleared is => exact (Sharing.kept reached).returned is)
    (fun reached withdrawn step => withdrawn.step (Sharing.kept reached) step)
  refine ⟨⟨kept.empty withdrawn.gone, subscribe_gone withdrawn.gone⟩, ?_, inert⟩
  intro id subscriber present living
  have invalid := withdrawn.invalid kept present living
  exact ⟨invalid, readChunk_invalid invalid s.file⟩

/-- A download is under way when the file is withdrawn. -/
theorem withdrawn_stays_first :
    ∃ s, sharing.Run [.subscribed (some 1), .internal, .internal, .withdrawn, .subscribed none] s ∧
      s.table.ids = [] := by
  have start : sharing.Run [] { file := File.create 1 1 { size := some 1 } } := .start ⟨_, rfl⟩
  have subscribed := start.next (@SharingStep.subscribe _ _ 1 rfl)
  have cleared := subscribed.next (.clear rfl)
  have cancelled := cleared.next (.cancel (List.nil_append _).symm rfl)
  have returned := cancelled.next (.cleared (List.nil_append _).symm)
  have refused : sharing.Run ([.subscribed (some 1), .internal, .internal] ++ .withdrawn :: [.subscribed none]) _ :=
    returned.next (.refuse rfl)
  exact ⟨_, refused, (withdrawn_stays refused).1.1⟩

end Sharing
end Conspire.Files
