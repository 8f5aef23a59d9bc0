import Conspire.Commands.State

/-! Commands are idempotent. Between the search of the dedupe window and the
entry of a command its session's lock is held, so a session publishes one event
for an id, acknowledges it with that event's sequence, and an error leaves no trace. -/
namespace Conspire.Commands
open Session Transition

/-- The events a session has published for an id. -/
def published (peer : PeerId) (id : Bytes) (labels : List Label) : List MessageDto :=
  labels.filterMap fun
    | .sequence _ member other event => if member = peer ∧ other = id then some event else none
    | _ => none

/-- The command a label has an effect for. -/
def Label.effect : Label → Option Nat
  | .share k _ | .sequence k _ _ _ | .record k _ _ _ => some k
  | _ => none

/-- The command has had no effect so far. -/
def Untouched (k : Nat) (labels : List Label) : Prop := ∀ l ∈ labels, l.effect ≠ some k

/-- The event of an accepted command, with its dedupe entry. -/
def Accepted (peer : PeerId) (id : Bytes) (sequence : Nat) (labels : List Label) : Prop :=
  ∃ k event, published peer id labels = [event] ∧ event.serverSeq = some sequence ∧
    .sequence k peer id event ∈ labels ∧ .record k peer id sequence ∈ labels

def State.window (s : State) (peer : PeerId) : DedupeWindow :=
  match s.peers peer with
  | none => {}
  | some peer => peer.dedupe

/-- The window knows exactly the ids the session has published, but for `pending`. -/
def Settled (labels : List Label) (window : DedupeWindow) (peer : PeerId) (pending : Bytes → Prop) : Prop :=
  ∀ id, ¬ pending id → match window.find id with
    | none => published peer id labels = []
    | some sequence => Accepted peer id sequence labels

/-- What the holder of a session's lock knows at its stage. -/
inductive Holding (labels : List Label) (window : DedupeWindow) (peer : PeerId) (k : Nat) (id : Bytes) :
    Stage → Prop where
  | free : validClientMessageId id = true → window.find id = none → window.full = false →
      Settled labels window peer (fun _ => False) → stage = .holding ∨ stage = .prepared ∨ stage = .ordering →
      Holding labels window peer k id stage
  | sequenced {sequence : Nat} : validClientMessageId id = true → window.find id = none → window.full = false →
      0 < sequence → published peer id labels = [event] → event.serverSeq = some sequence →
      .sequence k peer id event ∈ labels → Settled labels window peer (· = id) →
      Holding labels window peer k id (.sequenced sequence)
  | entered {sequence : Nat} : window.find id = some sequence → Settled labels window peer (fun _ => False) →
      stage = .recorded sequence ∨ stage = .announced sequence →
      Holding labels window peer k id stage

/-- A session: its window is settled, or one thread has its lock. -/
def Tidy (labels : List Label) (s : State) (peer : PeerId) : Prop :=
  match s.commandLock peer with
  | none => Settled labels (s.window peer) peer fun _ => False
  | some k => ∃ thread, s.threads k = some thread ∧ thread.peer = peer ∧
      Holding labels (s.window peer) peer k thread.id thread.stage

structure Valid (labels : List Label) (s : State) : Prop where
  tidy : ∀ p, Tidy labels s p
  locked : ∀ {k thread}, s.threads k = some thread → thread.stage.holds = true →
    s.commandLock thread.peer = some k
  future : ∀ k, s.count ≤ k → s.threads k = none ∧ Untouched k labels
  early : ∀ {k thread}, s.threads k = some thread →
    thread.stage = .dispatched ∨ thread.stage = .admitted ∨ thread.stage = .holding → Untouched k labels
  checked : ∀ {k thread}, s.threads k = some thread → thread.stage = .admitted →
    validClientMessageId thread.id = true
  refused : ∀ {k p error}, .refuse k p error ∈ labels →
    Untouched k labels ∧ ∃ thread, s.threads k = some thread ∧ thread.stage = .ended

section Labels
variable {labels : List Label} {peer : PeerId} {id : Bytes} {window : DedupeWindow} {l : Label}
  {sequence : Nat} {pending : Bytes → Prop}

theorem published_append (first second : List Label) :
    published peer id (first ++ second) = published peer id first ++ published peer id second :=
  List.filterMap_append

theorem Holding.holds (holding : Holding labels window peer k id stage) : stage.holds = true := by
  cases holding with
  | free _ _ _ _ is => rcases is with rfl | rfl | rfl <;> rfl
  | sequenced => rfl
  | entered _ _ is => rcases is with rfl | rfl <;> rfl

/-- Labels of other sessions do not matter. -/
theorem Accepted.snoc (accepted : Accepted peer id sequence labels)
    (silent : published peer id [l] = []) : Accepted peer id sequence (labels ++ [l]) := by
  obtain ⟨k, event, one, number, sequenced, recorded⟩ := accepted
  exact ⟨k, event, by rw [published_append, one, silent, List.append_nil], number,
    List.mem_append_left _ sequenced, List.mem_append_left _ recorded⟩

theorem Settled.accepted (settled : Settled labels window peer pending) (closed : ¬ pending id)
    (found : window.find id = some sequence) : Accepted peer id sequence labels := by
  have known := settled id closed
  rw [found] at known
  exact known

theorem Settled.unpublished (settled : Settled labels window peer pending) (closed : ¬ pending id)
    (absent : window.find id = none) : published peer id labels = [] := by
  have known := settled id closed
  rw [absent] at known
  exact known

theorem Settled.snoc (settled : Settled labels window peer pending)
    (silent : ∀ id, ¬ pending id → published peer id [l] = []) :
    Settled (labels ++ [l]) window peer pending := by
  intro id closed
  have earlier := settled id closed
  cases found : window.find id with
  | none =>
    rw [found] at earlier
    rw [published_append, earlier, silent id closed]
    rfl
  | some sequence =>
    rw [found] at earlier
    exact Accepted.snoc earlier (silent id closed)

theorem Holding.snoc (holding : Holding labels window peer k id stage)
    (silent : ∀ id, published peer id [l] = []) :
    Holding (labels ++ [l]) window peer k id stage := by
  cases holding with
  | free valid absent room settled is => exact .free valid absent room (settled.snoc fun id _ => silent id) is
  | sequenced valid absent room positive one number sequenced settled =>
    refine .sequenced valid absent room positive ?_ number (List.mem_append_left _ sequenced)
      (settled.snoc fun id _ => silent id)
    rw [published_append, one, silent, List.append_nil]
  | entered found settled is => exact .entered found (settled.snoc fun id _ => silent id) is

end Labels

section Steps
variable {config : ConfigDto} {labels : List Label} {s t : State} {l : Label} {p : PeerId} {k sequence : Nat}
  {thread next : Thread}

/-- A session whose lock, window and holder stay as they are. -/
theorem Tidy.frame (tidy : Tidy labels s p) (lock : t.commandLock p = s.commandLock p)
    (window : t.window p = s.window p)
    (threads : ∀ {k thread}, s.threads k = some thread → thread.peer = p →
      thread.stage.holds = true → t.threads k = some thread)
    (silent : ∀ id, published p id [l] = []) : Tidy (labels ++ [l]) t p := by
  simp only [Tidy, lock, window] at tidy ⊢
  split at tidy
  · exact tidy.snoc fun id _ => silent id
  · obtain ⟨thread, found, own, holding⟩ := tidy
    exact ⟨thread, threads found own holding.holds, own, holding.snoc silent⟩

/-- The holder of a session's lock. -/
theorem Tidy.holder (valid : Valid labels s) (found : s.threads k = some thread)
    (holds : thread.stage.holds = true) :
    Holding labels (s.window thread.peer) thread.peer k thread.id thread.stage := by
  have tidy := valid.tidy thread.peer
  simp only [Tidy, valid.locked found holds] at tidy
  obtain ⟨same, is, _, holding⟩ := tidy
  cases found.symm.trans is
  exact holding

/-- A thread moves on; the other sessions do not notice. -/
theorem Tidy.moved (valid : Valid labels s) (found : s.threads k = some thread)
    (threads : t.threads = Function.update s.threads k (some next))
    (locks : ∀ q, q ≠ thread.peer → t.commandLock q = s.commandLock q)
    (windows : ∀ q, q ≠ thread.peer → t.window q = s.window q)
    (silent : ∀ q, q ≠ thread.peer → ∀ id, published q id [l] = [])
    (own : Tidy (labels ++ [l]) t thread.peer) : ∀ p, Tidy (labels ++ [l]) t p := by
  intro p
  by_cases here : p = thread.peer
  · exact here ▸ own
  · refine (valid.tidy p).frame (locks p here) (windows p here) ?_ (silent p here)
    intro k' thread' found' own' _
    have other : k' ≠ k := by
      rintro rfl
      cases found.symm.trans found'
      exact here own'.symm
    rw [threads, Function.update_of_ne other]
    exact found'

/-- A thread without a lock moves on. -/
theorem Tidy.free (valid : Valid labels s) (found : s.threads k = some thread)
    (free : thread.stage.holds = false)
    (threads : t.threads = Function.update s.threads k (some next))
    (locks : t.commandLock = s.commandLock) (windows : t.window = s.window)
    (silent : ∀ p id, published p id [l] = []) : ∀ p, Tidy (labels ++ [l]) t p := by
  intro p
  refine (valid.tidy p).frame (by rw [locks]) (by rw [windows]) ?_ (silent p)
  intro k' thread' found' _ holds
  have other : k' ≠ k := by
    rintro rfl
    cases found.symm.trans found'
    rw [free] at holds
    cases holds
  rw [threads, Function.update_of_ne other]
  exact found'

theorem Tidy.settled (valid : Valid labels s) (idle : s.commandLock p = none) :
    Settled labels (s.window p) p fun _ => False := by
  have tidy := valid.tidy p
  simp only [Tidy, idle] at tidy
  exact tidy

theorem Tidy.of_holding (lock : t.commandLock p = some k) (found : t.threads k = some thread)
    (own : thread.peer = p) (holding : Holding labels (t.window p) p k thread.id thread.stage) :
    Tidy labels t p := by
  simp only [Tidy, lock]
  exact ⟨thread, found, own, holding⟩

theorem Tidy.of_settled (lock : t.commandLock p = none)
    (settled : Settled labels (t.window p) p fun _ => False) : Tidy labels t p := by
  simp only [Tidy, lock]
  exact settled

/-- A step that is not about commands. -/
theorem Tidy.quiet (valid : Valid labels s) (threads : t.threads = s.threads)
    (locks : t.commandLock = s.commandLock) (windows : t.window = s.window)
    (silent : ∀ p id, published p id [l] = []) : ∀ p, Tidy (labels ++ [l]) t p := by
  intro p
  refine (valid.tidy p).frame (by rw [locks]) (by rw [windows]) ?_ (silent p)
  intro k thread found _ _
  rw [threads]
  exact found

theorem window_setPeer {peer next : Peer} (peers : t.peers = Function.update s.peers p (some next))
    (known : s.peers p = some peer) (same : next.dedupe = peer.dedupe) : t.window = s.window := by
  funext q
  by_cases here : q = p
  · simp [State.window, peers, here, known, same]
  · simp [State.window, peers, here]

theorem window_new {peer : Peer} (peers : t.peers = Function.update s.peers p (some peer))
    (new : s.peers p = none) (empty : peer.dedupe = {}) : t.window = s.window := by
  funext q
  by_cases here : q = p
  · simp [State.window, peers, here, new, empty]
  · simp [State.window, peers, here]

theorem window_known {peer : Peer} (known : s.peers p = some peer) : s.window p = peer.dedupe := by
  simp only [State.window, known]

/-- Before its event is sequenced a holder has left no trace in the window. -/
theorem Holding.settled {window : DedupeWindow} {id : Bytes} {stage : Stage}
    (holding : Holding labels window p k id stage)
    (early : stage = .holding ∨ stage = .prepared ∨ stage = .ordering) :
    validClientMessageId id = true ∧ window.find id = none ∧ window.full = false ∧
      Settled labels window p fun _ => False := by
  cases holding with
  | free valid absent room settled => exact ⟨valid, absent, room, settled⟩
  | sequenced => rcases early with is | is | is <;> cases is
  | entered _ _ late =>
    rcases late with rfl | rfl <;> rcases early with is | is | is <;> cases is

theorem Holding.of_sequenced {window : DedupeWindow} {id : Bytes}
    (holding : Holding labels window p k id (.sequenced sequence)) :
    validClientMessageId id = true ∧ window.find id = none ∧ window.full = false ∧
      0 < sequence ∧ Settled labels window p (· = id) ∧
      ∃ event, published p id labels = [event] ∧ event.serverSeq = some sequence ∧
        .sequence k p id event ∈ labels := by
  cases holding with
  | free _ _ _ _ is => rcases is with is | is | is <;> cases is
  | sequenced valid absent room positive one number sequenced settled =>
    exact ⟨valid, absent, room, positive, settled, _, one, number, sequenced⟩
  | entered _ _ is => rcases is with is | is <;> cases is

theorem Holding.of_entered {window : DedupeWindow} {id : Bytes}
    (holding : Holding labels window p k id stage)
    (late : stage = .recorded sequence ∨ stage = .announced sequence) :
    window.find id = some sequence ∧ Settled labels window p fun _ => False := by
  cases holding with
  | free _ _ _ _ is =>
    rcases is with rfl | rfl | rfl <;> rcases late with is | is <;> cases is
  | sequenced => rcases late with is | is <;> cases is
  | entered found settled is =>
    rcases is with rfl | rfl <;> rcases late with is | is <;> cases is <;> exact ⟨found, settled⟩

/-- A holder that publishes nothing stays before its event. -/
theorem Tidy.stays (valid : Valid labels s) (found : s.threads k = some thread)
    (early : thread.stage = .holding ∨ thread.stage = .prepared ∨ thread.stage = .ordering)
    (threads : t.threads = Function.update s.threads k (some next))
    (later : next.stage = .holding ∨ next.stage = .prepared ∨ next.stage = .ordering)
    (own : next.peer = thread.peer) (same : next.id = thread.id)
    (locks : t.commandLock = s.commandLock) (windows : t.window = s.window)
    (silent : ∀ p id, published p id [l] = []) : ∀ p, Tidy (labels ++ [l]) t p := by
  have holds : thread.stage.holds = true := by rcases early with is | is | is <;> rw [is] <;> rfl
  refine Tidy.moved valid found threads (fun _ _ => by rw [locks]) (fun _ _ => by rw [windows])
    (fun q _ => silent q) ?_
  obtain ⟨good, absent, room, settled⟩ := (Tidy.holder valid found holds).settled early
  refine Tidy.of_holding (by rw [locks, valid.locked found holds])
    (by rw [threads, Function.update_self]) own ?_
  rw [windows, same]
  exact .free good absent room (settled.snoc fun id _ => silent _ id) later

/-- A holder gives up the lock of a settled window. -/
theorem Tidy.releases (valid : Valid labels s) (found : s.threads k = some thread)
    (threads : t.threads = Function.update s.threads k (some next))
    (settled : Settled labels (s.window thread.peer) thread.peer fun _ => False)
    (locks : t.commandLock = Function.update s.commandLock thread.peer none)
    (windows : t.window = s.window)
    (silent : ∀ p id, published p id [l] = []) : ∀ p, Tidy (labels ++ [l]) t p := by
  refine Tidy.moved valid found threads (fun q other => by rw [locks, Function.update_of_ne other])
    (fun _ _ => by rw [windows]) (fun q _ => silent q) ?_
  refine Tidy.of_settled (by rw [locks, Function.update_self]) ?_
  rw [windows]
  exact settled.snoc fun id _ => silent _ id

theorem Settled.sequenced {window : DedupeWindow} {id : Bytes}
    (settled : Settled labels window p fun _ => False) (good : validClientMessageId id = true)
    (absent : window.find id = none) (room : window.full = false) (positive : 0 < sequence)
    (number : event.serverSeq = some sequence) :
    Holding (labels ++ [.sequence k p id event]) window p k id (.sequenced sequence) := by
  have unpublished := settled.unpublished not_false absent
  refine .sequenced good absent room positive ?_ number (by simp) ?_
  · rw [published_append, unpublished]
    simp [published]
  · intro other different
    have wider : Settled labels window p (· = id) := fun other _ => settled other not_false
    exact wider.snoc (fun other different => by simp [published, Ne.symm different]) other different

/-- The entry of the event that was just sequenced settles the window again. -/
theorem Settled.recorded {window entered : DedupeWindow} {id : Bytes}
    (settled : Settled labels window p (· = id)) (remembered : window.remember id sequence = some entered)
    (one : published p id labels = [event]) (number : event.serverSeq = some sequence)
    (sequenced : .sequence k p id event ∈ labels) :
    Settled (labels ++ [.record k p id sequence]) entered p fun _ => False := by
  intro other _
  rw [DedupeWindow.find_remember remembered other]
  by_cases here : other = id
  · subst here
    rw [if_pos rfl]
    exact ⟨k, event, by rw [published_append, one]; rfl, number,
      List.mem_append_left _ sequenced, by simp⟩
  · rw [if_neg here]
    exact settled.snoc (fun _ _ => rfl) other here

theorem tidy_step (valid : Valid labels s) (step : Step config s l t) :
    ∀ p, Tidy (labels ++ [l]) t p := by
  cases step with
  | receive known _ _ =>
    intro p
    refine (valid.tidy p).frame rfl rfl ?_ fun _ => rfl
    intro k thread found _ _
    have other : k ≠ s.count := by
      rintro rfl
      cases (valid.future _ (Nat.le_refl _)).1.symm.trans found
    simp [State.setThread, other, found]
  | reject found is =>
    exact Tidy.free valid found (by rw [is]; rfl) rfl rfl rfl fun _ _ => rfl
  | accept found is =>
    exact Tidy.free valid found (by rw [is]; rfl) rfl rfl rfl fun _ _ => rfl
  | again found is =>
    exact Tidy.free valid found (by rw [is]; rfl) rfl rfl rfl fun _ _ => rfl
  | full found is =>
    exact Tidy.free valid found (by rw [is]; rfl) rfl rfl rfl fun _ _ => rfl
  | hold found is idle known absent room =>
    refine Tidy.moved valid found rfl (fun q other => Function.update_of_ne other _ _) (fun _ _ => rfl)
      (fun _ _ _ => rfl) ?_
    refine Tidy.of_holding (Function.update_self ..) (Function.update_self ..) rfl ?_
    have settled := Tidy.settled valid idle
    have good := valid.checked found is
    rw [← window_known known] at absent room
    exact .free good absent room (settled.snoc fun _ _ => rfl) (.inl rfl)
  | share found is code known shared =>
    obtain ⟨host, _⟩ := Room.shareFiles_eq_some shared
    refine Tidy.stays valid found (.inl is) rfl (.inr (.inl rfl)) rfl rfl rfl ?_ fun _ _ => rfl
    exact window_setPeer rfl known (by rw [host]; rfl)
  | limit found is =>
    obtain ⟨_, _, _, settled⟩ := (Tidy.holder valid found (by rw [is]; rfl)).settled (.inl is)
    exact Tidy.releases valid found rfl settled rfl rfl fun _ _ => rfl
  | prepare found is =>
    exact Tidy.stays valid found (.inl is) rfl (.inr (.inl rfl)) rfl rfl rfl rfl fun _ _ => rfl
  | order found is =>
    exact Tidy.stays valid found (.inr (.inl is)) rfl (.inr (.inr rfl)) rfl rfl rfl rfl fun _ _ => rfl
  | sequence found is added number =>
    obtain ⟨good, absent, room, settled⟩ :=
      (Tidy.holder valid found (by rw [is]; rfl)).settled (.inr (.inr is))
    refine Tidy.moved valid found rfl (fun _ _ => rfl) (fun _ _ => rfl) ?_ ?_
    · intro q other id
      simp [published, Ne.symm other]
    · refine Tidy.of_holding (valid.locked found (by rw [is]; rfl)) (Function.update_self ..) rfl ?_
      exact Settled.sequenced settled good absent room (Room.addHistoryMessage_positive added number)
        number
  | exhausted found is =>
    obtain ⟨_, _, _, settled⟩ := (Tidy.holder valid found (by rw [is]; rfl)).settled (.inr (.inr is))
    exact Tidy.releases valid found rfl settled rfl rfl fun _ _ => rfl
  | record found is known entered =>
    have holding := Tidy.holder valid found (by rw [is]; rfl)
    rw [is, window_known known] at holding
    obtain ⟨_, _, _, _, settled, event, one, number, sequenced⟩ := holding.of_sequenced
    refine Tidy.moved valid found rfl (fun _ _ => rfl) ?_ (fun _ _ _ => rfl) ?_
    · intro q other
      simp [State.window, State.setPeer, State.setThread, other]
    · refine Tidy.of_holding (valid.locked found (by rw [is]; rfl)) (Function.update_self ..) rfl ?_
      refine .entered ?_ ?_ (.inl rfl)
      · rw [window_known (Function.update_self ..), DedupeWindow.find_remember entered]
        exact if_pos rfl
      · rw [window_known (Function.update_self ..)]
        exact settled.recorded entered one number sequenced
  | unrecorded found is known lost =>
    have holding := Tidy.holder valid found (by rw [is]; rfl)
    rw [is, window_known known] at holding
    obtain ⟨good, absent, room, positive, _⟩ := holding.of_sequenced
    obtain ⟨_, entered⟩ := DedupeWindow.remember_isSome good positive absent room
    cases lost.symm.trans entered
  | broadcast found is =>
    obtain ⟨entered, settled⟩ := (Tidy.holder valid found (by rw [is]; rfl)).of_entered (.inl is)
    refine Tidy.moved valid found rfl (fun _ _ => rfl) (fun _ _ => rfl) (fun _ _ _ => rfl) ?_
    refine Tidy.of_holding (valid.locked found (by rw [is]; rfl)) (Function.update_self ..) rfl ?_
    exact .entered entered (settled.snoc fun _ _ => rfl) (.inr rfl)
  | acknowledge found is =>
    have holding := Tidy.holder valid found (by rw [is]; rfl)
    obtain ⟨_, settled⟩ := holding.of_entered (.inr is)
    exact Tidy.releases valid found rfl settled rfl rfl fun _ _ => rfl
  | announce => exact Tidy.quiet valid rfl rfl rfl fun _ _ => rfl
  | join new => exact Tidy.quiet valid rfl rfl (window_new rfl new rfl) fun _ _ => rfl
  | bind known => exact Tidy.quiet valid rfl rfl (window_setPeer rfl known rfl) fun _ _ => rfl
  | detach known detached =>
    have same := Peer.detachIfCurrent_dedupe detached
    exact Tidy.quiet valid rfl rfl (window_setPeer rfl known same) fun _ _ => rfl
  | leave known => exact Tidy.quiet valid rfl rfl (window_setPeer rfl known rfl) fun _ _ => rfl
  | withdraw known => exact Tidy.quiet valid rfl rfl (window_setPeer rfl known rfl) fun _ _ => rfl

end Steps

/-- A step that moves thread `k`: what its stage says about locks, checks and effects. -/
structure Moved (s t : State) (l : Label) (k : Nat) (thread next : Thread) : Prop where
  found : s.threads k = some thread
  threads : t.threads = Function.update s.threads k (some next)
  peer : next.peer = thread.peer
  id : next.id = thread.id
  count : t.count = s.count
  lock : t.commandLock =
    if next.stage.holds then Function.update s.commandLock thread.peer (some k)
    else if thread.stage.holds then Function.update s.commandLock thread.peer none
    else s.commandLock
  idle : thread.stage.holds = false → next.stage.holds = true → s.commandLock thread.peer = none
  running : thread.stage ≠ .ended
  effect : l.effect = none ∨ l.effect = some k
  early : next.stage = .dispatched ∨ next.stage = .admitted ∨ next.stage = .holding →
    l.effect = none ∧ (thread.stage = .dispatched ∨ thread.stage = .admitted)
  checked : next.stage = .admitted → validClientMessageId next.id = true
  refused : ∀ other p error, l = .refuse other p error → other = k ∧ next.stage = .ended ∧
    (thread.stage = .dispatched ∨ thread.stage = .admitted ∨ thread.stage = .holding)

/-- What a step does to the threads. -/
inductive Turn (s t : State) (l : Label) : Prop where
  | quiet : t.threads = s.threads → t.commandLock = s.commandLock → t.count = s.count →
      l.effect = none → (∀ k p error, l ≠ .refuse k p error) → Turn s t l
  | received (thread : Thread) : t.threads = Function.update s.threads s.count (some thread) →
      thread.stage = .dispatched → t.commandLock = s.commandLock → t.count = s.count + 1 →
      l.effect = none → (∀ k p error, l ≠ .refuse k p error) → Turn s t l
  | moved (k : Nat) (thread next : Thread) : Moved s t l k thread next → Turn s t l

section Steps
variable {config : ConfigDto} {labels : List Label} {s t : State} {l : Label} {sequence : Nat}

/-- A thread with its session's lock keeps it, or gives it up. -/
theorem Valid.keeps (valid : Valid labels s) (found : s.threads k = some thread)
    (holds : thread.stage.holds = true) :
    s.commandLock = Function.update s.commandLock thread.peer (some k) := by
  rw [← valid.locked found holds, Function.update_eq_self]

/-- A checked command has a valid id. -/
theorem Thread.id_valid {thread : Thread} (checked : checkCommand thread.message = none) :
    validClientMessageId thread.id = true := by
  obtain ⟨id, known, valid⟩ := checkCommand_id checked
  rw [Thread.id, known]
  exact valid

theorem turn (valid : Valid labels s) (step : Step config s l t) : Turn s t l := by
  cases step with
  | receive => exact .received _ rfl rfl rfl rfl rfl fun _ _ _ => nofun
  | reject found is =>
    refine .moved _ _ _ ⟨found, rfl, rfl, rfl, rfl, ?_, ?_, ?_, .inl rfl, ?_, nofun, ?_⟩ <;>
      simp [is, Thread.at, Stage.holds, State.setThread]
  | accept found is checked =>
    have good := Thread.id_valid checked
    refine .moved _ _ _ ⟨found, rfl, rfl, rfl, rfl, ?_, ?_, ?_, .inl rfl, ?_, fun _ => good, ?_⟩ <;>
      simp [is, Thread.at, Stage.holds, State.setThread, Label.effect]
  | again found is =>
    refine .moved _ _ _ ⟨found, rfl, rfl, rfl, rfl, ?_, ?_, ?_, .inl rfl, ?_, nofun, ?_⟩ <;>
      simp [is, Thread.at, Stage.holds, State.setThread]
  | full found is =>
    refine .moved _ _ _ ⟨found, rfl, rfl, rfl, rfl, ?_, ?_, ?_, .inl rfl, ?_, nofun, ?_⟩ <;>
      simp [is, Thread.at, Stage.holds, State.setThread]
  | hold found is idle =>
    refine .moved _ _ _ ⟨found, rfl, rfl, rfl, rfl, ?_, fun _ _ => idle, ?_, .inl rfl, ?_, nofun, ?_⟩ <;>
      simp [is, Thread.at, Stage.holds, State.setThread, State.lock, Label.effect]
  | share found is =>
    have keeps := valid.keeps found (by rw [is]; rfl)
    refine .moved _ _ _ ⟨found, rfl, rfl, rfl, rfl, ?_, ?_, ?_, .inr rfl, ?_, nofun, ?_⟩ <;>
      simp [is, Stage.holds, State.setThread, State.setPeer, keeps.symm]
  | limit found is =>
    refine .moved _ _ _ ⟨found, rfl, rfl, rfl, rfl, ?_, ?_, ?_, .inl rfl, ?_, nofun, ?_⟩ <;>
      simp [is, Thread.at, Stage.holds, State.setThread, State.unlock]
  | prepare found is =>
    have keeps := valid.keeps found (by rw [is]; rfl)
    refine .moved _ _ _ ⟨found, rfl, rfl, rfl, rfl, ?_, ?_, ?_, .inl rfl, ?_, nofun, ?_⟩ <;>
      simp [is, Thread.at, Stage.holds, State.setThread, keeps.symm]
  | order found is =>
    have keeps := valid.keeps found (by rw [is]; rfl)
    refine .moved _ _ _ ⟨found, rfl, rfl, rfl, rfl, ?_, ?_, ?_, .inl rfl, ?_, nofun, ?_⟩ <;>
      simp [is, Thread.at, Stage.holds, State.setThread, keeps.symm]
  | sequence found is =>
    have keeps := valid.keeps found (by rw [is]; rfl)
    refine .moved _ _ _ ⟨found, rfl, rfl, rfl, rfl, ?_, ?_, ?_, .inr rfl, ?_, nofun, ?_⟩ <;>
      simp [is, Stage.holds, State.setThread, keeps.symm]
  | exhausted found is =>
    refine .moved _ _ _ ⟨found, rfl, rfl, rfl, rfl, ?_, ?_, ?_, .inl rfl, ?_, nofun, ?_⟩ <;>
      simp [is, Thread.at, Stage.holds, State.setThread, State.unlock]
  | record found is =>
    have keeps := valid.keeps found (by rw [is]; rfl)
    refine .moved _ _ _ ⟨found, rfl, rfl, rfl, rfl, ?_, ?_, ?_, .inr rfl, ?_, nofun, ?_⟩ <;>
      simp [is, Thread.at, Stage.holds, State.setThread, State.setPeer, keeps.symm]
  | unrecorded found is =>
    refine .moved _ _ _ ⟨found, rfl, rfl, rfl, rfl, ?_, ?_, ?_, .inl rfl, ?_, nofun, ?_⟩ <;>
      simp [is, Thread.at, Stage.holds, State.setThread, State.unlock]
  | broadcast found is =>
    have keeps := valid.keeps found (by rw [is]; rfl)
    refine .moved _ _ _ ⟨found, rfl, rfl, rfl, rfl, ?_, ?_, ?_, .inl rfl, ?_, nofun, ?_⟩ <;>
      simp [is, Thread.at, Stage.holds, State.setThread, keeps.symm]
  | acknowledge found is =>
    refine .moved _ _ _ ⟨found, rfl, rfl, rfl, rfl, ?_, ?_, ?_, .inl rfl, ?_, nofun, ?_⟩ <;>
      simp [is, Thread.at, Stage.holds, State.setThread, State.unlock]
  | announce => exact .quiet rfl rfl rfl rfl fun _ _ _ => nofun
  | join => exact .quiet rfl rfl rfl rfl fun _ _ _ => nofun
  | bind => exact .quiet rfl rfl rfl rfl fun _ _ _ => nofun
  | detach => exact .quiet rfl rfl rfl rfl fun _ _ _ => nofun
  | leave => exact .quiet rfl rfl rfl rfl fun _ _ _ => nofun
  | withdraw => exact .quiet rfl rfl rfl rfl fun _ _ _ => nofun

theorem untouched_snoc : Untouched k (labels ++ [l]) ↔ Untouched k labels ∧ l.effect ≠ some k := by
  simp only [Untouched, List.mem_append, List.mem_singleton, or_imp, forall_and, forall_eq]

theorem locked_step (valid : Valid labels s) (change : Turn s t l)
    (found : t.threads k = some thread) (holds : thread.stage.holds = true) :
    t.commandLock thread.peer = some k := by
  cases change with
  | quiet threads locks =>
    rw [threads] at found
    rw [locks]
    exact valid.locked found holds
  | received fresh threads is locks =>
    rw [threads, Function.update_apply] at found
    split at found
    · cases found
      rw [is] at holds
      contradiction
    · rw [locks]
      exact valid.locked found holds
  | moved other before next moved =>
    rw [moved.threads, Function.update_apply] at found
    rw [moved.lock]
    split at found
    · subst k
      cases found
      rw [if_pos holds, moved.peer, Function.update_self]
    · have locked := valid.locked found holds
      by_cases same : thread.peer = before.peer
      · -- the lock cannot have two holders
        rename_i different
        have free : before.stage.holds = false := by
          by_contra taken
          have first := valid.locked moved.found (Bool.eq_true_of_not_eq_false taken)
          rw [← same, locked] at first
          exact different (Option.some.inj first)
        have waits : next.stage.holds = false := by
          by_contra taken
          have idle := moved.idle free (Bool.eq_true_of_not_eq_false taken)
          rw [← same, locked] at idle
          contradiction
        rw [waits, free]
        exact locked
      · split
        · rw [Function.update_of_ne same]
          exact locked
        · split
          · rw [Function.update_of_ne same]
            exact locked
          · exact locked

theorem future_step (valid : Valid labels s) (change : Turn s t l) (later : t.count ≤ k) :
    t.threads k = none ∧ Untouched k (labels ++ [l]) := by
  rw [untouched_snoc]
  cases change with
  | quiet threads _ count silent =>
    obtain ⟨absent, untouched⟩ := valid.future k (by omega)
    exact ⟨by rw [threads, absent], untouched, by rw [silent]; nofun⟩
  | received fresh threads _ _ count silent =>
    obtain ⟨absent, untouched⟩ := valid.future k (by omega)
    have other : k ≠ s.count := by omega
    exact ⟨by rw [threads, Function.update_of_ne other, absent], untouched, by rw [silent]; nofun⟩
  | moved other before next moved =>
    obtain ⟨absent, untouched⟩ := valid.future k (by rw [← moved.count]; exact later)
    have different : k ≠ other := by
      rintro rfl
      cases absent.symm.trans moved.found
    refine ⟨by rw [moved.threads, Function.update_of_ne different, absent], untouched, ?_⟩
    rcases moved.effect with silent | own
    · rw [silent]
      nofun
    · rw [own]
      intro same
      exact different (Option.some.inj same).symm

theorem early_step (valid : Valid labels s) (change : Turn s t l) (found : t.threads k = some thread)
    (early : thread.stage = .dispatched ∨ thread.stage = .admitted ∨ thread.stage = .holding) :
    Untouched k (labels ++ [l]) := by
  rw [untouched_snoc]
  cases change with
  | quiet threads _ _ silent =>
    rw [threads] at found
    exact ⟨valid.early found early, by rw [silent]; nofun⟩
  | received fresh threads _ _ _ silent =>
    refine ⟨?_, by rw [silent]; nofun⟩
    rw [threads, Function.update_apply] at found
    split at found
    · subst k
      exact (valid.future _ (Nat.le_refl _)).2
    · exact valid.early found early
  | moved other before next moved =>
    rw [moved.threads, Function.update_apply] at found
    split at found
    · subst k
      cases found
      obtain ⟨silent, earlier⟩ := moved.early early
      refine ⟨valid.early moved.found ?_, by rw [silent]; nofun⟩
      rcases earlier with is | is
      · exact .inl is
      · exact .inr (.inl is)
    · rename_i different
      refine ⟨valid.early found early, ?_⟩
      rcases moved.effect with silent | own
      · rw [silent]
        nofun
      · rw [own]
        intro same
        exact different (Option.some.inj same).symm

theorem checked_step (valid : Valid labels s) (change : Turn s t l)
    (found : t.threads k = some thread) (admitted : thread.stage = .admitted) :
    validClientMessageId thread.id = true := by
  cases change with
  | quiet threads =>
    rw [threads] at found
    exact valid.checked found admitted
  | received fresh threads is =>
    rw [threads, Function.update_apply] at found
    split at found
    · cases found
      rw [is] at admitted
      contradiction
    · exact valid.checked found admitted
  | moved other before next moved =>
    rw [moved.threads, Function.update_apply] at found
    split at found
    · cases found
      exact moved.checked admitted
    · exact valid.checked found admitted

theorem refused_step (valid : Valid labels s) (change : Turn s t l)
    (member : .refuse k p error ∈ labels ++ [l]) :
    Untouched k (labels ++ [l]) ∧ ∃ thread, t.threads k = some thread ∧ thread.stage = .ended := by
  rw [untouched_snoc]
  rw [List.mem_append, List.mem_singleton] at member
  cases change with
  | quiet threads _ _ silent free =>
    rcases member with earlier | now
    · obtain ⟨untouched, ended⟩ := valid.refused earlier
      rw [threads]
      exact ⟨⟨untouched, by rw [silent]; nofun⟩, ended⟩
    · exact absurd now.symm (free k p error)
  | received fresh threads _ _ _ silent free =>
    rcases member with earlier | now
    · obtain ⟨untouched, thread, found, ended⟩ := valid.refused earlier
      refine ⟨⟨untouched, by rw [silent]; nofun⟩, thread, ?_, ended⟩
      have other : k ≠ s.count := by
        rintro rfl
        cases (valid.future _ (Nat.le_refl _)).1.symm.trans found
      rw [threads, Function.update_of_ne other, found]
    · exact absurd now.symm (free k p error)
  | moved other before next moved =>
    rcases member with earlier | now
    · obtain ⟨untouched, thread, found, ended⟩ := valid.refused earlier
      have different : k ≠ other := by
        rintro rfl
        cases found.symm.trans moved.found
        exact moved.running ended
      refine ⟨⟨untouched, ?_⟩, thread, ?_, ended⟩
      · rcases moved.effect with silent | own
        · rw [silent]
          nofun
        · rw [own]
          intro same
          exact different (Option.some.inj same).symm
      · rw [moved.threads, Function.update_of_ne different, found]
    · obtain ⟨rfl, ended, early⟩ := moved.refused k p error now.symm
      subst now
      refine ⟨⟨valid.early moved.found early, nofun⟩, next, ?_, ended⟩
      rw [moved.threads, Function.update_self]

theorem valid_step (valid : Valid labels s) (step : Step config s l t) : Valid (labels ++ [l]) t := by
  have change := turn valid step
  exact ⟨tidy_step valid step, locked_step valid change, fun _ => future_step valid change,
    early_step valid change, checked_step valid change, refused_step valid change⟩

theorem valid_run (run : (commands config).Run labels s) : Valid labels s := by
  induction run with
  | start initial =>
    obtain ⟨name, rfl⟩ := initial
    refine ⟨fun p => ?_, nofun, fun k _ => ⟨rfl, nofun⟩, nofun, nofun, nofun⟩
    intro id _
    rfl
  | next _ step valid => exact valid_step valid step

/-- An acknowledgement follows the event and its entry. -/
theorem acknowledged_step {id : Bytes} (valid : Valid labels s)
    (step : Step config s (.acknowledge k p id n) t) : Accepted p id n labels := by
  cases step with
  | again found is idle known prior =>
    have settled := Tidy.settled valid idle
    rw [window_known known] at settled
    exact settled.accepted not_false prior
  | acknowledge found is =>
    have holding := Tidy.holder valid found (by rw [is]; rfl)
    obtain ⟨entered, settled⟩ := holding.of_entered (.inr is)
    exact settled.accepted not_false entered

theorem acknowledged_run (run : (commands config).Run labels s) :
    ∀ {front back k p n} {id : Bytes}, labels = front ++ .acknowledge k p id n :: back →
      Accepted p id n front := by
  induction run with
  | start =>
    intro front back k p n id split
    simp at split
  | next run step ih =>
    intro front back k p n id split
    rcases List.eq_nil_or_concat' back with rfl | ⟨earlier, last, rfl⟩
    · obtain ⟨rfl, is⟩ := List.append_inj' split rfl
      cases is
      exact acknowledged_step (valid_run run) step
    · rw [← List.cons_append, ← List.append_assoc] at split
      exact ih (List.append_inj' split rfl).1

/-- A session has published at most one event for an id. -/
theorem published_once (valid : Valid labels s) (p : PeerId) (id : Bytes) :
    (published p id labels).length ≤ 1 := by
  have settled : ∀ {pending window}, Settled labels window p pending → ¬ pending id →
      (published p id labels).length ≤ 1 := by
    intro pending window settled closed
    cases found : window.find id with
    | none => simp [settled.unpublished closed found]
    | some sequence =>
      obtain ⟨_, _, one, _⟩ := settled.accepted closed found
      simp [one]
  have tidy := valid.tidy p
  unfold Tidy at tidy
  split at tidy
  · exact settled tidy not_false
  · obtain ⟨thread, _, _, holding⟩ := tidy
    generalize thread.stage = stage at holding
    cases holding with
    | free _ _ _ free => exact settled free not_false
    | sequenced _ _ _ _ one _ _ sequenced =>
      by_cases own : id = thread.id
      · rw [own, one]
        exact Nat.le_refl 1
      · exact settled sequenced own
    | entered _ entered => exact settled entered not_false

/-- The labels say which command publishes, records and registers: nothing else
touches the numbers and the log of a room, and the window of a session is
entered, and its file index extended, by a command only. -/
theorem Step.traced (step : Step config s l t) :
    ((∃ k p id event, l = .sequence k p id event) ∨ (∃ event, l = .announce event) ∨
      t.room.sequencer = s.room.sequencer ∧ t.room.history = s.room.history) ∧
    ((∃ k p id n, l = .record k p id n) ∨ t.window = s.window) ∧
    ((∃ k files, l = .share k files) ∨ t.room.fileById ⊆ s.room.fileById) := by
  have kept : s.room.fileById ⊆ s.room.fileById := fun _ => id
  cases step with
  | share _ _ _ known shared =>
    obtain ⟨host, sequencer, history⟩ := Room.shareFiles_eq_some shared
    refine ⟨.inr (.inr ⟨sequencer, history⟩), .inr ?_, .inl ⟨_, _, rfl⟩⟩
    exact window_setPeer rfl known (by rw [host]; rfl)
  | sequence _ _ added =>
    obtain ⟨_, rfl⟩ := Room.addHistoryMessage_eq_some added
    exact ⟨.inl ⟨_, _, _, _, rfl⟩, .inr rfl, .inr kept⟩
  | record => exact ⟨.inr (.inr ⟨rfl, rfl⟩), .inl ⟨_, _, _, _, rfl⟩, .inr kept⟩
  | announce _ _ added =>
    obtain ⟨_, rfl⟩ := Room.addHistoryMessage_eq_some added
    exact ⟨.inr (.inl ⟨_, rfl⟩), .inr rfl, .inr kept⟩
  | join new added =>
    obtain ⟨sequencer, history⟩ := Room.addPeer_log added
    have files := Room.addPeer_files added
    refine ⟨.inr (.inr ⟨sequencer, history⟩), .inr (window_new rfl new rfl), .inr ?_⟩
    exact files ▸ kept
  | bind known => exact ⟨.inr (.inr ⟨rfl, rfl⟩), .inr (window_setPeer rfl known rfl), .inr kept⟩
  | detach known detached =>
    have same := Peer.detachIfCurrent_dedupe detached
    exact ⟨.inr (.inr ⟨rfl, rfl⟩), .inr (window_setPeer rfl known same), .inr kept⟩
  | leave known =>
    refine ⟨.inr (.inr ⟨rfl, rfl⟩), .inr (window_setPeer rfl known rfl), .inr ?_⟩
    exact fun _ => List.mem_of_mem_filter
  | withdraw known =>
    refine ⟨.inr (.inr ⟨rfl, rfl⟩), .inr (window_setPeer rfl known rfl), .inr ?_⟩
    exact fun _ => List.mem_of_mem_filter
  | _ => exact ⟨.inr (.inr ⟨rfl, rfl⟩), .inr rfl, .inr kept⟩

/-- A session publishes one event for an id, acknowledges the id with that event's
sequence once the event and its dedupe entry exist, and a command that is answered
with an error has published, recorded and registered nothing. -/
theorem commands_idempotent (run : (commands config).Run labels s) :
    (∀ p id, (published p id labels).length ≤ 1) ∧
    (∀ {front back k p n} {id : Bytes}, labels = front ++ .acknowledge k p id n :: back →
      Accepted p id n front) ∧
    (∀ {k p error}, .refuse k p error ∈ labels → Untouched k labels) := by
  refine ⟨published_once (valid_run run), acknowledged_run run, ?_⟩
  intro k p error refused
  exact ((valid_run run).refused refused).1

end Steps

section First

/-- The id of a first command. -/
def firstId : Bytes := List.replicate 22 0x41

def firstMessage : MessageDto :=
  { code := some .peerMessage, message := some (ascii "hello"), clientMessageId := some firstId }

/-- The first session's first command is published, recorded and acknowledged. -/
theorem commands_idempotent_first :
    ∃ labels s, (commands {}).Run labels s ∧ .acknowledge 0 1 firstId 1 ∈ labels ∧
      (published 1 firstId labels).length ≤ 1 := by
  let room : Room := { name := [] }
  have start : (commands {}).Run [] { room } := .start ⟨[], rfl⟩
  have joined := start.next (@Step.join {} _ _ 1 0 0 [] 0 rfl rfl)
  have received := joined.next (@Step.receive {} _ 0 _ 1 firstMessage 0 rfl rfl (.inl rfl))
  have admitted := received.next (.accept (k := 0) rfl rfl (by decide))
  have held := admitted.next (.hold (k := 0) rfl rfl rfl rfl rfl rfl)
  have prepared := held.next (.prepare (k := 0) rfl rfl rfl)
  have ordered := prepared.next (.order (k := 0) rfl rfl rfl)
  have sequenced := ordered.next (.sequence (k := 0) rfl rfl rfl rfl)
  have recorded := sequenced.next (.record (k := 0) rfl rfl rfl rfl)
  have announced := recorded.next (.broadcast (k := 0) rfl rfl)
  have run := announced.next (.acknowledge (k := 0) rfl rfl)
  exact ⟨_, _, run, List.mem_append_right _ (.head _), (commands_idempotent run).1 1 firstId⟩

end First
end Conspire.Commands
