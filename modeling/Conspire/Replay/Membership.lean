import Conspire.Replay.Wire

/-! The members of a room and its announcements. Each member has announced itself or is
about to, and who is no member any more has left in the log or is about to leave. -/
namespace Conspire.Replay
open Session Transition

def Joins (member : PeerId) (event : MessageDto) : Prop :=
  event.code = some .peerJoined ∧ event.peerId = some (member : Int)

def Leaves (member : PeerId) (event : MessageDto) : Prop :=
  event.code = some .peerLeft ∧ event.peerId = some (member : Int)

/-- The events that change a list of participants. -/
def membership (event : MessageDto) : Bool :=
  event.code = some .peerJoined || event.code = some .peerLeft

/-- Between these sections a fresh session is a member that has not announced itself. -/
def Phase.early : Phase → Bool
  | .joined | .registered => true
  | _ => false

/-- Has the handler listed the peers? -/
def Phase.hasListed : Phase → Bool
  | .listed | .counted | .copied | .captured | .answered | .detaching | .closed => true
  | _ => false

/-- The id that a peer's own record has. -/
def Server.named (s : Server) (member : PeerId) : Option PeerId := (s.peers member).map (·.peerId)

def Server.early (s : Server) (member : PeerId) : Prop :=
  ∃ T h, s.handler T = .running h ∧ h.peer = member ∧ h.phase.early = true

section Steps
variable {config : ConfigDto} {written : MessageDto → Nat} {s t u : Server} {T : Socket}
  {member : PeerId} {frame : OutboundFrame}

theorem named_setPeer {peer : Peer} : (s.setPeer member peer).named =
    Function.update s.named member (some peer.peerId) := by
  funext who
  by_cases is : who = member <;> simp [Server.named, Server.setPeer, is]

theorem named_setPeer_same {peer next : Peer} (known : s.peers member = some peer)
    (same : next.peerId = peer.peerId) : (s.setPeer member next).named = s.named := by
  rw [named_setPeer, same]
  funext who
  by_cases is : who = member
  · simp [is, Server.named, known]
  · simp [is]

theorem named_invalidate (socket : Option Socket) : (s.invalidate socket).named = s.named := by
  cases socket <;> rfl

theorem named_post : (s.post written member frame).named = s.named := by
  unfold Server.post
  split
  · rfl
  · rename_i peer known
    split
    · rename_i next pushed
      refine named_setPeer_same known ?_
      unfold Peer.enqueue at pushed
      dsimp only at pushed
      split at pushed
      · contradiction
      · cases pushed
        rfl
    · dsimp only
      rw [named_invalidate]
      refine named_setPeer_same known ?_
      unfold Peer.invalidateSocketIfCurrent
      split <;> rfl

/-- What a step does to the log, the members and the expired sessions. -/
inductive Enrols (s t : Server) : Prop where
  | still : t.log = s.log → t.room.peerById = s.room.peerById → t.leaving = s.leaving →
      t.named = s.named → Enrols s t
  | posted {event : MessageDto} : membership event = false → t.log = s.log ++ [event] →
      t.room.peerById = s.room.peerById → t.leaving = s.leaving → t.named = s.named → Enrols s t
  | joined {T : Socket} {h : Hello} {event : MessageDto} : s.handler T = .running h →
      h.phase = .registered → Joins h.peer event → t.log = s.log ++ [event] →
      t.room.peerById = s.room.peerById → t.leaving = s.leaving → t.named = s.named → Enrols s t
  | left {member : PeerId} {event : MessageDto} : s.leaving member = .removed →
      Leaves member event → t.log = s.log ++ [event] → t.room.peerById = s.room.peerById →
      t.leaving = Function.update s.leaving member .gone → t.named = s.named → Enrols s t
  | entered {T : Socket} {h : Hello} : s.peers h.peer = none → t.handler T = .running h →
      h.phase.early = true → t.room.peerById = s.room.peerById ++ [h.peer] → t.log = s.log →
      t.leaving = s.leaving → t.named = Function.update s.named h.peer (some h.peer) → Enrols s t
  | expired {member : PeerId} : (s.leases member).isSome → t.log = s.log →
      t.room.peerById = s.room.peerById →
      t.leaving = Function.update s.leaving member .expired → t.named = s.named → Enrols s t
  | removed {member : PeerId} : s.leaving member = .expired → t.log = s.log →
      t.room.peerById = s.room.peerById.filter (· ≠ member) →
      t.leaving = Function.update s.leaving member .removed → t.named = s.named → Enrols s t

theorem post_leaving : (s.post written member frame).leaving = s.leaving := by
  unfold Server.post Server.setPeer Server.invalidate
  split
  · rfl
  · split
    · rfl
    · dsimp only
      split <;> rfl

theorem invalidate_leaving (socket : Option Socket) :
    (s.invalidate socket).leaving = s.leaving := by
  cases socket <;> rfl

theorem addHistoryMessage_code {room after : Room}
    (added : room.addHistoryMessage config message = some (after, event)) :
    event.code = message.code ∧ event.peerId = message.peerId := by
  obtain ⟨rfl, _⟩ := Room.addHistoryMessage_eq_some added
  exact ⟨rfl, rfl⟩

theorem enrols_step (valid : Discipline s.control) (step : Step config written s l t) :
    Enrols s t := by
  cases step with
  | publish _ code added =>
    obtain ⟨same, _⟩ := addHistoryMessage_code added
    refine .posted ?_ rfl (Room.addHistoryMessage_members added) rfl rfl
    rcases code with code | code <;> simp [membership, same, code]
  | welcome _ is phase _ added =>
    exact .joined is phase (addHistoryMessage_code added) rfl (Room.addHistoryMessage_members added)
      rfl rfl
  | goodbye _ removed _ added =>
    exact .left removed (addHistoryMessage_code added) rfl (Room.addHistoryMessage_members added)
      rfl rfl
  | members | skip | capture | finish | welcomed | register | resume | refuse | advance | beginSend
  | check | drop | write | apiError | unlease => exact .still rfl rfl rfl rfl
  | push | endSend =>
    exact .still (by simp only [post_fields]) (by simp only [post_fields]) (by rw [post_leaving])
      (by rw [named_post]; rfl)
  | answer =>
    refine .still ?_ ?_ ?_ ?_
    · simp only [Server.setHello, post_fields]
    · simp only [Server.setHello, post_fields]
    · simp only [Server.setHello, post_leaving]
    · exact named_post
  | join pending _ new _ added =>
    have members := congrArg Room.peerById (Room.addPeer_eq_some added (valid.absent new))
    refine .entered new (Function.update_self ..) rfl members rfl rfl ?_
    exact named_setPeer
  | bind is phase known =>
    refine .still ?_ ?_ ?_ ?_
    · simp only [Server.setHello, invalidate_fields]
      rfl
    · simp only [Server.setHello, invalidate_fields]
      rfl
    · exact invalidate_leaving _
    · refine (named_invalidate _).trans (named_setPeer_same known ?_)
      rfl
  | take known _ taken =>
    refine .still rfl rfl rfl (named_setPeer_same known ?_)
    unfold Peer.takeOutboundFrame at taken
    split at taken
    · cases taken
    · cases taken
      rfl
  | detach _ _ known detached =>
    exact .still rfl rfl rfl (named_setPeer_same known (Peer.detachIfCurrent_room detached).2)
  | expire found expired => exact .expired (by simp [found]) rfl rfl rfl rfl
  | remove expired => exact .removed expired rfl rfl rfl rfl

/-- A fresh member stays early until it announces itself. -/
theorem early_step (step : Step config written s l t) (early : s.early member) :
    t.early member ∨ ∃ event, t.log = s.log ++ [event] ∧ Joins member event := by
  obtain ⟨T, h, is, rfl, early⟩ := early
  -- a step sets the handler of another socket, or one that is not early
  have set : ∀ {socket : Socket} {next : Handler}, s.handler socket ≠ .running h →
      Function.update s.handler socket next T = .running h := by
    intro socket next other
    rw [Function.update_of_ne (fun here : T = socket => other (here ▸ is)), is]
  have running : ∀ {socket : Socket} {k : Hello}, s.handler socket = .running k →
      k.phase.early = false → s.handler socket ≠ .running h := by
    intro socket k found other same
    cases found.symm.trans same
    simp [early] at other
  have kept : t.handler T = .running h → t.early h.peer := fun after => ⟨T, h, after, rfl, early⟩
  have own : ∀ {socket : Socket} {k : Hello}, s.handler socket = .running k →
      T ≠ socket ∨ T = socket ∧ k = h := by
    intro socket k found
    by_cases here : T = socket
    · subst here
      cases found.symm.trans is
      exact .inr ⟨rfl, rfl⟩
    · exact .inl here
  cases step with
  | publish | goodbye | members | skip | capture | finish | beginSend | take | check | drop | write
  | apiError | expire | remove => exact .inl (kept is)
  | push | endSend => exact .inl (kept (by simpa only [post_fields] using is))
  | welcome _ found phase _ added =>
    rcases own found with other | ⟨rfl, rfl⟩
    · exact .inl (kept ((Function.update_of_ne other ..).trans is))
    · exact .inr ⟨_, rfl, addHistoryMessage_code added⟩
  | register found phase =>
    rcases own found with other | ⟨rfl, rfl⟩
    · exact .inl (kept ((Function.update_of_ne other ..).trans is))
    · exact .inl ⟨T, _, Function.update_self .., rfl, rfl⟩
  | welcomed _ found phase => exact .inl (kept (set (running found (by rw [phase]; rfl))))
  | detach found phase => exact .inl (kept (set (running found (by rw [phase]; rfl))))
  | unlease found phase => exact .inl (kept (set (running found (by rw [phase]; rfl))))
  | bind found phase =>
    refine .inl (kept ?_)
    simp only [Server.setHello, invalidate_fields]
    exact set (running found (by rw [phase]; rfl))
  | answer found phase =>
    refine .inl (kept ?_)
    simp only [Server.setHello, post_fields]
    exact set (running found (by rw [phase]; rfl))
  | join pending | resume pending => exact .inl (kept (set (by simp [pending])))
  | refuse pending => exact .inl (kept (set (by simp [pending])))
  | advance found _ next =>
    refine .inl (kept (set (running found ?_)))
    unfold Server.advance at next
    split at next
    case h_5 => cases next
    all_goals
      rename_i phase
      rw [phase]
      rfl

/-- Members have announced themselves or are about to, who left did so after that, and
who is no member has left or is about to. -/
structure Enrolled (s : Server) : Prop where
  named : ∀ {member id}, s.named member = some id → id = member
  ordered : s.log.Pairwise fun first second => ∀ member, Leaves member first → ¬Joins member second
  joined : ∀ event ∈ s.log, event.code = some .peerJoined →
    ∃ member, Joins member event ∧ s.named member ≠ none
  left : ∀ event ∈ s.log, event.code = some .peerLeft →
    ∃ member, Leaves member event ∧ s.leaving member = .gone
  announced : ∀ member ∈ s.room.peerById, (∃ event ∈ s.log, Joins member event) ∨ s.early member
  away : ∀ member, s.named member ≠ none →
    member ∈ s.room.peerById ∨ s.leaving member = .removed ∨ ∃ event ∈ s.log, Leaves member event
  absent : ∀ member, s.leaving member = .removed ∨ s.leaving member = .gone →
    member ∉ s.room.peerById

theorem Enrolled.gone (enrolled : Enrolled s) (inside : event ∈ s.log) (leaves : Leaves member event) :
    s.leaving member = .gone := by
  obtain ⟨who, is, gone⟩ := enrolled.left event inside leaves.1
  obtain rfl := Int.ofNat.inj (Option.some.inj (is.2.symm.trans leaves.2))
  exact gone

theorem Enrolled.known (enrolled : Enrolled s) (inside : event ∈ s.log) (joins : Joins member event) :
    s.named member ≠ none := by
  obtain ⟨who, is, known⟩ := enrolled.joined event inside joins.1
  obtain rfl := Int.ofNat.inj (Option.some.inj (is.2.symm.trans joins.2))
  exact known

/-- An event that is the last of the log leaves nobody who announced himself later. -/
theorem ordered_snoc {log : List MessageDto} {event : MessageDto}
    (ordered : log.Pairwise fun first second => ∀ member, Leaves member first → ¬Joins member second)
    (last : ∀ first ∈ log, ∀ member, Leaves member first → ¬Joins member event) :
    (log ++ [event]).Pairwise fun first second => ∀ member, Leaves member first → ¬Joins member second := by
  apply List.pairwise_append.mpr
  refine ⟨ordered, List.pairwise_singleton _ _, fun first inside second single => ?_⟩
  rw [List.mem_singleton.mp single]
  exact last first inside

theorem named_of_member (valid : Discipline s.control) (inside : member ∈ s.room.peerById) :
    s.named member ≠ none := by
  have known := valid.member inside
  cases is : s.peers member <;> simp [Server.control, Server.transport, Server.named, is] at known ⊢

/-- A step by which nobody enters the room. -/
theorem Enrolled.carry {more : List MessageDto} (enrolled : Enrolled s)
    (announced : ∀ who ∈ s.room.peerById, (∃ event ∈ t.log, Joins who event) ∨ t.early who)
    (named : t.named = s.named) (log : t.log = s.log ++ more)
    (ordered : t.log.Pairwise fun first second => ∀ who, Leaves who first → ¬Joins who second)
    (joined : ∀ event ∈ more, event.code = some .peerJoined →
      ∃ who, Joins who event ∧ s.named who ≠ none)
    (left : ∀ event ∈ more, event.code = some .peerLeft →
      ∃ who, Leaves who event ∧ t.leaving who = .gone)
    (gone : ∀ who, s.leaving who = .gone → t.leaving who = .gone)
    (members : ∀ who ∈ t.room.peerById, who ∈ s.room.peerById)
    (away : ∀ who, who ∈ s.room.peerById ∨ s.leaving who = .removed →
      who ∈ t.room.peerById ∨ t.leaving who = .removed ∨ ∃ event ∈ t.log, Leaves who event)
    (absent : ∀ who, t.leaving who = .removed ∨ t.leaving who = .gone → who ∉ t.room.peerById) :
    Enrolled t where
  named := by
    rw [named]
    exact enrolled.named
  ordered := ordered
  joined event inside code := by
    rw [named]
    rw [log] at inside
    rcases List.mem_append.mp inside with before | last
    · exact enrolled.joined event before code
    · exact joined event last code
  left event inside code := by
    rw [log] at inside
    rcases List.mem_append.mp inside with before | last
    · obtain ⟨who, leaves, was⟩ := enrolled.left event before code
      exact ⟨who, leaves, gone who was⟩
    · exact left event last code
  announced who inside := announced who (members who inside)
  away who known := by
    rw [named] at known
    rcases enrolled.away who known with member | removed | ⟨event, before, leaves⟩
    · exact away who (.inl member)
    · exact away who (.inr removed)
    · exact .inr (.inr ⟨event, by simp [log, before], leaves⟩)
  absent := absent

theorem enrolled_step (valid : Discipline s.control) (enrolled : Enrolled s)
    (step : Step config written s l t) : Enrolled t := by
  have announced : ∀ who ∈ s.room.peerById, (∃ event ∈ t.log, Joins who event) ∨ t.early who := by
    intro who inside
    rcases enrolled.announced who inside with ⟨event, before, joins⟩ | early
    · exact .inl ⟨event, mem_log_step step before, joins⟩
    · rcases early_step step early with early | ⟨event, log, joins⟩
      · exact .inr early
      · exact .inl ⟨event, by simp [log], joins⟩
  cases enrols_step valid step with
  | still log members leaving named =>
    refine enrolled.carry announced named (log.trans (List.append_nil _).symm)
      (log ▸ enrolled.ordered) nofun nofun ?_ ?_ ?_ ?_
    · simp [leaving]
    · simp [members]
    · simpa [members, leaving] using fun who => Or.imp_right .inl
    · simpa only [members, leaving] using enrolled.absent
  | @posted event quiet log members leaving named =>
    simp only [membership, Bool.or_eq_false_iff, decide_eq_false_iff_not] at quiet
    have last : ∀ {first}, first ∈ [event] → first = event := List.mem_singleton.mp
    refine enrolled.carry announced named log ?_ (fun first inside code => ?_)
      (fun first inside code => ?_) ?_ ?_ ?_ ?_
    · rw [log]
      exact ordered_snoc enrolled.ordered fun _ _ _ _ joins => quiet.1 joins.1
    · exact absurd code (last inside ▸ quiet.1)
    · exact absurd code (last inside ▸ quiet.2)
    · simp [leaving]
    · simp [members]
    · simpa [members, leaving] using fun who => Or.imp_right .inl
    · simpa only [members, leaving] using enrolled.absent
  | @joined T h event is phase joins log members leaving named =>
    obtain ⟨_, inside, staying, _⟩ := valid.live is (by simp [phase])
    have last : ∀ {first}, first ∈ [event] → first = event := List.mem_singleton.mp
    refine enrolled.carry announced named log ?_ (fun first single code => ?_)
      (fun first single code => ?_) ?_ ?_ ?_ ?_
    · rw [log]
      refine ordered_snoc enrolled.ordered fun first before who leaves same => ?_
      obtain rfl := Int.ofNat.inj (Option.some.inj (same.2.symm.trans joins.2))
      cases (enrolled.gone before leaves).symm.trans staying
    · exact ⟨h.peer, last single ▸ joins, named_of_member valid inside⟩
    · rw [last single, joins.1] at code
      cases code
    · simp [leaving]
    · simp [members]
    · simpa [members, leaving] using fun who => Or.imp_right .inl
    · simpa only [members, leaving] using enrolled.absent
  | @left member event removed leaves log members leaving named =>
    have last : ∀ {first}, first ∈ [event] → first = event := List.mem_singleton.mp
    refine enrolled.carry announced named log ?_ (fun first single code => ?_)
      (fun first single code => ?_) ?_ ?_ ?_ ?_
    · rw [log]
      refine ordered_snoc enrolled.ordered fun _ _ _ _ joins => ?_
      cases leaves.1.symm.trans joins.1
    · rw [last single, leaves.1] at code
      cases code
    · exact ⟨member, last single ▸ leaves, by simp [leaving]⟩
    · intro who gone
      by_cases here : who = member <;> simp [leaving, here, gone]
    · simp [members]
    · intro who before
      by_cases here : who = member
      · subst here
        exact .inr (.inr ⟨event, by simp [log], leaves⟩)
      · simp [members, leaving, here, before, or_assoc.symm]
    · intro who left
      rw [members]
      by_cases here : who = member
      · subst here
        exact enrolled.absent who (.inl removed)
      · exact enrolled.absent who (by simpa [leaving, here] using left)
  | @entered T h new is early members log leaving named =>
    have unknown : s.named h.peer = none := by simp [Server.named, new]
    have staying : s.leaving h.peer = .staying := by
      by_contra left
      have known := valid.departed left
      simp [Server.control, Server.transport, new] at known
    refine ⟨?_, log ▸ enrolled.ordered, ?_, ?_, ?_, ?_, ?_⟩
    · intro who id is
      by_cases here : who = h.peer
      · subst here
        simpa [named] using is.symm
      · exact enrolled.named (by simpa [named, here] using is)
    · intro event inside code
      obtain ⟨who, joins, known⟩ := enrolled.joined event (log ▸ inside) code
      refine ⟨who, joins, ?_⟩
      by_cases here : who = h.peer <;> simp [named, here, known]
    · rw [log, leaving]
      exact enrolled.left
    · intro who inside
      rcases List.mem_append.mp (members ▸ inside) with before | last
      · exact announced who before
      · exact .inr ⟨T, h, is, (List.mem_singleton.mp last).symm, early⟩
    · intro who known
      rw [members, leaving, log]
      by_cases here : who = h.peer
      · simp [here]
      · have before := enrolled.away who (by simpa [named, here] using known)
        exact before.imp_left (List.mem_append_left _)
    · intro who left
      rw [leaving] at left
      rw [members]
      intro inside
      rcases List.mem_append.mp inside with before | last
      · exact enrolled.absent who left before
      · rw [List.mem_singleton.mp last, staying] at left
        simp at left
  | @expired member leased log members leaving named =>
    obtain ⟨lease, is⟩ := Option.isSome_iff_exists.mp leased
    have staying : s.leaving member = .staying := (valid.leased is).2
    refine enrolled.carry announced named (log.trans (List.append_nil _).symm)
      (log ▸ enrolled.ordered) nofun nofun ?_ ?_ ?_ ?_
    · intro who gone
      by_cases here : who = member
      · subst here
        cases gone.symm.trans staying
      · simpa [leaving, here] using gone
    · simp [members]
    · intro who before
      by_cases here : who = member
      · subst here
        rw [staying] at before
        exact .inl (by simpa [members] using before)
      · simp [members, leaving, here, before, or_assoc.symm]
    · intro who left
      rw [members]
      by_cases here : who = member
      · simp [leaving, here] at left
      · exact enrolled.absent who (by simpa [leaving, here] using left)
  | @removed member expired log members leaving named =>
    refine enrolled.carry announced named (log.trans (List.append_nil _).symm)
      (log ▸ enrolled.ordered) nofun nofun ?_ ?_ ?_ ?_
    · intro who gone
      by_cases here : who = member
      · subst here
        cases gone.symm.trans expired
      · simpa [leaving, here] using gone
    · simp +contextual [members]
    · intro who before
      by_cases here : who = member
      · exact .inr (.inl (by simp [leaving, here]))
      · simp [members, leaving, here, before, or_assoc.symm]
    · intro who left
      by_cases here : who = member
      · simp [members, here]
      · have outside := enrolled.absent who (by simpa [leaving, here] using left)
        simp [members, outside]

theorem enrolled (reached : (server config written).Reachable s) : Enrolled s := by
  apply reached.invariant (P := Enrolled)
  case start =>
    rintro s ⟨name, rfl⟩
    exact ⟨by simp [Server.named], .nil, nofun, nofun, nofun, by simp [Server.named], by simp⟩
  case preserved =>
    intro s l t before enrolled step
    exact enrolled_step (disciplined before) enrolled step

theorem named_step (valid : Discipline s.control) (step : Step config written s l t)
    (known : s.named member ≠ none) : t.named member ≠ none := by
  cases enrols_step valid step with
  | still _ _ _ named | posted _ _ _ _ named | joined _ _ _ _ _ _ named | left _ _ _ _ _ named
  | expired _ _ _ _ named | removed _ _ _ _ named => rwa [named]
  | @entered _ h _ _ _ _ _ _ named =>
    by_cases here : member = h.peer <;> simp [named, here, known]

/-- Nobody is a member again. -/
theorem member_step (valid : Discipline s.control) (step : Step config written s l t)
    (known : s.named member ≠ none) (inside : member ∈ t.room.peerById) :
    member ∈ s.room.peerById := by
  cases enrols_step valid step with
  | still _ members | posted _ _ members | joined _ _ _ _ members | left _ _ _ members
  | expired _ _ members => rwa [members] at inside
  | removed _ _ members =>
    rw [members] at inside
    exact (List.mem_filter.mp inside).1
  | entered new _ _ members =>
    rw [members] at inside
    rcases List.mem_append.mp inside with before | last
    · exact before
    · rw [List.mem_singleton.mp last] at known
      simp [Server.named, new] at known

/-- An event of an older number was published before. -/
theorem mem_log_old (logged : t.room.Logged config t.log) (step : Step config written s l t)
    (inside : event ∈ t.log) (number : durableSeq event = some n) (old : n ≤ s.log.length) :
    event ∈ s.log := by
  obtain ⟨more, log⟩ := log_step step
  have numbered := logged.numbered.drop s.log.length (by simp [log])
  rw [log] at inside numbered
  rcases List.mem_append.mp inside with before | later
  · exact before
  · rw [List.drop_left] at numbered
    obtain ⟨k, same, above, _⟩ := numbered.durable later
    cases same.symm.trans number
    omega

def Lists (peers : List PeerDto) (member : PeerId) : Prop :=
  ∃ peer ∈ peers, peer.peerId = some (member : Int)

/-- What holds of the participants of a handler that listed the peers. -/
structure Listing (s : Server) (h : Hello) : Prop where
  within : h.since ≤ s.log.length
  known : ∀ peer ∈ h.peers, ∃ member : PeerId,
    peer.peerId = some (member : Int) ∧ s.named member ≠ none
  left : ∀ event ∈ s.log, ∀ n, durableSeq event = some n → n ≤ h.since →
    ∀ member, Leaves member event → ¬Lists h.peers member
  joined : ∀ event ∈ s.log, ∀ n, durableSeq event = some n → n ≤ h.since →
    ∀ member, Joins member event → member ∈ s.room.peerById → Lists h.peers member

/-- The peers are listed now, or were before. -/
inductive ListedChange (s : Server) (T : Socket) (h : Hello) : Prop where
  | earlier {k : Hello} : s.handler T = .running k → k.phase.hasListed = true → h.peers = k.peers →
      h.since = k.since → h.cursor = k.cursor → ListedChange s T h
  | now {k : Hello} {members : List PeerId} : s.handler T = .running k → k.phase = .bound →
      members.Perm s.room.peerById → h.peers = s.getPeers members →
      h.since = s.room.sequencer.latest → h.cursor = k.cursor → ListedChange s T h

theorem Phase.Moves.hasListed {before after : Phase} (moves : before.Moves after) :
    before.hasListed = after.hasListed := by
  cases moves <;> rfl

theorem listed_step (step : Step config written s l t) (is : t.handler T = .running h)
    (listed : h.phase.hasListed = true) : ListedChange s T h := by
  cases handler_step step is with
  | same was => exact .earlier was listed rfl rfl rfl
  | moved was moves same =>
    subst same
    exact .earlier was (moves.hasListed ▸ listed) rfl rfl rfl
  | advanced was next order =>
    unfold Server.advance at next
    split at next
    case h_1 phase =>
      cases next
      exact .now was phase order rfl rfl rfl
    case h_2 phase | h_3 phase =>
      cases next
      exact .earlier was (by rw [phase]; rfl) rfl rfl rfl
    case h_4 phase =>
      obtain ⟨_, _, rfl⟩ := Option.map_eq_some_iff.mp next
      exact .earlier was (by rw [phase]; rfl) rfl rfl rfl
    case h_5 => cases next
  | started _ phase =>
    rcases phase with phase | phase <;> simp [phase, Phase.hasListed] at listed

/-- The peers that `getPeers` returns are the members of the room. -/
theorem lists_getPeers (valid : Discipline s.control) (enrolled : Enrolled s)
    {members : List PeerId} (order : members.Perm s.room.peerById) :
    Lists (s.getPeers members) member ↔ member ∈ s.room.peerById := by
  constructor
  · rintro ⟨peer, inside, is⟩
    obtain ⟨who, listed, known⟩ := List.mem_filterMap.mp inside
    obtain ⟨record, found, rfl⟩ := Option.map_eq_some_iff.mp known
    have same : record.peerId = who := enrolled.named (by simp [Server.named, found])
    obtain rfl : who = member := same.symm.trans (Int.ofNat.inj (Option.some.inj is))
    exact order.mem_iff.mp listed
  · intro inside
    have known := named_of_member valid inside
    cases found : s.peers member with
    | none => simp [Server.named, found] at known
    | some record =>
      have same : record.peerId = member := enrolled.named (by simp [Server.named, found])
      refine ⟨_, List.mem_filterMap.mpr ⟨member, order.mem_iff.mpr inside, by rw [found]; rfl⟩, ?_⟩
      simp [same]

theorem listing_now (valid : Discipline s.control) (enrolled : Enrolled s)
    (logged : s.room.Logged config s.log) {members : List PeerId}
    (order : members.Perm s.room.peerById) (peers : h.peers = s.getPeers members)
    (since : h.since = s.room.sequencer.latest) : Listing s h where
  within := by
    rw [since, logged.latest]
  known := by
    rw [peers]
    intro peer inside
    obtain ⟨who, listed, known⟩ := List.mem_filterMap.mp inside
    obtain ⟨record, found, rfl⟩ := Option.map_eq_some_iff.mp known
    have same : record.peerId = who := enrolled.named (by simp [Server.named, found])
    exact ⟨who, by simp [same], named_of_member valid (order.mem_iff.mp listed)⟩
  left event inside n _ _ who leaves lists := by
    rw [peers, lists_getPeers valid enrolled order] at lists
    exact enrolled.absent who (.inr (enrolled.gone inside leaves)) lists
  joined event _ n _ _ who _ inside := by
    rw [peers]
    exact (lists_getPeers valid enrolled order).mpr inside

theorem listing_step (valid : Discipline s.control) (enrolled : Enrolled s)
    (logged : t.room.Logged config t.log) (step : Step config written s l t)
    (listing : Listing s k) (peers : h.peers = k.peers) (since : h.since = k.since) : Listing t h where
  within := by
    obtain ⟨more, log⟩ := log_step step
    rw [since, log, List.length_append]
    exact Nat.le_add_right_of_le listing.within
  known := by
    rw [peers]
    intro peer inside
    obtain ⟨who, is, known⟩ := listing.known peer inside
    exact ⟨who, is, named_step valid step known⟩
  left event inside n number early := by
    rw [since] at early
    rw [peers]
    have before := mem_log_old logged step inside number (early.trans listing.within)
    exact listing.left event before n number early
  joined event inside n number early who joins member := by
    rw [since] at early
    rw [peers]
    have before := mem_log_old logged step inside number (early.trans listing.within)
    have known := enrolled.known before joins
    exact listing.joined event before n number early who joins (member_step valid step known member)

theorem listing (reached : (server config written).Reachable s) (is : s.handler T = .running h)
    (listed : h.phase.hasListed = true) : Listing s h := by
  induction reached generalizing h with
  | start initial =>
    obtain ⟨name, rfl⟩ := initial
    cases is
  | @next s l t before step ih =>
    have valid := disciplined before
    have enrolled := enrolled before
    have logged := (delivery (before.next step)).published.logged
    cases listed_step step is listed with
    | earlier was listed peers since =>
      exact listing_step valid enrolled logged step (ih was listed) peers since
    | @now k members _ _ order peers since =>
      have before := listing_now (h := h) valid enrolled (delivery before).published.logged order peers since
      exact listing_step valid enrolled logged step before rfl rfl

end Steps
end Conspire.Replay
