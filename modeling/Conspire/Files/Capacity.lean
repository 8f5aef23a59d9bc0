import Conspire.Files.Streaming

/-! The bounds of a room: its members, the files of each peer and the subscribers
of each file. A check and the insertion it stands for hold one lock; what other
threads do in between leaves the count they are about. -/
namespace Conspire.Files
open Session Boundaries Transition

/-- The bounds of the file operations, with the room that a prepared batch needs. -/
structure Fitting (s : Index) : Prop where
  members : s.room.peerById.length ≤ Limits.peersPerRoom
  files : ∀ p, (s.held p).length ≤ Limits.filesPerPeer
  batch : ∀ p files, s.mutation = some (.prepared p files) →
    (s.held p).length + files.length ≤ Limits.filesPerPeer

/-- Both indexes are as before. -/
def Untouched (s t : Index) : Prop := t.held = s.held ∧ t.room.fileById = s.room.fileById

/-- What one step may do to a share that is in progress: nothing; refuse it before it
has done anything; or take it on by the whole batch, one file for each descriptor, which
goes to the list of the host and then to the map of the room. -/
def Whole (s t : Index) : Prop :=
  match s.mutation with
  | some (.sharing host descriptors) => Untouched s t ∧
      (t.mutation = s.mutation ∨ t.mutation = none ∨ t.mutation = some (.hosted host descriptors))
  | some (.hosted host descriptors) => Untouched s t ∧
      (t.mutation = s.mutation ∨ t.mutation = none ∨
        ∃ files, t.mutation = some (.prepared host files) ∧ files.length = descriptors.length)
  | some (.prepared host files) => t.room.fileById = s.room.fileById ∧
      (t.mutation = s.mutation ∧ t.held = s.held ∨
        t.mutation = some (.added host files) ∧ t.held host = s.held host ++ files)
  | some (.added _ files) => t.held = s.held ∧
      (t.mutation = s.mutation ∧ t.room.fileById = s.room.fileById ∨
        t.mutation = none ∧ t.room.fileById =
          s.room.fileById ++ files.map fun file => (file.serverFileId, file))
  | _ => True

section
variable {s t : Index} {l : IndexLabel}

/-- A peer that is given no other files. -/
theorem held_same {peer : Peer} (files : peer.files = s.held member) :
    (s.setPeer member peer).held = s.held := by
  rw [held_setPeer, files, Function.update_eq_self]

theorem held_none (new : s.peers member = none) : s.held member = [] := by
  rw [Index.held, new]

theorem held_some {peer : Peer} (found : s.peers member = some peer) : s.held member = peer.files := by
  rw [Index.held, found]

namespace Fitting

/-- No list of files has grown, and no batch is prepared that was not before. -/
theorem stays (fitting : Fitting s) (members : t.room.peerById.length ≤ Limits.peersPerRoom)
    (held : ∀ p, t.held p = s.held p ∨ t.held p = [])
    (mutation : t.mutation = s.mutation ∧ t.held = s.held ∨
      ∀ p files, t.mutation ≠ some (.prepared p files)) : Fitting t where
  members := members
  files p := by
    rcases held p with same | empty
    · rw [same]
      exact fitting.files p
    · rw [empty]
      exact Nat.zero_le _
  batch p files is := by
    rcases mutation with ⟨same, held⟩ | other
    · rw [held]
      exact fitting.batch p files (same ▸ is)
    · exact absurd is (other p files)

theorem prepare (fitting : Fitting s) (held : t.held = s.held) (room : t.room.peerById = s.room.peerById)
    (is : t.mutation = some (.prepared host (createFiles before host descriptors)))
    (capacity : hasCapacityFor (s.held host).length descriptors.length Limits.filesPerPeer = true) :
    Fitting t where
  members := by
    rw [room]
    exact fitting.members
  files p := by
    rw [held]
    exact fitting.files p
  batch p files prepared := by
    rw [is] at prepared
    cases prepared
    have fits := hasCapacityFor_le capacity
    simpa [createFiles, held] using fits

theorem add {peer : Peer} {files : List File} (fitting : Fitting s) (is : s.mutation = some (.prepared host files))
    (found : s.peers host = some peer) :
    Fitting ({ s with mutation := some (.added host files) }.setPeer host (peer.addFiles files)) where
  members := fitting.members
  files p := by
    have fits := fitting.batch host files is
    rw [held_some found] at fits
    rw [held_setPeer, Function.update_apply]
    split
    · simpa [Peer.addFiles] using fits
    · exact fitting.files p
  batch _ _ prepared := by cases prepared

theorem step (fitting : Fitting s) (step : IndexStep s l t) : Fitting t := by
  have same : ∀ p, s.held p = s.held p ∨ s.held p = [] := fun _ => .inl rfl
  cases step with
  | join new admitted empty =>
    have held := held_same (s := s) (empty.trans (held_none new).symm)
    exact fitting.stays (Room.addPeer_length admitted) (fun p => .inl (congrFun held p))
      (.inl ⟨rfl, held⟩)
  | share | unknown | host | full | merge | removed | withdraw | forget =>
    exact fitting.stays fitting.members same (.inr nofun)
  | prepare is capacity => exact fitting.prepare rfl rfl rfl capacity
  | add is found => exact fitting.add is found
  | remove =>
    exact fitting.stays (Nat.le_trans (List.length_filter_le ..) fitting.members) same (.inl ⟨rfl, rfl⟩)
  | take is found =>
    refine fitting.stays fitting.members (fun p => ?_) (.inr nofun)
    rw [held_setPeer, Function.update_apply]
    split
    · exact .inr rfl
    · exact .inl rfl

end Fitting

theorem Whole.still (mutation : t.mutation = s.mutation) (held : t.held = s.held)
    (files : t.room.fileById = s.room.fileById) : Whole s t := by
  unfold Whole
  split
  · exact ⟨⟨held, files⟩, .inl mutation⟩
  · exact ⟨⟨held, files⟩, .inl mutation⟩
  · exact ⟨files, .inl ⟨mutation, held⟩⟩
  · exact ⟨held, .inl ⟨mutation, files⟩⟩
  · trivial

theorem whole_step (agreed : Agreed s) (step : IndexStep s l t) : Whole s t := by
  cases step with
  | join new admitted empty =>
    exact .still rfl (held_same (s := s) (empty.trans (held_none new).symm)) (Room.addPeer_files admitted)
  | remove => exact .still rfl rfl rfl
  | share idle | removed idle | withdraw idle => simp [Whole, idle]
  | unknown is =>
    rw [Whole, is]
    exact ⟨⟨rfl, rfl⟩, .inr (.inl rfl)⟩
  | host is =>
    rw [Whole, is]
    exact ⟨⟨rfl, rfl⟩, .inr (.inr rfl)⟩
  | full is =>
    rw [Whole, is]
    exact ⟨⟨rfl, rfl⟩, .inr (.inl rfl)⟩
  | prepare is =>
    rw [Whole, is]
    exact ⟨⟨rfl, rfl⟩, .inr (.inr ⟨_, rfl, by simp [createFiles]⟩)⟩
  | add is found =>
    rw [Whole, is]
    refine ⟨rfl, .inr ⟨rfl, ?_⟩⟩
    rw [held_setPeer, Function.update_self, held_some found]
    rfl
  | merge is =>
    rw [Whole, is]
    refine ⟨rfl, .inr ⟨rfl, agreed.merged _ fun file member => ?_⟩⟩
    have added := agreed.added file (by rw [is]; exact member)
    exact ⟨(agreed.held _ file added.1).1, added.2⟩
  | take is | forget is => simp [Whole, is]

end

/-- The bounds of a room with its downloads. -/
structure Limited (s : Streams) : Prop where
  fitting : Fitting s.index
  subscribers : ∀ file, (s.subscribers file).ids.length ≤ Limits.subscribersPerFile

variable {decode : Bytes → Option Bytes} {size : MessageDto → Nat} {s t : Streams} {l : StreamsLabel}

theorem live_length (s : Streams) (file : File) :
    (s.live file).length ≤ (s.subscribers file.serverFileId).ids.length := by
  unfold Streams.live
  exact Nat.le_trans (List.length_filter_le ..) (Nat.le_of_eq (List.length_map ..))

theorem update_length (limited : ∀ file, (s.subscribers file).ids.length ≤ Limits.subscribersPerFile)
    (kept : entry.ids.length ≤ Limits.subscribersPerFile) (file other : Nat) :
    (Function.update s.subscribers file entry other).ids.length ≤ Limits.subscribersPerFile := by
  rw [Function.update_apply]
  split
  · exact kept
  · exact limited other

theorem subscribers_step (limited : ∀ file, (s.subscribers file).ids.length ≤ Limits.subscribersPerFile)
    (step : StreamsStep decode size s l t) (file : Nat) :
    (t.subscribers file).ids.length ≤ Limits.subscribersPerFile := by
  have keep : shell t = shell s → (t.subscribers file).ids.length ≤ Limits.subscribersPerFile := by
    intro same
    rw [show t.subscribers = s.subscribers from congrArg Shell.subscribers same]
    exact limited file
  -- the length of a table that is about to be replaced
  have before : ∀ {key counter available ids}, s.subscribers key = ⟨counter, available, ids⟩ →
      ids.length ≤ Limits.subscribersPerFile := by
    intro key counter available ids is
    have := limited key
    rwa [is] at this
  cases step with
  | subscribe _ _ capacity =>
    apply update_length limited
    rw [List.length_append, List.length_singleton]
    exact hasCapacity_iff.mp capacity
  | unsubscribe _ _ is =>
    exact update_length limited (Nat.le_trans (List.length_erase_le ..) (before is)) _ _
  | expired _ _ is =>
    exact update_length limited (Nat.le_trans (List.length_erase_le ..) (before is)) _ _
  | clear => exact update_length limited (Nat.zero_le _) _ _
  | file =>
    apply update_length limited
    rw [List.length_map]
    exact Nat.le_trans (live_length s _) (limited _)
  | detached => exact keep (release_shell ..)
  | push => exact keep ((release_shell ..).trans (post_shell ..))
  | wait => exact keep (ask_shell ..)
  | skip => exact keep (release_shell ..)
  | reissue => exact keep (ask_shell ..)
  | invalidate => exact keep (invalidate_shell ..)
  | post => exact keep (post_shell ..)
  | _ => exact limited file

theorem limited_step (limited : Limited s) (step : StreamsStep decode size s l t) : Limited t := by
  refine ⟨?_, subscribers_step limited.subscribers step⟩
  rcases index_step step with ⟨_, moved, _⟩ | same | ⟨host, peer, after, present, same, files, _⟩
  · exact limited.fitting.step moved
  · rw [same]
    exact limited.fitting
  · rw [same]
    have held := held_same (s := s.index) (files.trans (held_some present).symm)
    exact limited.fitting.stays limited.fitting.members (fun p => .inl (congrFun held p)) (.inl ⟨rfl, held⟩)

theorem limited_start (name : Bytes) : Limited { index := { room := { name } } } where
  fitting := ⟨Nat.zero_le _, fun _ => Nat.zero_le _, nofun⟩
  subscribers _ := Nat.zero_le _

theorem limited (reached : (streams decode size).Reachable s) : Limited s := by
  refine reached.invariant ?_ fun _ limited step => limited_step limited step
  rintro _ ⟨name, rfl⟩
  exact limited_start name

/-- Nothing but a file operation touches the files of a room. -/
theorem whole (filed : Filed s) (step : StreamsStep decode size s l t) : Whole s.index t.index := by
  rcases index_step step with ⟨_, moved, _⟩ | same | ⟨host, peer, after, present, same, files, _⟩
  · exact whole_step filed.agreed moved
  · rw [same]
    exact .still rfl rfl rfl
  · rw [same]
    exact .still rfl (held_same (files.trans (held_some present).symm)) rfl

end Conspire.Files
