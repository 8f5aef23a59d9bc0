import Conspire.Library.Machine
import Conspire.Server.Handlers
import Conspire.Server.History
import Mathlib.Data.List.Nodup
import Mathlib.Logic.Function.Basic

/-! The two file indexes of a room: the list of each peer and the map of the room.
`shareFiles`, `withdrawPeerFiles` and `removePeerById` change them one after the
other, under two short locks inside `m_fileMutationLock`; the membership is read
and changed under a third. -/
namespace Conspire.Files
open Session Boundaries Transition

/-- What the holder of `m_fileMutationLock` has done. -/
inductive Mutation where
  | sharing (host : PeerId) (descriptors : List FileDto)
  | hosted (host : PeerId) (descriptors : List FileDto)
  | prepared (host : PeerId) (files : List File)
  | added (host : PeerId) (files : List File)
  | taking (peer : PeerId)
  | taken (peer : PeerId) (files : List File)

/-- `removing` are the peers that `removePeerById` has erased and whose files it
has yet to take; `created` are all files that ever were. -/
structure Index where
  room : Room
  peers : PeerId → Option Peer := fun _ => none
  removing : List PeerId := []
  mutation : Option Mutation := none
  created : List File := []

namespace Index
variable (s : Index)

def setPeer (id : PeerId) (peer : Peer) : Index :=
  { s with peers := Function.update s.peers id (some peer) }

/-- The list of a peer. -/
def held (peer : PeerId) : List File :=
  match s.peers peer with
  | none => []
  | some peer => peer.files

/-- No file operation is in progress. -/
def quiet : Prop := s.mutation = none ∧ s.removing = []

end Index

/-- `m_fileById.merge(prepared)`: a known key keeps its file. -/
def mergeFiles (fileById : List (Nat × File)) (files : List File) : List (Nat × File) :=
  fileById ++ (files.filter fun file => (fileById.lookup file.serverFileId).isNone).map fun file =>
    (file.serverFileId, file)

/-- `for (file : files) m_fileById.erase(file->getServerFileId());` -/
def eraseFiles (fileById : List (Nat × File)) (files : List File) : List (Nat × File) :=
  fileById.filter fun entry => entry.1 ∉ files.map (·.serverFileId)

/-- The files of a batch, in the order of their descriptors. -/
def createFiles (room : Room) (host : PeerId) (descriptors : List FileDto) : List File :=
  descriptors.mapIdx fun index descriptor => File.create host (room.fileIdCounter + index) descriptor

inductive IndexLabel where
  | forget (peer : PeerId)
  | internal

inductive IndexStep : Index → IndexLabel → Index → Prop where
  | join : s.peers member = none → s.room.addPeer member = some room → peer.files = [] →
      IndexStep s .internal ({ s with room }.setPeer member peer)
  -- shareFiles
  | share : s.mutation = none →
      IndexStep s .internal { s with mutation := some (.sharing host descriptors) }
  | unknown : s.mutation = some (.sharing host descriptors) → host ∉ s.room.peerById →
      IndexStep s .internal { s with mutation := none }
  | host : s.mutation = some (.sharing host descriptors) → host ∈ s.room.peerById →
      IndexStep s .internal { s with mutation := some (.hosted host descriptors) }
  | full : s.mutation = some (.hosted host descriptors) →
      hasCapacityFor (s.held host).length descriptors.length Limits.filesPerPeer = false →
      IndexStep s .internal { s with mutation := none }
  | prepare : s.mutation = some (.hosted host descriptors) →
      hasCapacityFor (s.held host).length descriptors.length Limits.filesPerPeer = true →
      IndexStep s .internal
        { s with room := { s.room with fileIdCounter := s.room.fileIdCounter + descriptors.length }
                 mutation := some (.prepared host (createFiles s.room host descriptors))
                 created := s.created ++ createFiles s.room host descriptors }
  | add : s.mutation = some (.prepared host files) → s.peers host = some peer →
      IndexStep s .internal
        ({ s with mutation := some (.added host files) }.setPeer host (peer.addFiles files))
  | merge : s.mutation = some (.added host files) →
      IndexStep s .internal
        { s with room := { s.room with fileById := mergeFiles s.room.fileById files }
                 mutation := none }
  -- removePeerById and withdrawPeerFiles
  | remove : member ∈ s.room.peerById →
      IndexStep s .internal
        { s with room := s.room.erasePeer member, removing := member :: s.removing }
  | removed : s.mutation = none → member ∈ s.removing →
      IndexStep s .internal
        { s with removing := s.removing.erase member, mutation := some (.taking member) }
  | withdraw : s.mutation = none → s.peers member = some peer →
      IndexStep s .internal { s with mutation := some (.taking member) }
  | take : s.mutation = some (.taking member) → s.peers member = some peer →
      IndexStep s .internal
        ({ s with mutation := some (.taken member peer.takeFilesSnapshot.2) }.setPeer member
          peer.takeFilesSnapshot.1)
  | forget : s.mutation = some (.taken member files) →
      IndexStep s (.forget member)
        { s with room := { s.room with fileById := eraseFiles s.room.fileById files }
                 mutation := none }

/-- All runs of the file operations of one room. -/
def index : Machine Index IndexLabel where
  init s := ∃ name, s = { room := { name } }
  step := IndexStep

/-- The peer whose share holds the lock and has found it among the members. -/
def sharer : Option Mutation → Option PeerId
  | some (.hosted host _) | some (.prepared host _) | some (.added host _) => some host
  | _ => none

/-- The peer whose files are being taken. -/
def taker : Option Mutation → Option PeerId
  | some (.taking peer) | some (.taken peer _) => some peer
  | _ => none

def preparedFiles : Option Mutation → List File
  | some (.prepared _ files) => files
  | _ => []

def addedFiles : Option Mutation → List File
  | some (.added _ files) => files
  | _ => []

def takenFiles : Option Mutation → List File
  | some (.taken _ files) => files
  | _ => []

/-- How the two indexes agree while the lock's holder is between its sections. -/
structure Agreed (s : Index) : Prop where
  known : ∀ p ∈ s.room.peerById, s.peers p ≠ none
  below : ∀ f ∈ s.created, f.serverFileId < s.room.fileIdCounter
  ids : (s.created.map (·.serverFileId)).Nodup
  held : ∀ p f, f ∈ s.held p → f ∈ s.created ∧ f.host = p
  once : ∀ p, (s.held p).Nodup
  entries : ∀ i f, (i, f) ∈ s.room.fileById → f ∈ s.created ∧ i = f.serverFileId
  keys : (s.room.fileById.map (·.1)).Nodup
  placed : ∀ i f, (i, f) ∈ s.room.fileById → f ∈ s.held f.host ∨ f ∈ takenFiles s.mutation
  indexed : ∀ p f, f ∈ s.held p → (f.serverFileId, f) ∈ s.room.fileById ∨ f ∈ addedFiles s.mutation
  members : ∀ p, s.held p ≠ [] → p ∈ s.room.peerById ∨ p ∈ s.removing ∨ taker s.mutation = some p
  sharing : ∀ p, sharer s.mutation = some p → p ∈ s.room.peerById ∨ p ∈ s.removing
  prepared : ∀ f ∈ preparedFiles s.mutation, f ∈ s.created ∧ sharer s.mutation = some f.host ∧
    f ∉ s.held f.host ∧ ∀ i, (i, f) ∉ s.room.fileById
  added : ∀ f ∈ addedFiles s.mutation, f ∈ s.held f.host ∧ ∀ i, (i, f) ∉ s.room.fileById
  batch : (preparedFiles s.mutation ++ addedFiles s.mutation).Nodup
  taken : ∀ p files, s.mutation = some (.taken p files) →
    s.held p = [] ∧ ∀ f ∈ files, f ∈ s.created ∧ f.host = p

section Steps
variable {s next : Index} {l : IndexLabel}

theorem held_setPeer {peer : Peer} (member : PeerId) :
    (s.setPeer member peer).held = Function.update s.held member peer.files := by
  funext p
  by_cases own : p = member
  · simp [Index.held, Index.setPeer, own]
  · simp [Index.held, Index.setPeer, own]

theorem mem_createFiles {room : Room} (member : f ∈ createFiles room host descriptors) :
    f.host = host ∧ room.fileIdCounter ≤ f.serverFileId ∧
      f.serverFileId < room.fileIdCounter + descriptors.length := by
  obtain ⟨i, within, rfl⟩ := List.mem_mapIdx.mp member
  exact ⟨rfl, Nat.le_add_right _ _, Nat.add_lt_add_left within _⟩

theorem createFiles_ids {room : Room} (host : PeerId) (descriptors : List FileDto) :
    (createFiles room host descriptors).map (·.serverFileId) =
      List.range' room.fileIdCounter descriptors.length := by
  apply List.ext_getElem
  · simp [createFiles]
  · intro i _ _
    simp [createFiles, File.create]

/-- A server id names one file. -/
theorem Agreed.same (agreed : Agreed s) (left : f ∈ s.created) (right : g ∈ s.created)
    (id : f.serverFileId = g.serverFileId) : f = g :=
  List.inj_on_of_nodup_map agreed.ids left right id

/-- A file without an entry of its own has a free key. -/
theorem Agreed.free (agreed : Agreed s) (created : f ∈ s.created)
    (absent : ∀ i, (i, f) ∉ s.room.fileById) : ∀ entry ∈ s.room.fileById, entry.1 ≠ f.serverFileId := by
  rintro ⟨i, g⟩ member same
  obtain ⟨known, rfl⟩ := agreed.entries i g member
  have := agreed.same known created same
  subst this
  exact absent _ member

theorem Agreed.merged (agreed : Agreed s) (files : List File)
    (free : ∀ f ∈ files, f ∈ s.created ∧ ∀ i, (i, f) ∉ s.room.fileById) :
    mergeFiles s.room.fileById files =
      s.room.fileById ++ files.map fun file => (file.serverFileId, file) := by
  unfold mergeFiles
  congr 2
  apply List.filter_eq_self.mpr
  intro f member
  rw [Option.isNone_iff_eq_none, List.lookup_eq_none_iff]
  intro entry present
  have other := agreed.free (free f member).1 (free f member).2 entry present
  simpa using other.symm

/-- A mutation that has nothing in its hands. -/
def Empty (mutation : Option Mutation) : Prop :=
  preparedFiles mutation = [] ∧ addedFiles mutation = [] ∧ taker mutation = none

theorem Empty.taken (empty : Empty mutation) : takenFiles mutation = [] := by
  obtain ⟨_, _, unstaged⟩ := empty
  cases mutation with
  | none => rfl
  | some stage => cases stage <;> first | rfl | cases unstaged

/-- The lock goes from one empty hand to another. -/
theorem Agreed.relock (agreed : Agreed s) (before : Empty s.mutation) (after : Empty mutation)
    (sharing : ∀ p, sharer mutation = some p → p ∈ s.room.peerById ∨ p ∈ s.removing) :
    Agreed { s with mutation } where
  known := agreed.known
  below := agreed.below
  ids := agreed.ids
  held := agreed.held
  once := agreed.once
  entries := agreed.entries
  keys := agreed.keys
  placed i f member := .inl ((agreed.placed i f member).resolve_right (by simp [before.taken]))
  indexed p f member := .inl ((agreed.indexed p f member).resolve_right (by simp [before.2.1]))
  members p filled := by
    rcases agreed.members p filled with present | removing | taking
    · exact .inl present
    · exact .inr (.inl removing)
    · rw [before.2.2] at taking
      contradiction
  sharing := sharing
  prepared := by
    simp only [after.1]
    nofun
  added := by
    simp only [after.2.1]
    nofun
  batch := by
    simp only [after.1, after.2.1]
    exact List.nodup_nil
  taken p files is := by
    have unstaged := after.2.2
    simp only at is
    rw [is] at unstaged
    cases unstaged

/-- What a mutation says of the state it belongs to, once it is known. -/
theorem Agreed.prepare (agreed : Agreed s) (is : s.mutation = some (.hosted host descriptors)) :
    Agreed { s with
      room := { s.room with fileIdCounter := s.room.fileIdCounter + descriptors.length }
      mutation := some (.prepared host (createFiles s.room host descriptors))
      created := s.created ++ createFiles s.room host descriptors } where
  known := agreed.known
  below f member := by
    rcases List.mem_append.mp member with old | new
    · exact Nat.lt_of_lt_of_le (agreed.below f old) (Nat.le_add_right _ _)
    · exact (mem_createFiles new).2.2
  ids := by
    rw [List.map_append, createFiles_ids]
    refine List.nodup_append.mpr ⟨agreed.ids, List.nodup_range', ?_⟩
    intro old present new member
    obtain ⟨f, created, rfl⟩ := List.mem_map.mp present
    have := agreed.below f created
    rw [List.mem_range'_1] at member
    omega
  held p f member := by
    obtain ⟨created, host⟩ := agreed.held p f member
    exact ⟨List.mem_append_left _ created, host⟩
  once := agreed.once
  entries i f member := by
    obtain ⟨created, key⟩ := agreed.entries i f member
    exact ⟨List.mem_append_left _ created, key⟩
  keys := agreed.keys
  placed i f member := .inl ((agreed.placed i f member).resolve_right (by simp [is, takenFiles]))
  indexed p f member := .inl ((agreed.indexed p f member).resolve_right (by simp [is, addedFiles]))
  members p filled := by
    have present := agreed.members p filled
    rw [is] at present
    exact present
  sharing := by
    have sharing := agreed.sharing
    rw [is] at sharing
    exact sharing
  prepared f member := by
    obtain ⟨host, above, _⟩ := mem_createFiles member
    have new : f ∉ s.created := fun old => absurd (agreed.below f old) (Nat.not_lt.mpr above)
    refine ⟨List.mem_append_right _ member, by rw [host]; rfl, ?_, ?_⟩
    · exact fun held => new (agreed.held _ f held).1
    · exact fun i entry => new (agreed.entries i f entry).1
  added := nofun
  batch := by
    have ids := List.nodup_range' (s := s.room.fileIdCounter) (n := descriptors.length)
    rw [← createFiles_ids host] at ids
    simpa [preparedFiles, addedFiles] using ids.of_map
  taken := nofun

theorem Agreed.add (agreed : Agreed s) (is : s.mutation = some (.prepared host files))
    (found : s.peers host = some peer) :
    Agreed ({ s with mutation := some (.added host files) }.setPeer host (peer.addFiles files)) := by
  have held : ({ s with mutation := some (.added host files) }.setPeer host (peer.addFiles files)).held =
      Function.update s.held host (s.held host ++ files) := by
    rw [held_setPeer]
    simp [Index.held, found, Peer.addFiles]
    rfl
  have prepared := agreed.prepared
  simp only [is, preparedFiles, sharer, Option.some.injEq] at prepared
  have batch := agreed.batch
  simp only [is, preparedFiles, addedFiles, List.append_nil] at batch
  have own : s.held host ++ files = Function.update s.held host (s.held host ++ files) host := by
    rw [Function.update_self]
  have more : ∀ {p f}, f ∈ s.held p → f ∈ Function.update s.held host (s.held host ++ files) p := by
    intro p f member
    by_cases here : p = host
    · subst here
      simp [member]
    · simpa [here] using member
  have of_more : ∀ {p f}, f ∈ Function.update s.held host (s.held host ++ files) p →
      f ∈ s.held p ∨ p = host ∧ f ∈ files := by
    intro p f member
    by_cases here : p = host
    · subst here
      simpa using member
    · exact .inl (by simpa [here] using member)
  constructor
  case known =>
    intro p member
    by_cases here : p = host
    · simp [Index.setPeer, here]
    · simpa [Index.setPeer, here] using agreed.known p member
  case below => exact agreed.below
  case ids => exact agreed.ids
  case held =>
    rw [held]
    intro p f member
    rcases of_more member with old | ⟨rfl, new⟩
    · exact agreed.held p f old
    · exact ⟨(prepared f new).1, (prepared f new).2.1.symm⟩
  case once =>
    rw [held]
    intro p
    by_cases here : p = host
    · subst here
      rw [Function.update_self]
      refine List.nodup_append.mpr ⟨agreed.once p, batch, ?_⟩
      rintro f old _ new rfl
      obtain ⟨_, same, absent, _⟩ := prepared f new
      exact absent (same ▸ old)
    · simpa [here] using agreed.once p
  case entries => exact agreed.entries
  case keys => exact agreed.keys
  case placed =>
    rw [held]
    intro i f member
    exact .inl (more ((agreed.placed i f member).resolve_right (by simp [is, takenFiles])))
  case indexed =>
    rw [held]
    intro p f member
    rcases of_more member with old | ⟨rfl, new⟩
    · exact .inl ((agreed.indexed p f old).resolve_right (by simp [is, addedFiles]))
    · exact .inr new
  case members =>
    rw [held]
    intro p filled
    by_cases here : p = host
    · rcases agreed.sharing p (by simp [is, here, sharer]) with present | removing
      · exact .inl present
      · exact .inr (.inl removing)
    · have present := agreed.members p (by simpa [here] using filled)
      rw [is] at present
      exact present
  case sharing =>
    have sharing := agreed.sharing
    rw [is] at sharing
    exact sharing
  case prepared => nofun
  case added =>
    rw [held]
    intro f member
    obtain ⟨_, same, _, absent⟩ := prepared f member
    refine ⟨?_, absent⟩
    rw [← same, ← own]
    exact List.mem_append_right _ member
  case batch => simpa [preparedFiles, addedFiles, Index.setPeer] using batch
  case taken => nofun

theorem Agreed.merge (agreed : Agreed s) (is : s.mutation = some (.added host files)) :
    Agreed { s with room := { s.room with fileById := mergeFiles s.room.fileById files }
                    mutation := none } := by
  have added := agreed.added
  simp only [is, addedFiles] at added
  have batch := agreed.batch
  simp only [is, preparedFiles, addedFiles, List.nil_append] at batch
  have created : ∀ f ∈ files, f ∈ s.created := fun f member => (agreed.held _ f (added f member).1).1
  rw [agreed.merged files fun f member => ⟨created f member, (added f member).2⟩]
  constructor
  case entries =>
    intro i f member
    rcases List.mem_append.mp member with old | new
    · exact agreed.entries i f old
    · obtain ⟨g, present, same⟩ := List.mem_map.mp new
      cases same
      exact ⟨created f present, rfl⟩
  case keys =>
    rw [List.map_append, List.map_map]
    refine List.nodup_append.mpr ⟨agreed.keys, ?_, ?_⟩
    · apply batch.map_on
      intro f left g right same
      exact agreed.same (created f left) (created g right) same
    · intro key old _ new same
      obtain ⟨entry, present, rfl⟩ := List.mem_map.mp old
      obtain ⟨f, member, rfl⟩ := List.mem_map.mp new
      exact agreed.free (created f member) (added f member).2 entry present same
  case placed =>
    intro i f member
    rcases List.mem_append.mp member with old | new
    · exact .inl ((agreed.placed i f old).resolve_right (by simp [is, takenFiles]))
    · obtain ⟨g, present, same⟩ := List.mem_map.mp new
      cases same
      exact .inl (added f present).1
  case indexed =>
    intro p f member
    rcases agreed.indexed p f member with old | new
    · exact .inl (List.mem_append_left _ old)
    · simp only [is, addedFiles] at new
      exact .inl (List.mem_append_right _ (List.mem_map.mpr ⟨f, new, rfl⟩))
  case members =>
    intro p filled
    have present := agreed.members p filled
    rw [is] at present
    exact present
  case known => exact agreed.known
  case below => exact agreed.below
  case ids => exact agreed.ids
  case held => exact agreed.held
  case once => exact agreed.once
  case sharing => nofun
  case prepared => nofun
  case added => nofun
  case batch => exact List.nodup_nil
  case taken => nofun

theorem Agreed.take (agreed : Agreed s) (is : s.mutation = some (.taking member))
    (found : s.peers member = some peer) :
    Agreed ({ s with mutation := some (.taken member peer.takeFilesSnapshot.2) }.setPeer member
      peer.takeFilesSnapshot.1) := by
  have held : ({ s with mutation := some (.taken member peer.takeFilesSnapshot.2) }.setPeer member
      peer.takeFilesSnapshot.1).held = Function.update s.held member [] := held_setPeer member
  have files : s.held member = peer.files := by simp only [Index.held, found]
  have fewer : ∀ {p f}, f ∈ Function.update s.held member [] p → p ≠ member ∧ f ∈ s.held p := by
    intro p f present
    by_cases here : p = member
    · simp [here] at present
    · exact ⟨here, by simpa [here] using present⟩
  constructor
  case known =>
    intro p present
    by_cases here : p = member
    · simp [Index.setPeer, here]
    · simpa [Index.setPeer, here] using agreed.known p present
  case below => exact agreed.below
  case ids => exact agreed.ids
  case held =>
    rw [held]
    exact fun p f present => agreed.held p f (fewer present).2
  case once =>
    rw [held]
    intro p
    by_cases here : p = member
    · simp [here]
    · simpa [here] using agreed.once p
  case entries => exact agreed.entries
  case keys => exact agreed.keys
  case placed =>
    rw [held]
    intro i f present
    have kept := (agreed.placed i f present).resolve_right (by simp [is, takenFiles])
    by_cases here : f.host = member
    · rw [here, files] at kept
      exact .inr kept
    · exact .inl (by simpa [here] using kept)
  case indexed =>
    rw [held]
    intro p f present
    exact .inl ((agreed.indexed p f (fewer present).2).resolve_right (by simp [is, addedFiles]))
  case members =>
    rw [held]
    intro p filled
    by_cases here : p = member
    · simp [here] at filled
    · have present := agreed.members p (by simpa [here] using filled)
      rw [is] at present
      exact present
  case sharing => nofun
  case prepared => nofun
  case added => nofun
  case batch => exact List.nodup_nil
  case taken =>
    rw [held]
    rintro p _ ⟨⟩
    refine ⟨Function.update_self .., fun f present => ?_⟩
    rw [Peer.takeFilesSnapshot, ← files] at present
    exact agreed.held member f present

theorem Agreed.forget (agreed : Agreed s) (is : s.mutation = some (.taken member files)) :
    Agreed { s with room := { s.room with fileById := eraseFiles s.room.fileById files }
                    mutation := none } := by
  obtain ⟨empty, taken⟩ := agreed.taken member files is
  have erased : ∀ {i f}, (i, f) ∈ eraseFiles s.room.fileById files →
      (i, f) ∈ s.room.fileById ∧ ∀ g ∈ files, g.serverFileId ≠ i := by
    intro i f present
    simpa [eraseFiles] using present
  constructor
  case entries => exact fun i f present => agreed.entries i f (erased present).1
  case keys => exact agreed.keys.sublist (List.filter_sublist.map _)
  case placed =>
    intro i f present
    obtain ⟨present, kept⟩ := erased present
    rcases agreed.placed i f present with held | gone
    · exact .inl held
    · simp only [is, takenFiles] at gone
      exact absurd (agreed.entries i f present).2.symm (kept f gone)
  case indexed =>
    intro p f (held : f ∈ s.held p)
    have present := (agreed.indexed p f held).resolve_right (by simp [is, addedFiles])
    refine .inl ?_
    have created := agreed.held p f held
    simp only [eraseFiles, List.mem_filter, decide_eq_true_eq, List.mem_map, not_exists, not_and]
    refine ⟨present, fun g gone same => ?_⟩
    have := agreed.same (taken g gone).1 created.1 same
    subst this
    rw [← created.2, (taken g gone).2, empty] at held
    contradiction
  case members =>
    intro p filled
    rcases agreed.members p filled with present | removing | taking
    · exact .inl present
    · exact .inr (.inl removing)
    · rw [is] at taking
      cases taking
      exact absurd empty filled
  case known => exact agreed.known
  case below => exact agreed.below
  case ids => exact agreed.ids
  case held => exact agreed.held
  case once => exact agreed.once
  case sharing => nofun
  case prepared => nofun
  case added => nofun
  case batch => exact List.nodup_nil
  case taken => nofun

theorem Agreed.join (agreed : Agreed s) (new : s.peers member = none)
    (admitted : s.room.addPeer member = some room) (empty : peer.files = []) :
    Agreed ({ s with room }.setPeer member peer) := by
  have outside : member ∉ s.room.peerById := fun present => agreed.known member present new
  obtain rfl := Room.addPeer_eq_some admitted outside
  have held : ({ s with room := { s.room with peerById := s.room.peerById ++ [member] } }.setPeer
      member peer).held = s.held := by
    rw [held_setPeer, empty]
    funext p
    by_cases here : p = member
    · simp [here, Index.held, new]
    · simp [here, Index.held]
  constructor
  case known =>
    intro p present
    by_cases here : p = member
    · simp [Index.setPeer, here]
    · have earlier : p ∈ s.room.peerById := by simpa [Index.setPeer, here] using present
      simpa [Index.setPeer, here] using agreed.known p earlier
  case members =>
    rw [held]
    intro p filled
    exact (agreed.members p filled).imp (List.mem_append_left _) id
  case sharing => exact fun p is => (agreed.sharing p is).imp (List.mem_append_left _) id
  case held => rw [held]; exact agreed.held
  case once => rw [held]; exact agreed.once
  case placed => rw [held]; exact agreed.placed
  case indexed => rw [held]; exact agreed.indexed
  case prepared => rw [held]; exact agreed.prepared
  case added => rw [held]; exact agreed.added
  case taken => rw [held]; exact agreed.taken
  case below => exact agreed.below
  case ids => exact agreed.ids
  case entries => exact agreed.entries
  case keys => exact agreed.keys
  case batch => exact agreed.batch

/-- A peer whose files stay as they are. -/
theorem Agreed.rebind {peer after : Peer} (agreed : Agreed s) (found : s.peers member = some peer)
    (same : after.files = peer.files) : Agreed (s.setPeer member after) := by
  have held : (s.setPeer member after).held = s.held := by
    rw [held_setPeer, same]
    funext p
    by_cases here : p = member
    · simp [here, Index.held, found]
    · simp [here]
  constructor
  case known =>
    intro p present
    by_cases here : p = member
    · simp [Index.setPeer, here]
    · simpa [Index.setPeer, here] using agreed.known p present
  case held => rw [held]; exact agreed.held
  case once => rw [held]; exact agreed.once
  case placed => rw [held]; exact agreed.placed
  case indexed => rw [held]; exact agreed.indexed
  case members => rw [held]; exact agreed.members
  case prepared => rw [held]; exact agreed.prepared
  case added => rw [held]; exact agreed.added
  case taken => rw [held]; exact agreed.taken
  case sharing => exact agreed.sharing
  case below => exact agreed.below
  case ids => exact agreed.ids
  case entries => exact agreed.entries
  case keys => exact agreed.keys
  case batch => exact agreed.batch

/-- A peer that leaves the members is one whose files are still to be taken. -/
theorem Agreed.remove (agreed : Agreed s) (member : PeerId) :
    Agreed { s with room := s.room.erasePeer member, removing := member :: s.removing } := by
  have kept : ∀ {p}, p ∈ s.room.peerById → p ∈ (s.room.erasePeer member).peerById ∨
      p ∈ member :: s.removing := by
    intro p present
    by_cases here : p = member
    · exact .inr (here ▸ List.mem_cons_self)
    · exact .inl (List.mem_filter.mpr ⟨present, by simpa using here⟩)
  exact { agreed with
    known := fun p present => agreed.known p (List.mem_of_mem_filter present)
    members := fun p filled => by
      rcases agreed.members p filled with present | removing | taking
      · exact (kept present).imp id .inl
      · exact .inr (.inl (List.mem_cons_of_mem _ removing))
      · exact .inr (.inr taking)
    sharing := fun p is =>
      (agreed.sharing p is).elim kept fun removing => .inr (List.mem_cons_of_mem _ removing)
    held := agreed.held, once := agreed.once, entries := agreed.entries, keys := agreed.keys
    placed := agreed.placed, indexed := agreed.indexed, prepared := agreed.prepared
    added := agreed.added, taken := agreed.taken, below := agreed.below }

/-- The lock is taken for a peer's files. -/
theorem Agreed.lock (agreed : Agreed s) (idle : s.mutation = none) (member : PeerId)
    (removing : List PeerId) (others : ∀ p, p ∈ s.removing → p ∈ removing ∨ p = member) :
    Agreed { s with removing, mutation := some (.taking member) } where
  known := agreed.known
  below := agreed.below
  ids := agreed.ids
  held := agreed.held
  once := agreed.once
  entries := agreed.entries
  keys := agreed.keys
  placed i f member := .inl ((agreed.placed i f member).resolve_right (by simp [idle, takenFiles]))
  indexed p f member := .inl ((agreed.indexed p f member).resolve_right (by simp [idle, addedFiles]))
  members p filled := by
    rcases agreed.members p filled with present | removing | taking
    · exact .inl present
    · rcases others p removing with still | rfl
      · exact .inr (.inl still)
      · exact .inr (.inr rfl)
    · rw [idle] at taking
      cases taking
  sharing := nofun
  prepared := nofun
  added := nofun
  batch := List.nodup_nil
  taken := nofun

theorem or_of_mem_erase {members : List PeerId} (present : p ∈ members) :
    p ∈ members.erase q ∨ p = q := by
  by_cases here : p = q
  · exact .inr here
  · exact .inl ((List.mem_erase_of_ne here).mpr present)

theorem agreed_step (agreed : Agreed s) (step : IndexStep s l next) : Agreed next := by
  cases step with
  | join new admitted empty => exact agreed.join new admitted empty
  | share idle => exact agreed.relock (by rw [idle]; exact ⟨rfl, rfl, rfl⟩) ⟨rfl, rfl, rfl⟩ nofun
  | unknown is => exact agreed.relock (by rw [is]; exact ⟨rfl, rfl, rfl⟩) ⟨rfl, rfl, rfl⟩ nofun
  | host is member =>
    apply agreed.relock (by rw [is]; exact ⟨rfl, rfl, rfl⟩) ⟨rfl, rfl, rfl⟩
    rintro _ ⟨⟩
    exact .inl member
  | full is => exact agreed.relock (by rw [is]; exact ⟨rfl, rfl, rfl⟩) ⟨rfl, rfl, rfl⟩ nofun
  | prepare is => exact agreed.prepare is
  | add is found => exact agreed.add is found
  | merge is => exact agreed.merge is
  | remove => exact agreed.remove _
  | removed idle => exact agreed.lock idle _ _ fun _ => or_of_mem_erase
  | withdraw idle => exact agreed.lock idle _ _ fun _ => .inl
  | take is found => exact agreed.take is found
  | forget is => exact agreed.forget is

theorem agreed (reached : index.Reachable s) : Agreed s := by
  refine reached.invariant ?_ fun _ agreed step => agreed_step agreed step
  rintro _ ⟨name, rfl⟩
  exact { known := nofun, below := nofun, ids := List.nodup_nil, held := nofun
          once := fun _ => List.nodup_nil, entries := nofun, keys := List.nodup_nil, placed := nofun
          indexed := nofun, members := fun _ filled => absurd rfl filled, sharing := nofun
          prepared := nofun, added := nofun, batch := List.nodup_nil, taken := nofun }

/-- A file that was created and is in no index and in nobody's hands. -/
structure Gone (s : Index) (f : File) : Prop where
  created : f ∈ s.created
  listed : f ∉ s.held f.host
  mapped : ∀ i, (i, f) ∉ s.room.fileById
  flying : f ∉ preparedFiles s.mutation ∧ f ∉ addedFiles s.mutation

theorem gone_step (agreed : Agreed s) (step : IndexStep s l next) (gone : Gone s f) : Gone next f := by
  obtain ⟨created, listed, mapped, unprepared, unadded⟩ := gone
  cases step with
  | join new admitted empty =>
    have outside : _ ∉ s.room.peerById := fun present => agreed.known _ present new
    obtain rfl := Room.addPeer_eq_some admitted outside
    refine ⟨created, ?_, mapped, unprepared, unadded⟩
    rw [held_setPeer, empty, Function.update_apply]
    split
    · exact List.not_mem_nil
    · exact listed
  | prepare is =>
    refine ⟨List.mem_append_left _ created, listed, mapped, ?_, by simp [addedFiles]⟩
    intro new
    exact absurd (agreed.below f created) (Nat.not_lt.mpr (mem_createFiles new).2.1)
  | add is found =>
    simp only [is, preparedFiles] at unprepared
    refine ⟨created, ?_, mapped, by simp [preparedFiles, Index.setPeer], unprepared⟩
    rw [held_setPeer, Function.update_apply]
    split
    · rename_i own
      simp only [Index.held, own, found] at listed
      simp [Peer.addFiles, listed, unprepared]
    · exact listed
  | merge is =>
    simp only [is, addedFiles] at unadded
    refine ⟨created, listed, fun i present => ?_, by simp [preparedFiles], by simp [addedFiles]⟩
    rcases List.mem_append.mp present with old | new
    · exact mapped i old
    · obtain ⟨g, member, same⟩ := List.mem_map.mp new
      cases same
      exact unadded (List.mem_of_mem_filter member)
  | take is found =>
    refine ⟨created, ?_, mapped, by simp [preparedFiles, Index.setPeer], by simp [addedFiles, Index.setPeer]⟩
    rw [held_setPeer, Function.update_apply]
    split
    · exact List.not_mem_nil
    · exact listed
  | forget is =>
    exact ⟨created, listed, fun i present => mapped i (List.mem_of_mem_filter present),
      by simp [preparedFiles], by simp [addedFiles]⟩
  | remove => exact ⟨created, listed, mapped, unprepared, unadded⟩
  | _ => exact ⟨created, listed, mapped, by simp [preparedFiles], by simp [addedFiles]⟩

/-- A forgotten peer's files are gone. -/
theorem forgotten (agreed : Agreed s) (step : IndexStep s (.forget member) next)
    (created : f ∈ s.created) (host : f.host = member) : Gone next f := by
  cases step with
  | forget is =>
    obtain ⟨empty, taken⟩ := agreed.taken member _ is
    have unheld : f ∉ s.held f.host := by
      rw [host, empty]
      exact List.not_mem_nil
    refine ⟨created, unheld, fun i present => ?_, by simp [preparedFiles], by simp [addedFiles]⟩
    have kept := List.mem_filter.mp present
    rcases agreed.placed i f kept.1 with held | gone
    · exact unheld held
    · simp only [is, takenFiles] at gone
      have key := (agreed.entries i f kept.1).2
      have outside : i ∉ _ := of_decide_eq_true kept.2
      exact outside (key ▸ List.mem_map_of_mem gone)

/-- A file that is gone is not found by its id. -/
theorem Gone.absent (agreed : Agreed s) (gone : Gone s f) : s.room.getFileById f.serverFileId = none := by
  rw [Room.getFileById, List.lookup_eq_none_iff]
  intro entry present
  have other := agreed.free gone.created gone.mapped entry present
  simpa using other.symm

theorem untaken_step (agreed : Agreed s) (step : IndexStep s l next) (gone : Gone s f)
    (untaken : f ∉ takenFiles s.mutation) : f ∉ takenFiles next.mutation := by
  cases step with
  | take is found =>
    rename_i host
    intro member
    have held : f ∈ s.held host := by
      rw [Index.held, found]
      exact member
    exact gone.listed ((agreed.held _ f held).2 ▸ held)
  | join | remove | add => first | exact untaken | exact List.not_mem_nil
  | _ => exact List.not_mem_nil

/-- No file is taken from its host twice, so that each withdrawal is the only one of its files. -/
theorem taken_once (agreed : Agreed s) (step : IndexStep s (.forget member) next)
    (path : Relation.ReflTransGen (fun a b => ∃ l, IndexStep a l b) next later)
    (taken : f ∈ takenFiles s.mutation) : f ∉ takenFiles later.mutation := by
  have start : Gone next f ∧ f ∉ takenFiles next.mutation := by
    cases step with
    | forget is =>
      rw [is] at taken
      obtain ⟨created, host⟩ := (agreed.taken _ _ is).2 f taken
      exact ⟨forgotten agreed (.forget is) created host, List.not_mem_nil⟩
  have all : Agreed later ∧ Gone later f ∧ f ∉ takenFiles later.mutation := by
    induction path with
    | refl => exact ⟨agreed_step agreed step, start⟩
    | tail _ step ih =>
      obtain ⟨_, step⟩ := step
      obtain ⟨agreed, gone, untaken⟩ := ih
      exact ⟨agreed_step agreed step, gone_step agreed step gone, untaken_step agreed step gone untaken⟩
  exact all.2.2

/-- Whenever no operation is in progress the room's map holds the files of its
members' lists and no others, each under its own id; and the files of a peer that
was removed, or that were withdrawn, are never found again. -/
theorem indexes_agree (reached : index.Reachable s) :
    (s.quiet → ∀ i f, (i, f) ∈ s.room.fileById ↔
      i = f.serverFileId ∧ ∃ p ∈ s.room.peerById, f ∈ s.held p) ∧
    (s.room.fileById.map (·.1)).Nodup ∧
    (∀ p q f, f ∈ s.held p → f ∈ s.held q → p = q) ∧ (∀ p, (s.held p).Nodup) ∧
    (s.created.map (·.serverFileId)).Nodup ∧
    (∀ {member next later f}, IndexStep s (.forget member) next →
      Relation.ReflTransGen (fun a b => ∃ l, IndexStep a l b) next later →
      f ∈ s.created → f.host = member → later.room.getFileById f.serverFileId = none) := by
  have known := agreed reached
  refine ⟨?_, known.keys, ?_, known.once, known.ids, ?_⟩
  · rintro ⟨idle, settled⟩ i f
    constructor
    · intro present
      have held := (known.placed i f present).resolve_right (by simp [idle, takenFiles])
      have member := known.members f.host (List.ne_nil_of_mem held)
      simp only [idle, settled, taker, List.not_mem_nil, reduceCtorEq, or_false] at member
      exact ⟨(known.entries i f present).2, f.host, member, held⟩
    · rintro ⟨rfl, p, _, held⟩
      exact (known.indexed p f held).resolve_right (by simp [idle, addedFiles])
  · intro p q f left right
    exact (known.held p f left).2.symm.trans (known.held q f right).2
  · intro member next later f step path created host
    have gone : Agreed later ∧ Gone later f := by
      induction path with
      | refl => exact ⟨agreed_step known step, forgotten known step created host⟩
      | tail _ step ih =>
        obtain ⟨l, step⟩ := step
        exact ⟨agreed_step ih.1 step, gone_step ih.1 step ih.2⟩
    exact gone.2.absent gone.1

end Steps

/-- A first file is in the map and in its host's list. -/
theorem indexes_agree_first :
    ∃ s f, index.Reachable s ∧ s.quiet ∧ (1, f) ∈ s.room.fileById ∧ ∃ p ∈ s.room.peerById, f ∈ s.held p := by
  have start : index.Reachable { room := { name := [] } } := .start ⟨[], rfl⟩
  have joined := start.next (@IndexStep.join _ _ 1 (Peer.create 0 0 [] 1 0) rfl rfl rfl)
  have asked := joined.next (@IndexStep.share _ 1 [{}] rfl)
  have hosted := asked.next (.host rfl (by decide))
  have prepared := hosted.next (.prepare rfl rfl)
  have added := prepared.next (.add rfl rfl)
  have merged := added.next (.merge rfl)
  have present := List.mem_singleton_self (1, File.create 1 1 {})
  obtain ⟨_, held⟩ := ((indexes_agree merged).1 ⟨rfl, rfl⟩ 1 (File.create 1 1 {})).mp present
  exact ⟨_, _, merged, ⟨rfl, rfl⟩, present, held⟩

end Conspire.Files
