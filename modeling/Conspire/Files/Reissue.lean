import Conspire.Files.Streaming

/-! Chunk requests across reconnects of a file's host. A request is sent to the
binding its sender reads; one that misses the host's current binding is found by
the scan of the resume, or its sender still holds the lock the scan waits for. -/
namespace Conspire.Files
open Session Boundaries Transition

variable {decode : Bytes → Option Bytes} {size : MessageDto → Nat}

/-- The host's files stay: none of its withdrawals starts, and its resumes come
with the file capability it had. -/
def Keeps (host : PeerId) (_ : Streams) : StreamsLabel → Prop
  | .files mutation => taker mutation ≠ some host
  | .changed peer => peer ≠ host
  | _ => True

/-- The message that asks for what the subscriber waits for. -/
def requestOf (file : File) (subscriber : Subscriber) : MessageDto :=
  requestMessage file subscriber.id subscriber.request.position subscriber.request.size
    subscriber.request.requestId

def Sending.message : Sending → MessageDto
  | .unsent message => message
  | .captured frame => frame.payload

/-- A valid subscriber with an outstanding request. -/
def Subscriber.Waits (subscriber : Subscriber) : Prop :=
  subscriber.valid = true ∧ subscriber.request.outstanding = true

/-- The scan has yet to come to the subscriber. -/
def Scan.Awaits (key : Key) (file : File) : Scan → Prop
  | .done => False
  | .bound => True
  | .files rest => file ∈ rest
  | .visiting here rest => key ∈ here ∨ file ∈ rest

/-- A holder asks for what its subscriber will wait for; or a reader asks again
for what the subscriber waits for already. -/
def Asks (stream : Stream) (holder : Holder) : Prop :=
  holder.resume = none ∧ holder.after = stream.subscriber ∨
    holder.sending.message = requestOf stream.file holder.after

def Asking (s : Streams) : Prop :=
  ∀ key stream holder, s.streams key = some stream → stream.locked = some holder → Asks stream holder

section
variable {s t : Streams} {l : StreamsLabel} {stream next : Stream} {holder : Holder} {host : PeerId} {key : Key}

theorem asks_step {c : Context} (isExact : Exact stream)
    (known : ∀ holder, stream.locked = some holder → Asks stream holder)
    (step : stream.Step c next) (held : next.locked = some holder) : Asks next holder := by
  cases step with
  | counted => exact known holder held
  | filled data free =>
    rw [free] at held
    contradiction
  | begun after resume message count free fits requested again =>
    cases held
    cases requested with
    | again valid outstanding =>
      cases resume with
      | none => exact .inl ⟨rfl, rfl⟩
      | some binding =>
        have here := (isExact.tracks.asked outstanding).2.2.1
        refine .inr ?_
        rw [(again binding rfl).1]
        simp only [Sending.message, requestOf, here]
    | fresh => exact .inr rfl
  | ended => cases held
  | captured after resume frame is =>
    cases held
    have before := known _ is
    exact before
  | released => cases held
  | provided sender reply after result found free =>
    cases result <;> simp [Stream.provide, free] at held
  | cancelled references free =>
    rw [free] at held
    contradiction

theorem asking (reached : (streams decode size).Reachable s) : Asking s := by
  refine reached.invariant ?_ ?_
  · rintro _ ⟨name, rfl⟩ key stream holder present
    cases present
  · intro s l t before known step key next holder present held
    rcases streams_step step present with ⟨stream, old, moved⟩ | ⟨_, _, is, _⟩
    · exact asks_step (allExact before key stream old) (fun holder => known key stream holder old) moved held
    · rw [is] at held
      contradiction

/-- What is kept about the host's files, their subscribers and its scans. -/
structure Hosting (host : PeerId) (s : Streams) : Prop where
  idle : taker s.index.mutation ≠ some host
  found : ∀ f ∈ s.found, f.host = host → f ∈ s.index.held host
  own : ∀ key stream, s.streams key = some stream → stream.file.host = host →
    stream.file ∈ s.index.held host
  withdrawn : ∀ f ∈ s.withdrawn, f ∈ s.index.created ∧ f.host ≠ host
  listed : ∀ key stream, s.streams key = some stream → stream.file.host = host →
    0 < stream.references → key.2 ∈ (s.subscribers key.1).ids
  fence : ∀ peer, s.index.peers host = some peer →
    peer.socketGeneration = peer.transportGeneration.generation
  scanned : ∀ generation, s.scans (host, generation) ≠ .done →
    ∃ peer, s.index.peers host = some peer ∧ generation ≤ peer.socketGeneration

theorem held_mono {i j : Index} {l : IndexLabel} (step : IndexStep i l j)
    (idle : taker i.mutation ≠ some host) : ∀ f ∈ i.held host, f ∈ j.held host := by
  intro f member
  cases step with
  | join absent _ empty =>
    rw [held_setPeer, Function.update_apply]
    split
    · rename_i here
      subst here
      simp [Index.held, absent] at member
    · exact member
  | add is found =>
    rw [held_setPeer, Function.update_apply]
    split
    · rename_i here
      subst here
      simp only [Index.held, found] at member
      exact List.mem_append_left _ member
    · exact member
  | take is =>
    rw [held_setPeer, Function.update_apply]
    split
    · rename_i here
      subst here
      rw [is] at idle
      exact absurd rfl idle
    · exact member
  | _ => exact member

theorem held_step (step : StreamsStep decode size s l t) (idle : taker s.index.mutation ≠ some host) :
    ∀ f ∈ s.index.held host, f ∈ t.index.held host := by
  rcases index_step step with ⟨_, moved, _⟩ | same | ⟨_, _, _, present, same, files, _⟩
  · exact held_mono moved idle
  · exact fun f member => same ▸ member
  · intro f member
    rw [same, held_setPeer, Function.update_apply]
    split
    · rename_i here
      subst here
      rw [files]
      simpa [Index.held, present] using member
    · exact member

theorem idle_step (step : StreamsStep decode size s l t) (keeps : Keeps host s l)
    (idle : taker s.index.mutation ≠ some host) : taker t.index.mutation ≠ some host := by
  rcases index_step step with ⟨_, _, _, rfl⟩ | same | ⟨_, _, _, _, same, _⟩
  · exact keeps
  · rw [same]
    exact idle
  · rw [same]
    exact idle

/-- A file in the map is in its host's list while the host does not withdraw. -/
theorem held_of_mapped (filed : Filed s) (idle : taker s.index.mutation ≠ some host)
    (mapped : (i, f) ∈ s.index.room.fileById) (own : f.host = host) : f ∈ s.index.held host := by
  rcases filed.agreed.placed i f mapped with held | taken
  · exact own ▸ held
  · cases is : s.index.mutation with
    | none => simp [is, takenFiles] at taken
    | some mutation =>
      cases mutation with
      | taken p files =>
        rw [is] at taken
        have host' := ((filed.agreed.taken p files is).2 f taken).2
        rw [is] at idle
        exact absurd (congrArg some (host'.symm.trans own)) idle
      | _ => simp [is, takenFiles] at taken

theorem found_held (filed : Filed s) (hosting : Hosting host s) (step : StreamsStep decode size s l t) :
    ∀ f ∈ t.found, f.host = host → f ∈ s.index.held host := by
  have known := hosting.found
  have keep : shell t = shell s → ∀ f ∈ t.found, f.host = host → f ∈ s.index.held host := by
    intro same
    rw [show t.found = s.found from congrArg Shell.found same]
    exact known
  cases step with
  | find mapped =>
    intro f member own
    rcases List.mem_cons.mp member with rfl | old
    · exact held_of_mapped filed hosting.idle mapped own
    · exact known f old own
  | detached => exact keep (release_shell ..)
  | push => exact keep ((release_shell ..).trans (post_shell ..))
  | wait => exact keep (ask_shell ..)
  | skip => exact keep (release_shell ..)
  | reissue => exact keep (ask_shell ..)
  | invalidate => exact keep (invalidate_shell ..)
  | post => exact keep (post_shell ..)
  | _ => exact known

theorem withdrawn_step (filed : Filed s) (hosting : Hosting host s)
    (step : StreamsStep decode size s l t) :
    ∀ f ∈ t.withdrawn, f ∈ s.index.created ∧ f.host ≠ host := by
  have known := hosting.withdrawn
  have keep : shell t = shell s → ∀ f ∈ t.withdrawn, f ∈ s.index.created ∧ f.host ≠ host := by
    intro same
    rw [show t.withdrawn = s.withdrawn from congrArg Shell.withdrawn same]
    exact known
  cases step with
  | files moved =>
    intro f member
    rcases List.mem_append.mp member with new | old
    · cases moved with
      | forget is =>
        rw [is] at new
        obtain ⟨created, own⟩ := (filed.agreed.taken _ _ is).2 f new
        refine ⟨created, fun same => hosting.idle ?_⟩
        rw [is, ← same, own]
        rfl
      | _ => cases new
    · exact known f old
  | clear is =>
    intro f member
    refine known f (is ▸ ?_)
    rcases List.mem_append.mp member with front | back
    · exact List.mem_append_left _ front
    · exact List.mem_append_right _ (List.mem_cons_of_mem _ back)
  | detached => exact keep (release_shell ..)
  | push => exact keep ((release_shell ..).trans (post_shell ..))
  | wait => exact keep (ask_shell ..)
  | skip => exact keep (release_shell ..)
  | reissue => exact keep (ask_shell ..)
  | invalidate => exact keep (invalidate_shell ..)
  | post => exact keep (post_shell ..)
  | _ => exact known

theorem update_ids {key : Key} (known : key.2 ∈ (s.subscribers key.1).ids)
    (kept : key.1 = file → key.2 ∈ entry.ids) :
    key.2 ∈ (Function.update s.subscribers file entry key.1).ids := by
  rw [Function.update_apply]
  split
  · rename_i here
    exact kept here
  · exact known

/-- A subscriber that is alive stays in the table of a file that is not withdrawn. -/
theorem listed_step (filed : Filed s) (hosting : Hosting host s) (step : StreamsStep decode size s l t)
    (present : s.streams key = some stream) (own : stream.file.host = host)
    (alive : 0 < stream.references) : key.2 ∈ (t.subscribers key.1).ids := by
  have known := hosting.listed key stream present own alive
  have keep : shell t = shell s → key.2 ∈ (t.subscribers key.1).ids := by
    intro same
    rw [show t.subscribers = s.subscribers from congrArg Shell.subscribers same]
    exact known
  cases step with
  | subscribe _ is =>
    apply update_ids known
    intro here
    rw [here, is] at known
    exact List.mem_append_left _ known
  | unsubscribe other dead is =>
    apply update_ids known
    intro here
    rw [here, is] at known
    refine (List.mem_erase_of_ne ?_).mpr known
    intro same
    obtain rfl := Prod.ext here same
    cases present.symm.trans other
    omega
  | expired _ _ is _ dead =>
    apply update_ids known
    intro here
    rw [here, is] at known
    refine (List.mem_erase_of_ne ?_).mpr known
    intro same
    have here : key = (_, _) := Prod.ext here same
    rw [← here, (alive_some s present).mpr alive] at dead
    contradiction
  | clear is =>
    apply update_ids known
    intro here
    obtain ⟨created, other⟩ := hosting.withdrawn _ (is ▸ List.mem_append_right _ List.mem_cons_self)
    obtain ⟨mine, named⟩ := filed.own key stream present
    exact absurd (filed.agreed.same mine created (named.symm.trans here) ▸ own) other
  | file _ is =>
    apply update_ids known
    intro here
    rw [here, is] at known
    refine List.mem_map.mpr ⟨key, List.mem_filter.mpr ⟨?_, (alive_some s present).mpr alive⟩, rfl⟩
    rw [is]
    exact List.mem_map.mpr ⟨key.2, known, Prod.ext here.symm rfl⟩
  | detached => exact keep (release_shell ..)
  | push => exact keep ((release_shell ..).trans (post_shell ..))
  | wait => exact keep (ask_shell ..)
  | skip => exact keep (release_shell ..)
  | reissue => exact keep (ask_shell ..)
  | invalidate => exact keep (invalidate_shell ..)
  | post => exact keep (post_shell ..)
  | _ => exact known

theorem kept_refl (peer : Peer) : Kept peer peer := ⟨.inl rfl, rfl, rfl⟩

theorem index_peer {i j : Index} {l : IndexLabel} (step : IndexStep i l j)
    (present : i.peers host = some peer) : ∃ after, j.peers host = some after ∧ Kept peer after := by
  cases step with
  | join absent =>
    refine ⟨peer, (Function.update_of_ne ?_ _ _).trans present, kept_refl peer⟩
    rintro rfl
    rw [absent] at present
    contradiction
  | add _ found =>
    simp only [Index.setPeer, Function.update_apply]
    split
    · rename_i here
      subst here
      cases found.symm.trans present
      exact ⟨_, rfl, .inl rfl, rfl, rfl⟩
    · exact ⟨peer, present, kept_refl peer⟩
  | take _ found =>
    simp only [Index.setPeer, Function.update_apply]
    split
    · rename_i here
      subst here
      cases found.symm.trans present
      exact ⟨_, rfl, .inl rfl, rfl, rfl⟩
    · exact ⟨peer, present, kept_refl peer⟩
  | _ => exact ⟨peer, present, kept_refl peer⟩

/-- What becomes of a peer in a step: it keeps its binding, loses it, or has a new
one whose scan is to come. -/
theorem peer_next (step : StreamsStep decode size s l t) (present : s.index.peers host = some peer) :
    ∃ after, t.index.peers host = some after ∧
      (Kept peer after ∨ Bound peer after ∧ t.streams = s.streams ∧
        t.scans (host, after.socketGeneration) = .bound) := by
  rcases index_step step with ⟨_, moved, _⟩ | is | ⟨member, old, new, found, is, _, changed⟩
  · obtain ⟨after, present, kept⟩ := index_peer moved present
    exact ⟨after, present, .inl kept⟩
  · exact ⟨peer, is ▸ present, .inl (kept_refl peer)⟩
  · rw [is]
    simp only [Index.setPeer, Function.update_apply]
    split
    · rename_i here
      subst here
      cases found.symm.trans present
      exact ⟨new, rfl, changed⟩
    · exact ⟨peer, present, .inl (kept_refl peer)⟩

/-- A peer's generation is that of its fence. -/
theorem fence_step (hosting : Hosting host s) (step : StreamsStep decode size s l t) :
    ∀ peer, t.index.peers host = some peer →
      peer.socketGeneration = peer.transportGeneration.generation := by
  intro after present
  cases known : s.index.peers host with
  | some peer =>
    have fence := hosting.fence peer known
    obtain ⟨_, same, kept | ⟨bound, _⟩⟩ := peer_next step known
    · cases same.symm.trans present
      rw [kept.generation, kept.fence, fence]
    · cases same.symm.trans present
      rw [bound.generation, bound.fence]
  | none =>
    rcases index_step step with ⟨_, _, admitted, _⟩ | is | ⟨member, old, new, found, is, _⟩
    · obtain ⟨_, _, _, _, rfl⟩ := admitted.peers host after known present
      rfl
    · rw [is, known] at present
      contradiction
    · rw [is] at present
      simp only [Index.setPeer, Function.update_apply] at present
      split at present
      · rename_i here
        subst here
        rw [known] at found
        contradiction
      · rw [known] at present
        contradiction

theorem pop_done {scan : Scan} : scan.pop = .done ↔ scan = .done := by
  cases scan with
  | visiting here rest => cases here <;> simp [Scan.pop]
  | _ => simp [Scan.pop]

/-- What may become of the scan of a binding in a step from `s` to `t`. -/
inductive ScanStep (s t : Streams) (l : StreamsLabel) (binding : Binding) : Scan → Scan → Prop where
  | same (scan : Scan) : ScanStep s t l binding scan scan
  | bound (scan : Scan) (peer old : Peer) : t.index.peers binding.1 = some peer →
      peer.socketGeneration = binding.2 → s.index.peers binding.1 = some old →
      binding.2 = old.transportGeneration.generation + 1 → ScanStep s t l binding scan .bound
  | changed : l = .changed binding.1 → ScanStep s t l binding .bound .done
  | snapshot (peer : Peer) : s.index.peers binding.1 = some peer →
      ScanStep s t l binding .bound (.files peer.files)
  | file (file : File) (rest : List File) :
      ScanStep s t l binding (.files (file :: rest)) (.visiting (s.live file) rest)
  | passed (key : Key) (keys : List Key) (rest : List File) :
      (∀ next, t.streams key = some next → next.locked = none ∧ ¬ next.subscriber.Waits) →
      ScanStep s t l binding (.visiting (key :: keys) rest) (.visiting keys rest)
  | released (key : Key) (stream next : Stream) (holder : Holder) (scan : Scan) :
      s.streams key = some stream → stream.locked = some holder → holder.resume = some binding →
      t.streams key = some next → next.locked = none → ScanStep s t l binding scan scan.pop
  | visited (rest : List File) : ScanStep s t l binding (.visiting [] rest) (.files rest)
  | finish : ScanStep s t l binding (.files []) .done

theorem scan_update {binding other : Binding} {scan : Scan}
    (new : other = binding → ScanStep s t l other (s.scans other) scan) :
    ScanStep s t l other (s.scans other) (Function.update s.scans binding scan other) := by
  rw [Function.update_apply]
  split
  · rename_i here
    exact new here
  · exact .same _

theorem release_scan {binding : Binding} {resume : Option Binding} {moved : Streams}
    (scans : moved.scans = s.scans) (is : t = moved.release key stream after resume)
    (new : resume = some binding → ScanStep s t l binding (s.scans binding) (s.scans binding).pop) :
    ScanStep s t l binding (s.scans binding) (t.scans binding) := by
  subst is
  cases resume with
  | none =>
    rw [show (moved.release key stream after none).scans = s.scans from scans]
    exact .same _
  | some other =>
    rw [show (moved.release key stream after (some other)).scans =
      Function.update s.scans other (s.scans other).pop by rw [← scans]; rfl]
    apply scan_update
    rintro rfl
    exact new rfl

theorem ask_none (s : Streams) (key : Key) (stream : Stream) (after : Subscriber)
    (resume : Option Binding) :
    s.ask key stream after resume none = s.release key stream after resume := rfl

theorem ask_scan {binding : Binding} {resume : Option Binding} {request : Option MessageDto}
    (is : t = s.ask key stream after resume request)
    (new : resume = some binding → request = none →
      ScanStep s t l binding (s.scans binding) (s.scans binding).pop) :
    ScanStep s t l binding (s.scans binding) (t.scans binding) := by
  cases request with
  | none => exact release_scan rfl is fun here => new here rfl
  | some message =>
    subst is
    exact .same _

theorem release_at (s : Streams) (key : Key) (stream : Stream) (after : Subscriber)
    (resume : Option Binding) :
    ∃ references, (s.release key stream after resume).streams key =
      some { stream with subscriber := after, locked := none, references } := by
  cases resume <;> exact ⟨_, Function.update_self ..⟩

theorem invalidate_scans (s : Streams) (host : PeerId) (peer : Peer) (generation : Nat)
    (reason : CloseReason) : (s.invalidate host peer generation reason).scans = s.scans := by
  unfold Streams.invalidate
  dsimp only
  split <;> rfl

theorem post_scans (s : Streams) (host : PeerId) (peer : Peer) (frame : OutboundFrame) :
    (s.post size host peer frame).scans = s.scans := by
  unfold Streams.post
  split
  · rfl
  · exact invalidate_scans ..

theorem scans_step (step : StreamsStep decode size s l t) (binding : Binding) :
    ScanStep s t l binding (s.scans binding) (t.scans binding) := by
  cases step with
  | detached present held =>
    apply release_scan rfl rfl
    rintro rfl
    obtain ⟨references, now⟩ := release_at s _ _ _ _
    exact .released _ _ _ _ _ present held rfl now rfl
  | push present held =>
    apply release_scan (post_scans ..) rfl
    rintro rfl
    obtain ⟨references, now⟩ := release_at _ _ _ _ _
    exact .released _ _ _ _ _ present held rfl now rfl
  | wait => exact ask_scan rfl nofun
  | skip is present free passed =>
    apply release_scan rfl rfl
    rintro ⟨⟩
    rw [is]
    refine .passed _ _ _ fun next now => ?_
    obtain ⟨references, there⟩ := release_at s _ _ _ _
    cases now.symm.trans there
    refine ⟨rfl, fun waits => ?_⟩
    rcases passed with invalid | answered
    · exact Bool.noConfusion (invalid.symm.trans waits.1)
    · exact Bool.noConfusion (answered.symm.trans waits.2)
  | reissue is present free valid outstanding asked =>
    apply ask_scan rfl
    rintro ⟨⟩ rfl
    rw [is]
    refine .passed _ _ _ fun next now => ?_
    rw [ask_none] at now
    obtain ⟨references, there⟩ := release_at s _ _ _ _
    cases now.symm.trans there
    refine ⟨rfl, fun waits => ?_⟩
    cases requestChunk_spec _ _ _ asked with
    | invalid no => exact Bool.noConfusion (no.symm.trans valid)
    | gone => exact Bool.noConfusion waits.1
  | bind found _ _ replaced =>
    apply scan_update
    rintro rfl
    cases replaced
    exact .bound _ _ _ (Function.update_self ..) rfl found rfl
  | changed is =>
    apply scan_update
    rintro rfl
    rw [is]
    exact .changed rfl
  | snapshot is found =>
    apply scan_update
    rintro rfl
    rw [is]
    exact .snapshot _ found
  | file is =>
    apply scan_update
    rintro rfl
    rw [is]
    exact .file _ _
  | visited is =>
    apply scan_update
    rintro rfl
    rw [is]
    exact .visited _
  | finish is =>
    apply scan_update
    rintro rfl
    rw [is]
    exact .finish
  | invalidate =>
    rw [invalidate_scans]
    exact .same _
  | post =>
    rw [post_scans]
    exact .same _
  | _ => exact .same _

theorem scanned_step (hosting : Hosting host s) (step : StreamsStep decode size s l t) (generation : Nat)
    (busy : t.scans (host, generation) ≠ .done) :
    ∃ peer, t.index.peers host = some peer ∧ generation ≤ peer.socketGeneration := by
  have known : s.scans (host, generation) ≠ .done →
      ∃ peer, t.index.peers host = some peer ∧ generation ≤ peer.socketGeneration := by
    intro busy
    obtain ⟨peer, present, within⟩ := hosting.scanned generation busy
    obtain ⟨after, now, changed⟩ := peer_next step present
    refine ⟨after, now, ?_⟩
    rcases changed with kept | ⟨bound, _⟩
    · rw [kept.generation]
      exact within
    · rw [bound.generation, ← hosting.fence peer present]
      omega
  have moved := scans_step step (host, generation)
  generalize s.scans (host, generation) = before at moved known
  generalize t.scans (host, generation) = after at moved busy
  cases moved with
  | same => exact known busy
  | bound _ peer _ present same => exact ⟨peer, present, same.ge⟩
  | changed => exact absurd rfl busy
  | released _ _ _ _ _ _ _ _ _ _ => exact known fun done => busy (pop_done.mpr done)
  | finish => exact absurd rfl busy
  | _ => exact known nofun

theorem hosting_step (filed : Filed s) (hosting : Hosting host s) (keeps : Keeps host s l)
    (step : StreamsStep decode size s l t) : Hosting host t := by
  have more := held_step step hosting.idle
  have found := found_held filed hosting step
  refine ⟨idle_step step keeps hosting.idle, fun f member own => more f (found f member own), ?_, ?_, ?_,
    fence_step hosting step, scanned_step hosting step⟩
  · intro key next present own
    rcases streams_step step present with ⟨stream, old, moved⟩ | ⟨member, _, _, _⟩
    · rw [moved.file] at own ⊢
      exact more _ (hosting.own key stream old own)
    · exact more _ (hosting.found _ member own)
  · intro f member
    obtain ⟨created, other⟩ := withdrawn_step filed hosting step f member
    refine ⟨?_, other⟩
    rcases index_step step with ⟨_, moved, _⟩ | same | ⟨_, _, _, _, same, _⟩
    · exact created_mono moved f created
    · exact same ▸ created
    · exact same ▸ created
  · intro key next present own alive
    rcases streams_step step present with ⟨stream, old, moved⟩ | ⟨_, _, _, listed⟩
    · exact listed_step filed hosting step old (moved.file ▸ own) (moved.references alive)
    · exact listed

theorem hosting (reached : ((streams decode size).restrict (Keeps host)).Reachable s) :
    Hosting host s := by
  refine reached.invariant ?_ ?_
  · rintro _ ⟨name, rfl⟩
    exact { idle := by simp [taker], found := by simp, own := by simp, withdrawn := by simp
            listed := by simp, fence := by simp, scanned := by simp }
  · intro s l t before known step
    exact hosting_step (filed before.of_restrict) known step.2 step.1

/-- The holder of a lock that acts for a resume of the host is where its scan is. -/
def Heads (host : PeerId) (s : Streams) : Prop :=
  ∀ key stream holder generation, s.streams key = some stream → stream.locked = some holder →
    holder.resume = some (host, generation) →
    ∃ keys rest, s.scans (host, generation) = .visiting (key :: keys) rest

/-- A scan stays where it is while its holder has the lock. -/
theorem head_stays (hosting : Hosting host s) (heads : Heads host s)
    (step : StreamsStep decode size s l t) (visits : s.scans (host, generation) = .visiting (key :: keys) rest)
    (present : t.streams key = some next) (held : next.locked = some holder) :
    ∃ keys rest, t.scans (host, generation) = .visiting (key :: keys) rest := by
  obtain ⟨peer, known, within⟩ := hosting.scanned generation (by simp [visits])
  have moved := scans_step step (host, generation)
  rw [visits] at moved
  generalize t.scans (host, generation) = after at moved
  cases moved with
  | same => exact ⟨keys, rest, rfl⟩
  | bound _ _ old _ _ found new =>
    cases found.symm.trans known
    have fence := hosting.fence peer known
    simp only at new
    omega
  | passed _ _ _ passed =>
    have free := (passed next present).1
    rw [free] at held
    contradiction
  | released other stream after holder' _ old locked resume now free =>
    obtain ⟨_, _, here⟩ := heads other stream holder' generation old locked resume
    cases visits.symm.trans here
    cases now.symm.trans present
    rw [free] at held
    contradiction

theorem heads_step (hosting : Hosting host s) (heads : Heads host s)
    (step : StreamsStep decode size s l t) : Heads host t := by
  intro key next holder generation present held resume
  rcases streams_step step present with ⟨stream, old, moved⟩ | ⟨_, _, is, _⟩
  · cases moved with
    | counted =>
      obtain ⟨_, _, visits⟩ := heads key stream holder generation old held resume
      exact head_stays hosting heads step visits present held
    | filled data free =>
      rw [free] at held
      contradiction
    | begun after resume' message count free fits requested again =>
      cases held
      exact (again _ resume).2
    | ended => cases held
    | captured after resume' frame is =>
      cases held
      obtain ⟨_, _, visits⟩ := heads key stream _ generation old is resume
      exact head_stays hosting heads step visits present rfl
    | released => cases held
    | provided sender reply after result found free =>
      cases result <;> simp [Stream.provide, free] at held
    | cancelled references free =>
      rw [free] at held
      contradiction
  · rw [is] at held
    contradiction

/-- A subscriber the scan has to come to is reached by it, or given up on the way:
it waits for nothing when it is passed, or the holder for the scan lets it go. -/
theorem awaits_step (filed : Filed s) (hosting : Hosting host s) (heads : Heads host s)
    (keeps : Keeps host s l) (step : StreamsStep decode size s l t) (generation : Nat)
    (present : s.streams key = some stream) (own : stream.file.host = host)
    (alive : 0 < stream.references)
    (awaits : (s.scans (host, generation)).Awaits key stream.file) :
    (t.scans (host, generation)).Awaits key stream.file ∨
      (∀ next, t.streams key = some next → next.locked = none ∧ ¬ next.subscriber.Waits) ∨
      (∃ holder, stream.locked = some holder ∧ holder.resume = some (host, generation)) ∧
        ∀ next, t.streams key = some next → next.locked = none := by
  have moved := scans_step step (host, generation)
  have head := heads
  generalize before : s.scans (host, generation) = scan at moved awaits
  generalize t.scans (host, generation) = after at moved
  cases moved with
  | same => exact .inl awaits
  | bound => exact .inl trivial
  | changed is =>
    subst is
    exact absurd rfl keeps
  | snapshot peer found =>
    have held := hosting.own key stream present own
    simp only at found
    simp only [Index.held, found] at held
    exact .inl held
  | file file rest =>
    rcases List.mem_cons.mp awaits with here | later
    · left
      left
      obtain ⟨_, named⟩ := filed.own key stream present
      refine List.mem_filter.mpr ⟨?_, (alive_some s present).mpr alive⟩
      rw [← here, ← named]
      exact List.mem_map.mpr ⟨key.2, hosting.listed key stream present own alive, rfl⟩
    · exact .inl (.inr later)
  | passed other keys rest passed =>
    by_cases here : key = other
    · subst here
      exact .inr (.inl passed)
    · refine .inl (awaits.imp (fun member => ?_) id)
      exact (List.mem_cons.mp member).resolve_left here
  | released other stream' next holder _ old locked resume now free =>
    obtain ⟨keys, rest, visits⟩ := heads other stream' holder generation old locked resume
    rw [before] at visits
    subst visits
    by_cases here : key = other
    · subst here
      cases old.symm.trans present
      refine .inr (.inr ⟨⟨holder, locked, resume⟩, fun next' now' => ?_⟩)
      cases now.symm.trans now'
      exact free
    · refine .inl (awaits.imp (fun member => ?_) id)
      exact (List.mem_cons.mp member).resolve_left here
  | visited rest => exact .inl (awaits.resolve_left List.not_mem_nil)
  | finish => exact absurd awaits List.not_mem_nil

/-- A captured frame is for the host's current binding, or its subscriber is
found by the scan of that binding. -/
def Captured (host : PeerId) (s : Streams) : Prop :=
  ∀ key stream holder frame, s.streams key = some stream → stream.file.host = host →
    0 < stream.references → stream.locked = some holder → holder.sending = .captured frame →
    ∃ peer, s.index.peers host = some peer ∧ frame.generation ≤ peer.socketGeneration ∧
      (frame.generation = peer.socketGeneration → ∀ socket, peer.socket = some socket →
        frame.socket = socket) ∧
      (frame.generation = peer.socketGeneration ∨
        (s.scans (host, peer.socketGeneration)).Awaits key stream.file) ∧
      ∀ generation, holder.resume = some (host, generation) → generation ≤ frame.generation

theorem captured_step (filed : Filed s) (hosting : Hosting host s) (heads : Heads host s)
    (captured : Captured host s) (keeps : Keeps host s l) (step : StreamsStep decode size s l t) :
    Captured host t := by
  intro key next holder frame present own alive held is
  rcases streams_step step present with ⟨stream, old, moved⟩ | ⟨_, _, fresh, _⟩
  · cases moved with
    | counted references reading more =>
      obtain ⟨peer, known, within, same, current, resumed⟩ :=
        captured key stream holder frame old own (more alive) held is
      obtain ⟨after, now, kept | ⟨bound, _, scan⟩⟩ := peer_next step known
      · refine ⟨after, now, ?_, ?_, ?_, resumed⟩
        · rw [kept.generation]
          exact within
        · rw [kept.generation]
          intro here socket bound
          rcases kept.socket with stays | lost
          · exact same here socket (stays ▸ bound)
          · rw [lost] at bound
            contradiction
        · rw [kept.generation]
          rcases current with here | awaits
          · exact .inl here
          · rcases awaits_step filed hosting heads keeps step _ old own (more alive) awaits with
              awaits | passed | ⟨_, released⟩
            · exact .inr awaits
            · have free := (passed _ present).1
              rw [held] at free
              contradiction
            · have free := released _ present
              rw [held] at free
              contradiction
      · have fence := hosting.fence peer known
        refine ⟨after, now, ?_, ?_, ?_, resumed⟩
        · rw [bound.generation]
          omega
        · rw [bound.generation]
          omega
        · rw [scan]
          exact .inr trivial
    | filled data free =>
      rw [free] at held
      contradiction
    | begun after resume message count free =>
      cases held
      cases is
    | ended => cases held
    | captured after resume frame' was read =>
      cases held
      cases is
      obtain ⟨peer, now, socket, generation⟩ := read
      rw [own] at now
      refine ⟨peer, now, generation.ge, ?_, .inl generation.symm, ?_⟩
      · intro _ socket' bound
        exact Option.some.inj (socket.symm.trans bound)
      · intro g resumed
        obtain ⟨_, _, visits⟩ := heads key stream _ g old was resumed
        obtain ⟨before, known, within⟩ := hosting.scanned g (by simp [visits])
        obtain ⟨after', now', changed⟩ := peer_next step known
        cases now.symm.trans now'
        rw [← generation]
        rcases changed with kept | ⟨bound, _⟩
        · rw [kept.generation]
          exact within
        · have fence := hosting.fence before known
          rw [bound.generation]
          omega
    | released => cases held
    | provided sender reply after result found free =>
      cases result <;> simp [Stream.provide, free] at held
    | cancelled references free =>
      rw [free] at held
      contradiction
  · rw [fresh] at held
    contradiction

theorem invalidate_queued (s : Streams) (host : PeerId) (peer : Peer) (generation : Nat)
    (reason : CloseReason) : (s.invalidate host peer generation reason).queued = s.queued := by
  unfold Streams.invalidate
  dsimp only
  split <;> rfl

theorem invalidate_invalidated (s : Streams) (host : PeerId) (peer : Peer) (generation : Nat)
    (reason : CloseReason) (binding : Binding) (gone : s.invalidated binding = true) :
    (s.invalidate host peer generation reason).invalidated binding = true := by
  unfold Streams.invalidate
  dsimp only
  split
  · exact gone
  · simp only [Function.update_apply]
    split
    · rfl
    · exact gone

theorem post_queued (s : Streams) (member : PeerId) (peer : Peer) (frame : OutboundFrame) :
    ∀ f ∈ s.queued host, f ∈ (s.post size member peer frame).queued host := by
  intro f present
  unfold Streams.post
  split
  · simp only [Function.update_apply]
    split
    · rename_i here
      exact List.mem_append_left _ (here ▸ present)
    · exact present
  · rw [invalidate_queued]
    exact present

theorem post_invalidated (s : Streams) (member : PeerId) (peer : Peer) (frame : OutboundFrame)
    (binding : Binding) (gone : s.invalidated binding = true) :
    (s.post size member peer frame).invalidated binding = true := by
  unfold Streams.post
  split
  · exact gone
  · exact invalidate_invalidated _ _ _ _ _ _ gone

theorem release_wire (s : Streams) (key : Key) (stream : Stream) (after : Subscriber)
    (resume : Option Binding) :
    (s.release key stream after resume).queued = s.queued ∧
      (s.release key stream after resume).invalidated = s.invalidated := by
  cases resume <;> exact ⟨rfl, rfl⟩

theorem ask_wire (s : Streams) (key : Key) (stream : Stream) (after : Subscriber)
    (resume : Option Binding) (request : Option MessageDto) :
    (s.ask key stream after resume request).queued = s.queued ∧
      (s.ask key stream after resume request).invalidated = s.invalidated := by
  cases request with
  | none => exact release_wire ..
  | some message => exact ⟨rfl, rfl⟩

/-- What was queued stays queued, and what was invalidated stays so. -/
theorem wire_step (step : StreamsStep decode size s l t) :
    (∀ frame ∈ s.queued host, frame ∈ t.queued host) ∧
      ∀ binding, s.invalidated binding = true → t.invalidated binding = true := by
  have keep : t.queued = s.queued ∧ t.invalidated = s.invalidated →
      (∀ frame ∈ s.queued host, frame ∈ t.queued host) ∧
        ∀ binding, s.invalidated binding = true → t.invalidated binding = true := by
    rintro ⟨queued, invalidated⟩
    rw [queued, invalidated]
    exact ⟨fun _ => id, fun _ => id⟩
  cases step with
  | push =>
    rw [(release_wire ..).1, (release_wire ..).2]
    exact ⟨post_queued _ _ _ _, post_invalidated _ _ _ _⟩
  | post => exact ⟨post_queued _ _ _ _, post_invalidated _ _ _ _⟩
  | invalidate => exact ⟨by rw [invalidate_queued]; exact fun _ => id, invalidate_invalidated _ _ _ _ _⟩
  | wait => exact keep (ask_wire ..)
  | reissue => exact keep (ask_wire ..)
  | detached => exact keep (release_wire ..)
  | skip => exact keep (release_wire ..)
  | _ => exact keep ⟨rfl, rfl⟩

/-- The frame that asks for what the subscriber waits for was queued for the
binding, or the binding's scan has yet to come to the subscriber. -/
def Covers (s : Streams) (host : PeerId) (socket : Socket) (generation : Nat) (key : Key)
    (file : File) (subscriber : Subscriber) : Prop :=
  (∃ frame ∈ s.queued host, frame.socket = socket ∧ frame.generation = generation ∧
    frame.payload = requestOf file subscriber) ∨ (s.scans (host, generation)).Awaits key file

def Covered (host : PeerId) (s : Streams) : Prop :=
  ∀ peer socket, s.index.peers host = some peer → peer.socket = some socket →
    s.invalidated (host, peer.socketGeneration) = false →
    ∀ key stream, s.streams key = some stream → stream.file.host = host → 0 < stream.references →
      stream.subscriber.Waits →
      Covers s host socket peer.socketGeneration key stream.file stream.subscriber

/-- A subscriber that waits as before, under the same binding, stays covered
unless a holder for the scan let it go. -/
theorem covers_step (filed : Filed s) (hosting : Hosting host s) (heads : Heads host s)
    (keeps : Keeps host s l) (step : StreamsStep decode size s l t)
    (present : s.streams key = some stream) (own : stream.file.host = host)
    (alive : 0 < stream.references)
    (covers : Covers s host socket generation key stream.file subscriber)
    (now : t.streams key = some next) (waits : next.subscriber.Waits)
    (held : ∀ holder, stream.locked = some holder → holder.resume = some (host, generation) →
      next.locked ≠ none) :
    Covers t host socket generation key stream.file subscriber := by
  rcases covers with ⟨frame, queued, is⟩ | awaits
  · exact .inl ⟨frame, (wire_step step).1 frame queued, is⟩
  · rcases awaits_step filed hosting heads keeps step generation present own alive awaits with
      awaits | passed | ⟨⟨holder, locked, resume⟩, released⟩
    · exact .inr awaits
    · exact absurd waits (passed next now).2
    · exact absurd (released next now) (held holder locked resume)

/-- What a released sender leaves is covered. -/
theorem released_covers (filed : Filed s) (hosting : Hosting host s) (heads : Heads host s)
    (captured : Captured host s) (keeps : Keeps host s l) (step : StreamsStep decode size s l t)
    (present : s.streams key = some stream) (own : stream.file.host = host)
    (alive : 0 < stream.references) (known : s.index.peers host = some peer)
    (bound : peer.socket = some socket) (locked : stream.locked = some ⟨subscriber, resume, sending⟩)
    (asks : sending.message = requestOf stream.file subscriber)
    (left : (context s t key).leaves host sending)
    (after : t.index.peers host = some peer') (kept : Kept peer peer')
    (bound' : peer'.socket = some socket)
    (valid : t.invalidated (host, peer.socketGeneration) = false)
    (now : t.streams key = some next) (waits : next.subscriber.Waits) :
    Covers t host socket peer.socketGeneration key stream.file subscriber := by
  cases sending with
  | unsent message =>
    have lost := left peer' after
    rw [bound'] at lost
    contradiction
  | captured frame =>
    obtain ⟨_, same, within, sameSocket, current, resumed⟩ :=
      captured key stream _ frame present own alive locked rfl
    cases known.symm.trans same
    by_cases here : frame.generation = peer.socketGeneration
    · rcases left with queued | gone
      · exact .inl ⟨frame, queued, sameSocket here socket bound, here, asks⟩
      · have gone := gone peer' after (kept.generation.trans here.symm) (by simp [bound'])
        rw [here, valid] at gone
        contradiction
    · have awaits := current.resolve_left here
      refine covers_step filed hosting heads keeps step present own alive (.inr awaits) now waits ?_
      intro holder held resume'
      rw [locked] at held
      cases held
      have := resumed _ resume'
      omega

theorem covered_step (filed : Filed s) (allExact : AllExact s) (asking : Asking s)
    (hosting : Hosting host s) (heads : Heads host s) (captured : Captured host s)
    (covered : Covered host s) (keeps : Keeps host s l) (step : StreamsStep decode size s l t) :
    Covered host t := by
  intro after socket now bound valid key next present own alive waits
  rcases streams_step step present with ⟨stream, old, moved⟩ | ⟨_, _, fresh, _⟩
  · have mine := moved.file ▸ own
    have lives := moved.references alive
    rw [moved.file]
    cases known : s.index.peers host with
    | none =>
      have held := hosting.own key stream old mine
      simp [Index.held, known] at held
    | some peer =>
      obtain ⟨_, same, kept | ⟨_, _, scan⟩⟩ := peer_next step known
      · cases same.symm.trans now
        have before : peer.socket = some socket := by
          rcases kept.socket with stays | lost
          · exact stays ▸ bound
          · rw [lost] at bound
            contradiction
        rw [kept.generation] at valid ⊢
        have valid' : s.invalidated (host, peer.socketGeneration) = false := by
          cases gone : s.invalidated (host, peer.socketGeneration) with
          | false => rfl
          | true =>
            rw [(@wire_step _ _ _ _ _ host step).2 _ gone] at valid
            contradiction
        have covers := covered peer socket known before valid' key stream old mine lives
        cases moved with
        | counted =>
          refine covers_step filed hosting heads keeps step old mine lives (covers waits) present waits ?_
          intro holder locked _ free
          rw [free] at locked
          contradiction
        | filled data free unread =>
          have empty := ((allExact key stream old).tracks.asked waits.2).2.1
          rw [unread] at empty
          contradiction
        | begun subscriber resume message count free =>
          refine covers_step filed hosting heads keeps step old mine lives (covers waits) present waits ?_
          intro holder locked
          rw [free] at locked
          contradiction
        | ended subscriber references count free fits requested =>
          cases requested with
          | invalid invalid => exact Bool.noConfusion (invalid.symm.trans waits.1)
          | gone => exact Bool.noConfusion waits.1
        | captured subscriber resume frame =>
          refine covers_step filed hosting heads keeps step old mine lives (covers waits) present waits ?_
          exact fun _ _ _ => by simp
        | released subscriber resume sending references locked fewer left =>
          rcases asking key stream _ old locked with ⟨reader, same⟩ | asks
          · cases same
            cases reader
            refine covers_step filed hosting heads keeps step old mine lives (covers waits) present waits ?_
            intro holder held resumed
            rw [locked] at held
            cases held
            cases resumed
          · exact released_covers filed hosting heads captured keeps step old mine lives known before
              locked asks (mine ▸ left) now kept bound valid present waits
        | provided sender reply subscriber result found free answered =>
          have empty := fun outstanding => ((allExact key stream old).tracks.asked outstanding).2.1
          have unlocked : ∀ holder, stream.locked = some holder →
              holder.resume = some (host, peer.socketGeneration) →
              (stream.provide subscriber sender reply result).locked ≠ none := by
            intro holder locked
            rw [free] at locked
            contradiction
          rcases provideFileChunk_spec empty answered with ⟨rfl, _⟩ | ⟨rfl, _, _, _, _, _, rfl⟩
          · have same : (stream.provide stream.subscriber sender reply result).subscriber =
                stream.subscriber := by cases result <;> rfl
            have waits' := waits
            rw [same] at waits ⊢
            exact covers_step filed hosting heads keeps step old mine lives (covers waits) present
              waits' unlocked
          · exact Bool.noConfusion waits.2
        | cancelled => exact Bool.noConfusion waits.1
      · cases same.symm.trans now
        right
        rw [scan]
        trivial
  · rw [fresh] at waits
    exact Bool.noConfusion waits.2

structure Reissued (host : PeerId) (s : Streams) : Prop where
  heads : Heads host s
  captured : Captured host s
  covered : Covered host s

theorem reissued (reached : ((streams decode size).restrict (Keeps host)).Reachable s) :
    Reissued host s := by
  refine reached.invariant ?_ ?_
  · rintro _ ⟨name, rfl⟩
    exact ⟨by simp [Heads], by simp [Captured], by simp [Covered]⟩
  · rintro s l t before ⟨heads, captured, covered⟩ ⟨step, keeps⟩
    have filed := filed before.of_restrict
    have hosting := hosting before
    exact ⟨heads_step hosting heads step, captured_step filed hosting heads captured keeps step,
      covered_step filed (allExact before.of_restrict) (asking before.of_restrict) hosting heads captured
        covered keeps step⟩

end

/-- In every run in which a host keeps its files and its file capability, whenever
it is bound, its scan is over and the server has not invalidated the binding, every
valid subscriber with an outstanding request has a frame that was queued for this
binding and names the id, offset and size of the request. -/
theorem no_request_lost {host : PeerId} {s : Streams} {peer : Peer} {socket : Socket} {key : Key}
    {stream : Stream} (reached : ((streams decode size).restrict (Keeps host)).Reachable s)
    (known : s.index.peers host = some peer) (bound : peer.socket = some socket)
    (resumed : s.scans (host, peer.socketGeneration) = .done)
    (valid : s.invalidated (host, peer.socketGeneration) = false)
    (present : s.streams key = some stream) (own : stream.file.host = host)
    (alive : 0 < stream.references) (waits : stream.subscriber.Waits) :
    ∃ frame ∈ s.queued host, frame.socket = socket ∧ frame.generation = peer.socketGeneration ∧
      frame.payload = requestMessage stream.file stream.subscriber.id stream.subscriber.request.position
        stream.subscriber.request.size stream.subscriber.request.requestId := by
  rcases (reissued reached).covered peer socket known bound valid key stream present own alive waits with
    sent | awaits
  · exact sent
  · rw [resumed] at awaits
    exact absurd awaits id

/-- A request that was begun while the host was detached is queued by its resume. -/
theorem no_request_lost_first :
    ∃ s, ((streams some fun _ => 0).restrict (Keeps 1)).Reachable s ∧
      ∃ frame ∈ s.queued 1, frame.socket = 6 ∧ frame.generation = 2 ∧
        frame.payload = requestMessage fileFirst 1 0 1 1 := by
  have hosted : ((streams some fun _ => 0).restrict (Keeps 1)).Reachable hostedFirst :=
    hostedFirst_reachable fun _ mutation idle => by simp [Keeps, idle]
  have found := hosted.next ⟨@StreamsStep.find _ _ 1 fileFirst _ (by decide), trivial⟩
  have subscribed := found.next ⟨.subscribe (List.mem_singleton_self _) rfl rfl, trivial⟩
  have lost := subscribed.next ⟨@StreamsStep.detach _ _ _ _ _ _ 1 5 rfl rfl rfl, trivial⟩
  have asked := lost.next
    ⟨@StreamsStep.wait _ _ _ _ _ (1, 1) _ 4 rfl rfl rfl (by decide) rfl, trivial⟩
  have begun := asked.next ⟨@StreamsStep.detached _ _ _ _ _ (1, 1) _ _ _ rfl rfl rfl rfl, trivial⟩
  have bound := begun.next ⟨@StreamsStep.bind _ _ _ _ _ _ 1 6 0 rfl rfl rfl rfl, trivial⟩
  have snapshot := bound.next ⟨@StreamsStep.snapshot _ _ _ _ 1 2 rfl rfl, trivial⟩
  have file := snapshot.next ⟨@StreamsStep.file _ _ _ fileFirst _ _ (1, 2) [] _ rfl rfl, trivial⟩
  have again := file.next
    ⟨@StreamsStep.reissue _ _ _ _ _ _ (1, 1) (1, 2) [] [] rfl rfl rfl rfl rfl rfl, trivial⟩
  have captured := again.next ⟨@StreamsStep.capture _ _ _ _ _ _ _ (1, 1) _ _ _ rfl rfl rfl rfl, trivial⟩
  have sent := captured.next ⟨@StreamsStep.push _ _ _ _ _ _ (1, 1) _ _ rfl rfl rfl, trivial⟩
  have visited := sent.next ⟨@StreamsStep.visited _ _ _ (1, 2) [] rfl, trivial⟩
  have done := visited.next ⟨@StreamsStep.finish _ _ _ (1, 2) rfl, trivial⟩
  exact ⟨_, done, @no_request_lost _ _ 1 _ _ 6 (1, 1) _ done rfl rfl rfl rfl rfl rfl (by decide) ⟨rfl, rfl⟩⟩

end Conspire.Files
