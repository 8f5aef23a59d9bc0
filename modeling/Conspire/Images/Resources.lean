import Conspire.Images.Generations
import Mathlib.Combinatorics.Enumerative.DoubleCounting

/-! Object URLs against the entries of the preview memory. Every change that takes an entry away
also takes the URL from its controller, and the guards of a load let it make a URL only for a
preview that has none. -/
namespace Conspire.Images
open Octets Transition

namespace Page
variable {page : Page}

/-- The registry holds just the controllers that are not disposed, and only they listen. -/
structure Listed (page : Page) : Prop where
  ids : ∀ id h, page.controllers.lookup id = some h ↔
    ∃ p, page.previews h = some p ∧ p.file.serverFileId = id ∧ p.disposed = false
  listening : ∀ {h p}, page.previews h = some p → p.listening = true → p.disposed = false

/-- The preview holds a URL. -/
def Holds (page : Page) (h : Nat) (p : Preview) (u : Url) : Prop :=
  page.previews h = some p ∧ p.objectUrl = some u

/-- The URL is of bytes that were inspected for the file of its owner. -/
def Inspected (page : Page) (made : Made) : Prop :=
  ∃ p image, page.previews made.load.owner = some p ∧ made.type = image.format ∧
    inspectImageBytes (some made.bytes) (some p.file.size) p.file.mediaType = .ok image

structure Resources (page : Page) : Prop where
  entries : ∀ id, id ∈ page.memory.entries ↔ ∃ h p u, page.Holds h p u ∧ p.file.serverFileId = id
  few : page.memory.size ≤ ImagePreviewLimits.livePreviews
  standing : ∀ {h p u}, page.Holds h p u → p.disposed = false ∧ (p.phase = .decoding ∨ p.phase = .visible)
  owner : ∀ {h p u}, page.Holds h p u → ∃ made, page.made[u]? = some made ∧ made.load.owner = h
  live : ∀ u, u < page.made.length ∧ u ∉ page.revoked ↔ ∃ h p, page.Holds h p u
  once : page.revoked.Nodup
  known : ∀ u ∈ page.revoked, u < page.made.length
  inspected : ∀ made ∈ page.made, page.Inspected made

structure Sound (page : Page) : Prop where
  listed : page.Listed
  resources : page.Resources

theorem Listed.unique {h k : Nat} {p q : Preview} (listed : page.Listed) (is : page.previews h = some p)
    (is' : page.previews k = some q) (standing : p.disposed = false) (standing' : q.disposed = false)
    (same : q.file.serverFileId = p.file.serverFileId) : k = h := by
  have found := (listed.ids p.file.serverFileId h).mpr ⟨p, is, rfl, standing⟩
  have found' := (listed.ids p.file.serverFileId k).mpr ⟨q, is', same, standing'⟩
  exact Option.some.inj (found'.symm.trans found)

theorem Listed.registered {h : Nat} {p : Preview} (listed : page.Listed) (is : page.previews h = some p)
    (standing : p.disposed = false) : page.registered p.file.serverFileId = some (h, p) := by
  have found := (listed.ids p.file.serverFileId h).mpr ⟨p, is, rfl, standing⟩
  simp only [Page.registered, Option.bind_eq_bind, found, is, Option.bind_some, Option.pure_def]

theorem Listed.handlers {after : Page} {h : Nat} {q : Preview} (listed : page.Listed)
    (own : q.listening = true → q.disposed = false)
    (previews : after.previews = Function.update page.previews h (some q)) {k : Nat} {r : Preview}
    (found : after.previews k = some r) (listening : r.listening = true) : r.disposed = false := by
  rw [previews] at found
  by_cases same : k = h
  · subst same
    rw [Function.update_self] at found
    cases found
    exact own listening
  · rw [Function.update_of_ne same] at found
    exact listed.listening found listening

/-- A controller changes but neither its file nor its standing. -/
theorem Listed.put {after : Page} {h : Nat} {p q : Preview} (listed : page.Listed) (is : page.previews h = some p)
    (file : q.file = p.file) (disposed : q.disposed = p.disposed) (listening : q.listening = p.listening)
    (previews : after.previews = Function.update page.previews h (some q))
    (controllers : after.controllers = page.controllers) : after.Listed := by
  constructor
  case listening =>
    refine listed.handlers ?_ previews
    rw [disposed, listening]
    exact listed.listening is
  case ids =>
    intro id k
    rw [controllers, listed.ids id k, previews]
    by_cases same : k = h
    · subst same
      rw [Function.update_self]
      constructor
      · rintro ⟨r, found, named, standing⟩
        cases is.symm.trans found
        exact ⟨q, rfl, by rw [file, named], by rw [disposed, standing]⟩
      · rintro ⟨r, found, named, standing⟩
        cases found
        exact ⟨p, is, by rw [← file, named], by rw [← disposed, standing]⟩
    · rw [Function.update_of_ne same]

/-- A disposed controller leaves the registry. -/
theorem Listed.dispose {after : Page} {h : Nat} {p q : Preview} (listed : page.Listed)
    (is : page.previews h = some p) (standing : p.disposed = false) (disposed : q.disposed = true)
    (listening : q.listening = false) (previews : after.previews = Function.update page.previews h (some q))
    (controllers : after.controllers = page.controllers.erase p.file.serverFileId) : after.Listed := by
  constructor
  case listening =>
    refine listed.handlers ?_ previews
    rw [listening]
    exact nofun
  case ids =>
    intro id k
    rw [controllers, previews]
    by_cases same : k = h
    · subst same
      rw [Function.update_self]
      refine iff_of_false (fun found => ?_) ?_
      · by_cases own : id = p.file.serverFileId
        · rw [own, AList.lookup_erase] at found
          cases found
        · rw [AList.lookup_erase_ne own, listed.ids] at found
          obtain ⟨r, is', named, -⟩ := found
          cases is.symm.trans is'
          exact own named.symm
      · rintro ⟨r, found, named, stands⟩
        cases found
        cases disposed.symm.trans stands
    · rw [Function.update_of_ne same, ← listed.ids]
      by_cases own : id = p.file.serverFileId
      · subst own
        rw [AList.lookup_erase, (listed.ids _ h).mpr ⟨p, is, rfl, standing⟩]
        refine iff_of_false nofun fun found => same ?_
        exact (Option.some.inj found).symm
      · rw [AList.lookup_erase_ne own]

theorem Listed.of_same {after : Page} (listed : page.Listed) (previews : after.previews = page.previews)
    (controllers : after.controllers = page.controllers) : after.Listed := by
  constructor
  · rw [previews, controllers]
    exact listed.ids
  · rw [previews]
    exact listed.listening

theorem Holds.of_put {after : Page} {h k : Nat} {q r : Preview} {u : Url}
    (previews : after.previews = Function.update page.previews h (some q)) (url : q.objectUrl = none) :
    after.Holds k r u ↔ k ≠ h ∧ page.Holds k r u := by
  unfold Holds
  rw [previews]
  by_cases same : k = h
  · subst same
    rw [Function.update_self]
    refine iff_of_false ?_ (fun ⟨other, _⟩ => other rfl)
    rintro ⟨found, holds⟩
    cases found
    cases url.symm.trans holds
  · rw [Function.update_of_ne same]
    exact ⟨fun holds => ⟨same, holds⟩, And.right⟩

theorem Inspected.mono {after : Page} {made : Made} (inspected : page.Inspected made)
    (files : ∀ {h p}, page.previews h = some p → ∃ q, after.previews h = some q ∧ q.file = p.file) :
    after.Inspected made := by
  obtain ⟨p, image, is, type, accepted⟩ := inspected
  obtain ⟨q, is, file⟩ := files is
  exact ⟨q, image, is, type, by rw [file, accepted]⟩

theorem files_put {after : Page} {h : Nat} {p q : Preview} (is : page.previews h = some p) (file : q.file = p.file)
    (previews : after.previews = Function.update page.previews h (some q)) {k : Nat} {r : Preview}
    (found : page.previews k = some r) : ∃ r', after.previews k = some r' ∧ r'.file = r.file := by
  by_cases same : k = h
  · subst same
    cases is.symm.trans found
    exact ⟨q, by rw [previews, Function.update_self], file⟩
  · exact ⟨r, by rw [previews, Function.update_of_ne same, found], rfl⟩

/-- A controller releases what it holds: its entry goes and its URL is revoked. -/
theorem Resources.settle {after : Page} {h : Nat} {p q : Preview} (res : page.Resources) (listed : page.Listed)
    (is : page.previews h = some p) (standing : p.disposed = false) (file : q.file = p.file)
    (url : q.objectUrl = none) (previews : after.previews = Function.update page.previews h (some q))
    (memory : ∀ id, id ∈ after.memory.entries ↔ id ≠ p.file.serverFileId ∧ id ∈ page.memory.entries)
    (size : after.memory.size ≤ ImagePreviewLimits.livePreviews) (made : after.made = page.made)
    (revoked : after.revoked = page.revoked ++ p.objectUrl.toList) : after.Resources := by
  have holds {k : Nat} {r : Preview} {u : Url} : after.Holds k r u ↔ k ≠ h ∧ page.Holds k r u :=
    Holds.of_put previews url
  constructor
  case entries =>
    intro id
    rw [memory, res.entries]
    constructor
    · rintro ⟨other, k, r, u, held, rfl⟩
      refine ⟨k, r, u, holds.mpr ⟨?_, held⟩, rfl⟩
      rintro rfl
      cases is.symm.trans held.1
      exact other rfl
    · rintro ⟨k, r, u, held, rfl⟩
      obtain ⟨different, held⟩ := holds.mp held
      refine ⟨fun same => different ?_, k, r, u, held, rfl⟩
      exact listed.unique is held.1 standing (res.standing held).1 same
  case few => exact size
  case standing => exact fun held => res.standing (holds.mp held).2
  case owner =>
    intro k r u held
    rw [made]
    exact res.owner (holds.mp held).2
  case live =>
    intro u
    rw [made, revoked]
    simp only [List.mem_append, Option.mem_toList, not_or, holds]
    constructor
    · rintro ⟨below, unrevoked, other⟩
      obtain ⟨k, r, held⟩ := (res.live u).mp ⟨below, unrevoked⟩
      refine ⟨k, r, ?_, held⟩
      rintro rfl
      cases is.symm.trans held.1
      exact other held.2
    · rintro ⟨k, r, different, held⟩
      obtain ⟨below, unrevoked⟩ := (res.live u).mpr ⟨k, r, held⟩
      refine ⟨below, unrevoked, fun own => different ?_⟩
      obtain ⟨m, found, owner⟩ := res.owner held
      obtain ⟨m', found', owner'⟩ := res.owner ⟨is, own⟩
      cases found.symm.trans found'
      exact owner.symm.trans owner'
  case once =>
    rw [revoked]
    refine List.nodup_append.mpr ⟨res.once, ?_, ?_⟩
    · cases p.objectUrl <;> simp
    · rintro u revoked v own rfl
      have held : page.Holds h p u := ⟨is, Option.mem_toList.mp own⟩
      exact ((res.live u).mpr ⟨h, p, held⟩).2 revoked
  case known =>
    intro u member
    rw [revoked] at member
    rw [made]
    obtain old | own := List.mem_append.mp member
    · exact res.known u old
    · exact ((res.live u).mpr ⟨h, p, is, Option.mem_toList.mp own⟩).1
  case inspected =>
    intro m member
    rw [made] at member
    exact (res.inspected m member).mono (files_put is file previews)

/-- A controller changes and holds what it held. -/
theorem Resources.put {after : Page} {h : Nat} {p q : Preview} (res : page.Resources)
    (is : page.previews h = some p) (file : q.file = p.file) (disposed : q.disposed = p.disposed)
    (url : q.objectUrl = p.objectUrl)
    (phase : ∀ u, q.objectUrl = some u → q.phase = .decoding ∨ q.phase = .visible)
    (previews : after.previews = Function.update page.previews h (some q))
    (memory : ∀ id, id ∈ after.memory.entries ↔ id ∈ page.memory.entries)
    (size : after.memory.size = page.memory.size) (made : after.made = page.made)
    (revoked : after.revoked = page.revoked) : after.Resources := by
  have kept {k : Nat} {r : Preview} {u : Url} (held : page.Holds k r u) :
      ∃ r', after.Holds k r' u ∧ r'.file = r.file := by
    by_cases same : k = h
    · subst same
      cases is.symm.trans held.1
      exact ⟨q, ⟨by rw [previews, Function.update_self], url.trans held.2⟩, file⟩
    · exact ⟨r, ⟨by rw [previews, Function.update_of_ne same, held.1], held.2⟩, rfl⟩
  have before {k : Nat} {r : Preview} {u : Url} (held : after.Holds k r u) :
      ∃ r', page.Holds k r' u ∧ r'.file = r.file ∧ r.disposed = r'.disposed ∧
        (r.phase = r'.phase ∨ r.phase = .decoding ∨ r.phase = .visible) := by
    obtain ⟨found, holds⟩ := held
    rw [previews] at found
    by_cases same : k = h
    · subst same
      rw [Function.update_self] at found
      cases found
      exact ⟨p, ⟨is, url ▸ holds⟩, file.symm, disposed, .inr (phase u holds)⟩
    · rw [Function.update_of_ne same] at found
      exact ⟨r, ⟨found, holds⟩, rfl, rfl, .inl rfl⟩
  constructor
  case entries =>
    intro id
    rw [memory, res.entries]
    constructor
    · rintro ⟨k, r, u, held, rfl⟩
      obtain ⟨r', held, file⟩ := kept held
      exact ⟨k, r', u, held, by rw [file]⟩
    · rintro ⟨k, r, u, held, rfl⟩
      obtain ⟨r', held, file, -⟩ := before held
      exact ⟨k, r', u, held, by rw [file]⟩
  case few => exact size ▸ res.few
  case standing =>
    intro k r u held
    obtain ⟨r', held, -, disposed, phase⟩ := before held
    obtain ⟨standing, phase'⟩ := res.standing held
    refine ⟨disposed.trans standing, ?_⟩
    obtain same | other := phase
    · rwa [same]
    · exact other
  case owner =>
    intro k r u held
    obtain ⟨r', held, -⟩ := before held
    rw [made]
    exact res.owner held
  case live =>
    intro u
    rw [made, revoked, res.live]
    constructor
    · rintro ⟨k, r, held⟩
      obtain ⟨r', held, -⟩ := kept held
      exact ⟨k, r', held⟩
    · rintro ⟨k, r, held⟩
      obtain ⟨r', held, -⟩ := before held
      exact ⟨k, r', held⟩
  case once => exact revoked ▸ res.once
  case known =>
    rw [made, revoked]
    exact res.known
  case inspected =>
    rw [made]
    intro m member
    exact (res.inspected m member).mono (files_put is file previews)

/-- A controller without an entry gets both, a URL and an entry. -/
theorem Resources.display {after : Page} {h : Nat} {p q : Preview} {new : Made} (res : page.Resources)
    (is : page.previews h = some p) (absent : p.file.serverFileId ∉ page.memory.entries) (file : q.file = p.file)
    (standing : q.disposed = false) (phase : q.phase = .decoding) (url : q.objectUrl = some page.made.length)
    (previews : after.previews = Function.update page.previews h (some q))
    (memory : ∀ id, id ∈ after.memory.entries ↔ id = p.file.serverFileId ∨ id ∈ page.memory.entries)
    (size : after.memory.size ≤ ImagePreviewLimits.livePreviews) (made : after.made = page.made ++ [new])
    (owner : new.load.owner = h) (inspected : after.Inspected new) (revoked : after.revoked = page.revoked) :
    after.Resources := by
  have holds {k : Nat} {r : Preview} {u : Url} :
      after.Holds k r u ↔ (k = h ∧ r = q ∧ u = page.made.length) ∨ (k ≠ h ∧ page.Holds k r u) := by
    unfold Holds
    rw [previews]
    by_cases same : k = h
    · subst same
      rw [Function.update_self]
      constructor
      · rintro ⟨found, holds⟩
        cases found
        exact .inl ⟨rfl, rfl, (Option.some.inj (url.symm.trans holds)).symm⟩
      · rintro (⟨-, rfl, rfl⟩ | ⟨other, -⟩)
        · exact ⟨rfl, url⟩
        · exact absurd rfl other
    · rw [Function.update_of_ne same]
      simp only [same, false_and, ne_eq, not_false_eq_true, true_and, false_or]
  have other {k : Nat} {r : Preview} {u : Url} (held : page.Holds k r u) : k ≠ h := by
    rintro rfl
    cases is.symm.trans held.1
    exact absent ((res.entries _).mpr ⟨_, _, _, held, rfl⟩)
  constructor
  case entries =>
    intro id
    rw [memory, res.entries]
    constructor
    · rintro (rfl | ⟨k, r, u, held, rfl⟩)
      · exact ⟨h, q, _, holds.mpr (.inl ⟨rfl, rfl, rfl⟩), by rw [file]⟩
      · exact ⟨k, r, u, holds.mpr (.inr ⟨other held, held⟩), rfl⟩
    · rintro ⟨k, r, u, held, rfl⟩
      obtain ⟨rfl, rfl, rfl⟩ | ⟨-, held⟩ := holds.mp held
      · exact .inl (by rw [file])
      · exact .inr ⟨k, r, u, held, rfl⟩
  case few => exact size
  case standing =>
    intro k r u held
    obtain ⟨rfl, rfl, rfl⟩ | ⟨-, held⟩ := holds.mp held
    · exact ⟨standing, .inl phase⟩
    · exact res.standing held
  case owner =>
    intro k r u held
    rw [made]
    obtain ⟨rfl, rfl, rfl⟩ | ⟨-, held⟩ := holds.mp held
    · exact ⟨new, List.getElem?_concat_length, owner⟩
    · obtain ⟨m, found, owner⟩ := res.owner held
      exact ⟨m, List.getElem?_append_left (List.getElem?_eq_some_iff.mp found).1 ▸ found, owner⟩
  case live =>
    intro u
    rw [made, revoked, List.length_append, List.length_singleton]
    constructor
    · rintro ⟨below, unrevoked⟩
      by_cases last : u = page.made.length
      · exact ⟨h, q, holds.mpr (.inl ⟨rfl, rfl, last⟩)⟩
      · obtain ⟨k, r, held⟩ := (res.live u).mp ⟨by omega, unrevoked⟩
        exact ⟨k, r, holds.mpr (.inr ⟨other held, held⟩)⟩
    · rintro ⟨k, r, held⟩
      obtain ⟨rfl, rfl, rfl⟩ | ⟨-, held⟩ := holds.mp held
      · exact ⟨Nat.lt_succ_self _, fun member => Nat.lt_irrefl _ (res.known _ member)⟩
      · obtain ⟨below, unrevoked⟩ := (res.live u).mpr ⟨k, r, held⟩
        exact ⟨by omega, unrevoked⟩
  case once => exact revoked ▸ res.once
  case known =>
    rw [made, revoked, List.length_append]
    exact fun u member => Nat.lt_add_right _ (res.known u member)
  case inspected =>
    rw [made]
    intro m member
    obtain old | new := List.mem_append.mp member
    · exact (res.inspected m old).mono (files_put is file previews)
    · rwa [List.mem_singleton.mp new]

/-- Every URL stays where it is. -/
theorem Resources.of_holds {after : Page} (res : page.Resources)
    (holds : ∀ k r u, after.Holds k r u ↔ page.Holds k r u)
    (files : ∀ {h p}, page.previews h = some p → ∃ q, after.previews h = some q ∧ q.file = p.file)
    (memory : ∀ id, id ∈ after.memory.entries ↔ id ∈ page.memory.entries)
    (size : after.memory.size ≤ page.memory.size) (made : after.made = page.made)
    (revoked : after.revoked = page.revoked) : after.Resources := by
  constructor
  case entries =>
    intro id
    simp only [memory, res.entries, holds]
  case few => exact Nat.le_trans size res.few
  case standing => exact fun held => res.standing ((holds _ _ _).mp held)
  case owner =>
    intro k r u held
    rw [made]
    exact res.owner ((holds _ _ _).mp held)
  case live =>
    intro u
    simp only [made, revoked, res.live, holds]
  case once => exact revoked ▸ res.once
  case known =>
    rw [made, revoked]
    exact res.known
  case inspected =>
    rw [made]
    exact fun m member => (res.inspected m member).mono files

theorem Sound.put {h : Nat} {p q : Preview} (sound : page.Sound) (is : page.previews h = some p)
    (file : q.file = p.file) (disposed : q.disposed = p.disposed) (listening : q.listening = p.listening)
    (url : q.objectUrl = p.objectUrl) (phase : ∀ u, q.objectUrl = some u → q.phase = .decoding ∨ q.phase = .visible) :
    (page.put h q).Sound where
  listed := sound.listed.put is file disposed listening rfl rfl
  resources := sound.resources.put is file disposed url phase rfl (fun _ => Iff.rfl) rfl rfl rfl

theorem Sound.terminal {h : Nat} {p q : Preview} (sound : page.Sound) (is : page.previews h = some p)
    (standing : p.disposed = false) (file : q.file = p.file) (disposed : q.disposed = p.disposed)
    (listening : q.listening = p.listening) (url : q.objectUrl = p.objectUrl) (next : Phase) (text : String) :
    (page.terminalState h q next text).Sound := by
  obtain ⟨load, root, spec⟩ := terminal_spec page h q next text
  rw [spec]
  constructor
  case listed => exact sound.listed.put is (by exact file) (by exact disposed) (by exact listening) rfl rfl
  case resources =>
    refine sound.resources.settle sound.listed is standing (by exact file) rfl rfl ?_ ?_ rfl ?_
    · intro id
      rw [← file]
      exact AList.mem_erase
    · exact Nat.le_trans (length_erase_le _ _) sound.resources.few
    · rw [← url]
      rfl

/-- An id with an entry is registered for the controller that holds the URL. -/
theorem Sound.holder {id : FileId} (sound : page.Sound) (member : id ∈ page.memory.entries) :
    ∃ h p, page.registered id = some (h, p) ∧ page.previews h = some p ∧ p.disposed = false ∧
      p.file.serverFileId = id ∧ ∃ u, p.objectUrl = some u := by
  obtain ⟨h, p, u, held, rfl⟩ := (sound.resources.entries id).mp member
  have standing := (sound.resources.standing held).1
  exact ⟨h, p, sound.listed.registered held.1 standing, held.1, standing, rfl, u, held.2⟩

/-- The controller of an entry that is dropped is evicted. -/
theorem Sound.evicts {id : FileId} (sound : page.Sound) (member : id ∈ page.memory.entries) :
    ((page.dropEntry id).onEvict id).Sound ∧
      (∀ {h p}, page.previews h = some p → p.objectUrl = none →
        ((page.dropEntry id).onEvict id).previews h = some p) ∧
      ∀ id', id' ∈ ((page.dropEntry id).onEvict id).memory.entries → id' ∈ page.memory.entries := by
  obtain ⟨h, p, found, is, standing, rfl, u, holds⟩ := sound.holder member
  have found : (page.dropEntry p.file.serverFileId).registered p.file.serverFileId = some (h, p) := found
  have is' : (page.dropEntry p.file.serverFileId).previews h = some p := is
  obtain ⟨load, root, spec⟩ := terminal_spec (page.dropEntry p.file.serverFileId) h
    { p with generation := p.generation + 1 } .evicted "Preview unloaded to save memory."
  simp only [onEvict, found, evict, is']
  rw [spec]
  have memory (id : FileId) :
      id ∈ ((page.memory.remove p.file.serverFileId).remove p.file.serverFileId).entries ↔
        id ≠ p.file.serverFileId ∧ id ∈ page.memory.entries := by
    simp only [PreviewMemory.remove, AList.mem_erase, ← and_assoc, and_self]
  refine ⟨⟨sound.listed.put is (by rfl) (by rfl) (by rfl) rfl rfl, ?_⟩, ?_, fun id' left => ((memory id').mp left).2⟩
  · refine sound.resources.settle sound.listed is standing (by rfl) (by rfl) rfl memory ?_ rfl rfl
    exact Nat.le_trans (length_erase_le _ _) (Nat.le_trans (length_erase_le _ _) sound.resources.few)
  · intro k r other urlless
    refine (Function.update_of_ne ?_ _ _).trans other
    rintro rfl
    cases is.symm.trans other
    cases urlless.symm.trans holds

theorem oldest_none (none : page.memory.oldest = none) : page.memory.size = 0 := by
  simp only [PreviewMemory.oldest, Option.map_eq_none_iff, List.head?_eq_none_iff] at none
  have length := congrArg List.length none
  rwa [List.length_mergeSort] at length

/-- The evictions leave room, and the controllers that hold no URL as they were. -/
theorem Sound.makeRoom (sound : page.Sound) (bytes pixels : Nat) :
    (page.makeRoom bytes pixels).Sound ∧
      (page.makeRoom bytes pixels).memory.size < ImagePreviewLimits.livePreviews ∧
      (∀ {h p}, page.previews h = some p → p.objectUrl = none →
        (page.makeRoom bytes pixels).previews h = some p) ∧
      ∀ id, id ∈ (page.makeRoom bytes pixels).memory.entries → id ∈ page.memory.entries := by
  fun_induction page.makeRoom bytes pixels with
  | case1 page crowded none =>
    refine ⟨sound, ?_, fun is _ => is, fun _ left => left⟩
    rw [oldest_none none]
    decide
  | case2 page crowded id is ih =>
    obtain ⟨sound, frame, fewer⟩ := sound.evicts (PreviewMemory.oldest_mem is)
    obtain ⟨sound, room, frame', fewer'⟩ := ih sound
    exact ⟨sound, room, fun is none => frame' (frame is none) none, fun id left => fewer id (fewer' id left)⟩
  | case3 page room =>
    refine ⟨sound, ?_, fun is _ => is, fun _ left => left⟩
    simp only [PreviewMemory.crowded, Bool.or_eq_true, decide_eq_true_eq, not_or, Nat.not_le] at room
    exact room.1.1

theorem Sound.registered {id : FileId} {h : Nat} {p : Preview} (sound : page.Sound)
    (is : page.registered id = some (h, p)) :
    page.previews h = some p ∧ p.disposed = false ∧ p.file.serverFileId = id := by
  obtain ⟨listed, found⟩ := registered_spec is
  obtain ⟨q, found', named, standing⟩ := (sound.listed.ids id h).mp listed
  cases found.symm.trans found'
  exact ⟨found, standing, named⟩

theorem Sound.unregistered {id : FileId} (sound : page.Sound) (none : page.registered id = none) :
    id ∉ page.controllers ∧ id ∉ page.memory.entries := by
  constructor
  · intro member
    obtain ⟨h, listed⟩ := Option.isSome_iff_exists.mp (AList.lookup_isSome.mpr member)
    obtain ⟨p, is, rfl, standing⟩ := (sound.listed.ids id h).mp listed
    cases none.symm.trans (sound.listed.registered is standing)
  · intro member
    obtain ⟨h, p, found, -⟩ := sound.holder member
    cases none.symm.trans found

theorem Sound.dispose {after : Page} {h : Nat} {p q : Preview} (sound : page.Sound)
    (is : page.previews h = some p) (standing : p.disposed = false) (file : q.file = p.file)
    (disposed : q.disposed = true) (listening : q.listening = false) (url : q.objectUrl = none)
    (previews : after.previews = Function.update page.previews h (some q))
    (controllers : after.controllers = page.controllers.erase p.file.serverFileId)
    (memory : after.memory = page.memory.remove p.file.serverFileId) (made : after.made = page.made)
    (revoked : after.revoked = page.revoked ++ p.objectUrl.toList) : after.Sound where
  listed := sound.listed.dispose is standing disposed listening previews controllers
  resources := by
    refine sound.resources.settle sound.listed is standing file url previews ?_ ?_ made revoked
    · intro id
      rw [memory]
      exact AList.mem_erase
    · rw [memory]
      exact Nat.le_trans (length_erase_le _ _) sound.resources.few

/-- What is not registered has nothing to remove, and what was removed is not registered. -/
theorem Sound.remove (sound : page.Sound) (id : FileId) :
    (page.remove id).Sound ∧ ∀ id', id' ∈ (page.remove id).controllers ↔ id' ≠ id ∧ id' ∈ page.controllers := by
  unfold Page.remove
  split
  · rename_i none
    obtain ⟨unlisted, absent⟩ := sound.unregistered none
    have kept (id' : FileId) : id' ∈ (page.memory.remove id).entries ↔ id' ∈ page.memory.entries := by
      simp only [PreviewMemory.remove, AList.mem_erase, and_iff_right_iff_imp]
      rintro member rfl
      exact absent member
    refine ⟨⟨sound.listed.of_same rfl rfl, ?_⟩, fun id' => ?_⟩
    · exact sound.resources.of_holds (fun _ _ _ => Iff.rfl) (fun is => ⟨_, is, rfl⟩) kept
        (length_erase_le _ _) rfl rfl
    · refine (and_iff_right_of_imp ?_).symm
      rintro member rfl
      exact unlisted member
  · rename_i h p found
    obtain ⟨is, standing, rfl⟩ := sound.registered found
    refine ⟨?_, fun id' => ?_⟩
    · simp only [cleanup, standing, Bool.false_eq_true, if_false]
      refine sound.dispose is standing (q := ({ p with
        disposed := true, generation := p.generation + 1 } : Preview).released.removeHandlers.detach)
        rfl rfl rfl rfl ?_ rfl rfl rfl rfl
      simp only [unregister, removeRoot, Page.put, Function.update_self, Option.map_some, Function.update_idem]
      rfl
    · simp only [cleanup, standing, Bool.false_eq_true, if_false]
      exact AList.mem_erase

theorem Sound.unavailable (sound : page.Sound) (id : FileId) : (page.unavailable id).Sound := by
  unfold Page.unavailable
  split
  · exact sound
  · rename_i h p found
    obtain ⟨is, standing, rfl⟩ := sound.registered found
    simp only [unavailablePreview, standing, Bool.false_eq_true, if_false]
    obtain ⟨load, root, rendered⟩ := Preview.render_spec _ false
    rw [rendered]
    exact sound.dispose is standing (by rfl) (by rfl) (by rfl) (by rfl) rfl rfl rfl rfl rfl

theorem Sound.removes (sound : page.Sound) (ids : List FileId) :
    (ids.foldl Page.remove page).Sound ∧
      ∀ id, id ∈ (ids.foldl Page.remove page).controllers ↔ id ∉ ids ∧ id ∈ page.controllers := by
  induction ids generalizing page with
  | nil => exact ⟨sound, fun id => by simp⟩
  | cons first ids ih =>
    obtain ⟨sound', left⟩ := sound.remove first
    obtain ⟨sound', left'⟩ := ih sound'
    refine ⟨sound', fun id => ?_⟩
    rw [List.foldl_cons, left', left, List.mem_cons, not_or]
    tauto

theorem Sound.clear (sound : page.Sound) : page.clear.Sound := by
  obtain ⟨sound', left⟩ := sound.removes page.controllers.keys
  have nothing (id : FileId) : id ∉ (page.controllers.keys.foldl Page.remove page).memory.entries := by
    intro member
    obtain ⟨h, p, found, -⟩ := sound'.holder member
    have listed := AList.lookup_isSome.mp (Option.isSome_of_eq_some (registered_spec found).1)
    obtain ⟨other, member⟩ := (left id).mp listed
    exact other (AList.mem_keys.mp member)
  refine ⟨sound'.listed.of_same rfl rfl, ?_⟩
  refine sound'.resources.of_holds (fun _ _ _ => Iff.rfl) (fun is => ⟨_, is, rfl⟩) (fun id => ?_) ?_ rfl rfl
  · exact iff_of_false (AList.notMem_empty id) (nothing id)
  · exact Nat.zero_le _

theorem remove_fresh {h : Nat} (fresh : page.previews h = none) (id : FileId) :
    (page.remove id).previews h = none := by
  unfold Page.remove
  split
  · exact fresh
  · rename_i k p found
    have other : h ≠ k := by
      rintro rfl
      cases fresh.symm.trans (registered_spec found).2
    simp only [unregister, removeRoot, Function.update_of_ne other, cleanup]
    split
    · exact fresh
    · exact (Function.update_of_ne other _ _).trans fresh

/-- A new controller holds no URL. -/
theorem Sound.add {after : Page} {h : Nat} {q : Preview} (sound : page.Sound) (fresh : page.previews h = none)
    (unlisted : q.file.serverFileId ∉ page.controllers) (standing : q.disposed = false) (url : q.objectUrl = none)
    (previews : after.previews = Function.update page.previews h (some q))
    (controllers : after.controllers = page.controllers.insert q.file.serverFileId h)
    (memory : after.memory = page.memory) (made : after.made = page.made) (revoked : after.revoked = page.revoked) :
    after.Sound := by
  have none {k : Nat} {r : Preview} (found : page.previews k = some r) : k ≠ h := by
    rintro rfl
    cases fresh.symm.trans found
  refine ⟨⟨?ids, sound.listed.handlers (fun _ => standing) previews⟩, ?resources⟩
  case ids =>
    intro id k
    rw [controllers, previews]
    by_cases own : id = q.file.serverFileId
    · subst own
      rw [AList.lookup_insert]
      constructor
      · intro same
        cases same
        exact ⟨q, Function.update_self _ _ _, rfl, standing⟩
      · rintro ⟨r, found, named, stands⟩
        by_cases same : k = h
        · rw [same]
        · rw [Function.update_of_ne same] at found
          have listed := (sound.listed.ids q.file.serverFileId k).mpr ⟨r, found, named, stands⟩
          exact absurd (AList.lookup_isSome.mp (Option.isSome_of_eq_some listed)) unlisted
    · rw [AList.lookup_insert_ne own, sound.listed.ids id k]
      by_cases same : k = h
      · subst same
        rw [Function.update_self]
        refine iff_of_false ?_ ?_
        · rintro ⟨r, found, -⟩
          exact none found rfl
        · rintro ⟨r, found, named, -⟩
          cases found
          exact own named.symm
      · rw [Function.update_of_ne same]
  case resources =>
    refine sound.resources.of_holds (fun k r u => ?_) (fun {k r} found => ?_) (fun id => by rw [memory])
      (by rw [memory]) made revoked
    · rw [Holds.of_put previews url]
      exact and_iff_right_of_imp fun held => none held.1
    · exact ⟨r, by rw [previews, Function.update_of_ne (none found), found], rfl⟩

theorem Sound.register {h : Nat} (sound : page.Sound) (fresh : page.previews h = none) (file : PreviewFile)
    (download : Option Link) : (page.register h file download).Sound := by
  obtain ⟨sound', left⟩ := sound.remove file.serverFileId
  obtain ⟨load, root, rendered⟩ := Preview.render_spec _ false
  refine sound'.add (q := createImagePreviewController file download)
    (remove_fresh fresh _) ?_ ?_ ?_ rfl ?_ rfl rfl rfl
  all_goals rw [createImagePreviewController, rendered]
  · intro member
    exact ((left _).mp member).1 rfl
  · rfl

theorem Sound.touch (sound : page.Sound) (p : Preview) : (page.touch p).Sound := by
  unfold Page.touch
  split
  · refine ⟨sound.listed.of_same rfl rfl, ?_⟩
    refine sound.resources.of_holds (fun _ _ _ => Iff.rfl) (fun is => ⟨_, is, rfl⟩) (fun id => ?_) ?_ rfl rfl
    all_goals
      simp only [PreviewMemory.touch, PreviewMemory.size]
      split
    · rfl
    · exact AList.mem_replace
    · exact Nat.le_refl _
    · rw [← length_keys, ← length_keys, AList.keys_replace]
  · exact sound

end Page
end Conspire.Images
