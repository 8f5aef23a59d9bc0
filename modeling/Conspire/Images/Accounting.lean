import Conspire.Images.Resources

/-! Preview resources over whole runs. A load is current while it bears its preview's generation;
only then is its preview in the phase the load left it in, and only then does the load go on. -/
namespace Conspire.Images
open Octets Transition

def Stage.awaits : Stage → Bool
  | .requesting | .reading _ => true
  | .decoding _ _ => false

namespace Page
variable {page : Page} {l : Load}

/-- What a load that waits relies on. -/
def Waits (page : Page) (l : Load) (stage : Stage) : Prop :=
  ∃ p, page.previews l.owner = some p ∧ l.own ≤ p.generation ∧
    (l.own = p.generation → stage.awaits = true → p.phase = .downloading)

theorem Waits.onward {after : Page} {stage : Stage} (waits : page.Waits l stage) (onward : Onward page after) :
    after.Waits l stage := by
  obtain ⟨p, is, earlier, current⟩ := waits
  obtain ⟨q, is, same⟩ := onward is
  refine ⟨q, is, Nat.le_trans earlier same.generation, fun now awaits => ?_⟩
  have before := same.generation
  rw [(same.same (by omega)).1]
  exact current (by omega) awaits

/-- A current load goes on beside the other loads. -/
theorem Waits.beside {after : Page} {other : Load} {stage : Stage} {p : Preview} (waits : page.Waits other stage)
    (different : other ≠ l) (is : page.previews l.owner = some p) (current : l.own = p.generation)
    (beside : Beside l.owner page after) : after.Waits other stage := by
  obtain ⟨q, is', earlier, now⟩ := waits
  obtain ⟨r, found, later, onward⟩ := beside is'
  by_cases same : other.owner = l.owner
  · rw [same] at is'
    cases is.symm.trans is'
    have older : other.own ≠ p.generation := by
      intro equal
      apply different
      cases other
      cases l
      simp_all
    have := later.generation
    exact ⟨r, found, by omega, fun now => by omega⟩
  · have onward := onward same
    have before := onward.generation
    refine ⟨r, found, by omega, fun equal awaits => ?_⟩
    rw [(onward.same (by omega)).1]
    exact now (by omega) awaits

/-- A current load has no URL until it makes one. -/
theorem Sound.urlless {h : Nat} {p : Preview} (sound : page.Sound) (is : page.previews h = some p)
    (phase : p.phase = .downloading) : p.objectUrl = none := by
  cases url : p.objectUrl with
  | none => rfl
  | some u =>
    have held := (sound.resources.standing ⟨is, url⟩).2
    rw [phase] at held
    obtain held | held := held <;> cases held

/-- A registered controller without a URL has no entry. -/
theorem Sound.absent {h : Nat} {p : Preview} (sound : page.Sound) (is : page.previews h = some p)
    (standing : p.disposed = false) (url : p.objectUrl = none) : p.file.serverFileId ∉ page.memory.entries := by
  intro member
  obtain ⟨k, q, found, is', stands, named, u, holds⟩ := sound.holder member
  obtain rfl := sound.listed.unique is is' standing stands named
  cases is.symm.trans is'
  cases url.symm.trans holds

theorem onEvict_made (id : FileId) : (page.onEvict id).made = page.made := by
  unfold onEvict evict
  split
  · rfl
  · split <;> rfl

theorem makeRoom_made (bytes pixels : Nat) : (page.makeRoom bytes pixels).made = page.made := by
  fun_induction page.makeRoom bytes pixels with
  | case1 page crowded none => rfl
  | case2 page crowded id is ih => exact ih.trans (onEvict_made id)
  | case3 page room => rfl

/-- What `admit` comes to: room was made, and there is an entry that has no URL yet. -/
structure Entered (page after : Page) (h : Nat) (p : Preview) (room : Page) : Prop where
  sound : room.Sound
  is : room.previews h = some p
  absent : p.file.serverFileId ∉ room.memory.entries
  made : room.made = page.made
  previews : after.previews = room.previews
  controllers : after.controllers = room.controllers
  memory : ∀ id, id ∈ after.memory.entries ↔ id = p.file.serverFileId ∨ id ∈ room.memory.entries
  size : after.memory.size ≤ ImagePreviewLimits.livePreviews
  same : after.made = room.made ∧ after.revoked = room.revoked

theorem Sound.admits {h : Nat} {p : Preview} {bytes pixels : Nat} {after : Page} (sound : page.Sound)
    (is : page.previews h = some p) (standing : p.disposed = false) (url : p.objectUrl = none)
    (admits : page.admitEntry p.file.serverFileId bytes pixels = some after) :
    ∃ room, Entered page after h p room := by
  have absent := sound.absent is standing url
  unfold admitEntry at admits
  split at admits
  · cases admits
  cases admits
  have dropped : (page.dropEntry p.file.serverFileId).Sound := by
    refine ⟨sound.listed.of_same rfl rfl, ?_⟩
    refine sound.resources.of_holds (fun _ _ _ => Iff.rfl) (fun is => ⟨_, is, rfl⟩) (fun id => ?_)
      (length_erase_le _ _) rfl rfl
    refine AList.mem_erase.trans (and_iff_right_of_imp ?_)
    rintro member rfl
    exact absent member
  have gone : p.file.serverFileId ∉ (page.dropEntry p.file.serverFileId).memory.entries :=
    fun member => (AList.mem_erase.mp member).1 rfl
  obtain ⟨sound', room, frame, fewer⟩ := dropped.makeRoom bytes pixels
  exact ⟨_, {
    sound := sound'
    is := frame is url
    absent := fun member => gone (fewer _ member)
    made := makeRoom_made bytes pixels
    previews := rfl
    controllers := rfl
    memory := fun id => AList.mem_insert _
    size := Nat.le_trans (length_insert_le _ _ _) room
    same := ⟨rfl, rfl⟩ }⟩

/-- The load that fails after it was admitted gives its entry back. -/
theorem Entered.terminal {after room : Page} {h : Nat} {p : Preview} (entered : Entered page after h p room)
    (standing : p.disposed = false) (next : Phase) (text : String) : (after.terminalState h p next text).Sound := by
  obtain ⟨load, root, spec⟩ := terminal_spec after h p next text
  rw [spec]
  have previews {q : Preview} : ((after.free p).put h q).previews = Function.update room.previews h (some q) := by
    rw [← entered.previews]
    rfl
  constructor
  case listed =>
    exact entered.sound.listed.put entered.is (by rfl) (by rfl) (by rfl) previews entered.controllers
  case resources =>
    refine entered.sound.resources.settle entered.sound.listed entered.is standing (by rfl) (by rfl) previews
      (fun id => ?_) (Nat.le_trans (length_erase_le _ _) entered.size) entered.same.1 ?_
    · refine AList.mem_erase.trans ?_
      rw [entered.memory]
      tauto
    · exact congrArg (fun revoked => revoked ++ p.objectUrl.toList) entered.same.2

end Page

namespace World
open Page
variable {w : World} {l : Load} {p : Preview}

theorem not_stale (fresh : ¬ World.stale l p = true) : p.disposed = false ∧ l.own = p.generation := by
  simp only [World.stale, Bool.or_eq_true, decide_eq_true_eq, not_or, Bool.not_eq_true, not_not] at fresh
  exact fresh

theorem caught_sound (sound : w.page.Sound) (is : w.page.previews l.owner = some p) (error : Failure) :
    (w.caught l p error).page.Sound := by
  unfold caught
  split
  · exact sound
  · rename_i fresh
    have standing := (not_stale fresh).1
    cases error with
    | abort => exact sound.terminal is standing rfl rfl rfl rfl _ _
    | tooLarge => exact sound.terminal is standing rfl rfl rfl rfl _ _
    | other => exact sound.terminal is standing rfl rfl rfl rfl _ _

/-- The object URL is made for the bytes that were accepted. -/
theorem display_sound {page room : Page} {bytes : Bytes} {image : Image}
    (entered : Entered page w.page l.owner p room) (standing : p.disposed = false) (phase : p.phase = .decoding)
    (inspected : inspectImageBytes (some bytes) (some p.file.size) p.file.mediaType = .ok image) :
    (w.display l p bytes image).page.Sound := by
  have previews {q : Preview} : Function.update w.page.previews l.owner (some q) =
      Function.update room.previews l.owner (some q) := by rw [entered.previews]
  constructor
  case listed =>
    exact entered.sound.listed.put entered.is (by rfl) (by rfl) (by rfl) previews entered.controllers
  case resources =>
    refine entered.sound.resources.display entered.is entered.absent (by rfl) (by exact standing) (by exact phase)
      ?_ previews entered.memory entered.size (congrArg (· ++ _) entered.same.1) (by rfl) ?_ entered.same.2
    · exact congrArg (fun made : List Made => some made.length) entered.same.1
    · exact ⟨_, image, Function.update_self _ _ _, rfl, inspected⟩

theorem bodyRead_sound (sound : w.page.Sound) (is : w.page.previews l.owner = some p)
    (waits : l.own = p.generation → p.phase = .downloading) (bytes : Bytes) (blob : Bool) :
    (w.bodyRead l p bytes blob).page.Sound := by
  unfold bodyRead
  dsimp only
  split
  · exact sound.put is rfl rfl rfl rfl fun u holds => (sound.resources.standing ⟨is, holds⟩).2
  rename_i fresh
  obtain ⟨standing, current⟩ := not_stale fresh
  have downloading := waits current
  have urlless := sound.urlless is downloading
  split
  · exact sound.terminal is standing (by rfl) (by rfl) (by rfl) (by rfl) _ _
  rename_i image inspected
  split
  · exact sound.terminal is standing (by rfl) (by rfl) (by rfl) (by rfl) _ _
  rename_i after admits
  have decoding : reducePreview (reducePreview p.phase .complete) .valid = .decoding := by
    rw [downloading]
    rfl
  have sound' := sound.put is (q := { p with
    bytes := some bytes, controller := none, phase := reducePreview (reducePreview p.phase .complete) .valid })
    rfl rfl rfl rfl fun u holds => nomatch urlless.symm.trans holds
  obtain ⟨room, entered⟩ := sound'.admits (Function.update_self _ _ _) standing urlless admits
  have found := entered.is
  rw [← entered.previews] at found
  rw [found]
  dsimp only
  split
  · exact display_sound (w := w.setPage after) entered standing decoding inspected
  · have stays : World.stale l { p with
        bytes := some bytes, controller := none,
        phase := reducePreview (reducePreview p.phase .complete) .valid } ≠ true := fresh
    simp only [caught, stays]
    exact entered.terminal standing _ _

/-- The resources of the page, and every load in the state it left its preview in. -/
structure Accounted (w : World) : Prop where
  sound : w.page.Sound
  loads : ∀ {l stage}, w.loads l = some stage → w.page.Waits l stage

theorem Accounted.change {w' : World} {stage : Option Stage} (accounted : w.Accounted) (sound : w'.page.Sound)
    (others : ∀ other stage, other ≠ l → w.page.Waits other stage → w'.page.Waits other stage)
    (loads : w'.loads = Function.update w.loads l stage) (own : ∀ s, stage = some s → w'.page.Waits l s) :
    w'.Accounted where
  sound := sound
  loads {other s} waits := by
    rw [loads] at waits
    by_cases same : other = l
    · subst same
      rw [Function.update_self] at waits
      exact own s waits
    · rw [Function.update_of_ne same] at waits
      exact others other s same (accounted.loads waits)

/-- A stale load comes to an end, or goes on reading. -/
theorem Accounted.stale {w' : World} {stage : Option Stage} (accounted : w.Accounted) (sound : w'.page.Sound)
    (onward : Onward w.page w'.page) (loads : w'.loads = Function.update w.loads l stage)
    (own : ∀ s, stage = some s → w.page.Waits l s) : w'.Accounted :=
  accounted.change sound (fun _ _ _ waits => waits.onward onward) loads fun s is => (own s is).onward onward

theorem Accounted.current {w' : World} {stage : Option Stage} (accounted : w.Accounted)
    (is : w.page.previews l.owner = some p) (current : l.own = p.generation) (sound : w'.page.Sound)
    (beside : Beside l.owner w.page w'.page) (loads : w'.loads = Function.update w.loads l stage)
    (own : ∀ s, stage = some s → w'.page.Waits l s) : w'.Accounted :=
  accounted.change sound (fun _ _ different waits => waits.beside different is current beside) loads own

theorem caught_loads (error : Failure) : (w.caught l p error).loads = Function.update w.loads l none := by
  unfold caught
  split
  · rfl
  · cases error <;> rfl

theorem Accounted.caught (accounted : w.Accounted) (is : w.page.previews l.owner = some p) (error : Failure) :
    (w.caught l p error).Accounted := by
  have sound := caught_sound accounted.sound is error
  by_cases old : World.stale l p = true
  · have same : (w.caught l p error).page = w.page := by
      simp only [World.caught, old, if_true]
      rfl
    exact accounted.stale sound (.of_previews (by rw [same])) (caught_loads error) nofun
  · exact accounted.current is (not_stale old).2 sound (caught_beside is (.refl p) error) (caught_loads error) nofun

theorem Accounted.responded (accounted : w.Accounted) (is : w.page.previews l.owner = some p)
    (waits : w.page.Waits l .requesting) (response : Response) : (w.responded l p response).Accounted := by
  unfold World.responded
  split
  · exact accounted.caught is _
  split
  · exact accounted.caught is _
  split
  · exact accounted.caught is _
  split
  · exact accounted.caught is _
  · refine accounted.stale accounted.sound (Onward.refl _)
      (rfl : _ = Function.update w.loads l (some (.reading []))) ?_
    intro s is'
    cases is'
    exact waits

theorem Accounted.chunkRead {chunks : List Bytes} (accounted : w.Accounted) (is : w.page.previews l.owner = some p)
    (waits : w.page.Waits l (.reading chunks)) (value : Bytes) :
    (w.chunkRead l p (chunks ++ [value])).Accounted := by
  unfold World.chunkRead
  split
  · exact accounted.caught is _
  · have loads : (w.setLoad l (some (.reading (chunks ++ [value])))).loads = Function.update w.loads l _ := rfl
    refine accounted.stale
      (accounted.sound.put is rfl rfl rfl rfl fun u holds => (accounted.sound.resources.standing ⟨is, holds⟩).2)
      (onward_put is ⟨rfl, Nat.le_refl _, fun _ => ⟨rfl, rfl, rfl⟩⟩) loads ?_
    intro s is'
    cases is'
    exact waits

/-- After the body a load waits for the decoder or for nothing. -/
theorem bodyRead_loads (bytes : Bytes) (blob : Bool) :
    ∃ stage, (w.bodyRead l p bytes blob).loads = Function.update w.loads l stage ∧
      ∀ s, stage = some s → s.awaits = false := by
  have ended : ∀ s : Stage, none = some s → s.awaits = false := nofun
  unfold World.bodyRead
  dsimp only
  split
  · exact ⟨none, rfl, ended⟩
  split
  · exact ⟨none, rfl, ended⟩
  rename_i image inspected
  split
  · exact ⟨none, rfl, ended⟩
  split
  · exact ⟨none, rfl, ended⟩
  split
  · refine ⟨some (.decoding image.width image.height), rfl, fun s is => ?_⟩
    cases is
    rfl
  · exact ⟨none, caught_loads _, ended⟩

theorem Accounted.bodyRead {chunks : List Bytes} (accounted : w.Accounted) (is : w.page.previews l.owner = some p)
    (waits : w.page.Waits l (.reading chunks)) (bytes : Bytes) (blob : Bool) :
    (w.bodyRead l p bytes blob).Accounted := by
  obtain ⟨q, is', earlier, downloading⟩ := waits
  cases is.symm.trans is'
  have sound := bodyRead_sound accounted.sound is (fun current => downloading current rfl) bytes blob
  obtain ⟨stage, loads, ended⟩ := bodyRead_loads (w := w) (l := l) (p := p) bytes blob
  by_cases old : World.stale l p = true
  · have still : World.stale l { p with bytes := some bytes } = true := old
    have same : w.bodyRead l p bytes blob = (w.setPage (w.page.put l.owner { p with bytes := some bytes })).setLoad l none := by
      simp only [World.bodyRead, still, if_true]
    rw [same] at sound ⊢
    exact accounted.stale sound (onward_put is ⟨rfl, Nat.le_refl _, fun _ => ⟨rfl, rfl, rfl⟩⟩) rfl nofun
  · have beside := bodyRead_beside is bytes blob
    refine accounted.current is (not_stale old).2 sound beside loads fun s same => ?_
    obtain ⟨r, found, later, -⟩ := beside is
    refine ⟨r, found, Nat.le_trans earlier later.generation, fun _ awaits => ?_⟩
    cases (ended s same).symm.trans awaits

theorem decoded_sound (sound : w.page.Sound) (is : w.page.previews l.owner = some p)
    (width height naturalWidth naturalHeight : Nat) :
    (w.decoded l p width height naturalWidth naturalHeight).page.Sound := by
  unfold World.decoded
  split
  · exact sound
  rename_i fresh
  simp only [Bool.or_eq_true, decide_eq_true_eq, not_or, not_not] at fresh
  obtain ⟨fresh, decoding⟩ := fresh
  split
  · exact sound.terminal is (not_stale fresh).1 rfl rfl rfl rfl _ _
  · have visible : reducePreview p.phase .decoded = .visible := by
      rw [decoding]
      rfl
    simp only [visible]
    obtain ⟨load, root, rendered⟩ := Preview.render_spec (Preview.setStatus { p with phase := .visible }
      ("Image loaded: " ++ toString width ++ " by " ++ toString height ++ " pixels.")) true
    rw [rendered]
    exact sound.put is rfl rfl rfl rfl fun _ _ => .inr rfl

theorem decoded_loads (width height naturalWidth naturalHeight : Nat) :
    (w.decoded l p width height naturalWidth naturalHeight).loads = Function.update w.loads l none := by
  unfold World.decoded
  split
  · rfl
  · split <;> rfl

theorem Accounted.decoded (accounted : w.Accounted) (is : w.page.previews l.owner = some p)
    (width height naturalWidth naturalHeight : Nat) :
    (w.decoded l p width height naturalWidth naturalHeight).Accounted := by
  have sound := decoded_sound accounted.sound is width height naturalWidth naturalHeight
  have loads := decoded_loads (w := w) (l := l) (p := p) width height naturalWidth naturalHeight
  by_cases old : World.stale l p = true
  · have same : w.decoded l p width height naturalWidth naturalHeight = w.setLoad l none := by
      simp only [World.decoded, old, Bool.true_or, if_true]
    exact accounted.stale sound (.of_previews (by rw [same]; rfl)) loads nofun
  · exact accounted.current is (not_stale old).2 sound (decoded_beside is _ _ _ _) loads nofun

theorem Accounted.loadEvent (accounted : w.Accounted) (event : LoadEvent) : (w.loadEvent l event).Accounted := by
  unfold World.loadEvent
  split
  · rename_i stage p found is
    have waits := accounted.loads found
    split
    · exact accounted.responded is waits _
    · exact accounted.chunkRead is waits _
    · exact accounted.bodyRead is waits _ _
    · exact accounted.decoded is _ _ _ _
    · exact accounted.caught is _
    · exact accounted
  · exact accounted

/-- What the page does by itself. -/
theorem Accounted.pageOnly {page : Page} (accounted : w.Accounted) (sound : page.Sound)
    (onward : Onward w.page page) :
    (w.setPage page).Accounted where
  sound := sound
  loads waits := (accounted.loads waits).onward onward

theorem Accounted.clicked {h : Nat} {handler : Preview → World} (accounted : w.Accounted)
    (handled : ∀ p, w.page.previews h = some p → p.disposed = false → (handler p).Accounted) :
    (w.clicked h handler).Accounted := by
  obtain same | ⟨p, is, listening, clicked⟩ := clicked_spec (w := w) h handler
  · rwa [same]
  · rw [clicked]
    exact handled p is (accounted.sound.listed.listening is listening)

theorem Accounted.start {h : Nat} (accounted : w.Accounted) (is : w.page.previews h = some p) :
    (w.start h p).Accounted := by
  obtain same | ⟨phase, standing, load, root, starts⟩ := start_spec (w := w) h p
  · rwa [same]
  rw [starts]
  have urlless : p.objectUrl = none := by
    cases url : p.objectUrl with
    | none => rfl
    | some u =>
      have held := (accounted.sound.resources.standing ⟨is, url⟩).2
      obtain is | is | is | is := phase <;> rw [is] at held <;> obtain held | held := held <;> cases held
  have onward : Onward w.page (w.page.put h { p with
      phase := .downloading, status := loadingText 0 p.file.size, load, root,
      generation := p.generation + 1, controller := some (p.generation + 1) }) := onward_put is (.bump rfl rfl)
  have loads : (Function.update w.loads { owner := h, own := p.generation + 1 } (some .requesting) : Load → _) =
    Function.update w.loads _ _ := rfl
  refine accounted.change ?_ (fun _ _ _ waits => waits.onward onward) loads fun s same => ?_
  · exact accounted.sound.put is rfl rfl rfl rfl fun u holds => nomatch urlless.symm.trans holds
  · exact ⟨_, Function.update_self _ _ _, Nat.le_refl _, fun _ _ => rfl⟩

theorem Accounted.pageEvent (accounted : w.Accounted) (event : PageEvent) : (w.pageEvent event).Accounted := by
  cases event with
  | register h file download =>
    simp only [World.pageEvent]
    split
    · have fresh := Option.isNone_iff_eq_none.mp (by assumption)
      exact accounted.pageOnly (accounted.sound.register fresh file download) (register_onward fresh file download)
    · exact accounted
  | remove id => exact accounted.pageOnly (accounted.sound.remove id).1 (remove_onward id)
  | unavailable id => exact accounted.pageOnly (accounted.sound.unavailable id) (unavailable_onward id)
  | clear => exact accounted.pageOnly accounted.sound.clear clear_onward
  | start h => exact accounted.clicked fun p is _ => accounted.start is
  | cancel h =>
    refine accounted.clicked fun p is standing => accounted.pageOnly
      (accounted.sound.terminal is standing ?_ ?_ ?_ ?_ _ _) (terminal_onward is ?_ ?_ _ _) <;> rfl
  | unload h =>
    refine accounted.clicked fun p is standing => accounted.pageOnly
      (accounted.sound.terminal is standing ?_ ?_ ?_ ?_ _ _) (terminal_onward is ?_ ?_ _ _) <;> rfl
  | touch h =>
    refine accounted.clicked fun p is _ => accounted.pageOnly (accounted.sound.touch p) (.of_previews ?_)
    unfold Page.touch
    split <;> rfl

theorem Accounted.next (accounted : w.Accounted) (event : Event) : (w.next event).Accounted := by
  cases event with
  | page event => exact accounted.pageEvent event
  | load l event => exact accounted.loadEvent event

theorem empty_accounted : empty.Accounted where
  sound := {
    listed := {
      ids := fun id h => by
        rw [show empty.page.controllers.lookup id = none from rfl]
        exact iff_of_false nofun fun ⟨p, is, _⟩ => nomatch is
      listening := nofun }
    resources := {
      entries := fun id => iff_of_false (AList.notMem_empty id) fun ⟨_, _, _, held, _⟩ => nomatch held.1
      few := Nat.zero_le _
      standing := fun held => nomatch held.1
      owner := fun held => nomatch held.1
      live := fun u => iff_of_false (fun held => Nat.not_lt_zero _ held.1) fun ⟨_, _, held⟩ => nomatch held.1
      once := List.nodup_nil
      known := nofun
      inspected := nofun } }
  loads := nofun

theorem accounted (reached : machine.Reachable w) : w.Accounted := by
  refine reached.invariant ?_ ?_
  · rintro _ rfl
    exact empty_accounted
  · rintro w event _ _ accounted rfl
    exact accounted.next event

end World

namespace Page
variable {page : Page}

theorem remove_made (id : FileId) : (page.remove id).made = page.made := by
  unfold remove
  split
  · rfl
  · rename_i h p found
    simp only [unregister, removeRoot, cleanup]
    split <;> rfl

theorem removes_made (ids : List FileId) : (ids.foldl remove page).made = page.made := by
  induction ids generalizing page with
  | nil => rfl
  | cons id ids ih => exact ih.trans (remove_made id)

theorem unavailable_made (id : FileId) : (page.unavailable id).made = page.made := by
  unfold unavailable
  split
  · rfl
  · simp only [unregister, unavailablePreview]
    split <;> rfl

theorem admit_made {id : FileId} {bytes pixels : Nat} {after : Page}
    (admitted : page.admitEntry id bytes pixels = some after) : after.made = page.made := by
  unfold admitEntry at admitted
  split at admitted
  · cases admitted
  · cases admitted
    exact makeRoom_made bytes pixels

end Page

namespace World
open Page
variable {w : World} {l : Load} {p : Preview}

theorem pageEvent_made (event : PageEvent) : (w.pageEvent event).page.made = w.page.made := by
  have click {h : Nat} {handler : Preview → World} (handled : ∀ p, (handler p).page.made = w.page.made) :
      (w.clicked h handler).page.made = w.page.made := by
    obtain same | ⟨p, -, -, clicked⟩ := clicked_spec (w := w) h handler
    · rw [same]
    · rw [clicked]
      exact handled p
  cases event with
  | register h file download =>
    simp only [pageEvent]
    split
    · exact remove_made file.serverFileId
    · rfl
  | remove id => exact remove_made id
  | unavailable id => exact unavailable_made id
  | clear => exact removes_made w.page.controllers.keys
  | start h =>
    refine click fun p => ?_
    unfold start
    split <;> rfl
  | cancel h => exact click fun _ => rfl
  | unload h => exact click fun _ => rfl
  | touch h =>
    refine click fun p => ?_
    simp only [setPage, Page.touch]
    split <;> rfl

theorem caught_made (error : Failure) : (w.caught l p error).page.made = w.page.made := by
  unfold caught
  split
  · rfl
  · cases error <;> rfl

/-- What an object URL is made for: the bytes that a load has read to their end, and that the
inspection accepts for the file of its preview. -/
structure MadeFor (w : World) (event : Event) (made : Made) : Prop where
  event : event = .load made.load (.done true)
  read : ∃ chunks, w.loads made.load = some (.reading chunks) ∧ made.bytes = chunks.flatten
  inspected : w.page.Inspected made

theorem bodyRead_made (is : w.page.previews l.owner = some p) (bytes : Bytes) (blob : Bool) :
    (w.bodyRead l p bytes blob).page.made = w.page.made ∨
      ∃ new : Made, (w.bodyRead l p bytes blob).page.made = w.page.made ++ [new] ∧ blob = true ∧ new.load = l ∧
        new.bytes = bytes ∧ w.page.Inspected new := by
  unfold bodyRead
  dsimp only
  split
  · exact .inl rfl
  split
  · exact .inl rfl
  rename_i image inspected
  split
  · exact .inl rfl
  rename_i after admits
  have made := admit_made admits
  split
  · exact .inl made
  split
  · rename_i blob
    refine .inr ⟨{ load := l, bytes, type := image.format }, ?_, blob, rfl, rfl, p, image, is, rfl, inspected⟩
    exact congrArg (· ++ _) made
  · exact .inl ((caught_made _).trans made)

theorem loadEvent_made (event : LoadEvent) :
    (w.loadEvent l event).page.made = w.page.made ∨
      ∃ new, (w.loadEvent l event).page.made = w.page.made ++ [new] ∧ w.MadeFor (.load l event) new := by
  unfold loadEvent
  split
  · rename_i stage p waits is
    split
    · rename_i response
      left
      unfold responded
      split
      · exact caught_made _
      split
      · exact caught_made _
      split
      · exact caught_made _
      split
      · exact caught_made _
      · rfl
    · left
      unfold chunkRead
      split
      · exact caught_made _
      · rfl
    · rename_i chunks blob
      obtain same | ⟨new, made, rfl, rfl, read, inspected⟩ := bodyRead_made is chunks.flatten blob
      · exact .inl same
      · exact .inr ⟨new, made, rfl, ⟨chunks, waits, read⟩, inspected⟩
    · left
      unfold decoded
      split
      · rfl
      · split <;> rfl
    · exact .inl (caught_made _)
    · exact .inl rfl
  · exact .inl rfl

theorem next_made (event : Event) :
    (w.next event).page.made = w.page.made ∨
      ∃ new, (w.next event).page.made = w.page.made ++ [new] ∧ w.MadeFor event new := by
  cases event with
  | page event => exact .inl (pageEvent_made event)
  | load l event => exact loadEvent_made event

end World

namespace Page
variable {page : Page}

/-- The accounts of a page: the entries of the memory are the controllers with a live URL, and a
URL is revoked, once, as soon as its owner is without an entry or holds another one. -/
structure Exact (page : Page) : Prop where
  entries : ∀ id, id ∈ page.memory.entries ↔
    ∃ h p u, page.controllers.lookup id = some h ∧ page.Holds h p u
  held : ∀ {h p u}, page.Holds h p u →
    page.controllers.lookup p.file.serverFileId = some h ∧ u < page.made.length ∧ u ∉ page.revoked
  revoked : ∀ {u made}, page.made[u]? = some made →
    (u ∉ page.revoked ↔ ∃ p, page.Holds made.load.owner p u ∧ p.file.serverFileId ∈ page.memory.entries)
  once : page.revoked.Nodup
  three : ∀ urls : List Url, urls.Nodup → (∀ u ∈ urls, u < page.made.length ∧ u ∉ page.revoked) → urls.length ≤ 3
  inspected : ∀ made ∈ page.made, page.Inspected made

theorem Sound.three (sound : page.Sound) (urls : List Url) (distinct : urls.Nodup)
    (live : ∀ u ∈ urls, u < page.made.length ∧ u ∉ page.revoked) : urls.length ≤ 3 := by
  -- Every live URL belongs to an entry, and no two to the same one.
  let belongs (u : Url) (id : FileId) : Prop := ∃ h p, page.Holds h p u ∧ p.file.serverFileId = id
  have few : urls.toFinset.card ≤ page.memory.entries.keys.toFinset.card := by
    apply Finset.card_le_card_of_forall_subsingleton belongs
    · intro u member
      obtain ⟨h, p, held⟩ := (sound.resources.live u).mp (live u (List.mem_toFinset.mp member))
      refine ⟨p.file.serverFileId, List.mem_toFinset.mpr (AList.mem_keys.mp ?_), h, p, held, rfl⟩
      exact (sound.resources.entries _).mpr ⟨h, p, u, held, rfl⟩
    · rintro id - u ⟨-, h, p, held, rfl⟩ v ⟨-, k, q, held', same⟩
      have handle := sound.listed.unique held.1 held'.1 (sound.resources.standing held).1
        (sound.resources.standing held').1 same
      subst handle
      cases held.1.symm.trans held'.1
      exact Option.some.inj (held.2.symm.trans held'.2)
  rw [List.toFinset_card_of_nodup distinct, List.toFinset_card_of_nodup page.memory.entries.keys_nodup,
    length_keys] at few
  exact Nat.le_trans few sound.resources.few

theorem Sound.exact (sound : page.Sound) : page.Exact := by
  have res := sound.resources
  have registered {h : Nat} {p : Preview} {u : Url} (held : page.Holds h p u) :
      page.controllers.lookup p.file.serverFileId = some h :=
    (registered_spec (sound.listed.registered held.1 (res.standing held).1)).1
  constructor
  case entries =>
    intro id
    rw [res.entries]
    constructor
    · rintro ⟨h, p, u, held, rfl⟩
      exact ⟨h, p, u, registered held, held⟩
    · rintro ⟨h, p, u, listed, held⟩
      obtain ⟨q, is, named, -⟩ := (sound.listed.ids id h).mp listed
      cases is.symm.trans held.1
      exact ⟨h, p, u, held, named⟩
  case held =>
    intro h p u held
    exact ⟨registered held, (res.live u).mpr ⟨h, p, held⟩⟩
  case revoked =>
    intro u made found
    constructor
    · intro unrevoked
      obtain ⟨h, p, held⟩ := (res.live u).mp ⟨(List.getElem?_eq_some_iff.mp found).1, unrevoked⟩
      obtain ⟨made', found', rfl⟩ := res.owner held
      cases found.symm.trans found'
      exact ⟨p, held, (res.entries _).mpr ⟨_, p, u, held, rfl⟩⟩
    · rintro ⟨p, held, -⟩
      exact ((res.live u).mpr ⟨_, p, held⟩).2
  case once => exact res.once
  case three => exact sound.three
  case inspected => exact res.inspected

end Page

namespace World
open Page
variable {w : World}

/-- In every state of a page the accounts are exact, and a URL is made at the end of a load's body
only, of bytes accepted there. -/
theorem preview_resources (reached : machine.Reachable w) :
    w.page.Exact ∧ ∀ event, (w.next event).page.made = w.page.made ∨
      ∃ new, (w.next event).page.made = w.page.made ++ [new] ∧ w.MadeFor event new :=
  ⟨(accounted reached).sound.exact, next_made⟩

/-- A PNG of one pixel is loaded. -/
def loadedDot : List Event :=
  [.page (.register 0 { serverFileId := 41, name := "dot.png", size := dot.length, mediaType := some "image/png" } none),
   .page (.start 0), .load ⟨0, 1⟩ (.responded { ok := true, declaredLength := some (some dot.length), body := true }),
   .load ⟨0, 1⟩ (.chunk dot), .load ⟨0, 1⟩ (.done true)]

theorem preview_resources_dot :
    (after loadedDot).page.Exact ∧ ∀ event, ((after loadedDot).next event).page.made = (after loadedDot).page.made ∨
      ∃ new, ((after loadedDot).next event).page.made = (after loadedDot).page.made ++ [new] ∧
        (after loadedDot).MadeFor event new :=
  preview_resources (reachable_after loadedDot)

end World
end Conspire.Images
