import Conspire.Images.Loading

/-! Generations only grow, and what the page itself does to a preview (a click, an eviction, the
registry) leaves it as it is or counts its generation up. -/
namespace Conspire.Images
open Transition

/-- Another generation of a preview, or the same one in the same phase. -/
structure Preview.Onward (p q : Preview) : Prop where
  file : q.file = p.file
  generation : p.generation ≤ q.generation
  same : q.generation = p.generation →
    q.phase = p.phase ∧ q.objectUrl = p.objectUrl ∧ q.disposed = p.disposed

structure Preview.Later (p q : Preview) : Prop where
  file : q.file = p.file
  generation : p.generation ≤ q.generation

theorem Preview.Onward.refl (p : Preview) : p.Onward p := ⟨rfl, Nat.le_refl _, fun _ => ⟨rfl, rfl, rfl⟩⟩

theorem Preview.Onward.trans {p q r : Preview} (first : p.Onward q) (second : q.Onward r) : p.Onward r where
  file := second.file.trans first.file
  generation := Nat.le_trans first.generation second.generation
  same same := by
    have before := first.generation
    have after := second.generation
    obtain ⟨phase, url, disposed⟩ := first.same (by omega)
    obtain ⟨phase', url', disposed'⟩ := second.same (by omega)
    exact ⟨phase'.trans phase, url'.trans url, disposed'.trans disposed⟩

theorem Preview.Onward.later {p q : Preview} (onward : p.Onward q) : p.Later q :=
  ⟨onward.file, onward.generation⟩

theorem Preview.Onward.bump {p q : Preview} (file : q.file = p.file)
    (generation : q.generation = p.generation + 1) : p.Onward q :=
  ⟨file, by omega, fun same => by omega⟩

theorem Preview.Later.refl (p : Preview) : p.Later p := ⟨rfl, Nat.le_refl _⟩

theorem Preview.Later.trans {p q r : Preview} (first : p.Later q) (second : q.Later r) : p.Later r :=
  ⟨second.file.trans first.file, Nat.le_trans first.generation second.generation⟩

/-- `render` changes what is shown only. -/
theorem Preview.render_spec (p : Preview) (image : Bool) :
    ∃ load root, p.render image = { p with load, root } := by
  unfold Preview.render Preview.rendered
  split
  case h_4 => split <;> exact ⟨_, _, rfl⟩
  all_goals exact ⟨_, _, rfl⟩

namespace Page
variable {page : Page}

/-- Every preview of the page is still there, and related to what it was. -/
def Moves (R : Nat → Preview → Preview → Prop) (old new : Page) : Prop :=
  ∀ ⦃h p⦄, old.previews h = some p → ∃ q, new.previews h = some q ∧ R h p q

variable {R S : Nat → Preview → Preview → Prop}

theorem Moves.trans {a b c : Page} (compose : ∀ {h p q r}, R h p q → R h q r → R h p r) (first : Moves R a b)
    (second : Moves R b c) : Moves R a c := by
  intro h p is
  obtain ⟨q, is, related⟩ := first is
  obtain ⟨r, is, related'⟩ := second is
  exact ⟨r, is, compose related related'⟩

theorem Moves.mono {a b : Page} (weaker : ∀ {h p q}, R h p q → S h p q) (moves : Moves R a b) : Moves S a b := by
  intro h p is
  obtain ⟨q, is, related⟩ := moves is
  exact ⟨q, is, weaker related⟩

theorem moves_put {h : Nat} {p q : Preview} (refl : ∀ k p, R k p p) (is : page.previews h = some p)
    (related : R h p q) : Moves R page (page.put h q) := by
  intro k r is'
  by_cases same : k = h
  · subst same
    obtain rfl := Option.some.inj (is.symm.trans is')
    exact ⟨q, Function.update_self _ _ _, related⟩
  · exact ⟨r, (Function.update_of_ne same _ _).trans is', refl k r⟩

abbrev Onward := Moves fun _ => Preview.Onward

/-- The preview of a load may go on in its generation, the other ones do not. -/
abbrev Beside (owner : Nat) := Moves fun h p q => p.Later q ∧ (h ≠ owner → p.Onward q)

theorem Onward.of_previews {a b : Page} (same : b.previews = a.previews) : Onward a b :=
  fun _ p is => ⟨p, same ▸ is, .refl p⟩

theorem Onward.refl (a : Page) : Onward a a := .of_previews rfl

theorem Onward.trans {a b c : Page} (first : Onward a b) (second : Onward b c) : Onward a c :=
  Moves.trans Preview.Onward.trans first second

theorem Onward.beside {a b : Page} (onward : Onward a b) (owner : Nat) : Beside owner a b :=
  onward.mono fun related => ⟨related.later, fun _ => related⟩

theorem Beside.refl (a : Page) (owner : Nat) : Beside owner a a := (Onward.refl a).beside owner

theorem Beside.trans {a b c : Page} {owner : Nat} (first : Beside owner a b) (second : Beside owner b c) :
    Beside owner a c :=
  Moves.trans (fun ⟨later, onward⟩ ⟨later', onward'⟩ =>
    ⟨later.trans later', fun other => (onward other).trans (onward' other)⟩) first second

theorem onward_put {h : Nat} {p q : Preview} (is : page.previews h = some p) (onward : p.Onward q) :
    Onward page (page.put h q) :=
  moves_put (fun _ => Preview.Onward.refl) is onward

theorem beside_put {h : Nat} {p q : Preview} (is : page.previews h = some p) (later : p.Later q) :
    Beside h page (page.put h q) :=
  moves_put (fun _ p => ⟨.refl p, fun _ => .refl p⟩) is ⟨later, fun other => absurd rfl other⟩

theorem terminal_spec (page : Page) (h : Nat) (p : Preview) (next : Phase) (text : String) :
    ∃ load root, page.terminalState h p next text =
      (page.free p).put h { p.released with phase := next, status := text, load, root } := by
  obtain ⟨load, root, rendered⟩ := ((({ p with phase := next } : Preview).released).setStatus text).render_spec false
  exact ⟨load, root, by rw [terminalState, rendered]; rfl⟩

theorem terminal_onward {h : Nat} {p q : Preview} (is : page.previews h = some p) (file : q.file = p.file)
    (generation : q.generation = p.generation + 1) (next : Phase) (text : String) :
    Onward page (page.terminalState h q next text) := by
  obtain ⟨load, root, spec⟩ := terminal_spec page h q next text
  rw [spec]
  exact Onward.trans (.of_previews (b := page.free q) rfl) (onward_put is (.bump file generation))

theorem terminal_beside {h : Nat} {p q : Preview} (is : page.previews h = some p) (later : p.Later q)
    (next : Phase) (text : String) : Beside h page (page.terminalState h q next text) := by
  obtain ⟨load, root, spec⟩ := terminal_spec page h q next text
  rw [spec]
  apply Beside.trans ((Onward.of_previews (b := page.free q) rfl).beside h)
  exact beside_put is ⟨later.file, later.generation⟩

theorem evict_onward (h : Nat) : Onward page (page.evict h) := by
  unfold evict
  split
  · exact .refl page
  · rename_i p is
    refine terminal_onward is ?_ ?_ _ _ <;> rfl

theorem onEvict_onward (id : FileId) : Onward page (page.onEvict id) := by
  unfold onEvict
  split
  · exact .refl page
  · exact evict_onward _

theorem makeRoom_onward (bytes pixels : Nat) : Onward page (page.makeRoom bytes pixels) := by
  fun_induction page.makeRoom bytes pixels with
  | case1 page crowded none => exact .refl page
  | case2 page crowded id is ih =>
    exact Onward.trans (.of_previews (b := page.dropEntry id) rfl) (Onward.trans (onEvict_onward id) ih)
  | case3 page room => exact .refl page

theorem admit_onward {id : FileId} {bytes pixels : Nat} {after : Page}
    (admitted : page.admitEntry id bytes pixels = some after) : Onward page after := by
  unfold admitEntry at admitted
  split at admitted
  · cases admitted
  · cases admitted
    exact Onward.trans (.of_previews (b := page.dropEntry id) rfl)
      (Onward.trans (makeRoom_onward bytes pixels) (.of_previews rfl))

theorem cleanup_onward {h : Nat} {p : Preview} (is : page.previews h = some p) : Onward page (page.cleanup h p) := by
  unfold cleanup
  split
  · exact .refl page
  · exact Onward.trans (.of_previews (b := page.free p) rfl) (onward_put is (.bump rfl rfl))

theorem unavailablePreview_onward {h : Nat} {p : Preview} (is : page.previews h = some p) :
    Onward page (page.unavailablePreview h p) := by
  unfold unavailablePreview
  split
  · exact .refl page
  · refine Onward.trans (.of_previews (b := page.free p) rfl) (onward_put is ?_)
    obtain ⟨load, root, rendered⟩ := Preview.render_spec _ false
    rw [rendered]
    exact .bump rfl rfl

theorem removeRoot_onward (h : Nat) : Onward page (page.removeRoot h) := by
  intro k p is
  by_cases same : k = h
  · subst same
    refine ⟨p.detach, ?_, rfl, Nat.le_refl _, fun _ => ⟨rfl, rfl, rfl⟩⟩
    simp only [removeRoot, Function.update_self, is, Option.map_some]
  · exact ⟨p, (Function.update_of_ne same _ _).trans is, .refl p⟩

theorem registered_spec {id : FileId} {h : Nat} {p : Preview} (is : page.registered id = some (h, p)) :
    page.controllers.lookup id = some h ∧ page.previews h = some p := by
  simp only [registered, Option.bind_eq_bind, Option.bind_eq_some_iff, Option.pure_def, Option.some.injEq,
    Prod.mk.injEq] at is
  obtain ⟨k, listed, q, found, rfl, rfl⟩ := is
  exact ⟨listed, found⟩

theorem remove_onward (id : FileId) : Onward page (page.remove id) := by
  unfold remove
  split
  · exact .of_previews rfl
  · rename_i h p is
    exact Onward.trans (cleanup_onward (registered_spec is).2)
      (Onward.trans (removeRoot_onward h) (.of_previews rfl))

theorem removes_onward (ids : List FileId) : Onward page (ids.foldl remove page) := by
  induction ids generalizing page with
  | nil => exact .refl page
  | cons id ids ih => exact Onward.trans (remove_onward id) ih

theorem clear_onward : Onward page page.clear :=
  Onward.trans (removes_onward _) (.of_previews rfl)

theorem unavailable_onward (id : FileId) : Onward page (page.unavailable id) := by
  unfold unavailable
  split
  · exact .refl page
  · rename_i h p is
    exact Onward.trans (unavailablePreview_onward (registered_spec is).2) (.of_previews rfl)

theorem register_onward {h : Nat} (fresh : page.previews h = none) (file : PreviewFile) (download : Option Link) :
    Onward page (page.register h file download) := by
  intro k p is
  have other : k ≠ h := by
    rintro rfl
    cases fresh.symm.trans is
  obtain ⟨q, is, onward⟩ := remove_onward file.serverFileId is
  refine ⟨q, ?_, onward⟩
  simp only [register, put, Function.update_of_ne other, is]

end Page

namespace World
open Page
variable {w : World}

theorem clicked_spec (h : Nat) (handler : Preview → World) :
    w.clicked h handler = w ∨
      ∃ p, w.page.previews h = some p ∧ p.listening = true ∧ w.clicked h handler = handler p := by
  unfold clicked
  split
  · exact .inl rfl
  · rename_i p is
    split
    · exact .inr ⟨p, is, by assumption, rfl⟩
    · exact .inl rfl

/-- Where a load starts from, and the preview it leaves. -/
theorem start_spec (h : Nat) (p : Preview) :
    w.start h p = w ∨
      ((p.phase = .offered ∨ p.phase = .evicted ∨ p.phase = .cancelled ∨ p.phase = .retryableError) ∧
        p.disposed = false ∧ ∃ load root, w.start h p =
          (w.setPage (w.page.put h { p with
            phase := .downloading, status := loadingText 0 p.file.size, load, root,
            generation := p.generation + 1, controller := some (p.generation + 1) })).setLoad
              { owner := h, own := p.generation + 1 } (some .requesting)) := by
  unfold start
  split
  · exact .inl rfl
  · rename_i starts
    simp only [Bool.or_eq_true, decide_eq_true_eq, not_or, Bool.not_eq_true] at starts
    obtain ⟨⟨standing, -⟩, offered⟩ := starts
    have phase := not_not.mp offered
    simp only [List.mem_cons, List.not_mem_nil, or_false] at phase
    have downloading : reducePreview (reducePreview p.phase .load) .start = .downloading := by
      obtain is | is | is | is := phase <;> rw [is] <;> rfl
    refine .inr ⟨phase, standing, ?_⟩
    obtain ⟨load, root, rendered⟩ := Preview.render_spec
      (({ p with phase := .downloading } : Preview).setStatus (loadingText 0 p.file.size)) false
    refine ⟨load, root, ?_⟩
    simp only [downloading]
    rw [rendered]
    rfl

theorem pageEvent_onward (event : PageEvent) : Onward w.page (w.pageEvent event).page := by
  cases event with
  | register h file download =>
    simp only [pageEvent]
    split
    · exact register_onward (Option.isNone_iff_eq_none.mp (by assumption)) file download
    · exact .refl _
  | remove id => exact remove_onward id
  | unavailable id => exact unavailable_onward id
  | clear => exact clear_onward
  | start h =>
    obtain same | ⟨p, is, -, clicked⟩ := clicked_spec (w := w) h fun p => w.start h p
    · exact .of_previews (congrArg (fun w => w.page.previews) same)
    · rw [pageEvent, clicked]
      obtain same | ⟨-, -, load, root, starts⟩ := start_spec (w := w) h p
      · exact .of_previews (congrArg (fun w => w.page.previews) same)
      · rw [starts]
        exact onward_put is (.bump rfl rfl)
  | cancel h =>
    obtain same | ⟨p, is, -, clicked⟩ := clicked_spec (w := w) h fun p => w.setPage (w.page.cancelLoad h p)
    · exact .of_previews (congrArg (fun w => w.page.previews) same)
    · rw [pageEvent, clicked]
      refine terminal_onward is ?_ ?_ _ _ <;> rfl
  | unload h =>
    obtain same | ⟨p, is, -, clicked⟩ := clicked_spec (w := w) h fun p => w.setPage (w.page.unloadImage h p)
    · exact .of_previews (congrArg (fun w => w.page.previews) same)
    · rw [pageEvent, clicked]
      refine terminal_onward is ?_ ?_ _ _ <;> rfl
  | touch h =>
    obtain same | ⟨p, is, -, clicked⟩ := clicked_spec (w := w) h fun p => w.setPage (w.page.touch p)
    · exact .of_previews (congrArg (fun w => w.page.previews) same)
    · rw [pageEvent, clicked]
      apply Onward.of_previews
      simp only [setPage, Page.touch]
      split <;> rfl

variable {l : Load}

theorem finish_beside {p q : Preview} (is : w.page.previews l.owner = some p) (later : p.Later q)
    (next : Phase) (text : String) : Beside l.owner w.page (w.finish l q next text).page :=
  terminal_beside is later next text

theorem caught_beside {p q : Preview} (is : w.page.previews l.owner = some p) (later : p.Later q)
    (error : Failure) : Beside l.owner w.page (w.caught l q error).page := by
  unfold caught
  split
  · exact .refl _ _
  · cases error with
    | abort => exact finish_beside is later _ _
    | tooLarge => exact finish_beside is later _ _
    | other => exact finish_beside is later _ _

theorem responded_beside {p : Preview} (is : w.page.previews l.owner = some p) (response : Response) :
    Beside l.owner w.page (w.responded l p response).page := by
  unfold responded
  split
  · exact caught_beside is (.refl p) _
  split
  · exact caught_beside is (.refl p) _
  split
  · exact caught_beside is (.refl p) _
  split
  · exact caught_beside is (.refl p) _
  · exact .refl _ _

theorem chunkRead_beside {p : Preview} (is : w.page.previews l.owner = some p) (chunks : List Bytes) :
    Beside l.owner w.page (w.chunkRead l p chunks).page := by
  unfold chunkRead
  split
  · exact caught_beside is (.refl p) _
  · exact beside_put is ⟨rfl, Nat.le_refl _⟩

theorem display_beside {p : Preview} (is : w.page.previews l.owner = some p) (bytes : Bytes) (image : Image) :
    Beside l.owner w.page (w.display l p bytes image).page := by
  intro h q found
  obtain ⟨r, found, later⟩ := beside_put is (q := { p with
    objectUrl := some w.page.made.length, bytes := none,
    imageElement := some { alt := if p.file.name = "" then "Shared image" else "Shared image: " ++ p.file.name,
                           width := image.width, height := image.height, src := w.page.made.length } })
    ⟨rfl, Nat.le_refl _⟩ found
  exact ⟨r, found, later⟩

theorem bodyRead_beside {p : Preview} (is : w.page.previews l.owner = some p) (bytes : Bytes) (blob : Bool) :
    Beside l.owner w.page (w.bodyRead l p bytes blob).page := by
  unfold bodyRead
  dsimp only
  split
  · exact beside_put is ⟨rfl, Nat.le_refl _⟩
  split
  · exact finish_beside is (by exact ⟨rfl, Nat.le_refl _⟩) _ _
  split
  · exact finish_beside is (by exact ⟨rfl, Nat.le_refl _⟩) _ _
  · rename_i after admitted
    have before : Beside l.owner w.page after :=
      Beside.trans (beside_put is (by exact ⟨rfl, Nat.le_refl _⟩)) ((admit_onward admitted).beside _)
    split
    · exact before
    · rename_i q found
      split
      · exact before.trans (display_beside (w := w.setPage after) found bytes _)
      · exact before.trans (caught_beside (w := w.setPage after) found (.refl q) _)

theorem decoded_beside {p : Preview} (is : w.page.previews l.owner = some p)
    (width height naturalWidth naturalHeight : Nat) :
    Beside l.owner w.page (w.decoded l p width height naturalWidth naturalHeight).page := by
  unfold decoded
  split
  · exact .refl _ _
  split
  · exact finish_beside is (.refl p) _ _
  · refine beside_put is ?_
    obtain ⟨load, root, rendered⟩ := Preview.render_spec _ true
    rw [rendered]
    exact ⟨rfl, Nat.le_refl _⟩

theorem loadEvent_beside (event : LoadEvent) : Beside l.owner w.page (w.loadEvent l event).page := by
  unfold loadEvent
  split
  · rename_i stage p waits is
    split
    · exact responded_beside is _
    · exact chunkRead_beside is _
    · exact bodyRead_beside is _ _
    · exact decoded_beside is _ _ _ _
    · exact caught_beside is (.refl p) _
    · exact .refl _ _
  · exact .refl _ _

theorem next_later (event : Event) : Moves (fun _ => Preview.Later) w.page (w.next event).page := by
  cases event with
  | page event => exact (pageEvent_onward event).mono Preview.Onward.later
  | load l event => exact (loadEvent_beside event).mono And.left

end World
end Conspire.Images
