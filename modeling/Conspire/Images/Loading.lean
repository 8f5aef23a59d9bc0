import Conspire.Images.Preview
import Conspire.Library.Machine

/-! The loads of previews and the events of a page (`start` and `read` of
`createImagePreviewController`, `PreviewMemory.admit`). A load waits for the response, for the
next chunk or for the decoder, and takes what comes even when its fetch has been aborted. -/
namespace Conspire.Images
open Octets Transition

theorem length_keys {V : Type} (s : AList fun _ : FileId => V) : s.keys.length = s.entries.length :=
  List.length_map _

theorem length_erase_lt {V : Type} {s : AList fun _ : FileId => V} {id : FileId} (member : id ∈ s) :
    (s.erase id).entries.length < s.entries.length := by
  rw [← length_keys, ← length_keys, AList.keys_erase, List.length_erase_of_mem member]
  have := List.length_pos_of_mem (AList.mem_keys.mp member)
  omega

theorem length_erase_le {V : Type} (s : AList fun _ : FileId => V) (id : FileId) :
    (s.erase id).entries.length ≤ s.entries.length := by
  rw [← length_keys, ← length_keys, AList.keys_erase]
  exact List.length_erase_le

theorem length_insert_le {V : Type} (s : AList fun _ : FileId => V) (id : FileId) (value : V) :
    (s.insert id value).entries.length ≤ s.entries.length + 1 := by
  rw [← length_keys, ← length_keys, AList.keys_insert, List.length_cons]
  exact Nat.succ_le_succ List.length_erase_le

theorem PreviewMemory.oldest_mem {m : PreviewMemory} {id : FileId} (is : m.oldest = some id) :
    id ∈ m.entries := by
  obtain ⟨entry, first, rfl⟩ := Option.map_eq_some_iff.mp is
  have sorted := List.mem_of_head? first
  rw [AList.mem_keys]
  exact List.mem_map_of_mem (List.mem_mergeSort.mp sorted)

namespace Page
variable (page : Page)

theorem size_onEvict (id : FileId) : (page.onEvict id).memory.size ≤ page.memory.size := by
  unfold onEvict
  split
  · rfl
  · unfold evict
    split
    · rfl
    · exact length_erase_le _ _

/-- The loop of `admit`. -/
def makeRoom (page : Page) (bytes pixels : Nat) : Page :=
  if page.memory.crowded bytes pixels then
    match _is : page.memory.oldest with
    | none => page
    | some id => makeRoom ((page.dropEntry id).onEvict id) bytes pixels
  else page
termination_by page.memory.size
decreasing_by
  exact Nat.lt_of_le_of_lt (size_onEvict _ id) (length_erase_lt (PreviewMemory.oldest_mem _is))

/-- `PreviewMemory.admit`: none when it returns false. -/
def admitEntry (id : FileId) (bytes pixels : Nat) : Option Page :=
  if !isSafeInteger bytes || !isSafeInteger pixels || ImagePreviewLimits.retainedBlobBytes < bytes ||
      ImagePreviewLimits.livePixels < pixels then none
  else
    let page := (page.dropEntry id).makeRoom bytes pixels
    some { page with memory := page.memory.set id bytes pixels }

end Page

/-- What a load waits for. -/
inductive Stage where
  | requesting
  | reading (chunks : List Bytes)
  | decoding (width height : Nat)

/-- `declaredLength` is what `Number` makes of a `content-length`: none inside for no safe
integer. -/
structure Response where
  ok : Bool
  declaredLength : Option (Option Int)
  body : Bool

/-- An error by what the `catch` looks at. -/
inductive Failure where
  | abort | tooLarge | other

structure World where
  page : Page
  loads : Load → Option Stage

inductive PageEvent where
  | register (h : Nat) (file : PreviewFile) (download : Option Link)
  | remove (id : FileId)
  | unavailable (id : FileId)
  | clear
  | start (h : Nat)
  | cancel (h : Nat)
  | unload (h : Nat)
  | touch (h : Nat)

inductive LoadEvent where
  | responded (response : Response)
  | chunk (value : Bytes)
  | done (blob : Bool)
  | decoded (naturalWidth naturalHeight : Nat)
  | failed (error : Failure)

inductive Event where
  | page (event : PageEvent)
  | load (l : Load) (event : LoadEvent)

namespace World
variable (w : World)

def setLoad (l : Load) (stage : Option Stage) : World :=
  { w with loads := Function.update w.loads l stage }

def setPage (page : Page) : World := { w with page }

/-- The click on a button of a preview that still listens. -/
def clicked (h : Nat) (handler : Preview → World) : World :=
  match w.page.previews h with
  | none => w
  | some p => if p.listening then handler p else w

/-- `start` up to the request. -/
def start (h : Nat) (p : Preview) : World :=
  if p.disposed || p.load.disabled ||
      p.phase ∉ [.offered, .evicted, .cancelled, .retryableError] then w
  else
    let p := { p with phase := reducePreview (reducePreview p.phase .load) .start }
    let p := (p.setStatus (loadingText 0 p.file.size)).render false
    let p := { p with generation := p.generation + 1, controller := some (p.generation + 1) }
    (w.setPage (w.page.put h p)).setLoad { owner := h, own := p.generation } (some .requesting)

def pageEvent : PageEvent → World
  | .register h file download =>
    if (w.page.previews h).isNone then w.setPage (w.page.register h file download) else w
  | .remove id => w.setPage (w.page.remove id)
  | .unavailable id => w.setPage (w.page.unavailable id)
  | .clear => w.setPage w.page.clear
  | .start h => w.clicked h fun p => w.start h p
  | .cancel h => w.clicked h fun p => w.setPage (w.page.cancelLoad h p)
  | .unload h => w.clicked h fun p => w.setPage (w.page.unloadImage h p)
  | .touch h => w.clicked h fun p => w.setPage (w.page.touch p)

/-- `disposed || ownGeneration !== generation` -/
def stale (l : Load) (p : Preview) : Bool := p.disposed || l.own ≠ p.generation

/-- The load returns after `terminalState`. -/
def finish (l : Load) (p : Preview) (next : Phase) (text : String) : World :=
  (w.setPage (w.page.terminalState l.owner p next text)).setLoad l none

/-- The `catch` of `start`. -/
def caught (l : Load) (p : Preview) (error : Failure) : World :=
  if stale l p then w.setLoad l none
  else match error with
    | .abort => w.finish l p .cancelled "Image loading cancelled."
    | .tooLarge => w.finish l p .tooLarge
        "Image preview exceeded its declared or encoded byte limit. Download remains available."
    | .other => w.finish l p .retryableError
        "Image preview failed to load or decode. Retry or download the file."

/-- The response has a length that is not the one of the file. -/
def wrongLength (response : Response) (file : PreviewFile) : Bool :=
  match response.declaredLength with
  | none => false
  | some none => true
  | some (some contentLength) =>
    contentLength ≠ file.size || (ImagePreviewLimits.encodedBytes : Int) < contentLength

/-- `controller.signal` throws when there is no controller. -/
def responded (l : Load) (p : Preview) (response : Response) : World :=
  if !response.ok then w.caught l p .other
  else if wrongLength response p.file then w.caught l p .tooLarge
  else if p.controller.isNone then w.caught l p .other
  else if !response.body then w.caught l p .other
  else w.setLoad l (some (.reading []))

def received (chunks : List Bytes) : Nat := (chunks.map List.length).sum

/-- A round of `read`. -/
def chunkRead (l : Load) (p : Preview) (chunks : List Bytes) : World :=
  if p.file.size < received chunks || ImagePreviewLimits.encodedBytes < received chunks then
    w.caught l p .tooLarge
  else
    (w.setPage (w.page.put l.owner (p.setStatus (loadingText (received chunks) p.file.size)))).setLoad l
      (some (.reading chunks))

/-- The image element of the object URL that was made last. -/
def display (l : Load) (p : Preview) (bytes : Bytes) (image : Image) : World :=
  let objectUrl := w.page.made.length
  let imageElement : ImageElement :=
    { alt := if p.file.name = "" then "Shared image" else "Shared image: " ++ p.file.name,
      width := image.width, height := image.height, src := objectUrl }
  let p := { p with objectUrl := some objectUrl, bytes := none, imageElement := some imageElement }
  let url : Made := { load := l, bytes, type := image.format }
  let page := { w.page with made := w.page.made ++ [url] }
  (w.setPage (page.put l.owner p)).setLoad l (some (.decoding image.width image.height))

/-- From the end of `read` to the decoder. `blob` is whether an object URL can be made. -/
def bodyRead (l : Load) (p : Preview) (bytes : Bytes) (blob : Bool) : World :=
  let p := { p with bytes := some bytes }
  if stale l p then (w.setPage (w.page.put l.owner p)).setLoad l none
  else
    let p := { p with controller := none, phase := reducePreview p.phase .complete }
    match inspectImageBytes (some bytes) (some p.file.size) p.file.mediaType with
    | .error reason => w.finish l p reason.phase "Image preview could not be safely displayed."
    | .ok image =>
      let p := { p with phase := reducePreview p.phase .valid }
      match (w.page.put l.owner p).admitEntry p.file.serverFileId bytes.length image.pixels with
      | none => w.finish l p .tooLarge "Image preview exceeds memory limits."
      | some page =>
        match page.previews l.owner with
        | none => (w.setPage page).setLoad l none
        | some p =>
          if blob then (w.setPage page).display l p bytes image else (w.setPage page).caught l p .other

/-- The rest of `start` when the image has been decoded. -/
def decoded (l : Load) (p : Preview) (width height naturalWidth naturalHeight : Nat) : World :=
  if stale l p || p.phase ≠ .decoding then w.setLoad l none
  else if naturalWidth ≠ width || naturalHeight ≠ height then
    w.finish l p .invalid
      "Image dimensions did not match the verified container. Download remains available."
  else
    let p := { p with phase := reducePreview p.phase .decoded }
    let text := "Image loaded: " ++ toString width ++ " by " ++ toString height ++ " pixels."
    (w.setPage (w.page.put l.owner ((p.setStatus text).render true))).setLoad l none

/-- What is not awaited does not happen. -/
def loadEvent (l : Load) (event : LoadEvent) : World :=
  match w.loads l, w.page.previews l.owner with
  | some stage, some p =>
    match stage, event with
    | .requesting, .responded response => w.responded l p response
    | .reading chunks, .chunk value => w.chunkRead l p (chunks ++ [value])
    | .reading chunks, .done blob => w.bodyRead l p chunks.flatten blob
    | .decoding width height, .decoded naturalWidth naturalHeight =>
      w.decoded l p width height naturalWidth naturalHeight
    | _, .failed error => w.caught l p error
    | _, _ => w
  | _, _ => w

def next : Event → World
  | .page event => w.pageEvent event
  | .load l event => w.loadEvent l event

/-- A page with no files yet. -/
def empty : World where
  page := { previews := fun _ => none, controllers := ∅, memory := { entries := ∅, tick := 0 },
            made := [], revoked := [] }
  loads := fun _ => none

def machine : Machine World Event where
  init w := w = empty
  step w event w' := w' = w.next event

/-- The state of a page after some events. -/
def after (events : List Event) : World := events.foldl World.next empty

theorem reachable_after (events : List Event) : machine.Reachable (after events) := by
  induction events using List.reverseRecOn with
  | nil => exact .start rfl
  | append_singleton events event ih =>
    refine .next ih (l := event) ?_
    simp only [machine, after, List.foldl_append, List.foldl_cons, List.foldl_nil]

end World

end Conspire.Images
