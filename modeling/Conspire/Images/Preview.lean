import Conspire.Images.Inspection
import Mathlib.Data.List.AList
import Mathlib.Logic.Function.Basic

/-! Image previews on a page (`PreviewRegistry`, `PreviewMemory` and
`createImagePreviewController` of `chat/image-preview.js`). A load runs from one `await` to the
next; anything else on the page may run in between. -/
namespace Conspire.Images
open Octets

abbrev FileId := Nat

structure PreviewFile where
  serverFileId : FileId
  name : String
  size : Int
  mediaType : Option String

inductive Phase where
  | offered | confirmed | downloading | inspecting | decoding | visible
  | cancelled | evicted | retryableError
  | unsupported | invalid | tooLarge | unavailable
  deriving DecidableEq, Repr

def Reason.phase : Reason → Phase
  | .invalid => .invalid
  | .unsupported => .unsupported
  | .tooLarge => .tooLarge

inductive PhaseEvent where
  | load | start | complete | valid | invalid (reason : Option Reason) | decoded | error
  | cancel | evict | unavailable

def Phase.terminal : Phase → Bool
  | .unsupported | .invalid | .tooLarge | .unavailable => true
  | _ => false

def transitions : Phase → PhaseEvent → Option Phase
  | .offered, .load => some .confirmed
  | .offered, .unavailable => some .unavailable
  | .confirmed, .start => some .downloading
  | .confirmed, .cancel => some .cancelled
  | .confirmed, .unavailable => some .unavailable
  | .downloading, .complete => some .inspecting
  | .downloading, .cancel => some .cancelled
  | .downloading, .unavailable => some .unavailable
  | .inspecting, .valid => some .decoding
  | .inspecting, .invalid reason => some (reason.getD .invalid).phase
  | .inspecting, .unavailable => some .unavailable
  | .decoding, .decoded => some .visible
  | .decoding, .error => some .retryableError
  | .decoding, .cancel => some .cancelled
  | .decoding, .unavailable => some .unavailable
  | .visible, .evict => some .evicted
  | .visible, .cancel => some .cancelled
  | .visible, .unavailable => some .unavailable
  | .cancelled, .load | .evicted, .load | .retryableError, .load => some .confirmed
  | .cancelled, .unavailable | .evicted, .unavailable | .retryableError, .unavailable => some .unavailable
  | _, _ => none

def reducePreview (phase : Phase) (event : PhaseEvent) : Phase :=
  if phase.terminal then phase else (transitions phase event).getD phase

/-- An object URL, by the number of those made before it. -/
abbrev Url := Nat

inductive Node where
  | status | load | cancel | unload | image
  deriving DecidableEq, Repr

structure Root where
  previewState : Phase
  children : List Node
  removed : Bool

structure Button where
  disabled : Bool
  textContent : String

/-- The link to the file: with its address, or without it and `aria-disabled`. -/
inductive Link where
  | enabled
  | disabled (textContent : String)

structure ImageElement where
  alt : String
  width : Nat
  height : Nat
  src : Url

/-- What one call of `createImagePreviewController` closes over. An `AbortController` goes by
the generation of the load it was made for. -/
structure Preview where
  file : PreviewFile
  phase : Phase
  controller : Option Nat
  aborted : List Nat
  objectUrl : Option Url
  imageElement : Option ImageElement
  disposed : Bool
  generation : Nat
  bytes : Option Bytes
  status : String
  load : Button
  root : Root
  listening : Bool
  download : Option Link

def PreviewFile.title (file : PreviewFile) : String :=
  if file.name = "" then "Shared image" else file.name

def offerText (file : PreviewFile) : String :=
  "Image offered: " ++ file.title ++ " (" ++ toString file.size ++
    " bytes). JPEG, PNG, or WebP previews require confirmation."

def loadingText (received : Nat) (size : Int) : String :=
  "Loading image: " ++ toString received ++ "/" ++ toString size ++ " bytes"

namespace Preview
variable (p : Preview)

def setStatus (text : String) : Preview := { p with status := text }

def rendered (children : List Node) : Preview :=
  { p with root := { p.root with previewState := p.phase, children } }

def render (image : Bool) : Preview :=
  match p.phase with
  | .downloading | .inspecting | .decoding => p.rendered [.status, .cancel]
  | .visible => if image then p.rendered [.image, .status, .unload] else p.rendered [.status]
  | .offered | .cancelled | .evicted | .retryableError =>
    let textContent := if p.phase = .offered then "Load image (" ++ toString p.file.size ++ " bytes)"
      else "Retry image preview"
    { p with load := { disabled := false, textContent } }.rendered [.status, .load]
  | _ => p.rendered [.status]

/-- What `release` does to the controller's own variables. -/
def released : Preview :=
  { p with controller := none, aborted := p.aborted ++ p.controller.toList, bytes := none,
           imageElement := none, objectUrl := none }

def removeHandlers : Preview := { p with listening := false }

def disable (download : Link) : Preview :=
  { p with download := p.download.map fun _ => download }

def detach : Preview := { p with root := { p.root with removed := true } }

end Preview

def createImagePreviewController (file : PreviewFile) (download : Option Link) : Preview :=
  { file, phase := .offered, controller := none, aborted := [], objectUrl := none,
    imageElement := none, disposed := false, generation := 0, bytes := none,
    status := offerText file, load := { disabled := false, textContent := "" },
    root := { previewState := .offered, children := [], removed := false },
    listening := true, download : Preview }.render false

structure MemoryEntry where
  bytes : Nat
  pixels : Nat
  used : Nat

/-- The insertion order of the entries plays no part: no two were used at one tick. -/
structure PreviewMemory where
  entries : AList fun _ : FileId => MemoryEntry
  tick : Nat

namespace PreviewMemory
variable (m : PreviewMemory)

def size : Nat := m.entries.entries.length

def bytes : Nat := (m.entries.entries.map fun entry => entry.2.bytes).sum

def pixels : Nat := (m.entries.entries.map fun entry => entry.2.pixels).sum

def remove (id : FileId) : PreviewMemory := { m with entries := m.entries.erase id }

def touch (id : FileId) : PreviewMemory :=
  match m.entries.lookup id with
  | none => m
  | some entry =>
    { entries := m.entries.replace id { entry with used := m.tick + 1 }, tick := m.tick + 1 }

def set (id : FileId) (bytes pixels : Nat) : PreviewMemory :=
  { entries := m.entries.insert id { bytes, pixels, used := m.tick + 1 }, tick := m.tick + 1 }

def clear : PreviewMemory := { m with entries := ∅ }

/-- `[...entries].sort((a, b) => a[1].used - b[1].used)[0]` -/
def oldest : Option FileId :=
  ((m.entries.entries.mergeSort fun a b => a.2.used ≤ b.2.used).head?).map fun entry => entry.1

/-- No room for another entry of that size. -/
def crowded (bytes pixels : Nat) : Bool :=
  ImagePreviewLimits.livePreviews ≤ m.size ||
    ImagePreviewLimits.retainedBlobBytes < m.bytes + bytes || ImagePreviewLimits.livePixels < m.pixels + pixels

end PreviewMemory

/-- One load, by its preview and its own generation. -/
structure Load where
  owner : Nat
  own : Nat
  deriving DecidableEq

/-- An object URL with the load it was made in and the blob it is of. -/
structure Made where
  load : Load
  bytes : Bytes
  type : Format

/-- The previews ever made on a page, by the object they are, the registry with its memory, and
the object URLs. -/
structure Page where
  previews : Nat → Option Preview
  controllers : AList fun _ : FileId => Nat
  memory : PreviewMemory
  made : List Made
  revoked : List Url

namespace Page
variable (page : Page)

def put (h : Nat) (p : Preview) : Page :=
  { page with previews := Function.update page.previews h (some p) }

/-- What `release` does outside the controller. -/
def free (p : Preview) : Page :=
  { page with memory := page.memory.remove p.file.serverFileId, revoked := page.revoked ++ p.objectUrl.toList }

def terminalState (h : Nat) (p : Preview) (next : Phase) (text : String) : Page :=
  (page.free p).put h ((({ p with phase := next }.released).setStatus text).render false)

def evict (h : Nat) : Page :=
  match page.previews h with
  | none => page
  | some p =>
    page.terminalState h { p with generation := p.generation + 1 } .evicted
      "Preview unloaded to save memory."

def cancelLoad (h : Nat) (p : Preview) : Page :=
  page.terminalState h { p with generation := p.generation + 1 } .cancelled "Image loading cancelled."

def unloadImage (h : Nat) (p : Preview) : Page :=
  page.terminalState h { p with generation := p.generation + 1 } .cancelled "Image preview unloaded."

def touch (p : Preview) : Page :=
  if p.phase = .visible then { page with memory := page.memory.touch p.file.serverFileId } else page

def cleanup (h : Nat) (p : Preview) : Page :=
  if p.disposed then page
  else
    let p := { p with disposed := true, generation := p.generation + 1 }
    (page.free p).put h p.released.removeHandlers

def unavailablePreview (h : Nat) (p : Preview) : Page :=
  if p.disposed then page
  else
    let p := { p with disposed := true, generation := p.generation + 1,
                      phase := reducePreview p.phase .unavailable }
    let withdrawn := Link.disabled (p.file.title ++ " (unavailable after source reload)")
    (page.free p).put h (((p.released.removeHandlers.disable withdrawn).setStatus
      "Image preview unavailable because the source reloaded.").render false)

/-- `preview.root.remove()` -/
def removeRoot (h : Nat) : Page :=
  let previews := Function.update page.previews h ((page.previews h).map Preview.detach)
  { page with previews }

/-- The controller registered under the id. -/
def registered (id : FileId) : Option (Nat × Preview) := do
  let h ← page.controllers.lookup id
  let p ← page.previews h
  return (h, p)

def unregister (id : FileId) : Page := { page with controllers := page.controllers.erase id }

def remove (id : FileId) : Page :=
  match page.registered id with
  | none => { page with memory := page.memory.remove id }
  | some (h, p) => ((page.cleanup h p).removeRoot h).unregister id

def unavailable (id : FileId) : Page :=
  match page.registered id with
  | none => page
  | some (h, p) => (page.unavailablePreview h p).unregister id

def clear : Page :=
  let page := page.controllers.keys.foldl remove page
  { page with memory := page.memory.clear }

/-- A new controller, which holds nothing yet, is registered. -/
def register (h : Nat) (file : PreviewFile) (download : Option Link) : Page :=
  let page := (page.remove file.serverFileId).put h (createImagePreviewController file download)
  { page with controllers := page.controllers.insert file.serverFileId h }

/-- The memory's `onEvict`: `this.controllers.get(String(id))?.evict()`. -/
def onEvict (id : FileId) : Page :=
  match page.registered id with
  | none => page
  | some (h, _) => page.evict h

/-- The oldest entry goes. -/
def dropEntry (id : FileId) : Page := { page with memory := page.memory.remove id }

end Page

end Conspire.Images
