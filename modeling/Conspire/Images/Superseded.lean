import Conspire.Images.Generations

/-! Loads that another generation has taken the place of. The checks of `start` stand after
`read`, after the decoder and in the `catch`; `read` itself sets the status at every chunk, and
its bytes are assigned before the check. -/
namespace Conspire.Images
open Octets Transition

namespace Page
variable {page : Page}

theorem put_eq_iff {h : Nat} {p q : Preview} (is : page.previews h = some p) : page.put h q = page ↔ q = p := by
  constructor
  · intro same
    have found : (page.put h q).previews h = some q := Function.update_self _ _ _
    rw [same, is] at found
    exact (Option.some.inj found).symm
  · rintro rfl
    simp only [put, ← is, Function.update_eq_self]

/-- A cancellation, an unloading, an eviction and both ends of a controller supersede its load. -/
theorem superseding {h : Nat} {p : Preview} (is : page.previews h = some p) (standing : p.disposed = false) :
    ∀ after ∈ [page.cancelLoad h p, page.unloadImage h p, page.evict h, page.cleanup h p,
        page.unavailablePreview h p],
      ∃ q, after.previews h = some q ∧ q.generation = p.generation + 1 := by
  have terminal (next : Phase) (text : String) :
      ∃ q, (page.terminalState h { p with generation := p.generation + 1 } next text).previews h = some q ∧
        q.generation = p.generation + 1 := by
    obtain ⟨load, root, spec⟩ := terminal_spec page h { p with generation := p.generation + 1 } next text
    rw [spec]
    exact ⟨_, Function.update_self _ _ _, rfl⟩
  intro after member
  simp only [List.mem_cons, List.not_mem_nil, or_false] at member
  obtain rfl | rfl | rfl | rfl | rfl := member
  · exact terminal _ _
  · exact terminal _ _
  · simp only [evict, is]
    exact terminal _ _
  · simp only [cleanup, standing, Bool.false_eq_true, if_false]
    exact ⟨_, Function.update_self _ _ _, rfl⟩
  · simp only [unavailablePreview, standing, Bool.false_eq_true, if_false]
    refine ⟨_, Function.update_self _ _ _, ?_⟩
    obtain ⟨load, root, rendered⟩ := Preview.render_spec _ false
    rw [rendered]
    rfl

end Page

namespace World
open Page
variable {w : World} {l : Load}

/-- The preview of the load has come to another generation. -/
def Superseded (w : World) (l : Load) : Prop :=
  ∃ p, w.page.previews l.owner = some p ∧ l.own < p.generation

theorem Superseded.next (superseded : Superseded w l) (event : Event) : Superseded (w.next event) l := by
  obtain ⟨p, is, older⟩ := superseded
  obtain ⟨q, is, later⟩ := next_later event is
  exact ⟨q, is, Nat.lt_of_lt_of_le older later.generation⟩

/-- What the older load still does: a chunk within the limits is announced in a text that is not
shown already, or the end of the body leaves bytes that are not held already. -/
inductive Disturbs (w : World) (l : Load) : LoadEvent → Prop where
  | chunk {p : Preview} {chunks : List Bytes} {value : Bytes} :
      w.page.previews l.owner = some p → w.loads l = some (.reading chunks) →
      (received (chunks ++ [value]) : Int) ≤ p.file.size →
      received (chunks ++ [value]) ≤ ImagePreviewLimits.encodedBytes →
      p.status ≠ loadingText (received (chunks ++ [value])) p.file.size → Disturbs w l (.chunk value)
  | done {p : Preview} {chunks : List Bytes} {blob : Bool} :
      w.page.previews l.owner = some p → w.loads l = some (.reading chunks) →
      p.bytes ≠ some chunks.flatten → Disturbs w l (.done blob)

theorem caught_stale {p : Preview} (stale : World.stale l p = true) (error : Failure) :
    (w.caught l p error).page = w.page := by
  simp only [caught, stale, if_true]
  rfl

theorem responded_stale {p : Preview} (stale : World.stale l p = true) (response : Response) :
    (w.responded l p response).page = w.page := by
  unfold responded
  split
  · exact caught_stale stale _
  split
  · exact caught_stale stale _
  split
  · exact caught_stale stale _
  split
  · exact caught_stale stale _
  · rfl

theorem chunkRead_stale {p : Preview} {chunks : List Bytes} (is : w.page.previews l.owner = some p)
    (stale : World.stale l p = true) :
    (w.chunkRead l p chunks).page = w.page ↔
      ¬ ((received chunks : Int) ≤ p.file.size ∧ received chunks ≤ ImagePreviewLimits.encodedBytes ∧
        p.status ≠ loadingText (received chunks) p.file.size) := by
  unfold chunkRead
  split
  · rename_i large
    simp only [Bool.or_eq_true, decide_eq_true_eq] at large
    refine iff_of_true (caught_stale stale _) ?_
    rintro ⟨small, few, -⟩
    omega
  · rename_i large
    simp only [Bool.or_eq_true, decide_eq_true_eq] at large
    have put : (w.page.put l.owner (p.setStatus (loadingText (received chunks) p.file.size)) = w.page ↔
        p.setStatus (loadingText (received chunks) p.file.size) = p) := put_eq_iff is
    constructor
    · rintro same ⟨-, -, differs⟩
      exact differs (congrArg Preview.status (put.mp same)).symm
    · intro quiet
      have text : p.status = loadingText (received chunks) p.file.size :=
        not_not.mp fun differs => quiet ⟨by omega, by omega, differs⟩
      exact put.mpr (by rw [Preview.setStatus, ← text])

theorem bodyRead_stale {p : Preview} {bytes : Bytes} (is : w.page.previews l.owner = some p)
    (stale : World.stale l p = true) (blob : Bool) :
    (w.bodyRead l p bytes blob).page = w.page ↔ p.bytes = some bytes := by
  have still : World.stale l { p with bytes := some bytes } = true := stale
  simp only [bodyRead, still, if_true]
  have put : w.page.put l.owner { p with bytes := some bytes } = w.page ↔ { p with bytes := some bytes } = p :=
    put_eq_iff is
  constructor
  · intro same
    exact (congrArg Preview.bytes (put.mp same)).symm
  · intro held
    exact put.mpr (by rw [← held])

theorem Disturbs.reading {event : LoadEvent} (disturbs : Disturbs w l event) :
    ∃ chunks, w.loads l = some (.reading chunks) := by
  cases disturbs with
  | chunk _ reading => exact ⟨_, reading⟩
  | done _ reading => exact ⟨_, reading⟩

theorem disturbs_chunk {p : Preview} {chunks : List Bytes} {value : Bytes}
    (is : w.page.previews l.owner = some p) (reading : w.loads l = some (.reading chunks)) :
    Disturbs w l (.chunk value) ↔ (received (chunks ++ [value]) : Int) ≤ p.file.size ∧
      received (chunks ++ [value]) ≤ ImagePreviewLimits.encodedBytes ∧
      p.status ≠ loadingText (received (chunks ++ [value])) p.file.size := by
  constructor
  · intro disturbs
    cases disturbs with
    | chunk is' reading' small few differs =>
      cases is.symm.trans is'
      cases reading.symm.trans reading'
      exact ⟨small, few, differs⟩
  · rintro ⟨small, few, differs⟩
    exact .chunk is reading small few differs

theorem disturbs_done {p : Preview} {chunks : List Bytes} {blob : Bool}
    (is : w.page.previews l.owner = some p) (reading : w.loads l = some (.reading chunks)) :
    Disturbs w l (.done blob) ↔ p.bytes ≠ some chunks.flatten := by
  constructor
  · intro disturbs
    cases disturbs with
    | done is' reading' differs =>
      cases is.symm.trans is'
      cases reading.symm.trans reading'
      exact differs
  · exact .done is reading

theorem loadEvent_inert {p : Preview} (is : w.page.previews l.owner = some p) (stale : World.stale l p = true)
    (event : LoadEvent) : (w.loadEvent l event).page = w.page ↔ ¬ Disturbs w l event := by
  have elsewhere (other : ∀ chunks, w.loads l ≠ some (.reading chunks)) : ¬ Disturbs w l event := by
    intro disturbs
    obtain ⟨chunks, reading⟩ := disturbs.reading
    exact other chunks reading
  cases waits : w.loads l with
  | none =>
    refine iff_of_true ?_ (elsewhere (by simp [waits]))
    simp only [loadEvent, waits]
  | some stage =>
    cases stage with
    | requesting =>
      refine iff_of_true ?_ (elsewhere (by simp [waits]))
      cases event with
      | responded response => simpa only [loadEvent, waits, is] using responded_stale stale response
      | failed error => simpa only [loadEvent, waits, is] using caught_stale stale error
      | chunk _ | done _ | decoded _ _ => simp only [loadEvent, waits, is]
    | decoding width height =>
      refine iff_of_true ?_ (elsewhere (by simp [waits]))
      cases event with
      | decoded naturalWidth naturalHeight =>
        simp only [loadEvent, waits, is, decoded, stale, Bool.true_or, if_true]
        rfl
      | failed error => simpa only [loadEvent, waits, is] using caught_stale stale error
      | responded _ | chunk _ | done _ => simp only [loadEvent, waits, is]
    | reading chunks =>
      cases event with
      | chunk value =>
        rw [disturbs_chunk is waits]
        simpa only [loadEvent, waits, is] using chunkRead_stale is stale
      | done blob =>
        rw [disturbs_done is waits, not_not]
        simpa only [loadEvent, waits, is] using bodyRead_stale is stale blob
      | failed error =>
        refine iff_of_true ?_ fun disturbs => nomatch disturbs
        simpa only [loadEvent, waits, is] using caught_stale stale error
      | responded _ | decoded _ _ =>
        refine iff_of_true ?_ fun disturbs => nomatch disturbs
        simp only [loadEvent, waits, is]

/-- Whatever comes for a superseded load, at any later time, changes nothing of the page just when
it is not one of the two. -/
theorem superseded_load_inert {w' : World} (superseded : Superseded w l)
    (onward : Relation.ReflTransGen (fun a b => ∃ event, machine.step a event b) w w') (event : LoadEvent) :
    Superseded w' l ∧ ((w'.next (.load l event)).page = w'.page ↔ ¬ Disturbs w' l event) := by
  have superseded : Superseded w' l := by
    induction onward with
    | refl => exact superseded
    | tail _ step ih =>
      obtain ⟨event, rfl⟩ := step
      exact ih.next event
  refine ⟨superseded, ?_⟩
  obtain ⟨p, is, older⟩ := superseded
  have stale : World.stale l p = true := by
    simp only [World.stale, Bool.or_eq_true, decide_eq_true_eq]
    exact .inr (by omega)
  exact loadEvent_inert is stale event

/-- A load that waits for its first chunk is cancelled. -/
def cancelledLoad : List Event :=
  [.page (.register 0 { serverFileId := 11, name := "slow.png", size := 4, mediaType := some "image/png" } none),
   .page (.start 0), .load ⟨0, 1⟩ (.responded { ok := true, declaredLength := none, body := true }),
   .page (.cancel 0)]

/-- It is given a chunk all the same. -/
def chunkedLoad : List Event := cancelledLoad ++ [.load ⟨0, 1⟩ (.chunk [137, 80])]

/-- A chunk beyond the file's size does nothing; one within it shows, and so does then the end. -/
theorem superseded_load_inert_cancelled :
    Superseded (after chunkedLoad) ⟨0, 1⟩ ∧ (after chunkedLoad).page ≠ (after cancelledLoad).page ∧
      ((after cancelledLoad).next (.load ⟨0, 1⟩ (.chunk [137, 80, 78, 71, 13]))).page =
        (after cancelledLoad).page ∧
      ((after chunkedLoad).next (.load ⟨0, 1⟩ (.done true))).page ≠ (after chunkedLoad).page := by
  have superseded : Superseded (after cancelledLoad) ⟨0, 1⟩ := ⟨_, rfl, by decide⟩
  have onward : Relation.ReflTransGen (fun a b => ∃ event, machine.step a event b)
      (after cancelledLoad) (after chunkedLoad) := .single ⟨.load ⟨0, 1⟩ (.chunk [137, 80]), rfl⟩
  obtain ⟨_, small⟩ := superseded_load_inert superseded .refl (.chunk [137, 80])
  obtain ⟨_, large⟩ := superseded_load_inert superseded .refl (.chunk [137, 80, 78, 71, 13])
  obtain ⟨stays, ended⟩ := superseded_load_inert superseded onward (.done true)
  refine ⟨stays, fun same => small.mp same ?_, large.mpr fun disturbs => ?_, fun same => ended.mp same ?_⟩
  · exact (disturbs_chunk rfl rfl).mpr ⟨by decide, by decide, by decide⟩
  · obtain ⟨within, _⟩ := (disturbs_chunk rfl rfl).mp disturbs
    revert within
    decide
  · exact (disturbs_done rfl rfl).mpr nofun

/-- The late chunk replaces the text of the cancellation, and the end of the body leaves the
bytes at the cancelled preview. -/
theorem late_chunk :
    ∃ w p q r, machine.Reachable w ∧ Superseded w ⟨0, 1⟩ ∧
      w.page.previews 0 = some p ∧ p.status = "Image loading cancelled." ∧ p.bytes = none ∧
      (w.next (.load ⟨0, 1⟩ (.chunk [137, 80]))).page.previews 0 = some q ∧
        q.status = "Loading image: 2/4 bytes" ∧
      ((w.next (.load ⟨0, 1⟩ (.chunk [137, 80]))).next (.load ⟨0, 1⟩ (.done true))).page.previews 0 = some r ∧
        r.phase = .cancelled ∧ r.bytes = some [137, 80] := by
  refine ⟨after cancelledLoad, _, _, _, reachable_after _, ⟨_, rfl, by decide⟩, rfl, rfl, rfl, rfl, by decide, rfl,
    rfl, rfl⟩

end World
end Conspire.Images
