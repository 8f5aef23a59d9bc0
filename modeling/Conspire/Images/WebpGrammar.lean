import Conspire.Images.Webp
import Mathlib.Data.Nat.Bitwise

/-! What the chunks of a WebP are that `inspectWebp` accepts: its one pass collects the
canvas, the primary chunk and the features, and what it has collected says this of them. -/
namespace Conspire.Images
open Octets Loops

section
variable {bytes part rest : Bytes} {start i : Nat}

theorem little16_of_drop (here : bytes.drop start = part ++ rest) (inside : i + 2 ≤ part.length) :
    little16 bytes (start + i) = little16 part i := by
  simp only [little16, Nat.add_assoc]
  rw [octet_of_drop here (by omega), octet_of_drop here (by omega)]

theorem little24_of_drop (here : bytes.drop start = part ++ rest) (inside : i + 3 ≤ part.length) :
    little24 bytes (start + i) = little24 part i := by
  simp only [little24, Nat.add_assoc]
  rw [octet_of_drop here (by omega), octet_of_drop here (by omega), octet_of_drop here (by omega)]

theorem little32_of_drop (here : bytes.drop start = part ++ rest) (inside : i + 4 ≤ part.length) :
    little32 bytes (start + i) = little32 part i := by
  simp only [little32, Nat.add_assoc]
  rw [octet_of_drop here (by omega), octet_of_drop here (by omega), octet_of_drop here (by omega),
    octet_of_drop here (by omega)]

end

/-- The chunks around the primary one, when it is not the only one. -/
structure Extended (before : List WebpChunk) (primary : WebpChunk) (after : List WebpChunk)
    (width height : Nat) (alpha : Bool) (flags : Nat) : Prop where
  canvas : ∃ first front, before = first :: front ∧ first.Canvas flags width height ∧
    ∀ c ∈ front ++ after, c.tag ≠ ascii "VP8X"
  icc : flags &&& 0x20 ≠ 0 ↔ ∃ c ∈ before ++ after, c.tag = ascii "ICCP"
  exif : flags &&& 0x08 ≠ 0 ↔ ∃ c ∈ before ++ after, c.tag = ascii "EXIF"
  xmp : flags &&& 0x04 ≠ 0 ↔ ∃ c ∈ before ++ after, c.tag = ascii "XMP "
  alpha : flags &&& 0x10 ≠ 0 ↔ (∃ c ∈ before ++ after, c.tag = ascii "ALPH") ∨ alpha = true
  preceding : ∀ c ∈ after, c.tag ≠ ascii "ICCP" ∧ c.tag ≠ ascii "ALPH"
  following : ∀ c ∈ before, c.tag ≠ ascii "EXIF" ∧ c.tag ≠ ascii "XMP "
  once : ∀ tag ∈ webpFeatures, ((before ++ after).countP fun c => c.tag = tag) ≤ 1
  lossy : (∃ c ∈ before, c.tag = ascii "ALPH") → primary.tag = ascii "VP8 "

/-- The chunks of a WebP of this size. -/
structure Webp (chunks : List WebpChunk) (width height : Nat) : Prop where
  fits : Fits width height
  still : ∀ c ∈ chunks, c.tag ≠ ascii "ANIM" ∧ c.tag ≠ ascii "ANMF"
  parts : ∃ before primary after alpha, chunks = before ++ primary :: after ∧
    primary.Says width height alpha ∧ (∀ c ∈ before ++ after, ¬ c.isPrimary) ∧
    (before = [] ∧ after = [] ∨ ∃ flags, Extended before primary after width height alpha flags)

/-- A RIFF container of that kind whose size field counts what follows it, and nothing
but chunks with their padding. -/
def WebpFile (bytes : Bytes) (width height : Nat) : Prop :=
  ∃ chunks : List WebpChunk, Webp chunks width height ∧ bytes.length < 8 + 2 ^ 32 ∧
    bytes = ascii "RIFF" ++ littleEndian 4 (bytes.length - 8) ++ ascii "WEBP" ++
      chunks.flatMap WebpChunk.encode

/-- Where a VP8X chunk may stand, and what the state says of it. -/
def CanvasOf (done : List WebpChunk) (s : WebpState) : Prop :=
  match s.canvas with
  | none => (∀ c ∈ done, c.tag ≠ ascii "VP8X") ∧ s.features = []
  | some image => ∃ first front, done = first :: front ∧ first.Canvas s.flags image.width image.height ∧
      ∀ c ∈ front, c.tag ≠ ascii "VP8X"

/-- Where a primary chunk may stand, and what the state says of it. -/
def PrimaryOf (done : List WebpChunk) (s : WebpState) : Prop :=
  match s.primary with
  | none => s.primaryHasAlpha = false ∧ (∀ c ∈ done, ¬ c.isPrimary) ∧
      ∀ c ∈ done, c.tag ≠ ascii "EXIF" ∧ c.tag ≠ ascii "XMP "
  | some image => ∃ before primary after, done = before ++ primary :: after ∧
      primary.Says image.width image.height s.primaryHasAlpha ∧ primary.tag = s.primaryTag ∧
      Fits image.width image.height ∧
      image = { format := .webp, width := image.width, height := image.height,
                pixels := image.width * image.height } ∧
      (∀ c ∈ before ++ after, ¬ c.isPrimary) ∧
      (∀ c ∈ after, c.tag ≠ ascii "ICCP" ∧ c.tag ≠ ascii "ALPH") ∧
      ∀ c ∈ before, c.tag ≠ ascii "EXIF" ∧ c.tag ≠ ascii "XMP "

/-- What the state says of the features. -/
def FeaturesOf (done : List WebpChunk) (s : WebpState) : Prop :=
  ∀ tag ∈ webpFeatures, (tag ∈ s.features ↔ ∃ c ∈ done, c.tag = tag) ∧
    (done.countP fun c => c.tag = tag) ≤ 1

/-- What the state of the loop says of the chunks before. -/
structure Collected (done : List WebpChunk) (s : WebpState) : Prop where
  count : s.chunks = done.length
  still : ∀ c ∈ done, c.tag ≠ ascii "ANIM" ∧ c.tag ≠ ascii "ANMF"
  canvas : CanvasOf done s
  primary : PrimaryOf done s
  features : FeaturesOf done s

section
variable {done : List WebpChunk} {c : WebpChunk} {s t : WebpState}

theorem CanvasOf.other (of : CanvasOf done s) (canvas : t.canvas = s.canvas) (flags : t.flags = s.flags)
    (features : s.canvas = none → t.features = s.features) (tag : c.tag ≠ ascii "VP8X") :
    CanvasOf (done ++ [c]) t := by
  simp only [CanvasOf, canvas, flags] at of ⊢
  cases known : s.canvas with
  | none =>
    rw [known] at of
    obtain ⟨unseen, empty⟩ := of
    refine ⟨fun d member => ?_, (features known).trans empty⟩
    rcases List.mem_append.mp member with old | new
    · exact unseen d old
    · rwa [List.mem_singleton.mp new]
  | some image =>
    rw [known] at of
    obtain ⟨first, front, rfl, is, unseen⟩ := of
    refine ⟨first, front ++ [c], rfl, is, fun d member => ?_⟩
    rcases List.mem_append.mp member with old | new
    · exact unseen d old
    · rwa [List.mem_singleton.mp new]

theorem PrimaryOf.other (of : PrimaryOf done s) (primary : t.primary = s.primary)
    (tag : t.primaryTag = s.primaryTag) (alpha : t.primaryHasAlpha = s.primaryHasAlpha)
    (other : ¬ c.isPrimary)
    (early : s.primary = none → c.tag ≠ ascii "EXIF" ∧ c.tag ≠ ascii "XMP ")
    (late : s.primary ≠ none → c.tag ≠ ascii "ICCP" ∧ c.tag ≠ ascii "ALPH") :
    PrimaryOf (done ++ [c]) t := by
  simp only [PrimaryOf, primary, tag, alpha] at of ⊢
  cases known : s.primary with
  | none =>
    rw [known] at of
    obtain ⟨plain, unseen, order⟩ := of
    refine ⟨plain, fun d member => ?_, fun d member => ?_⟩
    · rcases List.mem_append.mp member with old | new
      · exact unseen d old
      · rwa [List.mem_singleton.mp new]
    · rcases List.mem_append.mp member with old | new
      · exact order d old
      · rw [List.mem_singleton.mp new]
        exact early known
  | some image =>
    rw [known] at of
    obtain ⟨before, p, after, rfl, own, isTag, fits, is, unseen, preceding, following⟩ := of
    refine ⟨before, p, after ++ [c], by simp, own, isTag, fits, is, fun d member => ?_, fun d member => ?_,
      following⟩
    · rw [← List.append_assoc] at member
      rcases List.mem_append.mp member with old | new
      · exact unseen d old
      · rwa [List.mem_singleton.mp new]
    · rcases List.mem_append.mp member with old | new
      · exact preceding d old
      · rw [List.mem_singleton.mp new]
        exact late (by simp [known])

theorem PrimaryOf.begin (of : PrimaryOf done s) (unknown : s.primary = none) {image : Image}
    (known : t.primary = some image) (tag : c.tag = t.primaryTag)
    (own : c.Says image.width image.height t.primaryHasAlpha) (fits : Fits image.width image.height)
    (is : image = { format := .webp, width := image.width, height := image.height,
                    pixels := image.width * image.height }) : PrimaryOf (done ++ [c]) t := by
  simp only [PrimaryOf, unknown] at of
  obtain ⟨-, unseen, following⟩ := of
  simp only [PrimaryOf, known]
  exact ⟨done, c, [], rfl, own, tag, fits, is, by simpa using unseen, nofun, following⟩

theorem FeaturesOf.other (of : FeaturesOf done s) (features : t.features = s.features)
    (other : c.tag ∉ webpFeatures) : FeaturesOf (done ++ [c]) t := by
  intro tag member
  obtain ⟨listed, once⟩ := of tag member
  have apart : c.tag ≠ tag := by
    rintro rfl
    exact other member
  constructor
  · simp [features, listed, or_and_right, exists_or, apart]
  · simpa [apart] using once

theorem FeaturesOf.add (of : FeaturesOf done s) (features : t.features = s.features ++ [c.tag])
    (new : c.tag ∉ s.features) : FeaturesOf (done ++ [c]) t := by
  intro tag member
  obtain ⟨listed, once⟩ := of tag member
  constructor
  · simp [features, listed, or_and_right, exists_or, eq_comm]
  · by_cases same : c.tag = tag
    · subst same
      have unseen : done.countP (fun d => d.tag = c.tag) = 0 := by
        apply List.countP_eq_zero.mpr
        intro d inside is
        exact new (listed.mpr ⟨d, inside, of_decide_eq_true is⟩)
      simp [unseen]
    · simpa [same] using once

/-- The pieces of the invariant without the count. -/
structure Pieces (done : List WebpChunk) (s : WebpState) : Prop where
  canvas : CanvasOf done s
  primary : PrimaryOf done s
  features : FeaturesOf done s

variable {bytes rest : Bytes}

theorem Pieces.takeCanvas (pieces : Pieces done s) (empty : s.chunks = 0 → done = [])
    (here : bytes.drop (s.offset + 8) = c.data ++ rest) (tag : c.tag = ascii "VP8X")
    (taken : s.takeCanvas bytes c.data.length = .ok t) : Pieces (done ++ [c]) t := by
  simp only [WebpState.takeCanvas, reject_bind] at taken
  obtain ⟨first, plain, taken⟩ := taken
  obtain ⟨image, canvas, taken⟩ := bind_ok.mp taken
  simp only [Bool.or_eq_false_iff, decide_eq_false_iff_not, not_not] at first plain
  obtain ⟨⟨length, chunks⟩, -⟩ := first
  obtain ⟨⟨⟨⟨moving, reserved⟩, one⟩, two⟩, three⟩ := plain
  obtain ⟨fits, rfl⟩ := ok_iff.mp canvas
  obtain rfl := empty chunks
  cases taken
  have reads : ∀ i < 10, octet bytes (s.offset + 8 + i) = octet c.data i := by
    intro i before
    exact octet_of_drop here (by omega)
  have width := @little24_of_drop bytes c.data rest (s.offset + 8) 4 here (by omega)
  have height := @little24_of_drop bytes c.data rest (s.offset + 8) 7 here (by omega)
  have flags : octet bytes (s.offset + 8) = octet c.data 0 := reads 0 (by decide)
  refine ⟨⟨c, [], rfl, ?_, by simp⟩, ?_, ?_⟩
  · exact ⟨tag, length, flags.symm, ⟨moving, reserved, (reads 1 (by decide)).symm.trans one,
      (reads 2 (by decide)).symm.trans two, (reads 3 (by decide)).symm.trans three⟩,
      congrArg (· + 1) width.symm, congrArg (· + 1) height.symm⟩
  · refine pieces.primary.other rfl rfl rfl ?_ (fun _ => ?_) (fun _ => ?_)
    all_goals
      simp only [WebpChunk.isPrimary, tag]
      decide
  · apply pieces.features.other rfl
    rw [tag]
    decide

theorem Pieces.takeLossy (pieces : Pieces done s) (here : bytes.drop (s.offset + 8) = c.data ++ rest)
    (tag : c.tag = ascii "VP8 ") (taken : s.takeLossy bytes c.data.length c.tag = .ok t) :
    Pieces (done ++ [c]) t := by
  simp only [WebpState.takeLossy, reject_bind] at taken
  obtain ⟨frame, unknown, taken⟩ := taken
  obtain ⟨image, size, taken⟩ := bind_ok.mp taken
  simp only [Bool.or_eq_false_iff, decide_eq_false_iff_not, not_not, not_lt, Option.isSome_eq_false_iff,
    Option.isNone_iff_eq_none] at frame unknown
  obtain ⟨⟨⟨⟨⟨⟨⟨⟨length, key⟩, -⟩, shown⟩, -⟩, -⟩, one⟩, two⟩, three⟩ := frame
  obtain ⟨fits, rfl⟩ := ok_iff.mp size
  cases taken
  have reads : ∀ i < 11, octet bytes (s.offset + 8 + i) = octet c.data i := by
    intro i before
    exact octet_of_drop here (by omega)
  have frameTag : little24 bytes (s.offset + 8) = little24 c.data 0 :=
    @little24_of_drop bytes c.data rest (s.offset + 8) 0 here (by omega)
  have width := @little16_of_drop bytes c.data rest (s.offset + 8) 6 here (by omega)
  have height := @little16_of_drop bytes c.data rest (s.offset + 8) 8 here (by omega)
  have said := WebpChunk.Says.lossy tag length (frameTag ▸ key) (frameTag ▸ shown)
    ((reads 3 (by decide)).symm.trans one) ((reads 4 (by decide)).symm.trans two)
    ((reads 5 (by decide)).symm.trans three)
  rw [← Nat.and_two_pow_sub_one_eq_mod, ← Nat.and_two_pow_sub_one_eq_mod, ← width, ← height] at said
  have plain : s.primaryHasAlpha = false := by
    have primary := pieces.primary
    simp only [PrimaryOf, unknown] at primary
    exact primary.1
  refine ⟨?_, pieces.primary.begin unknown rfl rfl ?_ fits rfl, ?_⟩
  · apply pieces.canvas.other rfl rfl (fun _ => rfl)
    rw [tag]
    decide
  · simp only [plain]
    exact said
  · apply pieces.features.other rfl
    rw [tag]
    decide

theorem alpha_iff {value : Nat} (small : value < 2 ^ 29) :
    value &&& 0x10000000 ≠ 0 ↔ value / 2 ^ 28 = 1 := by
  have bit : value &&& 0x10000000 = (value.testBit 28).toNat * 2 ^ 28 := Nat.and_two_pow value 28
  rw [Nat.testBit_eq_decide_div_mod_eq] at bit
  by_cases one : value / 2 ^ 28 % 2 = 1
  · rw [decide_eq_true one, Bool.toNat_true] at bit
    omega
  · rw [decide_eq_false one, Bool.toNat_false, Nat.zero_mul] at bit
    omega

theorem Pieces.takeLossless (pieces : Pieces done s) (here : bytes.drop (s.offset + 8) = c.data ++ rest)
    (tag : c.tag = ascii "VP8L") (taken : s.takeLossless bytes c.data.length c.tag = .ok t) :
    Pieces (done ++ [c]) t := by
  simp only [WebpState.takeLossless, reject_bind] at taken
  obtain ⟨signature, unknown, version, taken⟩ := taken
  obtain ⟨image, size, taken⟩ := bind_ok.mp taken
  simp only [Bool.or_eq_false_iff, decide_eq_false_iff_not, not_not, not_lt, Option.isSome_eq_false_iff,
    Option.isNone_iff_eq_none] at signature unknown version
  obtain ⟨length, one⟩ := signature
  obtain ⟨fits, rfl⟩ := ok_iff.mp size
  cases taken
  have first : octet bytes (s.offset + 8) = octet c.data 0 :=
    @octet_of_drop bytes c.data rest (s.offset + 8) 0 here (by omega)
  have value := @little32_of_drop bytes c.data rest (s.offset + 8) 1 here (by omega)
  have small : little32 bytes (s.offset + 9) < 2 ^ 29 := by
    rw [Nat.shiftRight_eq_div_pow] at version
    omega
  have said := WebpChunk.Says.lossless tag length (first ▸ one) small value.symm
  rw [← Nat.and_two_pow_sub_one_eq_mod, ← Nat.and_two_pow_sub_one_eq_mod, ← Nat.shiftRight_eq_div_pow] at said
  have alpha : decide (little32 bytes (s.offset + 9) &&& 0x10000000 ≠ 0) =
      decide (little32 bytes (s.offset + 9) / 2 ^ 28 = 1) := decide_eq_decide.mpr (alpha_iff small)
  refine ⟨?_, pieces.primary.begin unknown rfl rfl ?_ fits rfl, ?_⟩
  · apply pieces.canvas.other rfl rfl (fun _ => rfl)
    rw [tag]
    decide
  · simp only [alpha]
    exact said
  · apply pieces.features.other rfl
    rw [tag]
    decide

theorem Pieces.takeFeature (pieces : Pieces done s) (tag : c.tag ∈ webpFeatures)
    (taken : s.takeFeature bytes c.data.length c.tag = .ok t) : Pieces (done ++ [c]) t := by
  simp only [WebpState.takeFeature, reject_bind] at taken
  obtain ⟨fresh, -, taken⟩ := taken
  cases taken
  simp only [Bool.or_eq_false_iff, Option.isNone_eq_false_iff, List.contains_eq_mem, decide_eq_false_iff_not,
    Bool.and_eq_false_iff, decide_eq_true_eq, Option.isSome_eq_false_iff,
    Option.isNone_iff_eq_none, decide_not, Bool.not_eq_eq_eq_not, Bool.not_false] at fresh
  obtain ⟨⟨⟨⟨canvas, new⟩, preceding⟩, alpha⟩, following⟩ := fresh
  have apart : ∀ tag ∈ webpFeatures, tag ≠ ascii "VP8X" ∧ tag ≠ ascii "VP8 " ∧ tag ≠ ascii "VP8L" := by decide
  obtain ⟨notCanvas, notLossy, notLossless⟩ := apart _ tag
  refine ⟨pieces.canvas.other rfl rfl (fun unseen => ?_) notCanvas,
    pieces.primary.other rfl rfl rfl (fun is => is.elim notLossy notLossless) (fun unseen => ?_) (fun seen => ?_),
    pieces.features.add rfl new⟩
  · rw [unseen] at canvas
    cases canvas
  · rcases following with (lossy | profile) | seen
    · rw [lossy]
      decide
    · rw [profile]
      decide
    · rw [unseen] at seen
      cases seen
  · exact ⟨preceding.resolve_right seen, alpha.resolve_right fun holds => seen holds.1⟩

theorem Pieces.take (pieces : Pieces done s) (empty : s.chunks = 0 → done = [])
    (here : bytes.drop (s.offset + 8) = c.data ++ rest)
    (taken : s.take bytes c.data.length c.tag = .ok t) : Pieces (done ++ [c]) t := by
  rw [WebpState.take] at taken
  split at taken
  · rename_i tag
    exact pieces.takeCanvas empty here tag taken
  split at taken
  · rename_i tag
    exact pieces.takeLossy here tag taken
  split at taken
  · rename_i tag
    exact pieces.takeLossless here tag taken
  split at taken
  · rename_i tag
    exact pieces.takeFeature (List.contains_iff_mem.mp tag) taken
  split at taken
  · cases taken
  -- a chunk of another kind leaves the state as it is
  rename_i notCanvas notLossy notLossless other _
  cases taken
  have foreign : c.tag ∉ webpFeatures := fun member => other (List.contains_iff_mem.mpr member)
  have apart : ∀ tag ∈ webpFeatures, c.tag ≠ tag := fun tag member same => foreign (same ▸ member)
  refine ⟨pieces.canvas.other rfl rfl (fun _ => rfl) notCanvas, ?_, pieces.features.other rfl foreign⟩
  apply pieces.primary.other rfl rfl rfl fun is => is.elim notLossy notLossless
  · exact fun _ => ⟨apart _ (by decide), apart _ (by decide)⟩
  · exact fun _ => ⟨apart _ (by decide), apart _ (by decide)⟩

/-- The position and the count play no part. -/
theorem Pieces.moved (pieces : Pieces done s) (chunks offset : Nat) : Pieces done { s with chunks, offset } :=
  ⟨pieces.canvas, pieces.primary, pieces.features⟩

theorem WebpState.take_same (taken : s.take bytes n tag = .ok t) :
    t.offset = s.offset ∧ t.chunks = s.chunks := by
  rw [WebpState.take] at taken
  split at taken
  · simp only [WebpState.takeCanvas, reject_bind] at taken
    obtain ⟨-, -, taken⟩ := taken
    obtain ⟨_, -, taken⟩ := bind_ok.mp taken
    cases taken
    exact ⟨rfl, rfl⟩
  split at taken
  · simp only [WebpState.takeLossy, reject_bind] at taken
    obtain ⟨-, -, taken⟩ := taken
    obtain ⟨_, -, taken⟩ := bind_ok.mp taken
    cases taken
    exact ⟨rfl, rfl⟩
  split at taken
  · simp only [WebpState.takeLossless, reject_bind] at taken
    obtain ⟨-, -, -, taken⟩ := taken
    obtain ⟨_, -, taken⟩ := bind_ok.mp taken
    cases taken
    exact ⟨rfl, rfl⟩
  split at taken
  · simp only [WebpState.takeFeature, reject_bind] at taken
    obtain ⟨-, -, taken⟩ := taken
    cases taken
    exact ⟨rfl, rfl⟩
  split at taken
  · cases taken
  · cases taken
    exact ⟨rfl, rfl⟩

/-- One round reads the chunk that stands at its position, up to the next position. -/
theorem webpChunk_spec (collected : Collected done s) (is : webpChunk bytes s = .ok t) :
    Collected (done ++ [WebpChunk.readAt bytes s.offset]) t ∧ t.offset ≤ bytes.length ∧
      bytes.drop s.offset = (WebpChunk.readAt bytes s.offset).encode ++ bytes.drop t.offset := by
  simp only [webpChunk, reject_bind] at is
  generalize length : little32 bytes (s.offset + 4) = n at is
  obtain ⟨bounds, still, is⟩ := is
  obtain ⟨u, taken, is⟩ := bind_ok.mp is
  cases is
  simp only [Bool.or_eq_false_iff, Bool.and_eq_false_iff, decide_eq_false_iff_not, not_lt, not_not] at bounds still
  obtain ⟨⟨-, inside⟩, padding⟩ := bounds
  have padded : n &&& 1 ≠ 0 → octet bytes (s.offset + 8 + n) = 0 := by
    intro odd
    have zero := padding.resolve_left odd
    have one : n &&& 1 = 1 := by
      rw [Nat.and_one_is_mod] at odd ⊢
      omega
    rwa [one, Nat.add_sub_cancel] at zero
  obtain ⟨size, data, whole⟩ := webpChunk_here length inside padded
  obtain ⟨offset, chunks⟩ := WebpState.take_same taken
  have taken' : s.take bytes (WebpChunk.readAt bytes s.offset).data.length
      (WebpChunk.readAt bytes s.offset).tag = .ok u := by
    rw [size]
    exact taken
  have empty : s.chunks = 0 → done = [] := by
    intro zero
    rw [collected.count] at zero
    exact List.eq_nil_of_length_eq_zero zero
  have before : Pieces done s := ⟨collected.canvas, collected.primary, collected.features⟩
  have after := (before.take empty data taken').moved (u.chunks + 1) (s.offset + 8 + n + (n &&& 1))
  refine ⟨⟨?_, fun c member => ?_, after.canvas, after.primary, after.features⟩, inside, whole⟩
  · simp [chunks, collected.count]
  · rcases List.mem_append.mp member with old | new
    · exact collected.still c old
    · rw [List.mem_singleton.mp new]
      exact still

theorem flag_iff {said present : Bool} (same : ¬ said ≠ present) {P Q : Prop}
    (saidIff : said = true ↔ P) (presentIff : present = true ↔ Q) : P ↔ Q := by
  rw [← saidIff, ← presentIff, not_not.mp same]

/-- A chunk of another kind than the primary one lies around it. -/
theorem exists_around {before after : List WebpChunk} {primary : WebpChunk} {tag : Bytes}
    (other : primary.tag ≠ tag) :
    (∃ c ∈ before ++ primary :: after, c.tag = tag) ↔ ∃ c ∈ before ++ after, c.tag = tag := by
  constructor
  · rintro ⟨c, member, is⟩
    have apart : c ≠ primary := by
      rintro rfl
      exact other is
    exact ⟨c, by simpa [apart] using member, is⟩
  · rintro ⟨c, member, is⟩
    rcases List.mem_append.mp member with front | back
    · exact ⟨c, List.mem_append_left _ front, is⟩
    · exact ⟨c, List.mem_append_right _ (List.mem_cons_of_mem _ back), is⟩

theorem WebpChunk.Says.isPrimary {width height : Nat} {alpha : Bool} (own : c.Says width height alpha) :
    c.isPrimary := by
  cases own with
  | lossy tag => exact .inl tag
  | lossless tag => exact .inr tag

/-- What is collected when the loop is left makes up a WebP. -/
theorem WebpState.finish_spec {image : Image} (collected : Collected done s)
    (is : s.finish bytes = .ok image) :
    s.offset = bytes.length ∧ Webp done image.width image.height ∧
      image = { format := .webp, width := image.width, height := image.height,
                pixels := image.width * image.height } := by
  have primaryOf := collected.primary
  have canvasOf := collected.canvas
  simp only [WebpState.finish, PrimaryOf, CanvasOf] at is primaryOf canvasOf
  cases found : s.primary with
  | none =>
    rw [found] at is
    cases is
  | some primary =>
    rw [found] at is primaryOf
    simp only [reject_bind, decide_eq_false_iff_not, not_not] at is
    obtain ⟨all, is⟩ := is
    obtain ⟨before, p, after, rfl, own, isTag, fits, whole, others, preceding, following⟩ := primaryOf
    have notFeature : ∀ tag ∈ webpFeatures, p.tag ≠ tag := by
      have apart : ∀ tag ∈ webpFeatures, ascii "VP8 " ≠ tag ∧ ascii "VP8L" ≠ tag := by decide
      intro tag member
      rcases own.isPrimary with lossy | lossless
      · rw [lossy]
        exact (apart tag member).1
      · rw [lossless]
        exact (apart tag member).2
    cases drawn : s.canvas with
    | none =>
      rw [drawn] at is
      simp only at is
      split at is
      · rename_i one
        cases is
        have count := collected.count
        rw [one, List.length_append, List.length_cons] at count
        have first : before = [] := List.eq_nil_of_length_eq_zero (by omega)
        have last : after = [] := List.eq_nil_of_length_eq_zero (by omega)
        exact ⟨all, ⟨fits, collected.still, before, p, after, _, rfl, own, others, .inl ⟨first, last⟩⟩, whole⟩
      · cases is
    | some canvas =>
      rw [drawn] at is canvasOf
      simp only [reject_bind, Bool.or_eq_false_iff, Bool.and_eq_false_iff, decide_eq_false_iff_not] at is
      obtain ⟨⟨⟨⟨⟨⟨wide, high⟩, icc⟩, exif⟩, xmp⟩, alpha⟩, lossy, is⟩ := is
      cases is
      have listed : ∀ tag ∈ webpFeatures,
          (s.features.contains tag = true ↔ ∃ c ∈ before ++ after, c.tag = tag) := by
        intro tag member
        rw [List.contains_iff_mem, (collected.features tag member).1, exists_around (notFeature tag member)]
      refine ⟨all, ⟨fits, collected.still, before, p, after, _, rfl, own, others, .inr ⟨s.flags, ?_⟩⟩, whole⟩
      obtain ⟨first, front, chunks, drawnBy, unseen⟩ := canvasOf
      rw [not_not.mp wide, not_not.mp high] at drawnBy
      refine
        { canvas := ?_
          icc := flag_iff icc decide_eq_true_iff (listed _ (by decide))
          exif := flag_iff exif decide_eq_true_iff (listed _ (by decide))
          xmp := flag_iff xmp decide_eq_true_iff (listed _ (by decide))
          alpha := flag_iff alpha decide_eq_true_iff ?_
          preceding := preceding
          following := following
          once := fun tag member => ?_
          lossy := ?_ }
      · cases before with
        | nil =>
          obtain ⟨rfl, -⟩ := List.cons.inj chunks
          have apart : ascii "VP8X" ≠ ascii "VP8 " ∧ ascii "VP8X" ≠ ascii "VP8L" := by decide
          rcases own.isPrimary with tag | tag
          · exact absurd (drawnBy.tag.symm.trans tag) apart.1
          · exact absurd (drawnBy.tag.symm.trans tag) apart.2
        | cons head tail =>
          obtain ⟨rfl, rfl⟩ := List.cons.inj chunks
          refine ⟨head, tail, rfl, drawnBy, fun c member => unseen c ?_⟩
          rcases List.mem_append.mp member with old | new
          · exact List.mem_append_left _ old
          · exact List.mem_append_right _ (List.mem_cons_of_mem _ new)
      · rw [Bool.or_eq_true, listed _ (by decide)]
      · have count := (collected.features tag member).2
        rw [List.countP_append, List.countP_cons] at count
        rw [List.countP_append]
        omega
      · rintro ⟨c, member, is⟩
        have inside := (listed (ascii "ALPH") (by decide)).mpr ⟨c, List.mem_append_left _ member, is⟩
        rcases lossy with absent | tag
        · rw [inside] at absent
          cases absent
        · rw [isTag]
          exact not_not.mp tag

/-- Whatever `inspectWebp` accepts is a WebP of the size it returns. -/
theorem inspectWebp_spec {image : Image} (is : inspectWebp bytes = .ok image) :
    WebpFile bytes image.width image.height ∧
      image = { format := .webp, width := image.width, height := image.height,
                pixels := image.width * image.height } := by
  rw [inspectWebp] at is
  split at is
  · cases is
  rename_i header
  simp only [Bool.or_eq_true, decide_eq_true_eq, not_or, not_lt, not_not] at header
  obtain ⟨⟨⟨long, riff⟩, webp⟩, size⟩ := header
  -- the chunks read so far and what is still ahead make up the bytes after the header
  obtain ⟨last, ⟨done, parts, inside, collected⟩, returned⟩ :=
    (Loop.run_ok_iff.mp is).invariant (P := fun s => ∃ done, bytes.drop 12 =
      done.flatMap WebpChunk.encode ++ bytes.drop s.offset ∧ s.offset ≤ bytes.length ∧ Collected done s)
      ⟨[], rfl, by simp only; omega, rfl, nofun, ⟨nofun, rfl⟩, ⟨rfl, nofun, nofun⟩,
        fun tag _ => by simp⟩ (by
      rintro s t ⟨done, parts, inside, collected⟩ round
      simp only [webpLoop] at round
      split at round
      · obtain ⟨u, chunk, same⟩ := map_ok.mp round
        cases same
        obtain ⟨next, within, here⟩ := webpChunk_spec collected chunk
        refine ⟨_, ?_, within, next⟩
        rw [parts, here, List.flatMap_append, List.flatMap_singleton, List.append_assoc]
      · obtain ⟨_, -, same⟩ := map_ok.mp round
        cases same)
  simp only [webpLoop] at returned
  split at returned
  · obtain ⟨_, -, same⟩ := map_ok.mp returned
    cases same
  obtain ⟨_, left, same⟩ := map_ok.mp returned
  cases same
  obtain ⟨atEnd, grammar, whole⟩ := WebpState.finish_spec collected left
  refine ⟨⟨done, grammar, ?_, ?_⟩, whole⟩
  · have bound := ofLittleEndian_lt (slice bytes 4 4)
    rw [← little32_eq (by omega), length_slice (by omega)] at bound
    omega
  · have field : littleEndian 4 (bytes.length - 8) = slice bytes 4 4 := by
      rw [← size, Nat.add_sub_cancel]
      exact littleEndian_little32 (by omega)
    rw [atEnd, List.drop_length, List.append_nil] at parts
    calc bytes = slice bytes 0 4 ++ (slice bytes 4 4 ++ (slice bytes 8 4 ++ bytes.drop 12)) := by
          rw [← drop_slice bytes 8 4, ← drop_slice bytes 4 4, ← drop_slice bytes 0 4, List.drop_zero]
      _ = _ := by rw [riff, webp, field, parts, List.append_assoc, List.append_assoc]

end

end Conspire.Images
