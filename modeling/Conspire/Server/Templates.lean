import Conspire.Library.Infix
import Conspire.Library.Loop
import Conspire.Server.Boundaries

/-! Pages made from templates (`replaceLiteral`, `htmlText` and `pageTitle` of
`utils/ServerBoundaries.hpp`, `renderPage` of `controller/StaticController.hpp`). A marker is
looked for in what the replacements so far have left of the text, and never in a replacement. -/
namespace Conspire
namespace Boundaries
open Loops

def htmlText (value : Bytes) : Bytes :=
  value.flatMap fun character =>
    if character = '&'.toUInt8 then ascii "&amp;"
    else if character = '<'.toUInt8 then ascii "&lt;"
    else if character = '>'.toUInt8 then ascii "&gt;"
    else if character = '"'.toUInt8 then ascii "&quot;"
    else if character = '\''.toUInt8 then ascii "&#39;"
    else [character]

def pageTitle (version : Bytes) : Bytes :=
  let version := match version with
    | first :: rest => if first = 'v'.toUInt8 then rest else first :: rest
    | [] => []
  ascii "Conspire v" ++ htmlText version ++ ascii " by Dyne.org"

/-- `text.find(marker, searchFrom)`, `none` for `npos`. -/
def find (text marker : Bytes) (searchFrom : Nat) : Option Nat :=
  if text.length < searchFrom then none
  else ((text.drop searchFrom).dropInfix? marker).map fun sides => searchFrom + sides.1.length

/-- `text.replace(position, count, replacement)` -/
def replace (text : Bytes) (position count : Nat) (replacement : Bytes) : Bytes :=
  text.take position ++ replacement ++ text.drop (position + count)

/-- The locals of `replaceLiteral`. -/
structure Search where
  text : Bytes
  searchFrom : Nat := 0
  replaced : Bool := false
  deriving DecidableEq, Repr

/-- A round of its loop; it returns the flag, and the text as it is then. -/
def replaceRound (marker replacement : Bytes) (s : Search) : Turn Search (Bytes × Bool) :=
  match find s.text marker s.searchFrom with
  | none => .done (s.text, s.replaced)
  | some position =>
    .next { text := replace s.text position marker.length replacement
            searchFrom := position + replacement.length
            replaced := true }

theorem find_eq_some {text marker : Bytes} {searchFrom position : Nat}
    (found : find text marker searchFrom = some position) :
    searchFrom ≤ position ∧ position + marker.length ≤ text.length := by
  simp only [find] at found
  split at found
  · cases found
  · obtain ⟨⟨front, back⟩, is, rfl⟩ := Option.map_eq_some_iff.mp found
    have lengths := congrArg List.length (Infix.split_iff.mp is).1
    simp only [List.length_append, List.length_drop] at lengths
    constructor
    · exact Nat.le_add_right ..
    · simp only
      omega

/-- What is left to search gets shorter by the marker in every round. -/
def replaceLoop (marker replacement : Bytes) (filled : marker ≠ []) : Loop Search (Bytes × Bool) Empty where
  round s := .ok (replaceRound marker replacement s)
  measure s := s.text.length - s.searchFrom
  falls := by
    intro s t is
    simp only [replaceRound, Except.ok.injEq] at is
    split at is
    · cases is
    · rename_i position found
      cases is
      obtain ⟨late, within⟩ := find_eq_some found
      have positive := List.length_pos_of_ne_nil filled
      simp only [replace, List.length_append, List.length_take, List.length_drop]
      omega

/-- The flag is what the function returns; the text is its in-out argument. -/
def replaceLiteral (text marker replacement : Bytes) : Bytes × Bool :=
  if filled : marker = [] then (text, false)
  else match (replaceLoop marker replacement filled).run { text } with
    | .ok result => result

end Boundaries

namespace Controller
open Boundaries

def titleMarker : Bytes := ascii "%%%CONSPIRE_TITLE%%%"
def buttonMarker : Bytes := ascii "%%%TOR_HIDDEN_SERVICE_BUTTON%%%"

def onionButton (onionBaseUrl : Option Bytes) : Bytes :=
  match onionBaseUrl with
  | none => []
  | some onionBaseUrl => ascii "<a id=\"tor-hidden-service\" class=\"button\" href=\"" ++ htmlText onionBaseUrl ++
      ascii "\" target=\"_blank\" rel=\"noopener noreferrer\">Tor hidden service</a>"

def renderPage (file : Bytes) (version onionBaseUrl : Option Bytes) : Bytes :=
  let title := pageTitle (version.getD (ascii "unknown"))
  let (page, _) := replaceLiteral file titleMarker title
  (replaceLiteral page buttonMarker (onionButton onionBaseUrl)).1

end Controller

namespace Boundaries
open Loops Infix
variable {text marker done rest : Bytes} {pieces : List Bytes}

/-- A search behind what is done finds the first occurrence in the rest. -/
theorem find_behind (done rest marker : Bytes) :
    find (done ++ rest) marker done.length =
      (rest.dropInfix? marker).map fun sides => done.length + sides.1.length := by
  have within : ¬ (done ++ rest).length < done.length := by
    rw [List.length_append]
    omega
  rw [find, if_neg within, List.drop_left]

/-- Behind what is done, the loop puts the replacement between the pieces of the rest, in one
round for each of them. -/
theorem replaceLoop_ends (filled : marker ≠ []) (replacement : Bytes) (cuts : Cuts marker rest pieces)
    (done : Bytes) (replaced : Bool) :
    (replaceLoop marker replacement filled).Ends pieces.length ⟨done ++ rest, done.length, replaced⟩
      (.ok (done ++ replacement.intercalate pieces, replaced || decide (1 < pieces.length))) := by
  induction cuts generalizing done replaced with
  | last unfound =>
    refine .done ?_
    simp [replaceLoop, replaceRound, find_behind, unfound]
  | @next whole piece behind pieces found cuts ih =>
    have is := (split_iff.mp found).1
    have several := List.length_pos_of_ne_nil cuts.ne_nil
    have front : (done ++ whole).take (done.length + piece.length) = done ++ piece := by
      rw [is, List.take_length_add_append, List.append_assoc, List.take_left]
    have back : (done ++ whole).drop (done.length + piece.length + marker.length) = behind := by
      rw [Nat.add_assoc, List.drop_length_add_append, is, ← List.length_append, List.drop_left]
    have round : (replaceLoop marker replacement filled).round ⟨done ++ whole, done.length, replaced⟩ =
        .ok (.next ⟨done ++ piece ++ replacement ++ behind, (done ++ piece ++ replacement).length, true⟩) := by
      simp only [replaceLoop, replaceRound, find_behind, found, Option.map_some, replace, front, back,
        List.length_append]
    have long : decide (1 < (piece :: pieces).length) = true := by
      rw [decide_eq_true_eq, List.length_cons]
      omega
    have ends := ih (done ++ piece ++ replacement) true
    rw [List.intercalate_cons_of_ne_nil cuts.ne_nil, long, Bool.or_true, ← List.append_assoc, ← List.append_assoc]
    rw [Bool.true_or] at ends
    exact .next round ends

theorem replaceLiteral_eq (cuts : Cuts marker text pieces) (filled : marker ≠ []) (replacement : Bytes) :
    replaceLiteral text marker replacement = (replacement.intercalate pieces, decide (1 < pieces.length)) := by
  have ends := replaceLoop_ends filled replacement cuts [] false
  have run := ends.run
  rw [List.nil_append, List.nil_append, Bool.false_or] at run
  simp only [replaceLiteral, dif_neg filled]
  split
  rename_i result is
  exact Except.ok.inj (is.symm.trans run)

/-- The pieces do not depend on the replacement, which is put between them in one pass. -/
theorem replaced_in_one_pass (filled : marker ≠ []) (text : Bytes) :
    ∃ pieces, (∀ other, Cuts marker text other ↔ other = pieces) ∧ marker.intercalate pieces = text ∧
      pieces.length ≤ text.length + 1 ∧
      ∀ replacement,
        (replaceLoop marker replacement filled).Ends pieces.length { text }
          (.ok (replaceLiteral text marker replacement)) ∧
        (replaceLiteral text marker replacement).1 = replacement.intercalate pieces ∧
        ((replaceLiteral text marker replacement).2 = true ↔ marker <:+: text) := by
  obtain ⟨pieces, cuts⟩ := Cuts.total filled text
  refine ⟨pieces, fun other => ⟨cuts.unique, fun same => same ▸ cuts⟩, cuts.intercalate, cuts.length_le filled, ?_⟩
  intro replacement
  have ends := replaceLoop_ends filled replacement cuts [] false
  rw [List.nil_append, List.nil_append, Bool.false_or] at ends
  rw [replaceLiteral_eq cuts filled]
  refine ⟨ends, rfl, ?_⟩
  rw [decide_eq_true_eq, cuts.several_iff]

/-- A marker that the text only spells once the first one is gone is no marker. -/
theorem replaced_in_one_pass_spelled :
    replaceLiteral (ascii "a%%bb") (ascii "%b") [] = (ascii "a%b", true) ∧
    ∃ pieces, (∀ other, Cuts (ascii "%b") (ascii "a%%bb") other ↔ other = pieces) ∧
      (ascii "%b").intercalate pieces = ascii "a%%bb" ∧ pieces.length ≤ (ascii "a%%bb").length + 1 ∧
      ∀ replacement,
        (replaceLoop (ascii "%b") replacement (by decide)).Ends pieces.length { text := ascii "a%%bb" }
          (.ok (replaceLiteral (ascii "a%%bb") (ascii "%b") replacement)) ∧
        (replaceLiteral (ascii "a%%bb") (ascii "%b") replacement).1 = replacement.intercalate pieces ∧
        ((replaceLiteral (ascii "a%%bb") (ascii "%b") replacement).2 = true ↔ ascii "%b" <:+: ascii "a%%bb") :=
  ⟨by decide, replaced_in_one_pass (by decide) (ascii "a%%bb")⟩

end Boundaries

namespace Controller
open Boundaries Infix

/-- A page is its template cut twice, at the title's marker, and at the button's in what that gave. -/
theorem renderPage_eq (file : Bytes) (version onionBaseUrl : Option Bytes) :
    ∃ pieces parts, Cuts titleMarker file pieces ∧
      Cuts buttonMarker ((pageTitle (version.getD (ascii "unknown"))).intercalate pieces) parts ∧
      renderPage file version onionBaseUrl = (onionButton onionBaseUrl).intercalate parts := by
  obtain ⟨pieces, cuts⟩ := Cuts.total (show titleMarker ≠ [] by decide) file
  obtain ⟨parts, cuts'⟩ := Cuts.total (show buttonMarker ≠ [] by decide)
    ((pageTitle (version.getD (ascii "unknown"))).intercalate pieces)
  refine ⟨pieces, parts, cuts, cuts', ?_⟩
  rw [renderPage, replaceLiteral_eq cuts (by decide)]
  simp only [replaceLiteral_eq cuts' (by decide)]

end Controller
end Conspire
