import Mathlib.Data.List.Basic

/-! The first occurrence of one list in another, as what lies before and behind it, and a list
cut at the occurrences that are found from left to right and do not overlap. -/
namespace Infix
variable {α : Type*} [BEq α] [LawfulBEq α] {xs ys front back part : List α}

theorem split_iff : xs.dropInfix? part = some (front, back) ↔
    xs = front ++ part ++ back ∧ ∀ before after, xs = before ++ part ++ after → front.length ≤ before.length := by
  rw [List.dropInfix?_eq_some_iff]
  constructor
  · rintro ⟨⟨same, is, equal⟩, first⟩
    obtain rfl := eq_of_beq equal
    exact ⟨is, fun before after other => first before same after other (beq_self_eq_true same)⟩
  · rintro ⟨is, first⟩
    refine ⟨⟨part, is, beq_self_eq_true part⟩, fun before same after other equal => ?_⟩
    obtain rfl := eq_of_beq equal
    exact first before after other

/-- An occurrence means that there is a first one. -/
theorem split_isSome (is : xs = front ++ part ++ back) :
    ∃ before after, xs.dropInfix? part = some (before, after) := by
  induction h : front.length using Nat.strongRecOn generalizing front back with
  | _ n ih =>
    by_cases first : ∀ before after, xs = before ++ part ++ after → front.length ≤ before.length
    · exact ⟨front, back, split_iff.mpr ⟨is, first⟩⟩
    · obtain ⟨before, after, earlier, less⟩ : ∃ before after, xs = before ++ part ++ after ∧
          before.length < front.length := by
        simpa only [not_forall, Nat.not_le, exists_prop] using first
      exact ih before.length (h ▸ less) earlier rfl

theorem split_none_iff : xs.dropInfix? part = none ↔ ∀ before after, xs ≠ before ++ part ++ after := by
  constructor
  · rintro absent before after is
    obtain ⟨_, _, found⟩ := split_isSome is
    rw [absent] at found
    cases found
  · intro absent
    cases found : xs.dropInfix? part with
    | none => rfl
    | some sides => exact absurd (split_iff.mp found).1 (absent _ _)

/-- What comes behind does not change the first occurrence. -/
theorem split_append (found : xs.dropInfix? part = some (front, back)) (ys : List α) :
    (xs ++ ys).dropInfix? part = some (front, back ++ ys) := by
  obtain ⟨is, first⟩ := split_iff.mp found
  refine split_iff.mpr ⟨by rw [is, List.append_assoc], fun before after other => ?_⟩
  by_contra less
  rw [Nat.not_le] at less
  have inside : before ++ part <+: xs := by
    have outer : before ++ part <+: xs ++ ys := ⟨after, other.symm⟩
    apply List.prefix_of_prefix_length_le outer
    · exact List.prefix_append xs ys
    · rw [is]
      simp only [List.length_append]
      omega
  obtain ⟨rest, here⟩ := inside
  exact absurd (first before rest here.symm) (by omega)

/-- A part whose first element does not occur in front of it. -/
theorem split_of_not_mem {a : α} (absent : a ∉ front) (tail back : List α) :
    (front ++ a :: tail ++ back).dropInfix? (a :: tail) = some (front, back) := by
  refine split_iff.mpr ⟨rfl, fun before after is => ?_⟩
  by_contra less
  rw [Nat.not_le] at less
  have here := congrArg (·[before.length]?) is
  simp only [List.append_assoc, List.getElem?_append_left less, List.getElem?_append_right (Nat.le_refl _),
    Nat.sub_self, List.cons_append, List.getElem?_cons_zero] at here
  exact absent (List.mem_of_getElem? here)

/-- The first occurrence is also the first one without what comes behind it. -/
theorem split_front (found : xs.dropInfix? part = some (front, back)) :
    (front ++ part).dropInfix? part = some (front, []) := by
  obtain ⟨is, first⟩ := split_iff.mp found
  refine split_iff.mpr ⟨(List.append_nil _).symm, fun before after other => ?_⟩
  exact first before (after ++ back) (by rw [is, other, List.append_assoc])

/-- No occurrence ends before the first one does. -/
theorem split_within (found : xs.dropInfix? part = some (front, back)) (within : ys <+: xs)
    (short : ys.length < front.length + part.length) : ys.dropInfix? part = none := by
  refine split_none_iff.mpr fun before after is => ?_
  obtain ⟨rest, whole⟩ := within
  have first := (split_iff.mp found).2 before (after ++ rest) (by rw [← whole, is, List.append_assoc])
  rw [is, List.length_append, List.length_append] at short
  omega

/-- What holds no occurrence ends before the first one does. -/
theorem split_beyond (found : xs.dropInfix? part = some (front, back)) (within : ys <+: xs)
    (absent : ys.dropInfix? part = none) : ys.length < front.length + part.length := by
  by_contra long
  rw [Nat.not_lt] at long
  have inside : front ++ part <+: ys := by
    apply List.prefix_of_prefix_length_le _ within
    · rw [List.length_append]
      exact long
    · exact ⟨back, (split_iff.mp found).1.symm⟩
  obtain ⟨rest, is⟩ := inside
  exact split_none_iff.mp absent front rest is.symm

theorem split_none_within (absent : xs.dropInfix? part = none) (within : ys <+: xs) : ys.dropInfix? part = none := by
  refine split_none_iff.mpr fun before after is => ?_
  obtain ⟨rest, whole⟩ := within
  exact split_none_iff.mp absent before (after ++ rest) (by rw [← whole, is, List.append_assoc])

/-- A list cut at every occurrence of a part, each looked for behind the one before. -/
inductive Cuts (part : List α) : List α → List (List α) → Prop where
  | last : whole.dropInfix? part = none → Cuts part whole [whole]
  | next {whole piece rest pieces} : whole.dropInfix? part = some (piece, rest) → Cuts part rest pieces →
      Cuts part whole (piece :: pieces)

namespace Cuts
variable {pieces other : List (List α)}

omit [LawfulBEq α] in
theorem ne_nil (cuts : Cuts part xs pieces) : pieces ≠ [] := by
  cases cuts with
  | last => exact List.cons_ne_nil _ _
  | next => exact List.cons_ne_nil _ _

omit [LawfulBEq α] in
theorem unique (cuts : Cuts part xs pieces) (cuts' : Cuts part xs other) : other = pieces := by
  induction cuts generalizing other with
  | last absent =>
    cases cuts' with
    | last => rfl
    | next found => cases absent.symm.trans found
  | next found _ ih =>
    cases cuts' with
    | last absent => cases absent.symm.trans found
    | next found' rest =>
      cases found.symm.trans found'
      rw [ih rest]

theorem total (filled : part ≠ []) (xs : List α) : ∃ pieces, Cuts part xs pieces := by
  induction h : xs.length using Nat.strongRecOn generalizing xs with
  | _ length ih =>
    cases found : xs.dropInfix? part with
    | none => exact ⟨[xs], .last found⟩
    | some sides =>
      obtain ⟨front, back⟩ := sides
      have fewer : back.length < length := by
        have lengths := congrArg List.length (split_iff.mp found).1
        have positive := List.length_pos_of_ne_nil filled
        simp only [List.length_append] at lengths
        omega
      obtain ⟨pieces, cuts⟩ := ih _ fewer back rfl
      exact ⟨front :: pieces, .next found cuts⟩

/-- The pieces with the part between them are the list. -/
theorem intercalate (cuts : Cuts part xs pieces) : part.intercalate pieces = xs := by
  induction cuts with
  | last => exact List.intercalate_singleton
  | next found rest ih =>
    rw [List.intercalate_cons_of_ne_nil rest.ne_nil, ih, (split_iff.mp found).1]

/-- There are several pieces just when the part occurs. -/
theorem several_iff (cuts : Cuts part xs pieces) : 1 < pieces.length ↔ part <:+: xs := by
  cases cuts with
  | last absent =>
    rw [List.length_singleton]
    constructor
    · exact fun less => absurd less (Nat.lt_irrefl 1)
    · rintro ⟨before, after, is⟩
      exact absurd is.symm (split_none_iff.mp absent before after)
  | next found rest =>
    have positive := List.length_pos_of_ne_nil rest.ne_nil
    rw [List.length_cons]
    constructor
    · exact fun _ => ⟨_, _, (split_iff.mp found).1.symm⟩
    · intro _
      omega

theorem length_le (cuts : Cuts part xs pieces) (filled : part ≠ []) : pieces.length ≤ xs.length + 1 := by
  induction cuts with
  | last => exact Nat.le_add_left ..
  | next found _ ih =>
    have lengths := congrArg List.length (split_iff.mp found).1
    have positive := List.length_pos_of_ne_nil filled
    simp only [List.length_append] at lengths
    rw [List.length_cons]
    omega

end Cuts
end Infix
