import Mathlib.Data.List.Basic

/-! Loops that return from within: each round fails, returns or leaves another state, and
a measure of the state falls from round to round. -/
namespace Loops

/-- What a round comes to that does not fail. -/
inductive Turn (S R : Type) where
  | next (state : S)
  | done (result : R)

structure Loop (S R E : Type) where
  round : S → Except E (Turn S R)
  measure : S → Nat
  falls : ∀ {s t}, round s = .ok (.next t) → measure t < measure s

namespace Loop
variable {S R E : Type} (loop : Loop S R E)

/-- The rounds from a state, of which there are fewer than the number. -/
def runWithin : (rounds : Nat) → (s : S) → loop.measure s < rounds → Except E R
  | rounds + 1, s, _within =>
    match _is : loop.round s with
    | .error e => .error e
    | .ok (.done r) => .ok r
    | .ok (.next t) => runWithin rounds t (Nat.lt_of_lt_of_le (loop.falls _is) (Nat.le_of_lt_succ _within))

def run (s : S) : Except E R := loop.runWithin (loop.measure s + 1) s (Nat.lt_succ_self _)

/-- The rounds of a loop that returns. -/
inductive Rounds : S → R → Prop where
  | done : loop.round s = .ok (.done r) → Rounds s r
  | next : loop.round s = .ok (.next t) → Rounds t r → Rounds s r

/-- What the loop comes to, and after how many rounds. -/
inductive Ends : Nat → S → Except E R → Prop where
  | fail : loop.round s = .error e → Ends 1 s (.error e)
  | done : loop.round s = .ok (.done r) → Ends 1 s (.ok r)
  | next : loop.round s = .ok (.next t) → Ends rounds t outcome → Ends (rounds + 1) s outcome

variable {loop}

theorem runWithin_ends {n : Nat} {s : S} (within : loop.measure s < n) :
    ∃ rounds ≤ n, loop.Ends rounds s (loop.runWithin n s within) := by
  induction n generalizing s with
  | zero => exact absurd within (Nat.not_lt_zero _)
  | succ n ih =>
    rw [runWithin]
    split
    · rename_i e is
      exact ⟨1, by omega, .fail is⟩
    · rename_i r is
      exact ⟨1, by omega, .done is⟩
    · rename_i t is
      obtain ⟨rounds, few, ends⟩ := ih (Nat.lt_of_lt_of_le (loop.falls is) (Nat.le_of_lt_succ within))
      exact ⟨rounds + 1, by omega, .next is ends⟩

/-- A loop ends, and its measure bounds the rounds it takes. -/
theorem run_ends (s : S) : ∃ rounds ≤ loop.measure s + 1, loop.Ends rounds s (loop.run s) :=
  runWithin_ends _

theorem Ends.unique {rounds rounds' : Nat} {s : S} {outcome outcome' : Except E R}
    (ends : loop.Ends rounds s outcome) (ends' : loop.Ends rounds' s outcome') : outcome = outcome' := by
  induction ends generalizing rounds' with
  | fail is =>
    cases ends' with
    | fail is' => exact congrArg _ (Except.error.inj (is.symm.trans is'))
    | done is' => cases is.symm.trans is'
    | next is' => cases is.symm.trans is'
  | done is =>
    cases ends' with
    | fail is' => cases is.symm.trans is'
    | done is' =>
      cases is.symm.trans is'
      rfl
    | next is' => cases is.symm.trans is'
  | next is _ ih =>
    cases ends' with
    | fail is' => cases is.symm.trans is'
    | done is' => cases is.symm.trans is'
    | next is' rest =>
      cases is.symm.trans is'
      exact ih rest

theorem Ends.rounds {n : Nat} {s : S} {r : R} {outcome : Except E R} (ends : loop.Ends n s outcome)
    (is : outcome = .ok r) : loop.Rounds s r := by
  induction ends with
  | fail _ => cases is
  | done returns =>
    cases is
    exact .done returns
  | next returns _ ih => exact .next returns (ih is)

theorem Rounds.ends {s : S} {r : R} (rounds : loop.Rounds s r) : ∃ n, loop.Ends n s (.ok r) := by
  induction rounds with
  | done is => exact ⟨1, .done is⟩
  | next is _ ih =>
    obtain ⟨n, ends⟩ := ih
    exact ⟨n + 1, .next is ends⟩

theorem run_ok_iff {s : S} {r : R} : loop.run s = .ok r ↔ loop.Rounds s r := by
  obtain ⟨_, _, ends⟩ := loop.run_ends s
  constructor
  · exact ends.rounds
  · intro rounds
    obtain ⟨_, returns⟩ := rounds.ends
    exact ends.unique returns

theorem Ends.run {n : Nat} {s : S} {outcome : Except E R} (ends : loop.Ends n s outcome) :
    loop.run s = outcome := by
  obtain ⟨_, _, runs⟩ := loop.run_ends s
  exact runs.unique ends

theorem run_fail {s : S} {e : E} (is : loop.round s = .error e) : loop.run s = .error e :=
  (Ends.fail is).run

theorem run_done {s : S} {r : R} (is : loop.round s = .ok (.done r)) : loop.run s = .ok r :=
  (Ends.done is).run

theorem run_next {s t : S} (is : loop.round s = .ok (.next t)) : loop.run s = loop.run t := by
  obtain ⟨_, _, ends⟩ := loop.run_ends t
  exact (Ends.next is ends).run

/-- What every round keeps holds in the state of the last one. -/
theorem Rounds.invariant {P : S → Prop} {s : S} {r : R} (rounds : loop.Rounds s r) (start : P s)
    (kept : ∀ {s t}, P s → loop.round s = .ok (.next t) → P t) :
    ∃ t, P t ∧ loop.round t = .ok (.done r) := by
  induction rounds with
  | done is => exact ⟨_, start, is⟩
  | next is _ ih => exact ih (kept start is)

end Loop

/-- A loop over the numbers below a bound: what holds of the rounds so far. -/
theorem foldlM_range {S E : Type} {f : S → Nat → Except E S} {P : Nat → S → Prop} {n : Nat} {s t : S}
    (is : (List.range n).foldlM f s = .ok t) (start : P 0 s)
    (kept : ∀ i < n, ∀ {s t}, P i s → f s i = .ok t → P (i + 1) t) : P n t := by
  induction n generalizing t with
  | zero =>
    cases is
    exact start
  | succ n ih =>
    rw [List.range_succ, List.foldlM_append] at is
    cases before : (List.range n).foldlM f s with
    | error e =>
      rw [before] at is
      cases is
    | ok u =>
      rw [before] at is
      change (f u n >>= pure) = .ok t at is
      rw [bind_pure] at is
      exact kept n (Nat.lt_succ_self n) (ih before fun i below => kept i (by omega)) is

end Loops
