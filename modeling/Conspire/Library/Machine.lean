import Mathlib.Data.List.Induction
import Mathlib.Logic.Relation

/-! Labelled transition systems and the rules every interleaving argument uses:
an invariant of all reachable states, runs with their labels, runs whose steps
all meet a condition, and simulation of one system by another. -/
namespace Transition

structure Machine (S L : Type*) where
  init : S → Prop
  step : S → L → S → Prop

namespace Machine
variable {S L T K : Type*} {m : Machine S L}

inductive Reachable (m : Machine S L) : S → Prop where
  | start : m.init s → Reachable m s
  | next : Reachable m s → m.step s l t → Reachable m t

/-- A run with the labels it took, oldest first. -/
inductive Run (m : Machine S L) : List L → S → Prop where
  | start : m.init s → Run m [] s
  | next : Run m ls s → m.step s l t → Run m (ls ++ [l]) t

/-- The invariant rule. Facts already known of every reachable state may be
used in the step, so invariants are proved one after the other. -/
theorem Reachable.invariant {P : S → Prop} (reached : m.Reachable s)
    (start : ∀ s, m.init s → P s)
    (preserved : ∀ {s l t}, m.Reachable s → P s → m.step s l t → P t) : P s := by
  induction reached with
  | start initial => exact start _ initial
  | next before step ih => exact preserved before ih step

theorem Run.reachable (run : m.Run ls s) : m.Reachable s := by
  induction run with
  | start initial => exact .start initial
  | next _ step ih => exact .next ih step

theorem Reachable.run (reached : m.Reachable s) : ∃ ls, m.Run ls s := by
  induction reached with
  | start initial => exact ⟨[], .start initial⟩
  | next _ step ih =>
    obtain ⟨ls, run⟩ := ih
    exact ⟨_, .next run step⟩

theorem Run.initial (run : m.Run [] s) : m.init s := by
  generalize is : [] = all at run
  cases run with
  | start initial => exact initial
  | next => simp at is

theorem Run.last (run : m.Run (ls ++ [l]) t) : ∃ s, m.Run ls s ∧ m.step s l t := by
  generalize is : ls ++ [l] = all at run
  cases run with
  | start => simp at is
  | next before step =>
    obtain ⟨rfl, same⟩ := List.append_inj' is rfl
    cases same
    exact ⟨_, before, step⟩

/-- A step inside a run, with the run before it. -/
theorem Run.inside (run : m.Run (front ++ l :: back) u) : ∃ s t, m.Run front s ∧ m.step s l t := by
  induction back using List.reverseRecOn generalizing u with
  | nil =>
    obtain ⟨s, before, step⟩ := run.last
    exact ⟨s, u, before, step⟩
  | append_singleton back k ih =>
    rw [← List.cons_append, ← List.append_assoc] at run
    obtain ⟨_, before, _⟩ := run.last
    exact ih before

/-- What a step brings about and every step keeps holds from there on, with what it says of
the labels. -/
theorem Run.after {P : S → Prop} {Q : L → Prop} (run : m.Run (front ++ l :: back) t)
    (first : ∀ {s t}, m.Reachable s → m.step s l t → P t)
    (kept : ∀ {s k t}, m.Reachable s → P s → m.step s k t → P t ∧ Q k) : P t ∧ ∀ k ∈ back, Q k := by
  induction back using List.reverseRecOn generalizing t with
  | nil =>
    obtain ⟨s, before, step⟩ := run.last
    exact ⟨first before.reachable step, nofun⟩
  | append_singleton back k ih =>
    rw [← List.cons_append, ← List.append_assoc] at run
    obtain ⟨s, before, step⟩ := run.last
    obtain ⟨holds, earlier⟩ := ih before
    obtain ⟨holds, now⟩ := kept before.reachable holds step
    refine ⟨holds, fun j member => ?_⟩
    rcases List.mem_append.mp member with old | new
    · exact earlier j old
    · rwa [List.mem_singleton.mp new]

/-- The runs of a machine whose every step meets a condition on the state
before the step and on its label. -/
def restrict (m : Machine S L) (ok : S → L → Prop) : Machine S L where
  init := m.init
  step s l t := m.step s l t ∧ ok s l

theorem Reachable.of_restrict {ok : S → L → Prop} (reached : (m.restrict ok).Reachable s) :
    m.Reachable s := by
  induction reached with
  | start initial => exact .start initial
  | next _ step ih => exact .next ih step.1

theorem Reachable.weaken {ok weaker : S → L → Prop} (reached : (m.restrict ok).Reachable s)
    (weak : ∀ s l, ok s l → weaker s l) : (m.restrict weaker).Reachable s := by
  induction reached with
  | start initial => exact .start initial
  | next _ step ih => exact .next ih ⟨step.1, weak _ _ step.2⟩

/-- A run whose labels all meet the condition is one of the restricted machine. -/
theorem Run.restrict {ok : S → L → Prop} (run : m.Run ls s) (kept : ∀ l ∈ ls, ∀ s, ok s l) :
    (m.restrict ok).Reachable s := by
  induction run with
  | start initial => exact .start initial
  | next _ step ih =>
    have before := ih fun l earlier => kept l (List.mem_append_left _ earlier)
    have last := kept _ (List.mem_append_right _ (List.mem_singleton_self _))
    exact .next before ⟨step, last _⟩

/-- A forward simulation: every concrete step is matched by some abstract
steps between related states. -/
structure Simulates (concrete : Machine S L) (abstract : Machine T K) (R : S → T → Prop) : Prop where
  init : ∀ s, concrete.init s → ∃ t, abstract.init t ∧ R s t
  step : ∀ {s l s' t}, R s t → concrete.step s l s' →
    ∃ t', Relation.ReflTransGen (fun a b => ∃ k, abstract.step a k b) t t' ∧ R s' t'

/-- Reachability along any relation whose pairs are steps. -/
theorem Reachable.many {r : S → S → Prop} (reached : m.Reachable s)
    (path : Relation.ReflTransGen r s t) (steps : ∀ {a b}, r a b → ∃ l, m.step a l b) :
    m.Reachable t := by
  induction path with
  | refl => exact reached
  | tail _ step ih =>
    obtain ⟨_, step⟩ := steps step
    exact .next ih step

theorem Simulates.reachable {concrete : Machine S L} {abstract : Machine T K} {R : S → T → Prop}
    (sim : Simulates concrete abstract R) (reached : concrete.Reachable s) :
    ∃ t, abstract.Reachable t ∧ R s t := by
  induction reached with
  | start initial =>
    obtain ⟨t, start, related⟩ := sim.init _ initial
    exact ⟨t, .start start, related⟩
  | next _ step ih =>
    obtain ⟨t, reached, related⟩ := ih
    obtain ⟨t', path, related'⟩ := sim.step related step
    exact ⟨t', reached.many path id, related'⟩

end Machine
end Transition
