import Mathlib.Init

/-! Programs with a state that may throw, and triples about them: what holds when a program
returns, and what holds when it throws. The state survives a throw. -/
namespace Triples

abbrev Program (σ ε α : Type) := ExceptT ε (StateM σ) α

section
variable {σ ε α β : Type}

/-- What a program comes to, and in which state. -/
def outcome (program : Program σ ε α) (s : σ) : Except ε α × σ := program.run s

/-- A program that is given by what it comes to. -/
def comesTo (result : σ → Except ε α × σ) : Program σ ε α := ExceptT.mk result

/-- A program whose outcome does not matter. -/
def ignored (program : Program σ ε α) : Program σ ε Unit :=
  comesTo fun s => (.ok (), (outcome program s).2)

structure Triple (before : σ → Prop) (program : Program σ ε α) (returned : α → σ → Prop) (thrown : σ → Prop) :
    Prop where
  comes : ∀ s, before s →
    match outcome program s with
    | (.ok a, t) => returned a t
    | (.error _, t) => thrown t

variable {before : σ → Prop} {returned : α → σ → Prop} {thrown : σ → Prop}

theorem triple_comesTo {result : σ → Except ε α × σ}
    (comes : ∀ s, before s →
      match result s with
      | (.ok a, t) => returned a t
      | (.error _, t) => thrown t) : Triple before (comesTo result) returned thrown :=
  ⟨comes⟩

theorem triple_pure {a : α} (holds : ∀ s, before s → returned a s) :
    Triple before (pure a : Program σ ε α) returned thrown :=
  ⟨holds⟩

theorem triple_throw {e : ε} (holds : ∀ s, before s → thrown s) :
    Triple before (throw e : Program σ ε α) returned thrown :=
  ⟨holds⟩

theorem triple_modify {f : σ → σ} {returned : PUnit → σ → Prop} (holds : ∀ s, before s → returned ⟨⟩ (f s)) :
    Triple before (modify f : Program σ ε PUnit) returned thrown :=
  ⟨holds⟩

theorem outcome_bind (program : Program σ ε α) (next : α → Program σ ε β) (s : σ) :
    outcome (program >>= next) s =
      match outcome program s with
      | (.ok a, t) => outcome (next a) t
      | (.error e, t) => (.error e, t) := by
  have runs : outcome (program >>= next) s =
      (match outcome program s with
      | (result, t) => ExceptT.bindCont next result t) := rfl
  rw [runs]
  obtain ⟨result, t⟩ := outcome program s
  cases result <;> rfl

theorem outcome_tryCatch (program : Program σ ε α) (handler : ε → Program σ ε α) (s : σ) :
    outcome (tryCatch program handler) s =
      match outcome program s with
      | (.ok a, t) => (.ok a, t)
      | (.error e, t) => outcome (handler e) t := by
  have runs : outcome (tryCatch program handler) s =
      (match outcome program s with
      | (result, t) => outcome (match result with
        | .ok a => ExceptT.mk (pure (.ok a))
        | .error e => handler e) t) := rfl
  rw [runs]
  obtain ⟨result, t⟩ := outcome program s
  cases result <;> rfl

theorem Triple.bind {program : Program σ ε α} {next : α → Program σ ε β} {last : β → σ → Prop}
    (first : Triple before program returned thrown) (rest : ∀ a, Triple (returned a) (next a) last thrown) :
    Triple before (program >>= next) last thrown := by
  constructor
  intro s holds
  have came := first.comes s holds
  rw [outcome_bind]
  revert came
  obtain ⟨result, t⟩ := outcome program s
  cases result with
  | ok a => exact (rest a).comes t
  | error e => exact id

/-- A program that goes on with what it reads of its state. -/
theorem triple_read {next : σ → Program σ ε α}
    (holds : ∀ s, before s → Triple before (next s) returned thrown) :
    Triple before (get >>= next) returned thrown :=
  ⟨fun s start => (holds s start).comes s start⟩

theorem triple_throw_bind {e : ε} {next : β → Program σ ε α} (holds : ∀ s, before s → thrown s) :
    Triple before (throw e >>= next) returned thrown := by
  have never : Triple before (throw e : Program σ ε β) (fun _ _ => False) thrown := triple_throw holds
  exact never.bind fun _ => ⟨fun _ absurd => absurd.elim⟩

theorem triple_discard {program : Program σ ε α} {last : PUnit → σ → Prop}
    (triple : Triple before program (fun _ => last ⟨⟩) thrown) : Triple before (discard program) last thrown :=
  Triple.bind triple fun _ => triple_pure fun _ holds => holds

theorem Triple.tryCatch {program : Program σ ε α} {handler : ε → Program σ ε α} {caught : σ → Prop}
    (first : Triple before program returned caught) (rest : ∀ e, Triple caught (handler e) returned thrown) :
    Triple before (tryCatch program handler) returned thrown := by
  constructor
  intro s holds
  have came := first.comes s holds
  rw [outcome_tryCatch]
  revert came
  obtain ⟨result, t⟩ := outcome program s
  cases result with
  | ok a => exact id
  | error e => exact (rest e).comes t

/-- The rule of consequence. -/
theorem Triple.weaken {before' : σ → Prop} {returned' : α → σ → Prop} {thrown' : σ → Prop}
    {program : Program σ ε α} (triple : Triple before program returned thrown)
    (pre : ∀ s, before' s → before s) (post : ∀ a s, returned a s → returned' a s)
    (fail : ∀ s, thrown s → thrown' s) : Triple before' program returned' thrown' := by
  constructor
  intro s holds
  have came := triple.comes s (pre s holds)
  revert came
  obtain ⟨result, t⟩ := outcome program s
  cases result with
  | ok a => exact post a t
  | error e => exact fail t

/-- What the precondition says of no state may be used of the program. -/
theorem triple_given {fact : Prop} {program : Program σ ε α} (known : ∀ s, before s → fact)
    (triple : fact → Triple before program returned thrown) : Triple before program returned thrown :=
  ⟨fun s holds => (triple (known s holds)).comes s holds⟩

theorem triple_exists {I : Type} {each : I → σ → Prop} {program : Program σ ε α}
    (triple : ∀ i, Triple (each i) program returned thrown) :
    Triple (fun s => ∃ i, each i s) program returned thrown :=
  ⟨fun s ⟨i, holds⟩ => (triple i).comes s holds⟩

theorem triple_ignored {program : Program σ ε α} {last : PUnit → σ → Prop}
    (triple : Triple before program (fun _ => last ⟨⟩) (last ⟨⟩)) : Triple before (ignored program) last thrown := by
  constructor
  intro s holds
  have came := triple.comes s holds
  have runs : outcome (Triples.ignored program) s = (.ok (), (outcome program s).2) := rfl
  rw [runs]
  revert came
  obtain ⟨result, t⟩ := outcome program s
  cases result with
  | ok a => exact id
  | error e => exact id

end

end Triples
