import Mathlib.Data.List.Induction

/-!
# Guarded runs

Labelled transition systems, and the states their runs reach. A run may be *guarded*: only steps
that meet a condition on the state before them and on their label count. The condition stands for
what the environment is assumed to do, so a property of all guarded runs is a property of the
system under that assumption, and the trivial guard gives all runs.

`Reach.invariant` is the one induction: what holds initially and is kept by every guarded step
holds in every state reached.

Where the property is about the steps themselves and what they put out, `emit` is a run of a partial
step function with its outputs, and `emit_invariant` the induction over its history.
-/

namespace Runs

universe u v

variable {σ : Type u} {ι : Type v}

/-- A labelled transition system. -/
structure System (σ : Type u) (ι : Type v) where
  /-- the states a run may start in -/
  init : σ → Prop
  /-- `step s i s'`: from `s`, the label `i` can lead to `s'` -/
  step : σ → ι → σ → Prop

/-- The system of a step function. -/
def System.ofFun (init : σ → Prop) (f : σ → ι → σ) : System σ ι where
  init := init
  step s i s' := f s i = s'

/-- The states that runs whose steps all meet the guard reach. -/
inductive Reach (S : System σ ι) (guard : σ → ι → Prop) : σ → Prop
  | init {s : σ} : S.init s → Reach S guard s
  | step {s : σ} {i : ι} {s' : σ} :
      Reach S guard s → guard s i → S.step s i s' → Reach S guard s'

/-- The states that any run reaches. -/
abbrev Reachable (S : System σ ι) : σ → Prop := Reach S fun _ _ => True

namespace Reach

variable {S : System σ ι} {guard guard' : σ → ι → Prop} {s : σ}

/-- **Invariants.** What holds initially and is kept by every guarded step holds in every state
reached. The step may use that the state before it was reached. -/
theorem invariant {P : σ → Prop} (initial : ∀ s, S.init s → P s)
    (preserved : ∀ s i s', Reach S guard s → P s → guard s i → S.step s i s' → P s')
    (h : Reach S guard s) : P s := by
  induction h with
  | init h0 => exact initial _ h0
  | step hr hg hs ih => exact preserved _ _ _ hr ih hg hs

/-- A run under a guard is a run under every weaker one. -/
theorem mono (weaker : ∀ s i, guard s i → guard' s i) (h : Reach S guard s) :
    Reach S guard' s := by
  induction h with
  | init h0 => exact .init h0
  | step _ hg hs ih => exact .step ih (weaker _ _ hg) hs

/-- A guarded run is a run. -/
theorem reachable (h : Reach S guard s) : Reachable S s :=
  h.mono fun _ _ _ => trivial

end Reach

/-! ## Runs with outputs -/

section

universe w

variable {ο : Type w} {step : σ → ι → Option (σ × List ο)}

/-- Steps one after the other, with all they put out. -/
def emit (step : σ → ι → Option (σ × List ο)) (s : σ) : List ι → Option (σ × List ο)
  | [] => some (s, [])
  | i :: rest => (step s i).bind fun r => (emit step r.1 rest).map fun r' => (r'.1, r.2 ++ r'.2)

theorem emit_cons_eq_some_iff {s s' : σ} {i : ι} {rest : List ι} {out : List ο} :
    emit step s (i :: rest) = some (s', out) ↔
      ∃ s₁ out₁ out₂, step s i = some (s₁, out₁) ∧ emit step s₁ rest = some (s', out₂) ∧
        out = out₁ ++ out₂ := by
  rw [emit, Option.bind_eq_some_iff]
  constructor
  · rintro ⟨⟨s₁, out₁⟩, hstep, hrest⟩
    obtain ⟨⟨s₂, out₂⟩, hrun, heq⟩ := Option.map_eq_some_iff.mp hrest
    obtain ⟨rfl, rfl⟩ := Prod.mk.inj heq
    exact ⟨s₁, out₁, out₂, hstep, hrun, rfl⟩
  · rintro ⟨s₁, out₁, out₂, hstep, hrun, rfl⟩
    exact ⟨(s₁, out₁), hstep, Option.map_eq_some_iff.mpr ⟨(s', out₂), hrun, rfl⟩⟩

/-- A single step. -/
theorem emit_singleton (s : σ) (i : ι) : emit step s [i] = step s i := by
  rw [emit]
  cases step s i with
  | none => rfl
  | some r => simp [emit]

/-- A run that goes on. -/
theorem emit_append_eq_some_iff {s s' : σ} {steps steps' : List ι} {out : List ο} :
    emit step s (steps ++ steps') = some (s', out) ↔
      ∃ s₁ out₁ out₂, emit step s steps = some (s₁, out₁) ∧ emit step s₁ steps' = some (s', out₂) ∧
        out = out₁ ++ out₂ := by
  induction steps generalizing s out with
  | nil =>
    constructor
    · exact fun hrun => ⟨s, [], out, rfl, hrun, rfl⟩
    · rintro ⟨s₁, out₁, out₂, hnil, hrun, rfl⟩
      obtain ⟨rfl, rfl⟩ := Prod.mk.inj (Option.some.inj hnil)
      exact hrun
  | cons i steps ih =>
    rw [List.cons_append, emit_cons_eq_some_iff]
    constructor
    · rintro ⟨s₁, out₁, out₂, hstep, hrest, rfl⟩
      obtain ⟨s₂, out₃, out₄, hrun, hrun', rfl⟩ := ih.mp hrest
      exact ⟨s₂, out₁ ++ out₃, out₄,
        emit_cons_eq_some_iff.mpr ⟨s₁, out₁, out₃, hstep, hrun, rfl⟩, hrun',
        (List.append_assoc ..).symm⟩
    · rintro ⟨s₂, out₁, out₂, hrun, hrun', rfl⟩
      obtain ⟨s₁, out₃, out₄, hstep, hrest, rfl⟩ := emit_cons_eq_some_iff.mp hrun
      exact ⟨s₁, out₃, out₄ ++ out₂, hstep, ih.mpr ⟨s₂, out₄, out₂, hrest, hrun', rfl⟩,
        List.append_assoc ..⟩

/-- **Invariants of a history.** What holds before any step, and is kept by each step after the steps
before it, holds of every run. -/
theorem emit_invariant {P : List ι → σ → List ο → Prop} {s₀ : σ} (initial : P [] s₀ [])
    (preserved : ∀ steps s out i s' out', emit step s₀ steps = some (s, out) → P steps s out →
      step s i = some (s', out') → P (steps ++ [i]) s' (out ++ out'))
    {steps : List ι} {s : σ} {out : List ο} (h : emit step s₀ steps = some (s, out)) :
    P steps s out := by
  induction steps using List.reverseRecOn generalizing s out with
  | nil =>
    obtain ⟨rfl, rfl⟩ := Prod.mk.inj (Option.some.inj h)
    exact initial
  | append_singleton steps i ih =>
    obtain ⟨s₁, out₁, out₂, hrun, hstep, rfl⟩ := emit_append_eq_some_iff.mp h
    rw [emit_singleton] at hstep
    exact preserved steps s₁ out₁ i s out₂ hrun (ih hrun) hstep

end

end Runs
