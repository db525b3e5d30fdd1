import Mathlib.Algebra.Order.BigOperators.Group.List
import Mathlib.Algebra.Order.Floor.Ring
import Mathlib.Algebra.BigOperators.Ring.List
import Mathlib.Tactic.FieldSimp

/-!
# Progress meters

A meter adds up credits and shows, after each, the whole part of their sum, cut at a total. The
credits of a piece of work are its weight split evenly over its steps.

* `readings_sorted`, `readings_le` — what is shown does not decrease and stays within the total.
* `readings_last` — what is shown after the last credit.
* `sum_evenly` — the steps of a piece of work are credited with its weight.
-/

universe u

namespace Meter

variable {K : Type u} [Field K] [LinearOrder K]

/-- The credits of the steps of a piece of work. -/
def evenly (weight : K) (steps : Nat) : List K := List.replicate steps (weight / steps)

section

variable [FloorRing K]

/-- What a meter shows. -/
def shown (total processed : K) : Int := ⌊min processed total⌋

/-- What a meter shows after each of the credits. -/
def readings (total : K) (processed : K) : List K → List Int
  | [] => []
  | credit :: rest =>
    shown total (processed + credit) :: readings total (processed + credit) rest

theorem shown_mono {total processed processed' : K} (h : processed ≤ processed') :
    shown total processed ≤ shown total processed' :=
  Int.floor_le_floor (min_le_min_right total h)

theorem shown_le (total processed : K) : shown total processed ≤ ⌊total⌋ :=
  Int.floor_le_floor (min_le_right _ _)

theorem shown_total (total : K) : shown total total = ⌊total⌋ := by
  rw [shown, min_self]

theorem readings_append (total processed : K) (credits credits' : List K) :
    readings total processed (credits ++ credits') =
      readings total processed credits ++ readings total (processed + credits.sum) credits' := by
  induction credits generalizing processed with
  | nil => simp [readings]
  | cons credit rest ih =>
    rw [List.cons_append, readings, ih, readings, List.cons_append, List.sum_cons, add_assoc]

/-- Every reading is within the total. -/
theorem readings_le {total processed : K} {credits : List K} {reading : Int}
    (h : reading ∈ readings total processed credits) : reading ≤ ⌊total⌋ := by
  induction credits generalizing processed with
  | nil => cases h
  | cons credit rest ih =>
    rcases List.mem_cons.mp h with rfl | h
    · exact shown_le _ _
    · exact ih h

/-- The last reading is what the sum of the credits shows. -/
theorem readings_last {total processed : K} {credits : List K} (hcredits : credits ≠ []) :
    (readings total processed credits).getLast? =
      some (shown total (processed + credits.sum)) := by
  induction credits generalizing processed with
  | nil => exact absurd rfl hcredits
  | cons credit rest ih =>
    cases rest with
    | nil => simp [readings]
    | cons credit' rest =>
      have hlast := @ih (processed + credit) (List.cons_ne_nil _ _)
      rw [readings, List.getLast?_cons, hlast, Option.getD_some, add_assoc, ← List.sum_cons]

variable [IsStrictOrderedRing K]

/-- No reading is below what was shown before. -/
theorem shown_le_readings {total processed : K} {credits : List K}
    (hcredits : ∀ credit ∈ credits, 0 ≤ credit) {reading : Int}
    (h : reading ∈ readings total processed credits) : shown total processed ≤ reading := by
  induction credits generalizing processed with
  | nil => cases h
  | cons credit rest ih =>
    have hstep : shown total processed ≤ shown total (processed + credit) :=
      shown_mono (le_add_of_nonneg_right (hcredits credit List.mem_cons_self))
    rcases List.mem_cons.mp h with rfl | h
    · exact hstep
    · exact hstep.trans (ih (fun c hc => hcredits c (List.mem_cons_of_mem _ hc)) h)

/-- The readings do not decrease. -/
theorem readings_sorted {total processed : K} {credits : List K}
    (hcredits : ∀ credit ∈ credits, 0 ≤ credit) :
    (readings total processed credits).Pairwise (· ≤ ·) := by
  induction credits generalizing processed with
  | nil => exact List.Pairwise.nil
  | cons credit rest ih =>
    have hrest : ∀ c ∈ rest, 0 ≤ c := fun c hc => hcredits c (List.mem_cons_of_mem _ hc)
    exact List.Pairwise.cons (fun _ h => shown_le_readings hrest h) (ih hrest)

end

variable [IsStrictOrderedRing K]

theorem evenly_nonneg {weight : K} (h : 0 ≤ weight) {steps : Nat} :
    ∀ credit ∈ evenly weight steps, 0 ≤ credit := by
  intro credit hcredit
  rw [List.eq_of_mem_replicate hcredit]
  exact div_nonneg h (Nat.cast_nonneg steps)

/-- Work of at least one step is credited with its weight. -/
theorem sum_evenly (weight : K) {steps : Nat} (h : steps ≠ 0) :
    (evenly weight steps).sum = weight := by
  rw [evenly, List.sum_replicate, nsmul_eq_mul]
  exact mul_div_cancel₀ weight (Nat.cast_ne_zero.mpr h)

end Meter
