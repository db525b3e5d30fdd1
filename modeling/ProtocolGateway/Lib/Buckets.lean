import Mathlib.Data.Int.Order.Basic
import Mathlib.Order.Lattice

/-!
# Buckets of a time line

A division of a time line into half-open buckets, each instant in the bucket `[start t, stop t)`.
The buckets may have different widths, as calendar months do.

* `within_iff` — a window holds every bucket a range touches exactly when it reaches from the start
  of the range's first bucket to the end of its last one.
* `aligned` — the buckets of one width, counted from an origin.
-/

universe u

/-- A division of the time line into buckets. -/
structure Buckets (α : Type u) [LinearOrder α] where
  /-- the first instant of the bucket of an instant -/
  start : α → α
  /-- the first instant after the bucket of an instant -/
  stop : α → α
  start_le : ∀ t, start t ≤ t
  lt_stop : ∀ t, t < stop t
  start_eq : ∀ t u, start t ≤ u → u < stop t → start u = start t
  stop_eq : ∀ t u, start t ≤ u → u < stop t → stop u = stop t

namespace Buckets

variable {α : Type u} [LinearOrder α] (buckets : Buckets α)

/-! ## Buckets in order -/

/-- A later instant lies in the same bucket or in a later one. -/
theorem start_mono {t u : α} (h : t ≤ u) : buckets.start t ≤ buckets.start u := by
  by_contra hlt
  have hu : buckets.start u < buckets.start t := lt_of_not_ge hlt
  -- The bucket of `u` would begin before `t` and end after it.
  have hstart : buckets.start u ≤ t := le_trans (le_of_lt hu) (buckets.start_le t)
  have hstop : t < buckets.stop u := lt_of_le_of_lt h (buckets.lt_stop u)
  exact ne_of_gt hu (buckets.start_eq u t hstart hstop)

/-- An earlier instant lies in the same bucket or in an earlier one. -/
theorem stop_mono {t u : α} (h : t ≤ u) : buckets.stop t ≤ buckets.stop u := by
  by_contra hlt
  have ht : buckets.stop u < buckets.stop t := lt_of_not_ge hlt
  have hstart : buckets.start t ≤ u := le_trans (buckets.start_le t) h
  have hstop : u < buckets.stop t := lt_trans (buckets.lt_stop u) ht
  exact ne_of_lt ht (buckets.stop_eq t u hstart hstop)

/-! ## Windows -/

/-- The window from `a` to `b` contains the whole bucket of the instant `t`. -/
def Within (a b t : α) : Prop := a ≤ buckets.start t ∧ buckets.stop t ≤ b

/-- **A window covers a range.** Every bucket touched by the range `[s, e]` lies in the window when
the bucket of `s` starts in it and the bucket of `e` ends in it, and only then. -/
theorem within_iff {a b s e : α} (h : s ≤ e) :
    (∀ t, s ≤ t → t ≤ e → buckets.Within a b t) ↔ a ≤ buckets.start s ∧ buckets.stop e ≤ b := by
  constructor
  · intro hall
    exact ⟨(hall s (le_refl s) h).1, (hall e h (le_refl e)).2⟩
  · rintro ⟨hs, he⟩ t hst hte
    exact ⟨le_trans hs (buckets.start_mono hst), le_trans (buckets.stop_mono hte) he⟩

/-- A window that ends with a range leaves out the range's last bucket. -/
theorem not_within_self {a e : α} : ¬ buckets.Within a e e := by
  rintro ⟨-, hstop⟩
  exact not_lt_of_ge hstop (buckets.lt_stop e)

/-! ## Buckets of one width -/

/-- An instant of the bucket of `t` has the same last multiple of the width before it. -/
theorem sub_emod_eq {origin width t u : Int} (hstart : t - (t - origin) % width ≤ u)
    (hstop : u < t - (t - origin) % width + width) :
    u - (u - origin) % width = t - (t - origin) % width := by
  have hsplit : u - origin =
      (u - (t - (t - origin) % width)) + width * ((t - origin) / width) := by
    have := Int.emod_add_mul_ediv (t - origin) width
    omega
  have hrest : (u - origin) % width = u - (t - (t - origin) % width) := by
    rw [hsplit, Int.add_mul_emod_self_left]
    exact Int.emod_eq_of_lt (by omega) (by omega)
  omega

/-- The buckets at the multiples of a width, counted from an origin. -/
def aligned (origin width : Int) (hwidth : 0 < width) : Buckets Int where
  start t := t - (t - origin) % width
  stop t := t - (t - origin) % width + width
  start_le t := by
    have := Int.emod_nonneg (t - origin) (Int.ne_of_gt hwidth)
    omega
  lt_stop t := by
    have := Int.emod_lt_of_pos (t - origin) hwidth
    omega
  start_eq _ _ hstart hstop := sub_emod_eq hstart hstop
  stop_eq _ _ hstart hstop := by rw [sub_emod_eq hstart hstop]

variable {origin width : Int} {hwidth : 0 < width}

theorem aligned_stop (t : Int) :
    (aligned origin width hwidth).stop t = (aligned origin width hwidth).start t + width := rfl

/-- Aligned buckets start whole widths apart. -/
theorem dvd_start_sub_start (t u : Int) :
    width ∣ (aligned origin width hwidth).start u - (aligned origin width hwidth).start t := by
  refine ⟨(u - origin) / width - (t - origin) / width, ?_⟩
  have ht := Int.emod_add_mul_ediv (t - origin) width
  have hu := Int.emod_add_mul_ediv (u - origin) width
  rw [Int.mul_sub]
  simp only [aligned]
  omega

end Buckets
