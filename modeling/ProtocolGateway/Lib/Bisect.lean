import Mathlib.Data.List.Basic
import Mathlib.Algebra.Order.Group.Int
import Mathlib.Data.List.Perm.Basic

/-!
# Ranges that are cut in halves

A range of positions is cut at a position inside it, its parts are cut again, and each part is looked up
by the times of its two ends. If the times of the positions are in order, the parts together hold what
the range holds, each element once. If a part runs backwards, what lies between its ends is held once
more than it should be.

* `Part` — the parts a range can be cut into.
* `within`, `perm_filter_within` — two parts that meet hold what the range holds.
* `starts_sub_ends_le` — a part holds at least what its ends say, and more if it runs backwards.
-/

universe u v

namespace Bisect

/-! ## Parts -/

/-- The parts that a range can be cut into, where each range is cut at one position, or not at all. -/
inductive Part {α : Type u} (cut : α → α → Option α) : α → α → α → α → Prop
  | whole (a b : α) : Part cut a b a b
  | left {a b m x y : α} : cut a b = some m → Part cut a m x y → Part cut a b x y
  | right {a b m x y : α} : cut a b = some m → Part cut m b x y → Part cut a b x y

theorem Part.trans {α : Type u} {cut : α → α → Option α} {a b x y x' y' : α}
    (h : Part cut a b x y) (h' : Part cut x y x' y') : Part cut a b x' y' := by
  induction h with
  | whole => exact h'
  | left hcut _ ih => exact .left hcut (ih h')
  | right hcut _ ih => exact .right hcut (ih h')

/-! ## Elements of a range -/

section

variable {β : Type v} [LinearOrder β] {x y z t : β} {closed : Bool}

/-- Is the time in the range? Its end belongs to it if it is closed. -/
def within (x y : β) (closed : Bool) (t : β) : Bool :=
  decide (x ≤ t) && (if closed then decide (t ≤ y) else decide (t < y))

theorem within_iff : within x y closed t = true ↔
    x ≤ t ∧ if closed = true then t ≤ y else t < y := by
  unfold within
  cases closed <;> simp

/-- **Two parts that meet hold what the range holds.** -/
theorem perm_filter_within {ρ : Type u} (time : ρ → β) (rows : List ρ) (hxy : x ≤ y) (hyz : y ≤ z) :
    (rows.filter (fun r => within x y false (time r)) ++
      rows.filter fun r => within y z closed (time r)).Perm
      (rows.filter fun r => within x z closed (time r)) := by
  have hfirst : (rows.filter fun r => within x y false (time r)) =
      (rows.filter fun r => within x z closed (time r)).filter fun r => decide (time r < y) := by
    rw [List.filter_filter]
    refine List.filter_congr fun r _ => ?_
    rw [Bool.eq_iff_iff, Bool.and_eq_true, within_iff, within_iff, decide_eq_true_iff]
    constructor
    · rintro ⟨hx, hy⟩
      have hlt : time r < y := hy
      refine ⟨hlt, hx, ?_⟩
      split
      · exact (hlt.trans_le hyz).le
      · exact hlt.trans_le hyz
    · rintro ⟨hlt, hx, -⟩
      exact ⟨hx, hlt⟩
  have hsecond : (rows.filter fun r => within y z closed (time r)) =
      (rows.filter fun r => within x z closed (time r)).filter fun r => !decide (time r < y) := by
    rw [List.filter_filter]
    refine List.filter_congr fun r _ => ?_
    rw [Bool.eq_iff_iff, Bool.and_eq_true, within_iff, within_iff, Bool.not_eq_true',
      decide_eq_false_iff_not, not_lt]
    constructor
    · rintro ⟨hy, hz⟩
      exact ⟨hy, hxy.trans hy, hz⟩
    · rintro ⟨hy, -, hz⟩
      exact ⟨hy, hz⟩
  rw [hfirst, hsecond]
  exact List.filter_append_perm _ _

/-! ## Counting -/

/-- Has the range begun? -/
def starts (x t : β) : Int := if x ≤ t then 1 else 0

/-- Is the range over? -/
def ends (y : β) (closed : Bool) (t : β) : Int :=
  if (if closed = true then y < t else y ≤ t) then 1 else 0

/-- A time is in a range that runs forwards if the range has begun and not ended. -/
theorem starts_sub_ends (hxy : x ≤ y) :
    starts x t - ends y closed t = if within x y closed t = true then 1 else 0 := by
  unfold starts ends within
  cases closed with
  | true =>
    by_cases hx : x ≤ t
    · by_cases hy : t ≤ y
      · simp [hx, hy, not_lt.mpr hy]
      · simp [hx, hy, not_le.mp hy]
    · have hnot : ¬y < t := fun h => hx (hxy.trans h.le)
      simp [hx, hnot]
  | false =>
    by_cases hx : x ≤ t
    · by_cases hy : t < y
      · simp [hx, hy, not_le.mpr hy]
      · simp [hx, hy, not_lt.mp hy]
    · have hnot : ¬y ≤ t := fun h => hx (hxy.trans h)
      simp [hx, hnot]

/-- A range holds a time at least if it has begun and not ended. -/
theorem starts_sub_ends_le :
    starts x t - ends y closed t ≤ if within x y closed t = true then 1 else 0 := by
  rcases le_or_gt x y with hxy | hyx
  · exact (starts_sub_ends hxy).le
  · refine le_trans ?_ (show (0 : Int) ≤ _ by split <;> simp)
    unfold starts ends
    by_cases hx : x ≤ t
    · have hy : y < t := hyx.trans_le hx
      cases closed with
      | true => simp [hx, hy]
      | false => simp [hx, hy.le]
    · rw [if_neg hx]
      split <;> split <;> simp

/-- Between the ends of a range that runs backwards the difference is one too small. -/
theorem starts_sub_ends_backward (hyt : y < t) (htx : t < x) :
    starts x t - ends y closed t + 1 ≤ 0 := by
  unfold starts ends
  rw [if_neg (not_le.mpr htx)]
  cases closed with
  | true => simp [hyt]
  | false => simp [hyt.le]

/-- Two parts that meet: where one ends the other begins. -/
theorem ends_false_eq_starts : ends y false t = starts y t := by
  simp [ends, starts]

end

end Bisect
