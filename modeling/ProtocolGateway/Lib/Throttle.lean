import Mathlib.Data.List.Chain

/-!
# Throttled attempts

Attempts limited in number and in frequency: one is granted while fewer than `cap` were granted
since the last reset and, unless it is the first, not before `delay` has passed since the last one
granted. The clock is any type with a difference and a comparison; it need not run forward.

* `Limits.ask` — an attempt, granted or not.
* `Period` — attempts granted one after the other, with no reset between them.
* `Period.length_le`, `Period.spaced` — the bounds a period keeps, whatever was asked.
-/

universe u

namespace Throttle

/-- What limits the attempts. -/
structure Limits (τ : Type u) where
  cap : Nat
  delay : τ

/-- What is remembered of the attempts granted since the last reset. -/
@[ext] structure Counter (τ : Type u) where
  count : Nat
  last : Option τ
  deriving DecidableEq

variable {τ : Type u}

/-- The counter after a reset. -/
def Counter.zero : Counter τ := ⟨0, none⟩

/-- The counter after an attempt was granted. -/
def Counter.grant (c : Counter τ) (now : τ) : Counter τ := ⟨c.count + 1, some now⟩

@[simp] theorem Counter.count_grant (c : Counter τ) (now : τ) :
    (c.grant now).count = c.count + 1 := rfl

variable [Sub τ] [LT τ] [DecidableLT τ] (lim : Limits τ)

/-- Is an attempt granted? -/
def Limits.grants (c : Counter τ) (now : τ) : Bool :=
  decide (c.count < lim.cap) && c.last.all fun last => !decide (now - last < lim.delay)

/-- An attempt: the counter it leaves, and the times of the attempts granted, one or none. -/
def Limits.ask (c : Counter τ) (now : τ) : Counter τ × List τ :=
  if lim.grants c now then (c.grant now, [now]) else (c, [])

/-! ## Periods -/

/-- Attempts are granted at these times, from one reset to at most the next. -/
inductive Period : Counter τ → List τ → Counter τ → Prop
  | nil (c : Counter τ) : Period c [] c
  | cons {c c' : Counter τ} {now : τ} {times : List τ} (granted : lim.grants c now = true)
      (rest : Period (c.grant now) times c') : Period c (now :: times) c'

variable {lim} {c c' c'' : Counter τ} {times times' : List τ}

/-- One period after the other, with no reset between them, is a period. -/
theorem Period.append (h : Period lim c times c') (h' : Period lim c' times' c'') :
    Period lim c (times ++ times') c'' := by
  induction h with
  | nil c => exact h'
  | cons granted rest ih => exact .cons granted (ih h')

/-- An attempt, granted or not, belongs to the period. -/
theorem period_ask (c : Counter τ) (now : τ) :
    Period lim c (lim.ask c now).2 (lim.ask c now).1 := by
  unfold Limits.ask
  cases h : lim.grants c now with
  | true => exact .cons h (.nil _)
  | false => exact .nil c

/-- The counter counts the attempts granted. -/
theorem Period.count_eq (h : Period lim c times c') : c'.count = c.count + times.length := by
  induction h with
  | nil c => rfl
  | cons granted rest ih =>
    rw [ih, List.length_cons, Counter.count_grant]
    omega

/-- The counter stays within the cap. -/
theorem Period.count_le (h : Period lim c times c') (hc : c.count ≤ lim.cap) :
    c'.count ≤ lim.cap := by
  induction h with
  | nil c => exact hc
  | @cons c c' now times granted rest ih =>
    rw [Limits.grants, Bool.and_eq_true, decide_eq_true_eq] at granted
    exact ih granted.1

/-- **At most `cap` attempts are granted in a period.** -/
theorem Period.length_le (h : Period lim c times c') (hc : c.count ≤ lim.cap) :
    times.length ≤ lim.cap := by
  have hcount := h.count_eq
  have hle := h.count_le hc
  omega

/-- **Any two consecutive attempts of a period are at least `delay` apart**, the one granted before
it included. -/
theorem Period.spaced (h : Period lim c times c') :
    (c.last.toList ++ times).IsChain fun a b => ¬b - a < lim.delay := by
  induction h with
  | nil c => cases c.last <;> simp
  | @cons c c' now times granted rest ih =>
    have hchain : (now :: times).IsChain fun a b => ¬b - a < lim.delay := ih
    rw [Limits.grants, Bool.and_eq_true] at granted
    cases hlast : c.last with
    | none => exact hchain
    | some last =>
      have hgap := granted.2
      rw [hlast, Option.all_some, Bool.not_eq_true', decide_eq_false_iff_not] at hgap
      exact List.isChain_cons_cons.mpr ⟨hgap, hchain⟩

end Throttle
