import Mathlib.Logic.Basic

/-!
# Computations that may raise

Inversion rules for `Except`: what has to succeed for a computation made of others to succeed, and
with what result. `Returns` forgets the result. A loop returns exactly if every step does, in the
state that the steps before it left (`returns_foldlM_iff`), and keeps what every step keeps
(`foldlM_preserves`).
-/

universe u v w

namespace Outcomes

variable {ε : Type u} {α β : Type v}

theorem bind_eq_ok_iff {x : Except ε α} {f : α → Except ε β} {b : β} :
    x >>= f = .ok b ↔ ∃ a, x = .ok a ∧ f a = .ok b := by
  cases x with
  | error err => exact ⟨fun h => (by cases h), fun ⟨a, h, _⟩ => (by cases h)⟩
  | ok a =>
    constructor
    · exact fun h => ⟨a, rfl, h⟩
    · rintro ⟨a', h, hb⟩
      obtain rfl := Except.ok.inj h
      exact hb

theorem map_eq_ok_iff {x : Except ε α} {f : α → β} {b : β} :
    x.map f = .ok b ↔ ∃ a, x = .ok a ∧ f a = b := by
  cases x with
  | error err => exact ⟨fun h => (by cases h), fun ⟨a, h, _⟩ => (by cases h)⟩
  | ok a =>
    constructor
    · exact fun h => ⟨a, rfl, Except.ok.inj h⟩
    · rintro ⟨a', h, rfl⟩
      obtain rfl := Except.ok.inj h
      rfl

/-- Two computations that go on alike from what the first part returns. -/
theorem bind_congr_of_ok {x : Except ε α} {f g : α → Except ε β}
    (h : ∀ a, x = .ok a → f a = g a) : x >>= f = x >>= g := by
  cases x with
  | error err => rfl
  | ok a => exact h a rfl

/-- The computation does not raise. -/
def Returns (x : Except ε α) : Prop := ∃ a, x = .ok a

theorem returns_ok (a : α) : Returns (.ok a : Except ε α) := ⟨a, rfl⟩

theorem not_returns_error {err : ε} : ¬Returns (.error err : Except ε α) :=
  fun ⟨_, h⟩ => (by cases h)

theorem returns_map_iff {x : Except ε α} {f : α → β} : Returns (x.map f) ↔ Returns x := by
  cases x with
  | error err => exact iff_of_false not_returns_error not_returns_error
  | ok a => exact iff_of_true (returns_ok _) (returns_ok _)

theorem returns_bind_iff {x : Except ε α} {f : α → Except ε β} :
    Returns (x >>= f) ↔ Returns x ∧ ∀ a, x = .ok a → Returns (f a) := by
  constructor
  · rintro ⟨b, h⟩
    obtain ⟨a, hx, hf⟩ := bind_eq_ok_iff.mp h
    refine ⟨⟨a, hx⟩, fun a' hx' => ?_⟩
    obtain rfl := Except.ok.inj (hx.symm.trans hx')
    exact ⟨b, hf⟩
  · rintro ⟨⟨a, hx⟩, hf⟩
    obtain ⟨b, hb⟩ := hf a hx
    exact ⟨b, bind_eq_ok_iff.mpr ⟨a, hx, hb⟩⟩

variable {σ : Type v}

/-- What every step of a loop keeps, the loop keeps. -/
theorem foldlM_preserves (P : σ → Prop) {f : σ → α → Except ε σ} {l : List α} {s s' : σ}
    (step : ∀ a ∈ l, ∀ s s', P s → f s a = .ok s' → P s') (h : P s)
    (hrun : l.foldlM f s = .ok s') : P s' := by
  induction l generalizing s with
  | nil =>
    rw [← Except.ok.inj hrun]
    exact h
  | cons a l ih =>
    rw [List.foldlM_cons] at hrun
    obtain ⟨between, hstep, hrest⟩ := bind_eq_ok_iff.mp hrun
    exact ih (fun b hb => step b (List.mem_cons_of_mem _ hb))
      (step a List.mem_cons_self s between h hstep) hrest

/-- A loop whose steps leave its state alone. -/
theorem foldlM_of_fixed {f : σ → α → Except ε σ} {l : List α} {s : σ}
    (h : ∀ a ∈ l, f s a = .ok s) : l.foldlM f s = .ok s := by
  induction l with
  | nil => rfl
  | cons a l ih =>
    rw [List.foldlM_cons, h a List.mem_cons_self]
    exact ih fun b hb => h b (List.mem_cons_of_mem _ hb)

theorem foldlM_congr {f g : σ → α → Except ε σ} {l : List α} {s : σ}
    (h : ∀ a ∈ l, ∀ s, f s a = g s a) : l.foldlM f s = l.foldlM g s := by
  induction l generalizing s with
  | nil => rfl
  | cons a l ih =>
    rw [List.foldlM_cons, List.foldlM_cons, h a List.mem_cons_self]
    congr 1
    exact funext fun between => ih fun b hb => h b (List.mem_cons_of_mem _ hb)

/-- Two loops whose steps are alike in every state that keeps to `P`. -/
theorem foldlM_congr_of (P : σ → Prop) {f g : σ → α → Except ε σ} {l : List α} {s : σ}
    (step : ∀ a ∈ l, ∀ s s', P s → f s a = .ok s' → P s') (same : ∀ a ∈ l, ∀ s, P s → f s a = g s a)
    (h : P s) : l.foldlM f s = l.foldlM g s := by
  induction l generalizing s with
  | nil => rfl
  | cons a l ih =>
    rw [List.foldlM_cons, List.foldlM_cons, ← same a List.mem_cons_self s h]
    refine bind_congr_of_ok fun between hbetween => ?_
    exact ih (fun b hb => step b (List.mem_cons_of_mem _ hb))
      (fun b hb => same b (List.mem_cons_of_mem _ hb)) (step a List.mem_cons_self s between h hbetween)

/-- A loop may leave out a step that does nothing in every state that keeps to `P`. -/
theorem foldlM_skip (P : σ → Prop) {f : σ → α → Except ε σ} {before after : List α} {a : α} {s : σ}
    (step : ∀ b ∈ before, ∀ s s', P s → f s b = .ok s' → P s') (skip : ∀ s, P s → f s a = .ok s)
    (h : P s) : (before ++ a :: after).foldlM f s = (before ++ after).foldlM f s := by
  rw [List.foldlM_append, List.foldlM_append]
  refine bind_congr_of_ok fun between hbetween => ?_
  rw [List.foldlM_cons, skip between (foldlM_preserves P step h hbetween)]
  rfl

/-- A loop returns if each of its steps does. -/
theorem returns_foldlM_iff {f : σ → α → Except ε σ} {l : List α} {s : σ} :
    Returns (l.foldlM f s) ↔ ∀ before a after s', l = before ++ a :: after →
      before.foldlM f s = .ok s' → Returns (f s' a) := by
  induction l generalizing s with
  | nil =>
    refine iff_of_true (returns_ok s) fun before a after s' h => ?_
    exact absurd h (by simp)
  | cons a l ih =>
    rw [List.foldlM_cons, returns_bind_iff]
    constructor
    · rintro ⟨hfirst, hrest⟩ before b after s' hl hrun
      cases before with
      | nil =>
        obtain ⟨rfl, -⟩ := List.cons.inj hl
        obtain rfl := Except.ok.inj hrun
        exact hfirst
      | cons c before =>
        obtain ⟨rfl, htail⟩ := List.cons.inj hl
        rw [List.foldlM_cons] at hrun
        obtain ⟨s₁, hs₁, hrun⟩ := bind_eq_ok_iff.mp hrun
        exact ih.mp (hrest s₁ hs₁) before b after s' htail hrun
    · intro h
      refine ⟨h [] a l s rfl rfl, fun s₁ hs₁ => ih.mpr fun before b after s' hl hrun => ?_⟩
      refine h (a :: before) b after s' (by rw [hl]; rfl) ?_
      rw [List.foldlM_cons]
      exact bind_eq_ok_iff.mpr ⟨s₁, hs₁, hrun⟩

/-- A loop whose steps raise whatever the state is. -/
theorem returns_foldlM_iff_forall {f : σ → α → Except ε σ} {P : α → Prop} {l : List α} {s : σ}
    (h : ∀ a ∈ l, ∀ s, Returns (f s a) ↔ P a) : Returns (l.foldlM f s) ↔ ∀ a ∈ l, P a := by
  induction l generalizing s with
  | nil => exact iff_of_true (returns_ok s) fun a ha => absurd ha (by simp)
  | cons a l ih =>
    have hrest (s : σ) : Returns (l.foldlM f s) ↔ ∀ a ∈ l, P a :=
      ih fun b hb => h b (List.mem_cons_of_mem _ hb)
    rw [List.foldlM_cons, returns_bind_iff, h a List.mem_cons_self, List.forall_mem_cons]
    refine and_congr_right fun hP => ?_
    obtain ⟨s', hs'⟩ := (h a List.mem_cons_self s).mpr hP
    exact ⟨fun hall => (hrest s').mp (hall s' hs'), fun hall s₁ _ => (hrest s₁).mpr hall⟩

/-! ## A computation for each element -/

/-- The first of the computations, then the others. -/
theorem mapM_cons_eq_ok_iff {f : α → Except ε β} {x : α} {xs : List α} {ys : List β} :
    (x :: xs).mapM f = .ok ys ↔ ∃ y ys', f x = .ok y ∧ xs.mapM f = .ok ys' ∧ ys = y :: ys' := by
  rw [List.mapM_cons, bind_eq_ok_iff]
  constructor
  · rintro ⟨y, hy, h⟩
    obtain ⟨ys', hys', heq⟩ := bind_eq_ok_iff.mp h
    exact ⟨y, ys', hy, hys', (Except.ok.inj heq).symm⟩
  · rintro ⟨y, ys', hy, hys', rfl⟩
    exact ⟨y, hy, bind_eq_ok_iff.mpr ⟨ys', hys', rfl⟩⟩

/-- All the computations return. -/
theorem returns_mapM_iff {f : α → Except ε β} {xs : List α} :
    Returns (xs.mapM f) ↔ ∀ x ∈ xs, Returns (f x) := by
  induction xs with
  | nil => exact iff_of_true ⟨[], rfl⟩ fun x hx => (by cases hx)
  | cons x xs ih =>
    rw [List.forall_mem_cons, ← ih]
    constructor
    · rintro ⟨ys, h⟩
      obtain ⟨y, ys', hy, hys', -⟩ := mapM_cons_eq_ok_iff.mp h
      exact ⟨⟨y, hy⟩, ⟨ys', hys'⟩⟩
    · rintro ⟨⟨y, hy⟩, ⟨ys', hys'⟩⟩
      exact ⟨y :: ys', mapM_cons_eq_ok_iff.mpr ⟨y, ys', hy, hys', rfl⟩⟩

/-- There is one result for each element. -/
theorem length_mapM {f : α → Except ε β} {xs : List α} {ys : List β} (h : xs.mapM f = .ok ys) :
    ys.length = xs.length := by
  induction xs generalizing ys with
  | nil =>
    obtain rfl : [] = ys := Except.ok.inj h
    rfl
  | cons x xs ih =>
    obtain ⟨y, ys', -, hys', rfl⟩ := mapM_cons_eq_ok_iff.mp h
    rw [List.length_cons, List.length_cons, ih hys']

/-- The results are those of the elements. -/
theorem mem_mapM {f : α → Except ε β} {xs : List α} {ys : List β} (h : xs.mapM f = .ok ys)
    (y : β) : y ∈ ys ↔ ∃ x ∈ xs, f x = .ok y := by
  induction xs generalizing ys with
  | nil =>
    obtain rfl : [] = ys := Except.ok.inj h
    exact iff_of_false List.not_mem_nil fun ⟨x, hx, _⟩ => (by cases hx)
  | cons x xs ih =>
    obtain ⟨y', ys', hy', hys', rfl⟩ := mapM_cons_eq_ok_iff.mp h
    rw [List.mem_cons, ih hys']
    constructor
    · rintro (rfl | ⟨x', hx', hy⟩)
      · exact ⟨x, List.mem_cons_self .., hy'⟩
      · exact ⟨x', List.mem_cons_of_mem _ hx', hy⟩
    · rintro ⟨x', hx', hy⟩
      rcases List.mem_cons.mp hx' with rfl | hx'
      · exact Or.inl (Except.ok.inj (hy.symm.trans hy'))
      · exact Or.inr ⟨x', hx', hy⟩

end Outcomes
