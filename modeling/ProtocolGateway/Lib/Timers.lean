import Mathlib.Data.List.Basic

/-!
# Timers that may be cancelled

A timer waits, looks once whether it was cancelled, and if not runs its function: a cancel that
comes after that look is too late. The timers of a program are numbered in the order in which they
were armed, and each is for something.

* `cancel`, `expire`, `start` — what can happen to a timer.
* `WillRun` — a timer of a kind will run, or is about to.
* `WillRun.cancel`, `WillRun.start` — how it ends: by a cancel of its own, or by running.
-/

universe u

namespace Timers

/-- Where a timer stands. -/
inductive Phase
  | waiting
  /-- it found that it was not cancelled -/
  | expired
  | cancelled
  | started
  deriving DecidableEq

/-- Will the function of the timer run, unless it is cancelled? -/
def Phase.live : Phase → Bool
  | waiting | expired => true
  | cancelled | started => false

/-- The timers armed so far, and what each is for. -/
abbrev Pool (κ : Type u) := List (κ × Phase)

variable {κ : Type u}

/-- A new timer; its number is the length of the pool. -/
def arm (pool : Pool κ) (k : κ) : Pool κ := pool ++ [(k, .waiting)]

/-- A waiting timer is cancelled. -/
def cancel (pool : Pool κ) (id : Nat) : Pool κ :=
  match pool[id]? with
  | some (k, .waiting) => pool.set id (k, .cancelled)
  | _ => pool

/-- The time of a waiting timer is up. -/
def expire (pool : Pool κ) (id : Nat) : Option (Pool κ) :=
  match pool[id]? with
  | some (k, .waiting) => some (pool.set id (k, .expired))
  | _ => none

/-- The function of a timer is run. -/
def start (pool : Pool κ) (id : Nat) : Option (κ × Pool κ) :=
  match pool[id]? with
  | some (k, .expired) => some (k, pool.set id (k, .started))
  | _ => none

theorem expire_eq_some_iff {pool pool' : Pool κ} {id : Nat} :
    expire pool id = some pool' ↔
      ∃ k, pool[id]? = some (k, .waiting) ∧ pool' = pool.set id (k, .expired) := by
  unfold expire
  split
  · next k h =>
    rw [h]
    constructor
    · intro heq
      exact ⟨k, rfl, (Option.some.inj heq).symm⟩
    · rintro ⟨k', hk, rfl⟩
      obtain ⟨rfl, -⟩ := Prod.mk.inj (Option.some.inj hk)
      rfl
  · next h =>
    refine iff_of_false (by simp) ?_
    rintro ⟨k, hk, -⟩
    exact h k hk

theorem start_eq_some_iff {pool pool' : Pool κ} {id : Nat} {k : κ} :
    start pool id = some (k, pool') ↔
      pool[id]? = some (k, .expired) ∧ pool' = pool.set id (k, .started) := by
  unfold start
  split
  · next k' h =>
    rw [h]
    constructor
    · intro heq
      obtain ⟨rfl, rfl⟩ := Prod.mk.inj (Option.some.inj heq)
      exact ⟨rfl, rfl⟩
    · rintro ⟨hk, rfl⟩
      obtain ⟨rfl, -⟩ := Prod.mk.inj (Option.some.inj hk)
      rfl
  · next h =>
    refine iff_of_false (by simp) ?_
    rintro ⟨hk, -⟩
    exact h k hk

/-! ## Pending timers -/

/-- A timer of a kind will run, or is about to. -/
def WillRun (P : κ → Prop) (pool : Pool κ) : Prop :=
  ∃ (id : Nat) (k : κ) (phase : Phase),
    pool[id]? = some (k, phase) ∧ P k ∧ phase.live = true

/-- No timer will run. -/
def Idle (pool : Pool κ) : Prop :=
  ∀ (id : Nat) (k : κ) (phase : Phase), pool[id]? = some (k, phase) → phase.live = false

variable {P : κ → Prop} {pool pool' : Pool κ} {id : Nat} {k : κ}

theorem Idle.not_willRun (h : Idle pool) : ¬WillRun P pool := by
  rintro ⟨id, k, phase, hget, -, hlive⟩
  rw [h id k phase hget] at hlive
  cases hlive

/-- The timers armed before keep their numbers. -/
theorem getElem?_arm_of_some {t : κ × Phase} (h : pool[id]? = some t) :
    (arm pool k)[id]? = some t := by
  have hlt : id < pool.length := (List.getElem?_eq_some_iff.mp h).1
  rw [arm, List.getElem?_append_left hlt, h]

theorem getElem?_arm_length : (arm pool k)[pool.length]? = some (k, .waiting) := by
  rw [arm, List.getElem?_concat_length]

/-- What is in the pool after a timer was armed. -/
theorem getElem?_arm_eq_some {k' : κ} {phase : Phase} (h : (arm pool k)[id]? = some (k', phase)) :
    pool[id]? = some (k', phase) ∨ id = pool.length ∧ k' = k ∧ phase = .waiting := by
  unfold arm at h
  rcases Nat.lt_trichotomy id pool.length with hlt | heq | hgt
  · rw [List.getElem?_append_left hlt] at h
    exact Or.inl h
  · rw [heq, List.getElem?_concat_length] at h
    obtain ⟨rfl, rfl⟩ := Prod.mk.inj (Option.some.inj h)
    exact Or.inr ⟨heq, rfl, rfl⟩
  · rw [List.getElem?_eq_none (by simp; omega)] at h
    cases h

theorem willRun_arm (h : P k) : WillRun P (arm pool k) :=
  ⟨pool.length, k, .waiting, getElem?_arm_length, h, rfl⟩

theorem WillRun.arm (h : WillRun P pool) (k : κ) : WillRun P (arm pool k) := by
  obtain ⟨id, k', phase, hget, hk, hlive⟩ := h
  exact ⟨id, k', phase, getElem?_arm_of_some hget, hk, hlive⟩

/-- The timer that is changed. -/
theorem getElem?_set_changed {u v : κ × Phase} (hid : pool[id]? = some u) :
    (pool.set id v)[id]? = some v :=
  List.getElem?_set_self (List.getElem?_eq_some_iff.mp hid).1

/-- A cancel of a timer leaves the others as they are. -/
theorem getElem?_cancel {i : Nat} {t : κ × Phase} (hi : pool[i]? = some t) (hne : i ≠ id) :
    (cancel pool id)[i]? = some t := by
  unfold cancel
  split
  · rw [List.getElem?_set_ne (Ne.symm hne), hi]
  · exact hi

/-- A pending timer of a kind survives a cancel of one of another kind. -/
theorem WillRun.cancel (h : WillRun P pool) (hid : ∀ k phase, pool[id]? = some (k, phase) → ¬P k) :
    WillRun P (cancel pool id) := by
  obtain ⟨i, k, phase, hget, hk, hlive⟩ := h
  refine ⟨i, k, phase, getElem?_cancel hget fun heq => ?_, hk, hlive⟩
  rw [heq] at hget
  exact hid k phase hget hk

/-- A timer whose time is up is still pending. -/
theorem WillRun.expire (h : WillRun P pool) (hstep : expire pool id = some pool') :
    WillRun P pool' := by
  obtain ⟨i, k, phase, hget, hk, hlive⟩ := h
  obtain ⟨k', hid, rfl⟩ := expire_eq_some_iff.mp hstep
  by_cases heq : i = id
  · subst heq
    obtain ⟨rfl, -⟩ := Prod.mk.inj (Option.some.inj (hid.symm.trans hget))
    exact ⟨i, k', .expired, getElem?_set_changed hid, hk, rfl⟩
  · exact ⟨i, k, phase, by rw [List.getElem?_set_ne (Ne.symm heq), hget], hk, hlive⟩

/-- A pending timer stays so until one of its kind runs. -/
theorem WillRun.start (h : WillRun P pool) (hstep : start pool id = some (k, pool')) :
    WillRun P pool' ∨ P k := by
  obtain ⟨i, k', phase, hget, hk, hlive⟩ := h
  obtain ⟨hid, rfl⟩ := start_eq_some_iff.mp hstep
  by_cases heq : i = id
  · subst heq
    obtain ⟨rfl, -⟩ := Prod.mk.inj (Option.some.inj (hid.symm.trans hget))
    exact Or.inr hk
  · exact Or.inl ⟨i, k', phase, by rw [List.getElem?_set_ne (Ne.symm heq), hget], hk, hlive⟩

/-! ## What a timer is for -/

/-- Every timer is still for what it was for. -/
def Keeps (pool pool' : Pool κ) : Prop :=
  ∀ (id : Nat) (k : κ) (phase : Phase), pool[id]? = some (k, phase) →
    ∃ phase' : Phase, pool'[id]? = some (k, phase')

theorem Keeps.refl (pool : Pool κ) : Keeps pool pool := fun _ _ phase h => ⟨phase, h⟩

theorem Keeps.trans {pool'' : Pool κ} (h : Keeps pool pool') (h' : Keeps pool' pool'') :
    Keeps pool pool'' := by
  intro id k phase hget
  obtain ⟨phase', hget'⟩ := h id k phase hget
  exact h' id k phase' hget'

theorem keeps_arm (pool : Pool κ) (k : κ) : Keeps pool (arm pool k) :=
  fun _ _ phase h => ⟨phase, getElem?_arm_of_some h⟩

/-- A timer that moves on is still for the same. -/
theorem keeps_set {phase phase' : Phase} (h : pool[id]? = some (k, phase)) :
    Keeps pool (pool.set id (k, phase')) := by
  intro i k' phase'' hget
  by_cases hid : i = id
  · subst hid
    obtain ⟨rfl, -⟩ := Prod.mk.inj (Option.some.inj (h.symm.trans hget))
    exact ⟨phase', getElem?_set_changed h⟩
  · exact ⟨phase'', by rw [List.getElem?_set_ne (Ne.symm hid), hget]⟩

theorem keeps_cancel (pool : Pool κ) (id : Nat) : Keeps pool (cancel pool id) := by
  unfold cancel
  split
  · next k h => exact keeps_set h
  · exact .refl pool

theorem keeps_expire (h : expire pool id = some pool') : Keeps pool pool' := by
  obtain ⟨k, hget, rfl⟩ := expire_eq_some_iff.mp h
  exact keeps_set hget

theorem keeps_start (h : start pool id = some (k, pool')) : Keeps pool pool' := by
  obtain ⟨hget, rfl⟩ := start_eq_some_iff.mp h
  exact keeps_set hget

/-! ## No new timers -/

/-- No timer is new, and the time of none has run out meanwhile. -/
def Subsides (pool pool' : Pool κ) : Prop :=
  ∀ (id : Nat) (k : κ) (phase' : Phase), pool'[id]? = some (k, phase') →
    ∃ phase : Phase, pool[id]? = some (k, phase) ∧ (phase' = .expired → phase = .expired)

theorem Subsides.refl (pool : Pool κ) : Subsides pool pool := fun _ _ phase h => ⟨phase, h, fun h => h⟩

theorem Subsides.trans {pool'' : Pool κ} (h : Subsides pool pool') (h' : Subsides pool' pool'') :
    Subsides pool pool'' := by
  intro id k phase'' hget
  obtain ⟨phase', hget', himp'⟩ := h' id k phase'' hget
  obtain ⟨phase, hget₀, himp⟩ := h id k phase' hget'
  exact ⟨phase, hget₀, fun heq => himp (himp' heq)⟩

theorem subsides_set {phase phase' : Phase} (h : pool[id]? = some (k, phase))
    (hne : phase' ≠ .expired) : Subsides pool (pool.set id (k, phase')) := by
  intro i k' phase'' hget
  by_cases hid : i = id
  · subst hid
    rw [getElem?_set_changed h] at hget
    obtain ⟨rfl, rfl⟩ := Prod.mk.inj (Option.some.inj hget)
    exact ⟨phase, h, fun heq => absurd heq hne⟩
  · rw [List.getElem?_set_ne (Ne.symm hid)] at hget
    exact ⟨phase'', hget, fun h => h⟩

theorem subsides_cancel (pool : Pool κ) (id : Nat) : Subsides pool (cancel pool id) := by
  unfold cancel
  split
  · next k h => exact subsides_set h (by simp)
  · exact .refl pool

theorem subsides_start (h : start pool id = some (k, pool')) : Subsides pool pool' := by
  obtain ⟨hget, rfl⟩ := start_eq_some_iff.mp h
  exact subsides_set hget (by simp)

/-! ## Idle pools -/

theorem idle_nil : Idle ([] : Pool κ) := fun id k phase h => by simp at h

/-- There is nothing to cancel in an idle pool. -/
theorem Idle.cancel (h : Idle pool) (id : Nat) : Timers.cancel pool id = pool := by
  unfold Timers.cancel
  split
  · next k hget =>
    cases h id k .waiting hget
  · rfl

/-- A timer armed in an idle pool, when its time is up and it has run, leaves it idle. -/
theorem Idle.arm_run (h : Idle pool) (k : κ) :
    ∃ pool₁ pool₂, Timers.expire (Timers.arm pool k) pool.length = some pool₁ ∧
      Timers.start pool₁ pool.length = some (k, pool₂) ∧ Idle pool₂ := by
  have harmed : (Timers.arm pool k)[pool.length]? = some (k, .waiting) := getElem?_arm_length
  refine ⟨_, _, expire_eq_some_iff.mpr ⟨k, harmed, rfl⟩,
    start_eq_some_iff.mpr ⟨getElem?_set_changed harmed, rfl⟩, ?_⟩
  intro id k' phase hget
  by_cases hid : id = pool.length
  · subst hid
    rw [getElem?_set_changed (getElem?_set_changed harmed)] at hget
    obtain ⟨-, rfl⟩ := Prod.mk.inj (Option.some.inj hget)
    rfl
  · rw [List.getElem?_set_ne (Ne.symm hid), List.getElem?_set_ne (Ne.symm hid), Timers.arm] at hget
    by_cases hlt : id < pool.length
    · rw [List.getElem?_append_left hlt] at hget
      exact h id k' phase hget
    · rw [List.getElem?_eq_none (by simp; omega)] at hget
      cases hget

end Timers
