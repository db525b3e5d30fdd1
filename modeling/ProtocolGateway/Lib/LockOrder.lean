import ProtocolGateway.Lib.Locks
import Mathlib.Algebra.BigOperators.Group.Finset.Basic

/-!
# Threads that take locks in order

Locks have ranks. A program is `Rising` if each lock it takes is of higher rank than the locks it
has taken and not left, or is a reentrant lock of its own. Where all programs rise, no threads wait
for each other: of the threads that wait for a lock, one whose lock has the highest rank waits for a
thread that can go on (`exists_ready`).
-/

namespace Locks

universe u v w

variable {T : Type u} {L : Type v} {A : Type w} [DecidableEq L]

/-! ## Programs -/

section Programs

variable (reentrant : L → Bool) (rank : L → Nat)

/-- Each lock is taken above the locks that are still to be left, or is a reentrant one of them. -/
def Rising : List (Act L A) → Prop
  | [] => True
  | .acquire l :: p =>
    (∀ k, 0 < net k (.acquire l :: p) → rank k < rank l ∨ k = l ∧ reentrant l = true) ∧ Rising p
  | .release _ :: p | .act _ :: p => Rising p

/-- The locks a program takes are of higher rank than a lock, or it is a reentrant one of them. -/
def Above (l : L) (p : List (Act L A)) : Prop :=
  ∀ k, .acquire k ∈ p → rank l < rank k ∨ l = k ∧ reentrant k = true

variable {reentrant rank} {p q : List (Act L A)} {l : L}

namespace Rising

theorem suffix (h : Rising reentrant rank p) (hq : q <:+ p) : Rising reentrant rank q := by
  induction p with
  | nil => exact List.suffix_nil.mp hq ▸ h
  | cons a p ih =>
    rcases List.suffix_cons_iff.mp hq with rfl | hq'
    · exact h
    · cases a with
      | acquire k => exact ih h.2 hq'
      | release k | act a => exact ih h hq'

/-- A part that leaves what it takes may follow. -/
theorem append (hp : Rising reentrant rank p) (hq : Rising reentrant rank q) (hb : Balanced q) :
    Rising reentrant rank (p ++ q) := by
  induction p with
  | nil => exact hq
  | cons a p ih =>
    cases a with
    | acquire k =>
      refine ⟨fun k' hk' => hp.1 k' ?_, ih hp.2⟩
      have hk' : 0 < net k' ((.acquire k :: p) ++ q) := hk'
      rwa [net_append, hb.total, Int.add_zero] at hk'
    | release k | act a => exact ih hp

theorem flatMap {α : Type w} {xs : List α} {f : α → List (Act L A)}
    (h : ∀ x ∈ xs, Rising reentrant rank (f x)) (hb : ∀ x ∈ xs, Balanced (f x)) :
    Rising reentrant rank (xs.flatMap f) := by
  induction xs with
  | nil => trivial
  | cons x xs ih =>
    rw [List.flatMap_cons]
    have hbalanced : ∀ y ∈ xs, Balanced (f y) := fun y hy => hb y (by simp [hy])
    exact (h x (by simp)).append (ih (fun y hy => h y (by simp [hy])) hbalanced)
      (.flatMap hbalanced)

/-- A program that takes locks above a lock rises inside it. -/
theorem before_release (hp : Rising reentrant rank p) (habove : Above reentrant rank l p) :
    Rising reentrant rank (p ++ [.release l]) := by
  induction p with
  | nil => trivial
  | cons a p ih =>
    have ih := fun hp => ih hp fun k hk => habove k (by simp [hk])
    cases a with
    | acquire k =>
      refine ⟨fun k' hk' => ?_, ih hp.2⟩
      by_cases hl : l = k'
      · exact hl ▸ habove k (by simp)
      · have hk' : 0 < net k' ((.acquire k :: p) ++ [.release l]) := hk'
        rw [net_append] at hk'
        exact hp.1 k' (by simpa [net, hl] using hk')
    | release k | act a => exact ih hp

/-- A balanced program inside a lock below its own. -/
theorem wrap (hb : Balanced p) (hp : Rising reentrant rank p) (habove : Above reentrant rank l p) :
    Rising reentrant rank (.acquire l :: (p ++ [.release l])) := by
  refine ⟨fun k hk => ?_, hp.before_release habove⟩
  rw [(hb.wrap l).total k] at hk
  exact absurd hk (by decide)

/-- A program that takes no lock rises. -/
theorem of_no_acquire (h : ∀ k, .acquire k ∉ p) : Rising reentrant rank p := by
  induction p with
  | nil => trivial
  | cons a p ih =>
    have ih := ih fun k hk => h k (by simp [hk])
    cases a with
    | acquire k => exact absurd (by simp) (h k)
    | release k | act a => exact ih

end Rising

end Programs

/-! ## Progress -/

section Progress

variable [DecidableEq T]

/-- A thread that can take its next step. -/
def Ready (reentrant : L → Bool) (o : Owners T L) (t : T) : List (Act L A) → Prop
  | [] => False
  | .acquire l :: _ => ∃ o', acquire reentrant o t l = some o'
  | .release l :: _ => ∃ o', release o t l = some o'
  | .act _ :: _ => True

/-- Every lock that is taken has been taken. -/
def Positive (o : Owners T L) : Prop := ∀ l t n, o l = some (t, n) → 0 < n

variable {reentrant : L → Bool} {rank : L → Nat} {o o' : Owners T L} {t : T} {l : L}

theorem Positive.of_acquire (h : Positive o) (ha : acquire reentrant o t l = some o') :
    Positive o' := by
  intro k u n hk
  unfold acquire at ha
  split at ha
  · obtain rfl := Option.some.inj ha
    by_cases hkl : k = l
    · rw [hkl, Function.update_self] at hk
      obtain ⟨-, rfl⟩ := Prod.mk.inj (Option.some.inj hk)
      exact Nat.one_pos
    · rw [Function.update_of_ne hkl] at hk
      exact h k u n hk
  · split at ha
    · obtain rfl := Option.some.inj ha
      by_cases hkl : k = l
      · rw [hkl, Function.update_self] at hk
        obtain ⟨-, rfl⟩ := Prod.mk.inj (Option.some.inj hk)
        exact Nat.succ_pos _
      · rw [Function.update_of_ne hkl] at hk
        exact h k u n hk
    · cases ha

theorem Positive.of_release (h : Positive o) (hr : release o t l = some o') : Positive o' := by
  intro k u n hk
  unfold release at hr
  split at hr
  · split at hr
    · next m _ _ =>
      obtain rfl := Option.some.inj hr
      by_cases hkl : k = l
      · rw [hkl, Function.update_self] at hk
        split at hk
        · cases hk
        · next hm =>
          obtain ⟨-, rfl⟩ := Prod.mk.inj (Option.some.inj hk)
          exact Nat.pos_of_ne_zero hm
      · rw [Function.update_of_ne hkl] at hk
        exact h k u n hk
    · cases hr
  · cases hr

/-- A thread that has a lock to leave can leave it. -/
theorem exists_release (h : 0 < depth o t l) : ∃ o', release o t l = some o' := by
  unfold depth at h
  split at h
  · next u n ho =>
    split at h
    · next hu =>
      obtain ⟨m, rfl⟩ := Nat.exists_eq_succ_of_ne_zero h.ne'
      exact ⟨_, by rw [release, ho]; exact if_pos hu⟩
    · exact absurd h (Nat.lt_irrefl 0)
  · exact absurd h (Nat.lt_irrefl 0)

/-- A lock that a thread cannot take has been taken by another, or is one of its own that is not
reentrant. -/
theorem taken_of_waits (hpositive : Positive o) (h : ∀ o', acquire reentrant o t l ≠ some o') :
    ∃ u, 0 < depth o u l ∧ (u = t → reentrant l = false) := by
  cases ho : o l with
  | none => exact absurd (by rw [acquire, ho]) (h _)
  | some owner =>
    obtain ⟨u, n⟩ := owner
    refine ⟨u, ?_, fun hu => ?_⟩
    · simpa [depth, ho] using hpositive l u n ho
    · by_contra hr
      rw [Bool.not_eq_false] at hr
      exact absurd (by rw [acquire, ho]; exact if_pos ⟨hu, hr⟩) (h _)

variable {rest : T → List (Act L A)}

/-- **No deadlock.** If threads take locks in order of rank and some thread has something to do,
then some thread can do it. -/
theorem exists_ready (hheld : Held o rest) (hpositive : Positive o)
    (hrising : ∀ t, Rising reentrant rank (rest t))
    (hsuffix : ∀ t l q, q <:+ rest t → 0 ≤ net l q) {bound : Nat} (hbound : ∀ l, rank l ≤ bound)
    (hbusy : rest t ≠ []) : ∃ u, Ready reentrant o u (rest u) := by
  -- on how far the rank of the lock the thread waits for is below the bound
  have hwait : ∀ d t l p, bound - rank l = d → rest t = .acquire l :: p →
      ∃ u, Ready reentrant o u (rest u) := by
    intro d
    induction d using Nat.strong_induction_on with
    | _ d ih =>
      intro t l p hd hrest
      by_cases hready : ∃ o', acquire reentrant o t l = some o'
      · exact ⟨t, by rw [hrest]; exact hready⟩
      · rw [not_exists] at hready
        obtain ⟨u, hu, hself⟩ := taken_of_waits hpositive hready
        have hnet : 0 < net l (rest u) := by
          have := hheld u l
          omega
        have hrise := hrising u
        cases hrestU : rest u with
        | nil => simp [hrestU] at hnet
        | cons a q =>
          rw [hrestU] at hnet hrise
          cases a with
          | act a => exact ⟨u, by rw [hrestU]; trivial⟩
          | release k =>
            have hk := hheld u k
            have hq := hsuffix u k q (hrestU ▸ List.suffix_cons _ q)
            rw [hrestU] at hk
            simp only [net, if_true] at hk
            exact ⟨u, by rw [hrestU]; exact exists_release (by omega)⟩
          | acquire k =>
            by_cases hreadyU : ∃ o', acquire reentrant o u k = some o'
            · exact ⟨u, by rw [hrestU]; exact hreadyU⟩
            · rcases hrise.1 l hnet with hlt | ⟨rfl, hre⟩
              · -- the owner waits for a lock of higher rank
                have := hbound k
                exact ih (bound - rank k) (by omega) u k q rfl hrestU
              · -- the owner takes the lock once more
                rw [not_exists] at hreadyU
                obtain ⟨u', hu', hself'⟩ := taken_of_waits hpositive hreadyU
                exact absurd (hself' (depth_exclusive hu' hu)) (by rw [hre]; decide)
  cases hrest : rest t with
  | nil => exact absurd hrest hbusy
  | cons a p =>
    cases a with
    | act a => exact ⟨t, by rw [hrest]; trivial⟩
    | acquire l => exact hwait _ t l p rfl hrest
    | release l =>
      have hl := hheld t l
      have hp := hsuffix t l p (hrest ▸ List.suffix_cons _ p)
      rw [hrest] at hl
      simp only [net, if_true] at hl
      exact ⟨t, by rw [hrest]; exact exists_release (by omega)⟩

end Progress

/-! ## Work -/

/-- How many steps the threads of a finite set have left. -/
def work (busy : Finset T) (rest : T → List (Act L A)) : Nat := ∑ t ∈ busy, (rest t).length

omit [DecidableEq L] in
/-- A step of one of the threads is a step less. -/
theorem work_step [DecidableEq T] {busy : Finset T} {rest rest' : T → List (Act L A)} {t : T}
    (ht : t ∈ busy) (hothers : ∀ u, u ≠ t → rest' u = rest u)
    (hself : (rest' t).length + 1 = (rest t).length) : work busy rest' + 1 = work busy rest := by
  have herase : ∑ u ∈ busy.erase t, (rest' u).length = ∑ u ∈ busy.erase t, (rest u).length :=
    Finset.sum_congr rfl fun u hu => by rw [hothers u (Finset.ne_of_mem_erase hu)]
  rw [work, work, ← Finset.add_sum_erase busy _ ht, ← Finset.add_sum_erase busy _ ht, herase,
    ← hself]
  omega

end Locks
