import Mathlib.Data.List.Basic
import Mathlib.Logic.Function.Basic

/-!
# Threads that take locks

Threads that run straight-line programs, whose actions take a lock, leave a lock, or do something
else. A lock belongs to one thread at a time; a reentrant lock may be taken again by its owner.

`Held` is the invariant that ties the lock table to the programs: a thread has taken a lock as many
times as the rest of its program still leaves it. So where a thread stands in its program says which
locks it holds, and two threads never both stand where they hold the same one
(`Held.exclusive`).
-/

namespace Locks

universe u v w

variable {T : Type u} {L : Type v} {A : Type w}

/-! ## Programs -/

/-- One action of a program. -/
inductive Act (L : Type v) (A : Type w)
  | acquire (l : L)
  | release (l : L)
  | act (a : A)
  deriving DecidableEq, Repr

section Programs

variable [DecidableEq L]

/-- How many times more a program leaves a lock than takes it. -/
def net (l : L) : List (Act L A) → Int
  | [] => 0
  | .acquire l' :: p => net l p - if l' = l then 1 else 0
  | .release l' :: p => net l p + if l' = l then 1 else 0
  | .act _ :: p => net l p

@[simp] theorem net_nil {l : L} : net l ([] : List (Act L A)) = 0 := rfl

@[simp] theorem net_act {l : L} {a : A} {p : List (Act L A)} : net l (.act a :: p) = net l p := rfl

theorem net_append {l : L} {p q : List (Act L A)} : net l (p ++ q) = net l p + net l q := by
  induction p with
  | nil => simp
  | cons a p ih =>
    cases a with
    | acquire l' | release l' =>
      simp only [List.cons_append, net, ih]
      omega
    | act a => simp only [List.cons_append, net, ih]

/-- A program that leaves every lock it takes, and leaves no lock it has not taken. -/
structure Balanced (p : List (Act L A)) : Prop where
  total : ∀ l, net l p = 0
  suffix : ∀ l q, q <:+ p → 0 ≤ net l q

/-- A suffix of a concatenation reaches into its first part or not. -/
theorem suffix_append_cases {α : Type w} {q p p' : List α} (h : q <:+ p ++ p') :
    q <:+ p' ∨ ∃ r, r <:+ p ∧ q = r ++ p' := by
  obtain ⟨d, hd⟩ := h
  rcases List.append_eq_append_iff.mp hd with ⟨r, hp, hq⟩ | ⟨r, hd', hp'⟩
  · exact Or.inr ⟨r, ⟨d, hp.symm⟩, hq⟩
  · exact Or.inl ⟨r, hp'.symm⟩

namespace Balanced

variable {l : L} {p q : List (Act L A)}

theorem nil : Balanced ([] : List (Act L A)) where
  total _ := rfl
  suffix l q hq := by
    rw [List.suffix_nil.mp hq]
    exact Int.le_refl 0

theorem append (hp : Balanced p) (hq : Balanced q) : Balanced (p ++ q) where
  total l := by rw [net_append, hp.total l, hq.total l, Int.add_zero]
  suffix l r hr := by
    rcases suffix_append_cases hr with hr' | ⟨r', hr', rfl⟩
    · exact hq.suffix l r hr'
    · rw [net_append, hq.total l, Int.add_zero]
      exact hp.suffix l r' hr'

/-- An action that is no lock action is a balanced program. -/
theorem cons (a : A) (hp : Balanced p) : Balanced (.act a :: p) where
  total l := hp.total l
  suffix l r hr := by
    rcases List.suffix_cons_iff.mp hr with rfl | hr
    · exact Int.le_of_eq (hp.total l).symm
    · exact hp.suffix l r hr

/-- A balanced program inside a lock is balanced. -/
theorem wrap (l : L) (hp : Balanced p) : Balanced (.acquire l :: (p ++ [.release l])) where
  total k := by
    simp only [net, net_append, hp.total k]
    omega
  suffix k r hr := by
    rcases List.suffix_cons_iff.mp hr with rfl | hr
    · simp only [net, net_append, hp.total k]
      omega
    · rcases suffix_append_cases hr with hr' | ⟨r', hr', rfl⟩
      · rcases List.suffix_cons_iff.mp hr' with rfl | hr''
        · simp only [net]
          split <;> omega
        · rw [List.suffix_nil.mp hr'']
          exact Int.le_refl 0
      · have := hp.suffix k r' hr'
        simp only [net, net_append]
        split <;> omega

theorem flatMap {α : Type w} {xs : List α} {f : α → List (Act L A)}
    (h : ∀ x ∈ xs, Balanced (f x)) : Balanced (xs.flatMap f) := by
  induction xs with
  | nil => exact nil
  | cons x xs ih =>
    rw [List.flatMap_cons]
    exact (h x (by simp)).append (ih fun y hy => h y (by simp [hy]))

end Balanced

/-- Wherever the program is about to do one of the actions `q`, it still has to leave the lock. -/
def Covered (l : L) (q : A → Prop) : List (Act L A) → Prop
  | [] => True
  | .act a :: p => (q a → 0 < net l p) ∧ Covered l q p
  | .acquire _ :: p | .release _ :: p => Covered l q p

namespace Covered

variable {l : L} {q : A → Prop} {p p' : List (Act L A)}

theorem of_not (h : ∀ a, .act a ∈ p → ¬ q a) : Covered l q p := by
  induction p with
  | nil => trivial
  | cons a p ih =>
    have ih := ih fun b hb => h b (by simp [hb])
    cases a with
    | acquire _ | release _ => exact ih
    | act a => exact ⟨fun hq => absurd hq (h a (by simp)), ih⟩

theorem append (hp : Covered l q p) (hp' : Covered l q p') (hnet : 0 ≤ net l p') :
    Covered l q (p ++ p') := by
  induction p with
  | nil => exact hp'
  | cons a p ih =>
    cases a with
    | acquire _ | release _ => exact ih hp
    | act a =>
      refine ⟨fun hq => ?_, ih hp.2⟩
      have := hp.1 hq
      rw [List.append_eq, net_append]
      omega

/-- Before a part that leaves the lock, a balanced program is covered. -/
theorem of_balanced (hb : Balanced p) (hnet : 0 < net l p') (hp' : Covered l q p') :
    Covered l q (p ++ p') := by
  have hsuffix := hb.suffix l
  clear hb
  induction p with
  | nil => exact hp'
  | cons a p ih =>
    have ih := ih fun r hr => hsuffix r (hr.trans (List.suffix_cons a p))
    cases a with
    | acquire _ | release _ => exact ih
    | act a =>
      refine ⟨fun _ => ?_, ih⟩
      have := hsuffix p (List.suffix_cons _ p)
      rw [List.append_eq, net_append]
      omega

theorem flatMap {α : Type w} {xs : List α} {f : α → List (Act L A)}
    (h : ∀ x ∈ xs, Covered l q (f x)) (hb : ∀ x ∈ xs, Balanced (f x)) :
    Covered l q (xs.flatMap f) := by
  induction xs with
  | nil => trivial
  | cons x xs ih =>
    rw [List.flatMap_cons]
    refine (h x (by simp)).append (ih (fun y hy => h y (by simp [hy]))
      fun y hy => hb y (by simp [hy])) ?_
    exact Int.le_of_eq ((Balanced.flatMap fun y hy => hb y (by simp [hy])).total l).symm

/-- Where a covered program stands before such an action, it still has to leave the lock. -/
theorem net_pos {d r : List (Act L A)} {a : A} (h : Covered l q (d ++ .act a :: r)) (hq : q a) :
    0 < net l r := by
  induction d with
  | nil => exact h.1 hq
  | cons b d ih =>
    cases b with
    | acquire _ | release _ => exact ih h
    | act b => exact ih h.2

end Covered

/-- In the middle of a program that starts by taking locks and ends by leaving them, the locks
the end leaves are still to be left. -/
theorem net_pos_inside {l : L} {pre body post d r : List (Act L A)} (hb : Balanced body)
    (hpost : 0 < net l post) (h : d ++ r = pre ++ body ++ post) (hd : pre.length ≤ d.length)
    (hr : post.length ≤ r.length) : 0 < net l r := by
  rcases suffix_append_cases (p := pre ++ body) ⟨d, h⟩ with hs | ⟨r', hs, rfl⟩
  · rw [hs.eq_of_length_le hr]
    exact hpost
  · rcases suffix_append_cases hs with hs | ⟨r'', hs, rfl⟩
    · have := hb.suffix l r' hs
      rw [net_append]
      omega
    · obtain ⟨c, hc⟩ := hs
      have hlen := congrArg List.length h
      have hr'' : r'' = [] := by
        apply List.eq_nil_of_length_eq_zero
        simp only [List.length_append] at hlen
        omega
      rw [hr'', List.nil_append, net_append, hb.total l, Int.zero_add]
      exact hpost

/-- A part of a program that contains something its beginning does not is longer than the
beginning. -/
theorem length_le_of_mem {α : Type w} {pre rest d r : List α} {a : α} (h : d ++ r = pre ++ rest)
    (ha : a ∈ d) (hpre : a ∉ pre) : pre.length ≤ d.length := by
  rcases List.prefix_or_prefix_of_prefix (⟨r, h⟩ : d <+: pre ++ rest) ⟨rest, rfl⟩ with hp | hp
  · exact absurd (hp.subset ha) hpre
  · exact hp.length_le

end Programs

/-! ## The lock table -/

section Table

variable [DecidableEq T]

/-- The owner of each lock that is taken, and how many times it has taken it. -/
abbrev Owners (T : Type u) (L : Type v) := L → Option (T × Nat)

/-- How many times a thread has taken a lock. -/
def depth (o : Owners T L) (t : T) (l : L) : Nat :=
  match o l with
  | some (t', n) => if t' = t then n else 0
  | none => 0

/-- Two threads that have taken a lock are one. -/
theorem depth_exclusive {o : Owners T L} {t t' : T} {l : L} (h : 0 < depth o t l)
    (h' : 0 < depth o t' l) : t = t' := by
  unfold depth at h h'
  cases ho : o l with
  | none => simp [ho] at h
  | some owner =>
    simp only [ho] at h h'
    split at h
    · next ht =>
      split at h'
      · next ht' => exact ht.symm.trans ht'
      · exact absurd h' (Nat.lt_irrefl 0)
    · exact absurd h (Nat.lt_irrefl 0)

variable [DecidableEq L]

/-- Takes a free lock, or once more a reentrant lock of one's own; otherwise the thread waits. -/
def acquire (reentrant : L → Bool) (o : Owners T L) (t : T) (l : L) : Option (Owners T L) :=
  match o l with
  | none => some (Function.update o l (some (t, 1)))
  | some (t', n) =>
    if t' = t ∧ reentrant l then some (Function.update o l (some (t, n + 1))) else none

/-- Leaves a lock of one's own. -/
def release (o : Owners T L) (t : T) (l : L) : Option (Owners T L) :=
  match o l with
  | some (t', n + 1) =>
    if t' = t then some (Function.update o l (if n = 0 then none else some (t, n))) else none
  | _ => none

theorem depth_acquire {reentrant : L → Bool} {o o' : Owners T L} {t : T} {l : L}
    (h : acquire reentrant o t l = some o') (t' : T) (l' : L) :
    depth o' t' l' = depth o t' l' + if t' = t ∧ l = l' then 1 else 0 := by
  unfold acquire at h
  split at h
  · next ho =>
    obtain rfl := Option.some.inj h
    by_cases hl : l' = l
    · subst hl
      by_cases ht : t' = t
      · simp [depth, ho, ht]
      · simp [depth, ho, ht, Ne.symm ht]
    · simp [depth, hl, Ne.symm hl]
  · next owner n ho =>
    split at h
    · next hown =>
      obtain rfl := Option.some.inj h
      by_cases hl : l' = l
      · subst hl
        by_cases ht : t' = t
        · simp [depth, ho, ht, hown.1]
        · simp [depth, ho, ht, hown.1, Ne.symm ht]
      · simp [depth, hl, Ne.symm hl]
    · exact absurd h (by simp)

theorem depth_release {o o' : Owners T L} {t : T} {l : L} (h : release o t l = some o') (t' : T)
    (l' : L) : depth o' t' l' + (if t' = t ∧ l = l' then 1 else 0) = depth o t' l' := by
  unfold release at h
  split at h
  · next owner n ho =>
    split at h
    · next hown =>
      obtain rfl := Option.some.inj h
      by_cases hl : l' = l
      · subst hl
        by_cases ht : t' = t
        · by_cases hn : n = 0 <;> simp [depth, ho, ht, hown, hn]
        · by_cases hn : n = 0 <;> simp [depth, ho, ht, hown, hn, Ne.symm ht]
      · simp [depth, hl, Ne.symm hl]
    · exact absurd h (by simp)
  · exact absurd h (by simp)

/-! ## Threads and their locks -/

/-- Every thread has taken every lock as many times as the rest of its program leaves it. -/
def Held (o : Owners T L) (rest : T → List (Act L A)) : Prop :=
  ∀ t l, (depth o t l : Int) = net l (rest t)

namespace Held

variable {reentrant : L → Bool} {o o' : Owners T L} {rest rest' : T → List (Act L A)} {t : T} {l : L}
  {p : List (Act L A)}

/-- **Mutual exclusion.** Two threads that both have a lock still to leave are one. -/
theorem exclusive (h : Held o rest) {t' : T} (ht : 0 < net l (rest t)) (ht' : 0 < net l (rest t')) :
    t = t' := by
  refine depth_exclusive (o := o) (l := l) ?_ ?_
  · have := h t l
    omega
  · have := h t' l
    omega

/-- A change of one thread's rest keeps the invariant if the lock table follows. -/
theorem update (h : Held o rest) (hothers : ∀ u, u ≠ t → rest' u = rest u)
    (hdepth : ∀ u l, u ≠ t → depth o' u l = depth o u l)
    (ht : ∀ l, (depth o' t l : Int) = net l (rest' t)) : Held o' rest' := by
  intro u l
  by_cases hu : u = t
  · rw [hu]
    exact ht l
  · rw [hothers u hu, hdepth u l hu]
    exact h u l

theorem of_acquire (h : Held o rest) (hr : rest t = .acquire l :: p)
    (ha : acquire reentrant o t l = some o') (hothers : ∀ u, u ≠ t → rest' u = rest u)
    (ht : rest' t = p) : Held o' rest' := by
  refine h.update hothers (fun u k hu => ?_) fun k => ?_
  · rw [depth_acquire ha, if_neg fun hc => hu hc.1, Nat.add_zero]
  · have := h t k
    rw [hr] at this
    rw [depth_acquire ha, ht]
    by_cases hl : l = k
    · simp only [net, if_pos hl] at this
      rw [if_pos ⟨rfl, hl⟩]
      omega
    · simp only [net, if_neg hl] at this
      rw [if_neg fun hc => hl hc.2]
      omega

theorem of_release (h : Held o rest) (hr : rest t = .release l :: p) (ha : release o t l = some o')
    (hothers : ∀ u, u ≠ t → rest' u = rest u) (ht : rest' t = p) : Held o' rest' := by
  have hd := depth_release ha
  refine h.update hothers (fun u k hu => ?_) fun k => ?_
  · have := hd u k
    rwa [if_neg fun hc => hu hc.1, Nat.add_zero] at this
  · have hk := h t k
    have := hd t k
    rw [hr] at hk
    rw [ht]
    by_cases hl : l = k
    · simp only [net, if_pos hl] at hk
      rw [if_pos ⟨rfl, hl⟩] at this
      omega
    · simp only [net, if_neg hl] at hk
      rw [if_neg fun hc => hl hc.2] at this
      omega

theorem of_act (h : Held o rest) {a : A} (hr : rest t = .act a :: p)
    (hothers : ∀ u, u ≠ t → rest' u = rest u) (ht : rest' t = p) : Held o rest' := by
  refine h.update hothers (fun _ _ _ => rfl) fun k => ?_
  have := h t k
  rwa [hr, net_act, ← ht] at this

/-- An idle thread may begin a balanced program. -/
theorem of_start (h : Held o rest) (hr : rest t = []) (hp : Balanced p)
    (hothers : ∀ u, u ≠ t → rest' u = rest u) (ht : rest' t = p) : Held o rest' := by
  refine h.update hothers (fun _ _ _ => rfl) fun k => ?_
  have := h t k
  rw [hr, net_nil] at this
  rw [ht, hp.total k]
  exact this

end Held

end Table

end Locks
