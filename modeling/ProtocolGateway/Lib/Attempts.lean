import Mathlib.Logic.ExistsUnique
import Mathlib.Data.List.Basic

/-!
# Attempts that may fail

Code that makes a list of attempts one after the other and stops with the first one that fails. The
state keeps a log of the attempts made, and whether an attempt fails is given by its number in the
log, so any pattern of failures can be written down in advance.

`Makes` says that a piece of code makes certain attempts; `Makes.bind` composes pieces of code, and
`getElem?_log` says which attempts end up in the log: those before which none fails. The last
section counts the elements of a kind in a list by their positions.
-/

namespace Attempts

universe u v

variable {σ : Type u} {α : Type v}

/-! ## Making attempts -/

/-- The state in which a piece of code ends, by itself or with an exception. -/
def final : Except σ σ → σ
  | .ok s | .error s => s

/-- The code makes the attempts, up to the first one that fails. -/
def Makes (log : σ → List α) (fails : Nat → Bool) (as : List α) (f : σ → Except σ σ) : Prop :=
  ∀ s, (∃ s', f s = .ok s' ∧ log s' = log s ++ as ∧
      ∀ j < as.length, fails ((log s).length + j) = false) ∨
    ∃ s' k, f s = .error s' ∧ k < as.length ∧ log s' = log s ++ as.take (k + 1) ∧
      fails ((log s).length + k) = true ∧ ∀ j < k, fails ((log s).length + j) = false

variable {log : σ → List α} {fails : Nat → Bool} {as bs : List α} {f g : σ → Except σ σ}

/-- Code that returns without touching the log makes no attempts. -/
theorem Makes.skip {f : σ → σ} (h : ∀ s, log (f s) = log s) :
    Makes log fails [] fun s => .ok (f s) := by
  intro s
  exact Or.inl ⟨f s, rfl, by rw [h, List.append_nil], fun _ hj => absurd hj (by simp)⟩

/-- A single attempt. -/
theorem Makes.attempt {a : α} {f : σ → σ} (h : ∀ s, log (f s) = log s ++ [a]) :
    Makes log fails [a] fun s =>
      if fails (log s).length then .error (f s) else .ok (f s) := by
  intro s
  cases hfail : fails (log s).length with
  | true =>
    refine Or.inr ⟨f s, 0, if_pos hfail, Nat.one_pos, ?_, hfail, fun _ hj => absurd hj (by simp)⟩
    rw [h]
    rfl
  | false =>
    refine Or.inl ⟨f s, if_neg (by simp [hfail]), h s, fun j hj => ?_⟩
    obtain rfl : j = 0 := by simpa using hj
    exact hfail

/-- One piece of code after the other makes the attempts of both. -/
theorem Makes.bind (hf : Makes log fails as f) (hg : Makes log fails bs g) :
    Makes log fails (as ++ bs) fun s => f s >>= g := by
  intro s
  rcases hf s with ⟨s', hs', hlog, hok⟩ | ⟨s', k, hs', hk, hlog, hfail, hok⟩
  · have hlen : (log s').length = (log s).length + as.length := by rw [hlog, List.length_append]
    rcases hg s' with ⟨t, ht, hlog', hok'⟩ | ⟨t, k, ht, hk, hlog', hfail, hok'⟩
    · refine Or.inl ⟨t, by simp only [hs']; exact ht, ?_, fun j hj => ?_⟩
      · rw [hlog', hlog, List.append_assoc]
      · by_cases hj' : j < as.length
        · exact hok j hj'
        · rw [List.length_append] at hj
          have := hok' (j - as.length) (by omega)
          rwa [hlen, Nat.add_assoc, Nat.add_sub_cancel' (Nat.le_of_not_lt hj')] at this
    · refine Or.inr ⟨t, as.length + k, by simp only [hs']; exact ht, ?_, ?_, ?_, fun j hj => ?_⟩
      · rw [List.length_append]
        omega
      · rw [hlog', hlog, List.append_assoc, Nat.add_assoc, List.take_length_add_append]
      · rwa [← Nat.add_assoc, ← hlen]
      · by_cases hj' : j < as.length
        · exact hok j hj'
        · have := hok' (j - as.length) (by omega)
          rwa [hlen, Nat.add_assoc, Nat.add_sub_cancel' (Nat.le_of_not_lt hj')] at this
  · refine Or.inr ⟨s', k, by simp only [hs']; rfl, ?_, ?_, hfail, hok⟩
    · rw [List.length_append]
      omega
    · rw [hlog, List.take_append_of_le_length (Nat.succ_le_of_lt hk)]

/-- No attempt before the `i`th one fails. -/
def Reached (fails : Nat → Bool) (i : Nat) : Prop := ∀ j < i, fails j = false

/-- From an empty log, the attempts made are those before which none fails. -/
theorem Makes.getElem?_log (h : Makes log fails as f) {s : σ} (hs : log s = []) {i : Nat} {a : α} :
    (log (final (f s)))[i]? = some a ↔ as[i]? = some a ∧ Reached fails i := by
  have hzero (j : Nat) : (log s).length + j = j := by rw [hs, List.length_nil, Nat.zero_add]
  rcases h s with ⟨s', hs', hlog, hok⟩ | ⟨s', k, hs', hk, hlog, hfail, hok⟩
  · rw [hs', final, hlog, hs, List.nil_append]
    refine ⟨fun hi => ⟨hi, fun j hj => ?_⟩, And.left⟩
    have hlt : i < as.length := (List.getElem?_eq_some_iff.mp hi).1
    exact hzero j ▸ hok j (Nat.lt_trans hj hlt)
  · rw [hzero] at hfail
    rw [hs', final, hlog, hs, List.nil_append, List.getElem?_take]
    by_cases hi : i < k + 1
    · rw [if_pos hi]
      refine ⟨fun h => ⟨h, fun j hj => ?_⟩, And.left⟩
      exact hzero j ▸ hok j (by omega)
    · rw [if_neg hi]
      refine ⟨fun h => absurd h (by simp), fun h => ?_⟩
      exact absurd (h.2 k (by omega)) (by simp [hfail])

/-! ## Counting by positions -/

/-- A list has one element of a kind if there is one position with such an element. -/
theorem length_filter_eq_one {p : α → Bool} :
    (as.filter p).length = 1 ↔ ∃! i : Nat, ∃ a, as[i]? = some a ∧ p a = true := by
  induction as with
  | nil => simp [ExistsUnique]
  | cons b as ih =>
    cases hb : p b with
    | true =>
      rw [List.filter_cons_of_pos hb, List.length_cons, Nat.add_eq_right, List.length_eq_zero_iff,
        List.filter_eq_nil_iff]
      constructor
      · intro hnone
        refine ⟨0, ⟨b, rfl, hb⟩, ?_⟩
        rintro i ⟨a, ha, hp⟩
        cases i with
        | zero => rfl
        | succ i => exact absurd hp (hnone a (List.mem_of_getElem? ha))
      · rintro ⟨i, -, hunique⟩ a ha hp
        obtain ⟨j, hj⟩ := List.getElem?_of_mem ha
        have h0 := hunique 0 ⟨b, rfl, hb⟩
        have hj' := hunique (j + 1) ⟨a, hj, hp⟩
        omega
    | false =>
      rw [List.filter_cons_of_neg (by simp [hb]), ih]
      constructor
      · rintro ⟨i, ⟨a, ha, hp⟩, hunique⟩
        refine ⟨i + 1, ⟨a, ha, hp⟩, ?_⟩
        rintro j ⟨a', ha', hp'⟩
        cases j with
        | zero =>
          obtain rfl := Option.some.inj ha'
          exact absurd (hb.symm.trans hp') (by simp)
        | succ j => exact congrArg (· + 1) (hunique j ⟨a', ha', hp'⟩)
      · rintro ⟨i, ⟨a, ha, hp⟩, hunique⟩
        cases i with
        | zero =>
          obtain rfl := Option.some.inj ha
          exact absurd (hb.symm.trans hp) (by simp)
        | succ i =>
          refine ⟨i, ⟨a, ha, hp⟩, fun j hj => ?_⟩
          exact Nat.succ.inj (hunique (j + 1) hj)

end Attempts
