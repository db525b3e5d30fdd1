import Mathlib.Data.List.DropRight

/-!
# Trimming lists

`trim p` drops the elements that meet `p` from both ends of a list. A list is *trimmed* if that
changes nothing, which depends on its two ends only: `trimmed_iff`.
-/

universe u

namespace Trim

variable {α : Type u} {p : α → Bool}

/-- Drop the elements that meet `p` from both ends. -/
def trim (p : α → Bool) (s : List α) : List α := (s.dropWhile p).rdropWhile p

/-- Dropping from the right stops at an element that does not meet `p`. -/
theorem rdropWhile_append_cons {x : α} (hx : ¬p x) (l b : List α) :
    (l ++ x :: b).rdropWhile p = l ++ x :: b.rdropWhile p := by
  induction b using List.reverseRecOn with
  | nil => rw [List.rdropWhile_concat_neg _ _ _ hx, List.rdropWhile_nil]
  | append_singleton b y ih =>
    rw [← List.cons_append, ← List.append_assoc]
    by_cases hy : p y
    · rw [List.rdropWhile_concat_pos _ _ _ hy, List.rdropWhile_concat_pos _ _ _ hy, ih]
    · rw [List.rdropWhile_concat_neg _ _ _ hy, List.rdropWhile_concat_neg _ _ _ hy,
        ← List.cons_append, List.append_assoc]

/-- Dropping from the right removes a tail that meets `p`. -/
theorem rdropWhile_append_of_forall {l b : List α} (hb : ∀ x ∈ b, p x) :
    (l ++ b).rdropWhile p = l.rdropWhile p := by
  induction b using List.reverseRecOn with
  | nil => rw [List.append_nil]
  | append_singleton b y ih =>
    have hy : p y = true := hb y (List.mem_append_right _ (List.mem_singleton_self y))
    rw [← List.append_assoc, List.rdropWhile_concat_pos _ _ _ hy]
    exact ih fun x hx => hb x (List.mem_append_left _ hx)

/-- The ends of a list that trimming leaves alone. -/
def Trimmed (p : α → Bool) (s : List α) : Prop :=
  (∀ x, s.head? = some x → ¬p x) ∧ ∀ x, s.getLast? = some x → ¬p x

theorem Trimmed.nil : Trimmed p ([] : List α) := by simp [Trimmed]

theorem dropWhile_eq_self {s : List α} (h : ∀ x, s.head? = some x → ¬p x) :
    s.dropWhile p = s := by
  cases s with
  | nil => rfl
  | cons x s => exact List.dropWhile_cons_of_neg (h x rfl)

theorem rdropWhile_eq_self {s : List α} (h : ∀ x, s.getLast? = some x → ¬p x) :
    s.rdropWhile p = s :=
  List.rdropWhile_eq_self_iff.mpr fun hne => h _ (List.getLast?_eq_some_getLast hne)

/-- Dropping from the right leaves no element that meets `p` at the right end. -/
theorem not_of_getLast?_rdropWhile {s : List α} {x : α} (h : (s.rdropWhile p).getLast? = some x) :
    ¬p x := by
  have hne : s.rdropWhile p ≠ [] := by
    intro hnil
    rw [hnil] at h
    cases h
  rw [List.getLast?_eq_some_getLast hne] at h
  obtain rfl := Option.some.inj h
  exact List.rdropWhile_last_not _ _ hne

theorem not_of_head?_dropWhile {s : List α} {x : α} (h : (s.dropWhile p).head? = some x) :
    ¬p x := by
  induction s with
  | nil => cases h
  | cons y s ih =>
    by_cases hy : p y
    · rw [List.dropWhile_cons_of_pos hy] at h
      exact ih h
    · rw [List.dropWhile_cons_of_neg hy] at h
      obtain rfl := Option.some.inj h
      exact hy

/-- The first element stays when elements are dropped from the right. -/
theorem head?_of_rdropWhile {s : List α} {x : α} (h : (s.rdropWhile p).head? = some x) :
    s.head? = some x := by
  obtain ⟨t, ht⟩ := List.rdropWhile_prefix p s
  rw [← ht, List.head?_append, h]
  rfl

/-- **Trimming** leaves a trimmed list, -/
theorem trimmed_trim (s : List α) : Trimmed p (trim p s) :=
  ⟨fun _ hx => not_of_head?_dropWhile (head?_of_rdropWhile hx),
    fun _ hx => not_of_getLast?_rdropWhile hx⟩

/-- and leaves a trimmed list alone. -/
theorem Trimmed.trim_eq {s : List α} (h : Trimmed p s) : trim p s = s := by
  rw [trim, dropWhile_eq_self h.1, rdropWhile_eq_self h.2]

theorem trimmed_iff {s : List α} : Trimmed p s ↔ trim p s = s :=
  ⟨Trimmed.trim_eq, fun h => h ▸ trimmed_trim s⟩

theorem trim_trim (s : List α) : trim p (trim p s) = trim p s := (trimmed_trim s).trim_eq

/-- An element that meets `p` does not count at the left end. -/
theorem trim_cons {x : α} (hx : p x) (s : List α) : trim p (x :: s) = trim p s := by
  rw [trim, List.dropWhile_cons_of_pos hx, trim]

/-- Nor do elements that meet `p` at the right end. -/
theorem trim_rdropWhile (s : List α) : trim p (s.rdropWhile p) = trim p s := by
  induction s using List.reverseRecOn with
  | nil => rfl
  | append_singleton s x ih =>
    by_cases hx : p x
    · rw [List.rdropWhile_concat_pos _ _ _ hx, ih, trim, trim, List.dropWhile_append]
      split
      · next hnil =>
        rw [List.isEmpty_iff.mp hnil, List.dropWhile_cons_of_pos hx]
        rfl
      · rw [List.rdropWhile_concat_pos _ _ _ hx]
    · rw [List.rdropWhile_concat_neg _ _ _ hx]

/-- Trimming a list around an element that does not meet `p`. -/
theorem trim_append_cons {x : α} (hx : ¬p x) {l : List α} (hl : l ≠ [])
    (hhead : ∀ y, l.head? = some y → ¬p y) (b : List α) :
    trim p (l ++ x :: b) = l ++ x :: b.rdropWhile p := by
  obtain ⟨y, l, rfl⟩ := List.exists_cons_of_ne_nil hl
  rw [trim, List.cons_append, List.dropWhile_cons_of_neg (hhead y rfl), ← List.cons_append,
    rdropWhile_append_cons hx]

/-- The tail of a list that meets `p` ends at the same element whichever way the list is split. -/
theorem append_cons_inj {xs ys ds es : List α} {c d : α} (hds : ∀ x ∈ ds, p x = true)
    (hes : ∀ x ∈ es, p x = true) (hc : p c = false) (hd : p d = false)
    (h : xs ++ c :: ds = ys ++ d :: es) : c = d ∧ xs = ys ∧ ds = es := by
  have hdrop (zs fs : List α) (e : α) (hfs : ∀ x ∈ fs, p x = true) (he : p e = false) :
      (zs ++ e :: fs).rdropWhile p = zs ++ [e] := by
    rw [rdropWhile_append_cons (by simp [he]), ← List.nil_append fs,
      rdropWhile_append_of_forall hfs]
    rfl
  have hcut := congrArg (List.rdropWhile p) h
  rw [hdrop xs ds c hds hc, hdrop ys es d hes hd] at hcut
  obtain ⟨rfl, hlast⟩ := List.append_inj' hcut rfl
  obtain rfl := (List.cons.inj hlast).1
  exact ⟨rfl, rfl, (List.cons.inj (List.append_cancel_left h)).2⟩

end Trim
