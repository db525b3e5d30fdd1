import Mathlib.Data.List.Infix

/-!
# Searching for a pattern

`find` is the first place of a pattern in a list. What stands before it is described by `FirstAt`:
the pattern does not begin any earlier, not even with the elements of the pattern itself. So a list
is cut at a pattern in one way only (`FirstAt.unique`).

A pattern without a border is found behind every text it is not in (`firstAt_of_unbordered`).
-/

namespace Search

variable {α : Type*} {pat before before' rest rest' xs : List α}

/-! ## First places -/

/-- Behind a text, a pattern begins for the first time. -/
def FirstAt (pat before : List α) : Prop := ¬pat <:+: before ++ pat.dropLast

/-- Of two places of a pattern the first one is shorter. -/
theorem FirstAt.length_le (h : FirstAt pat before)
    (heq : before ++ (pat ++ rest) = before' ++ (pat ++ rest')) :
    before.length ≤ before'.length := by
  by_contra hlt
  have hcut : before' ++ pat <+: before ++ pat.dropLast := by
    have hlong : before ++ pat.dropLast <+: before ++ (pat ++ rest) :=
      (List.prefix_append_right_inj before).mpr ((List.dropLast_prefix pat).trans
        (List.prefix_append _ _))
    have hshort : before' ++ pat <+: before ++ (pat ++ rest) := by
      rw [heq, ← List.append_assoc]
      exact List.prefix_append _ _
    refine List.prefix_of_prefix_length_le hshort hlong ?_
    rw [List.length_append, List.length_append, List.length_dropLast]
    omega
  exact h ((List.suffix_append before' pat).isInfix.trans hcut.isInfix)

/-- **A list is cut at the first place of a pattern in one way.** -/
theorem FirstAt.unique (h : FirstAt pat before) (h' : FirstAt pat before')
    (heq : before ++ (pat ++ rest) = before' ++ (pat ++ rest')) :
    before = before' ∧ rest = rest' := by
  have hlength := le_antisymm (h.length_le heq) (h'.length_le heq.symm)
  obtain ⟨hbefore, htail⟩ := List.append_inj heq hlength
  exact ⟨hbefore, List.append_cancel_left htail⟩

/-- A pattern is first at the beginning. -/
theorem firstAt_nil (hpat : pat ≠ []) : FirstAt pat [] := by
  intro hinfix
  have hlength := hinfix.length_le
  rw [List.nil_append, List.length_dropLast] at hlength
  have hpos := List.length_pos_iff.mpr hpat
  omega

/-- What a pattern is first behind does not have it. -/
theorem FirstAt.not_infix (h : FirstAt pat before) : ¬pat <:+: before :=
  fun hinfix => h (List.infix_append_of_infix_left hinfix)

/-! ## The search -/

section Find

variable [DecidableEq α]

/-- The index at which a pattern begins for the first time. -/
def find (pat : List α) : List α → Option Nat
  | [] => if pat = [] then some 0 else none
  | x :: xs => if pat <+: x :: xs then some 0 else (find pat xs).map (· + 1)

theorem find_eq_none_iff : find pat xs = none ↔ ¬pat <:+: xs := by
  induction xs with
  | nil => simp [find]
  | cons x xs ih =>
    rw [find, List.infix_cons_iff, not_or, ← ih]
    split
    · next hstart => simp [hstart]
    · next hstart => simp [hstart]

/-- What the search finds. -/
theorem exists_of_find (hpat : pat ≠ []) {i : Nat} (h : find pat xs = some i) :
    ∃ before rest, xs = before ++ (pat ++ rest) ∧ before.length = i ∧ FirstAt pat before := by
  induction xs generalizing i with
  | nil => simp [find, hpat] at h
  | cons x xs ih =>
    rw [find] at h
    split at h
    · next hstart =>
      obtain ⟨rest, hrest⟩ := hstart
      obtain rfl := Option.some.inj h
      exact ⟨[], rest, hrest.symm, rfl, firstAt_nil hpat⟩
    · next hstart =>
      obtain ⟨i, hi, rfl⟩ := Option.map_eq_some_iff.mp h
      obtain ⟨before, rest, rfl, rfl, hfirst⟩ := ih hi
      refine ⟨x :: before, rest, rfl, rfl, fun hinfix => ?_⟩
      rcases List.infix_cons_iff.mp hinfix with hcut | hinfix
      · refine hstart (hcut.trans ?_)
        exact List.prefix_append_right_inj (x :: before) |>.mpr
          ((List.dropLast_prefix pat).trans (List.prefix_append _ _))
      · exact hfirst hinfix

/-- **The search finds the first place.** -/
theorem find_append (hpat : pat ≠ []) (h : FirstAt pat before) :
    find pat (before ++ (pat ++ rest)) = some before.length := by
  cases hfind : find pat (before ++ (pat ++ rest)) with
  | none =>
    exact absurd ⟨before, rest, List.append_assoc _ _ _⟩ (find_eq_none_iff.mp hfind)
  | some i =>
    obtain ⟨before', rest', heq, rfl, h'⟩ := exists_of_find hpat hfind
    rw [(h.unique h' heq).1]

end Find

/-! ## Borders -/

/-- A pattern does not overlap itself. -/
def Unbordered (pat : List α) : Prop := ∀ b, b <+: pat → b <:+ pat → b = [] ∨ b = pat

/-- **A pattern without a border is first behind every text it is not in.** -/
theorem firstAt_of_unbordered (hpat : Unbordered pat) (h : ¬pat <:+: before) :
    FirstAt pat before := by
  have hne : pat ≠ [] := by
    rintro rfl
    exact h List.nil_infix
  have hpos := List.length_pos_iff.mpr hne
  rintro ⟨u, v, heq⟩
  rw [List.append_assoc] at heq
  rcases List.append_eq_append_iff.mp heq with ⟨s, rfl, hs⟩ | ⟨s, rfl, hs⟩
  · rcases List.append_eq_append_iff.mp hs with ⟨t, rfl, -⟩ | ⟨t, ht, hrest⟩
    · exact h ⟨u, t, List.append_assoc _ _ _⟩
    · -- the place begins in the text and ends behind it, so `t` is a border
      have hstart : t <+: pat := List.IsPrefix.trans ⟨v, hrest.symm⟩ (List.dropLast_prefix pat)
      rcases hpat t hstart ⟨s, ht.symm⟩ with rfl | rfl
      · rw [List.append_nil] at ht
        exact h (ht ▸ (List.suffix_append u s).isInfix)
      · have hlength := congrArg List.length hrest
        rw [List.length_dropLast, List.length_append] at hlength
        omega
  · have hlength := congrArg List.length hs
    rw [List.length_dropLast, List.length_append, List.length_append] at hlength
    omega

end Search
