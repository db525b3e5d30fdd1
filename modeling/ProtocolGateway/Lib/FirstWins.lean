import Mathlib.Data.List.Nodup
import Mathlib.Data.List.Pairwise
import Mathlib.Order.Lattice

/-!
# Tables whose first value wins

Rows of cells under keys, where a key may come back and a cell may be blank. The table has, under a
key and a column, the first value that is not blank.

* `value` — that value.
* `collapse` — one row for each key, with the values of the table.
* `sorted` — the rows in the order of their keys.
* `value_flatMap` — tables one below the other have the value of the first one that has any.
-/

namespace FirstWins

universe u v w

variable {τ : Type u} {κ : Type v} {ν : Type w} [DecidableEq τ]

/-- The keys of the rows. -/
def keys (rows : List (τ × (κ → Option ν))) : List τ := rows.map Prod.fst

/-- The first value that is not blank among the rows with a key. -/
def value (rows : List (τ × (κ → Option ν))) (t : τ) (c : κ) : Option ν :=
  rows.findSome? fun r => if r.1 = t then r.2 c else none

/-- One row for each key, in the order in which the keys appear, with the first values. -/
def collapse (rows : List (τ × (κ → Option ν))) : List (τ × (κ → Option ν)) :=
  (keys rows).eraseDups.map fun t => (t, value rows t)

/-- One row for each key: the rows themselves if no key comes back. -/
def unrepeated (rows : List (τ × (κ → Option ν))) : List (τ × (κ → Option ν)) :=
  if (keys rows).Nodup then rows else collapse rows

/-! ## The value of a table -/

theorem value_append (rows rows' : List (τ × (κ → Option ν))) (t : τ) (c : κ) :
    value (rows ++ rows') t c = (value rows t c).or (value rows' t c) := List.findSome?_append

/-- **The first table that has a value.** -/
theorem value_flatMap {σ : Type*} (tables : List σ) (rowsOf : σ → List (τ × (κ → Option ν))) (t : τ)
    (c : κ) : value (tables.flatMap rowsOf) t c = tables.findSome? fun s => value (rowsOf s) t c := by
  induction tables with
  | nil => rfl
  | cons s tables ih =>
    rw [List.flatMap_cons, value_append, ih, List.findSome?_cons]
    cases value (rowsOf s) t c <;> rfl

/-- A value comes from a row with the key. -/
theorem mem_keys_of_value {rows : List (τ × (κ → Option ν))} {t : τ} {c : κ} {v : ν}
    (h : value rows t c = some v) : t ∈ keys rows := by
  obtain ⟨r, hr, hv⟩ := List.exists_of_findSome?_eq_some h
  split at hv
  · next heq => exact heq ▸ List.mem_map_of_mem hr
  · cases hv

theorem value_of_not_mem {rows : List (τ × (κ → Option ν))} {t : τ} (h : t ∉ keys rows) (c : κ) :
    value rows t c = none := by
  rcases hv : value rows t c with _ | v
  · rfl
  · exact absurd (mem_keys_of_value hv) h

/-- Where no key comes back, the value is the cell of the row with the key. -/
theorem value_of_mem {rows : List (τ × (κ → Option ν))} (hnodup : (keys rows).Nodup) {t : τ}
    {f : κ → Option ν} (h : (t, f) ∈ rows) (c : κ) : value rows t c = f c := by
  induction rows with
  | nil => cases h
  | cons r rows ih =>
    obtain ⟨hfresh, hrest⟩ := List.nodup_cons.1 hnodup
    rcases List.mem_cons.1 h with rfl | h
    · have hnone : rows.findSome? (fun r => if r.1 = t then r.2 c else none) = none :=
        value_of_not_mem hfresh c
      rw [value, List.findSome?_cons, if_pos rfl, hnone]
      dsimp only
      cases f c <;> rfl
    · have hne : r.1 ≠ t := fun heq => hfresh (heq ▸ List.mem_map_of_mem h)
      rw [value, List.findSome?_cons, if_neg hne]
      exact ih hrest h

/-- Tables with the same rows, and no key twice, have the same values. -/
theorem value_perm {rows rows' : List (τ × (κ → Option ν))} (h : rows.Perm rows')
    (hnodup : (keys rows).Nodup) (t : τ) (c : κ) : value rows' t c = value rows t c := by
  have hnodup' : (keys rows').Nodup := ((h.map Prod.fst).nodup_iff).1 hnodup
  by_cases hmem : t ∈ keys rows
  · obtain ⟨⟨t, f⟩, hrow, rfl⟩ := List.mem_map.1 hmem
    rw [value_of_mem hnodup hrow, value_of_mem hnodup' (h.mem_iff.1 hrow)]
  · have hmem' : t ∉ keys rows' := fun h' => hmem ((h.map Prod.fst).mem_iff.2 h')
    rw [value_of_not_mem hmem, value_of_not_mem hmem']

/-! ## One row for each key -/

theorem keys_collapse (rows : List (τ × (κ → Option ν))) :
    keys (collapse rows) = (keys rows).eraseDups := by
  rw [keys, collapse, List.map_map]
  exact List.map_id _

theorem nodup_eraseDups {α : Type*} [DecidableEq α] : (l : List α) → l.eraseDups.Nodup
  | [] => List.nodup_nil
  | a :: l => by
    rw [List.eraseDups_cons, List.nodup_cons]
    refine ⟨fun hmem => ?_, nodup_eraseDups (l.filter fun b => !b == a)⟩
    have hother := (List.mem_filter.1 (List.mem_eraseDups.1 hmem)).2
    simp at hother
  termination_by l => l.length
  decreasing_by exact Nat.lt_succ_of_le (List.length_filter_le _ _)

theorem nodup_collapse (rows : List (τ × (κ → Option ν))) : (keys (collapse rows)).Nodup := by
  rw [keys_collapse]
  exact nodup_eraseDups _

theorem mem_keys_collapse {rows : List (τ × (κ → Option ν))} {t : τ} :
    t ∈ keys (collapse rows) ↔ t ∈ keys rows := by
  rw [keys_collapse, List.mem_eraseDups]

/-- **The values stay** when the rows of each key become one. -/
theorem value_collapse (rows : List (τ × (κ → Option ν))) (t : τ) (c : κ) :
    value (collapse rows) t c = value rows t c := by
  by_cases hmem : t ∈ keys rows
  · refine value_of_mem (nodup_collapse rows) (List.mem_map.2 ⟨t, ?_, rfl⟩) c
    exact List.mem_eraseDups.2 hmem
  · rw [value_of_not_mem hmem, value_of_not_mem (mt mem_keys_collapse.1 hmem)]

theorem nodup_unrepeated (rows : List (τ × (κ → Option ν))) : (keys (unrepeated rows)).Nodup := by
  rw [unrepeated]
  split
  · assumption
  · exact nodup_collapse rows

theorem mem_keys_unrepeated {rows : List (τ × (κ → Option ν))} {t : τ} :
    t ∈ keys (unrepeated rows) ↔ t ∈ keys rows := by
  rw [unrepeated]
  split
  · rfl
  · exact mem_keys_collapse

theorem value_unrepeated (rows : List (τ × (κ → Option ν))) (t : τ) (c : κ) :
    value (unrepeated rows) t c = value rows t c := by
  rw [unrepeated]
  split
  · rfl
  · exact value_collapse rows t c

/-! ## The order of the keys -/

section

variable {τ : Type u} [LinearOrder τ]

/-- The rows in the order of their keys. -/
def sorted (rows : List (τ × (κ → Option ν))) : List (τ × (κ → Option ν)) :=
  rows.mergeSort fun r r' => decide (r.1 ≤ r'.1)

theorem sorted_perm (rows : List (τ × (κ → Option ν))) : (sorted rows).Perm rows :=
  List.mergeSort_perm ..

theorem mem_keys_sorted {rows : List (τ × (κ → Option ν))} {t : τ} :
    t ∈ keys (sorted rows) ↔ t ∈ keys rows := ((sorted_perm rows).map Prod.fst).mem_iff

/-- **Each key once, in ascending order.** -/
theorem pairwise_keys_sorted {rows : List (τ × (κ → Option ν))} (hnodup : (keys rows).Nodup) :
    (keys (sorted rows)).Pairwise (· < ·) := by
  have hsorted : (keys (sorted rows)).Pairwise (· ≤ ·) := by
    refine List.pairwise_map.2 ((List.pairwise_mergeSort ?_ ?_ rows).imp fun h => of_decide_eq_true h)
    · intro a b c hab hbc
      exact decide_eq_true (le_trans (of_decide_eq_true hab) (of_decide_eq_true hbc))
    · intro a b
      rcases le_total a.1 b.1 with h | h <;> simp [h]
  have hdistinct : (keys (sorted rows)).Nodup := ((sorted_perm rows).map Prod.fst).nodup_iff.2 hnodup
  exact (hsorted.and hdistinct).imp fun h => lt_of_le_of_ne h.1 h.2

theorem value_sorted {rows : List (τ × (κ → Option ν))} (hnodup : (keys rows).Nodup) (t : τ) (c : κ) :
    value (sorted rows) t c = value rows t c := value_perm (sorted_perm rows).symm hnodup t c

end

end FirstWins
