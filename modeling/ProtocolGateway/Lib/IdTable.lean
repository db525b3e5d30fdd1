import Mathlib.Data.List.Nodup
import Mathlib.Data.List.Pairwise

/-!
# Tables with ascending identifiers

A table takes the identifiers of its rows from a counter that never goes back, as a column
declared `INTEGER PRIMARY KEY AUTOINCREMENT` does. Rows are listed by identifier, the order in
which they were inserted; the structure carries the proof.

`Holds t h dead f` relates a table that has had deletions to the history of all its insertions:
the rows of `t` are those of `h` whose identifier is not `dead`, each seen through `f`. Inserting
and deleting keep the relation (`Holds.insert`, `Holds.delete`).
-/

universe u v

/-- A table whose rows are numbered by a counter. -/
structure IdTable (α : Type u) where
  rows : List (Nat × α)
  /-- the identifier the next row gets -/
  next : Nat
  sorted : (rows.map Prod.fst).Pairwise (· < ·)
  below : ∀ e ∈ rows, e.1 < next

namespace IdTable

variable {α : Type u} {β : Type v}

/-- The table before the first insertion. -/
def empty : IdTable α := ⟨[], 1, List.Pairwise.nil, fun _ h => absurd h List.not_mem_nil⟩

/-- The identifiers in use, ascending. -/
def ids (t : IdTable α) : List Nat := t.rows.map Prod.fst

/-- Add a row under the next identifier. -/
def insert (t : IdTable α) (a : α) : IdTable α where
  rows := t.rows ++ [(t.next, a)]
  next := t.next + 1
  sorted := by
    rw [List.map_append, List.pairwise_append]
    refine ⟨t.sorted, List.pairwise_singleton _ _, fun r hr n hn => ?_⟩
    obtain ⟨e, he, rfl⟩ := List.mem_map.mp hr
    rw [List.mem_singleton.mp hn]
    exact t.below e he
  below := fun e he => by
    rcases List.mem_append.mp he with he | he
    · exact Nat.lt_succ_of_lt (t.below e he)
    · rw [List.mem_singleton.mp he]
      exact Nat.lt_succ_self _

/-- Delete the rows with the identifiers in a list; identifiers not in use are ignored. -/
def delete (t : IdTable α) (gone : List Nat) : IdTable α where
  rows := t.rows.filter fun e => e.1 ∉ gone
  next := t.next
  sorted := t.sorted.sublist (List.filter_sublist.map _)
  below := fun e he => t.below e (List.mem_of_mem_filter he)

/-- The identifiers in use before that are not in use after. -/
def removed (t t' : IdTable α) : List Nat := t.ids.filter fun r => r ∉ t'.ids

@[simp] theorem rows_empty : (empty : IdTable α).rows = [] := rfl

@[simp] theorem rows_insert (t : IdTable α) (a : α) : (t.insert a).rows = t.rows ++ [(t.next, a)] :=
  rfl

@[simp] theorem next_insert (t : IdTable α) (a : α) : (t.insert a).next = t.next + 1 := rfl

@[simp] theorem next_delete (t : IdTable α) (gone : List Nat) : (t.delete gone).next = t.next := rfl

theorem nodup_ids (t : IdTable α) : t.ids.Nodup := t.sorted.imp Nat.ne_of_lt

theorem lt_next {t : IdTable α} {r : Nat} (h : r ∈ t.ids) : r < t.next := by
  obtain ⟨e, he, rfl⟩ := List.mem_map.mp h
  exact t.below e he

theorem mem_ids_insert {t : IdTable α} {a : α} {r : Nat} :
    r ∈ (t.insert a).ids ↔ r ∈ t.ids ∨ r = t.next := by
  simp [ids]

theorem mem_ids_delete {t : IdTable α} {gone : List Nat} {r : Nat} :
    r ∈ (t.delete gone).ids ↔ r ∈ t.ids ∧ r ∉ gone := by
  simp only [ids, delete, List.mem_map, List.mem_filter, decide_eq_true_eq]
  constructor
  · rintro ⟨e, ⟨he, hg⟩, rfl⟩
    exact ⟨⟨e, he, rfl⟩, hg⟩
  · rintro ⟨⟨e, he, rfl⟩, hg⟩
    exact ⟨e, ⟨he, hg⟩, rfl⟩

/-- A deletion removes the identifiers it names that were in use. -/
theorem mem_removed_delete {t : IdTable α} {gone : List Nat} {r : Nat} :
    r ∈ t.removed (t.delete gone) ↔ r ∈ t.ids ∧ r ∈ gone := by
  rw [removed, List.mem_filter, decide_eq_true_eq, mem_ids_delete]
  tauto

/-- An insertion removes nothing. -/
theorem removed_insert {t t' : IdTable α} (h : t.next ≤ t'.next) (a : α) :
    t.removed (t'.insert a) = t.removed t' := by
  refine List.filter_congr fun r hr => ?_
  have hlt : r ≠ t'.next := Nat.ne_of_lt (Nat.lt_of_lt_of_le (lt_next hr) h)
  simp [mem_ids_insert, hlt]

@[simp] theorem removed_self (t : IdTable α) : t.removed t = [] := by
  rw [removed, List.filter_eq_nil_iff]
  intro r hr
  simpa using hr

/-! ## A table and the history of its insertions -/

/-- The rows of `t` are the insertions of `h` that are not dead, seen through `f`. -/
def Holds (t : IdTable α) (h : IdTable β) (dead : List Nat) (f : β → α) : Prop :=
  t.rows = (h.rows.filter fun e => e.1 ∉ dead).map fun e => (e.1, f e.2)

variable {t : IdTable α} {h : IdTable β} {dead dead' : List Nat} {f : β → α}

theorem Holds.mem_ids (hold : Holds t h dead f) {r : Nat} : r ∈ t.ids ↔ r ∈ h.ids ∧ r ∉ dead := by
  unfold Holds at hold
  simp only [ids, hold, List.map_map, List.mem_map, List.mem_filter, Function.comp_apply,
    decide_eq_true_eq]
  constructor
  · rintro ⟨e, ⟨he, hd⟩, rfl⟩
    exact ⟨⟨e, he, rfl⟩, hd⟩
  · rintro ⟨⟨e, he, rfl⟩, hd⟩
    exact ⟨e, ⟨he, hd⟩, rfl⟩

/-- Only which inserted identifiers are dead matters. -/
theorem Holds.congr (hold : Holds t h dead f) (same : ∀ r ∈ h.ids, r ∈ dead ↔ r ∈ dead') :
    Holds t h dead' f := by
  have hfilter : (h.rows.filter fun e => e.1 ∉ dead) = h.rows.filter fun e => e.1 ∉ dead' :=
    List.filter_congr fun e he => by
      have := same e.1 (List.mem_map_of_mem he)
      simp [this]
  rw [Holds, hold, hfilter]

/-- After a deletion the deleted identifiers are dead too. -/
theorem Holds.delete (hold : Holds t h dead f) {gone : List Nat}
    (dies : ∀ r ∈ t.ids, r ∈ dead' ↔ r ∈ gone) (stays : ∀ r ∈ dead, r ∈ dead') :
    Holds (t.delete gone) h dead' f := by
  have hrows : (t.delete gone).rows = t.rows.filter fun e => e.1 ∉ gone := rfl
  unfold Holds at hold ⊢
  rw [hrows, hold, List.filter_map, List.filter_filter]
  refine congrArg _ (List.filter_congr fun e he => ?_)
  by_cases hd : e.1 ∈ dead
  · have := stays _ hd
    simp [hd, this]
  · have hids : e.1 ∈ t.ids := (Holds.mem_ids hold).mpr ⟨List.mem_map_of_mem he, hd⟩
    have := dies _ hids
    simp [hd, this]

/-- An insertion into both keeps the relation. -/
theorem Holds.insert (hold : Holds t h dead f) (hnext : t.next = h.next)
    (old : ∀ r ∈ dead, r < h.next) (b : β) : Holds (t.insert (f b)) (h.insert b) dead f := by
  have hfresh : h.next ∉ dead := fun hmem => Nat.lt_irrefl _ (old _ hmem)
  unfold Holds at hold ⊢
  rw [rows_insert, rows_insert, hold, hnext, List.filter_append, List.map_append]
  simp [hfresh]

end IdTable
