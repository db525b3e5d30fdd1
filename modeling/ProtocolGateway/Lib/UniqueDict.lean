import ProtocolGateway.Lib.Dict

/-!
# Dictionaries with a unique attribute

A dictionary no two of whose values have the same attribute, as a table with a primary key and a
uniqueness constraint on a further column.

* `insert?` — the assignment that fails when another key has the attribute.
* `modify` — a change of one value that keeps its attribute.
-/

universe u v w

/-- A dictionary whose keys can be told from an attribute of their values. -/
structure UniqueDict (κ : Type u) [DecidableEq κ] {ν : Type v} {γ : Type w} (attr : ν → γ) where
  dict : Dict κ ν
  unique : ∀ k v k' v', dict.get? k = some v → dict.get? k' = some v' → attr v = attr v' → k = k'

namespace UniqueDict

variable {κ : Type u} [DecidableEq κ] {ν : Type v} {γ : Type w} {attr : ν → γ}

/-- The dictionary without items. -/
def empty : UniqueDict κ attr := ⟨Dict.empty, by
  intro k v k' v' h
  cases h⟩

/-- The value of a key. -/
def get? (t : UniqueDict κ attr) (k : κ) : Option ν := t.dict.get? k

theorem get?_empty (k : κ) : (empty : UniqueDict κ attr).get? k = none := rfl

/-- Another key has a value with the attribute. -/
def Taken (t : UniqueDict κ attr) (k : κ) (a : γ) : Prop :=
  ∃ k' v', t.get? k' = some v' ∧ k' ≠ k ∧ attr v' = a

/-! ## Changes that keep the attribute -/

/-- `d[k] = f(d[k])`, where the attribute of the value stays. -/
def modify (t : UniqueDict κ attr) (k : κ) (f : ν → ν) (hf : ∀ v, attr (f v) = attr v) :
    UniqueDict κ attr where
  dict := t.dict.mapValues fun k' v => if k' = k then f v else v
  unique k₁ v₁ k₂ v₂ h₁ h₂ heq := by
    rw [Dict.get?_mapValues, Option.map_eq_some_iff] at h₁ h₂
    obtain ⟨w₁, hget₁, rfl⟩ := h₁
    obtain ⟨w₂, hget₂, rfl⟩ := h₂
    have hattr : ∀ k' w, attr (if k' = k then f w else w) = attr w := by
      intro k' w
      split
      · exact hf w
      · rfl
    rw [hattr, hattr] at heq
    exact t.unique _ _ _ _ hget₁ hget₂ heq

theorem get?_modify (t : UniqueDict κ attr) (k : κ) (f : ν → ν) (hf : ∀ v, attr (f v) = attr v)
    (k' : κ) : (t.modify k f hf).get? k' = if k' = k then (t.get? k).map f else t.get? k' := by
  rw [get?, modify, Dict.get?_mapValues]
  split
  · next h => rw [h, get?]
  · rw [Option.map_id', get?]

/-- The items that pass a test. -/
def filter (t : UniqueDict κ attr) (p : κ × ν → Bool) : UniqueDict κ attr where
  dict := t.dict.filter p
  unique k v k' v' h h' heq := by
    rw [Dict.get?_filter, Option.filter_eq_some_iff] at h h'
    exact t.unique _ _ _ _ h.1 h'.1 heq

/-! ## Assignments -/

variable [DecidableEq γ]

/-- `Taken`, as the index of the constraint finds it. -/
def taken (t : UniqueDict κ attr) (k : κ) (a : γ) : Bool :=
  t.dict.items.any fun kv => decide (kv.1 ≠ k) && decide (attr kv.2 = a)

theorem taken_iff {t : UniqueDict κ attr} {k : κ} {a : γ} : t.taken k a ↔ t.Taken k a := by
  rw [taken, List.any_eq_true, Taken]
  constructor
  · rintro ⟨kv, hmem, h⟩
    rw [Bool.and_eq_true, decide_eq_true_eq, decide_eq_true_eq] at h
    exact ⟨kv.1, kv.2, Dict.get?_eq_some_iff.mpr hmem, h.1, h.2⟩
  · rintro ⟨k', v', hget, hne, hattr⟩
    refine ⟨(k', v'), Dict.get?_eq_some_iff.mp hget, ?_⟩
    rw [Bool.and_eq_true, decide_eq_true_eq, decide_eq_true_eq]
    exact ⟨hne, hattr⟩

/-- `d[k] = v`, which fails when another key has the attribute of `v`. -/
def insert? (t : UniqueDict κ attr) (k : κ) (v : ν) : Option (UniqueDict κ attr) :=
  if h : t.taken k (attr v) then none
  else some ⟨t.dict.set k v, by
    intro k₁ v₁ k₂ v₂ h₁ h₂ heq
    rw [Dict.get?_set] at h₁ h₂
    by_cases hk₁ : k₁ = k <;> by_cases hk₂ : k₂ = k
    · rw [hk₁, hk₂]
    · rw [if_pos hk₁, Option.some.injEq] at h₁
      rw [if_neg hk₂] at h₂
      exact absurd (taken_iff.mpr ⟨k₂, v₂, h₂, hk₂, by rw [h₁, heq]⟩) h
    · rw [if_neg hk₁] at h₁
      rw [if_pos hk₂, Option.some.injEq] at h₂
      exact absurd (taken_iff.mpr ⟨k₁, v₁, h₁, hk₁, by rw [h₂, heq]⟩) h
    · rw [if_neg hk₁] at h₁
      rw [if_neg hk₂] at h₂
      exact t.unique _ _ _ _ h₁ h₂ heq⟩

theorem insert?_eq_none_iff {t : UniqueDict κ attr} {k : κ} {v : ν} :
    t.insert? k v = none ↔ t.Taken k (attr v) := by
  rw [insert?, ← taken_iff]
  split
  · next h => exact iff_of_true rfl h
  · next h => exact iff_of_false (Option.some_ne_none _) h

theorem get?_insert? {t t' : UniqueDict κ attr} {k : κ} {v : ν} (h : t.insert? k v = some t')
    (k' : κ) : t'.get? k' = if k' = k then some v else t.get? k' := by
  rw [insert?] at h
  split at h
  · cases h
  · cases h
    exact Dict.get?_set _ _ _ _

end UniqueDict
