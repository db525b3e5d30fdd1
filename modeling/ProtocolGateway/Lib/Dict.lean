import Mathlib.Data.List.Nodup
import Mathlib.Data.List.Induction

/-!
# Dictionaries in insertion order

Finite maps that list their items in the order in which their keys were first inserted: setting a
key that is there changes its value in place, setting a new key appends an item. No key occurs
twice, and the structure carries the proof.

The lemmas say which items an operation leaves: `mem_set` and `get?_set` for one assignment,
`mem_update` for a whole list of them.
-/

universe u v

/-- A dictionary in insertion order. -/
structure Dict (κ : Type u) (ν : Type v) where
  items : List (κ × ν)
  nodup : (items.map Prod.fst).Nodup
deriving DecidableEq

namespace Dict

variable {κ : Type u} {ν : Type v}

/-- The dictionary without items. -/
def empty : Dict κ ν := ⟨[], List.nodup_nil⟩

instance : Inhabited (Dict κ ν) := ⟨empty⟩

@[simp] theorem items_empty : (empty : Dict κ ν).items = [] := rfl

/-- The keys, in insertion order. -/
def keys (d : Dict κ ν) : List κ := d.items.map Prod.fst

theorem mem_keys {d : Dict κ ν} {k : κ} : k ∈ d.keys ↔ ∃ v, (k, v) ∈ d.items := by
  simp [keys]

/-- A key has one value. -/
theorem eq_of_mem {d : Dict κ ν} {k : κ} {v v' : ν} (h : (k, v) ∈ d.items) (h' : (k, v') ∈ d.items) :
    v = v' :=
  congrArg Prod.snd (List.inj_on_of_nodup_map d.nodup h h' rfl)

/-- The items whose key and value pass a test. -/
def filter (d : Dict κ ν) (p : κ × ν → Bool) : Dict κ ν where
  items := d.items.filter p
  nodup := d.nodup.sublist (List.filter_sublist.map Prod.fst)

/-- The dictionary with every value replaced by what a function makes of it. -/
def mapValues {ν' : Type v} (d : Dict κ ν) (f : κ → ν → ν') : Dict κ ν' where
  items := d.items.map fun kv => (kv.1, f kv.1 kv.2)
  nodup := by
    rw [List.map_map]
    exact d.nodup

@[simp] theorem keys_mapValues {ν' : Type v} (d : Dict κ ν) (f : κ → ν → ν') :
    (d.mapValues f).keys = d.keys := by
  simp [keys, mapValues]

variable [DecidableEq κ]

/-- `d.get(k)`. -/
def get? (d : Dict κ ν) (k : κ) : Option ν := d.items.lookup k

theorem mem_of_get? {d : Dict κ ν} {k : κ} {v : ν} (h : d.get? k = some v) : (k, v) ∈ d.items := by
  obtain ⟨before, after, heq, -⟩ := List.lookup_eq_some_iff.mp h
  rw [heq]
  simp

/-- A lookup finds the one value of a key. -/
theorem get?_eq_some_iff {d : Dict κ ν} {k : κ} {v : ν} :
    d.get? k = some v ↔ (k, v) ∈ d.items := by
  refine ⟨mem_of_get?, fun h => ?_⟩
  cases hget : d.get? k with
  | none =>
    exact absurd (List.lookup_eq_none_iff.mp hget (k, v) h) (by simp)
  | some w => rw [d.eq_of_mem (mem_of_get? hget) h]

/-- A lookup finds nothing for a key that is not there. -/
theorem get?_eq_none_iff {d : Dict κ ν} {k : κ} : d.get? k = none ↔ k ∉ d.keys := by
  rw [Option.eq_none_iff_forall_ne_some, mem_keys]
  simp only [ne_eq, get?_eq_some_iff, not_exists]

/-- The items after `d[k] = v`. -/
def setItems (items : List (κ × ν)) (k : κ) (v : ν) : List (κ × ν) :=
  if k ∈ items.map Prod.fst then items.map fun kv => if kv.1 = k then (k, v) else kv
  else items ++ [(k, v)]

theorem map_fst_setItems {items : List (κ × ν)} {k : κ} {v : ν} :
    (setItems items k v).map Prod.fst =
      if k ∈ items.map Prod.fst then items.map Prod.fst else items.map Prod.fst ++ [k] := by
  unfold setItems
  split
  · rw [List.map_map]
    refine List.map_congr_left fun kv _ => ?_
    by_cases h : kv.1 = k <;> simp [h]
  · simp

/-- `d[k] = v`. -/
def set (d : Dict κ ν) (k : κ) (v : ν) : Dict κ ν where
  items := setItems d.items k v
  nodup := by
    rw [map_fst_setItems]
    split
    · exact d.nodup
    · next h => exact List.nodup_append.mpr ⟨d.nodup, List.nodup_singleton k, by
        rintro a ha b hb rfl
        exact h (List.mem_singleton.mp hb ▸ ha)⟩

/-- `d.update(items)`. -/
def update (d : Dict κ ν) (items : List (κ × ν)) : Dict κ ν :=
  items.foldl (fun d kv => d.set kv.1 kv.2) d

@[simp] theorem update_nil {d : Dict κ ν} : d.update [] = d := rfl

@[simp] theorem update_cons {d : Dict κ ν} {kv : κ × ν} {items : List (κ × ν)} :
    d.update (kv :: items) = (d.set kv.1 kv.2).update items := rfl

/-- After an assignment a dictionary holds the new item and the old items of other keys. -/
theorem mem_set {d : Dict κ ν} {k : κ} {v : ν} {kv : κ × ν} :
    kv ∈ (d.set k v).items ↔ kv = (k, v) ∨ (kv.1 ≠ k ∧ kv ∈ d.items) := by
  show kv ∈ setItems d.items k v ↔ _
  unfold setItems
  split
  · next hk =>
    constructor
    · intro h
      obtain ⟨kv', hmem, heq⟩ := List.mem_map.mp h
      by_cases hkv : kv'.1 = k
      · rw [if_pos hkv] at heq
        exact Or.inl heq.symm
      · rw [if_neg hkv] at heq
        exact Or.inr ⟨heq ▸ hkv, heq ▸ hmem⟩
    · rintro (rfl | ⟨hne, hmem⟩)
      · obtain ⟨kv', hmem, hkv⟩ := List.mem_map.mp hk
        exact List.mem_map.mpr ⟨kv', hmem, if_pos hkv⟩
      · exact List.mem_map.mpr ⟨kv, hmem, if_neg hne⟩
  · next hk =>
    constructor
    · intro h
      rcases List.mem_append.mp h with hmem | hmem
      · exact Or.inr ⟨fun heq => hk (heq ▸ List.mem_map_of_mem hmem), hmem⟩
      · exact Or.inl (List.mem_singleton.mp hmem)
    · rintro (rfl | ⟨-, hmem⟩)
      · exact List.mem_append_right _ (List.mem_singleton_self _)
      · exact List.mem_append_left _ hmem

/-- A lookup after an assignment. -/
theorem get?_set (d : Dict κ ν) (k : κ) (v : ν) (k' : κ) :
    (d.set k v).get? k' = if k' = k then some v else d.get? k' := by
  refine Option.ext fun w => ?_
  rw [get?_eq_some_iff, mem_set]
  split
  · next h => simp [h, eq_comm]
  · next h => simp [h, get?_eq_some_iff]

/-- An assignment adds its key. -/
theorem mem_keys_set {d : Dict κ ν} {k k' : κ} {v : ν} :
    k' ∈ (d.set k v).keys ↔ k' = k ∨ k' ∈ d.keys := by
  rw [← not_iff_not, not_or, ← get?_eq_none_iff, ← get?_eq_none_iff, get?_set]
  split
  · next h => simp [h]
  · next h => simp [h]

/-- An assignment to a key that is there keeps the keys. -/
theorem keys_set_of_mem {d : Dict κ ν} {k : κ} {v : ν} (h : k ∈ d.keys) :
    (d.set k v).keys = d.keys := by
  rw [show (d.set k v).keys = (setItems d.items k v).map Prod.fst from rfl, map_fst_setItems]
  exact if_pos h

/-- An assignment keeps the keys in their order. -/
theorem keys_prefix_set (d : Dict κ ν) (k : κ) (v : ν) : d.keys <+: (d.set k v).keys := by
  rw [show (d.set k v).keys = (setItems d.items k v).map Prod.fst from rfl, map_fst_setItems]
  split
  · exact List.prefix_rfl
  · exact List.prefix_append _ _

/-- A lookup after the removal of another key. -/
theorem get?_filter_ne (d : Dict κ ν) {k k' : κ} (h : k' ≠ k) :
    (d.filter fun kv => kv.1 ≠ k).get? k' = d.get? k' := by
  refine Option.ext fun w => ?_
  rw [get?_eq_some_iff, get?_eq_some_iff]
  simp [filter, h]

/-- A lookup among the items that pass a test. -/
theorem get?_filter (d : Dict κ ν) (p : κ × ν → Bool) (k : κ) :
    (d.filter p).get? k = (d.get? k).filter fun v => p (k, v) := by
  refine Option.ext fun w => ?_
  rw [get?_eq_some_iff, Option.filter_eq_some_iff, get?_eq_some_iff]
  exact List.mem_filter

/-- A lookup after all values were replaced. -/
theorem get?_mapValues {ν' : Type v} (d : Dict κ ν) (f : κ → ν → ν') (k : κ) :
    (d.mapValues f).get? k = (d.get? k).map (f k) := by
  refine Option.ext fun w => ?_
  rw [get?_eq_some_iff, Option.map_eq_some_iff]
  constructor
  · intro h
    obtain ⟨kv, hmem, heq⟩ := List.mem_map.mp h
    obtain ⟨rfl, rfl⟩ := Prod.mk.inj heq
    exact ⟨kv.2, get?_eq_some_iff.mpr hmem, rfl⟩
  · rintro ⟨v, hv, rfl⟩
    exact List.mem_map.mpr ⟨(k, v), get?_eq_some_iff.mp hv, rfl⟩

/-- After an update a dictionary holds some of the new items, and the old items of other keys. -/
theorem mem_update {d : Dict κ ν} {items : List (κ × ν)} {kv : κ × ν}
    (h : kv ∈ (d.update items).items) :
    kv ∈ items ∨ (kv.1 ∉ items.map Prod.fst ∧ kv ∈ d.items) := by
  induction items generalizing d with
  | nil => exact Or.inr ⟨by simp, h⟩
  | cons kv' items ih =>
    rcases ih h with hmem | ⟨hnot, hmem⟩
    · exact Or.inl (List.mem_cons_of_mem _ hmem)
    · rcases mem_set.mp hmem with heq | ⟨hne, hmem⟩
      · exact Or.inl (heq ▸ List.mem_cons_self)
      · refine Or.inr ⟨?_, hmem⟩
        rw [List.map_cons, List.mem_cons, not_or]
        exact ⟨hne, hnot⟩

/-- An update leaves the last value it has for a key. -/
theorem get?_update_empty_iff {items : List (κ × ν)} {k : κ} {v : ν} :
    (empty.update items).get? k = some v ↔
      ∃ before after, items = before ++ (k, v) :: after ∧ k ∉ after.map Prod.fst := by
  induction items using List.reverseRecOn with
  | nil =>
    refine iff_of_false (by simp [get?]) ?_
    rintro ⟨before, after, heq, -⟩
    simp at heq
  | append_singleton items kv ih =>
    have hupdate : empty.update (items ++ [kv]) = (empty.update items).set kv.1 kv.2 := by
      rw [update, List.foldl_append]
      rfl
    rw [hupdate, get?_set]
    constructor
    · intro h
      split at h
      · next hk =>
        exact ⟨items, [], by rw [hk, ← Option.some.inj h], List.not_mem_nil⟩
      · next hk =>
        obtain ⟨before, after, rfl, hnot⟩ := ih.mp h
        refine ⟨before, after ++ [kv], by simp, ?_⟩
        rw [List.map_append, List.mem_append, not_or]
        exact ⟨hnot, by simpa using hk⟩
    · rintro ⟨before, after, heq, hnot⟩
      rcases List.eq_nil_or_concat after with rfl | ⟨after, kv', rfl⟩
      · obtain rfl := List.singleton_injective (List.append_inj' heq rfl).2
        exact if_pos rfl
      · rw [List.concat_eq_append, ← List.cons_append, ← List.append_assoc] at heq
        obtain ⟨rfl, hkv⟩ := List.append_inj' heq rfl
        obtain rfl := List.singleton_injective hkv
        rw [List.concat_eq_append, List.map_append, List.mem_append, not_or] at hnot
        rw [if_neg (by simpa using hnot.2)]
        exact ih.mpr ⟨before, after, rfl, hnot.1⟩

/-- A lookup after an update with items of distinct keys. -/
theorem get?_update {d : Dict κ ν} {items : List (κ × ν)} (h : (items.map Prod.fst).Nodup) (k : κ) :
    (d.update items).get? k = (items.lookup k).or (d.get? k) := by
  induction items generalizing d with
  | nil => rfl
  | cons kv items ih =>
    rw [List.map_cons, List.nodup_cons] at h
    rw [update_cons, ih h.2, get?_set, List.lookup_cons]
    by_cases hk : k = kv.1
    · have habsent : items.lookup k = none := List.lookup_eq_none_iff.mpr fun kv' hkv' => by
        refine bne_iff_ne.mpr fun heq => h.1 ?_
        rw [← hk, heq]
        exact List.mem_map_of_mem hkv'
      rw [habsent, if_pos hk, hk, beq_self_eq_true]
      rfl
    · rw [if_neg hk, beq_false_of_ne hk]

/-- A dictionary made of items with distinct keys has these items. -/
theorem get?_update_empty {items : List (κ × ν)} (h : (items.map Prod.fst).Nodup) {k : κ} {v : ν} :
    (empty.update items).get? k = some v ↔ (k, v) ∈ items := by
  rw [get?_update h, show (empty : Dict κ ν).get? k = none from rfl, Option.or_none]
  exact get?_eq_some_iff (d := ⟨items, h⟩)

/-- An update with items of new and distinct keys appends them. -/
theorem items_update {d : Dict κ ν} {items : List (κ × ν)}
    (h : ((d.items ++ items).map Prod.fst).Nodup) : (d.update items).items = d.items ++ items := by
  induction items generalizing d with
  | nil => rw [List.append_nil, update_nil]
  | cons kv items ih =>
    have hset : (d.set kv.1 kv.2).items = d.items ++ [kv] := by
      refine if_neg fun hmem => ?_
      rw [List.map_append, List.nodup_append] at h
      exact h.2.2 _ hmem _ (List.mem_cons_self ..) rfl
    have hassoc : d.items ++ kv :: items = (d.items ++ [kv]) ++ items := by simp
    rw [hassoc] at h ⊢
    rw [update_cons, ih (by rw [hset]; exact h), hset]

/-- An update leaves the other keys alone. -/
theorem get?_update_of_notMem {d : Dict κ ν} {items : List (κ × ν)} {k : κ}
    (h : k ∉ items.map Prod.fst) : (d.update items).get? k = d.get? k := by
  induction items generalizing d with
  | nil => rfl
  | cons kv items ih =>
    rw [List.map_cons, List.mem_cons, not_or] at h
    rw [update_cons, ih h.2, get?_set, if_neg h.1]

/-! ### Dictionaries of dictionaries -/

section Nested

variable {κ' : Type w} [DecidableEq κ']

/-- `d.get(k, {}).get(k')`. -/
def getIn (d : Dict κ (Dict κ' ν)) (k : κ) (k' : κ') : Option ν := (d.get? k).bind (·.get? k')

/-- `d.setdefault(k, {})[k'] = v`. -/
def setIn (d : Dict κ (Dict κ' ν)) (k : κ) (k' : κ') (v : ν) : Dict κ (Dict κ' ν) :=
  d.set k (((d.get? k).getD empty).set k' v)

theorem getIn_setIn (d : Dict κ (Dict κ' ν)) (k : κ) (k' : κ') (v : ν) (l : κ) (l' : κ') :
    (d.setIn k k' v).getIn l l' = if l = k ∧ l' = k' then some v else d.getIn l l' := by
  unfold getIn setIn
  rw [get?_set]
  by_cases hl : l = k
  · rw [if_pos hl, Option.bind_some, get?_set]
    by_cases hl' : l' = k'
    · rw [if_pos hl', if_pos ⟨hl, hl'⟩]
    · rw [if_neg hl', if_neg fun h => hl' h.2, hl]
      cases d.get? k <;> rfl
  · rw [if_neg hl, if_neg fun h => hl h.1]

/-- An empty dictionary under a new key holds nothing. -/
theorem getIn_set_empty {d : Dict κ (Dict κ' ν)} {k : κ} (h : k ∉ d.keys) (l : κ) (l' : κ') :
    (d.set k empty).getIn l l' = d.getIn l l' := by
  unfold getIn
  rw [get?_set]
  split
  · next hl =>
    rw [hl, get?_eq_none_iff.mpr h]
    rfl
  · rfl

end Nested

/-- An update keeps every key. -/
theorem mem_keys_update {d : Dict κ ν} {items : List (κ × ν)} {k : κ} :
    k ∈ (d.update items).keys ↔ k ∈ d.keys ∨ k ∈ items.map Prod.fst := by
  induction items generalizing d with
  | nil => simp
  | cons kv items ih =>
    rw [update_cons, ih, keys, show (d.set kv.1 kv.2).items = setItems d.items kv.1 kv.2 from rfl,
      map_fst_setItems, List.map_cons, List.mem_cons, keys]
    split
    · next h =>
      constructor
      · rintro (hk | hk)
        · exact Or.inl hk
        · exact Or.inr (Or.inr hk)
      · rintro (hk | rfl | hk)
        · exact Or.inl hk
        · exact Or.inl h
        · exact Or.inr hk
    · rw [List.mem_append, List.mem_singleton, or_assoc]

section Upsert

variable {α : Type*} (key : α → κ) (f : α → Option ν → ν)

/-- Insert or update the value of each key, given the value that is there. -/
def upsertAll (d : Dict κ ν) (xs : List α) : Dict κ ν :=
  xs.foldl (fun d x => d.set (key x) (f x (d.get? (key x)))) d

variable {key f}

/-- Upserts leave the values of other keys alone. -/
theorem get?_upsertAll_of_notMem {xs : List α} {k : κ} (h : k ∉ xs.map key) (d : Dict κ ν) :
    (d.upsertAll key f xs).get? k = d.get? k := by
  induction xs generalizing d with
  | nil => rfl
  | cons x xs ih =>
    rw [List.map_cons, List.mem_cons, not_or] at h
    rw [upsertAll, List.foldl_cons]
    exact (ih h.2 _).trans ((get?_set _ _ _ _).trans (if_neg h.1))

/-- Upserts of distinct keys each see the value that was there before all of them. -/
theorem get?_upsertAll_of_mem {xs : List α} (hnodup : (xs.map key).Nodup) {x : α} (hx : x ∈ xs)
    (d : Dict κ ν) : (d.upsertAll key f xs).get? (key x) = some (f x (d.get? (key x))) := by
  induction xs generalizing d with
  | nil => cases hx
  | cons y xs ih =>
    rw [List.map_cons, List.nodup_cons] at hnodup
    rw [upsertAll, List.foldl_cons]
    rcases List.mem_cons.mp hx with rfl | hx
    · exact (get?_upsertAll_of_notMem hnodup.1 _).trans ((get?_set _ _ _ _).trans (if_pos rfl))
    · have hne : key x ≠ key y := fun heq => hnodup.1 (heq ▸ List.mem_map_of_mem hx)
      refine (ih hnodup.2 hx _).trans ?_
      rw [get?_set, if_neg hne]

/-- Upserts put new keys behind the old ones. -/
theorem keys_prefix_upsertAll (xs : List α) (d : Dict κ ν) :
    d.keys <+: (d.upsertAll key f xs).keys := by
  induction xs generalizing d with
  | nil => exact List.prefix_rfl
  | cons x xs ih => exact (keys_prefix_set _ _ _).trans (ih _)

end Upsert

end Dict
