import ProtocolGateway.Lib.Dict

/-!
# Numbered families

Items that come one after the other, each of one family, and are numbered within their family from
one on. An item leaves several facts in a dictionary, under the names of its number, and the count
of its family under another name.

`Names` says what the names have to satisfy, and `record` enters one item. Every dictionary that is
filled this way is `Numbered`: the numbers of a family that occur are those from one to its count.
-/

universe u v w

namespace Numbering

variable {φ : Type u} {σ : Type v} {κ : Type w} {ν : Type} [DecidableEq φ] [DecidableEq κ]

/-- The names of the facts about an item, by its family and number, and of the count of a family.
No name stands for two things. -/
structure Names (φ : Type u) (σ : Type v) (κ : Type w) where
  item : φ → Nat → σ → κ
  count : φ → κ
  item_inj : ∀ {f f' n n' s s'}, item f n s = item f' n' s' → f = f' ∧ n = n' ∧ s = s'
  count_inj : ∀ {f f'}, count f = count f' → f = f'
  item_ne_count : ∀ {f n s f'}, item f n s ≠ count f'

/-- The facts that were entered, and how many items each family has. -/
structure Table (φ : Type u) (κ : Type w) [DecidableEq φ] [DecidableEq κ] where
  facts : Dict κ Int
  counts : Dict φ Nat

/-- The number of items of a family. -/
def Table.countOf (t : Table φ κ) (f : φ) : Nat := (t.counts.get? f).getD 0

variable (N : Names φ σ κ)

/-- Enter an item with its facts. -/
def record (t : Table φ κ) (f : φ) (fields : List (σ × Int)) : Table φ κ :=
  let n := t.countOf f + 1
  { facts := (t.facts.update (fields.map fun sv => (N.item f n sv.1, sv.2))).set (N.count f) n
    counts := t.counts.set f n }

theorem countOf_record (t : Table φ κ) (f : φ) (fields : List (σ × Int)) (f' : φ) :
    (record N t f fields).countOf f' = if f' = f then t.countOf f + 1 else t.countOf f' := by
  unfold record Table.countOf
  dsimp only
  rw [Dict.get?_set]
  by_cases h : f' = f
  · rw [if_pos h, if_pos h]
    rfl
  · rw [if_neg h, if_neg h]

/-- What is found after an item was entered is one of its facts, or was there before. -/
theorem get?_record_cases {t : Table φ κ} {f : φ} {fields : List (σ × Int)} {k : κ} {v : Int}
    (h : (record N t f fields).facts.get? k = some v) :
    (k = N.count f ∧ v = (t.countOf f + 1 : Nat)) ∨
      (∃ s, (s, v) ∈ fields ∧ k = N.item f (t.countOf f + 1) s) ∨ t.facts.get? k = some v := by
  unfold record at h
  dsimp only at h
  rw [Dict.get?_set] at h
  by_cases hk : k = N.count f
  · rw [if_pos hk] at h
    exact .inl ⟨hk, (Option.some.inj h).symm⟩
  · rw [if_neg hk] at h
    rcases Dict.mem_update (Dict.mem_of_get? h) with hmem | hmem
    · obtain ⟨sv, hsv, heq⟩ := List.mem_map.mp hmem
      obtain ⟨rfl, rfl⟩ := Prod.mk.inj heq
      exact .inr (.inl ⟨sv.1, hsv, rfl⟩)
    · exact .inr (.inr (Dict.get?_eq_some_iff.mpr hmem.2))

/-- The names after an item was entered. -/
theorem mem_keys_record {t : Table φ κ} {f : φ} {fields : List (σ × Int)} {k : κ} :
    k ∈ (record N t f fields).facts.keys ↔
      k = N.count f ∨ (∃ sv ∈ fields, k = N.item f (t.countOf f + 1) sv.1) ∨
        k ∈ t.facts.keys := by
  unfold record
  dsimp only
  rw [Dict.mem_keys_set, Dict.mem_keys_update, List.map_map, List.mem_map]
  have hsome : (∃ sv ∈ fields, (Prod.fst ∘ fun sv : σ × Int =>
      (N.item f (t.countOf f + 1) sv.1, sv.2)) sv = k) ↔
        ∃ sv ∈ fields, k = N.item f (t.countOf f + 1) sv.1 :=
    exists_congr fun sv => and_congr_right fun _ => eq_comm
  rw [hsome]
  exact or_congr_right or_comm

/-! ## Invariants -/

/-- The numbers of a family are those from one to its count, and the count is entered as soon as it
is not zero. `expected` are the facts every item of a family has. -/
structure Numbered (expected : φ → List σ) (t : Table φ κ) : Prop where
  items : ∀ f, ∀ s ∈ expected f, ∀ n,
    N.item f n s ∈ t.facts.keys ↔ 1 ≤ n ∧ n ≤ t.countOf f
  total : ∀ f, 0 < t.countOf f → t.facts.get? (N.count f) = some (t.countOf f : Int)
  absent : ∀ f, t.countOf f = 0 → N.count f ∉ t.facts.keys

variable {N}

/-- Entering an item with all its facts keeps the numbering. -/
theorem Numbered.record {expected : φ → List σ} {t : Table φ κ} (h : Numbered N expected t)
    {f : φ} {fields : List (σ × Int)} (hall : ∀ s ∈ expected f, ∃ sv ∈ fields, sv.1 = s) :
    Numbered N expected (record N t f fields) where
  items f' s hs n := by
    rw [mem_keys_record, countOf_record, h.items f' s hs]
    constructor
    · rintro (heq | ⟨sv, -, heq⟩ | hold)
      · exact absurd heq N.item_ne_count
      · obtain ⟨rfl, rfl, -⟩ := N.item_inj heq
        rw [if_pos rfl]
        omega
      · split <;> first | omega | (next hf => subst hf; omega)
    · rintro ⟨hpos, hle⟩
      by_cases hf : f' = f
      · subst hf
        rw [if_pos rfl] at hle
        rcases Nat.eq_or_lt_of_le hle with rfl | hlt
        · obtain ⟨sv, hsv, rfl⟩ := hall s hs
          exact .inr (.inl ⟨sv, hsv, rfl⟩)
        · exact .inr (.inr ⟨hpos, by omega⟩)
      · rw [if_neg hf] at hle
        exact .inr (.inr ⟨hpos, hle⟩)
  total f' hpos := by
    rw [countOf_record] at hpos ⊢
    have hget : (Numbering.record N t f fields).facts.get? (N.count f') =
        if N.count f' = N.count f then some ((t.countOf f + 1 : Nat) : Int)
        else (t.facts.update (fields.map fun sv =>
          (N.item f (t.countOf f + 1) sv.1, sv.2))).get? (N.count f') := Dict.get?_set ..
    rw [hget]
    by_cases hf : f' = f
    · rw [hf, if_pos rfl, if_pos rfl]
    · rw [if_neg hf] at hpos ⊢
      rw [if_neg fun heq => hf (N.count_inj heq), ← h.total f' hpos]
      refine Dict.get?_update_of_notMem ?_
      intro hmem
      obtain ⟨sv, -, heq⟩ := List.mem_map.mp (List.map_map ▸ hmem)
      exact N.item_ne_count heq
  absent f' hzero hmem := by
    rw [countOf_record] at hzero
    split at hzero
    · omega
    · next hf =>
      rcases (mem_keys_record N).mp hmem with heq | ⟨sv, -, heq⟩ | hold
      · exact hf (N.count_inj heq)
      · exact N.item_ne_count heq.symm
      · exact h.absent f' hzero hold

/-- A property of names that holds of all names of a family survives its items. -/
theorem forall_keys_record {K : κ → Prop} {t : Table φ κ} {f : φ} {fields : List (σ × Int)}
    (h : ∀ k ∈ t.facts.keys, K k) (hcount : K (N.count f))
    (hitem : ∀ sv ∈ fields, ∀ n, 1 ≤ n → K (N.item f n sv.1)) :
    ∀ k ∈ (record N t f fields).facts.keys, K k := by
  intro k hk
  rcases (mem_keys_record N).mp hk with rfl | ⟨sv, hsv, rfl⟩ | hold
  · exact hcount
  · exact hitem sv hsv _ (by omega)
  · exact h k hold

/-- A property of facts that every item has when it is entered holds of all facts. -/
theorem forall_facts_record {P : φ → σ → Int → Prop} {t : Table φ κ} {f : φ}
    {fields : List (σ × Int)}
    (h : ∀ f n s v, t.facts.get? (N.item f n s) = some v → P f s v)
    (hfields : ∀ sv ∈ fields, P f sv.1 sv.2) :
    ∀ f' n s v, (record N t f fields).facts.get? (N.item f' n s) = some v → P f' s v := by
  intro f' n s v hget
  rcases get?_record_cases N hget with ⟨heq, -⟩ | ⟨s', hmem, heq⟩ | hold
  · exact absurd heq N.item_ne_count
  · obtain ⟨rfl, -, rfl⟩ := N.item_inj heq
    exact hfields _ hmem
  · exact h f' n s v hold

end Numbering
