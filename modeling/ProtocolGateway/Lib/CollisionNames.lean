import Mathlib.Data.List.Nodup
import Mathlib.Data.List.Perm.Basic

/-!
# Names rebuilt on a collision

Each item of a list has a natural name. An item that shares its natural name with another one of the
list takes a rebuilt name instead; the rebuilt names of different items are different.

* `name_injOn_iff` — the names are distinct unless a rebuilt name is the natural name of an item
  that kept it.
* `name_append_iff` — the names that survive when the list grows.
-/

universe u v

namespace CollisionNames

variable {α : Type u} {ν : Type v} [DecidableEq α] [BEq ν] [LawfulBEq ν] (natural rebuilt : α → ν)

/-! ## Shared names -/

/-- Another item of the list has the same natural name. -/
def Shares (xs : List α) (a : α) : Prop := ∃ b ∈ xs, b ≠ a ∧ natural b = natural a

/-- The name of an item: its natural name, unless that occurs more than once. -/
def name (xs : List α) (a : α) : ν :=
  if 1 < (xs.map natural).count (natural a) then rebuilt a else natural a

variable {natural rebuilt} {xs ys : List α} {a : α}

/-- In a list without repetitions, a name that occurs more than once is shared. -/
theorem one_lt_count_iff (hnodup : xs.Nodup) (ha : a ∈ xs) :
    1 < (xs.map natural).count (natural a) ↔ Shares natural xs a := by
  have hperm : (xs.map natural).Perm (natural a :: (xs.erase a).map natural) :=
    (List.perm_cons_erase ha).map natural
  rw [hperm.count_eq, List.count_cons_self, Nat.lt_add_left_iff_pos, List.count_pos_iff,
    List.mem_map, Shares]
  constructor
  · rintro ⟨b, hb, heq⟩
    obtain ⟨hne, hmem⟩ := hnodup.mem_erase_iff.mp hb
    exact ⟨b, hmem, hne, heq⟩
  · rintro ⟨b, hmem, hne, heq⟩
    exact ⟨b, hnodup.mem_erase_iff.mpr ⟨hne, hmem⟩, heq⟩

theorem name_of_shares (hnodup : xs.Nodup) (ha : a ∈ xs) (h : Shares natural xs a) :
    name natural rebuilt xs a = rebuilt a :=
  if_pos ((one_lt_count_iff hnodup ha).mpr h)

theorem name_of_not_shares (hnodup : xs.Nodup) (ha : a ∈ xs) (h : ¬ Shares natural xs a) :
    name natural rebuilt xs a = natural a :=
  if_neg (mt (one_lt_count_iff hnodup ha).mp h)

omit [DecidableEq α] [LawfulBEq ν] in
/-- The names do not depend on the order of the list. -/
theorem name_perm (h : ys.Perm xs) (a : α) :
    name natural rebuilt ys a = name natural rebuilt xs a := by
  rw [name, name, (h.map natural).count_eq]

/-! ## Distinct and lasting names -/

/-- **Distinct names.** Two items have the same name only if one took its rebuilt name and the other
kept this as its natural name. -/
theorem name_injOn_iff (hnodup : xs.Nodup)
    (hrebuilt : ∀ a ∈ xs, ∀ b ∈ xs, rebuilt a = rebuilt b → a = b) :
    (∀ a ∈ xs, ∀ b ∈ xs, name natural rebuilt xs a = name natural rebuilt xs b → a = b) ↔
      ∀ a ∈ xs, ∀ b ∈ xs, Shares natural xs a → ¬ Shares natural xs b →
        rebuilt a ≠ natural b := by
  constructor
  · intro hinj a ha b hb hshares hkeeps heq
    have hname : name natural rebuilt xs a = name natural rebuilt xs b := by
      rw [name_of_shares hnodup ha hshares, name_of_not_shares hnodup hb hkeeps, heq]
    exact hkeeps (hinj a ha b hb hname ▸ hshares)
  · intro hapart a ha b hb heq
    by_cases hsa : Shares natural xs a <;> by_cases hsb : Shares natural xs b
    · rw [name_of_shares hnodup ha hsa, name_of_shares hnodup hb hsb] at heq
      exact hrebuilt a ha b hb heq
    · rw [name_of_shares hnodup ha hsa, name_of_not_shares hnodup hb hsb] at heq
      exact absurd heq (hapart a ha b hb hsa hsb)
    · rw [name_of_not_shares hnodup ha hsa, name_of_shares hnodup hb hsb] at heq
      exact absurd heq.symm (hapart b hb a ha hsb hsa)
    · rw [name_of_not_shares hnodup ha hsa, name_of_not_shares hnodup hb hsb] at heq
      by_contra hne
      exact hsb ⟨a, ha, hne, heq⟩

/-- **Lasting names.** An item keeps its name when the list grows, unless a new item takes the
natural name the item had to itself. -/
theorem name_append_iff (hnodup : (xs ++ ys).Nodup) (ha : a ∈ xs) :
    name natural rebuilt (xs ++ ys) a = name natural rebuilt xs a ↔
      (¬ Shares natural xs a → (∃ b ∈ ys, natural b = natural a) → rebuilt a = natural a) := by
  have hxs : xs.Nodup := (List.nodup_append.mp hnodup).1
  have hmem : a ∈ xs ++ ys := List.mem_append_left ys ha
  have hgrown : Shares natural (xs ++ ys) a ↔
      Shares natural xs a ∨ ∃ b ∈ ys, natural b = natural a := by
    constructor
    · rintro ⟨b, hb, hne, heq⟩
      rcases List.mem_append.mp hb with hb | hb
      · exact Or.inl ⟨b, hb, hne, heq⟩
      · exact Or.inr ⟨b, hb, heq⟩
    · rintro (⟨b, hb, hne, heq⟩ | ⟨b, hb, heq⟩)
      · exact ⟨b, List.mem_append_left ys hb, hne, heq⟩
      · exact ⟨b, List.mem_append_right xs hb,
          fun hba => (List.nodup_append.mp hnodup).2.2 a ha b hb hba.symm, heq⟩
  by_cases hshares : Shares natural xs a
  · rw [name_of_shares hnodup hmem (hgrown.mpr (Or.inl hshares)), name_of_shares hxs ha hshares]
    exact iff_of_true rfl fun hkeeps => absurd hshares hkeeps
  · rw [name_of_not_shares hxs ha hshares]
    by_cases hnew : ∃ b ∈ ys, natural b = natural a
    · rw [name_of_shares hnodup hmem (hgrown.mpr (Or.inr hnew))]
      exact ⟨fun heq _ _ => heq, fun h => h hshares hnew⟩
    · rw [name_of_not_shares hnodup hmem (mt hgrown.mp (not_or.mpr ⟨hshares, hnew⟩))]
      exact iff_of_true rfl fun _ h => absurd h hnew

end CollisionNames
