import ProtocolGateway.Lib.Dict
import ProtocolGateway.Lib.Outcomes

/-!
# Dictionaries in layers

Several dictionaries merged into one, later ones over earlier ones. A key has the value of the last
layer that has the key (`get?_merge`). `mergeM` merges layers that are computed one after the other
and may raise (`get?_mergeM`).
-/

universe u v w

namespace Layers

open Outcomes

variable {κ : Type u} {ν : Type u} [DecidableEq κ]

/-- The layers over a first dictionary. -/
def merge (d : Dict κ ν) (layers : List (Dict κ ν)) : Dict κ ν :=
  layers.foldl (fun d layer => d.update layer.items) d

/-- The last layer that has a key gives its value. -/
theorem get?_merge (d : Dict κ ν) (layers : List (Dict κ ν)) (k : κ) :
    (merge d layers).get? k = (layers.reverse.findSome? fun layer => layer.get? k).or (d.get? k) := by
  induction layers generalizing d with
  | nil => rfl
  | cons layer layers ih =>
    have hcons : merge d (layer :: layers) = merge (d.update layer.items) layers := rfl
    have hlayer : (d.update layer.items).get? k = (layer.get? k).or (d.get? k) :=
      Dict.get?_update layer.nodup k
    rw [hcons, ih, hlayer, List.reverse_cons, List.findSome?_append, Option.or_assoc]
    congr 1
    cases h : layer.get? k <;> simp [h]

variable {ε : Type w} {α : Type u}

/-- Layers that are computed in a row. -/
def mergeM (f : α → Except ε (Dict κ ν)) (l : List α) (d : Dict κ ν) : Except ε (Dict κ ν) :=
  l.foldlM (fun d a => (f a).map fun layer => d.update layer.items) d

/-- The value of the last element that computes a layer with a key. -/
def last (f : α → Except ε (Dict κ ν)) (l : List α) (k : κ) : Option ν :=
  l.reverse.findSome? fun a => (f a).toOption.bind fun layer => layer.get? k

variable {f g : α → Except ε (Dict κ ν)} {l : List α} {d d' : Dict κ ν}

theorem mergeM_cons {a : α} :
    mergeM f (a :: l) d = (f a).map (fun layer => d.update layer.items) >>= mergeM f l :=
  List.foldlM_cons

theorem mergeM_append {l' : List α} : mergeM f (l ++ l') d = mergeM f l d >>= mergeM f l' :=
  List.foldlM_append

theorem mergeM_map {β : Type u} (f : α → Except ε (Dict κ ν)) (g : β → α) (l : List β) :
    mergeM f (l.map g) d = mergeM (fun b => f (g b)) l d :=
  List.foldlM_map

theorem mergeM_congr (h : ∀ a ∈ l, f a = g a) : mergeM f l d = mergeM g l d :=
  foldlM_congr fun a ha d => by rw [h a ha]

/-- Empty layers change nothing. -/
theorem mergeM_of_empty (h : ∀ a ∈ l, f a = .ok Dict.empty) : mergeM f l d = .ok d :=
  foldlM_of_fixed fun a ha => by
    rw [h a ha]
    rfl

/-- A loop of merges is one merge. -/
theorem foldlM_mergeM {β : Type u} {groups : List β} {parts : β → List α} :
    groups.foldlM (fun d b => mergeM f (parts b) d) d = mergeM f (groups.flatMap parts) d := by
  induction groups generalizing d with
  | nil => rfl
  | cons b groups ih =>
    rw [List.foldlM_cons, List.flatMap_cons, mergeM_append]
    congr 1
    exact funext fun between => ih

/-- A merge goes through if every layer is computed. -/
theorem returns_mergeM_iff : Returns (mergeM f l d) ↔ ∀ a ∈ l, Returns (f a) :=
  returns_foldlM_iff_forall fun _ _ _ => returns_map_iff

/-- What is merged is what the layers give, the last one first. -/
theorem get?_mergeM (h : mergeM f l d = .ok d') (k : κ) : d'.get? k = (last f l k).or (d.get? k) := by
  induction l generalizing d with
  | nil =>
    rw [← Except.ok.inj h]
    rfl
  | cons a l ih =>
    rw [mergeM_cons] at h
    obtain ⟨between, hlayer, hrest⟩ := bind_eq_ok_iff.mp h
    obtain ⟨layer, ha, rfl⟩ := map_eq_ok_iff.mp hlayer
    have hget : (d.update layer.items).get? k = (layer.get? k).or (d.get? k) :=
      Dict.get?_update layer.nodup k
    have hlast : last f (a :: l) k = (last f l k).or (layer.get? k) := by
      unfold last
      rw [List.reverse_cons, List.findSome?_append, List.findSome?_cons, ha]
      congr 1
      cases h : layer.get? k <;> simp [Except.toOption, h]
    rw [ih hrest, hget, hlast, Option.or_assoc]

theorem last_concat {a : α} {k : κ} : last f (l ++ [a]) k =
    ((f a).toOption.bind fun layer => layer.get? k).or (last f l k) := by
  unfold last
  rw [List.reverse_append, List.reverse_singleton, List.singleton_append, List.findSome?_cons]
  cases (f a).toOption.bind fun layer => layer.get? k <;> rfl

/-- Some element that computes a layer with the key gives the last value. -/
theorem exists_of_last {k : κ} {v : ν} (h : last f l k = some v) :
    ∃ a ∈ l, ∃ layer, f a = .ok layer ∧ layer.get? k = some v := by
  obtain ⟨a, ha, hv⟩ := List.exists_of_findSome?_eq_some h
  refine ⟨a, List.mem_reverse.mp ha, ?_⟩
  obtain ⟨layer, hlayer, hv⟩ := Option.bind_eq_some_iff.mp hv
  refine ⟨layer, ?_, hv⟩
  cases hf : f a with
  | error err =>
    rw [hf] at hlayer
    cases hlayer
  | ok layer' =>
    rw [hf] at hlayer
    exact congrArg Except.ok (Option.some.inj hlayer)

/-- Without a last value no computed layer has the key. -/
theorem last_eq_none_iff {k : κ} :
    last f l k = none ↔ ∀ a ∈ l, ∀ layer, f a = .ok layer → layer.get? k = none := by
  unfold last
  rw [List.findSome?_eq_none_iff]
  constructor
  · intro h a ha layer hlayer
    have hnone := h a (List.mem_reverse.mpr ha)
    rw [hlayer] at hnone
    exact hnone
  · intro h a ha
    cases hf : f a with
    | error err => rfl
    | ok layer => exact h a (List.mem_reverse.mp ha) layer hf

theorem last_congr (h : ∀ a ∈ l, f a = g a) (k : κ) : last f l k = last g l k := by
  induction l with
  | nil => rfl
  | cons a l ih =>
    have hrest : last f l k = last g l k := ih fun b hb => h b (List.mem_cons_of_mem _ hb)
    unfold last at hrest ⊢
    rw [List.reverse_cons, List.findSome?_append, List.findSome?_append, hrest,
      List.findSome?_cons, List.findSome?_cons, List.findSome?_nil, List.findSome?_nil,
      h a List.mem_cons_self]

end Layers
