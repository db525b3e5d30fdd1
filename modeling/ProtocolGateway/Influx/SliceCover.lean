import Mathlib.Algebra.Order.BigOperators.Group.List
import Mathlib.Algebra.Ring.Nat
import ProtocolGateway.WebServer.Timeshift.TimeSlices

/-!
# What the slices of an edit hold

The slices of a range hold a time as often as the range does, once or not at all, if that is so for
the two halves of every part that the halving can come to. The condition is exact for each single
time: where the halves of a part hold it more or less often, some server makes the loop cut there.

* `Piece` — the parts of a range, with their last moment or without it.
* `Joins` — the halves of a part hold a time as often as the part.
* `joins_iff` — every server's slices hold the time as often as the range exactly if all parts do
  so.
-/

namespace ProtocolGateway

namespace TimeSlices

open Bisect

variable {ρ R : Type} {utc : Int → Int} {t : Int}

/-- The parts that a range can be cut into; `endInclusive` goes to the last one. -/
inductive Piece : Int → Int → Bool → Int → Int → Bool → Prop
  | whole (a b : Int) (endInclusive : Bool) : Piece a b endInclusive a b endInclusive
  | left {a b m x y : Int} {endInclusive i : Bool} : cut a b = some m → Piece a m false x y i →
      Piece a b endInclusive x y i
  | right {a b m x y : Int} {endInclusive i : Bool} : cut a b = some m →
      Piece m b endInclusive x y i → Piece a b endInclusive x y i

/-- How often a slice holds a time: once or not at all. -/
def holds (utc : Int → Int) (t x y : Int) (i : Bool) : Nat :=
  (within (1000 * utc x) (1000 * utc y) i t).toNat

/-- How often some slices hold a time. -/
def copies (utc : Int → Int) (t : Int) (slices : List (Int × Int × Bool × R)) : Nat :=
  (slices.map fun s => holds utc t s.1 s.2.1 s.2.2.1).sum

/-- The halves of a part hold a time as often as the part. -/
def Joins (utc : Int → Int) (t x y : Int) (i : Bool) : Prop :=
  ∀ m, cut x y = some m → holds utc t x m false + holds utc t m y i = holds utc t x y i

theorem copies_append (slices slices' : List (Int × Int × Bool × R)) :
    copies utc t (slices ++ slices') = copies utc t slices + copies utc t slices' := by
  rw [copies, List.map_append, List.sum_append]
  rfl

theorem copies_singleton (x y : Int) (i : Bool) (r : R) :
    copies utc t [(x, y, i, r)] = holds utc t x y i := List.sum_singleton

/-! ## The slices of a loop -/

/-- The loop of an edit or a preview, from the `n`th call on. -/
def slicesFrom (run : Nat → Int → Int → Bool → Except String R) (a b : Int) (endInclusive : Bool)
    (n : Nat) : Except String (List (Int × Int × Bool × R)) × Nat :=
  sliceLoop (fun x y i result => [(x, y, i, result)]) run a b endInclusive n

section

variable {run : Nat → Int → Int → Bool → Except String R} {a b : Int} {endInclusive : Bool} {n : Nat}
  {slices : List (Int × Int × Bool × R)}

/-- A slice comes with what its call returned. -/
theorem run_of_mem_slicesFrom (h : (slicesFrom run a b endInclusive n).1 = .ok slices)
    {s : Int × Int × Bool × R} (hs : s ∈ slices) :
    ∃ n', run n' s.1 s.2.1 s.2.2.1 = .ok s.2.2.2 := by
  unfold slicesFrom at h
  fun_induction sliceLoop (fun x y i (result : R) => [(x, y, i, result)]) run a b endInclusive n
    generalizing slices with
  | case1 a b i n result hrun =>
    obtain rfl := Except.ok.inj h
    obtain rfl := List.mem_singleton.1 hs
    exact ⟨n, hrun⟩
  | case2 a b i n exc hrun hstop => cases h
  | case3 a b i n exc hrun hstop exc' n' hfirst ih => cases h
  | case4 a b i n exc hrun hstop first n' hfirst exc' n'' hsecond ih ih' => cases h
  | case5 a b i n exc hrun hstop first n' hfirst second n'' hsecond ih ih' =>
    obtain rfl := Except.ok.inj h
    rw [hfirst] at ih
    rw [hsecond] at ih'
    rcases List.mem_append.1 hs with hs | hs
    · exact ih rfl hs
    · exact ih' rfl hs

/-- If the parts join, the slices hold the time as often as the range. -/
theorem copies_of_joins (hjoins : ∀ x y i, Piece a b endInclusive x y i → Joins utc t x y i)
    (h : (slicesFrom run a b endInclusive n).1 = .ok slices) :
    copies utc t slices = holds utc t a b endInclusive := by
  unfold slicesFrom at h
  fun_induction sliceLoop (fun x y i (result : R) => [(x, y, i, result)]) run a b endInclusive n
    generalizing slices with
  | case1 a b i n result hrun =>
    obtain rfl := Except.ok.inj h
    exact copies_singleton a b i result
  | case2 a b i n exc hrun hstop => cases h
  | case3 a b i n exc hrun hstop exc' n' hfirst ih => cases h
  | case4 a b i n exc hrun hstop first n' hfirst exc' n'' hsecond ih ih' => cases h
  | case5 a b i n exc hrun hstop first n' hfirst second n'' hsecond ih ih' =>
    obtain rfl := Except.ok.inj h
    have hcut : cut a b = some (midpoint a b) := if_pos (not_le.mp (not_or.mp hstop).2)
    rw [hfirst] at ih
    rw [hsecond] at ih'
    have hleft := ih (fun x y i hpiece => hjoins x y i (.left hcut hpiece)) rfl
    have hright := ih' (fun x y i hpiece => hjoins x y i (.right hcut hpiece)) rfl
    rw [copies_append, hleft, hright]
    exact hjoins a b i (.whole a b i) _ hcut

/-- The slices hold a time if it has begun and not ended. -/
theorem starts_sub_ends_le_copies (h : (slicesFrom run a b endInclusive n).1 = .ok slices) :
    starts (1000 * utc a) t - ends (1000 * utc b) endInclusive t ≤ copies utc t slices := by
  unfold slicesFrom at h
  fun_induction sliceLoop (fun x y i (result : R) => [(x, y, i, result)]) run a b endInclusive n
    generalizing slices with
  | case1 a b i n result hrun =>
    obtain rfl := Except.ok.inj h
    rw [copies_singleton]
    refine starts_sub_ends_le.trans_eq ?_
    unfold holds
    cases within (1000 * utc a) (1000 * utc b) i t <;> rfl
  | case2 a b i n exc hrun hstop => cases h
  | case3 a b i n exc hrun hstop exc' n' hfirst ih => cases h
  | case4 a b i n exc hrun hstop first n' hfirst exc' n'' hsecond ih ih' => cases h
  | case5 a b i n exc hrun hstop first n' hfirst second n'' hsecond ih ih' =>
    obtain rfl := Except.ok.inj h
    rw [hfirst] at ih
    rw [hsecond] at ih'
    have hleft := ih rfl
    have hright := ih' rfl
    rw [ends_false_eq_starts] at hleft
    rw [copies_append]
    omega

/-- **The slices hold a time at least as often as the range.** -/
theorem holds_le_copies (h : (slicesFrom run a b endInclusive n).1 = .ok slices) :
    holds utc t a b endInclusive ≤ copies utc t slices := by
  have hle := @starts_sub_ends_le_copies R utc t run a b endInclusive n slices h
  by_cases hin : within (1000 * utc a) (1000 * utc b) endInclusive t = true
  · have hwithin := within_iff.1 hin
    have hstarts : starts (1000 * utc a) t = 1 := if_pos hwithin.1
    have hends : ends (1000 * utc b) endInclusive t = 0 := by
      refine if_neg fun hover => ?_
      cases endInclusive with
      | true => exact absurd hwithin.2 (not_le.mpr hover)
      | false => exact absurd hwithin.2 (not_lt.mpr hover)
    rw [holds, hin]
    rw [hstarts, hends] at hle
    exact Int.ofNat_le.1 hle
  · rw [holds, Bool.eq_false_iff.2 hin]
    exact Nat.zero_le _

end

/-! ## A server that makes the loop cut -/

/-- A server that rejects a range with a certain slice in it, the slice itself if it is told to. -/
def around (utc : Int → Int) (store : List (Record ρ)) (x y : Int) (itself : Bool) :
    Server utc store where
  run _ a b endInclusive :=
    if a ≤ x ∧ y ≤ b ∧ (itself = true ∨ ¬(a = x ∧ b = y)) then .error fileLimitText
    else .ok (store.filter (inSlice utc a b endInclusive))
  complete n a b endInclusive rows h := by
    split at h
    · cases h
    · rw [Except.ok.inj h]

section

variable {store : List (Record ρ)} {x y a b m : Int} {itself endInclusive i : Bool}

theorem cut_eq_some_iff : cut a b = some m ↔ v3MinSlice < b - a ∧ midpoint a b = m := by
  unfold cut
  split
  · next hlt => rw [Option.some_inj, and_iff_right hlt]
  · next hlt => exact iff_of_false nofun fun h => hlt h.1

/-- The halves of a range are shorter. -/
theorem bounds_of_cut (h : cut a b = some m) : a < m ∧ m < b := by
  obtain ⟨hlt, rfl⟩ := cut_eq_some_iff.1 h
  obtain ⟨hlow, hhigh⟩ := midpoint_bounds hlt
  omega

theorem bounds_of_piece (h : Piece a b endInclusive x y i) : a ≤ x ∧ y ≤ b := by
  induction h with
  | whole => exact ⟨le_rfl, le_rfl⟩
  | left hcut _ ih => exact ⟨ih.1, ih.2.trans (bounds_of_cut hcut).2.le⟩
  | right hcut _ ih => exact ⟨(bounds_of_cut hcut).1.le.trans ih.1, ih.2⟩

/-- It accepts a range that does not hold the slice. -/
theorem slicesFrom_around_ok (n : Nat) (h : ¬(a ≤ x ∧ y ≤ b ∧ (itself = true ∨ ¬(a = x ∧ b = y)))) :
    (slicesFrom (around utc store x y itself).run a b endInclusive n).1 =
      .ok [(a, b, endInclusive, store.filter (inSlice utc a b endInclusive))] := by
  have hrun : (around utc store x y itself).run n a b endInclusive =
      .ok (store.filter (inSlice utc a b endInclusive)) := if_neg h
  rw [slicesFrom, sliceLoop, hrun]

/-- The loop cuts a range that holds the slice. -/
theorem slicesFrom_around_cut {first second : List (Int × Int × Bool × List (Record ρ))}
    (hcut : cut a b = some m) (h : a ≤ x ∧ y ≤ b ∧ (itself = true ∨ ¬(a = x ∧ b = y))) (n : Nat)
    (hfirst : ∀ n, (slicesFrom (around utc store x y itself).run a m false n).1 = .ok first)
    (hsecond : ∀ n, (slicesFrom (around utc store x y itself).run m b endInclusive n).1 =
      .ok second) :
    (slicesFrom (around utc store x y itself).run a b endInclusive n).1 =
      .ok (first ++ second) := by
  obtain ⟨hlt, rfl⟩ := cut_eq_some_iff.1 hcut
  have hrun : (around utc store x y itself).run n a b endInclusive = .error fileLimitText := if_pos h
  have hgo : ¬(isFileLimitError fileLimitText = false ∨ b - a ≤ v3MinSlice) := by
    rw [isFileLimitError_fileLimitText, not_or]
    exact ⟨nofun, not_le.2 hlt⟩
  unfold slicesFrom at hfirst hsecond ⊢
  rw [sliceLoop, hrun]
  simp only [dif_neg hgo]
  have hleft := hfirst (n + 1)
  generalize sliceLoop _ _ a (midpoint a b) false (n + 1) = r at hleft ⊢
  obtain ⟨result, n'⟩ := r
  obtain rfl : result = .ok first := hleft
  have hright := hsecond n'
  dsimp only
  generalize sliceLoop _ _ (midpoint a b) b endInclusive n' = r' at hright ⊢
  obtain ⟨result', n''⟩ := r'
  obtain rfl : result' = .ok second := hright
  rfl

/-- The slices with a part as a whole, and with its halves. -/
theorem copies_around (hcut : cut x y = some m) (h : Piece a b endInclusive x y i) :
    ∃ others, ∀ itself, ∃ slices,
      (∀ n, (slicesFrom (around utc store x y itself).run a b endInclusive n).1 = .ok slices) ∧
        copies utc t slices = others +
          if itself = true then holds utc t x m false + holds utc t m y i else holds utc t x y i := by
  have hxy := bounds_of_cut hcut
  induction h with
  | whole x y i =>
    refine ⟨0, fun itself => ?_⟩
    cases itself with
    | false =>
      exact ⟨_, fun n => slicesFrom_around_ok n (by simp), by rw [copies_singleton]; simp⟩
    | true =>
      refine ⟨_, fun n => slicesFrom_around_cut hcut (by simp) n
        (fun n => slicesFrom_around_ok n (by omega)) (fun n => slicesFrom_around_ok n (by omega)), ?_⟩
      rw [copies_append, copies_singleton, copies_singleton]
      simp
  | @left a b m' x y endInclusive i hcut' hpiece ih =>
    obtain ⟨others, hothers⟩ := ih hcut hxy
    have hm' := bounds_of_cut hcut'
    have hin := bounds_of_piece hpiece
    refine ⟨others + holds utc t m' b endInclusive, fun itself => ?_⟩
    obtain ⟨slices, hslices, hcopies⟩ := hothers itself
    refine ⟨_, fun n => slicesFrom_around_cut hcut' ⟨hin.1, by omega, Or.inr (by omega)⟩ n hslices
      (fun n => slicesFrom_around_ok n (by omega)), ?_⟩
    rw [copies_append, copies_singleton, hcopies]
    omega
  | @right a b m' x y endInclusive i hcut' hpiece ih =>
    obtain ⟨others, hothers⟩ := ih hcut hxy
    have hm' := bounds_of_cut hcut'
    have hin := bounds_of_piece hpiece
    refine ⟨holds utc t a m' false + others, fun itself => ?_⟩
    obtain ⟨slices, hslices, hcopies⟩ := hothers itself
    refine ⟨_, fun n => slicesFrom_around_cut hcut' ⟨by omega, hin.2, Or.inr (by omega)⟩ n
      (fun n => slicesFrom_around_ok n (by omega)) hslices, ?_⟩
    rw [copies_append, copies_singleton, hcopies]
    omega

/-- **The slices of every server hold the time as often as the range** exactly if the halves of each
part do. -/
theorem joins_iff (store : List (Record ρ)) :
    (∀ (server : Server utc store) (slices : List (Int × Int × Bool × List (Record ρ))),
        (slicesFrom server.run a b endInclusive 0).1 = .ok slices →
        copies utc t slices = holds utc t a b endInclusive) ↔
      ∀ x y i, Piece a b endInclusive x y i → Joins utc t x y i := by
  refine ⟨fun h x y i hpiece m hcut => ?_, fun hjoins server slices => copies_of_joins hjoins⟩
  obtain ⟨others, hothers⟩ := @copies_around ρ utc t store x y a b m endInclusive i hcut hpiece
  obtain ⟨slices, hslices, hcopies⟩ := hothers false
  obtain ⟨slices', hslices', hcopies'⟩ := hothers true
  have hwhole := h (around utc store x y false) slices (hslices 0)
  have hhalves := h (around utc store x y true) slices' (hslices' 0)
  rw [hcopies] at hwhole
  rw [hcopies'] at hhalves
  simp only [Bool.false_eq_true, if_false] at hwhole
  simp only [if_true] at hhalves
  omega

end

end TimeSlices

end ProtocolGateway
