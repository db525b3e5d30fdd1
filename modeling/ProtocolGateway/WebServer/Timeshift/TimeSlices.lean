import Mathlib.Data.List.Infix
import ProtocolGateway.Lib.Bisect
import ProtocolGateway.Text

/-!
# Queries by time slices

A query over a range of time may be rejected for touching too many files. The range is then cut at its
midpoint, and each half is queried by itself. Ranges are datetimes of one time zone: their differences
and midpoints are those of the wall clock, in microseconds, and a query converts its two ends to UTC.

* `queryV3TimeSlices`, `queryTimeSlices` — the queries of an export, and the slices of an edit.
* `Well` — the rows of the range are returned once, or the last error is raised, after few calls.
* `well_iff` — that is so for every store and every server if no slice runs backwards in UTC.
-/

namespace ProtocolGateway

namespace TimeSlices

open Bisect

/-! ## The queries -/

/-- `_is_file_limit_error`, by the text of the exception. -/
def isFileLimitError (text : String) : Bool :=
  let lower := Text.lower text.toList
  decide ("file limit".toList <:+: lower) ||
    decide ("parquet files".toList <:+: lower) && decide ("exceeding".toList <:+: lower)

/-- `_V3_MIN_SLICE`, in microseconds -/
def v3MinSlice : Int := 600000000

/-- Half of a time difference, a tie to the even microsecond. -/
def half (w : Int) : Int := if w % 2 = 0 then w / 2 else w / 2 + w / 2 % 2

def midpoint (sliceStart sliceEnd : Int) : Int := sliceStart + half (sliceEnd - sliceStart)

theorem half_bounds {w : Int} (h : v3MinSlice < w) : 300000000 ≤ half w ∧ half w ≤ w - 300000000 := by
  unfold v3MinSlice at h
  unfold half
  split <;> omega

theorem midpoint_bounds {a b : Int} (h : v3MinSlice < b - a) :
    300000000 ≤ midpoint a b - a ∧ 300000000 ≤ b - midpoint a b := by
  obtain ⟨hlow, hhigh⟩ := half_bounds h
  unfold midpoint
  omega

section

variable {R S : Type}

/-- `_go` from the `n`th call on: the results that are kept, or the exception that is raised, and the
number of the next call. -/
def sliceLoop (keep : Int → Int → Bool → R → List S)
    (run : Nat → Int → Int → Bool → Except String R) (sliceStart sliceEnd : Int)
    (endInclusive : Bool) (n : Nat) : Except String (List S) × Nat :=
  match run n sliceStart sliceEnd endInclusive with
  | .ok result => (.ok (keep sliceStart sliceEnd endInclusive result), n + 1)
  | .error exc =>
    if h : isFileLimitError exc = false ∨ sliceEnd - sliceStart ≤ v3MinSlice then
      (.error exc, n + 1)
    else
      match sliceLoop keep run sliceStart (midpoint sliceStart sliceEnd) false (n + 1) with
      | (.error exc, n') => (.error exc, n')
      | (.ok first, n') =>
        match sliceLoop keep run (midpoint sliceStart sliceEnd) sliceEnd endInclusive n' with
        | (.error exc, n'') => (.error exc, n'')
        | (.ok second, n'') => (.ok (first ++ second), n'')
termination_by (sliceEnd - sliceStart).toNat
decreasing_by
  all_goals
    obtain ⟨hfirst, hsecond⟩ := midpoint_bounds (not_le.mp (not_or.mp h).2)
    omega

end

/-- A row: its time in nanoseconds, and the rest. -/
abbrev Record (ρ : Type) := Int × ρ

variable {ρ : Type}

/-- `_query_v3_time_slices` -/
def queryV3TimeSlices (run : Nat → Int → Int → Bool → Except String (List (Record ρ)))
    (startTime endTime : Int) : Except String (List (Record ρ)) × Nat :=
  sliceLoop (fun _ _ _ rows => rows) run startTime endTime true 0

/-- `Influx3AdminManager._query_time_slices` -/
def queryTimeSlices {R : Type} (startTime endTime : Int)
    (run : Nat → Int → Int → Bool → Except String R) :
    Except String (List (Int × Int × Bool × R)) × Nat :=
  sliceLoop (fun sliceStart sliceEnd endInclusive result =>
    [(sliceStart, sliceEnd, endInclusive, result)]) run startTime endTime true 0

/-! ## What they are for -/

/-- Is a row in a slice? The ends of the slice are converted to UTC. -/
def inSlice (utc : Int → Int) (sliceStart sliceEnd : Int) (endInclusive : Bool) (r : Record ρ) :
    Bool :=
  within (1000 * utc sliceStart) (1000 * utc sliceEnd) endInclusive r.1

/-- A server returns the rows of a slice in some order, or rejects the call. -/
structure Server (utc : Int → Int) (store : List (Record ρ)) where
  run : Nat → Int → Int → Bool → Except String (List (Record ρ))
  complete : ∀ n a b endInclusive rows, run n a b endInclusive = .ok rows →
    rows.Perm (store.filter (inSlice utc a b endInclusive))

/-- The rows are those of slices, one after the other. -/
inductive InSliceOrder (utc : Int → Int) (store : List (Record ρ)) :
    Int → Int → Bool → List (Record ρ) → Prop
  | slice {a b : Int} {endInclusive : Bool} {rows : List (Record ρ)} :
      rows.Perm (store.filter (inSlice utc a b endInclusive)) →
      InSliceOrder utc store a b endInclusive rows
  | join {a m b : Int} {endInclusive : Bool} {first second : List (Record ρ)} : a ≤ m → m ≤ b →
      InSliceOrder utc store a m false first → InSliceOrder utc store m b endInclusive second →
      InSliceOrder utc store a b endInclusive (first ++ second)

/-- The most calls for a range. -/
def callBound (w : Int) : Nat := 1 + 2 * (w / 300000000 - 1).toNat

/-- The last call's error is raised, or each row of the range is returned once and in slice order; and
there are few calls. -/
def Well (utc : Int → Int) (store : List (Record ρ)) (server : Server utc store) (a b : Int)
    (outcome : Except String (List (Record ρ)) × Nat) : Prop :=
  (∀ exc, outcome.1 = .error exc →
      ∃ n x y endInclusive, outcome.2 = n + 1 ∧ server.run n x y endInclusive = .error exc) ∧
    (∀ rows, outcome.1 = .ok rows → rows.Perm (store.filter (inSlice utc a b true)) ∧
      InSliceOrder utc store a b true rows) ∧
    outcome.2 ≤ callBound (b - a)

/-- The slices put together. -/
def joined {R : Type} (outcome : Except String (List (Int × Int × Bool × List R)) × Nat) :
    Except String (List R) × Nat :=
  (outcome.1.map fun slices => slices.flatMap fun slice => slice.2.2.2, outcome.2)

/-- The midpoint of a range that may be cut. -/
def cut (a b : Int) : Option Int := if v3MinSlice < b - a then some (midpoint a b) else none

/-! ## The loop -/

/-- The slices of an edit hold the rows that an export would return. -/
theorem joined_sliceLoop {R : Type} (run : Nat → Int → Int → Bool → Except String (List R))
    (a b : Int) (endInclusive : Bool) (n : Nat) :
    joined (sliceLoop (fun a b i result => [(a, b, i, result)]) run a b endInclusive n) =
      sliceLoop (fun _ _ _ rows => rows) run a b endInclusive n := by
  fun_induction sliceLoop (fun a b i (result : List R) => [(a, b, i, result)]) run a b endInclusive n
    with
  | case1 a b i n rows hrun =>
    rw [sliceLoop, hrun]
    simp [joined, Except.map]
  | case2 a b i n exc hrun hstop =>
    rw [sliceLoop, hrun]
    simp only [dif_pos hstop]
    rfl
  | case3 a b i n exc hrun hstop exc' n' hfirst ih =>
    rw [sliceLoop, hrun]
    rw [hfirst] at ih
    simp only [dif_neg hstop, ← ih]
    rfl
  | case4 a b i n exc hrun hstop first n' hfirst exc' n'' hsecond ih ih' =>
    rw [sliceLoop, hrun]
    rw [hfirst] at ih
    rw [hsecond] at ih'
    simp only [dif_neg hstop, ← ih]
    simp only [joined, Except.map]
    rw [← ih']
    rfl
  | case5 a b i n exc hrun hstop first n' hfirst second n'' hsecond ih ih' =>
    rw [sliceLoop, hrun]
    rw [hfirst] at ih
    rw [hsecond] at ih'
    simp only [dif_neg hstop, ← ih]
    simp only [joined, Except.map]
    rw [← ih']
    simp [joined, Except.map]

section

variable {R S : Type} {keep : Int → Int → Bool → R → List S}
  {run : Nat → Int → Int → Bool → Except String R} {a b : Int} {endInclusive : Bool} {n : Nat}

/-- What the loop raises, its last call raised. -/
theorem sliceLoop_error {exc : String} (h : (sliceLoop keep run a b endInclusive n).1 = .error exc) :
    ∃ n' x y i, (sliceLoop keep run a b endInclusive n).2 = n' + 1 ∧ run n' x y i = .error exc := by
  fun_induction sliceLoop keep run a b endInclusive n with
  | case1 a b i n result hrun => cases h
  | case2 a b i n exc' hrun hstop =>
    obtain rfl := Except.error.inj h
    exact ⟨n, a, b, i, rfl, hrun⟩
  | case3 a b i n exc' hrun hstop exc'' n' hfirst ih =>
    rw [hfirst] at ih
    exact ih h
  | case4 a b i n exc' hrun hstop first n' hfirst exc'' n'' hsecond ih ih' =>
    rw [hsecond] at ih'
    exact ih' h
  | case5 a b i n exc' hrun hstop first n' hfirst second n'' hsecond ih ih' => cases h

theorem callBound_add {w first second : Int} (hfirst : 300000000 ≤ first)
    (hsecond : 300000000 ≤ second) (hw : w = first + second) :
    1 + callBound first + callBound second ≤ callBound w := by
  unfold callBound
  omega

/-- The loop makes few calls. -/
theorem sliceLoop_calls (keep : Int → Int → Bool → R → List S)
    (run : Nat → Int → Int → Bool → Except String R) (a b : Int) (endInclusive : Bool) (n : Nat) :
    (sliceLoop keep run a b endInclusive n).2 ≤ n + callBound (b - a) := by
  have hone : ∀ w, 1 ≤ callBound w := fun w => Nat.le_add_right ..
  have hadd : ∀ a b : Int, v3MinSlice < b - a →
      1 + callBound (midpoint a b - a) + callBound (b - midpoint a b) ≤ callBound (b - a) :=
    fun a b h => callBound_add (midpoint_bounds h).1 (midpoint_bounds h).2 (by omega)
  fun_induction sliceLoop keep run a b endInclusive n with
  | case1 a b i n result hrun => exact Nat.add_le_add_left (hone _) n
  | case2 a b i n exc hrun hstop => exact Nat.add_le_add_left (hone _) n
  | case3 a b i n exc hrun hstop exc' n' hfirst ih =>
    have hsum := hadd a b (not_le.mp (not_or.mp hstop).2)
    rw [hfirst] at ih
    have hn' : n' ≤ n + 1 + callBound (midpoint a b - a) := ih
    exact show n' ≤ _ by omega
  | case4 a b i n exc hrun hstop first n' hfirst exc' n'' hsecond ih ih' =>
    have hsum := hadd a b (not_le.mp (not_or.mp hstop).2)
    rw [hfirst] at ih
    rw [hsecond] at ih'
    have hn' : n' ≤ n + 1 + callBound (midpoint a b - a) := ih
    have hn'' : n'' ≤ n' + callBound (b - midpoint a b) := ih'
    exact show n'' ≤ _ by omega
  | case5 a b i n exc hrun hstop first n' hfirst second n'' hsecond ih ih' =>
    have hsum := hadd a b (not_le.mp (not_or.mp hstop).2)
    rw [hfirst] at ih
    rw [hsecond] at ih'
    have hn' : n' ≤ n + 1 + callBound (midpoint a b - a) := ih
    have hn'' : n'' ≤ n' + callBound (b - midpoint a b) := ih'
    exact show n'' ≤ _ by omega

end

section

variable {utc : Int → Int} {store : List (Record ρ)} (server : Server utc store)

/-- The rows of the loop, slice by slice. -/
theorem sliceLoop_order {a b : Int} {endInclusive : Bool} {n : Nat} {rows : List (Record ρ)}
    (h : (sliceLoop (fun _ _ _ rows => rows) server.run a b endInclusive n).1 = .ok rows) :
    InSliceOrder utc store a b endInclusive rows := by
  fun_induction sliceLoop (fun _ _ _ (rows : List (Record ρ)) => rows) server.run a b endInclusive n
    generalizing rows with
  | case1 a b i n result hrun =>
    obtain rfl := Except.ok.inj h
    exact .slice (server.complete n a b i _ hrun)
  | case2 a b i n exc hrun hstop => cases h
  | case3 a b i n exc hrun hstop exc' n' hfirst ih => cases h
  | case4 a b i n exc hrun hstop first n' hfirst exc' n'' hsecond ih ih' => cases h
  | case5 a b i n exc hrun hstop first n' hfirst second n'' hsecond ih ih' =>
    obtain rfl := Except.ok.inj h
    obtain ⟨hlow, hhigh⟩ := midpoint_bounds (not_le.mp (not_or.mp hstop).2)
    rw [hfirst] at ih
    rw [hsecond] at ih'
    exact .join (by omega) (by omega) (ih rfl) (ih' rfl)

/-- If no part runs backwards, the rows of the loop are those of the range. -/
theorem sliceLoop_perm {a b : Int} {endInclusive : Bool} {n : Nat} {rows : List (Record ρ)}
    (hforward : ∀ x y, Part cut a b x y → utc x ≤ utc y)
    (h : (sliceLoop (fun _ _ _ rows => rows) server.run a b endInclusive n).1 = .ok rows) :
    rows.Perm (store.filter (inSlice utc a b endInclusive)) := by
  fun_induction sliceLoop (fun _ _ _ (rows : List (Record ρ)) => rows) server.run a b endInclusive n
    generalizing rows with
  | case1 a b i n result hrun =>
    obtain rfl := Except.ok.inj h
    exact server.complete n a b i _ hrun
  | case2 a b i n exc hrun hstop => cases h
  | case3 a b i n exc hrun hstop exc' n' hfirst ih => cases h
  | case4 a b i n exc hrun hstop first n' hfirst exc' n'' hsecond ih ih' => cases h
  | case5 a b i n exc hrun hstop first n' hfirst second n'' hsecond ih ih' =>
    obtain rfl := Except.ok.inj h
    have hcut : cut a b = some (midpoint a b) := if_pos (not_le.mp (not_or.mp hstop).2)
    rw [hfirst] at ih
    rw [hsecond] at ih'
    have hleft := ih (fun x y hpart => hforward x y (.left hcut hpart)) rfl
    have hright := ih' (fun x y hpart => hforward x y (.right hcut hpart)) rfl
    refine (hleft.append hright).trans ?_
    have hmid : 1000 * utc a ≤ 1000 * utc (midpoint a b) :=
      Int.mul_le_mul_of_nonneg_left (hforward _ _ (.left hcut (.whole ..))) (by decide)
    have hend : 1000 * utc (midpoint a b) ≤ 1000 * utc b :=
      Int.mul_le_mul_of_nonneg_left (hforward _ _ (.right hcut (.whole ..))) (by decide)
    exact perm_filter_within Prod.fst store hmid hend

end

/-! ## A part that runs backwards -/

/-- The text of a rejected query. -/
def fileLimitText : String := "Query would scan 500 Parquet files, exceeding the file limit"

theorem isFileLimitError_fileLimitText : isFileLimitError fileLimitText = true := by
  decide +kernel

open Classical in
/-- A server that rejects every range of which a certain slice is a proper part. -/
noncomputable def rejecting (utc : Int → Int) (store : List (Record ρ)) (x y : Int) :
    Server utc store where
  run _ a b endInclusive :=
    if Part cut a b x y ∧ ¬(a = x ∧ b = y) then .error fileLimitText
    else .ok (store.filter (inSlice utc a b endInclusive))
  complete n a b endInclusive rows h := by
    split at h
    · cases h
    · rw [Except.ok.inj h]

section

variable {utc : Int → Int} {x y a b : Int} {endInclusive : Bool} {n : Nat}

/-- A range with a proper part can be cut. -/
theorem cut_of_part (h : Part cut a b x y) (hne : ¬(a = x ∧ b = y)) :
    v3MinSlice < b - a ∧ (Part cut a (midpoint a b) x y ∨ Part cut (midpoint a b) b x y) := by
  have hwide : ∀ {m : Int}, cut a b = some m → v3MinSlice < b - a ∧ m = midpoint a b := by
    intro m hcut
    unfold cut at hcut
    split at hcut
    · next hlt => exact ⟨hlt, (Option.some.inj hcut).symm⟩
    · cases hcut
  cases h with
  | whole => exact absurd ⟨rfl, rfl⟩ hne
  | left hcut hpart =>
    obtain ⟨hlt, rfl⟩ := hwide hcut
    exact ⟨hlt, Or.inl hpart⟩
  | right hcut hpart =>
    obtain ⟨hlt, rfl⟩ := hwide hcut
    exact ⟨hlt, Or.inr hpart⟩

theorem rejecting_error {store : List (Record ρ)} {exc : String}
    (h : (rejecting utc store x y).run n a b endInclusive = .error exc) :
    exc = fileLimitText ∧ Part cut a b x y ∧ ¬(a = x ∧ b = y) := by
  simp only [rejecting] at h
  split at h
  · next hproper => exact ⟨(Except.error.inj h).symm, hproper⟩
  · cases h

theorem rejecting_ok {store rows : List (Record ρ)}
    (h : (rejecting utc store x y).run n a b endInclusive = .ok rows) :
    rows = store.filter (inSlice utc a b endInclusive) ∧ (Part cut a b x y → a = x ∧ b = y) := by
  simp only [rejecting] at h
  split at h
  · cases h
  · next hproper =>
    exact ⟨(Except.ok.inj h).symm, fun hpart => by_contra fun hne => hproper ⟨hpart, hne⟩⟩

theorem length_filter_singleton (r : Record ρ) :
    (([r].filter (inSlice utc a b endInclusive)).length : Int) =
      if within (1000 * utc a) (1000 * utc b) endInclusive r.1 = true then 1 else 0 := by
  by_cases hin : inSlice utc a b endInclusive r = true
  · rw [List.filter_cons_of_pos hin]
    exact (if_pos hin).symm
  · rw [List.filter_cons_of_neg hin]
    exact (if_neg hin).symm

/-- A row with a time between the ends of the slice is returned once more than the ends of the range
say. -/
theorem sliceLoop_backward {r : Record ρ} (hyt : 1000 * utc y < r.1) (htx : r.1 < 1000 * utc x)
    (a b : Int) (endInclusive : Bool) (n : Nat) :
    ∃ rows, (sliceLoop (fun _ _ _ rows => rows) (rejecting utc [r] x y).run a b endInclusive n).1 =
        .ok rows ∧
      starts (1000 * utc a) r.1 - ends (1000 * utc b) endInclusive r.1 ≤ rows.length ∧
      (Part cut a b x y →
        starts (1000 * utc a) r.1 - ends (1000 * utc b) endInclusive r.1 + 1 ≤ rows.length) := by
  have hstops : ∀ {a b exc n i}, (rejecting utc [r] x y).run n a b i = .error exc →
      ¬(isFileLimitError exc = false ∨ b - a ≤ v3MinSlice) := by
    intro a b exc n i hrun hstop
    obtain ⟨rfl, hpart, hne⟩ := rejecting_error hrun
    rcases hstop with hno | hnarrow
    · rw [isFileLimitError_fileLimitText] at hno
      cases hno
    · exact absurd (cut_of_part hpart hne).1 (not_lt.mpr hnarrow)
  fun_induction sliceLoop (fun _ _ _ (rows : List (Record ρ)) => rows) (rejecting utc [r] x y).run
    a b endInclusive n with
  | case1 a b i n rows hrun =>
    obtain ⟨rfl, hpart⟩ := rejecting_ok hrun
    refine ⟨_, rfl, ?_, fun h => ?_⟩
    · rw [length_filter_singleton]
      exact starts_sub_ends_le
    · obtain ⟨rfl, rfl⟩ := hpart h
      exact (starts_sub_ends_backward hyt htx).trans (Int.natCast_nonneg _)
  | case2 a b i n exc hrun hstop => exact absurd hstop (hstops hrun)
  | case3 a b i n exc hrun hstop exc' n' hfirst ih =>
    obtain ⟨rows, hok, -⟩ := ih
    rw [hfirst] at hok
    cases hok
  | case4 a b i n exc hrun hstop first n' hfirst exc' n'' hsecond ih ih' =>
    obtain ⟨rows, hok, -⟩ := ih'
    rw [hsecond] at hok
    cases hok
  | case5 a b i n exc hrun hstop first n' hfirst second n'' hsecond ih ih' =>
    obtain ⟨rows, hok, hcount, hmore⟩ := ih
    obtain ⟨rows', hok', hcount', hmore'⟩ := ih'
    rw [hfirst] at hok
    rw [hsecond] at hok'
    obtain rfl := Except.ok.inj hok
    obtain rfl := Except.ok.inj hok'
    rw [ends_false_eq_starts] at hcount hmore
    refine ⟨_, rfl, ?_, fun hpart => ?_⟩
    · rw [List.length_append, Int.natCast_add]
      omega
    · rw [List.length_append, Int.natCast_add]
      obtain ⟨-, hne⟩ := (rejecting_error hrun).2
      rcases (cut_of_part hpart hne).2 with hleft | hright
      · have hfirst' := hmore hleft
        omega
      · have hsecond' := hmore' hright
        omega

/-- The range with that part is not returned as it should be. -/
theorem not_well_of_backward [Inhabited ρ] (hab : utc a ≤ utc b) (hpart : Part cut a b x y)
    (hback : utc y < utc x) :
    ∃ (store : List (Record ρ)) (server : Server utc store),
      ¬Well utc store server a b (queryV3TimeSlices server.run a b) := by
  refine ⟨[(1000 * utc y + 1, default)], rejecting utc _ x y, fun hwell => ?_⟩
  have hyt : 1000 * utc y < 1000 * utc y + 1 := Int.lt_succ _
  have htx : 1000 * utc y + 1 < 1000 * utc x := by omega
  obtain ⟨rows, hok, -, hmore⟩ :=
    sliceLoop_backward (r := ((1000 * utc y + 1, default) : Record ρ)) hyt htx a b true 0
  have hperm := (hwell.2.1 rows hok).1.length_eq
  have hcount := hmore hpart
  have hab' : 1000 * utc a ≤ 1000 * utc b := Int.mul_le_mul_of_nonneg_left hab (by decide)
  rw [starts_sub_ends hab', hperm, length_filter_singleton] at hcount
  exact absurd hcount (not_le.mpr (Int.lt_succ _))

end

/-! ## When the slices are right -/

/-- **Time slicing loses and repeats nothing exactly if no slice runs backwards.** For a range whose
start is not after its end: whatever the store holds and whichever calls the server rejects, both copies
return each row of the range once and in slice order, or raise the last error, after few calls, exactly
if the UTC times of the ends of every slice that the halving can come to are in order. -/
theorem well_iff {ρ : Type} [Inhabited ρ] (utc : Int → Int) (startTime endTime : Int)
    (hrange : utc startTime ≤ utc endTime) :
    (∀ (store : List (Record ρ)) (server : Server utc store),
      Well utc store server startTime endTime (queryV3TimeSlices server.run startTime endTime) ∧
      Well utc store server startTime endTime
        (joined (queryTimeSlices startTime endTime server.run))) ↔
    ∀ x y, Part cut startTime endTime x y → utc x ≤ utc y := by
  constructor
  · intro h x y hpart
    by_contra hback
    obtain ⟨store, server, hnot⟩ :=
      @not_well_of_backward ρ utc x y startTime endTime _ hrange hpart (not_le.mp hback)
    exact hnot (h store server).1
  · intro hforward store server
    have hwell : Well utc store server startTime endTime
        (queryV3TimeSlices server.run startTime endTime) := by
      refine ⟨fun exc h => sliceLoop_error h, fun rows h => ⟨sliceLoop_perm server hforward h,
        sliceLoop_order server h⟩, ?_⟩
      exact (sliceLoop_calls _ _ _ _ _ 0).trans_eq (Nat.zero_add _)
    refine ⟨hwell, ?_⟩
    rw [queryTimeSlices, joined_sliceLoop]
    exact hwell

/-- On the wall clock no slice runs backwards. -/
theorem le_of_part {a b x y : Int} (hab : a ≤ b) (h : Part cut a b x y) : x ≤ y := by
  have hcut : ∀ {a b m : Int}, cut a b = some m → a ≤ m ∧ m ≤ b := by
    intro a b m hcut
    unfold cut at hcut
    split at hcut
    · next hlt =>
      obtain rfl := Option.some.inj hcut
      obtain ⟨hlow, hhigh⟩ := midpoint_bounds hlt
      omega
    · cases hcut
  induction h with
  | whole => exact hab
  | left h _ ih => exact ih (hcut h).1
  | right h _ ih => exact ih (hcut h).2

/-- A server that rejects nothing. -/
def accepting (utc : Int → Int) (store : List (Record ρ)) : Server utc store where
  run _ a b endInclusive := .ok (store.filter (inSlice utc a b endInclusive))
  complete _ _ _ _ _ h := Except.ok.inj h ▸ .refl _

/-- Two hours in a zone whose offset does not change. -/
theorem well_iff_utc :
    Well (fun w => w) [(5, "row")] (accepting (fun w => w) [(5, "row")]) 0 7200000000
      (queryV3TimeSlices (accepting (fun w => w) [(5, "row")]).run 0 7200000000) :=
  ((@well_iff String _ (fun w => w) 0 7200000000 (by decide)).mpr
    (fun _ _ => le_of_part (by decide)) [(5, "row")] (accepting (fun w => w) [(5, "row")])).1

/-- The clock of New York around an hour that is skipped, which begins at 0. -/
def springForward (wall : Int) : Int :=
  if wall < 3600000000 then wall + 5 * 3600000000 else wall + 4 * 3600000000

/-- From 01:30 to 03:15 the midpoint is in the hour that is skipped, and lies behind the end in UTC: the
first half returns rows from after the range. -/
theorem well_springForward_false :
    springForward (-1800000000) ≤ springForward 4500000000 ∧
    ∃ (store : List (Record String)) (server : Server springForward store),
      ¬Well springForward store server (-1800000000) 4500000000
        (queryV3TimeSlices server.run (-1800000000) 4500000000) := by
  refine ⟨by decide, ?_⟩
  have hpart : Part cut (-1800000000) 4500000000 1350000000 4500000000 :=
    .right rfl (.whole ..)
  exact not_well_of_backward (by decide) hpart (by decide)

end TimeSlices

end ProtocolGateway
