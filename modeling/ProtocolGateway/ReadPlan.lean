import ProtocolGateway.RegistryMap

/-!
# The read plan

`calculate_registry_ranges` divides the address space into windows of `batch_size` registers,
starting at zero, and returns for each window the span from the smallest first address to the
largest last address of the entries that start in it, are readable and are due.

An entry belongs to the window of its *first* address, while its words may lie anywhere: an
address list can run downwards, and `strtoint` accepts negative addresses, which no window holds.
`calculateRegistryRanges_covers_iff` says exactly which plans cover every due entry.
-/

namespace ProtocolGateway

/-! ## The windows -/

/-- `range(start, stop, step)` for a positive step. -/
def pyRange (start stop step : Int) : List Int :=
  (List.range ((stop - start + step - 1) / step).toNat).map fun i : Nat => start + step * i

/-- `max_batch_size`: the `batch_size` setting if it is a number, else 40. -/
def maxBatchSize (ps : ProtocolSettings) : Int :=
  (ps.batchSize.bind fun text => Text.pyInt text.toList).getD 40

namespace RegistryMapEntry

/-- Entries the read plan skips: `READDISABLED` and `WRITEONLY` ones. -/
def readable (e : RegistryMapEntry) : Bool :=
  !(e.writeMode = .readDisabled || e.writeMode = .writeOnly)

/-- An entry is due on the first load and once its next read time has passed. -/
def due (init : Bool) (timestampMs : Float) (e : RegistryMapEntry) : Bool :=
  init || e.nextReadTimestamp < timestampMs

/-- The entry starts in the window of `size` registers at `start`. -/
def inWindow (size start : Int) (e : RegistryMapEntry) : Bool :=
  start ≤ e.register && e.register < start + size

/-- `next_read_timestamp` moves on, except on the first load. -/
def advance (init : Bool) (timestampMs : Float) (e : RegistryMapEntry) : RegistryMapEntry :=
  if init then e else { e with nextReadTimestamp := timestampMs + e.readInterval }

end RegistryMapEntry

/-- The pair `window_min`, `window_max` after another entry: both are `None` or neither is. -/
def widen (span : Option (Int × Int)) (lo hi : Int) : Option (Int × Int) :=
  match span with
  | none => some (lo, hi)
  | some (windowMin, windowMax) => some (min windowMin lo, max windowMax hi)

/-- The entries a window scan takes into its span. -/
def selected (init : Bool) (timestampMs : Float) (size start : Int) (e : RegistryMapEntry) : Bool :=
  e.inWindow size start && e.readable && e.due init timestampMs

/-- The inner loop of `calculate_registry_ranges` over the entries, for one window: the window's
span and the entries with their next read times moved on. -/
def scanWindow (init : Bool) (timestampMs : Float) (size start : Int) :
    Option (Int × Int) → List RegistryMapEntry → Option (Int × Int) × List RegistryMapEntry
  | span, [] => (span, [])
  | span, e :: es =>
    if selected init timestampMs size start e then
      let r := scanWindow init timestampMs size start (widen span e.register e.registerEnd) es
      (r.1, e.advance init timestampMs :: r.2)
    else
      let r := scanWindow init timestampMs size start span es
      (r.1, e :: r.2)

/-- The range a window contributes. -/
def windowRange : Option (Int × Int) → List (Int × Int)
  | none => []
  | some (windowMin, windowMax) => [(windowMin, windowMax - windowMin + 1)]

/-- The outer loop over the window starts. -/
def scanWindows (init : Bool) (timestampMs : Float) (size : Int) :
    List Int → List RegistryMapEntry → List (Int × Int) × List RegistryMapEntry
  | [], es => ([], es)
  | start :: starts, es =>
    let r := scanWindow init timestampMs size start none es
    let rest := scanWindows init timestampMs size starts r.2
    (windowRange r.1 ++ rest.1, rest.2)

/-- `calculate_registry_ranges`: the `(start, count)` ranges of one poll cycle, and the entries
with their next read times. `timestampMs` is the timestamp in milliseconds, the clock's when the
caller gives none. -/
def calculateRegistryRanges (size : Int) (entries : List RegistryMapEntry) (maxRegister : Int)
    (init : Bool) (timestampMs : Float) : List (Int × Int) × List RegistryMapEntry :=
  scanWindows init timestampMs size (pyRange 0 (maxRegister + 1) size) entries

/-! ## Window starts -/

section Windows

variable {size : Int} (hsize : 1 ≤ size)

include hsize

theorem mem_pyRange {stop x : Int} :
    x ∈ pyRange 0 stop size ↔ ∃ k : Nat, x = size * k ∧ x < stop := by
  have hpos : 0 < size := by omega
  simp only [pyRange, List.mem_map, List.mem_range, Int.sub_zero, Int.zero_add]
  constructor
  · rintro ⟨i, hi, rfl⟩
    refine ⟨i, rfl, ?_⟩
    have h : (i : Int) + 1 ≤ (stop + size - 1) / size := by omega
    have := (Int.le_ediv_iff_mul_le hpos).mp h
    rw [Int.add_mul, Int.mul_comm] at this
    omega
  · rintro ⟨k, rfl, hk⟩
    refine ⟨k, ?_, rfl⟩
    have h : (k : Int) + 1 ≤ (stop + size - 1) / size := by
      rw [Int.le_ediv_iff_mul_le hpos, Int.add_mul, Int.mul_comm]
      omega
    omega

/-- Later windows start after earlier ones end. -/
theorem pairwise_pyRange (stop : Int) :
    (pyRange 0 stop size).Pairwise fun a b => a + size ≤ b := by
  refine List.pairwise_map.mpr (List.Pairwise.imp ?_ List.pairwise_lt_range)
  intro i j hij
  have h : size * ((i : Int) + 1) ≤ size * j :=
    Int.mul_le_mul_of_nonneg_left (by omega) (by omega)
  rw [Int.mul_add] at h
  omega

/-- The window of a register is the one numbered by the quotient, for registers that are not
negative. -/
theorem exists_window {maxRegister : Int} {e : RegistryMapEntry} {start : Int}
    (hmax : e.register ≤ maxRegister) :
    (start ∈ pyRange 0 (maxRegister + 1) size ∧ e.inWindow size start = true) ↔
      0 ≤ e.register ∧ start = size * (e.register / size) := by
  have hpos : 0 < size := by omega
  have hdiv := Int.mul_ediv_add_emod e.register size
  have hmod := Int.emod_nonneg e.register (by omega : size ≠ 0)
  have hlt := Int.emod_lt_of_pos e.register hpos
  simp only [mem_pyRange hsize, RegistryMapEntry.inWindow, Bool.and_eq_true, decide_eq_true_eq]
  constructor
  · rintro ⟨⟨k, rfl, _⟩, h1, h2⟩
    have hk : (0 : Int) ≤ size * k := Int.mul_nonneg (by omega) (by omega)
    refine ⟨by omega, ?_⟩
    have hq : e.register / size = k := by
      rw [Int.ediv_eq_iff_of_pos hpos]
      rw [Int.mul_comm]
      omega
    rw [hq]
  · rintro ⟨h0, rfl⟩
    refine ⟨⟨(e.register / size).toNat, ?_, by omega⟩, by omega, by omega⟩
    rw [Int.toNat_of_nonneg (Int.ediv_nonneg h0 (by omega))]

end Windows

/-! ## One window -/

/-- The span reaches down to `a`. -/
def Below (span : Option (Int × Int)) (a : Int) : Prop :=
  ∃ lo hi, span = some (lo, hi) ∧ lo ≤ a

/-- The span reaches up to `a`. -/
def Above (span : Option (Int × Int)) (a : Int) : Prop :=
  ∃ lo hi, span = some (lo, hi) ∧ a ≤ hi

/-- One of the ranges holds the address `a`. -/
def Covered (ranges : List (Int × Int)) (a : Int) : Prop :=
  ∃ r ∈ ranges, r.1 ≤ a ∧ a < r.1 + r.2

instance (ranges : List (Int × Int)) (a : Int) : Decidable (Covered ranges a) :=
  inferInstanceAs (Decidable (∃ r ∈ ranges, r.1 ≤ a ∧ a < r.1 + r.2))

theorem below_widen {span : Option (Int × Int)} {lo hi a : Int} :
    Below (widen span lo hi) a ↔ Below span a ∨ lo ≤ a := by
  cases span with
  | none => simp [Below, widen]
  | some s =>
    obtain ⟨m, M⟩ := s
    simp only [Below, widen, Option.some.injEq, Prod.mk.injEq, ↓existsAndEq, and_true, true_and]
    omega

theorem above_widen {span : Option (Int × Int)} {lo hi a : Int} :
    Above (widen span lo hi) a ↔ Above span a ∨ a ≤ hi := by
  cases span with
  | none => simp [Above, widen]
  | some s =>
    obtain ⟨m, M⟩ := s
    simp only [Above, widen, Option.some.injEq, Prod.mk.injEq, ↓existsAndEq, and_true, true_and]
    omega

theorem covered_windowRange {span : Option (Int × Int)} {a : Int} :
    Covered (windowRange span) a ↔ Below span a ∧ Above span a := by
  cases span with
  | none => simp [Covered, windowRange, Below, Above]
  | some s =>
    obtain ⟨m, M⟩ := s
    simp only [Covered, windowRange, List.mem_singleton, ↓existsAndEq, Below, Above,
      Option.some.injEq, Prod.mk.injEq, and_true, true_and]
    omega

theorem covered_append {rs rs' : List (Int × Int)} {a : Int} :
    Covered (rs ++ rs') a ↔ Covered rs a ∨ Covered rs' a := by
  simp only [Covered, List.mem_append, or_and_right, exists_or]

section Scan

variable {init : Bool} {timestampMs : Float} {size start : Int}

/-- The window reaches down to `a` when an entry it takes in starts at or below `a`. -/
theorem below_scanWindow {span : Option (Int × Int)} {es : List RegistryMapEntry} {a : Int} :
    Below (scanWindow init timestampMs size start span es).1 a ↔
      Below span a ∨ ∃ e ∈ es, selected init timestampMs size start e = true ∧ e.register ≤ a := by
  induction es generalizing span with
  | nil => simp [scanWindow]
  | cons e es ih =>
    by_cases h : selected init timestampMs size start e = true
    · rw [scanWindow, if_pos h, ih, below_widen, or_assoc]
      simp [h]
    · rw [scanWindow, if_neg h, ih]
      simp [h]

/-- The window reaches up to `a` when an entry it takes in ends at or above `a`. -/
theorem above_scanWindow {span : Option (Int × Int)} {es : List RegistryMapEntry} {a : Int} :
    Above (scanWindow init timestampMs size start span es).1 a ↔
      Above span a ∨
        ∃ e ∈ es, selected init timestampMs size start e = true ∧ a ≤ e.registerEnd := by
  induction es generalizing span with
  | nil => simp [scanWindow]
  | cons e es ih =>
    by_cases h : selected init timestampMs size start e = true
    · rw [scanWindow, if_pos h, ih, above_widen, or_assoc]
      simp [h]
    · rw [scanWindow, if_neg h, ih]
      simp [h]

theorem advance_register (e : RegistryMapEntry) :
    (e.advance init timestampMs).register = e.register := by
  unfold RegistryMapEntry.advance
  split <;> rfl

/-- Moving an entry's next read time on does not change what another window sees of it. -/
theorem selected_eq_false_of_disjoint {start' : Int} {e : RegistryMapEntry}
    (hdisj : start + size ≤ start') (h : e.inWindow size start = true) :
    selected init timestampMs size start' e = false ∧
      selected init timestampMs size start' (e.advance init timestampMs) = false := by
  simp only [RegistryMapEntry.inWindow, Bool.and_eq_true, decide_eq_true_eq] at h
  have hout : ∀ e' : RegistryMapEntry, e'.register = e.register →
      selected init timestampMs size start' e' = false := by
    intro e' he'
    have : e'.inWindow size start' = false := by
      simp only [RegistryMapEntry.inWindow, Bool.and_eq_false_iff, decide_eq_false_iff_not]
      omega
    simp [selected, this]
  exact ⟨hout e rfl, hout _ (advance_register e)⟩

/-- A later window sees the entries as they were before an earlier one was scanned. -/
theorem selected_scanWindow {start' : Int} {es : List RegistryMapEntry}
    (hdisj : start + size ≤ start') (span : Option (Int × Int)) (p : RegistryMapEntry → Prop) :
    (∃ e ∈ (scanWindow init timestampMs size start span es).2,
        selected init timestampMs size start' e = true ∧ p e) ↔
      ∃ e ∈ es, selected init timestampMs size start' e = true ∧ p e := by
  induction es generalizing span with
  | nil => rfl
  | cons e es ih =>
    by_cases h : selected init timestampMs size start e = true
    · have hin : e.inWindow size start = true := by
        simp only [selected, Bool.and_eq_true] at h
        exact h.1.1
      obtain ⟨h1, h2⟩ : selected init timestampMs size start' e = false ∧
          selected init timestampMs size start' (e.advance init timestampMs) = false :=
        selected_eq_false_of_disjoint hdisj hin
      rw [scanWindow, if_pos h]
      simp [ih, h1, h2]
    · rw [scanWindow, if_neg h]
      simp [ih]

/-- The address `a` is covered by the plan of a list of disjoint windows when one of them takes in
an entry starting at or below `a` and an entry ending at or above it. -/
theorem covered_scanWindows {starts : List Int} {es : List RegistryMapEntry} {a : Int}
    (hdisj : starts.Pairwise fun x y => x + size ≤ y) :
    Covered (scanWindows init timestampMs size starts es).1 a ↔
      ∃ start ∈ starts,
        (∃ e ∈ es, selected init timestampMs size start e = true ∧ e.register ≤ a) ∧
        ∃ e ∈ es, selected init timestampMs size start e = true ∧ a ≤ e.registerEnd := by
  induction starts generalizing es with
  | nil => simp [scanWindows, Covered]
  | cons start starts ih =>
    obtain ⟨hfirst, hrest⟩ := List.pairwise_cons.mp hdisj
    rw [scanWindows, covered_append, covered_windowRange, below_scanWindow, above_scanWindow,
      ih hrest]
    have hnone : ∀ x, ¬ Below none x ∧ ¬ Above none x := by simp [Below, Above]
    simp only [hnone, false_or, List.exists_mem_cons_iff]
    refine or_congr Iff.rfl (exists_congr fun start' => and_congr_right fun hmem => ?_)
    exact and_congr (selected_scanWindow (hfirst start' hmem) none _)
      (selected_scanWindow (hfirst start' hmem) none _)

end Scan

/-! ## The whole plan -/

/-- The entries a read plan has to serve: readable and due. -/
def RegistryMapEntry.planned (init : Bool) (timestampMs : Float) (e : RegistryMapEntry) : Prop :=
  e.readable = true ∧ e.due init timestampMs = true

/-- Two entries start in the same window. -/
def SameWindow (size : Int) (e e' : RegistryMapEntry) : Prop :=
  0 ≤ e.register ∧ 0 ≤ e'.register ∧ e.register / size = e'.register / size

section Plan

variable {size maxRegister : Int} {entries : List RegistryMapEntry} {init : Bool}
  {timestampMs : Float}

/-- An address is read exactly when it lies between the first address of one planned entry and the
last address of a planned entry of the same window. -/
theorem covered_calculateRegistryRanges (hsize : 1 ≤ size)
    (hmax : ∀ e ∈ entries, e.register ≤ maxRegister) {a : Int} :
    Covered (calculateRegistryRanges size entries maxRegister init timestampMs).1 a ↔
      ∃ e ∈ entries, ∃ e' ∈ entries, e.planned init timestampMs ∧ e'.planned init timestampMs ∧
        SameWindow size e e' ∧ e.register ≤ a ∧ a ≤ e'.registerEnd := by
  rw [calculateRegistryRanges, covered_scanWindows (pairwise_pyRange hsize _)]
  simp only [selected, Bool.and_eq_true, RegistryMapEntry.planned]
  constructor
  · rintro ⟨start, hs, ⟨e, he, ⟨⟨hw, hr⟩, hd⟩, hlo⟩, e', he', ⟨⟨hw', hr'⟩, hd'⟩, hhi⟩
    obtain ⟨h0, hq⟩ := (exists_window hsize (hmax e he)).mp ⟨hs, hw⟩
    obtain ⟨h0', hq'⟩ := (exists_window hsize (hmax e' he')).mp ⟨hs, hw'⟩
    have hdiv : e.register / size = e'.register / size :=
      Int.eq_of_mul_eq_mul_left (by omega) (hq.symm.trans hq')
    exact ⟨e, he, e', he', ⟨hr, hd⟩, ⟨hr', hd'⟩, ⟨h0, h0', hdiv⟩, hlo, hhi⟩
  · rintro ⟨e, he, e', he', ⟨hr, hd⟩, ⟨hr', hd'⟩, ⟨h0, h0', hdiv⟩, hlo, hhi⟩
    obtain ⟨hs, hw⟩ := (exists_window hsize (hmax e he)).mpr ⟨h0, rfl⟩
    obtain ⟨_, hw'⟩ := (exists_window hsize (hmax e' he')).mpr ⟨h0', rfl⟩
    rw [← hdiv] at hw'
    exact ⟨_, hs, ⟨e, he, ⟨⟨hw, hr⟩, hd⟩, hlo⟩, e', he', ⟨⟨hw', hr'⟩, hd'⟩, hhi⟩

/-- A planned entry whose first address is its lowest, and not negative, is read whole. -/
theorem covered_of_register_le (hsize : 1 ≤ size) (hmax : ∀ e ∈ entries, e.register ≤ maxRegister)
    {e : RegistryMapEntry} (he : e ∈ entries) (hp : e.planned init timestampMs)
    (h0 : 0 ≤ e.register) {a : Int} (ha : a ∈ e.addresses) (hle : e.register ≤ a) :
    Covered (calculateRegistryRanges size entries maxRegister init timestampMs).1 a :=
  (covered_calculateRegistryRanges hsize hmax).mpr
    ⟨e, he, e, he, hp, hp, ⟨h0, h0, rfl⟩, hle, e.le_registerEnd ha⟩

/-- **Read-plan coverage.** A plan reads every address of every planned entry exactly when the
addresses that its window may miss happen to be read for others. These are the addresses of an
entry with a negative first address, which is in no window, and the addresses of a list below its
first one, which is where the entry's own contribution to the window starts. -/
theorem calculateRegistryRanges_covers_iff (hsize : 1 ≤ size)
    (hmax : ∀ e ∈ entries, e.register ≤ maxRegister) :
    (∀ e ∈ entries, e.planned init timestampMs → ∀ a ∈ e.addresses,
        Covered (calculateRegistryRanges size entries maxRegister init timestampMs).1 a) ↔
      ∀ e ∈ entries, e.planned init timestampMs → ∀ a ∈ e.addresses,
        (e.register < 0 ∨ a < e.register) →
          ∃ lo ∈ entries, ∃ hi ∈ entries, lo.planned init timestampMs ∧
            hi.planned init timestampMs ∧ SameWindow size lo hi ∧
            lo.register ≤ a ∧ a ≤ hi.registerEnd := by
  constructor
  · intro h e he hp a ha _
    exact (covered_calculateRegistryRanges hsize hmax).mp (h e he hp a ha)
  · intro h e he hp a ha
    by_cases hbad : e.register < 0 ∨ a < e.register
    · exact (covered_calculateRegistryRanges hsize hmax).mpr (h e he hp a ha hbad)
    · exact covered_of_register_le hsize hmax he hp (by omega) ha (by omega)

end Plan

/-- The map of one row `40_41` of type `UINT` is read whole: the list runs upwards. -/
theorem ascending_list_covered : ∃ items,
    ({} : ProtocolSettings).loadRegistry .holding
      [{ cell := "40_41", variableName := "power", dataType := .uint }] = some items ∧
    ∀ e ∈ items, e.planned true 0 → ∀ a ∈ e.addresses,
      Covered (calculateRegistryRanges 40 items 41 true 0).1 a := by
  refine ⟨_, rfl, (calculateRegistryRanges_covers_iff (by decide) (by decide)).mpr ?_⟩
  intro e he hp a ha hbad
  obtain ⟨hreg, haddr⟩ : e.register = 40 ∧ e.addresses = [40, 41] := by
    rw [List.mem_singleton.mp he]
    exact ⟨rfl, rfl⟩
  rw [haddr] at ha
  simp only [List.mem_cons, List.not_mem_nil, or_false] at ha
  omega

/-- The map of one row `41_40` of type `UINT` is not: its plan is `[(41, 1)]`. -/
theorem descending_list_not_covered :
    ¬ ∀ (ps : ProtocolSettings) (rows : List Row) (items : List RegistryMapEntry)
      (size maxRegister : Int) (init : Bool) (timestampMs : Float),
      ps.loadRegistry .holding rows = some items → 1 ≤ size →
      (∀ e ∈ items, e.register ≤ maxRegister) →
      ∀ e ∈ items, e.planned init timestampMs → ∀ a ∈ e.addresses,
        Covered (calculateRegistryRanges size items maxRegister init timestampMs).1 a := by
  intro h
  have hcov := h {} [{ cell := "41_40", variableName := "power", dataType := .uint }] _ 40 41 true 0
    rfl (by decide) (by decide) _ (List.mem_singleton_self _) ⟨rfl, rfl⟩ 40
    (by decide)
  exact absurd hcov (by decide)

end ProtocolGateway
