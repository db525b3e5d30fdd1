import ProtocolGateway.ReadPlan
import ProtocolGateway.NonInterference
import Mathlib.Order.Bounds.Basic

/-!
# What a read plan reads beyond its entries

`calculate_registry_ranges` takes the end of an entry from `entry_word_count`, the decoder its
words from the type. The two agree for an entry with a single address. They do not for a member of
a concatenated range, whose word count is that of the whole range, for a list whose length is not
that of the type, and at the other end for a list that runs downwards.

A window's range is tight if its ends are the lowest and the highest address that the planned
entries of the window decode from. It is if the entries that the plan misjudges are made up for by
others of the same window (`tight_iff`). The size of a map is a matter of the same kind.
-/

namespace ProtocolGateway

/-! ## Bounds of two sets -/

section Bounds

variable {α : Type} [PartialOrder α] {S T : Set α} {m : α}

/-- Two sets have the same greatest element if each is bounded by the other. -/
theorem isGreatest_iff_of_isGreatest (h : IsGreatest T m) :
    IsGreatest S m ↔ (∀ s ∈ S, ∃ t ∈ T, s ≤ t) ∧ ∀ t ∈ T, ∃ s ∈ S, t ≤ s := by
  constructor
  · intro hS
    exact ⟨fun s hs => ⟨m, h.1, hS.2 hs⟩, fun t ht => ⟨m, hS.1, h.2 ht⟩⟩
  · rintro ⟨hle, hge⟩
    have hupper : m ∈ upperBounds S := by
      intro s hs
      obtain ⟨t, ht, hst⟩ := hle s hs
      exact hst.trans (h.2 ht)
    obtain ⟨s, hs, hms⟩ := hge m h.1
    rw [hms.antisymm (hupper hs)]
    exact ⟨hs, hms.antisymm (hupper hs) ▸ hupper⟩

/-- And the same least element if each bounds the other from below. -/
theorem isLeast_iff_of_isLeast (h : IsLeast T m) :
    IsLeast S m ↔ (∀ s ∈ S, ∃ t ∈ T, t ≤ s) ∧ ∀ t ∈ T, ∃ s ∈ S, s ≤ t := by
  constructor
  · intro hS
    exact ⟨fun s hs => ⟨m, h.1, hS.2 hs⟩, fun t ht => ⟨m, hS.1, h.2 ht⟩⟩
  · rintro ⟨hge, hle⟩
    have hlower : m ∈ lowerBounds S := by
      intro s hs
      obtain ⟨t, ht, hts⟩ := hge s hs
      exact (h.2 ht).trans hts
    obtain ⟨s, hs, hsm⟩ := hle m h.1
    rw [(hlower hs).antisymm hsm]
    exact ⟨hs, (hlower hs).antisymm hsm ▸ hlower⟩

end Bounds

/-! ## The promise -/

/-- What the entries decode from. A `_desc` entry has the first address of the entry it
describes. -/
def decodedAddresses (own : List RegistryMapEntry) : Set Int :=
  {a | ∃ e ∈ own, a ∈ e.wordAddresses}

/-- The entries a window is read for: they start in it, are readable and are due. -/
def windowEntries (init : Bool) (timestampMs : Float) (size start : Int)
    (entries : List RegistryMapEntry) : List RegistryMapEntry :=
  entries.filter (selected init timestampMs size start)

/-- The ranges that are returned. `range` raises for a step of zero and is empty for a negative
one. -/
def returnedRanges (size : Int) (entries : List RegistryMapEntry) (maxRegister : Int)
    (init : Bool) (timestampMs : Float) : List (Int × Int) :=
  if size ≤ 0 then []
  else (calculateRegistryRanges size entries maxRegister init timestampMs).1

/-- A range goes from the lowest to the highest address that the entries of its window decode
from. -/
structure TightRange (size : Int) (entries : List RegistryMapEntry) (init : Bool)
    (timestampMs : Float) (r : Int × Int) : Prop where
  lowest : IsLeast (decodedAddresses
    (windowEntries init timestampMs size (size * (r.1 / size)) entries)) r.1
  highest : IsGreatest (decodedAddresses
    (windowEntries init timestampMs size (size * (r.1 / size)) entries)) (r.1 + r.2 - 1)

/-- **The promise**: every range of the plan is tight, and the size of the map is the highest
address that any of its entries decodes from. -/
structure NoOverRead (size : Int) (entries : List RegistryMapEntry) (maxRegister : Int)
    (init : Bool) (timestampMs : Float) : Prop where
  ranges : ∀ r ∈ returnedRanges size entries maxRegister init timestampMs,
    TightRange size entries init timestampMs r
  size : entries ≠ [] → IsGreatest (decodedAddresses entries)
    (ProtocolSettings.registryMapSize entries)

/-! ## When it is kept -/

/-- Entries that the plan misjudges are made up for by others of the same window. -/
structure Compensated (own : List RegistryMapEntry) : Prop where
  /-- an entry that decodes below its first address -/
  low : ∀ e ∈ own, ∀ a ∈ e.wordAddresses, a < e.register → ∃ e' ∈ own, e'.register ≤ a
  /-- an entry that decodes beyond its computed end -/
  short : ∀ e ∈ own, ∀ a ∈ e.wordAddresses, e.registerEnd < a → ∃ e' ∈ own, a ≤ e'.registerEnd
  /-- an entry that does not decode as far as its computed end -/
  long : ∀ e ∈ own, (∀ a ∈ e.wordAddresses, a < e.registerEnd) →
    ∃ e' ∈ own, ∃ a ∈ e'.wordAddresses, e.registerEnd ≤ a

/-- The same for a whole map, whose size starts from zero. -/
structure SizeCompensated (own : List RegistryMapEntry) : Prop where
  nonneg : ∃ e ∈ own, ∃ a ∈ e.wordAddresses, 0 ≤ a
  short : ∀ e ∈ own, ∀ a ∈ e.wordAddresses, e.registerEnd < a → 0 < a →
    ∃ e' ∈ own, a ≤ e'.registerEnd
  long : ∀ e ∈ own, (∀ a ∈ e.wordAddresses, a < e.registerEnd) →
    ∃ e' ∈ own, ∃ a ∈ e'.wordAddresses, e.registerEnd ≤ a

namespace RegistryMapEntry

variable (e : RegistryMapEntry)

theorem register_mem_wordAddresses : e.register ∈ e.wordAddresses := List.mem_cons_self

/-- The plan judges an entry rightly: it starts at the lowest address it decodes from and ends at
the highest. -/
structure Judged : Prop where
  lowest : ∀ a ∈ e.wordAddresses, e.register ≤ a
  highest : ∀ a ∈ e.wordAddresses, a ≤ e.registerEnd
  reached : e.registerEnd ∈ e.wordAddresses

/-- An entry with a single address is judged rightly, whatever its type. -/
theorem judged_of_single (hlist : e.registerList = []) (hconcatenate : e.concatenate = false) :
    e.Judged := by
  have hcount : e.entryWordCount = max 1 e.joinedWords := by
    have hpos := e.entryWordCount_pos
    have hplain : e.entryWordCount =
        if (e.dataType = .string ∨ e.dataType = .ascii) ∧ 0 < e.dataTypeSize then
          max 1 ((e.dataTypeSize.toNat + 1) / 2)
        else wordCounts e.dataType := by
      simp [entryWordCount, hlist, hconcatenate]
    cases htype : e.dataType with
    | string | string16 | string32 =>
      simp only [joinedWords, htype]
      omega
    | ascii =>
      simp only [joinedWords, htype, asciiWords, hconcatenate]
      split
      · next hsize =>
        have hshort : ¬0 < e.dataTypeSize := by simpa using hsize
        rw [hplain, htype, if_neg fun h => hshort h.2]
        rfl
      · omega
    | _ => simp [hplain, joinedWords, htype, wordCounts]
  have hend : e.registerEnd = e.register + e.entryWordCount - 1 := by
    rw [registerEnd, hlist]
  have hmem {a : Int} : a ∈ e.wordAddresses ↔ e.register ≤ a ∧ a ≤ e.registerEnd := by
    rw [wordAddresses, List.mem_cons, List.mem_map]
    simp only [hlist, List.getD_nil, List.mem_range]
    constructor
    · rintro (rfl | ⟨i, hi, rfl⟩) <;> omega
    · rintro ⟨hlo, hhi⟩
      by_cases heq : a = e.register
      · exact Or.inl heq
      · exact Or.inr ⟨(a - e.register).toNat, by omega, by omega⟩
  have hpos := e.entryWordCount_pos
  exact ⟨fun a ha => (hmem.mp ha).1, fun a ha => (hmem.mp ha).2, hmem.mpr (by omega)⟩

end RegistryMapEntry

/-- Entries that are judged rightly need no others. -/
theorem compensated_of_judged {own : List RegistryMapEntry} (h : ∀ e ∈ own, e.Judged) :
    Compensated own :=
  ⟨fun e he a ha hlt => absurd hlt (Int.not_lt.mpr ((h e he).lowest a ha)),
    fun e he a ha hlt => absurd hlt (Int.not_lt.mpr ((h e he).highest a ha)),
    fun e he hall => absurd (hall _ (h e he).reached) (Int.lt_irrefl _)⟩

/-! ## The span of a window -/

section Window

variable {init : Bool} {timestampMs : Float} {size start : Int} {es : List RegistryMapEntry}

theorem mem_windowEntries {e : RegistryMapEntry} :
    e ∈ windowEntries init timestampMs size start es ↔
      e ∈ es ∧ selected init timestampMs size start e = true := List.mem_filter

/-- **The span of a window** goes from the smallest first address of its entries to the largest
computed end. -/
theorem scanWindow_eq_some_iff {lo hi : Int} :
    (scanWindow init timestampMs size start none es).1 = some (lo, hi) ↔
      IsLeast {x | ∃ e ∈ windowEntries init timestampMs size start es, e.register = x} lo ∧
        IsGreatest {x | ∃ e ∈ windowEntries init timestampMs size start es, e.registerEnd = x}
          hi := by
  have hbelow (a : Int) := @below_scanWindow init timestampMs size start none es a
  have habove (a : Int) := @above_scanWindow init timestampMs size start none es a
  generalize (scanWindow init timestampMs size start none es).1 = span at hbelow habove ⊢
  have hnone : ∀ x, ¬Below none x ∧ ¬Above none x := by simp [Below, Above]
  simp only [hnone, false_or] at hbelow habove
  have hspan {lo hi : Int} (h : span = some (lo, hi)) :
      IsLeast {x | ∃ e ∈ windowEntries init timestampMs size start es, e.register = x} lo ∧
        IsGreatest {x | ∃ e ∈ windowEntries init timestampMs size start es, e.registerEnd = x}
          hi := by
    have hlow (a : Int) : lo ≤ a ↔
        ∃ e ∈ es, selected init timestampMs size start e = true ∧ e.register ≤ a := by
      rw [← hbelow a, h]
      simp [Below]
    have hhigh (a : Int) : a ≤ hi ↔
        ∃ e ∈ es, selected init timestampMs size start e = true ∧ a ≤ e.registerEnd := by
      rw [← habove a, h]
      simp [Above]
    have hlower : ∀ e ∈ windowEntries init timestampMs size start es, lo ≤ e.register :=
      fun e he => (hlow _).mpr ⟨e, (mem_windowEntries.mp he).1, (mem_windowEntries.mp he).2,
        Int.le_refl _⟩
    have hupper : ∀ e ∈ windowEntries init timestampMs size start es, e.registerEnd ≤ hi :=
      fun e he => (hhigh _).mpr ⟨e, (mem_windowEntries.mp he).1, (mem_windowEntries.mp he).2,
        Int.le_refl _⟩
    refine ⟨⟨?_, ?_⟩, ?_, ?_⟩
    · obtain ⟨e, he, hsel, hle⟩ := (hlow lo).mp (Int.le_refl _)
      have hmem := mem_windowEntries.mpr ⟨he, hsel⟩
      exact ⟨e, hmem, Int.le_antisymm hle (hlower e hmem)⟩
    · rintro x ⟨e, he, rfl⟩
      exact hlower e he
    · obtain ⟨e, he, hsel, hle⟩ := (hhigh hi).mp (Int.le_refl _)
      have hmem := mem_windowEntries.mpr ⟨he, hsel⟩
      exact ⟨e, hmem, Int.le_antisymm (hupper e hmem) hle⟩
    · rintro x ⟨e, he, rfl⟩
      exact hupper e he
  constructor
  · exact hspan
  · rintro ⟨hleast, hgreatest⟩
    cases span with
    | none =>
      obtain ⟨e, he, -⟩ := hleast.1
      have := (hbelow e.register).mpr ⟨e, (mem_windowEntries.mp he).1,
        (mem_windowEntries.mp he).2, Int.le_refl _⟩
      exact absurd this (hnone _).1
    | some s =>
      obtain ⟨hleast', hgreatest'⟩ := hspan rfl
      rw [hleast.unique hleast', hgreatest.unique hgreatest']

/-- A window sees the entries as they were before other windows were scanned. -/
theorem scanWindow_scanWindow {start' : Int} (hdisj : start + size ≤ start')
    (span : Option (Int × Int)) :
    (scanWindow init timestampMs size start' none
      (scanWindow init timestampMs size start span es).2).1 =
        (scanWindow init timestampMs size start' none es).1 := by
  have hsame (f : RegistryMapEntry → Int) (x : Int) :
      (∃ e ∈ windowEntries init timestampMs size start'
        (scanWindow init timestampMs size start span es).2, f e = x) ↔
      ∃ e ∈ windowEntries init timestampMs size start' es, f e = x := by
    simp only [mem_windowEntries, and_assoc]
    exact selected_scanWindow hdisj span fun e => f e = x
  refine Option.ext fun r => ?_
  obtain ⟨lo, hi⟩ := r
  rw [scanWindow_eq_some_iff, scanWindow_eq_some_iff]
  simp only [hsame]

theorem mem_scanWindows {starts : List Int} {r : Int × Int}
    (hdisj : starts.Pairwise fun x y => x + size ≤ y) :
    r ∈ (scanWindows init timestampMs size starts es).1 ↔ ∃ start ∈ starts,
      (scanWindow init timestampMs size start none es).1 = some (r.1, r.1 + r.2 - 1) := by
  induction starts generalizing es with
  | nil => simp [scanWindows]
  | cons start starts ih =>
    obtain ⟨hfirst, hrest⟩ := List.pairwise_cons.mp hdisj
    have hwindow : r ∈ windowRange (scanWindow init timestampMs size start none es).1 ↔
        (scanWindow init timestampMs size start none es).1 = some (r.1, r.1 + r.2 - 1) := by
      cases (scanWindow init timestampMs size start none es).1 with
      | none => simp [windowRange]
      | some s =>
        obtain ⟨lo, hi⟩ := s
        obtain ⟨r1, r2⟩ := r
        simp only [windowRange, List.mem_singleton, Prod.mk.injEq, Option.some.injEq]
        omega
    rw [scanWindows, List.mem_append, ih hrest, List.exists_mem_cons_iff, hwindow]
    refine or_congr Iff.rfl (exists_congr fun start' => and_congr_right fun hmem => ?_)
    rw [scanWindow_scanWindow (hfirst start' hmem)]

end Window

/-! ## From the span to the promise -/

section Compensation

variable {own : List RegistryMapEntry} {lo hi : Int}

/-- A span is tight if the entries it misjudges are made up for. -/
theorem compensated_iff (hlo : IsLeast {x | ∃ e ∈ own, e.register = x} lo)
    (hhi : IsGreatest {x | ∃ e ∈ own, e.registerEnd = x} hi) :
    IsLeast (decodedAddresses own) lo ∧ IsGreatest (decodedAddresses own) hi ↔
      Compensated own := by
  rw [isLeast_iff_of_isLeast hlo, isGreatest_iff_of_isGreatest hhi]
  constructor
  · rintro ⟨⟨hbelow, -⟩, habove, hreach⟩
    refine ⟨fun e he a ha _ => ?_, fun e he a ha _ => ?_, fun e he _ => ?_⟩
    · obtain ⟨-, ⟨e', he', rfl⟩, hle⟩ := hbelow a ⟨e, he, ha⟩
      exact ⟨e', he', hle⟩
    · obtain ⟨-, ⟨e', he', rfl⟩, hle⟩ := habove a ⟨e, he, ha⟩
      exact ⟨e', he', hle⟩
    · obtain ⟨a, ⟨e', he', ha⟩, hle⟩ := hreach _ ⟨e, he, rfl⟩
      exact ⟨e', he', a, ha, hle⟩
  · intro h
    refine ⟨⟨?_, ?_⟩, ?_, ?_⟩
    · rintro a ⟨e, he, ha⟩
      by_cases hlt : a < e.register
      · obtain ⟨e', he', hle⟩ := h.low e he a ha hlt
        exact ⟨_, ⟨e', he', rfl⟩, hle⟩
      · exact ⟨_, ⟨e, he, rfl⟩, Int.not_lt.mp hlt⟩
    · rintro - ⟨e, he, rfl⟩
      exact ⟨_, ⟨e, he, e.register_mem_wordAddresses⟩, Int.le_refl _⟩
    · rintro a ⟨e, he, ha⟩
      by_cases hlt : e.registerEnd < a
      · obtain ⟨e', he', hle⟩ := h.short e he a ha hlt
        exact ⟨_, ⟨e', he', rfl⟩, hle⟩
      · exact ⟨_, ⟨e, he, rfl⟩, Int.not_lt.mp hlt⟩
    · rintro - ⟨e, he, rfl⟩
      by_cases hall : ∀ a ∈ e.wordAddresses, a < e.registerEnd
      · obtain ⟨e', he', a, ha, hle⟩ := h.long e he hall
        exact ⟨a, ⟨e', he', ha⟩, hle⟩
      · obtain ⟨a, ha, hle⟩ : ∃ a ∈ e.wordAddresses, e.registerEnd ≤ a := by simpa using hall
        exact ⟨a, ⟨e, he, ha⟩, hle⟩

/-- The size of a map is the largest computed end, or zero. -/
theorem isGreatest_registryMapSize (own : List RegistryMapEntry) :
    IsGreatest {x | x = 0 ∨ ∃ e ∈ own, e.registerEnd = x} (ProtocolSettings.registryMapSize own) := by
  have hfold (size : Int) (es : List RegistryMapEntry) :
      IsGreatest {x | x = size ∨ ∃ e ∈ es, e.registerEnd = x}
        (es.foldl (fun size item => max size item.registerEnd) size) := by
    induction es generalizing size with
    | nil => simp [IsGreatest, upperBounds]
    | cons e es ih =>
      obtain ⟨hmem, hupper⟩ := ih (max size e.registerEnd)
      have hmax : max size e.registerEnd ≤
          es.foldl (fun size item => max size item.registerEnd) (max size e.registerEnd) :=
        hupper (Or.inl rfl)
      rw [List.foldl_cons]
      refine ⟨?_, ?_⟩
      · rcases hmem with hmem | ⟨e', he', hmem⟩
        · rw [hmem]
          rcases Int.le_total size e.registerEnd with hle | hle
          · exact Or.inr ⟨e, List.mem_cons_self, (Int.max_eq_right hle).symm⟩
          · exact Or.inl (Int.max_eq_left hle)
        · exact Or.inr ⟨e', List.mem_cons_of_mem _ he', hmem⟩
      · rintro x (rfl | ⟨e', he', rfl⟩)
        · exact (Int.le_max_left _ _).trans hmax
        · rcases List.mem_cons.mp he' with rfl | he'
          · exact (Int.le_max_right _ _).trans hmax
          · exact hupper (Or.inr ⟨e', he', rfl⟩)
  exact hfold 0 own

/-- And so for the size of a map. -/
theorem sizeCompensated_iff :
    IsGreatest (decodedAddresses own) (ProtocolSettings.registryMapSize own) ↔
      SizeCompensated own := by
  rw [isGreatest_iff_of_isGreatest (isGreatest_registryMapSize own)]
  constructor
  · rintro ⟨habove, hreach⟩
    refine ⟨?_, fun e he a ha _ hpos => ?_, fun e he _ => ?_⟩
    · obtain ⟨a, ⟨e, he, ha⟩, hle⟩ := hreach 0 (Or.inl rfl)
      exact ⟨e, he, a, ha, hle⟩
    · obtain ⟨t, rfl | ⟨e', he', rfl⟩, hle⟩ := habove a ⟨e, he, ha⟩
      · exact absurd hpos (Int.not_lt.mpr hle)
      · exact ⟨e', he', hle⟩
    · obtain ⟨a, ⟨e', he', ha⟩, hle⟩ := hreach _ (Or.inr ⟨e, he, rfl⟩)
      exact ⟨e', he', a, ha, hle⟩
  · intro h
    refine ⟨?_, ?_⟩
    · rintro a ⟨e, he, ha⟩
      by_cases hlt : e.registerEnd < a
      · by_cases hpos : 0 < a
        · obtain ⟨e', he', hle⟩ := h.short e he a ha hlt hpos
          exact ⟨_, Or.inr ⟨e', he', rfl⟩, hle⟩
        · exact ⟨0, Or.inl rfl, Int.not_lt.mp hpos⟩
      · exact ⟨_, Or.inr ⟨e, he, rfl⟩, Int.not_lt.mp hlt⟩
    · rintro x (rfl | ⟨e, he, rfl⟩)
      · obtain ⟨e, he, a, ha, hle⟩ := h.nonneg
        exact ⟨a, ⟨e, he, ha⟩, hle⟩
      · by_cases hall : ∀ a ∈ e.wordAddresses, a < e.registerEnd
        · obtain ⟨e', he', a, ha, hle⟩ := h.long e he hall
          exact ⟨a, ⟨e', he', ha⟩, hle⟩
        · obtain ⟨a, ha, hle⟩ : ∃ a ∈ e.wordAddresses, e.registerEnd ≤ a := by simpa using hall
          exact ⟨a, ⟨e, he, ha⟩, hle⟩

end Compensation

section Plan

variable {size : Int} {entries : List RegistryMapEntry} {maxRegister : Int} {init : Bool}
  {timestampMs : Float}

/-- The first address of a window's span tells the window. -/
theorem windowStart_eq (hsize : 1 ≤ size) {start lo : Int}
    (hstart : start ∈ pyRange 0 (maxRegister + 1) size)
    (hlo : IsLeast {x | ∃ e ∈ windowEntries init timestampMs size start entries, e.register = x} lo) :
    size * (lo / size) = start := by
  obtain ⟨e, he, rfl⟩ := hlo.1
  have hsel := (mem_windowEntries.mp he).2
  simp only [selected, Bool.and_eq_true] at hsel
  obtain ⟨k, rfl, hk⟩ := (mem_pyRange hsize).mp hstart
  have hmem : size * (k : Int) ∈ pyRange 0 (max maxRegister e.register + 1) size :=
    (mem_pyRange hsize).mpr ⟨k, rfl, by omega⟩
  exact ((exists_window hsize (Int.le_max_right _ _)).mp ⟨hmem, hsel.1.1⟩).2.symm

/-- The ranges of a plan are tight if every window's entries are made up for. -/
theorem tightRange_iff (hsize : 1 ≤ size) :
    (∀ r ∈ (calculateRegistryRanges size entries maxRegister init timestampMs).1,
        TightRange size entries init timestampMs r) ↔
      ∀ start ∈ pyRange 0 (maxRegister + 1) size,
        Compensated (windowEntries init timestampMs size start entries) := by
  have hmem (r : Int × Int) := @mem_scanWindows init timestampMs size entries _ r
    (pairwise_pyRange hsize (maxRegister + 1))
  constructor
  · intro h start hstart
    cases hspan : (scanWindow init timestampMs size start none entries).1 with
    | none =>
      have hempty : windowEntries init timestampMs size start entries = [] := by
        refine List.eq_nil_iff_forall_not_mem.mpr fun e he => ?_
        have hbelow : Below (scanWindow init timestampMs size start none entries).1 e.register :=
          below_scanWindow.mpr (Or.inr
            ⟨e, (mem_windowEntries.mp he).1, (mem_windowEntries.mp he).2, Int.le_refl _⟩)
        rw [hspan] at hbelow
        obtain ⟨_, _, hsome, -⟩ := hbelow
        cases hsome
      rw [hempty]
      exact compensated_of_judged (by simp)
    | some s =>
      obtain ⟨lo, hi⟩ := s
      obtain ⟨hlo, hhi⟩ := scanWindow_eq_some_iff.mp hspan
      have hlast : lo + (hi - lo + 1) - 1 = hi := by omega
      have htight := h (lo, hi - lo + 1) ((hmem _).mpr ⟨start, hstart, by rw [hlast, hspan]⟩)
      have hlowest := htight.lowest
      have hhighest := htight.highest
      rw [windowStart_eq hsize hstart hlo] at hlowest hhighest
      rw [hlast] at hhighest
      exact (compensated_iff hlo hhi).mp ⟨hlowest, hhighest⟩
  · intro h r hr
    obtain ⟨start, hstart, hspan⟩ := (hmem r).mp hr
    obtain ⟨hlo, hhi⟩ := scanWindow_eq_some_iff.mp hspan
    obtain ⟨hlowest, hhighest⟩ := (compensated_iff hlo hhi).mpr (h start hstart)
    have hwindow := windowStart_eq hsize hstart hlo
    exact ⟨by rwa [hwindow], by rwa [hwindow]⟩

variable (size entries maxRegister init timestampMs)

/-- **No over-read.** The ranges of a plan and the size of the map are tight exactly if in every
window, and in the map, the entries that are misjudged are made up for by others. -/
theorem noOverRead_iff :
    NoOverRead size entries maxRegister init timestampMs ↔
      (1 ≤ size → ∀ start ∈ pyRange 0 (maxRegister + 1) size,
        Compensated (windowEntries init timestampMs size start entries)) ∧
      (entries ≠ [] → SizeCompensated entries) := by
  have hranges : (∀ r ∈ returnedRanges size entries maxRegister init timestampMs,
      TightRange size entries init timestampMs r) ↔
      (1 ≤ size → ∀ start ∈ pyRange 0 (maxRegister + 1) size,
        Compensated (windowEntries init timestampMs size start entries)) := by
    rw [returnedRanges]
    by_cases hsize : 1 ≤ size
    · rw [if_neg (by omega), tightRange_iff hsize]
      simp [hsize]
    · rw [if_pos (by omega)]
      simp [hsize]
  constructor
  · intro h
    exact ⟨hranges.mp h.ranges, fun hne => sizeCompensated_iff.mp (h.size hne)⟩
  · intro h
    exact ⟨hranges.mpr h.1, fun hne => sizeCompensated_iff.mpr (h.2 hne)⟩

end Plan

/-! ### A range of texts -/

/-- A serial number of four registers, each of which is decoded on its own. -/
def serialRow : Row := { cell := "0~3", variableName := "serial", dataType := .ascii }

/-- Its entries, one a register. -/
def serialEntries : List RegistryMapEntry :=
  (List.range 4).map (serialRow.entry .holding (Cell.rangeFields false 0 3))

/-- They end at registers 3 to 6 by their word counts, and register 6 is none of the device's. -/
theorem not_noOverRead_range :
    ({} : ProtocolSettings).loadRegistry .holding [serialRow] = some serialEntries ∧
      ¬NoOverRead 40 serialEntries (ProtocolSettings.registryMapSize serialEntries) true 0 := by
  refine ⟨rfl, fun h => ?_⟩
  obtain ⟨e, he, ha⟩ := (h.size (List.cons_ne_nil _ _)).1
  have hlast : ∀ e ∈ serialEntries, ∀ a ∈ e.wordAddresses, a ≤ 3 := by decide
  exact absurd (hlast e he _ ha) (by decide)

end ProtocolGateway
