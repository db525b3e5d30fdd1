import Mathlib.Data.List.Induction

/-!
# Reports that stay the same

A source reports its state time and again. A report is stale if it and all reports since an earlier
one, made more than `timeout` before it, are the same as that one.

A detector that restarts its clock remembers one report, the last it did not find stale, and finds
the next one stale if it is the same and comes more than `timeout` later. Its memory may be lost
between two reports, and `same` need be no equivalence: nothing is assumed about it.

* `Stale`, `found` — what is stale, and what the detector finds stale.
* `stale_of_found` — the detector finds nothing else.
* `exact_iff` — it finds everything exactly if the data only ever becomes stale in one silence.
-/

universe u v

namespace Reports

variable {α : Type u} {τ : Type v}

/-! ## Prefixes -/

/-- A property of each report and the reports before it. -/
def Throughout (P : List α → α → Prop) (reports : List α) : Prop :=
  ∀ past b rest, reports = past ++ b :: rest → P past b

variable {P : List α → α → Prop} {past reports : List α} {a b : α}

theorem throughout_nil : Throughout P [] := by
  intro past b rest h
  cases past <;> cases h

/-- What holds along a list holds along its beginning, and of its last report. -/
theorem throughout_append_singleton :
    Throughout P (past ++ [b]) ↔ Throughout P past ∧ P past b := by
  constructor
  · refine fun h => ⟨fun past' b' rest heq => h past' b' (rest ++ [b]) ?_, h past b [] rfl⟩
    rw [heq, List.append_assoc, List.cons_append]
  · rintro ⟨hpast, hb⟩ past' b' rest heq
    rcases List.eq_nil_or_concat rest with rfl | ⟨rest', c, rfl⟩
    · obtain ⟨rfl, hlast⟩ := List.append_inj' heq rfl
      obtain rfl := (List.cons.inj hlast).1
      exact hb
    · have hsplit : past ++ [b] = (past' ++ b' :: rest') ++ [c] := by
        rw [heq, List.concat_eq_append, List.append_assoc, List.cons_append]
      exact hpast past' b' rest' (List.append_inj' hsplit rfl).1

/-- A detector of stale reports. -/
structure Detector (α : Type u) (τ : Type v) where
  /-- is a report the same as an earlier one -/
  same : α → α → Bool
  time : α → τ
  timeout : τ
  /-- is the memory lost between a report and the next -/
  cleared : Option α → α → Bool

namespace Detector

variable [Sub τ] [LT τ] (D : Detector α τ)

/-! ## Stale reports -/

/-- A report is the same as an earlier one that is out of date. -/
def Repeats (a b : α) : Prop := D.same a b = true ∧ D.timeout < D.time b - D.time a

/-- A report is stale. -/
def Stale (past : List α) (b : α) : Prop :=
  ∃ older a newer, past = older ++ a :: newer ∧ D.Repeats a b ∧ ∀ c ∈ newer, D.same a c = true

/-- The last report that is not stale: all reports after it are. -/
def LastFresh (past : List α) (a : α) : Prop :=
  ∃ older newer, past = older ++ a :: newer ∧ ¬D.Stale older a ∧
    Throughout (fun since c => D.Stale (older ++ a :: since) c) newer

/-- A report that is stale repeats the last one that is not, and the memory was not lost. -/
def InOneSilence (past : List α) (b : α) : Prop :=
  D.Stale past b → D.cleared past.getLast? b = false ∧ ∃ a, D.LastFresh past a ∧ D.Repeats a b

variable {D}

/-- The last report that is not stale, after one more report. -/
theorem lastFresh_append_singleton :
    D.LastFresh (past ++ [b]) a ↔
      (¬D.Stale past b ∧ a = b) ∨ (D.Stale past b ∧ D.LastFresh past a) := by
  constructor
  · rintro ⟨older, newer, heq, hfresh, hstale⟩
    rcases List.eq_nil_or_concat newer with rfl | ⟨newer', c, rfl⟩
    · obtain ⟨rfl, hlast⟩ := List.append_inj' heq rfl
      obtain rfl := (List.cons.inj hlast).1
      exact Or.inl ⟨hfresh, rfl⟩
    · rw [List.concat_eq_append] at heq hstale
      have hsplit : past ++ [b] = (older ++ a :: newer') ++ [c] := by
        rw [heq, List.append_assoc, List.cons_append]
      obtain ⟨rfl, hlast⟩ := List.append_inj' hsplit rfl
      obtain rfl := (List.cons.inj hlast).1
      obtain ⟨hnewer, hb⟩ := throughout_append_singleton.mp hstale
      exact Or.inr ⟨hb, older, newer', rfl, hfresh, hnewer⟩
  · rintro (⟨hfresh, rfl⟩ | ⟨hb, older, newer, rfl, hfresh, hstale⟩)
    · exact ⟨past, [], rfl, hfresh, throughout_nil⟩
    · refine ⟨older, newer ++ [b], by rw [List.append_assoc, List.cons_append], hfresh, ?_⟩
      exact throughout_append_singleton.mpr ⟨hstale, hb⟩

/-! ## The detector -/

variable [DecidableLT τ] (D)

/-- Does the detector find a report stale, with this memory? -/
def finds (memory : Option α) (b : α) : Bool :=
  memory.any fun a => D.same a b && decide (D.timeout < D.time b - D.time a)

/-- What is left of the memory when the next report comes. -/
def kept (memory last : Option α) (b : α) : Option α :=
  if D.cleared last b then none else memory

/-- The memory and the last report, after a report. -/
def remember (s : Option α × Option α) (b : α) : Option α × Option α :=
  (if D.finds (D.kept s.1 s.2 b) b then D.kept s.1 s.2 b else some b, some b)

/-- The memory after all reports so far. -/
def memory (past : List α) : Option α := (past.foldl D.remember (none, none)).1

/-- Is a report found stale? -/
def found (past : List α) (b : α) : Bool := D.finds (D.kept (D.memory past) past.getLast? b) b

variable {D}

theorem foldl_remember (past : List α) :
    past.foldl D.remember (none, none) = (D.memory past, past.getLast?) := by
  refine Prod.ext rfl ?_
  induction past using List.reverseRecOn with
  | nil => rfl
  | append_singleton past b ih =>
    rw [List.foldl_append, List.getLast?_concat]
    rfl

theorem memory_append_singleton :
    D.memory (past ++ [b]) =
      if D.found past b then D.kept (D.memory past) past.getLast? b else some b := by
  rw [memory, List.foldl_append, foldl_remember]
  rfl

/-- A report is found stale if the memory was kept and the report repeats it. -/
theorem found_iff :
    D.found past b = true ↔
      D.cleared past.getLast? b = false ∧ ∃ a, D.memory past = some a ∧ D.Repeats a b := by
  unfold found finds kept Repeats
  cases D.cleared past.getLast? b <;> cases D.memory past <;> simp

/-- What is found stale was remembered before and still is. -/
theorem kept_of_found (h : D.found past b = true) :
    D.kept (D.memory past) past.getLast? b = D.memory past := by
  rw [kept, (found_iff.mp h).1]
  rfl

/-- All reports since the one remembered are the same as it. -/
theorem memory_spec (h : D.memory past = some a) :
    ∃ older newer, past = older ++ a :: newer ∧ ∀ c ∈ newer, D.same a c = true := by
  induction past using List.reverseRecOn with
  | nil => cases h
  | append_singleton past b ih =>
    rw [memory_append_singleton] at h
    cases hfound : D.found past b with
    | true =>
      rw [if_pos hfound, kept_of_found hfound] at h
      obtain ⟨older, newer, hpast, hsame⟩ := ih h
      refine ⟨older, newer ++ [b], by rw [hpast, List.append_assoc, List.cons_append], ?_⟩
      intro c hc
      rcases List.mem_append.mp hc with hc | hc
      · exact hsame c hc
      · obtain ⟨-, a', ha', hrepeats⟩ := found_iff.mp hfound
        obtain rfl := Option.some.inj (ha'.symm.trans h)
        rw [List.mem_singleton.mp hc]
        exact hrepeats.1
    | false =>
      rw [hfound, if_neg Bool.false_ne_true] at h
      obtain rfl := Option.some.inj h
      exact ⟨past, [], rfl, fun c hc => absurd hc List.not_mem_nil⟩

/-- **What is found stale is stale.** -/
theorem stale_of_found (h : D.found past b = true) : D.Stale past b := by
  obtain ⟨-, a, ha, hrepeats⟩ := found_iff.mp h
  obtain ⟨older, newer, hpast, hsame⟩ := memory_spec ha
  exact ⟨older, a, newer, hpast, hrepeats, hsame⟩

/-! ## When everything is found -/

/-- A detector that finds what is stale remembers the last report that is not. -/
theorem memory_eq_some_iff
    (h : Throughout (fun past b => D.found past b = true ↔ D.Stale past b) past) :
    D.memory past = some a ↔ D.LastFresh past a := by
  induction past using List.reverseRecOn with
  | nil =>
    refine iff_of_false (by simp [memory]) ?_
    rintro ⟨older, newer, heq, -⟩
    cases older <;> cases heq
  | append_singleton past b ih =>
    obtain ⟨hpast, hb⟩ := throughout_append_singleton.mp h
    rw [memory_append_singleton, lastFresh_append_singleton]
    cases hfound : D.found past b with
    | true =>
      have hstale := hb.mp hfound
      rw [if_pos rfl, kept_of_found hfound, ih hpast]
      exact ⟨fun hfresh => Or.inr ⟨hstale, hfresh⟩, fun hcases =>
        hcases.elim (fun hno => absurd hstale hno.1) fun hyes => hyes.2⟩
    | false =>
      have hfresh : ¬D.Stale past b := fun hstale => by
        rw [hb.mpr hstale] at hfound
        cases hfound
      rw [if_neg Bool.false_ne_true, Option.some.injEq]
      exact ⟨fun heq => Or.inl ⟨hfresh, heq.symm⟩, fun hcases =>
        hcases.elim (fun hyes => hyes.2.symm) fun hno => absurd hno.1 hfresh⟩

/-- **A detector that restarts its clock finds everything that is stale exactly if the data becomes
stale in one silence**: whenever a report is stale, the last one before it that is not is more than
the timeout older, and is repeated and still remembered. -/
theorem exact_iff :
    Throughout (fun past b => D.found past b = true ↔ D.Stale past b) reports ↔
      Throughout D.InOneSilence reports := by
  induction reports using List.reverseRecOn with
  | nil => exact iff_of_true throughout_nil throughout_nil
  | append_singleton past b ih =>
    rw [throughout_append_singleton, throughout_append_singleton, ← ih]
    refine and_congr_right fun hpast => ?_
    have hmemory : ∀ a, D.memory past = some a ↔ D.LastFresh past a :=
      fun a => memory_eq_some_iff hpast
    have hfound : D.found past b = true ↔
        D.cleared past.getLast? b = false ∧ ∃ a, D.LastFresh past a ∧ D.Repeats a b := by
      rw [found_iff]
      simp only [hmemory]
    unfold InOneSilence
    rw [← hfound]
    exact ⟨fun hboth => hboth.mpr, fun hback => ⟨stale_of_found, hback⟩⟩

end Detector

end Reports
