import Mathlib.Data.List.Dedup
import Mathlib.Data.List.Perm.Basic
import ProtocolGateway.Lib.Runs

/-!
# Commits of a snapshot

Changes are staged in a store, withdrawn from it, and applied by commits. A commit copies the
entries of the store under a lock, releases the lock, takes it again and works through its copy:
it applies one entry after another and removes each from the store by its key, until one fails.

Between the two locked sections the store can change, and then copy and store differ: the commit
applies what was withdrawn or applied in the meantime, and removes, with an entry's key, what was
added to the entry. Where copy and store agree when the commit takes the lock again
(`Staging.Agreed`), changes are applied as staged (`Sound.step`, `Sound.asStaged`): every item that
was staged was withdrawn, or applied, or is still staged, and exactly one of these, as often as it
was staged. Where entries are numbered as they are staged, they are applied in that order too
(`Ordered.step`).
-/

namespace SnapshotCommit

open Runs

universe u

/-- Stores of staged entries. An entry stages the items it stands for; different entries have
different keys and items. -/
structure Staging (σ κ ν ρ ω α : Type u) [DecidableEq κ] where
  /-- the entries of a store, in the order in which they are applied -/
  entries : σ → List (κ × ν)
  /-- the store without the entry of a key -/
  pop : σ → κ → σ
  /-- what a request to stage or withdraw makes of the store -/
  request : σ → ρ → σ
  items : κ × ν → List α
  /-- does the application of an entry succeed, as the database answers? -/
  succeeds : κ × ν → ω → Bool
  entries_pop : ∀ s k, entries (pop s k) = (entries s).filter fun e => e.1 ≠ k
  keys_nodup : ∀ s, ((entries s).map Prod.fst).Nodup
  items_nodup : ∀ s, ((entries s).flatMap items).Nodup

/-- A commit that has not begun to apply anything. -/
inductive Pending (κ ν : Type u)
  /-- it has seen that something is staged -/
  | checked
  /-- it has its copy of the entries -/
  | copied (entries : List (κ × ν))

/-- An application of an entry: did it succeed, and were its items staged before it and after? -/
structure Attempt (κ ν : Type u) where
  entry : κ × ν
  succeeded : Bool
  stagedBefore : Bool
  stagedAfter : Bool

/-- A store with the commits at work on it, and its history. -/
structure Desk (σ κ ν α : Type u) where
  store : σ
  pending : List (Pending κ ν)
  /-- what is left of the copy of the commit that holds the lock -/
  running : Option (List (κ × ν))
  /-- the items that were staged, as often as they were -/
  everStaged : List α
  withdrawn : List α
  attempts : List (Attempt κ ν)

inductive Event (ρ ω : Type u)
  | request (r : ρ)
  /-- a commit begins: it looks whether anything is staged -/
  | check
  /-- the `i`-th commit copies the entries -/
  | copy (i : Nat)
  /-- the `i`-th commit is given up before that -/
  | abort (i : Nat)
  /-- the `i`-th commit takes the lock for its run -/
  | run (i : Nat)
  /-- the run applies its next entry, or ends -/
  | apply (a : ω)

variable {σ κ ν ρ ω α : Type u} [DecidableEq κ] (S : Staging σ κ ν ρ ω α)

namespace Staging

/-- The items that are staged. -/
def staged (s : σ) : List α := (S.entries s).flatMap S.items

/-- The items that were applied. -/
def applied (attempts : List (Attempt κ ν)) : List α :=
  (attempts.filter (·.succeeded)).flatMap fun a => S.items a.entry

/-- An entry of a copy is in the store, with the same items. -/
def Current (s : σ) (e : κ × ν) : Prop :=
  ∃ e' ∈ S.entries s, e'.1 = e.1 ∧ (S.items e').Perm (S.items e)

variable {S} {s : σ} {e : κ × ν}

/-- The items of a current entry are staged. -/
theorem Current.mem_staged (h : S.Current s e) {x : α} (hx : x ∈ S.items e) : x ∈ S.staged s := by
  obtain ⟨e', hmem, -, hperm⟩ := h
  exact List.mem_flatMap.mpr ⟨e', hmem, hperm.mem_iff.mpr hx⟩

/-- A current entry stays so when another key is removed. -/
theorem Current.pop (h : S.Current s e) {k : κ} (hne : e.1 ≠ k) : S.Current (S.pop s k) e := by
  obtain ⟨e', hmem, hkey, hperm⟩ := h
  refine ⟨e', ?_, hkey, hperm⟩
  rw [S.entries_pop, List.mem_filter]
  exact ⟨hmem, by simpa [hkey] using hne⟩

variable [DecidableEq α] (S)

/-- What is in the second list and not in the first. -/
def added (before after : List α) : List α := after.filter (· ∉ before)

/-- The application of an entry. -/
def attempt (s : σ) (e : κ × ν) (a : ω) : σ × Attempt κ ν :=
  let s' := if S.succeeds e a then S.pop s e.1 else s
  (s', ⟨e, S.succeeds e a, decide (∀ x ∈ S.items e, x ∈ S.staged s),
    decide (∀ x ∈ S.items e, x ∈ S.staged s')⟩)

/-- A request, with what it stages and withdraws. -/
def submit (d : Desk σ κ ν α) (r : ρ) : Desk σ κ ν α :=
  let s' := S.request d.store r
  { d with
    store := s'
    everStaged := d.everStaged ++ added (S.staged d.store) (S.staged s')
    withdrawn := d.withdrawn ++ added (S.staged s') (S.staged d.store) }

/-- One event, where it is possible: all but the steps of a run wait for the lock. -/
def step (d : Desk σ κ ν α) (event : Event ρ ω) : Option (Desk σ κ ν α) :=
  match d.running, event with
  | none, .request r => some (S.submit d r)
  | none, .check =>
    some { d with pending := d.pending ++ if (S.entries d.store).isEmpty then [] else [.checked] }
  | none, .copy i =>
    match d.pending[i]? with
    | some .checked => some { d with pending := d.pending.set i (.copied (S.entries d.store)) }
    | _ => none
  | none, .abort i =>
    match d.pending[i]? with
    | some .checked => some { d with pending := d.pending.eraseIdx i }
    | _ => none
  | none, .run i =>
    match d.pending[i]? with
    | some (.copied entries) =>
      some { d with pending := d.pending.eraseIdx i, running := some entries }
    | _ => none
  | some [], .apply _ => some { d with running := none }
  | some (e :: rest), .apply a =>
    some { d with
      store := (S.attempt d.store e a).1
      running := if S.succeeds e a then some rest else none
      attempts := d.attempts ++ [(S.attempt d.store e a).2] }
  | _, _ => none

/-- A store before the first request. -/
structure Empty (d : Desk σ κ ν α) : Prop where
  entries : S.entries d.store = []
  pending : d.pending = []
  running : d.running = none
  everStaged : d.everStaged = []
  withdrawn : d.withdrawn = []
  attempts : d.attempts = []

/-- When a commit takes the lock for its run, its copy agrees with the store. -/
def Agreed (d : Desk σ κ ν α) : Event ρ ω → Prop
  | .run i => ∀ entries, d.pending[i]? = some (.copied entries) → ∀ e ∈ entries, S.Current d.store e
  | _ => True

/-- **Changes are applied as staged.** -/
structure AsStaged (d : Desk σ κ ν α) : Prop where
  /-- each staging of an item was withdrawn, or applied once, or is in the store -/
  conserved : d.everStaged.Perm (d.withdrawn ++ S.applied d.attempts ++ S.staged d.store)
  /-- what was applied was staged at that moment -/
  in_time : ∀ a ∈ d.attempts, a.succeeded = true → a.stagedBefore = true
  /-- what could not be applied was staged after that -/
  kept : ∀ a ∈ d.attempts, a.succeeded = false → a.stagedAfter = true

/-! ## What an event does -/

/-- **The kinds of events.** -/
inductive Moves (d : Desk σ κ ν α) : Event ρ ω → Desk σ κ ν α → Prop
  | submit (r : ρ) : d.running = none → Moves d (.request r) (S.submit d r)
  /-- only the commits that wait change, and a new copy is one of the store as it is -/
  | wait (event : Event ρ ω) (pending : List (Pending κ ν)) :
      (∀ entries, .copied entries ∈ pending →
        .copied entries ∈ d.pending ∨ entries = S.entries d.store) →
      Moves d event { d with pending := pending }
  | run (i : Nat) (entries : List (κ × ν)) : d.pending[i]? = some (.copied entries) →
      Moves d (.run i) { d with pending := d.pending.eraseIdx i, running := some entries }
  | finish (a : ω) : Moves d (.apply a) { d with running := none }
  | apply (e : κ × ν) (rest : List (κ × ν)) (a : ω) : d.running = some (e :: rest) →
      Moves d (.apply a) { d with
        store := (S.attempt d.store e a).1
        running := if S.succeeds e a then some rest else none
        attempts := d.attempts ++ [(S.attempt d.store e a).2] }

theorem step_cases {d d' : Desk σ κ ν α} {event : Event ρ ω} (hstep : S.step d event = some d') :
    S.Moves d event d' := by
  unfold Staging.step at hstep
  split at hstep
  case h_1 r hfree =>
    obtain rfl := Option.some.inj hstep
    exact .submit r hfree
  case h_2 =>
    obtain rfl := Option.some.inj hstep
    refine .wait _ _ fun entries hmem => ?_
    rcases List.mem_append.mp hmem with hmem | hmem
    · exact .inl hmem
    · split at hmem <;> simp at hmem
  case h_3 i hfree =>
    split at hstep
    · obtain rfl := Option.some.inj hstep
      refine .wait _ _ fun entries hmem => ?_
      rcases List.mem_or_eq_of_mem_set hmem with hmem | heq
      · exact .inl hmem
      · cases heq
        exact .inr rfl
    · cases hstep
  case h_4 i hfree =>
    split at hstep
    · obtain rfl := Option.some.inj hstep
      exact .wait _ _ fun entries hmem => .inl (List.mem_of_mem_eraseIdx hmem)
    · cases hstep
  case h_5 i hfree =>
    split at hstep
    · next entries hpending =>
      obtain rfl := Option.some.inj hstep
      exact .run i entries hpending
    · cases hstep
  case h_6 a hrunning =>
    obtain rfl := Option.some.inj hstep
    exact .finish a
  case h_7 e rest a hrunning =>
    obtain rfl := Option.some.inj hstep
    exact .apply e rest a hrunning
  case h_8 => cases hstep

/-! ## The invariant -/

/-- What every event keeps. -/
structure Sound (d : Desk σ κ ν α) : Prop where
  balanced : ∀ x, d.everStaged.count x =
    d.withdrawn.count x + (S.applied d.attempts).count x + (S.staged d.store).count x
  copies_nodup : ∀ entries, Pending.copied entries ∈ d.pending → (entries.map Prod.fst).Nodup
  /-- what a run has left agrees with the store -/
  running : ∀ entries, d.running = some entries →
    (entries.map Prod.fst).Nodup ∧ ∀ e ∈ entries, S.Current d.store e
  in_time : ∀ a ∈ d.attempts, a.succeeded = true → a.stagedBefore = true
  kept : ∀ a ∈ d.attempts, a.succeeded = false → a.stagedAfter = true

variable {S} {d d' : Desk σ κ ν α}

/-- Removing a current entry removes its items. -/
theorem Current.count_staged (h : S.Current s e) (x : α) :
    (S.staged s).count x = (S.items e).count x + (S.staged (S.pop s e.1)).count x := by
  obtain ⟨e', hmem, hkey, hperm⟩ := h
  obtain ⟨before, after, heq⟩ := List.append_of_mem hmem
  have hnodup := S.keys_nodup s
  rw [heq, List.map_append, List.map_cons, List.nodup_middle, List.nodup_cons, List.mem_append,
    not_or, hkey] at hnodup
  have hothers : ∀ l : List (κ × ν), e.1 ∉ l.map Prod.fst →
      (l.filter fun e' => e'.1 ≠ e.1) = l := by
    intro l hl
    refine List.filter_eq_self.mpr fun e' he' => ?_
    rw [decide_eq_true_eq]
    exact fun h' => hl (List.mem_map.mpr ⟨e', he', h'⟩)
  have hpop : S.entries (S.pop s e.1) = before ++ after := by
    rw [S.entries_pop, heq, List.filter_append, List.filter_cons_of_neg (by simp [hkey]),
      hothers _ hnodup.1.1, hothers _ hnodup.1.2]
  simp only [staged, hpop, heq, List.flatMap_append, List.flatMap_cons, List.count_append,
    hperm.count_eq]
  omega

/-- What comes and what goes account for a change between lists without duplicates. -/
theorem count_change {before after : List α} (hbefore : before.Nodup) (hafter : after.Nodup) (x : α) :
    before.count x + (added before after).count x =
      (added after before).count x + after.count x := by
  rw [added, added, hbefore.count, hafter.count, (hafter.filter _).count, (hbefore.filter _).count]
  by_cases hb : x ∈ before <;> by_cases ha : x ∈ after <;> simp [hb, ha]

namespace Sound

theorem empty (h : S.Empty d) : S.Sound d where
  balanced := fun x => by simp [h.everStaged, h.withdrawn, h.attempts, applied, staged, h.entries]
  copies_nodup := by simp [h.pending]
  running := by simp [h.running]
  in_time := by simp [h.attempts]
  kept := by simp [h.attempts]

theorem submit (h : S.Sound d) (hfree : d.running = none) (r : ρ) : S.Sound (S.submit d r) where
  balanced := fun x => by
    have hchange := count_change (S.items_nodup d.store) (S.items_nodup (S.request d.store r)) x
    have hbalanced := h.balanced x
    simp only [Staging.submit, List.count_append]
    simp only [staged] at hbalanced ⊢
    omega
  copies_nodup := h.copies_nodup
  running := by simp [Staging.submit, hfree]
  in_time := h.in_time
  kept := h.kept

/-- **A run applies its next entry.** -/
theorem apply (h : S.Sound d) {rest : List (κ × ν)} (hrunning : d.running = some (e :: rest))
    (a : ω) : S.Sound { d with
      store := (S.attempt d.store e a).1
      running := if S.succeeds e a then some rest else none
      attempts := d.attempts ++ [(S.attempt d.store e a).2] } := by
  obtain ⟨hnodup, hcurrent⟩ := h.running _ hrunning
  rw [List.map_cons, List.nodup_cons] at hnodup
  have hhead := hcurrent e List.mem_cons_self
  have hbefore : (S.attempt d.store e a).2.stagedBefore = true :=
    decide_eq_true fun x hx => hhead.mem_staged hx
  cases hok : S.succeeds e a with
  | true =>
    have hstore : (S.attempt d.store e a).1 = S.pop d.store e.1 := if_pos hok
    have hsucceeded : (S.attempt d.store e a).2.succeeded = true := hok
    exact
      { balanced := fun x => by
          have hcount := hhead.count_staged x
          have hbalanced := h.balanced x
          simp only [applied] at hbalanced
          simp only [applied, List.filter_append, List.filter_cons, hsucceeded, if_true,
            List.filter_nil, List.flatMap_append, List.flatMap_cons, List.flatMap_nil,
            List.append_nil, List.count_append, hstore]
          simp only [attempt] at *
          omega
        copies_nodup := h.copies_nodup
        running := fun entries heq => by
          obtain rfl := Option.some.inj heq
          refine ⟨hnodup.2, fun e' he' => ?_⟩
          rw [hstore]
          refine (hcurrent e' (List.mem_cons_of_mem _ he')).pop fun heq => ?_
          exact hnodup.1 (heq ▸ List.mem_map_of_mem he')
        in_time := fun a' ha' hs => by
          rcases List.mem_append.mp ha' with ha' | ha'
          · exact h.in_time a' ha' hs
          · rw [List.mem_singleton.mp ha']
            exact hbefore
        kept := fun a' ha' hs => by
          rcases List.mem_append.mp ha' with ha' | ha'
          · exact h.kept a' ha' hs
          · rw [List.mem_singleton.mp ha', hsucceeded] at hs
            cases hs }
  | false =>
    have hstore : (S.attempt d.store e a).1 = d.store := if_neg (by simp [hok])
    have hsucceeded : (S.attempt d.store e a).2.succeeded = false := hok
    exact
      { balanced := fun x => by
          have hbalanced := h.balanced x
          simp only [applied] at hbalanced
          simpa [applied, List.filter_append, hsucceeded, hstore] using hbalanced
        copies_nodup := h.copies_nodup
        running := fun entries heq => by cases heq
        in_time := fun a' ha' hs => by
          rcases List.mem_append.mp ha' with ha' | ha'
          · exact h.in_time a' ha' hs
          · rw [List.mem_singleton.mp ha', hsucceeded] at hs
            cases hs
        kept := fun a' ha' hs => by
          rcases List.mem_append.mp ha' with ha' | ha'
          · exact h.kept a' ha' hs
          · rw [List.mem_singleton.mp ha']
            refine decide_eq_true fun x hx => ?_
            rw [if_neg (by simp [hok])]
            exact hhead.mem_staged hx }

theorem step (h : S.Sound d) {event : Event ρ ω} (hagreed : S.Agreed d event)
    (hstep : S.step d event = some d') : S.Sound d' := by
  cases S.step_cases hstep with
  | submit r hfree => exact h.submit hfree r
  | wait _ pending hpending =>
    refine { h with copies_nodup := fun entries hmem => ?_ }
    rcases hpending entries hmem with hold | rfl
    · exact h.copies_nodup entries hold
    · exact S.keys_nodup d.store
  | run i entries hpending =>
    exact
      { h with
        copies_nodup := fun entries hmem => h.copies_nodup entries (List.mem_of_mem_eraseIdx hmem)
        running := fun entries' heq => by
          obtain rfl := Option.some.inj heq
          exact ⟨h.copies_nodup _ (List.mem_of_getElem? hpending), hagreed _ hpending⟩ }
  | finish a => exact { h with running := fun _ heq => by cases heq }
  | apply e rest a hrunning => exact h.apply hrunning a

/-- A sound store is as staged. -/
theorem asStaged (h : S.Sound d) : S.AsStaged d where
  conserved := by
    refine List.perm_iff_count.mpr fun x => ?_
    rw [h.balanced x, List.count_append, List.count_append]
  in_time := h.in_time
  kept := h.kept

end Sound

/-! ## Numbered stores -/

/-- The keys are numbers, given out in ascending order, and the entries are listed by them. -/
structure Numbered {σ ν ρ ω α : Type} (S : Staging σ Nat ν ρ ω α)
    (next : σ → Nat) : Prop where
  sorted : ∀ s, ((S.entries s).map Prod.fst).Pairwise (· < ·)
  below : ∀ s, ∀ e ∈ S.entries s, e.1 < next s
  next_request : ∀ s r, next s ≤ next (S.request s r)
  /-- what a request adds is numbered from there on -/
  fresh : ∀ s r, ∀ e ∈ S.entries (S.request s r), e ∈ S.entries s ∨ next s ≤ e.1
  next_pop : ∀ s k, next (S.pop s k) = next s

/-- The keys of the entries that were applied, in this order. -/
def appliedKeys (attempts : List (Attempt κ ν)) : List κ :=
  (attempts.filter (·.succeeded)).map fun a => a.entry.1

section Numbered

variable {σ ν ρ ω α : Type} {S : Staging σ Nat ν ρ ω α} {next : σ → Nat} {d d' : Desk σ Nat ν α}

/-- What a commit has copied and not yet applied: all entries of the store below a bound, or more,
in ascending order. -/
structure Segment (S : Staging σ Nat ν ρ ω α) (next : σ → Nat) (s : σ)
    (entries : List (Nat × ν)) : Prop where
  sorted : (entries.map Prod.fst).Pairwise (· < ·)
  covers : ∃ bound ≤ next s, (∀ k ∈ entries.map Prod.fst, k < bound) ∧
    ∀ e ∈ S.entries s, e.1 < bound → e.1 ∈ entries.map Prod.fst

/-- What every event keeps of the order. -/
structure Ordered (S : Staging σ Nat ν ρ ω α) (next : σ → Nat) (d : Desk σ Nat ν α) : Prop where
  applied : (appliedKeys d.attempts).Pairwise (· < ·)
  applied_lt : ∀ k ∈ appliedKeys d.attempts, k < next d.store
  /-- what is in the store comes after what was applied -/
  staged_after : ∀ k ∈ appliedKeys d.attempts, ∀ e ∈ S.entries d.store, k < e.1
  copies : ∀ entries, Pending.copied entries ∈ d.pending → Segment S next d.store entries
  running : ∀ entries, d.running = some entries → Segment S next d.store entries

namespace Segment

/-- A store copied whole. -/
theorem whole (hS : Numbered S next) (s : σ) : Segment S next s (S.entries s) where
  sorted := hS.sorted s
  covers := by
    refine ⟨next s, Nat.le_refl _, fun k hk => ?_, fun e he _ => List.mem_map_of_mem he⟩
    obtain ⟨e, he, rfl⟩ := List.mem_map.mp hk
    exact hS.below s e he

theorem request (hS : Numbered S next) {s : σ} {entries : List (Nat × ν)}
    (h : Segment S next s entries) (r : ρ) : Segment S next (S.request s r) entries where
  sorted := h.sorted
  covers := by
    obtain ⟨bound, hbound, hlt, hmem⟩ := h.covers
    refine ⟨bound, Nat.le_trans hbound (hS.next_request s r), hlt, fun e he hb => ?_⟩
    rcases hS.fresh s r e he with hold | hnew
    · exact hmem e hold hb
    · omega

theorem pop (hS : Numbered S next) {s : σ} {entries : List (Nat × ν)}
    (h : Segment S next s entries) (k : Nat) : Segment S next (S.pop s k) entries where
  sorted := h.sorted
  covers := by
    obtain ⟨bound, hbound, hlt, hmem⟩ := h.covers
    refine ⟨bound, by rw [hS.next_pop]; exact hbound, hlt, fun e he hb => hmem e ?_ hb⟩
    rw [S.entries_pop] at he
    exact List.mem_of_mem_filter he

/-- The first entry of a segment is applied. -/
theorem tail (hS : Numbered S next) {s : σ} {e : Nat × ν} {rest : List (Nat × ν)}
    (h : Segment S next s (e :: rest)) : Segment S next (S.pop s e.1) rest where
  sorted := (List.pairwise_cons.mp h.sorted).2
  covers := by
    obtain ⟨bound, hbound, hlt, hmem⟩ := h.covers
    refine ⟨bound, by rw [hS.next_pop]; exact hbound,
      fun k hk => hlt k (List.mem_cons_of_mem _ hk), fun e' he' hb => ?_⟩
    rw [S.entries_pop, List.mem_filter] at he'
    rcases List.mem_cons.mp (hmem e' he'.1 hb) with heq | hrest
    · exact absurd heq (by simpa using he'.2)
    · exact hrest

/-- It comes before what stays in the store. -/
theorem head_lt {s : σ} {e : Nat × ν} {rest : List (Nat × ν)}
    (h : Segment S next s (e :: rest)) {e' : Nat × ν} (he' : e' ∈ S.entries (S.pop s e.1)) :
    e.1 < e'.1 := by
  obtain ⟨bound, -, hlt, hmem⟩ := h.covers
  rw [S.entries_pop, List.mem_filter] at he'
  by_cases hb : e'.1 < bound
  · rcases List.mem_cons.mp (hmem e' he'.1 hb) with heq | hrest
    · exact absurd heq (by simpa using he'.2)
    · exact (List.pairwise_cons.mp h.sorted).1 _ hrest
  · have := hlt e.1 List.mem_cons_self
    omega

end Segment

namespace Ordered

theorem empty (h : S.Empty d) : Ordered S next d where
  applied := by simp [appliedKeys, h.attempts]
  applied_lt := by simp [appliedKeys, h.attempts]
  staged_after := by simp [appliedKeys, h.attempts]
  copies := by simp [h.pending]
  running := by simp [h.running]

variable [DecidableEq α]

theorem submit (hS : Numbered S next) (h : Ordered S next d) (hfree : d.running = none) (r : ρ) :
    Ordered S next (S.submit d r) where
  applied := h.applied
  applied_lt := fun k hk => Nat.lt_of_lt_of_le (h.applied_lt k hk) (hS.next_request d.store r)
  staged_after := fun k hk e he => by
    rcases hS.fresh d.store r e he with hold | hnew
    · exact h.staged_after k hk e hold
    · exact Nat.lt_of_lt_of_le (h.applied_lt k hk) hnew
  copies := fun entries hmem => (h.copies entries hmem).request hS r
  running := by simp [Staging.submit, hfree]

/-- **A run applies its next entry**, which comes after all that were applied before. -/
theorem apply (hS : Numbered S next) (h : Ordered S next d) {e : Nat × ν}
    {rest : List (Nat × ν)} (hrunning : d.running = some (e :: rest))
    (hcurrent : S.Current d.store e) (a : ω) : Ordered S next { d with
      store := (S.attempt d.store e a).1
      running := if S.succeeds e a then some rest else none
      attempts := d.attempts ++ [(S.attempt d.store e a).2] } := by
  have hsegment := h.running _ hrunning
  cases hok : S.succeeds e a with
  | true =>
    have hstore : (S.attempt d.store e a).1 = S.pop d.store e.1 := if_pos hok
    have hkeys : appliedKeys (d.attempts ++ [(S.attempt d.store e a).2]) =
        appliedKeys d.attempts ++ [e.1] := by
      simp [appliedKeys, attempt, hok]
    obtain ⟨e', he', hkey, -⟩ := hcurrent
    have hlt := hS.below d.store e' he'
    rw [hkey] at hlt
    rw [hstore]
    exact
      { applied := by
          rw [hkeys]
          refine List.pairwise_append.mpr ⟨h.applied, List.pairwise_singleton _ _, ?_⟩
          intro k hk k' hk'
          rw [List.mem_singleton.mp hk', ← hkey]
          exact h.staged_after k hk e' he'
        applied_lt := fun k hk => by
          rw [hkeys, List.mem_append, List.mem_singleton] at hk
          simp only [hS.next_pop]
          rcases hk with hk | rfl
          · exact h.applied_lt k hk
          · exact hlt
        staged_after := fun k hk e'' he'' => by
          rw [hkeys, List.mem_append, List.mem_singleton] at hk
          rcases hk with hk | rfl
          · rw [S.entries_pop] at he''
            exact h.staged_after k hk e'' (List.mem_of_mem_filter he'')
          · exact hsegment.head_lt he''
        copies := fun entries hmem => (h.copies entries hmem).pop hS e.1
        running := fun entries heq => by
          obtain rfl := Option.some.inj heq
          exact hsegment.tail hS }
  | false =>
    have hstore : (S.attempt d.store e a).1 = d.store := if_neg (by simp [hok])
    have hkeys : appliedKeys (d.attempts ++ [(S.attempt d.store e a).2]) =
        appliedKeys d.attempts := by
      simp [appliedKeys, attempt, hok]
    rw [hstore]
    exact
      { applied := hkeys ▸ h.applied
        applied_lt := hkeys ▸ h.applied_lt
        staged_after := hkeys ▸ h.staged_after
        copies := h.copies
        running := fun entries heq => by cases heq }

theorem step (hS : Numbered S next) (h : Ordered S next d) (hsound : S.Sound d)
    {event : Event ρ ω} (hstep : S.step d event = some d') : Ordered S next d' := by
  cases S.step_cases hstep with
  | submit r hfree => exact h.submit hS hfree r
  | wait _ pending hpending =>
    refine { h with copies := fun entries hmem => ?_ }
    rcases hpending entries hmem with hold | rfl
    · exact h.copies entries hold
    · exact Segment.whole hS d.store
  | run i entries hpending =>
    exact
      { h with
        copies := fun entries hmem => h.copies entries (List.mem_of_mem_eraseIdx hmem)
        running := fun entries' heq => by
          obtain rfl := Option.some.inj heq
          exact h.copies _ (List.mem_of_getElem? hpending) }
  | finish a => exact { h with running := fun _ heq => by cases heq }
  | apply e rest a hrunning =>
    exact h.apply hS hrunning ((hsound.running _ hrunning).2 e List.mem_cons_self) a

end Ordered

end Numbered

end Staging

end SnapshotCommit
