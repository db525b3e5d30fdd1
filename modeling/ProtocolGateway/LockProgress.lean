import ProtocolGateway.BusLocking
import ProtocolGateway.Lib.LockOrder

/-!
# Calls that finish

The locks on a shared connection are taken in one order: the transport's, then a bus lock, then the
port lock, which is an `RLock` because the reads of an analysis take it once more. So no calls wait
for each other, whatever the threads call and however they interleave: as long as a call is not
done, some thread can go on, and the calls that have begun are done after finitely many steps
(`calls_finish`).
-/

namespace ProtocolGateway

namespace BusLocking

open Locks

/-! ## The order of the locks -/

/-- Transport locks come first, and port locks last. -/
def lockRank : LockName → Nat
  | .transport _ => 0
  | .bus _ => 1
  | .port _ => 2

theorem lockRank_le (l : LockName) : lockRank l ≤ 2 := by
  cases l with
  | transport i => exact Nat.zero_le 2
  | bus k => exact Nat.le_succ 1
  | port identifier => exact Nat.le_refl 2

/-- A program that takes its locks in order. -/
abbrev InOrder (p : Program) : Prop := Rising reentrant lockRank p

section Programs

variable {e : Endpoint} {i : Nat} {k l : LockName} {kind : Kind} {outcome : Outcome} {p : Program}

theorem acquire_mem_withLock :
    .acquire k ∈ withLock l p ↔ k = l ∨ .acquire k ∈ p := by
  simp [withLock]

theorem acquire_notMem_exchange : .acquire k ∉ exchange kind outcome := by
  cases outcome <;> simp [exchange]

/-- A register read takes the port lock if it takes one. -/
theorem acquire_mem_readRegisters (h : .acquire k ∈ readRegisters e kind outcome) :
    k = .port e.portIdentifier := by
  cases e with
  | rtu port baudrate => exact (acquire_mem_withLock.mp h).resolve_right acquire_notMem_exchange
  | tcp _ _ | other _ => exact absurd h acquire_notMem_exchange

/-- A block read takes no transport lock. -/
theorem rank_pos_readBlock {b : Block} (h : .acquire k ∈ readBlock e b) : 0 < lockRank k := by
  have hread {k : LockName} (h : .acquire k ∈ readRegisters e .read b.outcome) :
      0 < lockRank k := by
    rw [acquire_mem_readRegisters h]
    exact Nat.two_pos
  unfold readBlock withBus at h
  split at h
  · rcases acquire_mem_withLock.mp h with rfl | h
    · exact Nat.one_pos
    · exact hread h
  · exact hread h

theorem rank_pos_readBlocks {blocks : List Block}
    (h : .acquire k ∈ blocks.flatMap (readBlock e)) : 0 < lockRank k := by
  obtain ⟨b, -, hb⟩ := List.mem_flatMap.mp h
  exact rank_pos_readBlock hb

theorem rank_pos_writeVariable {w : List Block × Bool} (h : .acquire k ∈ writeVariable e w) :
    0 < lockRank k := by
  rcases List.mem_append.mp h with h | h
  · exact rank_pos_readBlocks h
  · split at h
    · obtain rfl := (acquire_mem_withLock.mp h).resolve_right acquire_notMem_exchange
      exact Nat.two_pos
    · cases h

theorem exchange_inOrder : InOrder (exchange kind outcome) :=
  .of_no_acquire fun _ => acquire_notMem_exchange

theorem readRegisters_inOrder : InOrder (readRegisters e kind outcome) := by
  cases e with
  | rtu port baudrate =>
    exact .wrap exchange_balanced exchange_inOrder fun _ hk => absurd hk acquire_notMem_exchange
  | tcp _ _ | other _ => exact exchange_inOrder

theorem readBlock_inOrder {b : Block} : InOrder (readBlock e b) := by
  unfold readBlock withBus
  split
  · refine .wrap readRegisters_balanced readRegisters_inOrder fun k hk => Or.inl ?_
    rw [acquire_mem_readRegisters hk]
    exact Nat.one_lt_two
  · exact readRegisters_inOrder

theorem readBlocks_inOrder {blocks : List Block} : InOrder (blocks.flatMap (readBlock e)) :=
  .flatMap (fun _ _ => readBlock_inOrder) fun _ _ => readBlock_balanced

theorem writeRegisters_inOrder : InOrder (writeRegisters e) :=
  .wrap exchange_balanced exchange_inOrder fun _ hk => absurd hk acquire_notMem_exchange

theorem writeVariable_inOrder {w : List Block × Bool} : InOrder (writeVariable e w) := by
  unfold writeVariable
  split
  · exact readBlocks_inOrder.append writeRegisters_inOrder writeRegisters_balanced
  · exact readBlocks_inOrder.append trivial .nil

/-- What takes no transport lock may be done inside one. -/
theorem withTransport_inOrder (hb : Balanced p) (hp : InOrder p)
    (hrank : ∀ k, .acquire k ∈ p → 0 < lockRank k) : InOrder (withLock (.transport i) p) :=
  .wrap hb hp fun k hk => Or.inl (hrank k hk)

/-- **Every call takes its locks in order.** -/
theorem program_inOrder (call : Call) : InOrder (call.program e i) := by
  cases call with
  | readData blocks =>
    exact withTransport_inOrder readBlocks_balanced readBlocks_inOrder
      fun _ => rank_pos_readBlocks
  | readDataIter blocks => exact readBlocks_inOrder
  | writeData writes =>
    refine withTransport_inOrder (.flatMap fun _ _ => writeVariable_balanced)
      (.flatMap (fun _ _ => writeVariable_inOrder) fun _ _ => writeVariable_balanced) fun k hk => ?_
    obtain ⟨w, -, hw⟩ := List.mem_flatMap.mp hk
    exact rank_pos_writeVariable hw
  | connect opened init =>
    show InOrder (if opened then .act .drain :: initAfterConnect e i init else [])
    split
    · cases init with
      | none => trivial
      | some blocks =>
        exact withTransport_inOrder readBlocks_balanced readBlocks_inOrder
          fun _ => rank_pos_readBlocks
    · trivial
  | analyze bus reads =>
    have hbalanced : Balanced (reads.flatMap (readRegisters e .analysis)) :=
      .flatMap fun _ _ => readRegisters_balanced
    -- the reads take the port lock again
    have hport : InOrder (withLock (.port e.portIdentifier)
        (reads.flatMap (readRegisters e .analysis))) := by
      refine .wrap hbalanced (.flatMap (fun _ _ => readRegisters_inOrder)
        fun _ _ => readRegisters_balanced) fun k hk => Or.inr ?_
      obtain ⟨outcome, -, hread⟩ := List.mem_flatMap.mp hk
      obtain rfl := acquire_mem_readRegisters hread
      exact ⟨rfl, rfl⟩
    have hrank {k : LockName} (hk : .acquire k ∈ withLock (.port e.portIdentifier)
        (reads.flatMap (readRegisters e .analysis))) : k = .port e.portIdentifier := by
      rcases acquire_mem_withLock.mp hk with hk | hk
      · exact hk
      · obtain ⟨outcome, -, hread⟩ := List.mem_flatMap.mp hk
        exact acquire_mem_readRegisters hread
    refine withTransport_inOrder (withBus_balanced (hbalanced.wrap _)) ?_ fun k hk => ?_
    · unfold withBus
      split
      · refine .wrap (hbalanced.wrap _) hport fun k hk => Or.inl ?_
        rw [hrank hk]
        exact Nat.one_lt_two
      · exact hport
    · unfold withBus at hk
      split at hk
      · rcases acquire_mem_withLock.mp hk with rfl | hk
        · exact Nat.one_pos
        · rw [hrank hk]
          exact Nat.two_pos
      · rw [hrank hk]
        exact Nat.two_pos

end Programs

/-! ## Runs -/

section Runs

variable {cfg : Config} {s s' s'' : State} {t : Nat} {l : Label}

/-- What the locks are like in a run: the threads are in calls that take them in order, and only
finitely many threads have begun one. -/
structure Orderly (cfg : Config) (s : State) : Prop where
  fits : Fits cfg s
  positive : Positive s.owners
  busy : ∃ busy : Finset Nat, ∀ t, (s.threads t).rest ≠ [] → t ∈ busy

/-- A thread is in a call, or has nothing to do. -/
theorem InCall.suffix {th : Thread} (h : InCall cfg th) :
    th.rest = [] ∨ ∃ e call, th.rest <:+ Call.program e th.transport call := by
  rcases h with ⟨-, h⟩ | ⟨e, call, -, h⟩
  · exact Or.inl h
  · exact Or.inr ⟨e, call, th.done.reverse, h.symm⟩

theorem InCall.inOrder {th : Thread} (h : InCall cfg th) : InOrder th.rest := by
  rcases h.suffix with h | ⟨e, call, h⟩
  · rw [h]
    trivial
  · exact (program_inOrder call).suffix h

/-- What is left of a call leaves no lock it has not taken. -/
theorem InCall.net_nonneg {th : Thread} (h : InCall cfg th) (k : LockName) (q : Program)
    (hq : q <:+ th.rest) : 0 ≤ net k q := by
  rcases h.suffix with h | ⟨e, call, h⟩
  · have hnil : q <:+ [] := h ▸ hq
    rw [List.suffix_nil.mp hnil]
    exact Int.le_refl 0
  · exact (program_balanced call).suffix k q (hq.trans h)

/-- The threads with something to do after a change of one of them. -/
theorem busy_set {busy : Finset Nat} {th : Thread} (h : ∀ u, (s.threads u).rest ≠ [] → u ∈ busy)
    (u : Nat) (hu : (s.set t th u).rest ≠ []) : u ∈ insert t busy := by
  by_cases heq : u = t
  · exact heq ▸ Finset.mem_insert_self _ _
  · rw [set_other heq] at hu
    exact Finset.mem_insert_of_mem (h u hu)

theorem Orderly.step (h : Orderly cfg s) (hs : Step cfg s l s') : Orderly cfg s' := by
  obtain ⟨busy, hbusy⟩ := h.busy
  have hfits := fits_step h.fits hs
  cases hs with
  | start _ _ => exact ⟨hfits, h.positive, _, busy_set hbusy⟩
  | acquire _ free => exact ⟨hfits, h.positive.of_acquire free, _, busy_set hbusy⟩
  | release _ owned => exact ⟨hfits, h.positive.of_release owned, _, busy_set hbusy⟩
  | act _ => exact ⟨hfits, h.positive, _, busy_set hbusy⟩

theorem orderly_of_reachable (h : Runs.Reachable (system cfg) s) : Orderly cfg s := by
  refine h.invariant (fun s h0 => ⟨fits_idle h0, fun l t n ho => ?_, ∅, fun t ht => ?_⟩)
    fun _ _ _ _ ih _ hs => ih.step hs
  · rw [h0.owners l] at ho
    cases ho
  · exact absurd (h0.threads t).2 ht

/-- A thread that is ready takes its step. -/
theorem step_of_ready (h : Ready reentrant s.owners t (s.threads t).rest) :
    ∃ s', Step cfg s (.step t) s' := by
  obtain ⟨i, d, r, hth⟩ : ∃ i d r, s.threads t = ⟨i, d, r⟩ := ⟨_, _, _, rfl⟩
  rw [hth] at h
  cases r with
  | nil => exact h.elim
  | cons a r =>
    cases a with
    | acquire l =>
      obtain ⟨o, ho⟩ := h
      exact ⟨_, .acquire hth ho⟩
    | release l =>
      obtain ⟨o, ho⟩ := h
      exact ⟨_, .release hth ho⟩
    | act a => exact ⟨_, .act hth⟩

/-- **No deadlock.** As long as a call is not done, some thread can go on. -/
theorem Orderly.exists_step (h : Orderly cfg s) (hbusy : (s.threads t).rest ≠ []) :
    ∃ u s', Step cfg s (.step u) s' := by
  obtain ⟨u, hu⟩ := exists_ready h.fits.held h.positive (fun t => (h.fits.inCall t).inOrder)
    (fun t => (h.fits.inCall t).net_nonneg) lockRank_le hbusy
  obtain ⟨s', hs⟩ : ∃ s', Step cfg s (.step u) s' := step_of_ready hu
  exact ⟨u, s', hs⟩

/-- A step of a thread is one action of its call. -/
theorem rest_of_step (hs : Step cfg s (.step t) s') :
    (s'.threads t).rest.length + 1 = (s.threads t).rest.length ∧
      ∀ u, u ≠ t → (s'.threads u).rest = (s.threads u).rest := by
  cases hs with
  | acquire hth _ | release hth _ | act hth =>
    refine ⟨?_, fun u hu => rest_set_other u hu⟩
    rw [hth, show (s.set t _ t).rest = _ from congrArg Thread.rest set_self]
    rfl

/-- Steps of threads that begin no calls, one after the other. -/
inductive Schedule (cfg : Config) : State → List Nat → State → Prop
  | nil {s : State} : Schedule cfg s [] s
  | cons {s s' s'' : State} {t : Nat} {ts : List Nat} :
      Step cfg s (.step t) s' → Schedule cfg s' ts s'' → Schedule cfg s (t :: ts) s''

/-- Each step of a schedule is a step less to do. -/
theorem Schedule.work_eq {busy : Finset Nat} {ts : List Nat} (h : Schedule cfg s ts s')
    (hbusy : ∀ t, (s.threads t).rest ≠ [] → t ∈ busy) :
    work busy (fun t => (s'.threads t).rest) + ts.length =
      work busy fun t => (s.threads t).rest := by
  induction h with
  | nil => rfl
  | @cons s s' s'' t ts hs _ ih =>
    obtain ⟨hself, hothers⟩ := rest_of_step hs
    have ht : t ∈ busy := hbusy t fun hnil => by simp [hnil] at hself
    have hstep : work busy (fun t => (s'.threads t).rest) + 1 =
        work busy fun t => (s.threads t).rest := work_step ht hothers hself
    have hrest := ih fun u hu => by
      by_cases heq : u = t
      · exact heq ▸ ht
      · exact hbusy u (hothers u heq ▸ hu)
    rw [List.length_cons]
    omega

theorem Schedule.orderly {ts : List Nat} (h : Schedule cfg s ts s') (hs : Orderly cfg s) :
    Orderly cfg s' := by
  induction h with
  | nil => exact hs
  | cons hstep _ ih => exact ih (hs.step hstep)

/-- **Every call finishes.** From every state of every run, the threads that have begun calls take
finitely many steps, in whatever order; and where none can take another, every call is done and
every lock is free. -/
theorem calls_finish (h : Runs.Reachable (system cfg) s) :
    ∃ n, ∀ ts s', Schedule cfg s ts s' → ts.length ≤ n ∧
      ((∃ t s'', Step cfg s' (.step t) s'') ∨
        (∀ t, (s'.threads t).rest = []) ∧ ∀ l, s'.owners l = none) := by
  have horderly := orderly_of_reachable h
  obtain ⟨busy, hbusy⟩ := horderly.busy
  refine ⟨work busy fun t => (s.threads t).rest, fun ts s' hschedule => ⟨?_, ?_⟩⟩
  · have := hschedule.work_eq hbusy
    omega
  · have horderly' := hschedule.orderly horderly
    by_cases hidle : ∀ t, (s'.threads t).rest = []
    · refine Or.inr ⟨hidle, fun l => ?_⟩
      cases ho : s'.owners l with
      | none => rfl
      | some owner =>
        obtain ⟨t, n⟩ := owner
        have hn := horderly'.positive l t n ho
        have hheld : (depth s'.owners t l : Int) = net l (s'.threads t).rest :=
          horderly'.fits.held t l
        rw [hidle t, net_nil] at hheld
        simp only [depth, ho, if_true] at hheld
        omega
    · rw [not_forall] at hidle
      obtain ⟨t, ht⟩ := hidle
      exact Or.inl (horderly'.exists_step ht)

/-- A thread has begun an analysis of a serial transport. -/
def exampleAnalysis : State where
  owners _ := none
  threads := exampleIdle.set 0
    ⟨0, [], (Call.analyze (some 0) [.answered]).program (.rtu "p" 9600) 0⟩

/-- The analysis finishes, though its read takes the port lock a second time. -/
theorem analysis_finishes : ∃ n, ∀ ts s',
    Schedule [.rtu "p" 9600, .rtu "p" 9600] exampleAnalysis ts s' → ts.length ≤ n ∧
      ((∃ t s'', Step [.rtu "p" 9600, .rtu "p" 9600] s' (.step t) s'') ∨
        (∀ t, (s'.threads t).rest = []) ∧ ∀ l, s'.owners l = none) := by
  have h0 : Runs.Reachable (system [.rtu "p" 9600, .rtu "p" 9600]) exampleIdle :=
    .init ⟨fun _ => rfl, fun _ => ⟨rfl, rfl⟩⟩
  have hstart : (system [.rtu "p" 9600, .rtu "p" 9600]).step exampleIdle
      (.start 0 0 (.analyze (some 0) [.answered])) exampleAnalysis := .start rfl rfl
  exact calls_finish (h0.step trivial hstart)

end Runs

end BusLocking

end ProtocolGateway
