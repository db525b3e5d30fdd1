import ProtocolGateway.Timescale.RebuildCompression

/-!
# The jobs of a rebuild

A rebuild pauses the compression jobs of each table that it visits, and resumes them before it
leaves the table. Each time the jobs of the table are altered in one transaction, where the failures
of single jobs are caught: if one job fails to resume, the jobs that were resumed before it are
paused again by the rollback.

* `visited_eq` — what a visit leaves of the jobs.
* `visited_jobsAfter` — what several visits leave of them.
-/

namespace ProtocolGateway

namespace Timescale

namespace Compression

/-! ## One visit -/

variable {faults : Faults} {jobs : List JobRow}

theorem any_alterJobs (fails : Nat → Bool) (scheduled : Bool) (jobIds : List Nat) :
    (alterJobs fails scheduled jobIds).any Statement.fails = jobIds.any fails := by
  rw [alterJobs, List.any_map]
  rfl

theorem effects_alterJobs (fails : Nat → Bool) (scheduled : Bool) (jobIds : List Nat)
    (jobs : List JobRow) :
    Transaction.effects (alterJobs fails scheduled jobIds) jobs =
      jobs.map fun job =>
        if job.jobId ∈ jobIds then { job with scheduled := scheduled } else job := by
  induction jobIds generalizing jobs with
  | nil => simp [Transaction.effects, alterJobs]
  | cons jobId rest ih =>
    rw [alterJobs, List.map_cons, Transaction.effects, List.foldl_cons, ← Transaction.effects,
      ← alterJobs, ih]
    show List.map _ (List.map _ jobs) = _
    rw [List.map_map]
    refine List.map_congr_left fun job _ => ?_
    by_cases hhead : job.jobId = jobId
    · simp [hhead]
    · simp [hhead]

/-- A scheduled compression job is found by its number. -/
theorem jobId_mem_compressionJobs (hjobs : (jobs.map JobRow.jobId).Nodup) {tableName : List Char}
    {job : JobRow} (hjob : job ∈ jobs) :
    job.jobId ∈ (compressionJobs tableName jobs).map JobRow.jobId ↔
      job ∈ compressionJobs tableName jobs := by
  constructor
  · intro h
    obtain ⟨job', hjob', hid⟩ := List.mem_map.mp h
    have hsame := List.inj_on_of_nodup_map hjobs (List.mem_filter.mp hjob').1 hjob hid
    exact hsame ▸ hjob'
  · exact List.mem_map_of_mem

/-- What a visit of a table leaves of the jobs: they are paused, and resumed if any was. -/
def visited (faults : Faults) (tableName : List Char) (jobs : List JobRow) : List JobRow :=
  let paused := pauseCompressionJobForTable faults tableName (.fresh jobs)
  if paused.2.isEmpty then paused.1.commit
  else (resumeCompressionJobForTable faults paused.2 (.fresh paused.1.commit)).commit

/-- The jobs of a table are all paused, and one of them fails to resume. -/
def Strands (faults : Faults) (tableName : List Char) (jobs : List JobRow) : Prop :=
  (∀ job ∈ compressionJobs tableName jobs, faults.pause job.jobId = false) ∧
    ∃ job ∈ compressionJobs tableName jobs, faults.resume job.jobId = true

instance (faults : Faults) (tableName : List Char) (jobs : List JobRow) :
    Decidable (Strands faults tableName jobs) := by
  unfold Strands
  infer_instance

/-- The jobs with some of them unscheduled. -/
def unscheduled (lost : List JobRow) (jobs : List JobRow) : List JobRow :=
  jobs.map fun job => if job ∈ lost then { job with scheduled := false } else job

/-- The jobs of a table are paused together or not at all. -/
theorem pause_spec (hjobs : (jobs.map JobRow.jobId).Nodup) (tableName : List Char) :
    (pauseCompressionJobForTable faults tableName (.fresh jobs)).2 =
        (if ((compressionJobs tableName jobs).map JobRow.jobId).any faults.pause then []
          else (compressionJobs tableName jobs).map JobRow.jobId) ∧
      (pauseCompressionJobForTable faults tableName (.fresh jobs)).1.commit =
        if ((compressionJobs tableName jobs).map JobRow.jobId).any faults.pause then jobs
        else unscheduled (compressionJobs tableName jobs) jobs := by
  have haborted := Transaction.aborted_untilFailure jobs
    (alterJobs faults.pause false ((compressionJobs tableName jobs).map JobRow.jobId))
  have hcommit := Transaction.commit_untilFailure jobs
    (alterJobs faults.pause false ((compressionJobs tableName jobs).map JobRow.jobId))
  -- the rows that an update finds by their numbers are the jobs that the query found
  have hfound : (jobs.map fun job =>
      if job.jobId ∈ (compressionJobs tableName jobs).map JobRow.jobId then
        { job with scheduled := false }
      else job) = unscheduled (compressionJobs tableName jobs) jobs :=
    List.map_congr_left fun job hjob => if_congr (jobId_mem_compressionJobs hjobs hjob) rfl rfl
  rw [any_alterJobs] at haborted
  rw [any_alterJobs, effects_alterJobs, hfound] at hcommit
  rw [← haborted] at hcommit ⊢
  rw [← hcommit]
  have hpause : pauseCompressionJobForTable faults tableName (.fresh jobs) =
      if ((Transaction.fresh jobs).untilFailure (alterJobs faults.pause false
          ((compressionJobs tableName jobs).map JobRow.jobId))).aborted then
        ((Transaction.fresh jobs).untilFailure (alterJobs faults.pause false
          ((compressionJobs tableName jobs).map JobRow.jobId)), [])
      else
        ((Transaction.fresh jobs).untilFailure (alterJobs faults.pause false
          ((compressionJobs tableName jobs).map JobRow.jobId)),
          (compressionJobs tableName jobs).map JobRow.jobId) := rfl
  rw [hpause]
  split
  · exact ⟨rfl, rfl⟩
  · exact ⟨rfl, rfl⟩

/-- The jobs that were paused are scheduled again. -/
theorem alterJobs_unscheduled (hjobs : (jobs.map JobRow.jobId).Nodup) (tableName : List Char) :
    ((unscheduled (compressionJobs tableName jobs) jobs).map fun job =>
      if job.jobId ∈ (compressionJobs tableName jobs).map JobRow.jobId then
        { job with scheduled := true }
      else job) = jobs := by
  rw [unscheduled, List.map_map]
  conv_rhs => rw [← List.map_id jobs]
  refine List.map_congr_left fun job hjob => ?_
  have hfound := @jobId_mem_compressionJobs _ hjobs tableName job hjob
  by_cases hpaused : job ∈ compressionJobs tableName jobs
  · have hscheduled : job.scheduled = true := by
      have htest := (List.mem_filter.mp hpaused).2
      rw [Bool.and_eq_true] at htest
      exact htest.2
    rw [Function.comp, if_pos hpaused]
    exact (if_pos (hfound.mpr hpaused)).trans (by rw [← hscheduled]; rfl)
  · rw [Function.comp, if_neg hpaused]
    exact if_neg (mt hfound.mp hpaused)

/-- A visit of a table unschedules its jobs for good if it strands them. -/
theorem visited_eq (hjobs : (jobs.map JobRow.jobId).Nodup) (tableName : List Char) :
    visited faults tableName jobs =
      if Strands faults tableName jobs then
        unscheduled (compressionJobs tableName jobs) jobs
      else jobs := by
  have hmem (f : Nat → Bool) : ((compressionJobs tableName jobs).map JobRow.jobId).any f = true ↔
      ∃ job ∈ compressionJobs tableName jobs, f job.jobId = true := by
    rw [List.any_map, List.any_eq_true]
    rfl
  obtain ⟨hids, hcommit⟩ := @pause_spec faults jobs hjobs tableName
  cases hpause : ((compressionJobs tableName jobs).map JobRow.jobId).any faults.pause with
  | true =>
    obtain ⟨job, hjob, hfails⟩ := (hmem _).mp hpause
    have hnot : ¬ Strands faults tableName jobs := by
      intro h
      rw [h.1 job hjob] at hfails
      cases hfails
    rw [hpause, if_pos rfl] at hids hcommit
    rw [visited, hids, if_pos (show List.isEmpty [] = true from rfl), hcommit, if_neg hnot]
  | false =>
    have hpaused : ∀ job ∈ compressionJobs tableName jobs, faults.pause job.jobId = false := by
      intro job hjob
      by_contra hfails
      rw [(hmem _).mpr ⟨job, hjob, Bool.eq_true_of_not_eq_false hfails⟩] at hpause
      cases hpause
    rw [hpause, if_neg Bool.false_ne_true] at hids hcommit
    have hresume := Transaction.commit_catching
      (unscheduled (compressionJobs tableName jobs) jobs)
      (alterJobs faults.resume true ((compressionJobs tableName jobs).map JobRow.jobId))
    rw [any_alterJobs, effects_alterJobs, alterJobs_unscheduled hjobs] at hresume
    have hvisited : visited faults tableName jobs = (resumeCompressionJobForTable faults
        ((compressionJobs tableName jobs).map JobRow.jobId)
        (.fresh (unscheduled (compressionJobs tableName jobs) jobs))).commit := by
      rw [visited, hids, hcommit]
      -- without jobs there is nothing to resume
      cases hjobs' : compressionJobs tableName jobs with
      | nil => rfl
      | cons job rest => rfl
    rw [hvisited]
    refine hresume.trans (if_congr ?_ rfl rfl)
    rw [hmem]
    exact (and_iff_right hpaused).symm

/-! ## Several visits -/

/-- The compression jobs that visits of these tables unschedule for good. -/
def lostJobs (faults : Faults) (jobs : List JobRow) (tableNames : List (List Char)) :
    List JobRow :=
  jobs.filter fun job => tableNames.contains job.hypertableName &&
    decide (job ∈ compressionJobs job.hypertableName jobs ∧ Strands faults job.hypertableName jobs)

/-- The jobs after visits of these tables. -/
def jobsAfter (faults : Faults) (jobs : List JobRow) (tableNames : List (List Char)) :
    List JobRow :=
  unscheduled (lostJobs faults jobs tableNames) jobs

theorem mem_compressionJobs {tableName : List Char} {job : JobRow} :
    job ∈ compressionJobs tableName jobs ↔ job ∈ jobs ∧ job.hypertableName = tableName ∧
      "compress".toList <:+: lowerText job.procName ∧ job.scheduled = true := by
  rw [compressionJobs, List.mem_filter, Bool.and_eq_true, Bool.and_eq_true, beq_iff_eq,
    decide_eq_true_eq, and_assoc]

theorem mem_lostJobs {tableNames : List (List Char)} {job : JobRow} :
    job ∈ lostJobs faults jobs tableNames ↔ job.hypertableName ∈ tableNames ∧
      job ∈ compressionJobs job.hypertableName jobs ∧
        Strands faults job.hypertableName jobs := by
  rw [lostJobs, List.mem_filter, Bool.and_eq_true, List.contains_iff_mem, decide_eq_true_eq]
  exact and_iff_right_of_imp fun h => (mem_compressionJobs.mp h.2.1).1

theorem jobIds_unscheduled (lost jobs : List JobRow) :
    (unscheduled lost jobs).map JobRow.jobId = jobs.map JobRow.jobId := by
  rw [unscheduled, List.map_map]
  refine List.map_congr_left fun job _ => ?_
  rw [Function.comp]
  split <;> rfl

/-- Unscheduled jobs are not looked for. -/
theorem compressionJobs_unscheduled (tableName : List Char) (lost jobs : List JobRow) :
    compressionJobs tableName (unscheduled lost jobs) =
      (compressionJobs tableName jobs).filter fun job => decide (job ∉ lost) := by
  induction jobs with
  | nil => rfl
  | cons job rest ih =>
    rw [unscheduled, List.map_cons, ← unscheduled, compressionJobs, List.filter_cons,
      ← compressionJobs, ih, compressionJobs, compressionJobs, List.filter_cons]
    by_cases hlost : job ∈ lost
    · rw [if_pos hlost, Bool.and_false, if_neg Bool.false_ne_true]
      split
      · rw [List.filter_cons_of_neg (by rw [decide_eq_true_eq]; exact not_not_intro hlost)]
      · rfl
    · rw [if_neg hlost]
      split
      · rw [List.filter_cons_of_pos (by rw [decide_eq_true_eq]; exact hlost)]
      · rfl

/-- The scheduled compression jobs of a table after visits: none if the table was visited and its
jobs were stranded. -/
theorem compressionJobs_jobsAfter (tableNames : List (List Char)) (tableName : List Char) :
    compressionJobs tableName (jobsAfter faults jobs tableNames) =
      if tableName ∈ tableNames ∧ Strands faults tableName jobs then []
      else compressionJobs tableName jobs := by
  have hlost : ∀ job ∈ compressionJobs tableName jobs,
      (job ∈ lostJobs faults jobs tableNames ↔
        tableName ∈ tableNames ∧ Strands faults tableName jobs) := by
    intro job hjob
    obtain ⟨-, rfl, -⟩ := mem_compressionJobs.mp hjob
    rw [mem_lostJobs, and_iff_right hjob]
  rw [jobsAfter, compressionJobs_unscheduled]
  split
  · next h =>
    refine List.filter_eq_nil_iff.mpr fun job hjob => ?_
    rw [decide_eq_true_eq]
    exact not_not_intro ((hlost job hjob).mpr h)
  · next h =>
    refine List.filter_eq_self.mpr fun job hjob => ?_
    rw [decide_eq_true_eq]
    exact mt (hlost job hjob).mp h

theorem jobsAfter_nil (faults : Faults) (jobs : List JobRow) : jobsAfter faults jobs [] = jobs := by
  have hlost : lostJobs faults jobs [] = [] :=
    List.eq_nil_iff_forall_not_mem.mpr fun job h => List.not_mem_nil (mem_lostJobs.mp h).1
  rw [jobsAfter, hlost, unscheduled]
  simp

/-- A scheduled job stays scheduled unless it is lost. -/
theorem mem_jobsAfter {tableNames : List (List Char)} {job : JobRow} (hjob : job ∈ jobs)
    (hscheduled : job.scheduled = true) :
    job ∈ jobsAfter faults jobs tableNames ↔ job ∉ lostJobs faults jobs tableNames := by
  rw [jobsAfter, unscheduled, List.mem_map]
  constructor
  · rintro ⟨job', -, heq⟩ hlost
    split at heq
    · rw [← heq] at hscheduled
      cases hscheduled
    · next hkept => exact hkept (heq ▸ hlost)
  · intro hkept
    exact ⟨job, hjob, if_neg hkept⟩

/-- Another visit unschedules the jobs of its table as well. -/
theorem unscheduled_compressionJobs {tableNames : List (List Char)} {tableName : List Char}
    (h : Strands faults tableName jobs) :
    unscheduled (compressionJobs tableName jobs) (jobsAfter faults jobs tableNames) =
      jobsAfter faults jobs (tableNames ++ [tableName]) := by
  rw [jobsAfter, unscheduled, unscheduled, List.map_map, jobsAfter, unscheduled]
  refine List.map_congr_left fun job hjob => ?_
  rw [Function.comp]
  by_cases hlost : job ∈ lostJobs faults jobs tableNames
  · obtain ⟨hvisited, hrest⟩ := mem_lostJobs.mp hlost
    rw [if_pos hlost, if_pos (mem_lostJobs.mpr ⟨List.mem_append_left _ hvisited, hrest⟩)]
    refine if_neg fun hfound => ?_
    cases (mem_compressionJobs.mp hfound).2.2.2
  · rw [if_neg hlost]
    refine if_congr ?_ rfl rfl
    rw [mem_lostJobs, List.mem_append, List.mem_singleton]
    constructor
    · intro hfound
      obtain ⟨-, rfl, -⟩ := mem_compressionJobs.mp hfound
      exact ⟨Or.inr rfl, hfound, h⟩
    · rintro ⟨hvisited | rfl, hfound, hstrands⟩
      · exact absurd (mem_lostJobs.mpr ⟨hvisited, hfound, hstrands⟩) hlost
      · exact hfound

/-- **Visits of tables.** What a visit leaves after other visits. -/
theorem visited_jobsAfter (hjobs : (jobs.map JobRow.jobId).Nodup)
    (tableNames : List (List Char)) (tableName : List Char) :
    visited faults tableName (jobsAfter faults jobs tableNames) =
      jobsAfter faults jobs (tableNames ++ [tableName]) := by
  have hids : ((jobsAfter faults jobs tableNames).map JobRow.jobId).Nodup := by
    rw [jobsAfter, jobIds_unscheduled]
    exact hjobs
  have hfound := @compressionJobs_jobsAfter faults jobs tableNames tableName
  rw [visited_eq hids]
  -- a visit that strands nothing new loses no job
  have hsame (hnew : Strands faults tableName jobs → tableName ∈ tableNames) :
      jobsAfter faults jobs tableNames = jobsAfter faults jobs (tableNames ++ [tableName]) := by
    have hlost : lostJobs faults jobs tableNames =
        lostJobs faults jobs (tableNames ++ [tableName]) := by
      refine List.filter_congr fun job _ => ?_
      rw [Bool.eq_iff_iff, Bool.and_eq_true, Bool.and_eq_true, List.contains_iff_mem,
        List.contains_iff_mem, List.mem_append, List.mem_singleton, decide_eq_true_eq]
      refine and_congr_left fun hrest => (or_iff_left_of_imp ?_).symm
      intro hname
      rw [hname] at hrest ⊢
      exact hnew hrest.2
    rw [jobsAfter, hlost, jobsAfter]
  by_cases hagain : tableName ∈ tableNames ∧ Strands faults tableName jobs
  · rw [if_pos hagain] at hfound
    have hnot : ¬ Strands faults tableName (jobsAfter faults jobs tableNames) := by
      rintro ⟨-, job, hjob, -⟩
      rw [hfound] at hjob
      cases hjob
    rw [if_neg hnot]
    exact hsame fun _ => hagain.1
  · rw [if_neg hagain] at hfound
    have hstrands : Strands faults tableName (jobsAfter faults jobs tableNames) ↔
        Strands faults tableName jobs := by
      unfold Strands
      rw [hfound]
    rw [hfound, if_congr hstrands rfl rfl]
    split
    · next h => exact unscheduled_compressionJobs h
    · next h => exact hsame fun hstrands => absurd hstrands h

end Compression

end Timescale

end ProtocolGateway
