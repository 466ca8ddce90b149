import JanusGraph.Queue.Overlap

/-!
# The soft deadline of a sweep

`_safe_process` looks at the deadline when its task first runs, and then waits for the
semaphore; it does not look again. The tasks of a batch run at once, so the records that wait
have all passed the check, and start whenever a permit comes to them. The deadline is kept
exactly when the whole batch fits into it.

Instants are counted from `start_time`, in microseconds.
-/

namespace JanusGraph

/-- A claimed record and its task. -/
structure SweepTask : Type where
  id : String
  /-- when the task first runs, and looks at the deadline -/
  checkedAt : ℕ
  /-- how long `process_record` takes -/
  duration : ℕ

/-- The tasks of a claimed batch; they first run in the order of the batch. -/
structure SweepBatch : Type where
  tasks : List SweepTask
  ordered : (tasks.map SweepTask.checkedAt).Pairwise (· ≤ ·)

/-- What becomes of a record. -/
inductive TaskOutcome : Type where
  /-- the call that defers it -/
  | deferred (op : Op)
  /-- `process_record` has it from one instant to another -/
  | processed (id : String) (start finish : ℕ)
  /-- no permit ever comes to it -/
  | waiting

/-- `_safe_process` of the tasks, given when the permits become free, the earliest first. -/
def safeProcess (timeout : ℕ) : List ℕ → List SweepTask → List TaskOutcome
  | _, [] => []
  | frees, task :: tasks =>
    if timeout < task.checkedAt then
      .deferred (.markFailed task.id "Sweep soft timeout exceeded") ::
        safeProcess timeout frees tasks
    else
      match frees with
      | [] => .waiting :: safeProcess timeout [] tasks
      | free :: frees =>
        let start := max task.checkedAt free
        .processed task.id start (start + task.duration) ::
          safeProcess timeout (frees.orderedInsert (· ≤ ·) (start + task.duration)) tasks

/-- The part of `run_cron_sweep` after the claim. -/
def processBatch (defaults : CronDefaults) (settings : CronSettings) (args : CronArgs)
    (batch : SweepBatch) : List TaskOutcome :=
  safeProcess (actualSweepTimeout defaults settings args)
    (List.replicate (actualConcurrency defaults settings args) 0) batch.tasks

/-- A record starts by the sweep timeout, or is deferred. -/
def SweepTask.Kept (timeout : ℕ) (task : SweepTask) : TaskOutcome → Prop
  | .deferred op => op = .markFailed task.id "Sweep soft timeout exceeded"
  | .processed id start _ => id = task.id ∧ start ≤ timeout
  | .waiting => False

/-- No record of the batch starts after the sweep timeout, and those that do not start are
deferred. -/
def DeadlineKept (defaults : CronDefaults) (settings : CronSettings) (args : CronArgs)
    (batch : SweepBatch) : Prop :=
  List.Forall₂ (SweepTask.Kept (actualSweepTimeout defaults settings args)) batch.tasks
    (processBatch defaults settings args batch)

/-- The records whose tasks pass the check, with what they take. -/
def SweepBatch.jobs (batch : SweepBatch) (timeout : ℕ) : List (ℕ × ℕ) :=
  (batch.tasks.filter fun task => task.checkedAt ≤ timeout).map fun task =>
    (task.checkedAt, task.duration)

/-- The records that pass the check are served by the semaphore. -/
theorem forall₂_safeProcess {timeout : ℕ} {frees : List ℕ} {tasks : List SweepTask}
    (hfrees : frees ≠ []) :
    List.Forall₂ (SweepTask.Kept timeout) tasks (safeProcess timeout frees tasks) ↔
      ∀ s ∈ Semaphore.served frees ((tasks.filter fun task => task.checkedAt ≤ timeout).map
        fun task => (task.checkedAt, task.duration)), s.1 ≤ timeout := by
  induction tasks generalizing frees with
  | nil =>
    refine iff_of_true List.Forall₂.nil ?_
    cases frees <;> exact fun s hs => nomatch hs
  | cons task tasks ih =>
    match frees, hfrees with
    | free :: frees, hfrees =>
      rw [safeProcess]
      by_cases hlate : timeout < task.checkedAt
      · rw [if_pos hlate, List.forall₂_cons, ih hfrees,
          List.filter_cons_of_neg (by simpa using hlate)]
        exact and_iff_right rfl
      · rw [if_neg hlate, List.filter_cons_of_pos (by simpa using hlate)]
        have hrest : frees.orderedInsert (· ≤ ·) (max task.checkedAt free + task.duration) ≠ [] := by
          rw [← List.length_pos_iff, List.orderedInsert_length]
          omega
        rw [List.forall₂_cons, ih hrest, List.map_cons, Semaphore.served, List.forall_mem_cons]
        exact and_congr_left fun _ => and_iff_right rfl

/-- **When the deadline is kept**: exactly if the records that pass the check can all be
started by the timeout, in their order and behind the permits. The deadline is looked at
before the wait for a permit and not after it, so that what has passed the check will start,
whenever that is. -/
theorem deadlineKept_iff (defaults : CronDefaults) (settings : CronSettings) (args : CronArgs)
    (batch : SweepBatch) :
    DeadlineKept defaults settings args batch ↔
      Semaphore.Fits (actualConcurrency defaults settings args)
        (actualSweepTimeout defaults settings args) []
        (batch.jobs (actualSweepTimeout defaults settings args)) := by
  have hpermits := actualConcurrency_pos defaults settings args
  have hordered : ((batch.jobs (actualSweepTimeout defaults settings args)).map
      Prod.fst).Pairwise (· ≤ ·) := by
    rw [SweepBatch.jobs, List.map_map]
    exact batch.ordered.sublist (List.filter_sublist.map _)
  rw [← Semaphore.served_le_iff hpermits hordered, DeadlineKept, processBatch,
    forall₂_safeProcess]
  · rfl
  · rw [← List.length_pos_iff, List.length_replicate]
    exact hpermits

/-- Five records that take ten minutes each. -/
def longBatch : SweepBatch where
  tasks := ["a", "b", "c", "d", "e"].map fun id => ⟨id, 0, 600 * 1000000⟩
  ordered := by decide

/-- With two permits and a timeout of fifteen minutes the last starts after twenty. -/
theorem not_deadlineKept : ¬ DeadlineKept {} ⟨none, none, none⟩ (.default {}) longBatch := by
  intro hkept
  have hlast := hkept.get (i := 4) (by decide) (by decide)
  exact absurd hlast.2 (by decide)

end JanusGraph
