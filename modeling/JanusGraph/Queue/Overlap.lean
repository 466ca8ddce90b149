import JanusGraph.Lib.Semaphore
import JanusGraph.Queue.Transition

/-!
# Overlapping sweeps

`run_cron_sweep` claims a whole batch at once and lets its records wait for a semaphore;
the stuck-reaper of another sweep counts their age from the claim. A record of the last
round is alive for as many record timeouts as there are rounds, and the reaper waits for
one. So a batch is safe from another sweep if and only if the rounds it takes fit into
the reap timeout.

The time a record takes to process is given; the rest of a sweep takes no time, but for
the `latency` between the instant `claim_next_batch` writes to `started_at` and the start
of the tasks. Instants and durations are in microseconds.

* **The life of a record.** It waits for the semaphore and then runs for at most the record
  timeout. With `n` records and `m` permits the last one starts after as many full rounds as
  `rounds` counts, less one (`Sweep.Alive.lt`).
* **The worst batch.** All records take as long as they may (`fullBatch`). Then the bound is
  reached, and a reaper that looks a moment before the end finds a row that is stuck.
* **What is safe.** Nobody is reaped before the reap timeout (`slot_of_not_stuck`). The deadline
  of the sweep is no help: it is looked at before the wait for a permit, not after it.
-/

namespace JanusGraph

/-! ## The timeouts of a sweep -/

/-- The module constants of `cron.py`, as the environment has set them. -/
structure CronDefaults : Type where
  processingTimeoutSeconds : ℕ := 900
  workerConcurrency : ℕ := 2
  workerConcurrency_pos : 0 < workerConcurrency := by decide
  sweepTimeout : ℕ := 900 * 1000000
  perRecordTimeout : ℕ := 900 * 1000000

/-- What a sweep reads from `cfg.pipeline`; a `contracts.Settings` has none of it. -/
structure CronSettings : Type where
  drainBatchSize : Option ℤ
  workerConcurrency : Option ℕ
  attemptTimeoutSec : Option ℕ

/-- The arguments of `run_cron_sweep`. -/
structure CronArgs : Type where
  batchSize : Option ℤ
  concurrency : ℕ
  sweepTimeout : ℕ
  recordTimeout : ℕ

/-- The call `run_cron_sweep(settings)` of the daemon. -/
def CronArgs.default (defaults : CronDefaults) : CronArgs where
  batchSize := none
  concurrency := defaults.workerConcurrency
  sweepTimeout := defaults.sweepTimeout
  recordTimeout := defaults.perRecordTimeout

section
variable (defaults : CronDefaults) (settings : CronSettings) (args : CronArgs)

/-- `actual_batch_size`; 50 is the default of `PipelineConfig`. -/
def actualBatchSize : ℤ :=
  ((args.batchSize.filter fun n => 0 < n).orElse fun _ => settings.drainBatchSize).getD 50

/-- `actual_concurrency` -/
def actualConcurrency : ℕ :=
  match if args.concurrency = defaults.workerConcurrency then settings.workerConcurrency
    else some args.concurrency with
  | some n => if n = 0 then defaults.workerConcurrency else n
  | none => defaults.workerConcurrency

/-- `actual_record_timeout` -/
def actualRecordTimeout : ℕ :=
  if args.recordTimeout = defaults.perRecordTimeout then
    (settings.attemptTimeoutSec.map fun n => n * 1000000).getD args.recordTimeout
  else args.recordTimeout

/-- `actual_sweep_timeout` -/
def actualSweepTimeout : ℕ :=
  if args.sweepTimeout = defaults.sweepTimeout then
    (settings.attemptTimeoutSec.map fun n => n * 1000000).getD args.sweepTimeout
  else args.sweepTimeout

/-- `actual_reap_timeout`, in seconds -/
def actualReapTimeout : ℕ := settings.attemptTimeoutSec.getD defaults.processingTimeoutSeconds

/-- How many records `claim_next_batch` returns at most. -/
def batchLimit : ℕ := (claimLimit (some (actualBatchSize settings args))).toNat

/-- The semaphore always has a permit. -/
theorem actualConcurrency_pos : 0 < actualConcurrency defaults settings args := by
  have hpos := defaults.workerConcurrency_pos
  unfold actualConcurrency
  split
  · split <;> omega
  · exact hpos

/-- A batch can have a record. -/
theorem batchLimit_pos : 0 < batchLimit settings args := by
  unfold batchLimit claimLimit
  by_cases h : 0 < actualBatchSize settings args
  · rw [Option.filter_some, if_pos (by simpa using h)]
    simpa using h
  · rw [Option.filter_some, if_neg (by simpa using h)]
    decide

end

/-! ## A sweep that is still alive -/

/-- A sweep that has claimed its batch. -/
structure Sweep : Type where
  /-- `now` of `claim_next_batch` -/
  claimedAt : ℕ
  /-- from that instant to the start of the tasks -/
  latency : ℕ
  /-- from `start_time` to the start of the tasks -/
  elapsed : ℕ
  /-- the records of the batch, with how long `process_record` takes for each -/
  batch : List (String × ℕ)
  /-- the ids are those of different rows -/
  distinct : (batch.map Prod.fst).Nodup

/-- Record `id` waits for the semaphore or is being processed at the instant `t`: the soft
deadline had not passed when its task started, and it has not finished. -/
def Sweep.Alive (s : Sweep) (defaults : CronDefaults) (settings : CronSettings) (args : CronArgs)
    (id : String) (t : ℕ) : Prop :=
  s.elapsed ≤ actualSweepTimeout defaults settings args ∧
    ∃ (i d start finish : ℕ), s.batch[i]? = some (id, d) ∧
      (Semaphore.schedule (actualConcurrency defaults settings args) (s.batch.map Prod.snd))[i]? =
        some (start, finish) ∧
      s.claimedAt ≤ t ∧ t < s.claimedAt + s.latency + finish

/-- The row of a record the sweep has claimed. -/
def Sweep.Holds (s : Sweep) (db : Db) (id : String) : Prop :=
  ∃ e, db.episodes.get? id = some e ∧ e.status = .processing ∧
    e.startedAt = some (.iso s.claimedAt)

/-- Batches of the settings' size, whose records respect the record timeout. -/
structure Sweep.Within (s : Sweep) (defaults : CronDefaults) (settings : CronSettings)
    (args : CronArgs) : Prop where
  size : s.batch.length ≤ batchLimit settings args
  durations : ∀ r ∈ s.batch, r.2 ≤ actualRecordTimeout defaults settings args

/-- No sweep with this latency and deadline loses a record that is alive to the
stuck-reaper of another one: whenever the reaper looks at it, it leaves it alone. -/
def SweepsSafe (sha : Sha256) (defaults : CronDefaults) (settings : CronSettings) (args : CronArgs)
    (latency elapsed : ℕ) : Prop :=
  ∀ s : Sweep, s.latency = latency → s.elapsed = elapsed → s.Within defaults settings args →
    ∀ id env db, s.Alive defaults settings args id (env.clock id) → s.Holds db id →
      ((⟨env, .reapStuckProcessing (actualReapTimeout defaults settings) 3⟩ : Step).exec sha
        db).slot id = db.slot id

/-! ## The reaper -/

/-- A row that is not stuck is left alone. -/
theorem slot_of_not_stuck {sha : Sha256} {env : Env} {timeoutSec maxAttempts : ℤ} {db : Db}
    {id : String} {e : Episode} (he : db.episodes.get? id = some e)
    (h : e.stuck (env.clock id) timeoutSec = false) :
    ((⟨env, .reapStuckProcessing timeoutSec maxAttempts⟩ : Step).exec sha db).slot id =
      db.slot id := by
  have hslot : db.slot id = ⟨some e, db.deadLetter.get? id⟩ := by simp [Db.slot, he]
  have hmove := Step.move sha ⟨env, .reapStuckProcessing timeoutSec maxAttempts⟩ db id
  rw [hslot] at hmove ⊢
  generalize ((⟨env, .reapStuckProcessing timeoutSec maxAttempts⟩ : Step).exec sha db).slot id = s'
    at hmove ⊢
  generalize db.deadLetter.get? id = d at hmove ⊢
  cases hmove with
  | stay => rfl
  | reapAborted _ hstuck =>
    rw [h] at hstuck
    cases hstuck
  | reapRequeued _ hstuck =>
    rw [h] at hstuck
    cases hstuck
  | reapSkipped _ hstuck =>
    rw [h] at hstuck
    cases hstuck

/-- A queue with one record, claimed at the instant 0. -/
def claimedAtZero (id : String) : Db :=
  { Db.empty with
    episodes := Db.empty.episodes.put id
      ((newEpisode (.json .null) 0 none none none .off).claim 0) }

/-- Its row is requeued as soon as it is stuck. -/
theorem slot_claimedAtZero_ne {sha : Sha256} {env : Env} {timeoutSec : ℤ} (id : String)
    (h : timeoutSec * 1000000 ≤ env.clock id) :
    ((⟨env, .reapStuckProcessing timeoutSec 3⟩ : Step).exec sha (claimedAtZero id)).slot id ≠
      (claimedAtZero id).slot id := by
  set e := (newEpisode (.json .null) 0 none none none .off).claim 0 with he
  have hget : (claimedAtZero id).episodes.get? id = some e := Table.get?_put_self _ _ _
  have hrows : (claimedAtZero id).stuckRows env timeoutSec = [(id, e)] := by
    simp [Db.stuckRows, claimedAtZero, Db.empty, Table.put, Table.erase, Table.empty,
      Table.orderBy, he, Episode.claim, Episode.stuck, h]
  have hacc : (claimedAtZero id).rejects id (.requeueStuck 1 env.now) = false := by
    rw [Db.rejects, Db.updated, hget]
    refine Db.conflicts_of_indexKey_none (Episode.indexKey_of_gate ?_)
    simp [EpisodeUpdate.set, he, Episode.claim, newEpisode]
  have hattempts : e.attemptCount = 0 := rfl
  rw [Step.exec_reapStuckProcessing, hrows, List.foldl_cons, List.foldl_nil, Db.reapStuckRow]
  simp only [hattempts, hacc]
  rw [if_neg (by decide), if_neg (by decide), Db.slot_update, if_pos rfl, hget]
  intro hsame
  have hstatus := congrArg (fun s => s.episode.map Episode.status) hsame
  simp [EpisodeUpdate.admits, EpisodeUpdate.set, hget, he, Episode.claim] at hstatus

/-! ## How long a record is alive -/

section
variable {defaults : CronDefaults} {settings : CronSettings} {args : CronArgs}

/-- How many rounds a full batch takes. -/
def rounds (defaults : CronDefaults) (settings : CronSettings) (args : CronArgs) : ℕ :=
  (batchLimit settings args - 1) / actualConcurrency defaults settings args + 1

/-- **The life of a record** ends after as many record timeouts as there are rounds, counted
from the start of the tasks. The round a record is in is its place in the batch divided by
the number of permits. -/
theorem Sweep.Alive.lt {s : Sweep} {id : String} {t : ℕ} (h : s.Alive defaults settings args id t)
    (hwithin : s.Within defaults settings args) :
    t < s.claimedAt + s.latency +
      rounds defaults settings args * actualRecordTimeout defaults settings args := by
  obtain ⟨-, i, d, start, finish, hi, hschedule, -, hlt⟩ := h
  have hc := actualConcurrency_pos defaults settings args
  have hfinish := Semaphore.finish_le (R := actualRecordTimeout defaults settings args) hc
    (by simpa using fun d id hmem => hwithin.durations (id, d) hmem) hschedule
  have hlength : i ≤ batchLimit settings args - 1 := by
    have hlt := (List.getElem?_eq_some_iff.mp hi).1
    have hsize := hwithin.size
    omega
  have hround : i / actualConcurrency defaults settings args + 1 ≤
      rounds defaults settings args :=
    Nat.succ_le_succ (Nat.div_le_div_right hlength)
  have hmul := Nat.mul_le_mul_right (actualRecordTimeout defaults settings args) hround
  omega

end

/-- A batch of `n` records, each of which takes as long as it may. -/
def fullBatch (n duration : ℕ) : List (String × ℕ) :=
  (List.range n).map fun i => (String.ofList (List.replicate i 'e'), duration)

theorem nodup_fullBatch (n duration : ℕ) : ((fullBatch n duration).map Prod.fst).Nodup := by
  rw [fullBatch, List.map_map]
  refine List.Nodup.map (fun i j hij => ?_) List.nodup_range
  simpa using congrArg (fun id => id.toList.length) hij

theorem map_snd_fullBatch (n duration : ℕ) :
    (fullBatch n duration).map Prod.snd = List.replicate n duration := by
  simp [fullBatch, List.map_const', Function.comp_def]

/-- **The worst batch.** A full batch whose rounds do not fit into the reap timeout, and
whose records take as long as they may: its last record is reaped while it is alive. -/
theorem not_sweepsSafe_of_lt (sha : Sha256) {defaults : CronDefaults} {settings : CronSettings}
    {args : CronArgs} {latency elapsed : ℕ}
    (helapsed : elapsed ≤ actualSweepTimeout defaults settings args)
    (hlong : actualReapTimeout defaults settings * 1000000 <
      latency + rounds defaults settings args * actualRecordTimeout defaults settings args) :
    ¬ SweepsSafe sha defaults settings args latency elapsed := by
  intro hsafe
  have hc := actualConcurrency_pos defaults settings args
  have hb := batchLimit_pos settings args
  set n := batchLimit settings args with hn
  set R := actualRecordTimeout defaults settings args with hR
  let s : Sweep := ⟨0, latency, elapsed, fullBatch n R, nodup_fullBatch n R⟩
  let id := String.ofList (List.replicate (n - 1) 'e')
  let env : Env := .at (actualReapTimeout defaults settings * 1000000)
  have hwithin : s.Within defaults settings args := by
    refine ⟨by simp [s, fullBatch, hn], fun r hr => ?_⟩
    obtain ⟨i, -, rfl⟩ := List.mem_map.mp hr
    exact le_rfl
  have halive : s.Alive defaults settings args id (env.clock id) := by
    refine ⟨helapsed, n - 1, R, (n - 1) / actualConcurrency defaults settings args * R,
      rounds defaults settings args * R, ?_, ?_, Nat.zero_le _, ?_⟩
    · simp [s, id, fullBatch, List.getElem?_range (Nat.sub_one_lt hb.ne')]
    · simp only [s, map_snd_fullBatch]
      exact Semaphore.schedule_replicate R hc (by omega)
    · simp only [s, env, Env.at]
      omega
  have hholds : s.Holds (claimedAtZero id) id := ⟨_, Table.get?_put_self _ _ _, rfl, rfl⟩
  exact slot_claimedAtZero_ne id (by simp [env, Env.at])
    (hsafe s rfl rfl hwithin id env (claimedAtZero id) halive hholds)

/-- **Overlapping sweeps, exactly.** No other sweep reaps a record that is alive if and only
if every record is deferred, or all rounds of a full batch fit into the reap timeout. The
stuck-reaper counts from the claim, and the last record of a batch starts when all rounds but
one are over. -/
theorem sweepsSafe_iff (sha : Sha256) (defaults : CronDefaults) (settings : CronSettings)
    (args : CronArgs) (latency elapsed : ℕ) :
    SweepsSafe sha defaults settings args latency elapsed ↔
      actualSweepTimeout defaults settings args < elapsed ∨
        latency + rounds defaults settings args * actualRecordTimeout defaults settings args ≤
          actualReapTimeout defaults settings * 1000000 := by
  constructor
  · intro hsafe
    by_contra hcond
    rw [not_or, not_lt, not_le] at hcond
    exact not_sweepsSafe_of_lt sha hcond.1 hcond.2 hsafe
  · rintro hcond s rfl rfl hwithin id env db halive ⟨e, he, -, hstarted⟩
    refine slot_of_not_stuck he ?_
    have hlt := halive.lt hwithin
    rcases hcond with hdeferred | hfits
    · exact absurd halive.1 (by omega)
    · simp only [Episode.stuck, hstarted, decide_eq_false_iff_not]
      omega

/-- The settings of the configuration class: 50 records, 6 permits, 120 seconds. -/
def classSettings : CronSettings := ⟨some 50, some 6, some 120⟩

/-- A full batch takes nine rounds of 120 seconds, the reaper waits for one. -/
theorem not_sweepsSafe : ¬ SweepsSafe .plain {} classSettings (.default {}) 0 0 :=
  not_sweepsSafe_of_lt .plain (by decide) (by decide)

end JanusGraph
