import JanusGraph.Queue.Worker
import JanusGraph.Queue.DeadLetters

/-!
# Stranded episodes

A failed episode waits for `reap_failed_or_aborted`, or for an operator who sees
its open dead letter. Which of the two it will be is decided twice, on different
data: the worker looks at the type of the exception and the attempts in *its
record*, the reaper at the text of `last_error` and the attempts in *the row*.
`mark_failed` leaves a row that neither will ever look at exactly when the text is
on the denylist or the row has used up its attempts, and there is no open dead
letter. Nothing else the pipeline does strands an episode.

`Slot.Accounted` is what the pipeline promises of an episode, and `Step.Covered` what a
`mark_failed` has to find to keep it. One step keeps it if it is covered (`Step.accounted`) and
loses it if it is not (`Step.covered_of_accounted`), so that the two are the same over a run.
The replays are left out: the operator sends them, not the pipeline.
-/

namespace JanusGraph

/-! ## The pipeline -/

/-- The queue and the records its workers were handed. -/
structure World : Type where
  db : Db
  held : List EpisodeRecord

/-- What the pipeline does to the queue. -/
inductive Action : Type where
  | enqueue (args : EnqueueArgs)
  | enqueueGuarded (lockMode : LockMode) (instanceId content groupId : String)
      (name : Option String) (sourceDescription : String) (mode : DedupMode)
  | claim (limit : Option ℤ)
  /-- the worker that holds the record sends the operation at position `i` of
  `process_record` -/
  | process (record : EpisodeRecord) (p : Processing) (i : ℕ)
  /-- `run_cron_sweep` defers the record -/
  | defer (record : EpisodeRecord)
  | reapStuck (timeoutSec maxAttempts : ℤ)
  /-- under the default policy -/
  | reapFailed (limit : Option ℤ)

instance : Membership EpisodeRecord World := ⟨fun w record => record ∈ w.held⟩

/-- The operation of an action; nobody acts for a record that was never handed
out. -/
inductive Action.Sends (w : World) : Action → Op → Prop where
  | enqueue {args : EnqueueArgs} : Sends w (.enqueue args) (.enqueue args)
  | enqueueGuarded {lockMode : LockMode} {instanceId content groupId : String}
      {name : Option String} {sourceDescription : String} {mode : DedupMode} :
      Sends w (.enqueueGuarded lockMode instanceId content groupId name sourceDescription mode)
        (.enqueueGuarded lockMode instanceId content groupId name sourceDescription mode)
  | claim {limit : Option ℤ} : Sends w (.claim limit) (.claimNextBatch limit)
  | process {record : EpisodeRecord} {p : Processing} {i : ℕ} {op : Op} : record ∈ w →
      (processRecord record p)[i]? = some op → Sends w (.process record p i) op
  | defer {record : EpisodeRecord} : record ∈ w → Sends w (.defer record) (deferRecord record)
  | reapStuck {timeoutSec maxAttempts : ℤ} :
      Sends w (.reapStuck timeoutSec maxAttempts) (.reapStuckProcessing timeoutSec maxAttempts)
  | reapFailed {limit : Option ℤ} :
      Sends w (.reapFailed limit) (.reapFailedOrAborted limit none)

/-- The records a result hands out. -/
def handedOut : Except QueueError OpResult → List EpisodeRecord
  | .ok (.records records) => records
  | _ => []

/-- The world after a step of the queue. -/
def World.after (sha : Sha256) (w : World) (st : Step) : World :=
  ⟨st.exec sha w.db, w.held ++ handedOut (st.result sha w.db)⟩

/-- A run of the pipeline, with the steps it sends to the queue. -/
inductive World.Run (sha : Sha256) : World → List Step → World → Prop where
  | nil {w : World} : Run sha w [] w
  | cons {w w' : World} {a : Action} {env : Env} {op : Op} {steps : List Step} :
      a.Sends w op → Run sha (w.after sha ⟨env, op⟩) steps w' → Run sha w (⟨env, op⟩ :: steps) w'

/-- Nothing has happened yet. -/
def World.init : World := ⟨Db.empty, []⟩

/-! ## Accounted for -/

/-- The episode of the slot is in flight, finished or skipped, or the reaper under
the default policy will pick it up, or its dead letter is open. -/
def Slot.Accounted (s : Slot) : Prop :=
  ∀ e, s.episode = some e →
    e.status ∈ [Status.queued, .processing, .done, .skippedDuplicate] ∨
      reapEligible {} e s.deadLetter = true ∨ ∃ d, s.deadLetter = some d ∧ d.recoveredAt = none

/-- The step is not a `mark_failed` that strands its episode: the reaper admits
the error and the row has attempts left, or the dead letter is open. -/
def Step.Covered (db : Db) (st : Step) : Prop :=
  ∀ id error, st.op = .markFailed id error → ∀ e, db.episodes.get? id = some e →
    (policyWhereClause {} (some error) = true ∧ e.attemptCount + 1 < 3) ∨
      ∃ d, db.deadLetter.get? id = some d ∧ d.recoveredAt = none

theorem Slot.accounted_of_status {e : Option Episode} {d : Option DeadLetter}
    (h : ∀ e', e = some e' →
      e'.status ∈ [Status.queued, .processing, .done, .skippedDuplicate]) :
    (⟨e, d⟩ : Slot).Accounted := fun e' he' => Or.inl (h e' he')

/-- What `mark_failed` leaves is accounted for if and only if it was covered. -/
theorem Slot.accounted_failed (e : Episode) (d : Option DeadLetter) (error : String) (now : ℕ) :
    (⟨some (EpisodeUpdate.set (.failed error now) e), d⟩ : Slot).Accounted ↔
      (policyWhereClause {} (some error) = true ∧ e.attemptCount + 1 < 3) ∨
        ∃ d', d = some d' ∧ d'.recoveredAt = none := by
  have hceiling : underCeiling {} (e.attemptCount + 1) = true ↔ e.attemptCount + 1 < 3 := by
    simp only [underCeiling, Bool.not_true, Bool.false_or, decide_eq_true_eq]
    omega
  constructor
  · intro h
    rcases h _ rfl with hs | helig | hd
    · simp [EpisodeUpdate.set] at hs
    · simp only [reapEligible, Bool.and_eq_true] at helig
      exact Or.inl ⟨helig.1.1.2, hceiling.mp helig.1.2⟩
    · exact Or.inr hd
  · rintro h e' ⟨⟩
    by_cases hopen : ∃ d', d = some d' ∧ d'.recoveredAt = none
    · exact Or.inr (Or.inr hopen)
    · rcases h with ⟨hpolicy, hattempts⟩ | hd
      · refine Or.inr (Or.inl ?_)
        have hclosed : d.any DeadLetter.isOpen = false := by
          rcases d with _ | d
          · rfl
          · simp only [Option.any_some, DeadLetter.isOpen, Option.isNone_eq_false_iff]
            rcases hr : d.recoveredAt with _ | at'
            · exact absurd ⟨d, rfl, hr⟩ hopen
            · rfl
        simp [reapEligible, EpisodeUpdate.set, hpolicy, hceiling.mpr hattempts, hclosed]
      · exact absurd hd hopen

/-! ## One step -/

/-- The dead-letter replays, which the pipeline leaves to the operator. -/
def Op.isReplay : Op → Bool
  | .replayDlqEpisode .. => true
  | .replayDlqBatch .. => true
  | _ => false

theorem Action.Sends.not_replay {w : World} {a : Action} {op : Op} (h : a.Sends w op) :
    op.isReplay = false := by
  cases h with
  | process _ hop =>
    rcases processRecord_cases (List.mem_of_getElem? hop) with
      ⟨_, _, rfl⟩ | ⟨_, rfl⟩ | rfl | ⟨exc, rfl⟩
    · rfl
    · rfl
    · rfl
    · unfold failurePath
      split <;> rfl
  | _ => rfl

/-- **Step.** A covered step of the pipeline keeps every episode accounted for. All outcomes
but `mark_failed` leave a status or a dead letter that somebody looks at. -/
theorem Step.accounted (sha : Sha256) {db : Db} {st : Step} (hop : st.op.isReplay = false)
    (hcov : st.Covered db) {id : String} (h : (db.slot id).Accounted) :
    ((st.exec sha db).slot id).Accounted := by
  have hmove := st.move sha db id
  have hcov' : ∀ error, st.op = .markFailed id error → ∀ e, (db.slot id).episode = some e →
      (policyWhereClause {} (some error) = true ∧ e.attemptCount + 1 < 3) ∨
        ∃ d, (db.slot id).deadLetter = some d ∧ d.recoveredAt = none := fun error => hcov id error
  obtain ⟨env, op⟩ := st
  generalize (exec sha db ⟨env, op⟩).slot id = s' at hmove ⊢
  generalize db.slot id = s at hmove h hcov'
  cases hmove with
  | stay => exact h
  | inserted => exact Slot.accounted_of_status (by rintro e ⟨⟩; simp [newEpisode])
  | claimed => exact Slot.accounted_of_status (by rintro e ⟨⟩; simp [Episode.claim])
  | @failed error e d =>
    rcases e with _ | e
    · exact Slot.accounted_of_status (by rintro e ⟨⟩)
    · exact (Slot.accounted_failed e d error env.now).mpr (hcov' error rfl e rfl)
  | aborted => exact fun e he => Or.inr (Or.inr ⟨_, rfl, rfl⟩)
  | @checkpoint text e d =>
    -- the reaper sees the same row
    intro e' he'
    obtain ⟨e, rfl, rfl⟩ := Option.map_eq_some_iff.mp he'
    exact h e rfl
  | reapAborted => exact fun e he => Or.inr (Or.inr ⟨_, rfl, rfl⟩)
  | replayed => cases hop
  | replayedBatch => cases hop
  | replayClosed => cases hop
  | done | skipped =>
    refine Slot.accounted_of_status ?_
    intro e' he'
    obtain ⟨e, -, rfl⟩ := Option.map_eq_some_iff.mp he'
    simp [EpisodeUpdate.set]
  | reapRequeued | reapSkipped | reaped =>
    exact Slot.accounted_of_status (by rintro e ⟨⟩; simp [EpisodeUpdate.set])

/-- **And only then.** A `mark_failed` that is not covered strands its episode. -/
theorem Step.covered_of_accounted (sha : Sha256) {db : Db} {st : Step}
    (h : ∀ id, ((st.exec sha db).slot id).Accounted) : st.Covered db := by
  intro id error hop e he
  obtain ⟨env, op⟩ := st
  obtain rfl : op = .markFailed id error := hop
  have hacc : db.rejects id (.failed error env.now) = false :=
    Db.rejects_of_inactive fun e => by simp [EpisodeUpdate.set, activeStatuses]
  have hid := h id
  rw [exec_markFailed, Db.apply_update, hacc] at hid
  simp only [Bool.false_eq_true, if_false, Db.slot_update, if_true, he, Option.map_some,
    EpisodeUpdate.admits] at hid
  exact (Slot.accounted_failed e _ error env.now).mp hid

/-! ## Runs -/

/-- Every episode is accounted for in every state of the run. -/
def AccountedIn (sha : Sha256) : Db → List Step → Prop
  | db, [] => ∀ id, (db.slot id).Accounted
  | db, st :: steps => (∀ id, (db.slot id).Accounted) ∧ AccountedIn sha (st.exec sha db) steps

/-- Every step of the run is covered. -/
def CoveredIn (sha : Sha256) : Db → List Step → Prop
  | _, [] => True
  | db, st :: steps => st.Covered db ∧ CoveredIn sha (st.exec sha db) steps

theorem World.Run.accounted_iff {sha : Sha256} {w w' : World} {steps : List Step}
    (hrun : World.Run sha w steps w') (h : ∀ id, (w.db.slot id).Accounted) :
    AccountedIn sha w.db steps ↔ CoveredIn sha w.db steps := by
  induction hrun with
  | nil => exact ⟨fun _ => trivial, fun _ => h⟩
  | @cons w w' a env op steps hsends hrun ih =>
    constructor
    · rintro ⟨-, hrest⟩
      have hafter : ∀ id, ((Step.exec sha w.db ⟨env, op⟩).slot id).Accounted := by
        cases steps with
        | nil => exact hrest
        | cons st steps => exact hrest.1
      exact ⟨Step.covered_of_accounted sha hafter, (ih hafter).mp hrest⟩
    · rintro ⟨hcov, hrest⟩
      have hafter : ∀ id, ((Step.exec sha w.db ⟨env, op⟩).slot id).Accounted :=
        fun id => Step.accounted sha hsends.not_replay hcov (h id)
      exact ⟨h, (ih hafter).mpr hrest⟩

/-- **No stranded episode, exactly.** In a run of the pipeline from the empty database, every
episode is accounted for in every state if and only if every `mark_failed` was covered. The
worker decides by the type of the exception and its own record, the reaper by the error text
and the row; a `mark_failed` is covered where the second would take it over. -/
theorem noStranded_iff (sha : Sha256) {steps : List Step} {w : World}
    (hrun : World.Run sha World.init steps w) :
    AccountedIn sha Db.empty steps ↔ CoveredIn sha Db.empty steps := by
  refine hrun.accounted_iff ?_
  rintro id e ⟨⟩

/-- The record of the one episode of the runs below. -/
def firstRecord : EpisodeRecord :=
  claimRecord 2 ("e", newEpisode (Payload.dumps ⟨"c", "graphiti", "ep_e", "agent_interaction"⟩) 1
    none none (some "#c|graphiti|agent_interaction") .off)

/-- A run in which the only episode fails for `exc`. -/
def failingSteps (exc : Exc) : List Step :=
  [⟨.at 1, .enqueue { content := "c", episodeId := some "e", mode := .off }⟩,
    ⟨.at 2, .claimNextBatch none⟩,
    ⟨.at 3, failurePath firstRecord exc⟩]

theorem run_failingSteps (exc : Exc) :
    ∃ w, World.Run .plain World.init (failingSteps exc) w := by
  refine ⟨_, .cons .enqueue (.cons .claim (.cons (a := .process firstRecord
    ⟨none, .raisedEarly exc⟩ 0) (.process ?_ rfl) .nil))⟩
  exact List.mem_singleton.mpr rfl

/-- A first timeout is retried, and the reaper will pick the episode up. -/
theorem noStranded_iff_timeout :
    AccountedIn .plain Db.empty (failingSteps ⟨"TimeoutError", false, ""⟩) ↔
      CoveredIn .plain Db.empty (failingSteps ⟨"TimeoutError", false, ""⟩) := by
  obtain ⟨w, hrun⟩ := run_failingSteps ⟨"TimeoutError", false, ""⟩
  exact noStranded_iff .plain hrun

/-- A permanent upstream fault, as the client raises it. -/
def notFound : Exc := ⟨"NotFoundError", false, "Error code: 404 - model not found"⟩

/-- `should_retry` retries a permanent upstream fault, so it gets no dead letter;
the reaper refuses its text. The episode is stranded. -/
theorem not_noStranded :
    (∃ w, World.Run .plain World.init (failingSteps notFound) w) ∧
      ¬ AccountedIn .plain Db.empty (failingSteps notFound) := by
  refine ⟨run_failingSteps notFound, fun haccounted => ?_⟩
  obtain ⟨w, hrun⟩ := run_failingSteps notFound
  have hcovered := (hrun.accounted_iff (by rintro id e ⟨⟩)).mp haccounted
  have hrow : ((runSteps .plain Db.empty ((failingSteps notFound).take 2)).episodes.get? "e").map
      Episode.status = some .processing := by decide +kernel
  obtain ⟨e, he, -⟩ := Option.map_eq_some_iff.mp hrow
  have hretried : shouldRetry firstRecord notFound 3 = true := by decide +kernel
  have hop : failurePath firstRecord notFound = .markFailed "e" (describeException notFound) :=
    if_pos hretried
  rcases hcovered.2.2.1 "e" (describeException notFound) hop e he with
    ⟨hpolicy, -⟩ | ⟨d, hd, -⟩
  · have hrefused : policyWhereClause {} (some (describeException notFound)) = false := by
      decide +kernel
    rw [hrefused] at hpolicy
    cases hpolicy
  · have hnone : ((runSteps .plain Db.empty ((failingSteps notFound).take 2)).deadLetter.get?
        "e").isNone = true := by decide +kernel
    rw [show (runSteps .plain Db.empty ((failingSteps notFound).take 2)).deadLetter.get? "e" =
      some d from hd] at hnone
    cases hnone

end JanusGraph
