import JanusGraph.Queue.Transition

/-!
# What the fairness statistics count

`reap_fairness_stats` reads three numbers off the failed and aborted rows. It calls all of
them eligible, exhausted or not. As the rows that have had a turn it counts those whose
`last_replay_at` is set: the reaper does not write that column, the replays of dead letters
do.

The three numbers are compared with what has happened in the run. A replay of dead letters is
the only thing that sets `last_replay_at`, and nothing clears it
(`Step.any_lastReplayAt`, `isSome_lastReplayAt`), so that the column counts replays, exactly;
what it is read as is the number of rows that have been reaped.
-/

namespace JanusGraph

/-! ## The statistics -/

/-- `status IN ('failed', 'aborted')` -/
def Episode.failedOrAborted (e : Episode) : Bool := e.status == .failed || e.status == .aborted

/-- What `reap_fairness_stats` returns. -/
structure ReapStats (Rate : Type) : Type where
  eligible : ℕ
  exhausted : ℕ
  repeatedTurns : ℕ
  repeatRate : Rate
  oldestEnqueuedAt : Option ℕ
  newestEnqueuedAt : Option ℕ

/-- The failed and aborted rows. -/
def Db.deadRows (db : Db) : List (String × Episode) :=
  db.episodes.rows.filter fun r => r.2.failedOrAborted

/-- `reap_fairness_stats`; `rate m n` is `round(m / n, 4)`, and `zero` is `0.0`. -/
def Db.reapFairnessStats {Rate : Type} (rate : ℕ → ℕ → Rate) (zero : Rate) (db : Db)
    (maxAttempts : ℤ) : ReapStats Rate :=
  let eligible := db.deadRows.length
  let repeated := db.deadRows.countP fun r => r.2.lastReplayAt.isSome
  { eligible
    exhausted := db.deadRows.countP fun r => maxAttempts ≤ r.2.attemptCount
    repeatedTurns := repeated
    repeatRate := if eligible = 0 then zero else rate repeated eligible
    oldestEnqueuedAt := (db.deadRows.map fun r => r.2.enqueuedAt).min?
    newestEnqueuedAt := (db.deadRows.map fun r => r.2.enqueuedAt).max? }

/-! ## Turns -/

section

variable (sha : Sha256)

/-- In this step the reaper requeues the row. -/
def Step.reaps (db : Db) (st : Step) (id : String) : Bool :=
  match st.op with
  | .reapFailedOrAborted _ _ =>
    (db.episodes.get? id).any Episode.failedOrAborted &&
      ((st.exec sha db).episodes.get? id).any fun e => e.status == .queued
  | _ => false

/-- The row is as the `UPDATE` of a replay leaves it. -/
def Episode.replayedAt (now : ℕ) (e : Episode) : Bool :=
  e.status == .queued && e.attemptCount == 0 && e.lastError == none && e.enqueuedAt == now &&
    e.updatedAt == now && e.lastReplayAt == some now

/-- In this step a replay of dead letters requeues the row. -/
def Step.replays (db : Db) (st : Step) (id : String) : Bool :=
  match st.op with
  | .replayDlqEpisode _ _ | .replayDlqBatch _ _ _ _ =>
    (db.episodes.get? id).isSome &&
      ((st.exec sha db).episodes.get? id).any fun e => e.replayedAt st.env.now
  | _ => false

/-- In some step of the run. -/
def ever (happens : Db → Step → String → Bool) : Db → List Step → String → Bool
  | _, [], _ => false
  | db, st :: steps, id => happens db st id || ever happens (st.exec sha db) steps id

/-- The statistics describe the reaper: after the run they give the rows it may still requeue,
those it may not, and those it has requeued before. -/
def FairnessReported {Rate : Type} (rate : ℕ → ℕ → Rate) (zero : Rate) (steps : List Step)
    (maxAttempts : ℤ) : Prop :=
  let db := runSteps sha Db.empty steps
  let stats := db.reapFairnessStats rate zero maxAttempts
  stats.eligible = db.deadRows.countP (fun r => r.2.attemptCount < maxAttempts) ∧
    stats.exhausted = db.deadRows.countP (fun r => maxAttempts ≤ r.2.attemptCount) ∧
    stats.eligible + stats.exhausted = db.deadRows.length ∧
    stats.repeatedTurns = db.deadRows.countP fun r =>
      r.2.attemptCount < maxAttempts && ever sha (Step.reaps sha) Db.empty steps r.1

end

/-! ## Who writes `last_replay_at` -/

variable {sha : Sha256}

theorem Episode.isSome_of_replayedAt {now : ℕ} {e : Episode} (h : e.replayedAt now = true) :
    e.lastReplayAt.isSome = true := by
  simp only [replayedAt, Bool.and_eq_true, beq_iff_eq] at h
  simp [h.2]

/-- One step sets `last_replay_at` of a row exactly if it replays the row, and never clears
it. -/
theorem Step.any_lastReplayAt (sha : Sha256) (st : Step) (db : Db) (id : String) :
    ((st.exec sha db).episodes.get? id).any (fun e => e.lastReplayAt.isSome) =
      ((db.episodes.get? id).any (fun e => e.lastReplayAt.isSome) || st.replays sha db id) := by
  have hmove := st.move sha db id
  rw [Step.replays, ← Db.slot_episode, ← Db.slot_episode]
  generalize db.slot id = s at hmove ⊢
  generalize (st.exec sha db).slot id = s' at hmove ⊢
  obtain ⟨env, op⟩ := st
  dsimp only at hmove ⊢
  -- a row that stays as it is has been replayed only if it says so
  have hstay : ∀ e : Option Episode, e.any (fun e => e.lastReplayAt.isSome) =
      (e.any (fun e => e.lastReplayAt.isSome) ||
        (e.isSome && e.any fun e => e.replayedAt env.now)) := by
    rintro (_ | e)
    · rfl
    · simpa using Episode.isSome_of_replayedAt (e := e)
  cases hmove with
  | stay => cases op <;> first | exact (Bool.or_false _).symm | exact hstay _
  | @inserted op d payloadJson now payloadHash claimedBy canonicalHash gate hop =>
    cases op <;> rfl
  | claimed => exact (Bool.or_false _).symm
  | @done e d => cases e <;> simp [EpisodeUpdate.set]
  | @failed error e d => cases e <;> simp [EpisodeUpdate.set]
  | @aborted error e d => cases e <;> simp [EpisodeUpdate.set]
  | @skipped existing payloadHash error e d => cases e <;> simp [EpisodeUpdate.set]
  | @checkpoint text e d => cases e <;> simp [EpisodeUpdate.set]
  | reapAborted => exact (Bool.or_false _).symm
  | reapRequeued => exact (Bool.or_false _).symm
  | reapSkipped => exact (Bool.or_false _).symm
  | reaped => exact (Bool.or_false _).symm
  | @replayed policy e d _ =>
    cases e with
    | none => rfl
    | some e => simp [EpisodeUpdate.set, Episode.replayedAt]
  | @replayedBatch limit classes minAgeSec policy e d _ _ =>
    simp [EpisodeUpdate.set, Episode.replayedAt]
  | replayClosed => exact hstay _

/-- Nor does a run. -/
theorem any_lastReplayAt_run (sha : Sha256) (steps : List Step) (db : Db) (id : String) :
    ((runSteps sha db steps).episodes.get? id).any (fun e => e.lastReplayAt.isSome) =
      ((db.episodes.get? id).any (fun e => e.lastReplayAt.isSome) ||
        ever sha (Step.replays sha) db steps id) := by
  induction steps generalizing db with
  | nil => simp [runSteps, ever]
  | cons st steps ih =>
    rw [runSteps, List.foldl_cons, ← runSteps, ih, Step.any_lastReplayAt, ever, Bool.or_assoc]

/-- So after any run the column says which rows have been replayed. -/
theorem isSome_lastReplayAt (sha : Sha256) (steps : List Step) {r : String × Episode}
    (hr : r ∈ (runSteps sha Db.empty steps).deadRows) :
    r.2.lastReplayAt.isSome = ever sha (Step.replays sha) Db.empty steps r.1 := by
  have hget := Table.mem_rows.mp (List.mem_of_mem_filter hr)
  have hrun := any_lastReplayAt_run sha steps Db.empty r.1
  rwa [hget] at hrun

/-! ## When the statistics are right -/

/-- Everything is below the ceiling if that many are. -/
theorem countP_lt_eq_length {rows : List (String × Episode)} {maxAttempts : ℤ} :
    rows.length = rows.countP (fun r => (r.2.attemptCount : ℤ) < maxAttempts) ↔
      ∀ r ∈ rows, (r.2.attemptCount : ℤ) < maxAttempts := by
  rw [eq_comm, List.countP_eq_length]
  simp only [decide_eq_true_eq]

/-- **Fairness statistics, exactly.** After a run they describe the reaper if and only if no
failed or aborted row has reached the ceiling, and as many of these rows have been replayed
from the dead letters before as have been reaped. `eligible` is a count of all rows, the
exhausted ones included; and the reaper does not write the column that the turns are counted
by. -/
theorem fairness_reported_iff (sha : Sha256) {Rate : Type} (rate : ℕ → ℕ → Rate) (zero : Rate)
    (steps : List Step) (maxAttempts : ℤ) :
    FairnessReported sha rate zero steps maxAttempts ↔
      (∀ r ∈ (runSteps sha Db.empty steps).deadRows, (r.2.attemptCount : ℤ) < maxAttempts) ∧
        ((runSteps sha Db.empty steps).deadRows.countP fun r =>
            ever sha (Step.replays sha) Db.empty steps r.1) =
          (runSteps sha Db.empty steps).deadRows.countP fun r =>
            ever sha (Step.reaps sha) Db.empty steps r.1 := by
  have hrepeated : ((runSteps sha Db.empty steps).deadRows.countP fun r =>
        r.2.lastReplayAt.isSome) =
      (runSteps sha Db.empty steps).deadRows.countP fun r =>
        ever sha (Step.replays sha) Db.empty steps r.1 :=
    List.countP_congr fun r hr => by rw [isSome_lastReplayAt sha steps hr]
  have hturns : (∀ r ∈ (runSteps sha Db.empty steps).deadRows,
        (r.2.attemptCount : ℤ) < maxAttempts) →
      ((runSteps sha Db.empty steps).deadRows.countP fun r =>
          r.2.attemptCount < maxAttempts && ever sha (Step.reaps sha) Db.empty steps r.1) =
        (runSteps sha Db.empty steps).deadRows.countP fun r =>
          ever sha (Step.reaps sha) Db.empty steps r.1 := by
    intro hbelow
    exact List.countP_congr fun r hr => by simp [hbelow r hr]
  rw [FairnessReported]
  dsimp only [Db.reapFairnessStats]
  rw [hrepeated, countP_lt_eq_length]
  constructor
  · rintro ⟨hbelow, -, -, hcount⟩
    exact ⟨hbelow, hcount.trans (hturns hbelow)⟩
  · rintro ⟨hbelow, hcount⟩
    refine ⟨hbelow, rfl, ?_, hcount.trans (hturns hbelow).symm⟩
    have hnone : (runSteps sha Db.empty steps).deadRows.countP
        (fun r => maxAttempts ≤ r.2.attemptCount) = 0 := by
      rw [List.countP_eq_zero]
      intro r hr
      simpa using hbelow r hr
    omega

/-- An episode that fails, is reaped and fails once more. -/
def reapedOnce : List Step :=
  [⟨.at 1, .enqueue { content := "a", episodeId := some "r", mode := .off }⟩,
    ⟨.at 2, .claimNextBatch (some 1)⟩, ⟨.at 3, .markFailed "r" "x"⟩,
    ⟨.at 4, .reapFailedOrAborted none none⟩, ⟨.at 5, .claimNextBatch (some 1)⟩,
    ⟨.at 6, .markFailed "r" "x"⟩]

/-- Its second turn is not counted; and with two attempts allowed it is called eligible as well
as exhausted. -/
theorem not_fairness_reported :
    ¬ FairnessReported .plain (fun m n => (m, n)) (0, 1) reapedOnce 3 ∧
      ¬ FairnessReported .plain (fun m n => (m, n)) (0, 1) reapedOnce 2 := by
  constructor
  · rintro ⟨-, -, -, h⟩
    exact absurd h (by decide)
  · rintro ⟨h, -⟩
    exact absurd h (by decide)

end JanusGraph
