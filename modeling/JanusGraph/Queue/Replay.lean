import JanusGraph.Queue.DeadLetters

/-!
# Replays and terminal episodes

Of the four operations that write `status = 'queued'`, the reapers look at the
status of the episode; the replays look at its dead letter. So a replay can put
any episode back in flight whose dead letter it selects: a `done` one
(`replay_dlq_episode` reads neither the status nor `recovered_at`) or a
`skipped_duplicate` one (`replay_dlq_batch` only excludes `done`).
`Step.requeuesByReplay` says when exactly, and terminal episodes stay terminal if
and only if it does not happen to them.

What a replay does to an episode is read off its slot (`Step.episode_replayDlqEpisode`,
`Step.episode_replayDlqBatch`). In a batch the index is asked at the turn of the row, when the
rows before it have been requeued already (`Db.replayTurn`).
-/

namespace JanusGraph

/-- The operations that write `status = 'queued'` for an existing episode. -/
inductive RequeueOp : Type where
  | reapStuckProcessing (timeoutSec maxAttempts : ℤ)
  | reapFailedOrAborted (limit : Option ℤ) (policy : Option RetryPolicy)
  | replayDlqEpisode (id : String) (policy : Option RetryPolicy)
  | replayDlqBatch (limit : ℤ) (classes : List String) (minAgeSec : ℤ)
      (policy : Option RetryPolicy)

/-- The operation itself. -/
def RequeueOp.op : RequeueOp → Op
  | .reapStuckProcessing timeoutSec maxAttempts => .reapStuckProcessing timeoutSec maxAttempts
  | .reapFailedOrAborted limit policy => .reapFailedOrAborted limit policy
  | .replayDlqEpisode id policy => .replayDlqEpisode id policy
  | .replayDlqBatch limit classes minAgeSec policy =>
    .replayDlqBatch limit classes minAgeSec policy

/-- Finished, or skipped by the backstop. -/
def Status.isTerminal : Status → Bool
  | .done => true
  | .skippedDuplicate => true
  | _ => false

/-! ## When a replay requeues an episode -/

/-- The database `replay_dlq_batch` meets at the turn of `id`. -/
def Db.replayTurn (db : Db) (now : ℕ) (rows : List (String × DeadLetter)) (id : String) : Db :=
  (rows.takeWhile fun r => r.1 ≠ id).foldl (Db.replayRow now) db

/-- The step replays the dead letter of `id` and requeues its episode, whose
columns are `e`: the dead letter is selected, the index accepts the episode as
`queued`, and the batch replay does not find it `done`. -/
def Step.requeuesByReplay (st : Step) (db : Db) (id : String) (e : Episode) : Bool :=
  match st.op with
  | .replayDlqEpisode id' policy =>
    id == id' && db.replayAdmitted id (policy.getD {}) &&
      !db.rejects id (.requeue st.env.now .replay)
  | .replayDlqBatch limit classes minAgeSec policy =>
    let rows := db.replayable st.env (policy.getD {}) classes minAgeSec limit
    (rows.map Prod.fst).contains id && e.status != .done &&
      !(db.replayTurn st.env.now rows id).rejects id (.replayBatch st.env.now)
  | _ => false

theorem Db.replayTurn_eq {db : Db} {now : ℕ} {before after : List (String × DeadLetter)}
    {r : String × DeadLetter} (hnodup : ((before ++ r :: after).map Prod.fst).Nodup) :
    db.replayTurn now (before ++ r :: after) r.1 = before.foldl (replayRow now) db := by
  have hbefore : ∀ x ∈ before, decide (x.1 ≠ r.1) = true := by
    intro x hx
    rw [List.map_append, List.map_cons] at hnodup
    have hdisjoint := (List.nodup_append.mp hnodup).2.2
    exact decide_eq_true (hdisjoint x.1 (List.mem_map_of_mem hx) r.1 List.mem_cons_self)
  rw [replayTurn, List.takeWhile_append_of_pos hbefore, List.takeWhile_cons_of_neg (by simp),
    List.append_nil]

/-- What `replay_dlq_episode` does to the episode of a slot. -/
theorem Step.episode_replayDlqEpisode (sha : Sha256) (env : Env) (db : Db) (id id' : String)
    (policy : Option RetryPolicy) {e : Episode} (he : db.episodes.get? id = some e) :
    (Step.exec sha db ⟨env, .replayDlqEpisode id' policy⟩).episodes.get? id =
      if (⟨env, .replayDlqEpisode id' policy⟩ : Step).requeuesByReplay db id e then
        some (EpisodeUpdate.set (.requeue env.now .replay) e)
      else some e := by
  rw [exec_replayDlqEpisode]
  simp only [requeuesByReplay]
  by_cases hid : id = id'
  · subst hid
    rcases hd : db.deadLetter.get? id with _ | d
    · simp [Db.replayDlqEpisode, Db.replayAdmitted, hd, he]
    · by_cases hc : db.replayAdmitted id (policy.getD {}) ∧
        ¬ db.rejects id (.requeue env.now .replay)
      · simp [Db.replayDlqEpisode, hd, hc, he, Db.recover, Db.update, EpisodeUpdate.admits]
      · rw [Db.replayDlqEpisode, hd]
        simp only [hc, if_false, he, beq_self_eq_true, Bool.true_and]
        rw [if_neg]
        simpa using hc
  · have hslot := db.move_replayDlqEpisode env id' policy id
    have hkeep : ((db.replayDlqEpisode id' (policy.getD {}) env.now).slot id).episode =
        (db.slot id).episode := by
      simp only [Db.replayDlqEpisode]
      split
      · rfl
      · split
        · rw [Db.slot_recover, if_neg hid, Db.slot_update, if_neg hid]
        · rfl
    have hne : (id == id') = false := by simpa using hid
    rw [← Db.slot_episode, hkeep, Db.slot_episode, he]
    simp [hne]

/-- What `replay_dlq_batch` does to the episode of a slot. -/
theorem Step.episode_replayDlqBatch (sha : Sha256) (env : Env) (db : Db) (id : String) (limit : ℤ)
    (classes : List String) (minAgeSec : ℤ) (policy : Option RetryPolicy) {e : Episode}
    (he : db.episodes.get? id = some e) :
    (Step.exec sha db ⟨env, .replayDlqBatch limit classes minAgeSec policy⟩).episodes.get? id =
      if (⟨env, .replayDlqBatch limit classes minAgeSec policy⟩ : Step).requeuesByReplay db id e
      then some (EpisodeUpdate.set (.replayBatch env.now) e)
      else some e := by
  set rows := db.replayable env (policy.getD {}) classes minAgeSec limit with hrows
  -- the condition, over the selected rows
  have hreq : (⟨env, .replayDlqBatch limit classes minAgeSec policy⟩ : Step).requeuesByReplay db id
      e = ((rows.map Prod.fst).contains id && e.status != .done &&
        !(db.replayTurn env.now rows id).rejects id (.replayBatch env.now)) := rfl
  have hnodup : (rows.map Prod.fst).Nodup :=
    db.nodup_replayable env (policy.getD {}) classes minAgeSec limit
  rw [exec_replayDlqBatch, hreq, ← hrows, ← Db.slot_episode]
  clear_value rows
  rcases Db.slot_foldl Prod.fst (f := Db.replayRow env.now)
    (fun db c id hne => by rw [Db.slot_replayRow, if_neg (fun hc => hne hc.1)]) hnodup db id with
    ⟨hnot, h⟩ | ⟨before, r, after, rfl, rfl, hb, h⟩
  · -- not selected
    have hcontains : (rows.map Prod.fst).contains id = false := by simpa using hnot
    rw [h, hcontains, Db.slot_episode, he]
    simp
  · have hcontains : ((before ++ r :: after).map Prod.fst).contains r.1 = true := by simp
    have hepisode : (before.foldl (Db.replayRow env.now) db).episodes.get? r.1 = some e :=
      (congrArg Slot.episode hb).trans he
    rw [Db.replayTurn_eq hnodup, hcontains, h, Db.slot_replayRow]
    generalize before.foldl (Db.replayRow env.now) db = turn at hepisode hb
    by_cases hrej : turn.rejects r.1 (.replayBatch env.now)
    · simp [hrej, hepisode]
    · by_cases hdone : e.status = .done <;> simp [hrej, hepisode, hdone]

/-- A requeued episode is `queued`, whatever it was. -/
theorem Step.status_of_requeuesByReplay (sha : Sha256) (st : Step) (db : Db) (id : String)
    {e : Episode} (he : db.episodes.get? id = some e) (h : st.requeuesByReplay db id e) :
    ∃ e', (st.exec sha db).episodes.get? id = some e' ∧ e'.status = .queued := by
  obtain ⟨env, op⟩ := st
  cases op with
  | replayDlqEpisode id' policy =>
    exact ⟨_, by rw [episode_replayDlqEpisode sha env db id id' policy he, if_pos h], rfl⟩
  | replayDlqBatch limit classes minAgeSec policy =>
    exact ⟨_, by rw [episode_replayDlqBatch sha env db id limit classes minAgeSec policy he,
      if_pos h], rfl⟩
  | _ => cases h

/-! ## Terminal absorption -/

/-- The step leaves the status of every terminal episode as it is. -/
def TerminalKept (sha : Sha256) (db : Db) (st : Step) : Prop :=
  ∀ id e, db.episodes.get? id = some e → e.status.isTerminal →
    ∃ e', (st.exec sha db).episodes.get? id = some e' ∧ e'.status = e.status

/-- **The other requeue operations.** One that does not replay the episode leaves it alone,
if it is terminal: the reapers select by status, and a terminal one is neither `failed` nor
`aborted` nor `processing`. -/
theorem RequeueOp.kept_of_not_replayed (sha : Sha256) (rop : RequeueOp) (env : Env) (db : Db)
    (id : String) {e : Episode} (he : db.episodes.get? id = some e) (ht : e.status.isTerminal)
    (h : ¬ (⟨env, rop.op⟩ : Step).requeuesByReplay db id e) :
    (Step.exec sha db ⟨env, rop.op⟩).episodes.get? id = some e := by
  have hmove := Step.move sha ⟨env, rop.op⟩ db id
  have hslot : db.slot id = ⟨some e, db.deadLetter.get? id⟩ := by simp [Db.slot, he]
  rw [hslot] at hmove
  cases rop with
  | reapStuckProcessing timeoutSec maxAttempts =>
    have hstatus : e.status ≠ .processing := by
      intro hp
      simp [hp, Status.isTerminal] at ht
    rw [← Db.slot_episode]
    generalize (Step.exec sha db _).slot id = s' at hmove
    cases hmove with
    | stay => rfl
    | reapAborted hp => exact absurd hp hstatus
    | reapRequeued hp => exact absurd hp hstatus
    | reapSkipped hp => exact absurd hp hstatus
  | reapFailedOrAborted limit policy =>
    rw [← Db.slot_episode]
    generalize (Step.exec sha db _).slot id = s' at hmove
    cases hmove with
    | stay => rfl
    | reaped helig =>
      rcases hs : e.status <;> simp_all [reapEligible, Status.isTerminal]
  | replayDlqEpisode id' policy =>
    exact (Step.episode_replayDlqEpisode sha env db id id' policy he).trans (if_neg h)
  | replayDlqBatch limit classes minAgeSec policy =>
    exact (Step.episode_replayDlqBatch sha env db id limit classes minAgeSec policy he).trans
      (if_neg h)

/-- **Terminal absorption, exactly.** In every state a serial run reaches from the empty
database, a requeue operation keeps every terminal status if and only if it is not a replay
that requeues a terminal episode. The reapers ask for a status that is not terminal. The
replays ask for a dead letter, and an episode may have one from before it was finished or
skipped. -/
theorem terminalKept_iff (sha : Sha256) (steps : List Step) (env : Env) (rop : RequeueOp) :
    TerminalKept sha (runSteps sha Db.empty steps) ⟨env, rop.op⟩ ↔
      ∀ id e, (runSteps sha Db.empty steps).episodes.get? id = some e → e.status.isTerminal →
        ¬ (⟨env, rop.op⟩ : Step).requeuesByReplay (runSteps sha Db.empty steps) id e := by
  generalize runSteps sha Db.empty steps = db
  constructor
  · intro h id e he ht hreq
    obtain ⟨e', he', hkept⟩ := h id e he ht
    obtain ⟨e'', he'', hqueued⟩ := Step.status_of_requeuesByReplay sha _ db id he hreq
    obtain rfl : e' = e'' := Option.some.inj (he'.symm.trans he'')
    rw [← hkept, hqueued] at ht
    cases ht
  · intro h id e he ht
    exact ⟨e, rop.kept_of_not_replayed sha env db id he ht (h id e he ht), rfl⟩

/-- An episode that was aborted, replayed and then finished: its dead letter is
still there. -/
def replayedAndDone : List Step :=
  [⟨.at 1, .enqueue { content := "c", episodeId := some "e", mode := .off }⟩,
    ⟨.at 2, .claimNextBatch none⟩,
    ⟨.at 3, .markAborted "e" "TimeoutError: <no message>"⟩,
    ⟨.at 4, .replayDlqEpisode "e" none⟩,
    ⟨.at 5, .claimNextBatch none⟩,
    ⟨.at 6, .markDone "e"⟩]

/-- An episode that was aborted, requeued by the reaper and then skipped by the
backstop: its dead letter is still open. -/
def reapedAndSkipped : List Step :=
  [⟨.at 1, .enqueue { content := "c", episodeId := some "e", mode := .off }⟩,
    ⟨.at 2, .claimNextBatch none⟩,
    ⟨.at 3, .markAborted "e" "TimeoutError: <no message>"⟩,
    ⟨.at 4, .reapFailedOrAborted none none⟩,
    ⟨.at 5, .claimNextBatch none⟩,
    ⟨.at 6, .markSkippedDuplicate "e" (some "f") none⟩]

/-- A replay of either puts it back in the queue. -/
theorem not_terminalKept :
    ¬ TerminalKept .plain (runSteps .plain Db.empty replayedAndDone)
        ⟨.at 7, (RequeueOp.replayDlqEpisode "e" none).op⟩ ∧
      ¬ TerminalKept .plain (runSteps .plain Db.empty reapedAndSkipped)
        ⟨.at 7, (RequeueOp.replayDlqBatch 100 [] 0 none).op⟩ := by
  have hlost : ∀ (db : Db) (st : Step) (status : Status), status.isTerminal = true →
      (db.episodes.get? "e").map Episode.status = some status →
      ((st.exec .plain db).episodes.get? "e").map Episode.status = some .queued →
      ¬ TerminalKept .plain db st := by
    intro db st status ht hbefore hafter hkept
    obtain ⟨e, he, rfl⟩ := Option.map_eq_some_iff.mp hbefore
    obtain ⟨e', he', hsame⟩ := hkept "e" e he ht
    rw [he', Option.map_some, hsame] at hafter
    rw [Option.some.inj hafter] at ht
    cases ht
  exact ⟨hlost _ _ .done rfl (by decide +kernel) (by decide +kernel),
    hlost _ _ .skippedDuplicate rfl (by decide +kernel) (by decide +kernel)⟩

end JanusGraph
