import Mathlib.Data.List.ReduceOption
import JanusGraph.Queue.Queue

/-!
# What an operation does when it runs alone

One equation for each script of `Queue.lean`: the database it leaves, in terms of
the statements it sends. A rejected statement leaves the database as it was
(`Db.apply`), and a loop over selected rows is a fold over them.

The equations are of two kinds. `run_f` gives the result and the connection after
`f`, and is what a script that calls `f` is rewritten with; `exec_f` gives the
database only, where the result says nothing more. Inside a loop the connection is
`Between` two turns: no savepoint is open, and what it sees is all that counts, so
that one turn (`run_reapStuckRow`, `run_requeueRow_turn`, `run_replayRow_turn`) is
stated of any such connection.

No other process has a say here. What the operations do among the others is the
subject of `IndexDiscipline.lean` and `Additions.lean`, where the same scripts are
taken through again statement by statement.
-/

namespace JanusGraph

open Script

/-- Run a script alone, on a fresh connection. -/
abbrev alone {α : Type} (p : Sql α) (db : Db) : Except QueueError α × Conn Db :=
  p.run (Conn.step Write.exec) (Conn.idle db)

/-- The database after a statement, accepted or not. -/
def Db.apply (db : Db) (w : Write) : Db := applied Write.exec db w

/-- The effect of an update: none, if the index rejects it. -/
theorem Db.apply_update (db : Db) (id : String) (u : EpisodeUpdate) :
    db.apply (.updateEpisode id u) = if db.rejects id u then db else db.update id u := by
  by_cases h : db.rejects id u <;> simp [Db.apply, applied, Write.exec, h]

/-- The effect of a claim: none, if the index rejects one of its rows. -/
theorem Db.apply_claim (db : Db) (ids : List String) (now : ℕ) :
    db.apply (.claimEpisodes ids now) =
      if db.rejectsClaim ids now then db else db.claim ids now := by
  by_cases h : db.rejectsClaim ids now <;> simp [Db.apply, applied, Write.exec, h]

/-- What a claim leaves under an id. -/
theorem Db.get?_claim (db : Db) (ids : List String) (now : ℕ) (id : String) :
    (db.claim ids now).episodes.get? id =
      (db.episodes.get? id).map fun e => if id ∈ ids then e.claim now else e :=
  Table.get?_map _ _ _

/-- `conn.execute`. The first statement begins the transaction, and a rejected one leaves it
open with nothing done. -/
theorem run_execute (w : Write) (c : Conn Db) :
    (execute w).run (Conn.step Write.exec) c =
      match Write.exec w c.visible with
      | .ok (n, db) => (.ok n, c.wrote db)
      | .error e => (.error (.integrity e), ⟨c.disk, some c.txOrBegin⟩) := by
  rcases h : Write.exec w c.visible with e | ⟨n, db⟩
  · exact run_write_error h
  · exact run_write_ok h

/-- **A statement in a savepoint.** Whatever the index says, the connection is between two
turns afterwards, and a rejected statement has changed nothing that it sees. Outside a
transaction the savepoint is the outermost one, so that its `RELEASE` commits. -/
theorem run_guardedWrite (w : Write) {c : Conn Db} (hc : c.Between) :
    ∃ c', (guarded w : Sql _).run (Conn.step Write.exec) c =
        (.ok ((Write.exec w c.visible).map Prod.fst), c') ∧
      c'.Between ∧ c'.visible = c.visible.apply w ∧
      (∀ e, Write.exec w c.visible = .error e → c'.disk = c.disk) :=
  run_guarded w hc

/-- An accepted update, from any connection. -/
theorem run_execute_update {id : String} {u : EpisodeUpdate} {c : Conn Db}
    (h : c.visible.rejects id u = false) :
    (execute (.updateEpisode id u)).run (Conn.step Write.exec) c =
      (.ok ((c.visible.updated id u).elim 0 fun _ => 1), c.wrote (c.visible.update id u)) := by
  simp [run_execute, Write.exec, h]

/-- `with conn: conn.execute(w); conn.commit()`: a rejected statement raises, and
leaves the database as it was. -/
theorem exec_execute_commit (w : Write) (db : Db) :
    (alone (withConn do
      let _ ← execute w
      commit) db).2 = Conn.idle (db.apply w) := by
  rcases h : Write.exec w db with e | ⟨n, db'⟩ <;>
    simp [alone, withConn, Prog.run_bind, Prog.run_attempt, run_execute, h, Db.apply, applied]

/-! ## Outcomes -/

/-- The effect of `mark_done`: the open dead letter of the episode is closed. -/
def Db.markDone (db : Db) (id : String) (now : ℕ) : Db :=
  match (db.deadLetter.get? id).filter DeadLetter.isOpen with
  | some d => (db.update id (.done now)).recover id now d.attemptCount true
  | none => db.update id (.done now)

/-- `mark_done` is one transaction, which the index cannot refuse. -/
theorem run_markDone (env : Env) (id : String) (db : Db) :
    alone (markDone env id) db = (.ok (), Conn.idle (db.markDone id env.now)) := by
  have hacc : db.rejects id (.done env.now) = false :=
    Db.rejects_of_inactive fun e => by simp [EpisodeUpdate.set, activeStatuses]
  rcases hd : (db.deadLetter.get? id).filter DeadLetter.isOpen with _ | d <;>
    simp [alone, markDone, withConn, Prog.run_bind, Prog.run_attempt, run_execute, Write.exec,
      hacc, hd, Db.markDone, Db.update]

/-- The effect of an abort: the episode and a fresh open dead letter. -/
def Db.abort (db : Db) (id : String) (payloadJson : PayloadJson) (attempts : ℕ) (error : String)
    (now : ℕ) : Db :=
  { db.update id (.aborted attempts error now) with
    deadLetter := db.deadLetter.put id (newDeadLetter payloadJson error attempts now) }

/-- Both statements of an abort, from any connection. -/
theorem run_abort (id : String) (payloadJson : PayloadJson) (attempts : ℕ) (error : String)
    (now : ℕ) (c : Conn Db) :
    ∃ c', (do
        let _ ← execute (.updateEpisode id (.aborted attempts error now))
        let _ ← execute (.replaceDeadLetter id (newDeadLetter payloadJson error attempts now))
        return () : Sql Unit).run (Conn.step Write.exec) c = (.ok (), c') ∧
      (c.Between → c'.Between) ∧
      c'.visible = c.visible.abort id payloadJson attempts error now := by
  have hacc : c.visible.rejects id (.aborted attempts error now) = false :=
    Db.rejects_of_inactive fun e => by simp [EpisodeUpdate.set, activeStatuses]
  refine ⟨(c.wrote (c.visible.update id (.aborted attempts error now))).wrote
    (c.visible.abort id payloadJson attempts error now), ?_,
    fun hc => (hc.wrote _).wrote _, rfl⟩
  simp [Prog.run_bind, run_execute, Write.exec, hacc, Db.abort, Db.update]

/-- The effect of `mark_aborted`: without an episode the dead letter holds `{}`. -/
def Db.markAborted (db : Db) (id error : String) (now : ℕ) : Db :=
  db.abort id (((db.episodes.get? id).map Episode.payloadJson).getD (.json (.obj [])))
    (((db.episodes.get? id).map Episode.attemptCount).getD 0 + 1) error now

/-- `mark_aborted` takes the payload and the attempts from the row it has just read. An id
that is not there gets an empty payload, and a dead letter all the same. -/
theorem run_markAborted (env : Env) (id error : String) (db : Db) :
    alone (markAborted env id error) db = (.ok (), Conn.idle (db.markAborted id error env.now)) := by
  have hacc : ∀ attempts, db.rejects id (.aborted attempts error env.now) = false :=
    fun _ => Db.rejects_of_inactive fun e => by simp [EpisodeUpdate.set, activeStatuses]
  simp [alone, markAborted, withConn, Prog.run_bind, Prog.run_attempt, run_execute, Write.exec,
    hacc, Db.markAborted, Db.abort, Db.update]

/-- The database with one more ledger row. -/
def Db.logged (db : Db) (ev : DedupEvent) : Db :=
  { db with dedupEvents := db.dedupEvents ++ [ev] }

/-- The ledger takes any event. -/
theorem run_recordDedupEvent (ev : DedupEvent) (db : Db) :
    alone (recordDedupEvent ev) db = (.ok (), Conn.idle (db.logged ev)) := by
  simp [alone, recordDedupEvent, withConn, Prog.run_bind, Prog.run_attempt, tryWrite,
    Prog.request, Conn.step, Write.exec, Db.logged]

/-! ## Claim -/

/-- `claim_next_batch` claims the head of the queue as it has selected it, and sends nothing
when that is empty. -/
theorem exec_claimNextBatch (env : Env) (limit : Option ℤ) (db : Db) :
    (alone (claimNextBatch env limit) db).2 = Conn.idle
      (if (db.queueHead env.rank limit).isEmpty then db
      else db.apply (.claimEpisodes ((db.queueHead env.rank limit).map Prod.fst) env.now)) := by
  rcases hrows : db.queueHead env.rank limit with _ | ⟨row, rows⟩
  · simp [alone, claimNextBatch, withConn, Prog.run_bind, Prog.run_attempt, hrows]
  · rcases h : Write.exec (.claimEpisodes (row.1 :: rows.map Prod.fst) env.now) db
      with e | ⟨n, db'⟩ <;>
    simp [alone, claimNextBatch, withConn, Prog.run_bind, Prog.run_attempt, hrows, run_execute,
      h, Db.apply, applied]

/-- **What `claim_next_batch` returns or raises**: the records of the head of the queue as it
was, or the error of the index. It is the one operation of the queue that can raise that
error. -/
theorem fst_claimNextBatch (env : Env) (limit : Option ℤ) (db : Db) :
    (alone (claimNextBatch env limit) db).1 =
      if db.rejectsClaim ((db.queueHead env.rank limit).map Prod.fst) env.now then
        .error (.integrity .uniqueIndex)
      else .ok ((db.queueHead env.rank limit).map (claimRecord env.now)) := by
  rcases hrows : db.queueHead env.rank limit with _ | ⟨row, rows⟩
  · simp [alone, claimNextBatch, withConn, Prog.run_bind, Prog.run_attempt, hrows, Db.rejectsClaim]
  · rcases hrej : db.rejectsClaim (row.1 :: rows.map Prod.fst) env.now with _ | _ <;>
      simp [alone, claimNextBatch, withConn, Prog.run_bind, Prog.run_attempt, hrows, run_execute,
        Write.exec, hrej]

/-- What `claim_next_batch` returns, it has claimed. -/
theorem result_claimNextBatch {env : Env} {limit : Option ℤ} {db : Db} {rs : List EpisodeRecord}
    (h : (alone (claimNextBatch env limit) db).1 = .ok rs) :
    rs = (db.queueHead env.rank limit).map (claimRecord env.now) ∧
      db.rejectsClaim ((db.queueHead env.rank limit).map Prod.fst) env.now = false := by
  rw [fst_claimNextBatch] at h
  split at h
  · cases h
  · rename_i hrej
    exact ⟨(Except.ok.inj h).symm, by simpa using hrej⟩

/-! ## Reapers -/

/-- The effect of one turn of `reap_stuck_processing`. -/
def Db.reapStuckRow (now : ℕ) (maxAttempts : ℤ) (db : Db) (row : String × Episode) : Db :=
  let attempts := row.2.attemptCount + 1
  if maxAttempts ≤ attempts then db.abort row.1 row.2.payloadJson attempts timeoutError now
  else if db.rejects row.1 (.requeueStuck attempts now) then db.update row.1 (.skipReaped now)
  else db.update row.1 (.requeueStuck attempts now)

/-- One turn of the stuck-reaper, between the turns before and after it. -/
theorem run_reapStuckRow (now : ℕ) (maxAttempts : ℤ) (row : String × Episode) (c : Conn Db)
    (hc : c.Between) :
    ∃ a c', (reapStuckRow now maxAttempts row).run (Conn.step Write.exec) c = (.ok a, c') ∧
      c'.Between ∧ c'.visible = c.visible.reapStuckRow now maxAttempts row := by
  by_cases hmax : maxAttempts ≤ (row.2.attemptCount + 1 : ℕ)
  · obtain ⟨c', hrun, hbetween, hvisible⟩ :=
      run_abort row.1 row.2.payloadJson (row.2.attemptCount + 1) timeoutError now c
    refine ⟨(), c', ?_, hbetween hc, ?_⟩
    · simp only [reapStuckRow, hmax, if_true]
      exact hrun
    · rw [hvisible, Db.reapStuckRow, if_pos hmax]
  · obtain ⟨c', hrun, hbetween, hvisible, -⟩ := run_guardedWrite
      (.updateEpisode row.1 (.requeueStuck (row.2.attemptCount + 1) now)) hc
    by_cases hrej : c.visible.rejects row.1 (.requeueStuck (row.2.attemptCount + 1) now)
    · -- the index rejected the requeue: the row is marked as skipped
      have hskip : c'.visible.rejects row.1 (.skipReaped now) = false :=
        Db.rejects_of_inactive fun e => by simp [EpisodeUpdate.set, activeStatuses]
      refine ⟨(), c'.wrote (c'.visible.update row.1 (.skipReaped now)), ?_,
        hbetween.wrote _, ?_⟩
      · simp only [reapStuckRow, hmax, if_false, Prog.run_bind, hrun, Write.exec, hrej, if_true,
          Except.map, run_execute_update hskip]
        rfl
      · rw [Conn.wrote_visible, hvisible, Db.reapStuckRow, if_neg hmax, if_pos hrej]
        simp [Db.apply_update, hrej]
    · refine ⟨(), c', ?_, hbetween, ?_⟩
      · simp only [reapStuckRow, hmax, if_false, Prog.run_bind, hrun, Write.exec, hrej,
          Except.map]
        rfl
      · rw [hvisible, Db.reapStuckRow, if_neg hmax, if_neg hrej]
        simp [Db.apply_update, hrej]

/-- `reap_stuck_processing` turns to the stuck rows in their order. Each turn sees what the
turns before it have left. -/
theorem exec_reapStuckProcessing (env : Env) (timeoutSec maxAttempts : ℤ) (db : Db) :
    (alone (reapStuckProcessing env timeoutSec maxAttempts) db).2 =
      Conn.idle ((db.stuckRows env timeoutSec).foldl (Db.reapStuckRow env.now maxAttempts) db) := by
  obtain ⟨as, c, hrun, hbetween, hvisible⟩ := Prog.run_forEach
    (run_reapStuckRow env.now maxAttempts · ·) (db.stuckRows env timeoutSec)
    (Conn.between_idle db)
  simp [alone, reapStuckProcessing, withConn, Prog.run_bind, Prog.run_attempt, hrun, hvisible]

/-- The effect of one turn of `requeue_guarded`. -/
def Db.requeueRow (now : ℕ) (extra : RequeueExtra) (db : Db) (id : String) : Db :=
  db.apply (.updateEpisode id (.requeue now extra))

/-- One guarded requeue, with what it returns: the id, unless the index has refused it. -/
theorem run_requeueRow_turn (now : ℕ) (extra : RequeueExtra) (id : String) (c : Conn Db)
    (hc : c.Between) :
    ∃ c', (requeueRow now extra id).run (Conn.step Write.exec) c =
        (.ok (if c.visible.rejects id (.requeue now extra) then none else some id), c') ∧
      c'.Between ∧ c'.visible = c.visible.requeueRow now extra id := by
  obtain ⟨c', hrun, hbetween, hvisible, -⟩ := run_guardedWrite
    (.updateEpisode id (.requeue now extra)) hc
  refine ⟨c', ?_, hbetween, hvisible⟩
  by_cases hrej : c.visible.rejects id (.requeue now extra) <;>
    simp [requeueRow, Prog.run_bind, hrun, Write.exec, hrej, Except.map]

/-- The same, for a loop that only asks what is left behind. -/
theorem run_requeueRow (now : ℕ) (extra : RequeueExtra) (id : String) (c : Conn Db)
    (hc : c.Between) :
    ∃ a c', (requeueRow now extra id).run (Conn.step Write.exec) c = (.ok a, c') ∧
      c'.Between ∧ c'.visible = c.visible.requeueRow now extra id :=
  ⟨_, run_requeueRow_turn now extra id c hc⟩

/-- `reap_failed_or_aborted` does nothing for a limit that is not positive; else it requeues
the eligible rows one by one. -/
theorem exec_reapFailedOrAborted (env : Env) (limit : Option ℤ) (policy : Option RetryPolicy)
    (db : Db) :
    (alone (reapFailedOrAborted env limit policy) db).2 = Conn.idle
      (if limit.getD (policy.getD {}).reapLimit ≤ 0 then db
      else ((db.reapable env.rank (policy.getD {})
        (limit.getD (policy.getD {}).reapLimit)).map Prod.fst).foldl
          (Db.requeueRow env.now .resetFailures) db) := by
  by_cases hlimit : limit.getD (policy.getD {}).reapLimit ≤ 0
  · simp [alone, reapFailedOrAborted, hlimit]
  · obtain ⟨as, c, hrun, -, hvisible⟩ := Prog.run_forEach
      (run_requeueRow env.now .resetFailures · ·)
      ((db.reapable env.rank (policy.getD {})
        (limit.getD (policy.getD {}).reapLimit)).map Prod.fst) (Conn.between_idle db)
    rcases hrows : db.reapable env.rank (policy.getD {})
      (limit.getD (policy.getD {}).reapLimit) with _ | ⟨row, rows⟩
    · simp [alone, reapFailedOrAborted, hlimit, withConn, Prog.run_bind, Prog.run_attempt, hrows]
    · rw [hrows, List.map_cons] at hrun hvisible
      simp only [Conn.visible_idle, List.foldl_cons] at hvisible
      simp [alone, reapFailedOrAborted, hlimit, withConn, Prog.run_bind, Prog.run_attempt, hrows,
        requeueGuarded, hrun, hvisible]

/-! ## Dead-letter replay -/

/-- The effect of `replay_dlq_episode`. -/
def Db.replayDlqEpisode (db : Db) (id : String) (policy : RetryPolicy) (now : ℕ) : Db :=
  match db.deadLetter.get? id with
  | none => db
  | some d =>
    if db.replayAdmitted id policy ∧ ¬ db.rejects id (.requeue now .replay) then
      (db.update id (.requeue now .replay)).recover id now d.attemptCount false
    else db

/-- The effect of one turn of `replay_dlq_batch`. -/
def Db.replayRow (now : ℕ) (db : Db) (row : String × DeadLetter) : Db :=
  if db.rejects row.1 (.replayBatch now) then db
  else (db.update row.1 (.replayBatch now)).recover row.1 now row.2.attemptCount false

/-- How many episodes the turn replays. -/
def Db.replayedCount (now : ℕ) (db : Db) (row : String × DeadLetter) : ℕ :=
  if db.rejects row.1 (.replayBatch now) then 0
  else (db.updated row.1 (.replayBatch now)).elim 0 fun _ => 1

/-- One turn of the batch replay, with what it counts. -/
theorem run_replayRow_turn (now : ℕ) (row : String × DeadLetter) (c : Conn Db) (hc : c.Between) :
    ∃ c', (replayRow now row).run (Conn.step Write.exec) c =
        (.ok (c.visible.replayedCount now row), c') ∧
      c'.Between ∧ c'.visible = c.visible.replayRow now row := by
  obtain ⟨c', hrun, hbetween, hvisible, -⟩ := run_guardedWrite
    (.updateEpisode row.1 (.replayBatch now)) hc
  by_cases hrej : c.visible.rejects row.1 (.replayBatch now)
  · refine ⟨c', ?_, hbetween, ?_⟩
    · simp only [replayRow, Prog.run_bind, hrun, Write.exec, hrej, if_true, Except.map,
        Db.replayedCount]
      rfl
    · rw [hvisible, Db.replayRow, if_pos hrej]
      simp [Db.apply_update, hrej]
  · have happlied : c.visible.apply (.updateEpisode row.1 (.replayBatch now)) =
        c.visible.update row.1 (.replayBatch now) := by simp [Db.apply_update, hrej]
    have hvis : (c'.visible.recover row.1 now row.2.attemptCount false) =
        c.visible.replayRow now row := by rw [hvisible, Db.replayRow, if_neg hrej, happlied]
    refine ⟨c'.wrote (c.visible.replayRow now row), ?_, hbetween.wrote _, rfl⟩
    rw [Db.replayedCount, if_neg hrej]
    -- where no row matched, the dead letter is closed all the same
    rcases hu : c.visible.updated row.1 (.replayBatch now) with _ | e <;>
      simp [replayRow, Prog.run_bind, hrun, Write.exec, hrej, hu, Except.map, run_execute, hvis]

/-- The same, for what is left behind. -/
theorem run_replayRow (now : ℕ) (row : String × DeadLetter) (c : Conn Db) (hc : c.Between) :
    ∃ a c', (replayRow now row).run (Conn.step Write.exec) c = (.ok a, c') ∧
      c'.Between ∧ c'.visible = c.visible.replayRow now row :=
  ⟨_, run_replayRow_turn now row c hc⟩

/-- `replay_dlq_batch` turns to the dead letters it has selected, in their order. -/
theorem exec_replayDlqBatch (env : Env) (limit : ℤ) (classes : List String) (minAgeSec : ℤ)
    (policy : Option RetryPolicy) (db : Db) :
    (alone (replayDlqBatch env limit classes minAgeSec policy) db).2 =
      Conn.idle ((db.replayable env (policy.getD {}) classes minAgeSec limit).foldl
        (Db.replayRow env.now) db) := by
  obtain ⟨as, c, hrun, -, hvisible⟩ := Prog.run_forEach (run_replayRow env.now · ·)
    (db.replayable env (policy.getD {}) classes minAgeSec limit) (Conn.between_idle db)
  rcases hrows : db.replayable env (policy.getD {}) classes minAgeSec limit with _ | ⟨row, rows⟩
  · simp [alone, replayDlqBatch, withConn, Prog.run_bind, Prog.run_attempt, hrows]
  · rw [hrows] at hrun hvisible
    simp only [Conn.visible_idle] at hvisible
    simp [alone, replayDlqBatch, withConn, Prog.run_bind, Prog.run_attempt, hrows, hrun, hvisible]

/-- `requeue_guarded` of one episode outside a transaction has committed when it
returns. -/
theorem run_requeueGuarded_one (now : ℕ) (extra : RequeueExtra) (id : String) (db : Db) :
    alone (requeueGuarded now extra [id]) db =
      (.ok (if db.rejects id (.requeue now extra) then [] else [id]),
        Conn.idle (db.requeueRow now extra id)) := by
  have hrun := @run_guarded_idle _ _ _ QueueError Write.exec
    (.updateEpisode id (.requeue now extra)) db
  by_cases hrej : db.rejects id (.requeue now extra) <;>
    simp [alone, requeueGuarded, Prog.forEach, requeueRow, Prog.run_bind, hrun, Write.exec, hrej,
      Except.map, List.reduceOption_cons_of_none, List.reduceOption_cons_of_some, Db.requeueRow,
      Db.apply]

/-- The policy is asked about the text of the dead letter, by a `SELECT`. -/
theorem run_replayAdmitted (id : String) (policy : RetryPolicy) {c : Conn Db} {d : DeadLetter}
    (hd : c.visible.deadLetter.get? id = some d) :
    (replayAdmitted id policy).run (Conn.step Write.exec) c =
      (.ok (policyWhereClause policy (some d.lastError)), c) := by
  by_cases hcodes : policy.codes.isEmpty
  · simp only [replayAdmitted, hcodes, if_true, policyWhereClause_of_codes_nil hcodes]
    rfl
  · simp only [List.isEmpty_iff] at hcodes
    simp [replayAdmitted, hcodes, Prog.run_bind, Db.replayAdmitted, hd]

/-- `replay_dlq_episode` of any id: what is not there, or not admitted, is left alone. -/
theorem exec_replayDlqEpisode (env : Env) (id : String) (policy : Option RetryPolicy) (db : Db) :
    (alone (replayDlqEpisode env id policy) db).2 =
      Conn.idle (db.replayDlqEpisode id (policy.getD {}) env.now) := by
  rcases hd : db.deadLetter.get? id with _ | d
  · simp [alone, replayDlqEpisode, withConn, Prog.run_bind, Prog.run_attempt, hd,
      Db.replayDlqEpisode]
  · have hadm := run_replayAdmitted id (policy.getD {}) (c := Conn.idle db) hd
    have hrun := run_requeueGuarded_one env.now .replay id db
    simp only [alone] at hrun
    rcases hpol : policyWhereClause (policy.getD {}) (some d.lastError) with _ | _
    · simp [alone, replayDlqEpisode, withConn, Prog.run_bind, Prog.run_attempt, hd, hadm, hpol,
        Db.replayDlqEpisode, Db.replayAdmitted]
    · by_cases hrej : db.rejects id (.requeue env.now .replay)
      · simp [alone, replayDlqEpisode, withConn, Prog.run_bind, Prog.run_attempt, hd, hadm, hpol,
          hrun, Db.replayDlqEpisode, Db.replayAdmitted, hrej, Db.requeueRow, Db.apply_update]
      · simp [alone, replayDlqEpisode, withConn, Prog.run_bind, Prog.run_attempt, hd, hadm, hpol,
          hrun, Db.replayDlqEpisode, Db.replayAdmitted, hrej, run_execute, Write.exec,
          Db.requeueRow, Db.apply_update]

/-! ## Enqueue -/

/-- A lookup finds nothing exactly if no row meets its condition. -/
theorem Db.newest_eq_none_iff {db : Db} {rank : String → ℕ} {p : Episode → Bool} :
    db.newest rank p = none ↔ ∀ id e, db.episodes.get? id = some e → p e = false := by
  rw [newest, List.getLast?_eq_none_iff, List.map_eq_nil_iff, List.eq_nil_iff_forall_not_mem]
  constructor
  · intro h id e he
    by_contra hp
    rw [Bool.not_eq_false] at hp
    exact h (id, e) (Table.mem_orderBy.mpr (List.mem_filter.mpr ⟨Table.mem_rows.mpr he, hp⟩))
  · rintro h ⟨id, e⟩ hmem
    obtain ⟨hrow, hp⟩ := List.mem_filter.mp (Table.mem_orderBy.mp hmem)
    dsimp only at hp
    rw [h id e (Table.mem_rows.mp hrow)] at hp
    cases hp

/-- What a lookup finds is a row that meets its condition, and none that does is newer. -/
theorem Db.newest_spec {db : Db} {rank : String → ℕ} {p : Episode → Bool} {id : String}
    (h : db.newest rank p = some id) :
    ∃ e, db.episodes.get? id = some e ∧ p e = true ∧
      ∀ id' e', db.episodes.get? id' = some e' → p e' = true → e'.createdAt ≤ e.createdAt := by
  have hsorted := Table.pairwise_orderBy (fun r : String × Episode => r.2.createdAt) rank
    (db.episodes.rows.filter fun r => p r.2)
  rw [newest, List.getLast?_map, Option.map_eq_some_iff] at h
  obtain ⟨⟨id, e⟩, hlast, rfl⟩ := h
  obtain ⟨before, hrows⟩ := List.getLast?_eq_some_iff.mp hlast
  rw [hrows, List.pairwise_append] at hsorted
  have hmem : ∀ r, r ∈ before ++ [(id, e)] ↔ db.episodes.get? r.1 = some r.2 ∧ p r.2 = true := by
    intro r
    rw [← hrows, Table.mem_orderBy, List.mem_filter]
    exact and_congr_left' Table.mem_rows
  obtain ⟨he, hp⟩ := (hmem (id, e)).mp (by simp)
  refine ⟨e, he, hp, fun id' e' he' hp' => ?_⟩
  rcases List.mem_append.mp ((hmem (id', e')).mpr ⟨he', hp'⟩) with hbefore | hend
  · exact hsorted.2.2 _ hbefore _ (List.mem_singleton_self _)
  · obtain ⟨-, rfl⟩ := Prod.mk.inj (List.mem_singleton.mp hend)
    exact le_rfl

/-- The row `find_active_duplicate` finds. -/
def Db.activeDuplicate (db : Db) (rank : String → ℕ) (payloadHash : String) : Option String :=
  db.newest rank fun e => e.holds payloadHash && decide (e.status ∈ activeStatuses)

/-- The row `find_any_duplicate` finds. -/
def Db.anyDuplicate (db : Db) (rank : String → ℕ) (payloadHash : String) : Option String :=
  db.newest rank fun e => e.holds payloadHash

/-- The lookup finds nothing exactly if no active row holds the hash. -/
theorem Db.activeDuplicate_eq_none_iff {db : Db} {rank : String → ℕ} {payloadHash : String} :
    db.activeDuplicate rank payloadHash = none ↔ ∀ id e, db.episodes.get? id = some e →
      e.status ∈ activeStatuses → e.holds payloadHash = false := by
  rw [activeDuplicate, newest_eq_none_iff]
  refine forall₃_congr fun id e _ => ?_
  rw [Bool.and_eq_false_imp, decide_eq_false_iff_not, imp_not_comm, Bool.not_eq_true]

/-- What the lookup finds is a row. -/
theorem Db.exists_of_activeDuplicate {db : Db} {rank : String → ℕ} {payloadHash id : String}
    (h : db.activeDuplicate rank payloadHash = some id) : ∃ e, db.episodes.get? id = some e := by
  obtain ⟨e, he, -⟩ := newest_spec h
  exact ⟨e, he⟩

/-- The lookup among the active rows reads what the connection sees. -/
theorem run_findActiveDuplicate (env : Env) {payloadHash : String} (h : payloadHash ≠ "")
    (c : Conn Db) :
    (findActiveDuplicate env payloadHash).run (Conn.step Write.exec) c =
      (.ok (c.visible.activeDuplicate env.rank payloadHash), c) := by
  simp [findActiveDuplicate, h, Prog.run_bind, Db.activeDuplicate]

/-- The lookup of the backstop does so, too. -/
theorem run_findAnyDuplicate (env : Env) {payloadHash : String} (h : payloadHash ≠ "")
    (c : Conn Db) :
    (findAnyDuplicate env payloadHash).run (Conn.step Write.exec) c =
      (.ok (c.visible.anyDuplicate env.rank payloadHash), c) := by
  simp [findAnyDuplicate, h, Prog.run_bind, Db.anyDuplicate]

/-- The row a failed insert reports. -/
def Db.holder (db : Db) (rank : String → ℕ) (payloadHash : String) : Option String :=
  (db.activeDuplicate rank payloadHash).orElse fun _ => db.anyDuplicate rank payloadHash

/-- `_insert_sync` without a legacy hash: an integrity error is raised as it is. -/
theorem run_insertSync_none (env : Env) (id : String) (payloadJson : PayloadJson) (now : ℕ)
    (gate : DedupMode) (canonicalHash : Option String) (db : Db) :
    alone (insertSync env id payloadJson now none gate canonicalHash) db =
      match Write.exec (.insertEpisode id
        (newEpisode payloadJson now none none canonicalHash gate)) db with
      | .ok (_, db') => (.ok (), Conn.idle db')
      | .error e => (.error (.integrity e), Conn.idle db) := by
  rcases h : Write.exec (.insertEpisode id
      (newEpisode payloadJson now none none canonicalHash gate)) db with e | ⟨n, db'⟩ <;>
    simp [alone, insertSync, withConn, Prog.run_bind, Prog.run_attempt, run_execute, h]

/-- **The insert of `enqueue` with a legacy hash.** A rejected row is reported as a race with
the row that holds its hash, by whichever constraint it was rejected. -/
theorem run_insertSync_some (env : Env) (id : String) (payloadJson : PayloadJson) (now : ℕ)
    {hash : String} (hne : hash ≠ "") (gate : DedupMode) (db : Db) :
    alone (insertSync env id payloadJson now (some hash) gate (some hash)) db =
      match Write.exec (.insertEpisode id
        (newEpisode payloadJson now (some hash) (some ("mcp:" ++ env.pid)) (some hash) gate)) db with
      | .ok (_, db') => (.ok (), Conn.idle db')
      | .error _ => (.error (.duplicateRace (db.holder env.rank hash) hash), Conn.idle db) := by
  rcases h : Write.exec (.insertEpisode id
      (newEpisode payloadJson now (some hash) (some ("mcp:" ++ env.pid)) (some hash) gate)) db
    with e | ⟨n, db'⟩
  · have hrun := run_tryWrite_error (ε := QueueError) (c := Conn.idle db) h
    rcases hact : db.activeDuplicate env.rank hash with _ | existing
    · simp [alone, insertSync, withConn, Prog.run_bind, Prog.run_attempt, hrun,
        run_findActiveDuplicate env hne, run_findAnyDuplicate env hne, hact, Db.holder]
    · simp [alone, insertSync, withConn, Prog.run_bind, Prog.run_attempt, hrun,
        run_findActiveDuplicate env hne, hact, Db.holder]
  · have hrun := run_tryWrite_ok (ε := QueueError) (c := Conn.idle db) h
    simp [alone, insertSync, withConn, Prog.run_bind, Prog.run_attempt, hrun]

/-- The ledger row of `_record_dedup_event_sync`. -/
def dedupEvent (env : Env) (mode : DedupMode) (action : EventAction)
    (payloadHash existing duplicate : Option String) : DedupEvent where
  detectedAt := env.detectedAt
  mode := .gate mode
  action
  payloadHash
  existingEpisodeId := existing
  duplicateEpisodeId := duplicate
  writer := some ("mcp:" ++ env.pid)

/-- The writers of the ledger differ in nothing but where the event comes from. -/
theorem run_recordDedupEventSync (env : Env) (mode : DedupMode) (action : EventAction)
    (payloadHash existing duplicate : Option String) (db : Db) :
    alone (recordDedupEventSync env mode action payloadHash existing duplicate) db =
      (.ok (), Conn.idle (db.logged (dedupEvent env mode action payloadHash existing duplicate))) :=
  run_recordDedupEvent _ db

namespace EnqueueArgs

variable (args : EnqueueArgs)

/-- The row `enqueue` inserts. -/
def row (sha : Sha256) (env : Env) : Episode :=
  if args.mode = .off then
    newEpisode (args.payload env).dumps env.now none none (some (args.canonicalHash sha)) .off
  else
    newEpisode (args.payload env).dumps env.now (some (args.canonicalHash sha))
      (some ("mcp:" ++ env.pid)) (some (args.canonicalHash sha)) args.mode

/-- The hash of an enqueue is never the empty text, which the lookups would take for none. -/
theorem canonicalHash_ne (sha : Sha256) : args.canonicalHash sha ≠ "" := sha.hexdigest_ne _

/-- The ledger row of the call. -/
def event (sha : Sha256) (env : Env) (action : EventAction) (existing : Option String) :
    DedupEvent :=
  dedupEvent env args.mode action (some (args.canonicalHash sha)) existing (some (args.epId env))

/-- What `enqueue` returns or raises, and the database it leaves. -/
def outcome (sha : Sha256) (env : Env) (db : Db) : Except QueueError String × Db :=
  let hash := args.canonicalHash sha
  let existing := db.activeDuplicate env.rank hash
  let holder := db.holder env.rank hash
  let inserted := Write.exec (.insertEpisode (args.epId env) (args.row sha env)) db
  match args.mode, inserted with
  | .off, .ok (_, db') => (.ok (args.epId env), db')
  | .off, .error e => (.error (.integrity e), db)
  | .observe, .ok (_, db') =>
    (.ok (args.epId env),
      if existing.isSome then db'.logged (args.event sha env .detected existing) else db')
  | .observe, .error _ =>
    (.ok (args.epId env), db.logged (args.event sha env .detected holder))
  | .enforce, inserted =>
    if existing.isSome then
      (.error (.duplicateEpisode existing hash), db.logged (args.event sha env .rejected existing))
    else
      match inserted with
      | .ok (_, db') => (.ok (args.epId env), db')
      | .error _ =>
        (.error (.duplicateEpisode holder hash), db.logged (args.event sha env .rejected holder))

end EnqueueArgs

/-- **`enqueue`, as one equation.** What the three modes do is told by `EnqueueArgs.outcome`;
each of them is one or two transactions, and none leaves the connection open. -/
theorem run_enqueue (sha : Sha256) (env : Env) (args : EnqueueArgs) (db : Db) :
    alone (enqueue sha env args) db =
      ((args.outcome sha env db).1, Conn.idle (args.outcome sha env db).2) := by
  have hfind := run_withConn_ok
    (run_findActiveDuplicate env (args.canonicalHash_ne sha) (Conn.idle db))
  have hinsert := run_insertSync_some env (args.epId env) (args.payload env).dumps env.now
    (args.canonicalHash_ne sha) args.mode db
  have hlog := fun action existing db => run_recordDedupEventSync env args.mode action
    (some (args.canonicalHash sha)) existing (some (args.epId env)) db
  simp only [alone] at hinsert hlog
  rcases hmode : args.mode with _ | _ | _
  · -- off: no lookup, and an integrity error is raised
    have hrun := run_insertSync_none env (args.epId env) (args.payload env).dumps env.now .off
      (some (args.canonicalHash sha)) db
    simp only [alone] at hrun
    rcases h : Write.exec (.insertEpisode (args.epId env) (args.row sha env)) db
      with e | ⟨n, db'⟩
    all_goals
      simp only [EnqueueArgs.row, hmode, if_true] at h
      simp [alone, enqueue, Prog.run_bind, EnqueueArgs.outcome, hmode, EnqueueArgs.row, hrun, h]
  · -- observe: whatever the lookup and the insert say, the id is returned
    rcases h : Write.exec (.insertEpisode (args.epId env) (args.row sha env)) db
      with e | ⟨n, db'⟩
    all_goals
      simp only [EnqueueArgs.row, hmode, reduceCtorEq, if_false] at h
      rw [hmode] at hinsert hlog
      rw [h] at hinsert
      rcases hdup : db.activeDuplicate env.rank (args.canonicalHash sha) with _ | existing
    all_goals
      simp [alone, enqueue, Prog.run_bind, Prog.run_attempt, EnqueueArgs.outcome, hmode,
        EnqueueArgs.row, EnqueueArgs.event, hfind, hinsert, hlog, h, hdup]
  · -- enforce: a duplicate found, or met by the insert, is rejected
    rcases hdup : db.activeDuplicate env.rank (args.canonicalHash sha) with _ | existing
    · rcases h : Write.exec (.insertEpisode (args.epId env) (args.row sha env)) db
        with e | ⟨n, db'⟩
      all_goals
        simp only [EnqueueArgs.row, hmode, reduceCtorEq, if_false] at h
        rw [hmode] at hinsert hlog
        rw [h] at hinsert
        simp [alone, enqueue, Prog.run_bind, Prog.run_attempt, EnqueueArgs.outcome, hmode,
          EnqueueArgs.row, EnqueueArgs.event, hfind, hinsert, hlog, h, hdup]
    · rw [hmode] at hlog
      simp [alone, enqueue, Prog.run_bind, EnqueueArgs.outcome, hmode, EnqueueArgs.event, hfind,
        hlog, hdup]

/-- An accepted `INSERT` met no row under its id, and its columns are there now. -/
theorem Db.insertEpisode_ok {db db' : Db} {id : String} {e : Episode} {n : ℕ}
    (h : Write.exec (.insertEpisode id e) db = .ok (n, db')) :
    db.episodes.get? id = none ∧ db' = { db with episodes := db.episodes.put id e } := by
  simp only [Write.exec] at h
  split at h
  · cases h
  · rename_i hnone
    split at h
    · cases h
    · obtain ⟨-, rfl⟩ := Prod.mk.inj (Except.ok.inj h)
      exact ⟨Option.not_isSome_iff_eq_none.mp hnone, rfl⟩

/-- What an enqueue can do to the tables: nothing, or one new row. -/
structure Db.Enqueued (db db' : Db) : Prop where
  deadLetter : db'.deadLetter = db.deadLetter
  episodes : db'.episodes = db.episodes ∨
    ∃ id payloadJson now payloadHash claimedBy canonicalHash gate,
      db.episodes.get? id = none ∧
      db'.episodes = db.episodes.put id
        (newEpisode payloadJson now payloadHash claimedBy canonicalHash gate)

/-- A writer that refuses has added nothing. -/
theorem Db.Enqueued.refl (db : Db) : db.Enqueued db := ⟨rfl, Or.inl rfl⟩

/-- Neither does an event after it. -/
theorem Db.Enqueued.of_logged {db db' : Db} {ev : DedupEvent} (h : db.Enqueued db') :
    db.Enqueued (db'.logged ev) := ⟨h.deadLetter, h.episodes⟩

/-- Nor one before it. -/
theorem Db.Enqueued.logged {db db' : Db} {ev : DedupEvent} (h : (db.logged ev).Enqueued db') :
    db.Enqueued db' := ⟨h.deadLetter, h.episodes⟩

/-- An accepted `INSERT` of a writer adds a row that is queued, with no attempts. -/
theorem Db.enqueued_insert {db db' : Db} {id : String} {payloadJson : PayloadJson} {now n : ℕ}
    {payloadHash claimedBy canonicalHash : Option String} {gate : DedupMode}
    (h : Write.exec (.insertEpisode id
      (newEpisode payloadJson now payloadHash claimedBy canonicalHash gate)) db = .ok (n, db')) :
    db.Enqueued db' := by
  obtain ⟨hnone, rfl⟩ := insertEpisode_ok h
  exact ⟨rfl, Or.inr ⟨id, payloadJson, now, payloadHash, claimedBy, canonicalHash, gate, hnone,
    rfl⟩⟩

/-- All that `enqueue` does to the episodes. -/
theorem EnqueueArgs.enqueued_outcome (sha : Sha256) (env : Env) (args : EnqueueArgs) (db : Db) :
    db.Enqueued (args.outcome sha env db).2 := by
  have hins : ∀ n db', Write.exec (.insertEpisode (args.epId env) (args.row sha env)) db =
      .ok (n, db') → db.Enqueued db' := by
    intro n db' h
    by_cases hmode : args.mode = .off
    · rw [EnqueueArgs.row, if_pos hmode] at h
      exact Db.enqueued_insert h
    · rw [EnqueueArgs.row, if_neg hmode] at h
      exact Db.enqueued_insert h
  rcases hmode : args.mode with _ | _ | _ <;>
    rcases h : Write.exec (.insertEpisode (args.epId env) (args.row sha env)) db
      with e | ⟨n, db'⟩ <;>
    simp only [outcome, hmode, h]
  · exact Db.Enqueued.refl db
  · exact hins _ _ h
  · exact (Db.Enqueued.refl db).of_logged
  · split
    · exact (hins _ _ h).of_logged
    · exact hins _ _ h
  · split <;> exact (Db.Enqueued.refl db).of_logged
  · split
    · exact (Db.Enqueued.refl db).of_logged
    · exact hins _ _ h

/-- The row the adapter inserts. -/
def adapterRow (env : Env) (content groupId : String) (name : Option String)
    (sourceDescription payloadHash : String) (claimedBy : Option String) (mode : DedupMode) :
    Episode :=
  newEpisode (Payload.dumps ⟨content, groupId, pyOr name (defaultName env.uuid), sourceDescription⟩)
    env.now (if mode = .off then none else some payloadHash) claimedBy (some payloadHash) mode

/-- What the adapter raises when its `INSERT` is rejected with `e`. -/
def adapterError (e : IntegrityError) : Option String → QueueError
  | some existing => if existing = "" then .integrity e else .episodeDuplicate existing
  | none => .integrity e

/-- `_insert_with_hash_sync` of the adapter. An integrity error is translated by what a
lookup then finds under the hash. -/
theorem run_insertWithHashSync (env : Env) (content groupId : String) (name : Option String)
    (sourceDescription : String) {payloadHash : String} (hhash : payloadHash ≠ "")
    (claimedBy : Option String) (mode : DedupMode) (db : Db) :
    alone (insertWithHashSync env content groupId name sourceDescription payloadHash claimedBy
        mode) db =
      match Write.exec (.insertEpisode env.uuid
        (adapterRow env content groupId name sourceDescription payloadHash claimedBy mode)) db with
      | .ok (_, db') => (.ok env.uuid, Conn.idle db')
      | .error e =>
        (.error (adapterError e (db.activeDuplicate env.rank payloadHash)), Conn.idle db) := by
  rcases h : Write.exec (.insertEpisode env.uuid (adapterRow env content groupId name
    sourceDescription payloadHash claimedBy mode)) db with e | ⟨n, db'⟩
  · have hrun := run_tryWrite_error (ε := QueueError) (c := Conn.idle db) h
    simp only [adapterRow] at hrun
    have hfind := run_findActiveDuplicate env hhash
    rcases hact : db.activeDuplicate env.rank payloadHash with _ | existing
    · simp [alone, insertWithHashSync, withConn, Prog.run_bind, Prog.run_attempt, hrun, hfind,
        hact, adapterError]
    · by_cases hne : existing = "" <;>
        simp [alone, insertWithHashSync, withConn, Prog.run_bind, Prog.run_attempt, hrun, hfind,
          hact, hne, adapterError]
  · have hrun := run_tryWrite_ok (ε := QueueError) (c := Conn.idle db) h
    simp only [adapterRow] at hrun
    simp [alone, insertWithHashSync, withConn, Prog.run_bind, Prog.run_attempt, hrun]

/-- All that it does to the episodes. -/
theorem enqueued_insertWithHashSync (env : Env) (content groupId : String) (name : Option String)
    (sourceDescription : String) {payloadHash : String} (hhash : payloadHash ≠ "")
    (claimedBy : Option String) (mode : DedupMode) (db : Db) :
    ∃ db', (alone (insertWithHashSync env content groupId name sourceDescription payloadHash
      claimedBy mode) db).2 = Conn.idle db' ∧ db.Enqueued db' := by
  rw [run_insertWithHashSync env content groupId name sourceDescription hhash]
  rcases h : Write.exec (.insertEpisode env.uuid (adapterRow env content groupId name
    sourceDescription payloadHash claimedBy mode)) db with e | ⟨n, db'⟩
  · exact ⟨db, rfl, Db.Enqueued.refl db⟩
  · exact ⟨db', rfl, Db.enqueued_insert h⟩

/-- `enqueue_guarded` leaves what `enqueue` may leave. `WriterParity.lean` compares the two
call by call. -/
theorem run_enqueueGuarded (sha : Sha256) (env : Env) (lockMode : LockMode)
    (instanceId content groupId : String) (name : Option String) (sourceDescription : String)
    (mode : DedupMode) (db : Db) :
    ∃ db', (alone (enqueueGuarded sha env lockMode instanceId content groupId name
      sourceDescription mode) db).2 = Conn.idle db' ∧ db.Enqueued db' := by
  have hne : canonicalPayloadHash sha content groupId sourceDescription ≠ "" := sha.hexdigest_ne _
  have hfind := run_withConn_ok (run_findActiveDuplicate env hne (Conn.idle db))
  have hlog : ∀ action existing db, ∃ ev, alone (adapterRecordDedupEvent env mode action
      (canonicalPayloadHash sha content groupId sourceDescription) existing) db =
        (.ok (), Conn.idle (db.logged ev)) :=
    fun action existing db => ⟨_, run_recordDedupEvent _ db⟩
  have hinsert := enqueued_insertWithHashSync env content groupId name sourceDescription hne
    (some instanceId) mode
  by_cases hlock : lockMode = .mcpOnly
  · exact ⟨db, by simp [alone, enqueueGuarded, hlock], Db.Enqueued.refl db⟩
  by_cases hoff : mode = .off
  · obtain ⟨db', hrun, henq⟩ := hinsert db
    refine ⟨db', ?_, henq⟩
    simpa [alone, enqueueGuarded, hlock, hoff] using hoff ▸ hrun
  rcases hact : db.activeDuplicate env.rank
      (canonicalPayloadHash sha content groupId sourceDescription) with _ | existing
  · obtain ⟨db', hrun, henq⟩ := hinsert db
    refine ⟨db', ?_, henq⟩
    simpa [alone, enqueueGuarded, hlock, hoff, Prog.run_bind, hfind, hact] using hrun
  by_cases henforce : mode = .enforce
  · obtain ⟨ev, hev⟩ := hlog .rejected existing db
    refine ⟨db.logged ev, ?_, (Db.Enqueued.refl db).of_logged⟩
    rw [henforce] at hev
    simp only [alone] at hev
    simp [alone, enqueueGuarded, hlock, Prog.run_bind, hfind, hact, henforce, hev]
  · obtain ⟨ev, hev⟩ := hlog .detected existing db
    obtain ⟨db', hrun, henq⟩ := hinsert (db.logged ev)
    refine ⟨db', ?_, henq.logged⟩
    simp only [alone] at hev hrun
    simp [alone, enqueueGuarded, hlock, hoff, Prog.run_bind, hfind, hact, henforce, hev, hrun]

/-! ## The remaining operations -/

/-- `mark_skipped_duplicate` writes its ledger row on a second connection. -/
theorem run_markSkippedDuplicate (env : Env) (id : String) (existing payloadHash : Option String)
    (db : Db) :
    ∃ db' error, alone (markSkippedDuplicate env id existing payloadHash) db =
        (.ok (), Conn.idle db') ∧
      db'.episodes = (db.update id (.skipDuplicate error env.now)).episodes ∧
      db'.deadLetter = db.deadLetter := by
  set u : EpisodeUpdate := .skipDuplicate
    ("skipped: payload already ingested as " ++ pyOr existing "unknown") env.now with hu
  have hacc : db.rejects id u = false :=
    Db.rejects_of_inactive fun e => by simp [hu, EpisodeUpdate.set, activeStatuses]
  have hrun : (withConn do
      let _ ← execute (.updateEpisode id u)
      commit : Sql Unit).run (Conn.step Write.exec) (Conn.idle db) =
        (.ok (), Conn.idle (db.update id u)) := by
    simp [withConn, Prog.run_bind, Prog.run_attempt, run_execute, Write.exec, hacc]
  have hbody : alone (markSkippedDuplicate env id existing payloadHash) db =
      alone (if pyOr existing "" ≠ "" ∨ pyOr payloadHash "" ≠ "" then recordDedupEvent
        { detectedAt := env.detectedAt
          mode := .backstop
          action := .backstopSkipped
          payloadHash
          existingEpisodeId := existing
          duplicateEpisodeId := some id
          writer := some ("worker:" ++ env.pid) } else pure ()) (db.update id u) :=
    Prog.run_bind_ok hrun
  rw [hbody]
  split
  · exact ⟨_, _, run_recordDedupEvent _ _, rfl, rfl⟩
  · exact ⟨_, _, rfl, rfl, rfl⟩

/-- The database that `mark_skipped_duplicate` leaves: the row is marked, the dead letters stay.
With which text the row is marked is left open, and so is the ledger. -/
theorem exec_markSkippedDuplicate (env : Env) (id : String) (existing payloadHash : Option String)
    (db : Db) :
    ∃ db' error, (alone (markSkippedDuplicate env id existing payloadHash) db).2 = Conn.idle db' ∧
      db'.episodes = (db.update id (.skipDuplicate error env.now)).episodes ∧
      db'.deadLetter = db.deadLetter := by
  obtain ⟨db', error, hrun, hdb'⟩ := run_markSkippedDuplicate env id existing payloadHash db
  exact ⟨db', error, congrArg Prod.snd hrun, hdb'⟩

end JanusGraph
