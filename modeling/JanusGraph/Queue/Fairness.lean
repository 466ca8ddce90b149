import Mathlib.Data.List.ReduceOption
import JanusGraph.Lib.Rotation
import JanusGraph.Queue.Transition

/-!
# Whether the sweeps get round to every row

`reap_failed_or_aborted` picks the eligible rows in the order of `updated_at`, and its own
write to that column moves them to the back. A row that the unique index keeps from being
requeued is skipped without a write: it stays at the head of the order and is picked again.
`replay_dlq_batch` leaves such a row open at the head of its queue in the same way.

Progress is a property of one call, fairness of a run.

* **Progress.** The requeues of a call are tried one after the other, and the first that the
  index accepts is decided on the database of the beginning: up to then nothing has changed
  (`run_requeueGuarded`, `run_replayRows`). So a call gets something done exactly if one of
  the first `limit` rows of its queue is free (`FreeWithin`).
* **Fairness.** The argument is about any queue that is ordered by a stamp: a step takes the
  lowest stamps and gives them the highest (`Step.Rotates`). `rotation_of_rotates` makes the
  runs of the reaper such a queue, where the stamp is `updated_at` (`Db.stamp`), and fairness
  is what the general argument yields.
* **What rotation asks for.** The clock is not behind the table, nothing else rewrites a row
  that waits, and the index accepts every requeue of the pick. The last is where the reaper
  fails: a rejected row keeps its stamp.
-/

namespace JanusGraph

open Script

/-! ## The two queues -/

/-- The eligible rows in the order in which `reap_failed_or_aborted` picks them. -/
def Db.reapQueue (db : Db) (rank : String → ℕ) (policy : RetryPolicy) : List (String × Episode) :=
  Table.orderBy (fun r => r.2.updatedAt) rank <|
    db.episodes.rows.filter fun r => reapEligible policy r.2 (db.deadLetter.get? r.1)

/-- The eligible dead letters in the order in which `replay_dlq_batch` picks them. -/
def Db.replayQueue (db : Db) (env : Env) (policy : RetryPolicy) (classes : List String)
    (minAgeSec : ℤ) : List (String × DeadLetter) :=
  Table.orderBy (fun r => r.2.failedAt) env.rank <|
    db.deadLetter.rows.filter fun r => replayEligible policy classes minAgeSec env.now r.2

/-- The row can be reaped. -/
def Db.Reapable (policy : RetryPolicy) (db : Db) (id : String) : Prop :=
  ∃ e, db.episodes.get? id = some e ∧ reapEligible policy e (db.deadLetter.get? id) = true

/-- The requeue of the row does not conflict with the index. -/
def Db.Requeues (db : Db) (now : ℕ) (id : String) : Prop :=
  db.rejects id (.requeue now .resetFailures) = false

/-- The dead letter's episode can be requeued: it is there and not done, and its requeue does
not conflict with the index. -/
def Db.Replays (db : Db) (now : ℕ) (id : String) : Prop :=
  (∃ e, db.episodes.get? id = some e ∧ e.status ≠ .done) ∧
    db.rejects id (.replayBatch now) = false

/-- One of the first `limit` rows of the queue is free. -/
def FreeWithin {ρ : Type} (free : String → Prop) (limit : ℤ) (queue : List (String × ρ)) : Prop :=
  ∃ before r after, queue = before ++ r :: after ∧ (before.length : ℤ) < limit ∧ free r.1

/-! ## Progress -/

/-- If a row can be reaped and requeued, the call requeues a row. -/
def ReapProgress (env : Env) (limit : Option ℤ) (policy : Option RetryPolicy) (db : Db) : Prop :=
  (∃ id, db.Reapable (policy.getD {}) id ∧ db.Requeues env.now id) →
    ∃ n, 1 ≤ n ∧ (alone (reapFailedOrAborted env limit policy) db).1 = .ok n

/-- If an eligible dead letter can be replayed, the call replays one. -/
def ReplayProgress (env : Env) (limit : ℤ) (classes : List String) (minAgeSec : ℤ)
    (policy : Option RetryPolicy) (db : Db) : Prop :=
  (∃ id d, db.deadLetter.get? id = some d ∧
      replayEligible (policy.getD {}) classes minAgeSec env.now d = true ∧
      db.Replays env.now id) →
    ∃ n, 1 ≤ n ∧ (alone (replayDlqBatch env limit classes minAgeSec policy) db).1 = .ok n

section

variable {db : Db} {env : Env} {policy : RetryPolicy}

theorem Db.mem_reapQueue {rank : String → ℕ} {r : String × Episode} :
    r ∈ db.reapQueue rank policy ↔ db.episodes.get? r.1 = some r.2 ∧
      reapEligible policy r.2 (db.deadLetter.get? r.1) = true := by
  rw [reapQueue, Table.mem_orderBy, List.mem_filter]
  exact and_congr_left' Table.mem_rows

/-- What a positive limit takes of a queue. -/
theorem freeWithin_iff {ρ : Type} {free : String → Prop} {limit : ℤ} (hlimit : 1 ≤ limit)
    {queue : List (String × ρ)} :
    FreeWithin free limit queue ↔ ∃ r ∈ sqlLimit limit queue, free r.1 := by
  rw [sqlLimit, if_neg (by omega)]
  constructor
  · rintro ⟨before, r, after, rfl, hlength, hfree⟩
    refine ⟨r, ?_, hfree⟩
    obtain ⟨n, hn⟩ : ∃ n, limit.toNat = before.length + (n + 1) :=
      ⟨limit.toNat - before.length - 1, by omega⟩
    rw [hn, List.take_length_add_append]
    simp
  · rintro ⟨r, hr, hfree⟩
    obtain ⟨before, after, htake⟩ := List.append_of_mem hr
    refine ⟨before, r, after ++ queue.drop limit.toNat, ?_, ?_, hfree⟩
    · rw [← List.cons_append, ← List.append_assoc, ← htake, List.take_append_drop]
    · have hlength := congrArg List.length htake
      rw [List.length_take, List.length_append, List.length_cons] at hlength
      omega

/-- **An idle call.** A loop of requeues is idle exactly if the index rejects all of them
from the start: a rejected requeue changes nothing, so that the next one meets the same
database. -/
theorem run_requeueGuarded (now : ℕ) (ids : List String) {c : Conn Db} (hc : c.Between) :
    ∃ requeued c', (requeueGuarded now .resetFailures ids).run (Conn.step Write.exec) c =
        (.ok requeued, c') ∧ (requeued = [] ↔ ∀ id ∈ ids, ¬ c.visible.Requeues now id) := by
  have hloop : ∃ turns c', (Prog.forEach (requeueRow now .resetFailures) ids).run
      (Conn.step Write.exec) c = (.ok turns, c') ∧
        (turns.reduceOption = [] ↔ ∀ id ∈ ids, ¬ c.visible.Requeues now id) := by
    induction ids generalizing c with
    | nil => exact ⟨[], c, rfl, by simp⟩
    | cons id ids ih =>
      obtain ⟨c₁, hturn, hc₁, hvisible⟩ := run_requeueRow_turn now .resetFailures id c hc
      obtain ⟨turns, c₂, hrest, hturns⟩ := ih hc₁
      have hrun : (Prog.forEach (requeueRow now .resetFailures) (id :: ids)).run
          (Conn.step Write.exec) c = (.ok ((if c.visible.rejects id (.requeue now .resetFailures)
            then none else some id) :: turns), c₂) := by
        rw [Prog.forEach, Prog.run_bind_ok hturn, Prog.run_bind_ok hrest]
        rfl
      refine ⟨_, c₂, hrun, ?_⟩
      by_cases hrej : c.visible.rejects id (.requeue now .resetFailures) = true
      · rw [hvisible, Db.requeueRow, Db.apply_update, if_pos hrej] at hturns
        rw [if_pos hrej, List.reduceOption_cons_of_none, hturns, List.forall_mem_cons, Db.Requeues,
          hrej]
        simp
      · rw [if_neg hrej, List.reduceOption_cons_of_some]
        simp [Db.Requeues, hrej]
  obtain ⟨turns, c', hrun, hturns⟩ := hloop
  exact ⟨turns.reduceOption, c', by rw [requeueGuarded, Prog.run_bind_ok hrun]; rfl, hturns⟩

/-- **Progress of one call.** It requeues a row exactly if the index accepts one of the first
`limit` of its queue. -/
theorem reaps_iff {limit : Option ℤ} {policy : Option RetryPolicy}
    (hlimit : 1 ≤ limit.getD (policy.getD {}).reapLimit) :
    (∃ n, 1 ≤ n ∧ (alone (reapFailedOrAborted env limit policy) db).1 = .ok n) ↔
      FreeWithin (db.Requeues env.now) (limit.getD (policy.getD {}).reapLimit)
        (db.reapQueue env.rank (policy.getD {})) := by
  have hrows : db.reapable env.rank (policy.getD {}) (limit.getD (policy.getD {}).reapLimit) =
      sqlLimit (limit.getD (policy.getD {}).reapLimit)
        (db.reapQueue env.rank (policy.getD {})) := rfl
  rw [freeWithin_iff hlimit, ← hrows]
  have hnot : ¬ limit.getD (policy.getD {}).reapLimit ≤ 0 := by omega
  obtain ⟨requeued, c, hrun, hidle⟩ := run_requeueGuarded env.now
    ((db.reapable env.rank (policy.getD {}) (limit.getD (policy.getD {}).reapLimit)).map Prod.fst)
    (Conn.between_idle db)
  have hresult : (alone (reapFailedOrAborted env limit policy) db).1 = .ok requeued.length := by
    rcases hpicks : db.reapable env.rank (policy.getD {})
      (limit.getD (policy.getD {}).reapLimit) with _ | ⟨row, rows⟩
    · have hnil : requeued = [] := hidle.mpr (by simp [hpicks])
      simp [alone, reapFailedOrAborted, hnot, withConn, Prog.run_bind, Prog.run_attempt, hpicks, hnil]
    · rw [hpicks] at hrun
      simp only [List.map_cons] at hrun
      simp [alone, reapFailedOrAborted, hnot, withConn, Prog.run_bind, Prog.run_attempt, hpicks,
        hrun]
  have hsome : (∃ n, 1 ≤ n ∧ (alone (reapFailedOrAborted env limit policy) db).1 = .ok n) ↔
      requeued ≠ [] := by
    rw [hresult, ← List.length_pos_iff]
    constructor
    · rintro ⟨n, hn, ⟨⟩⟩
      exact hn
    · exact fun h => ⟨_, h, rfl⟩
  rw [hsome, Ne, hidle]
  simp

/-- The progress of the reaper, exactly. -/
theorem reapProgress_iff {limit : Option ℤ} {policy : Option RetryPolicy}
    (hlimit : 1 ≤ limit.getD (policy.getD {}).reapLimit) :
    ReapProgress env limit policy db ↔
      ((∃ id, db.Reapable (policy.getD {}) id ∧ db.Requeues env.now id) →
        FreeWithin (db.Requeues env.now) (limit.getD (policy.getD {}).reapLimit)
          (db.reapQueue env.rank (policy.getD {}))) := by
  rw [ReapProgress, reaps_iff hlimit]

/-- Whether a dead letter can be replayed depends on the episodes alone. -/
theorem Db.replays_congr {db' : Db} (hepisodes : db'.episodes = db.episodes)
    (hindex : db'.uniqueIndex = db.uniqueIndex) {now : ℕ} {id : String} :
    db'.Replays now id ↔ db.Replays now id := by
  have hconflicts : db'.conflicts id = db.conflicts id :=
    funext fun e => by rw [conflicts, conflicts, hepisodes, hindex]
  simp only [Replays, rejects, updated, hconflicts, hepisodes]

theorem Db.updated_replayBatch_eq_none_iff {now : ℕ} {id : String} :
    db.updated id (.replayBatch now) = none ↔
      ∀ e, db.episodes.get? id = some e → e.status = .done := by
  rw [updated, Option.map_eq_none_iff, Option.filter_eq_none_iff]
  simp [EpisodeUpdate.admits]

theorem Db.replayedCount_eq (db : Db) (now : ℕ) (row : String × DeadLetter) :
    (db.replayedCount now row = 1 ∧ db.Replays now row.1) ∨
      (db.replayedCount now row = 0 ∧ ¬ db.Replays now row.1) := by
  rw [replayedCount]
  by_cases hrej : db.rejects row.1 (.replayBatch now) = true
  · right
    rw [if_pos hrej]
    exact ⟨rfl, fun h => by rw [h.2] at hrej; cases hrej⟩
  · rw [if_neg hrej]
    rcases hu : db.updated row.1 (.replayBatch now) with _ | e
    · right
      refine ⟨rfl, ?_⟩
      rintro ⟨⟨e, he, hdone⟩, -⟩
      exact hdone (updated_replayBatch_eq_none_iff.mp hu e he)
    · left
      refine ⟨rfl, ?_, by simpa using hrej⟩
      by_contra hnone
      push Not at hnone
      rw [updated_replayBatch_eq_none_iff.mpr hnone] at hu
      cases hu

/-- A turn that replays nothing leaves the episodes as they are. -/
theorem Db.episodes_replayRow {now : ℕ} {row : String × DeadLetter}
    (h : ¬ db.Replays now row.1) : (db.replayRow now row).episodes = db.episodes ∧
      (db.replayRow now row).uniqueIndex = db.uniqueIndex := by
  rw [replayRow]
  by_cases hrej : db.rejects row.1 (.replayBatch now) = true
  · rw [if_pos hrej]
    exact ⟨rfl, rfl⟩
  · rw [if_neg hrej]
    refine ⟨Table.ext_get? (Table.keys_modify _ _ _) fun k _ => ?_, rfl⟩
    have hdone : ∀ e, db.episodes.get? row.1 = some e → e.status = .done := by
      by_contra hnone
      push Not at hnone
      exact h ⟨hnone, by simpa using hrej⟩
    change (db.episodes.modify row.1 _).get? k = db.episodes.get? k
    rw [Table.get?_modify]
    split
    · rename_i hk
      subst hk
      rcases he : db.episodes.get? row.1 with _ | e
      · rfl
      · simp [EpisodeUpdate.admits, hdone e he]
    · rfl

/-- **An idle batch.** A loop of replays is idle exactly if none of its rows can be replayed
from the start. A turn may close a dead letter and replay nothing, which leaves the episodes
as they are. -/
theorem run_replayRows (now : ℕ) (rows : List (String × DeadLetter)) {c : Conn Db}
    (hc : c.Between) :
    ∃ turns c', (Prog.forEach (replayRow now) rows).run (Conn.step Write.exec) c =
        (.ok turns, c') ∧ (1 ≤ turns.sum ↔ ∃ r ∈ rows, c.visible.Replays now r.1) := by
  induction rows generalizing c with
  | nil => exact ⟨[], c, rfl, by simp⟩
  | cons row rows ih =>
    obtain ⟨c₁, hturn, hc₁, hvisible⟩ := run_replayRow_turn now row c hc
    obtain ⟨turns, c₂, hrest, hturns⟩ := ih hc₁
    have hrun : (Prog.forEach (replayRow now) (row :: rows)).run (Conn.step Write.exec) c =
        (.ok (c.visible.replayedCount now row :: turns), c₂) := by
      rw [Prog.forEach, Prog.run_bind_ok hturn, Prog.run_bind_ok hrest]
      rfl
    refine ⟨_, c₂, hrun, ?_⟩
    rw [List.sum_cons]
    rcases Db.replayedCount_eq c.visible now row with ⟨hone, hfree⟩ | ⟨hzero, hheld⟩
    · rw [hone]
      exact iff_of_true (by omega) ⟨row, List.mem_cons_self, hfree⟩
    · obtain ⟨hepisodes, hindex⟩ := Db.episodes_replayRow hheld
      rw [hvisible] at hturns
      simp only [Db.replays_congr hepisodes hindex] at hturns
      rw [hzero, Nat.zero_add, hturns]
      simp [hheld]

/-- A call replays a row exactly if one of the first `limit` of its queue can be replayed. -/
theorem replays_iff {limit : ℤ} (hlimit : 1 ≤ limit) {classes : List String} {minAgeSec : ℤ}
    {policy : Option RetryPolicy} :
    (∃ n, 1 ≤ n ∧ (alone (replayDlqBatch env limit classes minAgeSec policy) db).1 = .ok n) ↔
      FreeWithin (db.Replays env.now) limit
        (db.replayQueue env (policy.getD {}) classes minAgeSec) := by
  have hrows : db.replayable env (policy.getD {}) classes minAgeSec limit =
      sqlLimit limit (db.replayQueue env (policy.getD {}) classes minAgeSec) := rfl
  rw [freeWithin_iff hlimit, ← hrows]
  obtain ⟨turns, c, hrun, hturns⟩ := run_replayRows env.now
    (db.replayable env (policy.getD {}) classes minAgeSec limit) (Conn.between_idle db)
  rw [Conn.visible_idle] at hturns
  have hresult : (alone (replayDlqBatch env limit classes minAgeSec policy) db).1 =
      .ok turns.sum := by
    rcases hpicks : db.replayable env (policy.getD {}) classes minAgeSec limit with _ | ⟨row, rows⟩
    · rw [hpicks] at hrun
      obtain rfl := Except.ok.inj (Prod.mk.inj hrun).1
      simp [alone, replayDlqBatch, withConn, Prog.run_bind, Prog.run_attempt, hpicks]
    · rw [hpicks] at hrun
      simp [alone, replayDlqBatch, withConn, Prog.run_bind, Prog.run_attempt, hpicks, hrun]
  rw [hresult, ← hturns]
  constructor
  · rintro ⟨n, hn, ⟨⟩⟩
    exact hn
  · exact fun h => ⟨_, h, rfl⟩

/-- The progress of the replay, exactly. -/
theorem replayProgress_iff {limit : ℤ} (hlimit : 1 ≤ limit) {classes : List String}
    {minAgeSec : ℤ} {policy : Option RetryPolicy} :
    ReplayProgress env limit classes minAgeSec policy db ↔
      ((∃ id d, db.deadLetter.get? id = some d ∧
          replayEligible (policy.getD {}) classes minAgeSec env.now d = true ∧
          db.Replays env.now id) →
        FreeWithin (db.Replays env.now) limit
          (db.replayQueue env (policy.getD {}) classes minAgeSec)) := by
  rw [ReplayProgress, replays_iff hlimit]

end

/-! ## Fairness -/

deriving instance DecidableEq for RetryPolicy

/-- What a step picks, in order, if it is a call of `reap_failed_or_aborted` with the policy. -/
def Step.picked (policy : RetryPolicy) (db : Db) (st : Step) : List String :=
  match st.op with
  | .reapFailedOrAborted limit policy' =>
    if policy'.getD {} = policy ∧ 0 < limit.getD policy.reapLimit then
      (db.reapable st.env.rank policy (limit.getD policy.reapLimit)).map Prod.fst
    else []
  | _ => []

/-- The database before step `k` of a run. -/
def dbAt (sha : Sha256) (db : Db) (steps : List Step) (k : ℕ) : Db :=
  runSteps sha db (steps.take k)

/-- What step `k` picks. -/
def pickedAt (sha : Sha256) (policy : RetryPolicy) (db : Db) (steps : List Step) (k : ℕ) :
    List String :=
  steps[k]?.elim [] fun st => st.picked policy (dbAt sha db steps k)

/-- No row is picked a second time before every row that could be reaped since the first pick
has been picked. -/
def ReapFair (sha : Sha256) (policy : RetryPolicy) (db : Db) (steps : List Step) : Prop :=
  ∀ i j id id', i < j → id ∈ pickedAt sha policy db steps i → id ∈ pickedAt sha policy db steps j →
    (∀ k, i ≤ k → k ≤ j → (dbAt sha db steps k).Reapable policy id') →
    (∃ k, i ≤ k ∧ k < j ∧ id' ∈ pickedAt sha policy db steps k) ∨
      (pickedAt sha policy db steps j).StandsBefore id' id

/-- The call rewrites the row whatever its status, and can leave it eligible. -/
def Op.Rewrites (op : Op) (id : String) : Prop :=
  (∃ error, op = .markFailed id error) ∨ (∃ error, op = .markAborted id error) ∨
    ∃ text, op = .updateCheckpoint id text

/-- The index accepts the requeues of all `ids`: none conflicts with a row of the table, and no
two of them with each other. -/
def Db.AllRequeue (db : Db) (now : ℕ) (ids : List String) : Prop :=
  (∀ id ∈ ids, db.Requeues now id) ∧
    (db.uniqueIndex = true → ∀ id ∈ ids, ∀ id' ∈ ids, ∀ e e' key,
      db.episodes.get? id = some e → db.episodes.get? id' = some e' →
      (EpisodeUpdate.set (.requeue now .resetFailures) e).indexKey = some key →
      (EpisodeUpdate.set (.requeue now .resetFailures) e').indexKey = some key → id = id')

/-- What makes a step rotate the queue of the reaper. -/
structure Step.Rotates (policy : RetryPolicy) (db : Db) (st : Step) : Prop where
  /-- the clock is not behind the table -/
  clock : ∀ id e, db.episodes.get? id = some e → e.updatedAt ≤ st.env.now
  /-- nothing but a pick rewrites a row that can be reaped -/
  handsOff : ∀ id, st.op.Rewrites id → ¬ db.Reapable policy id
  /-- a call that leaves rows for later requeues all that it picks, and the clock is ahead of
  what it leaves -/
  moves : ∀ id', st.picked policy db ≠ [] → db.Reapable policy id' → id' ∉ st.picked policy db →
    db.AllRequeue st.env.now (st.picked policy db) ∧
      ∀ e, db.episodes.get? id' = some e → e.updatedAt < st.env.now

/-- `updated_at` of a row; there is no earlier one than that of a row that is not there. -/
def Db.stamp (db : Db) (id : String) : ℕ := (db.episodes.get? id).elim 0 Episode.updatedAt

section

variable {sha : Sha256} {policy : RetryPolicy} {db : Db} {st : Step}

theorem Db.stamp_eq {id : String} {e : Episode} (h : db.episodes.get? id = some e) :
    db.stamp id = e.updatedAt := by
  rw [stamp, h]
  rfl

/-- A picked row is one of the first of the reaper's queue. -/
theorem Step.mem_picked {id : String} (h : id ∈ st.picked policy db) :
    ∃ limit : ℤ, 0 < limit ∧
      st.picked policy db = (sqlLimit limit (db.reapQueue st.env.rank policy)).map Prod.fst ∧
      ∃ policy' limit', st.op = .reapFailedOrAborted limit' policy' ∧ policy'.getD {} = policy ∧
        limit'.getD policy.reapLimit = limit := by
  obtain ⟨env, op⟩ := st
  cases op with
  | reapFailedOrAborted limit policy' =>
    by_cases hcall : policy'.getD {} = policy ∧ 0 < limit.getD policy.reapLimit
    · exact ⟨limit.getD policy.reapLimit, hcall.2, if_pos hcall, policy', limit, rfl, hcall.1, rfl⟩
    · have hnil : picked policy db ⟨env, .reapFailedOrAborted limit policy'⟩ = [] := if_neg hcall
      rw [hnil] at h
      exact absurd h List.not_mem_nil
  | _ => exact absurd h List.not_mem_nil

/-- A row with a smaller `updated_at` is picked before. -/
theorem Step.picked_standsBefore {id id' : String} (hid : id ∈ st.picked policy db)
    (hid' : db.Reapable policy id') (hlt : db.stamp id' < db.stamp id) :
    (st.picked policy db).StandsBefore id' id := by
  obtain ⟨limit, hlimit, hpicked, -⟩ := mem_picked hid
  obtain ⟨e', he', helig'⟩ := hid'
  rw [hpicked, sqlLimit, if_neg (by omega)] at hid ⊢
  obtain ⟨⟨id, e⟩, hrow, rfl⟩ := List.mem_map.mp hid
  obtain ⟨before, after, htake⟩ := List.append_of_mem hrow
  have hqueue : db.reapQueue st.env.rank policy =
      before ++ (id, e) :: (after ++ (db.reapQueue st.env.rank policy).drop limit.toNat) := by
    rw [← List.cons_append, ← List.append_assoc, ← htake, List.take_append_drop]
  have he : db.episodes.get? id = some e :=
    (Db.mem_reapQueue.mp ((List.take_sublist _ _).subset hrow)).1
  rw [Db.stamp_eq he, Db.stamp_eq he'] at hlt
  refine ⟨before.map Prod.fst, after.map Prod.fst, by rw [htake]; simp, ?_⟩
  have hmem' : (id', e') ∈ db.reapQueue st.env.rank policy := Db.mem_reapQueue.mpr ⟨he', helig'⟩
  have hsorted : (db.reapQueue st.env.rank policy).Pairwise fun a b =>
      a.2.updatedAt ≤ b.2.updatedAt := Table.pairwise_orderBy _ _ _
  rw [hqueue] at hmem' hsorted
  rcases List.mem_append.mp hmem' with h | h
  · exact List.mem_map.mpr ⟨_, h, rfl⟩
  rcases List.mem_cons.mp h with h | h
  · obtain ⟨-, rfl⟩ := Prod.mk.inj h
    exact absurd hlt (lt_irrefl _)
  · -- the queue would go down
    have hle := List.rel_of_pairwise_cons (List.pairwise_append.mp hsorted).2.1 h
    exact absurd hle (not_le.mpr hlt)

/-! ### One step -/

theorem Db.uniqueIndex_requeueRows (now : ℕ) (extra : RequeueExtra) (ids : List String) (db : Db) :
    (ids.foldl (requeueRow now extra) db).uniqueIndex = db.uniqueIndex := by
  induction ids generalizing db with
  | nil => rfl
  | cons id ids ih =>
    rw [List.foldl_cons, ih, requeueRow, apply_update]
    split <;> rfl

/-- In the loop of `requeue_guarded` a row that is not requeued stays as it was, and the others
are requeued. -/
theorem Db.get?_requeueRows (now : ℕ) {ids : List String} (hnodup : ids.Nodup) (db : Db)
    (id : String) :
    (ids.foldl (requeueRow now .resetFailures) db).episodes.get? id = db.episodes.get? id ∨
      id ∈ ids ∧ (ids.foldl (requeueRow now .resetFailures) db).episodes.get? id =
        (db.episodes.get? id).map (EpisodeUpdate.set (.requeue now .resetFailures)) := by
  have hkeys : (ids.map fun x => x).Nodup := by rwa [List.map_id']
  rcases slot_foldl (fun x => x) (f := requeueRow now .resetFailures)
    (fun db c id hne => by rw [slot_requeueRow, if_neg (fun hc => hne hc.1)]) hkeys db id with
    ⟨-, h⟩ | ⟨before, c, after, rfl, rfl, hbefore, h⟩
  · exact .inl (congrArg Slot.episode h)
  · rw [slot_requeueRow] at h
    split at h
    · right
      refine ⟨by simp, (congrArg Slot.episode h).trans ?_⟩
      exact congrArg (Option.map _) (congrArg Slot.episode hbefore)
    · exact .inl ((congrArg Slot.episode h).trans (congrArg Slot.episode hbefore))

/-- Where the index accepts all requeues, all rows are requeued. -/
theorem Db.AllRequeue.requeued {now : ℕ} {ids : List String} (h : db.AllRequeue now ids)
    (hnodup : ids.Nodup) {id : String} (hid : id ∈ ids) :
    (ids.foldl (requeueRow now .resetFailures) db).episodes.get? id =
      (db.episodes.get? id).map (EpisodeUpdate.set (.requeue now .resetFailures)) := by
  have hkeys : (ids.map fun x => x).Nodup := by rwa [List.map_id']
  rcases slot_foldl (fun x => x) (f := requeueRow now .resetFailures)
    (fun db c id hne => by rw [slot_requeueRow, if_neg (fun hc => hne hc.1)]) hkeys db id with
    ⟨hnot, -⟩ | ⟨before, c, after, rfl, rfl, hbefore, hafter⟩
  · exact absurd (by rwa [List.map_id']) hnot
  have hrow : (before.foldl (requeueRow now .resetFailures) db).episodes.get? c =
      db.episodes.get? c := congrArg Slot.episode hbefore
  have hacc : ¬ (before.foldl (requeueRow now .resetFailures) db).rejects c
      (.requeue now .resetFailures) := by
    rw [rejects, updated, hrow, Bool.not_eq_true]
    rcases he : db.episodes.get? c with _ | e
    · rfl
    simp only [Option.filter_some, EpisodeUpdate.admits, if_true, Option.map_some, Option.any_some]
    rw [← Bool.not_eq_true]
    intro hconflict
    obtain ⟨hindex, id', e', key, he', hne, hkey, hkey'⟩ := conflicts_eq_true_iff.mp hconflict
    rw [uniqueIndex_requeueRows] at hindex
    rcases get?_requeueRows now (List.nodup_append.mp hnodup).1 db id' with hsame | ⟨hid', hmoved⟩
    · -- the other row has been there from the start
      have hfree := h.1 c hid
      rw [Requeues, rejects, updated, he] at hfree
      simp only [Option.filter_some, EpisodeUpdate.admits, if_true, Option.map_some,
        Option.any_some] at hfree
      rw [← Bool.not_eq_true] at hfree
      exact hfree (conflicts_eq_true_iff.mpr
        ⟨hindex, id', e', key, hsame ▸ he', hne, hkey, hkey'⟩)
    · rw [hmoved, Option.map_eq_some_iff] at he'
      obtain ⟨e'', he'', rfl⟩ := he'
      exact hne (h.2 hindex id' (List.mem_append_left _ hid') c hid e'' e key he'' he hkey' hkey)
  rw [slot_requeueRow, if_pos ⟨rfl, hacc⟩] at hafter
  exact (congrArg Slot.episode hafter).trans (congrArg (Option.map _) hrow)

/-- A picked row is stamped with the clock of the call. -/
theorem Step.stamp_picked {id : String} (hid : id ∈ st.picked policy db)
    (hall : db.AllRequeue st.env.now (st.picked policy db)) :
    (st.exec sha db).stamp id = st.env.now := by
  obtain ⟨limit, hlimit, hpicked, policy', limit', hop, hpolicy, hlimit'⟩ := mem_picked hid
  have hnodup : (st.picked policy db).Nodup := by
    rw [hpicked]
    exact nodup_selected _ _ _ _ _
  have hexec : st.exec sha db =
      (st.picked policy db).foldl (Db.requeueRow st.env.now .resetFailures) db := by
    obtain ⟨env, op⟩ := st
    obtain rfl : op = .reapFailedOrAborted limit' policy' := hop
    rw [Step.exec_reapFailedOrAborted, hpolicy, hlimit', if_neg (by omega), hpicked]
    rfl
  have hrow : ∃ e, db.episodes.get? id = some e := by
    rw [hpicked] at hid
    obtain ⟨⟨id, e⟩, hmem, rfl⟩ := List.mem_map.mp hid
    exact ⟨e, (Db.mem_reapQueue.mp ((sqlLimit_sublist _ _).subset hmem)).1⟩
  obtain ⟨e, he⟩ := hrow
  have hafter := hall.requeued hnodup hid
  rw [← hexec, he, Option.map_some] at hafter
  rw [Db.stamp_eq hafter]
  rfl

/-- A change of a row sets its `updated_at` to the clock of the call. -/
theorem Move.updatedAt {env : Env} {id : String} {op : Op} {s s' : Slot} (h : Move env id op s s')
    {e : Episode} (he : s.episode = some e) :
    ∃ e', s'.episode = some e' ∧ (e' = e ∨ e'.updatedAt = env.now) := by
  obtain ⟨e', he', hbecomes⟩ := h.becomes he
  refine ⟨e', he', hbecomes.imp_right ?_⟩
  rintro (rfl | ⟨u, hu, rfl⟩)
  · rfl
  · exact (EpisodeUpdate.set_updatedAt u e).trans hu

/-- A row that stays failed or aborted is not changed, but by the calls that rewrite it. -/
theorem Move.keeps {env : Env} {id : String} {op : Op} {s s' : Slot} (h : Move env id op s s')
    (hop : ¬ op.Rewrites id) {e e' : Episode} (he : s.episode = some e)
    (hstatus : e.status = .failed ∨ e.status = .aborted) (he' : s'.episode = some e')
    (hstatus' : e'.status = .failed ∨ e'.status = .aborted) : e' = e := by
  cases h with
  | stay | replayClosed => exact Option.some.inj (he'.symm.trans he)
  | inserted => cases he
  | claimed hqueued =>
    obtain rfl := Option.some.inj he
    simp [hqueued] at hstatus
  | reapAborted hprocessing | reapRequeued hprocessing | reapSkipped hprocessing =>
    obtain rfl := Option.some.inj he
    simp [hprocessing] at hstatus
  | failed => exact absurd (.inl ⟨_, rfl⟩) hop
  | aborted => exact absurd (.inr (.inl ⟨_, rfl⟩)) hop
  | checkpoint => exact absurd (.inr (.inr ⟨_, rfl⟩)) hop
  | done | skipped | replayed =>
    subst he
    obtain rfl := Option.some.inj he'
    simp [EpisodeUpdate.set] at hstatus'
  | reaped | replayedBatch =>
    obtain rfl := Option.some.inj he'
    simp [EpisodeUpdate.set] at hstatus'

theorem Db.Reapable.status {id : String} {e : Episode} (h : db.Reapable policy id)
    (he : db.episodes.get? id = some e) : e.status = .failed ∨ e.status = .aborted := by
  obtain ⟨e', he', helig⟩ := h
  obtain rfl := Option.some.inj (he.symm.trans he')
  rw [reapEligible] at helig
  simp only [Bool.and_eq_true, Bool.or_eq_true, beq_iff_eq] at helig
  exact helig.1.1.1

/-- With a clock that is not behind the table, no `updated_at` goes down. -/
theorem Step.stamp_le (h : st.Rotates policy db) (id : String) :
    db.stamp id ≤ (st.exec sha db).stamp id := by
  rcases he : db.episodes.get? id with _ | e
  · rw [Db.stamp, he]
    exact Nat.zero_le _
  · obtain ⟨e', he', hchange⟩ := (st.move sha db id).updatedAt he
    rw [Db.stamp_eq he, Db.stamp_eq he']
    rcases hchange with rfl | hnow
    · exact le_rfl
    · exact (h.clock id e he).trans hnow.ge

/-- A row that waits keeps its `updated_at`. -/
theorem Step.stamp_waits (h : st.Rotates policy db) {id : String} (hbefore : db.Reapable policy id)
    (hafter : (st.exec sha db).Reapable policy id) :
    (st.exec sha db).stamp id = db.stamp id := by
  have hop : ¬ st.op.Rewrites id := fun hop => h.handsOff id hop hbefore
  have hbefore' := hbefore
  obtain ⟨e, he, -⟩ := hbefore
  have hafter' := hafter
  obtain ⟨e', he', -⟩ := hafter
  rw [Db.stamp_eq he, Db.stamp_eq he',
    (st.move sha db id).keeps hop he (hbefore'.status he) he' (hafter'.status he')]

/-! ### Runs -/

theorem dbAt_succ {steps : List Step} {k : ℕ} (hk : steps[k]? = some st) :
    dbAt sha db steps (k + 1) = st.exec sha (dbAt sha db steps k) := by
  rw [dbAt, dbAt, List.take_add_one, hk, Option.toList_some, runSteps, runSteps, List.foldl_append]
  rfl

theorem pickedAt_eq {steps : List Step} {k : ℕ} (hk : steps[k]? = some st) :
    pickedAt sha policy db steps k = st.picked policy (dbAt sha db steps k) := by
  rw [pickedAt, hk]
  rfl

/-- **The reaper as a rotating queue.** A run of rotating steps takes the lowest stamps first
and gives them the highest. What is fair about such a queue is proved once, for any stamps.
-/
theorem rotation_of_rotates {steps : List Step}
    (h : ∀ (k : ℕ) (st : Step), steps[k]? = some st → st.Rotates policy (dbAt sha db steps k)) :
    Rotation (fun k => (dbAt sha db steps k).Reapable policy) (fun k => (dbAt sha db steps k).stamp)
      (pickedAt sha policy db steps) steps.length := by
  have hstep : ∀ k < steps.length, ∃ st, steps[k]? = some st ∧
      st.Rotates policy (dbAt sha db steps k) := fun k hk =>
    ⟨steps[k], List.getElem?_eq_getElem hk, h k _ (List.getElem?_eq_getElem hk)⟩
  constructor
  · intro k hk id id' hid hid' hlt
    obtain ⟨st, hst, -⟩ := hstep k hk
    rw [pickedAt_eq hst] at hid ⊢
    exact Step.picked_standsBefore hid hid' hlt
  · intro k hk id id' hid hid' hleft
    obtain ⟨st, hst, hrotates⟩ := hstep k hk
    rw [pickedAt_eq hst] at hid hleft
    obtain ⟨hall, hahead⟩ := hrotates.moves id' (List.ne_nil_of_mem hid) hid' hleft
    obtain ⟨e', he', -⟩ := hid'
    rw [dbAt_succ hst, Step.stamp_picked hid hall, Db.stamp_eq he']
    exact hahead e' he'
  · intro k hk id
    obtain ⟨st, hst, hrotates⟩ := hstep k hk
    rw [dbAt_succ hst]
    exact Step.stamp_le hrotates id
  · intro k hk id hbefore hafter _
    obtain ⟨st, hst, hrotates⟩ := hstep k hk
    rw [dbAt_succ hst] at hafter ⊢
    exact Step.stamp_waits hrotates hbefore hafter

/-- A run of rotating steps is fair. -/
theorem reapFair_of_rotates {steps : List Step}
    (h : ∀ (k : ℕ) (st : Step), steps[k]? = some st → st.Rotates policy (dbAt sha db steps k)) :
    ReapFair sha policy db steps := by
  intro i j id id' hij hi hj helig
  have hlength : j < steps.length := by
    by_contra hnot
    have hnone : pickedAt sha policy db steps j = [] := by
      rw [pickedAt, List.getElem?_eq_none (not_lt.mp hnot)]
      rfl
    rw [hnone] at hj
    exact List.not_mem_nil hj
  exact (rotation_of_rotates h).fair hij hlength hi hj helig

end

/-- **Progress and fairness, exactly.** A call of the reaper, and a call of the replay, makes
progress exactly if one of the first `limit` rows of its queue can be requeued, when any can;
and every run of which each step rotates the queue is fair. A row that the index rejects
keeps its `updated_at` and with it its place at the head, so that `limit` such rows are
enough to stop the reaper. -/
theorem reaper_progress_fair (sha : Sha256) :
    (∀ env limit policy db, 1 ≤ limit.getD (policy.getD {}).reapLimit →
      (ReapProgress env limit policy db ↔
        ((∃ id, db.Reapable (policy.getD {}) id ∧ db.Requeues env.now id) →
          FreeWithin (db.Requeues env.now) (limit.getD (policy.getD {}).reapLimit)
            (db.reapQueue env.rank (policy.getD {}))))) ∧
    (∀ env limit classes minAgeSec policy db, 1 ≤ limit →
      (ReplayProgress env limit classes minAgeSec policy db ↔
        ((∃ id d, db.deadLetter.get? id = some d ∧
            replayEligible (policy.getD {}) classes minAgeSec env.now d = true ∧
            db.Replays env.now id) →
          FreeWithin (db.Replays env.now) limit
            (db.replayQueue env (policy.getD {}) classes minAgeSec)))) ∧
    ∀ policy db steps,
      (∀ (k : ℕ) (st : Step), steps[k]? = some st → st.Rotates policy (dbAt sha db steps k)) →
        ReapFair sha policy db steps :=
  ⟨fun _ _ _ _ hlimit => reapProgress_iff hlimit,
    fun _ _ _ _ _ _ hlimit => replayProgress_iff hlimit,
    fun _ _ _ h => reapFair_of_rotates h⟩

/-- A row that is enqueued under `enforce`, and one without a gate, both failed. -/
def twoFailed : Db :=
  runSteps .plain Db.empty
    [⟨.at 1, .enqueue { content := "a", episodeId := some "c", mode := .enforce }⟩,
      ⟨.at 2, .enqueue { content := "b", episodeId := some "r", mode := .off }⟩,
      ⟨.at 3, .claimNextBatch (some 2)⟩, ⟨.at 4, .markFailed "c" "x"⟩,
      ⟨.at 5, .markFailed "r" "x"⟩]

/-- The payload of the first row is enqueued once more. -/
def enqueuedAgain : Db :=
  runSteps .plain twoFailed
    [⟨.at 6, .enqueue { content := "a", episodeId := some "h", mode := .enforce }⟩]

/-- Two calls of the reaper that pick one row each. -/
def twoReaps : List Step :=
  [⟨.at 7, .reapFailedOrAborted (some 1) none⟩, ⟨.at 8, .reapFailedOrAborted (some 1) none⟩]

/-- A call that picks one row, and requeues it, rotates. -/
theorem Step.rotates_of_picked_one (id : String) {st : Step} {db : Db}
    (hop : ∀ id, ¬ st.op.Rewrites id)
    (hclock : ∀ r ∈ db.episodes.rows, r.2.updatedAt < st.env.now)
    (hpicked : st.picked {} db = [id]) (hfree : db.Requeues st.env.now id) :
    st.Rotates {} db := by
  have hlt : ∀ id e, db.episodes.get? id = some e → e.updatedAt < st.env.now :=
    fun id e he => hclock (id, e) (Table.mem_rows.mpr he)
  refine ⟨fun id e he => (hlt id e he).le, fun id h => absurd h (hop id), ?_⟩
  intro id' _ _ _
  refine ⟨⟨?_, ?_⟩, fun e he => hlt id' e he⟩
  · rw [hpicked]
    exact fun id' hid' => List.mem_singleton.mp hid' ▸ hfree
  · rw [hpicked]
    intro _ id₁ hid₁ id₂ hid₂ _ _ _ _ _ _ _
    rw [List.mem_singleton.mp hid₁, List.mem_singleton.mp hid₂]

/-- Without a conflict the reaper gets round to both rows. -/
theorem reaper_progress_fair_two : ReapFair .plain {} twoFailed twoReaps := by
  refine (reaper_progress_fair .plain).2.2 {} twoFailed twoReaps fun k st hst => ?_
  match k with
  | 0 =>
    obtain rfl := Option.some.inj hst
    exact Step.rotates_of_picked_one "c" (by rintro id (⟨_, h⟩ | ⟨_, h⟩ | ⟨_, h⟩) <;> cases h)
      (by decide) rfl rfl
  | 1 =>
    obtain rfl := Option.some.inj hst
    exact Step.rotates_of_picked_one "r" (by rintro id (⟨_, h⟩ | ⟨_, h⟩ | ⟨_, h⟩) <;> cases h)
      (by decide) rfl rfl
  | k + 2 => cases hst

/-- Now the requeue of the first row conflicts, and it is picked by both calls, while the other
row could be requeued. -/
theorem not_reaper_progress_fair :
    ¬ ReapProgress (.at 7) (some 1) none enqueuedAgain ∧
      ¬ ReapFair .plain {} enqueuedAgain twoReaps := by
  constructor
  · intro h
    obtain ⟨n, hn, hresult⟩ := h ⟨"r", ⟨_, rfl, rfl⟩, rfl⟩
    have hzero : n = 0 := (Except.ok.inj hresult).symm
    omega
  · intro h
    have hwaits : ∀ k, 0 ≤ k → k ≤ 1 → (dbAt .plain enqueuedAgain twoReaps k).Reapable {} "r" := by
      intro k _ hk
      obtain rfl | rfl : k = 0 ∨ k = 1 := by omega
      · exact ⟨_, rfl, rfl⟩
      · exact ⟨_, rfl, rfl⟩
    have hfirst : pickedAt .plain {} enqueuedAgain twoReaps 0 = ["c"] := rfl
    have hsecond : pickedAt .plain {} enqueuedAgain twoReaps 1 = ["c"] := rfl
    rcases h 0 1 "c" "r" (by decide) (by simp [hfirst]) (by simp [hsecond]) hwaits with
      ⟨k, -, hk, hmem⟩ | ⟨before, after, hlist, hmem⟩
    · obtain rfl : k = 0 := by omega
      rw [hfirst] at hmem
      exact absurd hmem (by decide)
    · rw [hsecond] at hlist
      have hbefore : before = [] := by
        rcases before with _ | ⟨id, before⟩
        · rfl
        · simp at hlist
      rw [hbefore] at hmem
      exact List.not_mem_nil hmem

end JanusGraph
