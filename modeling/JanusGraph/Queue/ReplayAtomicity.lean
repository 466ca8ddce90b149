import JanusGraph.Queue.Transition

/-!
# Replays that die half-way

A replay has two effects, on two tables: the episode is requeued and its dead letter
is marked as recovered. Both are sent before the one `commit`, but the requeue sits
in a savepoint, and where no transaction is open that savepoint is the outermost one:
its `RELEASE` commits the requeue. A process that dies before the dead letter is
updated leaves a live episode with an open dead letter.

`replay_dlq_episode` is always exposed to this. In a batch it is the first row the
index accepts: the update of its dead letter begins the transaction all later rows
run in.

* **Half a replay.** `Slot.Replayed` lists what may become of a slot: nothing, or both effects.
  `Atomic` asks that of the disk at every statement of the script, which is where a process
  can die.
* **One dead letter.** The disk is the old database, then the one with the requeue alone, then
  the one with both (`along_requeueGuarded_one`, `along_recover_commit`). The middle one counts
  as a replay only if one of the two statements changes nothing (`Slot.replayed_requeued`).
* **A batch.** Rows that the index rejects leave no trace (`replayRow_rejected`). The first one
  that it accepts is requeued outside a transaction (`replayRow_accepted`), and the transaction
  that its dead letter begins holds all the rest until the commit (`replayRow_begun`). One row
  of the batch is exposed, and `Db.firstReplayed` is that row.
-/

namespace JanusGraph

open Script

/-- What may become of a slot whose dead letter is replayed with the statement `u`. -/
inductive Slot.Replayed (u : EpisodeUpdate) (now : ℕ) : Slot → Slot → Prop where
  | neither {s : Slot} : Replayed u now s s
  | both {e : Episode} {d : DeadLetter} : u.admits e →
      Replayed u now ⟨some e, some d⟩ ⟨some (u.set e), some (d.recover now d.attemptCount)⟩
  /-- there is no episode to requeue: it is gone or, in a batch, done -/
  | closed {e : Option Episode} {d : DeadLetter} : (∀ e', e = some e' → ¬ u.admits e') →
      Replayed u now ⟨e, some d⟩ ⟨e, some (d.recover now d.attemptCount)⟩

/-- Every slot is as it was or replayed. -/
def Db.Replayed (u : EpisodeUpdate) (now : ℕ) (db db' : Db) : Prop :=
  ∀ id, (db.slot id).Replayed u now (db'.slot id)

/-- Wherever the script dies, nothing of a replay is committed or all of it. -/
def Atomic {α : Type} (u : EpisodeUpdate) (now : ℕ) (p : Sql α) (db : Db) : Prop :=
  ∀ n, db.Replayed u now (p.crash (Conn.step Write.exec) n (Conn.idle db)).disk

theorem atomic_iff_along {α : Type} {u : EpisodeUpdate} {now : ℕ} {p : Sql α} {db : Db} :
    Atomic u now p db ↔
      p.Along (Conn.step Write.exec) (OnDisk (db.Replayed u now)) (Conn.idle db) := by
  rw [Prog.along_iff]
  rfl

theorem Db.replayed_refl (u : EpisodeUpdate) (now : ℕ) (db : Db) : db.Replayed u now db :=
  fun _ => .neither

/-- Requeued, with its dead letter as it was: that is a replay only if one of the two
statements changes nothing. -/
theorem Slot.replayed_requeued {u : EpisodeUpdate} {now : ℕ} {e : Episode} {d : DeadLetter}
    (hu : u.admits e) :
    (⟨some e, some d⟩ : Slot).Replayed u now ⟨some (u.set e), some d⟩ ↔
      u.set e = e ∨ d.recover now d.attemptCount = d := by
  constructor
  · generalize hs' : (⟨some (u.set e), some d⟩ : Slot) = s'
    rintro (- | - | hno)
    · obtain ⟨he, -⟩ := Slot.mk.inj hs'
      exact Or.inl (Option.some.inj he)
    · obtain ⟨-, hd⟩ := Slot.mk.inj hs'
      exact Or.inr (Option.some.inj hd).symm
    · exact absurd hu (hno e rfl)
  · rintro (he | hd)
    · rw [he]
      exact .neither
    · have := @Replayed.both u now e d hu
      rwa [hd] at this

/-- The database between the requeue of `id` and the update of its dead letter. -/
theorem Db.replayed_update {db : Db} {u : EpisodeUpdate} {now : ℕ} {id : String} {d : DeadLetter}
    (hd : db.deadLetter.get? id = some d) :
    db.Replayed u now (db.update id u) ↔
      ∀ e, db.episodes.get? id = some e → u.admits e →
        u.set e = e ∨ d.recover now d.attemptCount = d := by
  constructor
  · intro h e he hu
    have hid := h id
    rw [slot_update, if_pos rfl, he, hd, Option.map_some, if_pos hu] at hid
    rw [← Slot.replayed_requeued hu]
    simpa only [slot, he, hd] using hid
  · intro h id'
    rw [slot_update]
    split
    · rename_i hid
      subst hid
      rcases he : db.episodes.get? id' with _ | e
      · rw [hd, Option.map_none]
        simpa only [slot, he, hd] using Slot.Replayed.neither
      · by_cases hu : u.admits e
        · rw [hd, Option.map_some, if_pos hu]
          simpa only [slot, he, hd] using (Slot.replayed_requeued hu).mpr (h e he hu)
        · rw [hd, Option.map_some, if_neg hu]
          simpa only [slot, he, hd] using Slot.Replayed.neither
    · exact .neither

/-- What `replay_dlq_episode` does to a slot when it completes is a replay. -/
theorem Move.replayed_of_episode {env : Env} {id id' : String} {policy : Option RetryPolicy}
    {s s' : Slot} (h : Move env id (.replayDlqEpisode id' policy) s s') :
    s.Replayed (.requeue env.now .replay) env.now s' := by
  cases h with
  | stay => exact .neither
  | inserted hop => cases hop
  | @replayed _ e d =>
    rcases e with _ | e
    · exact .closed (by rintro e' ⟨⟩)
    · exact .both rfl

/-- So is what `replay_dlq_batch` does. -/
theorem Move.replayed_of_batch {env : Env} {id : String} {limit : ℤ} {classes : List String}
    {minAgeSec : ℤ} {policy : Option RetryPolicy} {s s' : Slot}
    (h : Move env id (.replayDlqBatch limit classes minAgeSec policy) s s') :
    s.Replayed (.replayBatch env.now) env.now s' := by
  cases h with
  | stay => exact .neither
  | inserted hop => cases hop
  | replayedBatch _ hdone => exact .both (decide_eq_true hdone)
  | replayClosed _ hdone =>
    refine .closed fun e' he' hadmits => ?_
    exact absurd (hdone e' he') (of_decide_eq_true hadmits)

/-! ## One episode -/

/-- **One requeue, death by death.** Along a requeue that starts outside a transaction the
disk is the old database or the requeued one: the `RELEASE` of the outermost savepoint is a
commit. -/
theorem along_requeueGuarded_one {J : Db → Prop} (now : ℕ) (extra : RequeueExtra) (id : String)
    (db : Db) :
    (requeueGuarded now extra [id]).Along (Conn.step Write.exec) (OnDisk J) (Conn.idle db) ↔
      J db ∧ J (db.requeueRow now extra id) := by
  have hrun := @run_guarded_idle _ _ _ QueueError Write.exec
    (.updateEpisode id (.requeue now extra)) db
  have hturn : (requeueRow now extra id).Along (Conn.step Write.exec) (OnDisk J) (Conn.idle db) ↔
      J db ∧ J (db.requeueRow now extra id) := by
    rw [requeueRow, Prog.along_bind_ok hrun, along_guarded_idle]
    rcases Write.exec (.updateEpisode id (.requeue now extra)) db with e | ⟨n, db'⟩
    · exact ⟨fun h => h.1, fun h => ⟨h, h.2⟩⟩
    · exact ⟨fun h => h.1, fun h => ⟨h, h.2⟩⟩
  rw [requeueGuarded]
  refine (Prog.along_bind_ret List.reduceOption).trans ?_
  exact (Prog.along_bind_ret fun a => [a]).trans hturn

/-- The policy check does not touch the disk. -/
theorem along_replayAdmitted {J : Db → Prop} (id : String) (policy : RetryPolicy) (c : Conn Db) :
    (replayAdmitted id policy).Along (Conn.step Write.exec) (OnDisk J) c ↔ J c.disk := by
  unfold replayAdmitted
  split
  · exact Iff.rfl
  · exact (Prog.along_bind_ret fun db : Db => db.replayAdmitted id policy).trans along_select

theorem run_execute_recover (id : String) (now attempts : ℕ) (c : Conn Db) :
    ∃ n, (execute (.recoverDeadLetter id now attempts false)).run (Conn.step Write.exec) c =
      (.ok n, c.wrote (c.visible.recover id now attempts false)) :=
  ⟨_, run_execute _ _⟩

/-- The update of a dead letter outside a transaction reaches the disk with the
commit. -/
theorem along_recover_commit {J : Db → Prop} {α : Type} (a : α) {id : String} {now attempts : ℕ}
    {db : Db} (h : J (db.recover id now attempts false)) :
    (do
      let _ ← execute (.recoverDeadLetter id now attempts false)
      commit
      return a : Sql α).Along (Conn.step Write.exec) (OnDisk J) (Conn.idle db) ↔ J db := by
  obtain ⟨n, hwrite⟩ := run_execute_recover id now attempts (Conn.idle db)
  rw [Prog.along_bind_ok hwrite, execute, along_write]
  refine and_iff_left_of_imp fun hdb => ?_
  exact (Prog.along_bind_ret fun _ => a).mpr (along_commit.mpr ⟨hdb, h⟩)

/-- The replay of `id` gets as far as the requeue of its episode `e`. -/
def Db.ReachesRequeue (db : Db) (now : ℕ) (id : String) (policy : RetryPolicy) (e : Episode)
    (d : DeadLetter) : Prop :=
  db.slot id = ⟨some e, some d⟩ ∧ policyWhereClause policy (some d.lastError) = true ∧
    db.rejects id (.requeue now .replay) = false

theorem atomic_replayDlqEpisode (env : Env) (id : String) (policy : Option RetryPolicy) (db : Db) :
    Atomic (.requeue env.now .replay) env.now (replayDlqEpisode env id policy) db ↔
      ∀ e d, db.ReachesRequeue env.now id (policy.getD {}) e d →
        EpisodeUpdate.set (.requeue env.now .replay) e = e ∨
          d.recover env.now d.attemptCount = d := by
  have hstart := db.replayed_refl (.requeue env.now .replay) env.now
  have hend : db.Replayed (.requeue env.now .replay) env.now
      (db.replayDlqEpisode id (policy.getD {}) env.now) :=
    fun id' => (db.move_replayDlqEpisode env id policy id').replayed_of_episode
  have hexec := exec_replayDlqEpisode env id policy db
  rw [atomic_iff_along]
  simp only [alone, replayDlqEpisode] at hexec ⊢
  rw [along_withConn, hexec, Conn.idle_disk, and_iff_left hend,
    Prog.along_bind_ok (run_select _), along_select, Conn.idle_disk, Conn.visible_idle,
    and_iff_right hstart]
  rcases hd : db.deadLetter.get? id with _ | d
  · -- no dead letter
    refine ⟨?_, fun _ => hstart⟩
    rintro - e d ⟨hslot, -⟩
    have := congrArg Slot.deadLetter hslot
    rw [Db.slot_deadLetter, hd] at this
    cases this
  · have hadm := run_replayAdmitted id (policy.getD {}) (c := Conn.idle db) hd
    have hreq := run_requeueGuarded_one env.now .replay id db
    simp only [alone] at hreq
    rw [Prog.along_bind_ok hadm, along_replayAdmitted, Conn.idle_disk, and_iff_right hstart]
    rcases hpol : policyWhereClause (policy.getD {}) (some d.lastError) with _ | _
    · -- refused by the policy
      refine ⟨?_, fun _ => hstart⟩
      rintro - e d' ⟨hslot, hpol', -⟩
      obtain rfl := Option.some.inj (hd.symm.trans (congrArg Slot.deadLetter hslot))
      rw [hpol] at hpol'
      cases hpol'
    simp only [Bool.not_true, Bool.false_eq_true, if_false]
    rw [Prog.along_bind_ok hreq, along_requeueGuarded_one, and_iff_right hstart]
    by_cases hrej : db.rejects id (.requeue env.now .replay)
    · -- refused by the index
      have hsame : db.requeueRow env.now .replay id = db := by
        rw [Db.requeueRow, Db.apply_update, if_pos hrej]
      rw [hsame]
      refine ⟨?_, fun _ => ⟨hstart, ?_⟩⟩
      · rintro - e d' ⟨-, -, hrej'⟩
        rw [hrej] at hrej'
        cases hrej'
      · simp only [if_pos hrej, List.isEmpty_nil, if_true]
        exact (Prog.along_bind_ret fun _ => false).mpr (along_rollback.mpr hstart)
    · -- requeued: the dead letter is updated in a transaction of its own
      have hrequeued : db.requeueRow env.now .replay id = db.update id (.requeue env.now .replay) := by
        rw [Db.requeueRow, Db.apply_update, if_neg hrej]
      have hfinal : db.Replayed (.requeue env.now .replay) env.now
          ((db.update id (.requeue env.now .replay)).recover id env.now d.attemptCount false) := by
        have hadmitted : db.replayAdmitted id (policy.getD {}) = true := by
          rw [Db.replayAdmitted, hd]
          exact hpol
        have heq : db.replayDlqEpisode id (policy.getD {}) env.now =
            (db.update id (.requeue env.now .replay)).recover id env.now d.attemptCount false := by
          rw [Db.replayDlqEpisode, hd]
          exact if_pos ⟨hadmitted, hrej⟩
        rwa [heq] at hend
      rw [hrequeued, if_neg hrej]
      simp only [List.isEmpty_cons, Bool.false_eq_true, if_false]
      rw [along_recover_commit _ hfinal, and_self_iff, Db.replayed_update hd]
      constructor
      · rintro h e d' ⟨hslot, -, -⟩
        obtain rfl := Option.some.inj (hd.symm.trans (congrArg Slot.deadLetter hslot))
        exact h e (congrArg Slot.episode hslot) rfl
      · intro h e he _
        exact h e d ⟨by rw [Db.slot, he, hd], hpol, by simpa using hrej⟩

/-! ## A batch -/

/-- A turn is a guarded statement and, unless the index rejects it, the update of the
dead letter. -/
theorem replayRow_eq (now : ℕ) (row : String × DeadLetter) :
    replayRow now row = (do
      match ← guarded (.updateEpisode row.1 (.replayBatch now)) with
      | .error _ => return 0
      | .ok rowcount =>
        let _ ← execute (.recoverDeadLetter row.1 now row.2.attemptCount false)
        return if rowcount = 0 then 0 else 1) := by
  unfold replayRow
  congr 1
  funext r
  rcases r with e | n
  · rfl
  · by_cases hn : n = 0 <;> simp only [hn, if_true, if_false]

/-- A turn inside a transaction leaves the disk alone. -/
theorem replayRow_begun {J : Db → Prop} (now : ℕ) (row : String × DeadLetter) {db : Db}
    (hdb : J db) {c : Conn Db} (hc : c.Begun db) :
    (replayRow now row).Along (Conn.step Write.exec) (OnDisk J) c ∧
      ∀ a c', (replayRow now row).run (Conn.step Write.exec) c = (.ok a, c') → c'.Begun db := by
  obtain ⟨v, rfl⟩ := hc
  have hrun := @run_guarded_begun _ _ _ QueueError Write.exec
    (.updateEpisode row.1 (.replayBatch now)) db v
  rw [replayRow_eq, Prog.along_bind_ok hrun, along_guarded_begun, Prog.run_bind_ok hrun]
  rcases Write.exec (.updateEpisode row.1 (.replayBatch now)) v with e | ⟨n, v'⟩
  · refine ⟨⟨hdb, hdb⟩, ?_⟩
    rintro a c' ⟨⟩
    exact ⟨_, rfl⟩
  · obtain ⟨m, hwrite⟩ := run_execute_recover row.1 now row.2.attemptCount
      ⟨db, some ⟨applied Write.exec v (.updateEpisode row.1 (.replayBatch now)), true, []⟩⟩
    refine ⟨⟨hdb, (Prog.along_bind_ret _).mpr (along_write.mpr hdb)⟩, ?_⟩
    intro a c' hturn
    simp only [Except.map, Prog.run_bind_ok hwrite] at hturn
    obtain ⟨-, rfl⟩ := Prod.mk.inj hturn
    exact ⟨_, rfl⟩

/-- A turn the index rejects does nothing. -/
theorem replayRow_rejected {J : Db → Prop} {now : ℕ} {row : String × DeadLetter} {db : Db}
    (hrej : db.rejects row.1 (.replayBatch now)) :
    ((replayRow now row).Along (Conn.step Write.exec) (OnDisk J) (Conn.idle db) ↔ J db) ∧
      (replayRow now row).run (Conn.step Write.exec) (Conn.idle db) = (.ok 0, Conn.idle db) := by
  have hexec : Write.exec (.updateEpisode row.1 (.replayBatch now)) db = .error .uniqueIndex :=
    if_pos hrej
  have hrun := @run_guarded_idle _ _ _ QueueError Write.exec
    (.updateEpisode row.1 (.replayBatch now)) db
  rw [hexec, applied_error hexec] at hrun
  rw [replayRow_eq, Prog.along_bind_ok hrun, along_guarded_idle, applied_error hexec,
    Prog.run_bind_ok hrun]
  exact ⟨⟨fun h => h.2, fun h => ⟨⟨h, h⟩, h⟩⟩, rfl⟩

/-- A turn outside a transaction commits its requeue before it closes the dead letter. -/
theorem replayRow_accepted {J : Db → Prop} {now : ℕ} {row : String × DeadLetter} {db : Db}
    (hacc : db.rejects row.1 (.replayBatch now) = false) :
    ((replayRow now row).Along (Conn.step Write.exec) (OnDisk J) (Conn.idle db) ↔
        J db ∧ J (db.update row.1 (.replayBatch now))) ∧
      ∃ a c, (replayRow now row).run (Conn.step Write.exec) (Conn.idle db) = (.ok a, c) ∧
        c.Begun (db.update row.1 (.replayBatch now)) := by
  obtain ⟨n, hexec⟩ : ∃ n, Write.exec (.updateEpisode row.1 (.replayBatch now)) db =
      .ok (n, db.update row.1 (.replayBatch now)) := by
    refine ⟨_, if_neg ?_⟩
    simp [hacc]
  have hrun := @run_guarded_idle _ _ _ QueueError Write.exec
    (.updateEpisode row.1 (.replayBatch now)) db
  rw [hexec, applied_ok hexec] at hrun
  obtain ⟨m, hwrite⟩ := run_execute_recover row.1 now row.2.attemptCount
    (Conn.idle (db.update row.1 (.replayBatch now)))
  rw [replayRow_eq, Prog.along_bind_ok hrun, along_guarded_idle, applied_ok hexec,
    Prog.run_bind_ok hrun]
  refine ⟨and_iff_left_of_imp fun h => (Prog.along_bind_ret _).mpr (along_write.mpr h.2), ?_⟩
  exact ⟨_, _, Prog.run_bind_ok hwrite, Conn.begun_wrote_idle _ _⟩

/-- **A batch, death by death.** Along its turns the disk is the old database until the index
accepts a row, and from then on the database with that row requeued. The rest is in a
transaction, which the disk does not see. -/
theorem along_replayRows {J : Db → Prop} (now : ℕ) (rows : List (String × DeadLetter)) (db : Db) :
    (Prog.forEach (replayRow now) rows).Along (Conn.step Write.exec) (OnDisk J) (Conn.idle db) ↔
      J db ∧ ∀ row, rows.find? (fun r => !db.rejects r.1 (.replayBatch now)) = some row →
        J (db.update row.1 (.replayBatch now)) := by
  induction rows with
  | nil => exact ⟨fun h => ⟨h, by rintro row ⟨⟩⟩, fun h => h.1⟩
  | cons row rows ih =>
    rw [Prog.forEach]
    rcases hrej : db.rejects row.1 (.replayBatch now) with _ | _
    · -- the first row accepted: the rest runs in the transaction its dead letter began
      obtain ⟨halong, a, c, hrun, hbegun⟩ := replayRow_accepted (J := J) hrej
      rw [Prog.along_bind_ok hrun, halong, List.find?_cons_of_pos (by simp [hrej])]
      constructor
      · rintro ⟨⟨hdb, hupdate⟩, -⟩
        exact ⟨hdb, by rintro row' ⟨⟩; exact hupdate⟩
      · rintro ⟨hdb, hupdate⟩
        have hrow := hupdate row rfl
        refine ⟨⟨hdb, hrow⟩, (Prog.along_bind_ret fun as => a :: as).mpr ?_⟩
        refine Prog.Along.forEach (J := fun c => c.Begun (db.update row.1 (.replayBatch now)))
          (fun row' c hc => replayRow_begun now row' hrow hc) (fun c hc => ?_) rows hbegun
        rw [OnDisk, hc.disk]
        exact hrow
    · obtain ⟨halong, hrun⟩ := replayRow_rejected (J := J) hrej
      rw [Prog.along_bind_ok hrun, halong, List.find?_cons_of_neg (by simp [hrej])]
      refine ⟨fun h => ih.mp ((Prog.along_bind_ret fun as => 0 :: as).mp h.2), fun h => ⟨h.1, ?_⟩⟩
      exact (Prog.along_bind_ret fun as => 0 :: as).mpr (ih.mpr h)

/-- The row of a batch that is requeued outside a transaction: the first one the index
accepts. -/
def Db.firstReplayed (db : Db) (env : Env) (policy : RetryPolicy) (classes : List String)
    (minAgeSec limit : ℤ) : Option (String × DeadLetter) :=
  (db.replayable env policy classes minAgeSec limit).find? fun r =>
    !db.rejects r.1 (.replayBatch env.now)

/-- The database after the first requeue of a batch: its dead letter is still open. -/
theorem Db.replayed_firstReplayed {db : Db} {env : Env} {policy : RetryPolicy}
    {classes : List String} {minAgeSec limit : ℤ} {row : String × DeadLetter}
    (h : db.firstReplayed env policy classes minAgeSec limit = some row) :
    db.Replayed (.replayBatch env.now) env.now (db.update row.1 (.replayBatch env.now)) ↔
      ∀ e, db.episodes.get? row.1 = some e → e.status ≠ .done →
        EpisodeUpdate.set (.replayBatch env.now) e = e := by
  obtain ⟨hd, helig⟩ := mem_replayable (List.mem_of_find?_eq_some h)
  have hopen : row.2.recover env.now row.2.attemptCount ≠ row.2 := by
    intro hsame
    simp only [replayEligible, Bool.and_eq_true] at helig
    have hnull : row.2.recoveredAt = none := Option.isNone_iff_eq_none.mp helig.1.1.1
    rw [← hsame] at hnull
    cases hnull
  rw [replayed_update hd]
  constructor
  · intro hupdate e he hdone
    rcases hupdate e he (decide_eq_true hdone) with hsame | hsame
    · exact hsame
    · exact absurd hsame hopen
  · intro hkept e he hadmits
    exact Or.inl (hkept e he (of_decide_eq_true hadmits))

theorem atomic_replayDlqBatch (env : Env) (limit : ℤ) (classes : List String) (minAgeSec : ℤ)
    (policy : Option RetryPolicy) (db : Db) :
    Atomic (.replayBatch env.now) env.now (replayDlqBatch env limit classes minAgeSec policy) db ↔
      ∀ row e, db.firstReplayed env (policy.getD {}) classes minAgeSec limit = some row →
        db.episodes.get? row.1 = some e → e.status ≠ .done →
        EpisodeUpdate.set (.replayBatch env.now) e = e := by
  have hstart := db.replayed_refl (.replayBatch env.now) env.now
  have hend : db.Replayed (.replayBatch env.now) env.now
      ((db.replayable env (policy.getD {}) classes minAgeSec limit).foldl
        (Db.replayRow env.now) db) :=
    fun id => (db.move_replayDlqBatch env limit classes minAgeSec policy id).replayed_of_batch
  have hexec := exec_replayDlqBatch env limit classes minAgeSec policy db
  rw [atomic_iff_along]
  simp only [alone, replayDlqBatch] at hexec ⊢
  rw [along_withConn, hexec, Conn.idle_disk, and_iff_left hend,
    Prog.along_bind_ok (run_select _), along_select, Conn.idle_disk, Conn.visible_idle,
    and_iff_right hstart]
  have hrows := along_replayRows (J := db.Replayed (.replayBatch env.now) env.now) env.now
    (db.replayable env (policy.getD {}) classes minAgeSec limit) db
  rw [and_iff_right hstart] at hrows
  have hcond : (∀ row, db.firstReplayed env (policy.getD {}) classes minAgeSec limit = some row →
        db.Replayed (.replayBatch env.now) env.now (db.update row.1 (.replayBatch env.now))) ↔
      ∀ row e, db.firstReplayed env (policy.getD {}) classes minAgeSec limit = some row →
        db.episodes.get? row.1 = some e → e.status ≠ .done →
        EpisodeUpdate.set (.replayBatch env.now) e = e :=
    ⟨fun h row e hrow => (Db.replayed_firstReplayed hrow).mp (h row hrow) e,
      fun h row hrow => (Db.replayed_firstReplayed hrow).mpr fun e => h row e hrow⟩
  refine Iff.trans ?_ (hrows.trans hcond)
  obtain ⟨turns, c, hrun, -, hvisible⟩ := Prog.run_forEach (run_replayRow env.now · ·)
    (db.replayable env (policy.getD {}) classes minAgeSec limit) (Conn.between_idle db)
  rcases hempty : (db.replayable env (policy.getD {}) classes minAgeSec limit).isEmpty with _ | _
  · -- past the rows there is only the commit
    simp only [Bool.false_eq_true, if_false]
    rw [Prog.along_bind_ok hrun]
    refine and_iff_left_of_imp fun halong => (Prog.along_bind_ret fun _ => turns.sum).mpr ?_
    have hdisk := halong.run
    rw [hrun] at hdisk
    refine along_commit.mpr ⟨hdisk, ?_⟩
    rw [hvisible]
    exact hend
  · rw [List.isEmpty_iff] at hempty
    rw [hempty]
    exact Iff.rfl

/-- **Replay atomicity, exactly.** Whatever the database, a process that dies inside
`replay_dlq_episode` leaves both effects or neither if and only if the replay does not get as
far as the requeue of an existing episode, or one of its two updates changes nothing; inside
`replay_dlq_batch`, if and only if the first row the index accepts has no episode to requeue,
or the requeue changes nothing. Outside a transaction the savepoint of the requeue is the
outermost one, so that its `RELEASE` commits the requeue before the dead letter is sent. -/
theorem replay_atomic_iff (env : Env) (db : Db) :
    (∀ id policy, Atomic (.requeue env.now .replay) env.now (replayDlqEpisode env id policy) db ↔
      ∀ e d, db.ReachesRequeue env.now id (policy.getD {}) e d →
        EpisodeUpdate.set (.requeue env.now .replay) e = e ∨
          d.recover env.now d.attemptCount = d) ∧
    ∀ limit classes minAgeSec policy,
      Atomic (.replayBatch env.now) env.now (replayDlqBatch env limit classes minAgeSec policy) db ↔
        ∀ row e, db.firstReplayed env (policy.getD {}) classes minAgeSec limit = some row →
          db.episodes.get? row.1 = some e → e.status ≠ .done →
          EpisodeUpdate.set (.replayBatch env.now) e = e :=
  ⟨fun id policy => atomic_replayDlqEpisode env id policy db,
    fun limit classes minAgeSec policy =>
      atomic_replayDlqBatch env limit classes minAgeSec policy db⟩

/-- An aborted episode and its open dead letter. -/
def abortedOnce : Db :=
  runSteps .plain Db.empty
    [⟨.at 1, .enqueue { content := "c", episodeId := some "e", mode := .off }⟩,
      ⟨.at 2, .claimNextBatch none⟩,
      ⟨.at 3, .markAborted "e" "TimeoutError: <no message>"⟩]

/-- Dead after the `RELEASE`, either replay leaves the episode queued and its dead
letter open. -/
theorem not_atomic :
    ¬ Atomic (.requeue 4 .replay) 4 (replayDlqEpisode (.at 4) "e" none) abortedOnce ∧
      ¬ Atomic (.replayBatch 4) 4 (replayDlqBatch (.at 4) 100 [] 0 none) abortedOnce := by
  have hhalf : ∀ (u : EpisodeUpdate) (db' : Db),
      (db'.episodes.get? "e").map Episode.status = some .queued →
      (db'.deadLetter.get? "e").map DeadLetter.isOpen = some true →
      ¬ abortedOnce.Replayed u 4 db' := by
    intro u db' hqueued hopen h
    have haborted : (abortedOnce.slot "e").episode.map Episode.status = some .aborted := by
      decide +kernel
    have hid := h "e"
    rw [← Db.slot_episode] at hqueued
    rw [← Db.slot_deadLetter] at hopen
    generalize abortedOnce.slot "e" = s at haborted hid
    generalize db'.slot "e" = s' at hqueued hopen hid
    cases hid with
    | neither =>
      rw [haborted] at hqueued
      cases hqueued
    | both => cases hopen
    | closed => cases hopen
  constructor
  · intro h
    exact hhalf _ _ (by decide +kernel) (by decide +kernel) (h 5)
  · intro h
    exact hhalf _ _ (by decide +kernel) (by decide +kernel) (h 4)

end JanusGraph
