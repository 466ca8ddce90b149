import JanusGraph.Queue.Effect

/-!
# What one operation can do to one episode

An operation can touch many rows, but each episode with its dead letter (a
`Slot`) at most once, and in one of the ways `Move` lists. `Step.move` is the
inversion of every operation at once; the invariants over serial runs are case
analyses of `Move`.

The way there has three stages.

* **Slots of statements.** `Db.slot_update`, `Db.slot_recover`, `Db.slot_abort` and
  `Db.slot_claim` say what one statement leaves under an id, and that every other id
  keeps its slot.
* **Slots of loops.** The reapers and the batch replay go through the rows they
  have selected. The rows have different ids (`nodup_selected`), so that the turn of an id
  finds the slot of the beginning and is the only one that changes it (`Db.slot_foldl`).
* **Slots of operations.** `Step.exec_of_alone` reads the effect of a step off the
  equation of its script, and `Step.move` puts the cases together.

What a constructor of `Move` asks of the slot is what the `WHERE` clause of its
statement asks. Where an operation comes to nothing (the hash is taken, the id is not
there) the slot stays as it is, which every operation may do (`Move.stay`).
-/

namespace JanusGraph

/-- An episode and the dead letter stored under the same id. -/
@[ext] structure Slot : Type where
  episode : Option Episode
  deadLetter : Option DeadLetter

/-- The slot of an id. -/
def Db.slot (db : Db) (id : String) : Slot := ⟨db.episodes.get? id, db.deadLetter.get? id⟩

@[simp] theorem Db.slot_episode (db : Db) (id : String) :
    (db.slot id).episode = db.episodes.get? id := rfl

@[simp] theorem Db.slot_deadLetter (db : Db) (id : String) :
    (db.slot id).deadLetter = db.deadLetter.get? id := rfl

@[simp] theorem Db.slot_logged (db : Db) (ev : DedupEvent) (id : String) :
    (db.logged ev).slot id = db.slot id := rfl

/-! ## Slots after a statement -/

/-- An `UPDATE episodes` by id: the slot of that id has the new columns if the `WHERE` clause
admits its row, and no other slot changes. -/
theorem Db.slot_update (db : Db) (id id' : String) (u : EpisodeUpdate) :
    (db.update id u).slot id' =
      if id' = id then
        ⟨(db.episodes.get? id).map fun e => if u.admits e then u.set e else e,
          db.deadLetter.get? id⟩
      else db.slot id' := by
  by_cases h : id' = id
  · subst h
    simp [slot, update]
  · simp [slot, update, h, Table.get?_modify_ne]

/-- Closing a dead letter leaves every episode alone. With `AND recovered_at IS NULL` a dead
letter that is closed already keeps its columns. -/
theorem Db.slot_recover (db : Db) (id id' : String) (now attempts : ℕ) (openOnly : Bool) :
    (db.recover id now attempts openOnly).slot id' =
      if id' = id then
        ⟨db.episodes.get? id, (db.deadLetter.get? id).map fun d =>
          if openOnly && !d.isOpen then d else d.recover now attempts⟩
      else db.slot id' := by
  by_cases h : id' = id
  · subst h
    simp [slot, recover]
  · simp [slot, recover, h, Table.get?_modify_ne]

/-- The two statements of an abort, seen from one slot: the episode is aborted and its dead
letter opened with the payload and the attempts that are given. A missing episode gets its
dead letter all the same. -/
theorem Db.slot_abort (db : Db) (id id' : String) (payloadJson : PayloadJson) (attempts : ℕ)
    (error : String) (now : ℕ) :
    (db.abort id payloadJson attempts error now).slot id' =
      if id' = id then
        ⟨(db.episodes.get? id).map (EpisodeUpdate.set (.aborted attempts error now)),
          some (newDeadLetter payloadJson error attempts now)⟩
      else db.slot id' := by
  by_cases h : id' = id
  · subst h
    simp [slot, abort, update, EpisodeUpdate.admits]
  · simp [slot, abort, update, h, Table.get?_modify_ne, Table.get?_put_ne]

/-- Whether `mark_done` finds an open dead letter or not, afterwards it is closed. -/
def DeadLetter.close (now : ℕ) (d : DeadLetter) : DeadLetter :=
  if d.isOpen then d.recover now d.attemptCount else d

/-- The two statements of `mark_done`. An open dead letter is closed with them. -/
theorem Db.slot_markDone (db : Db) (id id' : String) (now : ℕ) :
    (db.markDone id now).slot id' =
      if id' = id then
        ⟨(db.episodes.get? id).map (EpisodeUpdate.set (.done now)),
          (db.deadLetter.get? id).map (DeadLetter.close now)⟩
      else db.slot id' := by
  rcases hd : db.deadLetter.get? id with _ | d
  · simp only [markDone, hd, Option.filter_none, slot_update]
    split
    · simp [EpisodeUpdate.admits]
    · rfl
  · by_cases hopen : d.isOpen
    · simp only [markDone, hd, Option.filter_some, hopen, if_true, slot_recover, slot_update]
      split
      · simp [EpisodeUpdate.admits, DeadLetter.close, hopen, update, hd]
      · rfl
    · have hmark : db.markDone id now = db.update id (.done now) := by
        simp [markDone, hd, Option.filter_some, hopen]
      rw [hmark, slot_update]
      split
      · simp [EpisodeUpdate.admits, DeadLetter.close, hopen, hd]
      · rfl

/-- The one `UPDATE` of a claim, over all of its ids. It never reaches the dead letters. -/
theorem Db.slot_claim (db : Db) (ids : List String) (now : ℕ) (id : String) :
    (db.claim ids now).slot id =
      ⟨(db.episodes.get? id).map fun e => if id ∈ ids then e.claim now else e,
        db.deadLetter.get? id⟩ := by
  simp [slot, claim]

/-! ## Loops over rows -/

/-- **The turn of an id.** A loop over rows with different ids, each of whose turns changes
the slot of its own id only, leaves a slot as it was or changes it in one turn, which finds
it as it was before the loop. -/
theorem Db.slot_foldl {γ : Type} (key : γ → String) {f : Db → γ → Db}
    (hframe : ∀ db c id, id ≠ key c → (f db c).slot id = db.slot id)
    {cs : List γ} (hnodup : (cs.map key).Nodup) (db : Db) (id : String) :
    (id ∉ cs.map key ∧ (cs.foldl f db).slot id = db.slot id) ∨
      ∃ before c after, cs = before ++ c :: after ∧ key c = id ∧
        (before.foldl f db).slot id = db.slot id ∧
        (cs.foldl f db).slot id = (f (before.foldl f db) c).slot id := by
  induction cs generalizing db with
  | nil => exact Or.inl ⟨List.not_mem_nil, rfl⟩
  | cons c cs ih =>
    rw [List.map_cons, List.nodup_cons] at hnodup
    by_cases hid : key c = id
    · -- the turn of `id` comes now, and no later one touches it
      subst hid
      refine Or.inr ⟨[], c, cs, rfl, rfl, rfl, ?_⟩
      rcases ih hnodup.2 (f db c) with ⟨-, h⟩ | ⟨before, c', after, rfl, hkey, -, -⟩
      · exact h
      · exact absurd (List.mem_map.mpr ⟨c', by simp, hkey⟩) hnodup.1
    · rcases ih hnodup.2 (f db c) with ⟨hnot, h⟩ | ⟨before, c', after, rfl, hkey, hbefore, h⟩
      · refine Or.inl ⟨?_, h.trans (hframe db c id (Ne.symm hid))⟩
        rw [List.map_cons, List.mem_cons]
        rintro (rfl | hmem)
        · exact hid rfl
        · exact hnot hmem
      · exact Or.inr ⟨c :: before, c', after, rfl, hkey,
          hbefore.trans (hframe db c id (Ne.symm hid)), h⟩

/-! ## The moves -/

/-- The enqueueing operations. -/
def Op.isEnqueue : Op → Bool
  | .enqueue _ => true
  | .enqueueGuarded .. => true
  | _ => false

/-- How an operation can change the slot of `id`. -/
inductive Move (env : Env) (id : String) : Op → Slot → Slot → Prop where
  /-- not at all -/
  | stay {op : Op} {s : Slot} : Move env id op s s
  | inserted {op : Op} {d : Option DeadLetter} {payloadJson : PayloadJson} {now : ℕ}
      {payloadHash claimedBy canonicalHash : Option String} {gate : DedupMode} :
      op.isEnqueue →
      Move env id op ⟨none, d⟩
        ⟨some (newEpisode payloadJson now payloadHash claimedBy canonicalHash gate), d⟩
  | claimed {limit : Option ℤ} {e : Episode} {d : Option DeadLetter} : e.status = .queued →
      Move env id (.claimNextBatch limit) ⟨some e, d⟩ ⟨some (e.claim env.now), d⟩
  | done {e : Option Episode} {d : Option DeadLetter} :
      Move env id (.markDone id) ⟨e, d⟩
        ⟨e.map (EpisodeUpdate.set (.done env.now)), d.map (DeadLetter.close env.now)⟩
  | failed {error : String} {e : Option Episode} {d : Option DeadLetter} :
      Move env id (.markFailed id error) ⟨e, d⟩
        ⟨e.map (EpisodeUpdate.set (.failed error env.now)), d⟩
  | aborted {error : String} {e : Option Episode} {d : Option DeadLetter} :
      Move env id (.markAborted id error) ⟨e, d⟩
        ⟨e.map (EpisodeUpdate.set
            (.aborted ((e.map Episode.attemptCount).getD 0 + 1) error env.now)),
          some (newDeadLetter ((e.map Episode.payloadJson).getD (.json (.obj []))) error
            ((e.map Episode.attemptCount).getD 0 + 1) env.now)⟩
  | skipped {existing payloadHash : Option String} {error : String} {e : Option Episode}
      {d : Option DeadLetter} :
      Move env id (.markSkippedDuplicate id existing payloadHash) ⟨e, d⟩
        ⟨e.map (EpisodeUpdate.set (.skipDuplicate error env.now)), d⟩
  | checkpoint {text : String} {e : Option Episode} {d : Option DeadLetter} :
      Move env id (.updateCheckpoint id text) ⟨e, d⟩
        ⟨e.map (EpisodeUpdate.set (.checkpoint text env.now)), d⟩
  | reapAborted {timeoutSec maxAttempts : ℤ} {e : Episode} {d : Option DeadLetter} :
      e.status = .processing → e.stuck (env.clock id) timeoutSec →
      maxAttempts ≤ (e.attemptCount + 1 : ℕ) →
      Move env id (.reapStuckProcessing timeoutSec maxAttempts) ⟨some e, d⟩
        ⟨some (EpisodeUpdate.set (.aborted (e.attemptCount + 1) timeoutError env.now) e),
          some (newDeadLetter e.payloadJson timeoutError (e.attemptCount + 1) env.now)⟩
  | reapRequeued {timeoutSec maxAttempts : ℤ} {e : Episode} {d : Option DeadLetter} :
      e.status = .processing → e.stuck (env.clock id) timeoutSec →
      (e.attemptCount + 1 : ℕ) < maxAttempts →
      Move env id (.reapStuckProcessing timeoutSec maxAttempts) ⟨some e, d⟩
        ⟨some (EpisodeUpdate.set (.requeueStuck (e.attemptCount + 1) env.now) e), d⟩
  | reapSkipped {timeoutSec maxAttempts : ℤ} {e : Episode} {d : Option DeadLetter} :
      e.status = .processing → e.stuck (env.clock id) timeoutSec →
      Move env id (.reapStuckProcessing timeoutSec maxAttempts) ⟨some e, d⟩
        ⟨some (EpisodeUpdate.set (.skipReaped env.now) e), d⟩
  | reaped {limit : Option ℤ} {policy : Option RetryPolicy} {e : Episode}
      {d : Option DeadLetter} :
      reapEligible (policy.getD {}) e d →
      Move env id (.reapFailedOrAborted limit policy) ⟨some e, d⟩
        ⟨some (EpisodeUpdate.set (.requeue env.now .resetFailures) e), d⟩
  | replayed {policy : Option RetryPolicy} {e : Option Episode} {d : DeadLetter} :
      policyWhereClause (policy.getD {}) (some d.lastError) →
      Move env id (.replayDlqEpisode id policy) ⟨e, some d⟩
        ⟨e.map (EpisodeUpdate.set (.requeue env.now .replay)),
          some (d.recover env.now d.attemptCount)⟩
  | replayedBatch {limit : ℤ} {classes : List String} {minAgeSec : ℤ}
      {policy : Option RetryPolicy} {e : Episode} {d : DeadLetter} :
      replayEligible (policy.getD {}) classes minAgeSec env.now d → e.status ≠ .done →
      Move env id (.replayDlqBatch limit classes minAgeSec policy) ⟨some e, some d⟩
        ⟨some (EpisodeUpdate.set (.replayBatch env.now) e),
          some (d.recover env.now d.attemptCount)⟩
  /-- the dead letter of an episode that is done, or gone -/
  | replayClosed {limit : ℤ} {classes : List String} {minAgeSec : ℤ}
      {policy : Option RetryPolicy} {e : Option Episode} {d : DeadLetter} :
      replayEligible (policy.getD {}) classes minAgeSec env.now d →
      (∀ e', e = some e' → e'.status = .done) →
      Move env id (.replayDlqBatch limit classes minAgeSec policy) ⟨e, some d⟩
        ⟨e, some (d.recover env.now d.attemptCount)⟩

/-! ## What becomes of a row -/

/-- The time an update writes. -/
def EpisodeUpdate.now : EpisodeUpdate → ℕ
  | .done now | .failed _ now | .aborted _ _ now | .checkpoint _ now | .requeueStuck _ now
  | .skipReaped now | .requeue now _ | .replayBatch now | .skipDuplicate _ now => now

/-- Every update stamps its row. -/
theorem EpisodeUpdate.set_updatedAt (u : EpisodeUpdate) (e : Episode) :
    (u.set e).updatedAt = u.now := by
  cases u with
  | requeue now extra => cases extra <;> rfl
  | _ => rfl

/-- **What becomes of a row.** It stays as it is, or is claimed, or updated at the time of
the operation; no operation deletes it. -/
theorem Move.becomes {env : Env} {id : String} {op : Op} {s s' : Slot} (h : Move env id op s s')
    {e : Episode} (he : s.episode = some e) :
    ∃ e', s'.episode = some e' ∧ (e' = e ∨ e' = e.claim env.now ∨
      ∃ u : EpisodeUpdate, u.now = env.now ∧ e' = u.set e) := by
  cases h with
  | stay | replayClosed => exact ⟨e, he, .inl rfl⟩
  | inserted => cases he
  | claimed =>
    obtain rfl := Option.some.inj he
    exact ⟨_, rfl, .inr (.inl rfl)⟩
  | done | failed | aborted | skipped | checkpoint | replayed =>
    subst he
    exact ⟨_, rfl, .inr (.inr ⟨_, rfl, rfl⟩)⟩
  | reapAborted | reapRequeued | reapSkipped | reaped | replayedBatch =>
    obtain rfl := Option.some.inj he
    exact ⟨_, rfl, .inr (.inr ⟨_, rfl, rfl⟩)⟩

/-- Only an enqueue brings a row. -/
theorem Move.eq_none {env : Env} {id : String} {op : Op} {s s' : Slot} (h : Move env id op s s')
    (hop : op.isEnqueue = false) (hs : s.episode = none) : s'.episode = none := by
  cases h with
  | stay | replayClosed => exact hs
  | inserted hinsert => exact absurd hinsert (by simp [hop])
  | claimed | reapAborted | reapRequeued | reapSkipped | reaped | replayedBatch => cases hs
  | done | failed | aborted | skipped | checkpoint | replayed => exact congrArg (Option.map _) hs

/-! ## Pick-sets -/

/-- Ordering and limiting the rows a `WHERE` clause leaves selects rows of the
table, each at most once. -/
theorem nodup_selected {ρ : Type} (t : Table String ρ) (p : String × ρ → Bool)
    (key : String × ρ → ℕ) (rank : String → ℕ) (n : ℤ) :
    ((sqlLimit n (Table.orderBy key rank (t.rows.filter p))).map Prod.fst).Nodup :=
  ((sqlLimit_sublist _ _).map _).nodup <|
    Table.nodup_keys_of_sublist_perm List.filter_sublist (Table.orderBy_perm _ _ _)

/-- A selected row is a row of the table, and one that the `WHERE` clause admits. -/
theorem mem_selected {ρ : Type} {t : Table String ρ} {p : String × ρ → Bool}
    {key : String × ρ → ℕ} {rank : String → ℕ} {n : ℤ} {r : String × ρ}
    (h : r ∈ sqlLimit n (Table.orderBy key rank (t.rows.filter p))) :
    t.get? r.1 = some r.2 ∧ p r = true := by
  have hmem : r ∈ t.rows.filter p := Table.mem_orderBy.mp ((sqlLimit_sublist _ _).subset h)
  obtain ⟨hrow, hp⟩ := List.mem_filter.mp hmem
  exact ⟨Table.mem_rows.mp hrow, hp⟩

/-- `claim_next_batch` selects queued rows. -/
theorem Db.mem_queueHead {db : Db} {rank : String → ℕ} {limit : Option ℤ}
    {r : String × Episode} (h : r ∈ db.queueHead rank limit) :
    db.episodes.get? r.1 = some r.2 ∧ r.2.status = .queued := by
  obtain ⟨hrow, hp⟩ := mem_selected h
  exact ⟨hrow, by simpa using hp⟩

/-- `reap_stuck_processing` has no `LIMIT`, and filters in Python what it has selected; even
so it turns to each row once. -/
theorem Db.nodup_stuckRows (db : Db) (env : Env) (timeoutSec : ℤ) :
    ((db.stuckRows env timeoutSec).map Prod.fst).Nodup :=
  (List.filter_sublist.map _).nodup <|
    Table.nodup_keys_of_sublist_perm (List.Sublist.refl _) (Table.orderBy_perm _ _ _)

/-- What it turns to is being processed, and has been for the timeout by the clock it reads
for that row. -/
theorem Db.mem_stuckRows {db : Db} {env : Env} {timeoutSec : ℤ} {r : String × Episode}
    (h : r ∈ db.stuckRows env timeoutSec) :
    db.episodes.get? r.1 = some r.2 ∧ r.2.status = .processing ∧
      r.2.stuck (env.clock r.1) timeoutSec = true := by
  obtain ⟨hmem, hp⟩ := List.mem_filter.mp h
  simp only [Bool.and_eq_true, beq_iff_eq] at hp
  exact ⟨Table.mem_rows.mp (Table.mem_orderBy.mp hmem), hp.1, hp.2⟩

/-- `reap_failed_or_aborted` selects what its policy finds eligible, the dead letter
included. -/
theorem Db.mem_reapable {db : Db} {rank : String → ℕ} {policy : RetryPolicy} {limit : ℤ}
    {r : String × Episode} (h : r ∈ db.reapable rank policy limit) :
    db.episodes.get? r.1 = some r.2 ∧
      reapEligible policy r.2 (db.deadLetter.get? r.1) = true :=
  mem_selected h

/-- `replay_dlq_batch` turns to each dead letter once. -/
theorem Db.nodup_replayable (db : Db) (env : Env) (policy : RetryPolicy) (classes : List String)
    (minAgeSec limit : ℤ) :
    ((db.replayable env policy classes minAgeSec limit).map Prod.fst).Nodup :=
  nodup_selected _ _ _ _ _

/-- What it turns to is a dead letter that the policy finds eligible. The episode is not
asked. -/
theorem Db.mem_replayable {db : Db} {env : Env} {policy : RetryPolicy} {classes : List String}
    {minAgeSec limit : ℤ} {r : String × DeadLetter}
    (h : r ∈ db.replayable env policy classes minAgeSec limit) :
    db.deadLetter.get? r.1 = some r.2 ∧
      replayEligible policy classes minAgeSec env.now r.2 = true :=
  mem_selected h

/-! ## One turn of each loop -/

/-- A turn of the stuck-reaper is about its own row. -/
theorem Db.slot_reapStuckRow_ne (now : ℕ) (maxAttempts : ℤ) (db : Db) (row : String × Episode)
    (id : String) (h : id ≠ row.1) :
    (db.reapStuckRow now maxAttempts row).slot id = db.slot id := by
  unfold reapStuckRow
  dsimp only
  split
  · rw [slot_abort, if_neg h]
  · split <;> rw [slot_update, if_neg h]

/-- A guarded requeue, inside its savepoint: the columns are written unless the index refuses
them, and then nothing is. -/
theorem Db.slot_requeueRow (now : ℕ) (extra : RequeueExtra) (db : Db) (id id' : String) :
    (db.requeueRow now extra id).slot id' =
      if id' = id ∧ ¬ db.rejects id (.requeue now extra) then
        ⟨(db.episodes.get? id).map (EpisodeUpdate.set (.requeue now extra)),
          db.deadLetter.get? id⟩
      else db.slot id' := by
  rw [requeueRow, apply_update]
  by_cases hrej : db.rejects id (.requeue now extra)
  · simp [hrej]
  · by_cases hid : id' = id <;> simp [hrej, hid, slot_update, EpisodeUpdate.admits]

/-- A turn of the batch replay. The requeue passes over an episode that is done, and its dead
letter is closed with the others; only the index keeps it open. -/
theorem Db.slot_replayRow (now : ℕ) (db : Db) (row : String × DeadLetter) (id : String) :
    (db.replayRow now row).slot id =
      if id = row.1 ∧ ¬ db.rejects row.1 (.replayBatch now) then
        ⟨(db.episodes.get? row.1).map fun e =>
            if e.status ≠ .done then EpisodeUpdate.set (.replayBatch now) e else e,
          (db.deadLetter.get? row.1).map (DeadLetter.recover now row.2.attemptCount)⟩
      else db.slot id := by
  unfold replayRow
  by_cases hrej : db.rejects row.1 (.replayBatch now)
  · simp [hrej]
  · by_cases hid : id = row.1
    · subst hid
      simp [hrej, slot_recover, update, EpisodeUpdate.admits]
    · simp [hrej, hid, slot_recover, slot_update]

/-! ## Every operation -/

/-- The two writers, of which no more is used than that they may have added a row. -/
theorem Db.Enqueued.move {db db' : Db} (h : db.Enqueued db') (env : Env) (id : String) {op : Op}
    (hop : op.isEnqueue) : Move env id op (db.slot id) (db'.slot id) := by
  obtain ⟨hd, he | ⟨id', payloadJson, now, payloadHash, claimedBy, canonicalHash, gate, hnone,
    he⟩⟩ := h
  · have : db'.slot id = db.slot id := by simp [slot, hd, he]
    rw [this]
    exact .stay
  · by_cases hid : id = id'
    · subst hid
      have hslot : db.slot id = ⟨none, db.deadLetter.get? id⟩ := by simp [slot, hnone]
      have hslot' : db'.slot id = ⟨some (newEpisode payloadJson now payloadHash claimedBy
          canonicalHash gate), db.deadLetter.get? id⟩ := by simp [slot, hd, he]
      rw [hslot, hslot']
      exact .inserted hop
    · have : db'.slot id = db.slot id := by simp [slot, hd, he, Table.get?_put_ne, hid]
      rw [this]
      exact .stay

/-- **The claim.** A row of the head of the queue is claimed; any other slot stays. -/
theorem Db.move_claim (db : Db) (env : Env) (limit : Option ℤ) (id : String) :
    Move env id (.claimNextBatch limit) (db.slot id)
      ((db.apply (.claimEpisodes ((db.queueHead env.rank limit).map Prod.fst) env.now)).slot id) := by
  by_cases hrej : db.rejectsClaim ((db.queueHead env.rank limit).map Prod.fst) env.now
  · have happly : db.apply (.claimEpisodes ((db.queueHead env.rank limit).map Prod.fst) env.now) =
        db := by simp [apply, Script.applied, Write.exec, hrej]
    rw [happly]
    exact .stay
  · have happly : db.apply (.claimEpisodes ((db.queueHead env.rank limit).map Prod.fst) env.now) =
        db.claim ((db.queueHead env.rank limit).map Prod.fst) env.now := by
      simp [apply, Script.applied, Write.exec, hrej]
    rw [happly, slot_claim]
    by_cases hid : id ∈ (db.queueHead env.rank limit).map Prod.fst
    · obtain ⟨r, hr, rfl⟩ := List.mem_map.mp hid
      obtain ⟨hrow, hqueued⟩ := mem_queueHead hr
      have hslot : db.slot r.1 = ⟨some r.2, db.deadLetter.get? r.1⟩ := by simp [slot, hrow]
      rw [hslot, hrow]
      simp only [hid, if_true, Option.map_some]
      exact .claimed hqueued
    · simp only [hid, if_false, Option.map_id']
      exact .stay

/-- **The stuck-reaper.** The row of an id is aborted, requeued or skipped, whichever its
attempts and the index decide. -/
theorem Db.move_reapStuck (db : Db) (env : Env) (timeoutSec maxAttempts : ℤ) (id : String) :
    Move env id (.reapStuckProcessing timeoutSec maxAttempts) (db.slot id)
      (((db.stuckRows env timeoutSec).foldl (reapStuckRow env.now maxAttempts) db).slot id) := by
  rcases slot_foldl Prod.fst (slot_reapStuckRow_ne env.now maxAttempts)
    (db.nodup_stuckRows env timeoutSec) db id with ⟨-, h⟩ | ⟨before, r, after, hrows, rfl, hb, h⟩
  · rw [h]
    exact .stay
  · -- the turn of the row: what it finds there is what was selected
    obtain ⟨hrow, hprocessing, hstuck⟩ := mem_stuckRows (hrows ▸ List.mem_append_right _
      List.mem_cons_self : r ∈ db.stuckRows env timeoutSec)
    generalize before.foldl (reapStuckRow env.now maxAttempts) db = turn at hb h
    have hslot : db.slot r.1 = ⟨some r.2, db.deadLetter.get? r.1⟩ := by simp [slot, hrow]
    have hturn : turn.episodes.get? r.1 = some r.2 := by
      have := congrArg Slot.episode (hb.trans hslot)
      exact this
    have hdead : turn.deadLetter.get? r.1 = db.deadLetter.get? r.1 :=
      congrArg Slot.deadLetter (hb.trans hslot)
    rw [h, hslot]
    unfold reapStuckRow
    dsimp only
    split
    · rename_i hmax
      rw [slot_abort, if_pos rfl, hturn]
      exact .reapAborted hprocessing hstuck hmax
    · rename_i hmax
      split <;> rw [slot_update, if_pos rfl, hturn, hdead]
      · exact .reapSkipped hprocessing hstuck
      · exact .reapRequeued hprocessing hstuck (by omega)

/-- **The reaper of failures.** An eligible row is requeued, or stays if the index refuses
it. -/
theorem Db.move_reapFailed (db : Db) (env : Env) (limit : Option ℤ) (policy : Option RetryPolicy)
    (n : ℤ) (id : String) :
    Move env id (.reapFailedOrAborted limit policy) (db.slot id)
      ((((db.reapable env.rank (policy.getD {}) n).map Prod.fst).foldl
        (requeueRow env.now .resetFailures) db).slot id) := by
  have hnodup : (((db.reapable env.rank (policy.getD {}) n).map Prod.fst).map fun x => x).Nodup := by
    rw [List.map_id']
    exact nodup_selected _ _ _ _ _
  rcases slot_foldl (fun x => x) (f := requeueRow env.now .resetFailures)
    (fun db c id hne => by rw [slot_requeueRow, if_neg (fun hc => hne hc.1)]) hnodup db id with
    ⟨-, h⟩ | ⟨before, c, after, hrows, rfl, hb, h⟩
  · rw [h]
    exact .stay
  · obtain ⟨r, hr, rfl⟩ := List.mem_map.mp (hrows ▸ List.mem_append_right _ List.mem_cons_self :
      c ∈ (db.reapable env.rank (policy.getD {}) n).map Prod.fst)
    obtain ⟨hrow, helig⟩ := mem_reapable hr
    generalize before.foldl (requeueRow env.now .resetFailures) db = turn at hb h
    have hslot : db.slot r.1 = ⟨some r.2, db.deadLetter.get? r.1⟩ := by simp [slot, hrow]
    rw [h, slot_requeueRow]
    split
    · have hturn : turn.slot r.1 = ⟨some r.2, db.deadLetter.get? r.1⟩ := hb.trans hslot
      have he : turn.episodes.get? r.1 = some r.2 := congrArg Slot.episode hturn
      have hd : turn.deadLetter.get? r.1 = db.deadLetter.get? r.1 :=
        congrArg Slot.deadLetter hturn
      rw [hslot, he, hd]
      exact .reaped helig
    · rw [hb]
      exact .stay

/-- **The replay of one dead letter.** Besides the index, the policy is all that is asked of
it. -/
theorem Db.move_replayDlqEpisode (db : Db) (env : Env) (id' : String)
    (policy : Option RetryPolicy) (id : String) :
    Move env id (.replayDlqEpisode id' policy) (db.slot id)
      ((db.replayDlqEpisode id' (policy.getD {}) env.now).slot id) := by
  rcases hd : db.deadLetter.get? id' with _ | d
  · simp only [replayDlqEpisode, hd]
    exact .stay
  · simp only [replayDlqEpisode, hd]
    split
    · rename_i hc
      rw [slot_recover]
      split
      · rename_i hid
        subst hid
        have hadm : policyWhereClause (policy.getD {}) (some d.lastError) = true := by
          simpa [replayAdmitted, hd] using hc.1
        have hslot : db.slot id = ⟨db.episodes.get? id, some d⟩ := by simp [slot, hd]
        rw [hslot]
        simp only [update, Table.get?_modify_self, EpisodeUpdate.admits, if_true, hd,
          Option.map_some, Bool.false_and, Bool.false_eq_true, if_false]
        exact .replayed hadm
      · rename_i hid
        rw [slot_update, if_neg hid]
        exact .stay
    · exact .stay

/-- **The batch replay.** A dead letter is closed with an episode to requeue or without one;
it stays as it is if the index refuses the episode. -/
theorem Db.move_replayDlqBatch (db : Db) (env : Env) (limit : ℤ) (classes : List String)
    (minAgeSec : ℤ) (policy : Option RetryPolicy) (id : String) :
    Move env id (.replayDlqBatch limit classes minAgeSec policy) (db.slot id)
      (((db.replayable env (policy.getD {}) classes minAgeSec limit).foldl
        (replayRow env.now) db).slot id) := by
  rcases slot_foldl Prod.fst (f := replayRow env.now)
    (fun db c id hne => by rw [slot_replayRow, if_neg (fun hc => hne hc.1)])
    (db.nodup_replayable env (policy.getD {}) classes minAgeSec limit) db id with
    ⟨-, h⟩ | ⟨before, r, after, hrows, rfl, hb, h⟩
  · rw [h]
    exact .stay
  · obtain ⟨hrow, helig⟩ := mem_replayable (hrows ▸ List.mem_append_right _ List.mem_cons_self :
      r ∈ db.replayable env (policy.getD {}) classes minAgeSec limit)
    generalize before.foldl (replayRow env.now) db = turn at hb h
    have hslot : db.slot r.1 = ⟨db.episodes.get? r.1, some r.2⟩ := by simp [slot, hrow]
    rw [h, slot_replayRow]
    split
    · have he : turn.episodes.get? r.1 = db.episodes.get? r.1 := congrArg Slot.episode hb
      have hd : turn.deadLetter.get? r.1 = some r.2 := congrArg Slot.deadLetter (hb.trans hslot)
      rw [hslot, he, hd, Option.map_some]
      rcases hepisode : db.episodes.get? r.1 with _ | e
      · exact .replayClosed helig (by simp)
      · by_cases hdone : e.status = .done
        · simp only [Option.map_some, hdone, ne_eq, not_true_eq_false, if_false]
          exact .replayClosed helig (by rintro e' ⟨⟩; exact hdone)
        · simp only [Option.map_some, ne_eq, hdone, not_false_eq_true, if_true]
          exact .replayedBatch helig hdone
    · rw [hb]
      exact .stay

/-! ## Steps -/

/-- The effect of a step is that of its script; wrapping the result up does not change it. -/
theorem Step.exec_of_alone {sha : Sha256} {st : Step} {α : Type} {f : α → OpResult} {p : Sql α}
    {db db' : Db} (hst : st.script sha = f <$> p) (h : (alone p db).2 = Conn.idle db') :
    st.exec sha db = db' := by
  rw [Step.exec, Script.exec, hst, Prog.run_map, h]
  rfl

section
variable (sha : Sha256) (env : Env) (db : Db)

theorem Step.exec_enqueue (args : EnqueueArgs) :
    (⟨env, .enqueue args⟩ : Step).exec sha db = (args.outcome sha env db).2 :=
  exec_of_alone rfl (congrArg Prod.snd (run_enqueue sha env args db))

theorem Step.exec_claimNextBatch (limit : Option ℤ) :
    (⟨env, .claimNextBatch limit⟩ : Step).exec sha db =
      if (db.queueHead env.rank limit).isEmpty then db
      else db.apply (.claimEpisodes ((db.queueHead env.rank limit).map Prod.fst) env.now) :=
  exec_of_alone rfl (JanusGraph.exec_claimNextBatch env limit db)

theorem Step.exec_markDone (id : String) :
    (⟨env, .markDone id⟩ : Step).exec sha db = db.markDone id env.now :=
  exec_of_alone rfl (congrArg Prod.snd (run_markDone env id db))

theorem Step.exec_markFailed (id error : String) :
    (⟨env, .markFailed id error⟩ : Step).exec sha db =
      db.apply (.updateEpisode id (.failed error env.now)) :=
  exec_of_alone rfl (exec_execute_commit _ db)

theorem Step.exec_markAborted (id error : String) :
    (⟨env, .markAborted id error⟩ : Step).exec sha db = db.markAborted id error env.now :=
  exec_of_alone rfl (congrArg Prod.snd (run_markAborted env id error db))

theorem Step.exec_updateCheckpoint (id text : String) :
    (⟨env, .updateCheckpoint id text⟩ : Step).exec sha db =
      db.apply (.updateEpisode id (.checkpoint text env.now)) :=
  exec_of_alone rfl (exec_execute_commit _ db)

theorem Step.exec_reapStuckProcessing (timeoutSec maxAttempts : ℤ) :
    (⟨env, .reapStuckProcessing timeoutSec maxAttempts⟩ : Step).exec sha db =
      (db.stuckRows env timeoutSec).foldl (Db.reapStuckRow env.now maxAttempts) db :=
  exec_of_alone rfl (JanusGraph.exec_reapStuckProcessing env timeoutSec maxAttempts db)

theorem Step.exec_reapFailedOrAborted (limit : Option ℤ) (policy : Option RetryPolicy) :
    (⟨env, .reapFailedOrAborted limit policy⟩ : Step).exec sha db =
      if limit.getD (policy.getD {}).reapLimit ≤ 0 then db
      else ((db.reapable env.rank (policy.getD {})
        (limit.getD (policy.getD {}).reapLimit)).map Prod.fst).foldl
          (Db.requeueRow env.now .resetFailures) db :=
  exec_of_alone rfl (JanusGraph.exec_reapFailedOrAborted env limit policy db)

theorem Step.exec_replayDlqEpisode (id : String) (policy : Option RetryPolicy) :
    (⟨env, .replayDlqEpisode id policy⟩ : Step).exec sha db =
      db.replayDlqEpisode id (policy.getD {}) env.now :=
  exec_of_alone rfl (JanusGraph.exec_replayDlqEpisode env id policy db)

theorem Step.exec_replayDlqBatch (limit : ℤ) (classes : List String) (minAgeSec : ℤ)
    (policy : Option RetryPolicy) :
    (⟨env, .replayDlqBatch limit classes minAgeSec policy⟩ : Step).exec sha db =
      (db.replayable env (policy.getD {}) classes minAgeSec limit).foldl
        (Db.replayRow env.now) db :=
  exec_of_alone rfl (JanusGraph.exec_replayDlqBatch env limit classes minAgeSec policy db)

end

/-- A script of one update and a commit. -/
theorem move_execute_commit (db : Db) (id id' : String) {u : EpisodeUpdate}
    (hu : ∀ e, u.admits e = true) :
    (db.apply (.updateEpisode id' u)).slot id = db.slot id ∨
      id = id' ∧ (db.apply (.updateEpisode id' u)).slot id =
        ⟨(db.slot id).episode.map u.set, (db.slot id).deadLetter⟩ := by
  rw [Db.apply_update]
  by_cases hrej : db.rejects id' u
  · exact Or.inl (by simp [hrej])
  · by_cases hid : id = id'
    · subst hid
      exact Or.inr ⟨rfl, by simp [hrej, Db.slot_update, hu]⟩
    · exact Or.inl (by simp [hrej, Db.slot_update, hid])

/-- **Inversion of every operation.** A serial step changes the slot of an id in one of the
ways of `Move`. Whatever is proved of serial runs is proved by cases on this, without another
look at a script. -/
theorem Step.move (sha : Sha256) (st : Step) (db : Db) (id : String) :
    Move st.env id st.op (db.slot id) ((st.exec sha db).slot id) := by
  obtain ⟨env, op⟩ := st
  cases op with
  | enqueue args =>
    rw [exec_enqueue]
    exact (args.enqueued_outcome sha env db).move env id rfl
  | enqueueGuarded lockMode instanceId content groupId name sourceDescription mode =>
    obtain ⟨db', hrun, henq⟩ := run_enqueueGuarded sha env lockMode instanceId content groupId
      name sourceDescription mode db
    rw [exec_of_alone (f := OpResult.id) rfl hrun]
    exact henq.move env id rfl
  | claimNextBatch limit =>
    rw [exec_claimNextBatch]
    split
    · exact .stay
    · exact db.move_claim env limit id
  | markDone id' =>
    rw [exec_markDone, Db.slot_markDone]
    split
    · rename_i hid
      subst hid
      exact .done
    · exact .stay
  | markFailed id' error =>
    rw [exec_markFailed]
    rcases move_execute_commit db id id'
      (u := .failed error env.now) (fun _ => rfl) with h | ⟨rfl, h⟩
    · rw [h]
      exact .stay
    · rw [h]
      exact .failed
  | markAborted id' error =>
    rw [exec_markAborted, Db.markAborted, Db.slot_abort]
    split
    · rename_i hid
      subst hid
      exact .aborted
    · exact .stay
  | markSkippedDuplicate id' existing payloadHash =>
    obtain ⟨db', error, hrun, he, hd⟩ := exec_markSkippedDuplicate env id' existing payloadHash db
    rw [exec_of_alone (f := fun _ => OpResult.unit) rfl hrun]
    by_cases hid : id = id'
    · subst hid
      have hslot : db'.slot id = ⟨(db.slot id).episode.map
          (EpisodeUpdate.set (.skipDuplicate error env.now)), (db.slot id).deadLetter⟩ := by
        simp [Db.slot, he, hd, Db.update, EpisodeUpdate.admits]
      rw [hslot]
      exact .skipped
    · have hslot : db'.slot id = db.slot id := by
        simp [Db.slot, he, hd, Db.update, Table.get?_modify_ne, hid]
      rw [hslot]
      exact .stay
  | updateCheckpoint id' text =>
    rw [exec_updateCheckpoint]
    rcases move_execute_commit db id id'
      (u := .checkpoint text env.now) (fun _ => rfl) with h | ⟨rfl, h⟩
    · rw [h]
      exact .stay
    · rw [h]
      exact .checkpoint
  | reapStuckProcessing timeoutSec maxAttempts =>
    rw [exec_reapStuckProcessing]
    exact db.move_reapStuck env timeoutSec maxAttempts id
  | reapFailedOrAborted limit policy =>
    rw [exec_reapFailedOrAborted]
    split
    · exact .stay
    · exact db.move_reapFailed env limit policy _ id
  | replayDlqEpisode id' policy =>
    rw [exec_replayDlqEpisode]
    exact db.move_replayDlqEpisode env id' policy id
  | replayDlqBatch limit classes minAgeSec policy =>
    rw [exec_replayDlqBatch]
    exact db.move_replayDlqBatch env limit classes minAgeSec policy id

end JanusGraph
