import JanusGraph.Queue.IndexInvariant
import JanusGraph.Queue.Processes

/-!
# Every operation among the others

What each operation sends and returns while other processes work on the same
database, as long as that database is disciplined. Of all operations only
`claim_next_batch` can raise the index's error as it is: the enqueueing ones
translate it, the requeueing ones meet it inside a savepoint, and the others send
nothing the index refuses.

An operation is a script, and between any two of its statements the database may be
replaced by another disciplined one, unless a transaction of its own is open. The
rules of `Does` follow that: a statement is stated of any database (`does_update`,
`does_inactive`, `does_elsewhere`), and the history that comes out lists each statement
with the database it met.

* **Returns.** `runs_markDone`, `runs_markFailed` and the others that never send a key
  the index could refuse: they complete.
* **Translates.** `runs_enqueue` and `runs_enqueueGuarded`: what they raise is never the
  error of the index. Their `INSERT` is the first statement of its transaction, so that
  the lookup after a rejection sees what the index saw, and finds the row that is in the
  way (`Db.Disciplined.activeDuplicate_of_conflict`).
* **Goes on.** The reapers and the replays complete whatever the index says, and turn to
  every row they have selected. What one row gets is an inductive predicate on the
  history (`ReapStuckTurn`, `RequeueTurn`, `ReplayTurn`, `ReplayEpisodeTurn`), and the
  history of a loop is one turn after the other.
-/

namespace JanusGraph

open Script

/-- From outside a transaction to outside a transaction, in a disciplined database. -/
abbrev Runs {α : Type} (p : Sql α) (R : Except QueueError α → List (Db × Write) → Prop) : Prop :=
  Does Write.exec Db.Disciplined .idle .idle p R

/-- The operation returns. -/
def Completes {α : Type} (r : Except QueueError α) : Prop := ∃ a, r = .ok a

/-- The index's error is not what the operation raises. -/
def NoIndexError {α : Type} (r : Except QueueError α) : Prop :=
  r ≠ .error (.integrity .uniqueIndex)

/-- What returns raises nothing. -/
theorem Completes.noIndexError {α : Type} {r : Except QueueError α} (h : Completes r) :
    NoIndexError r := by
  obtain ⟨a, rfl⟩ := h
  rintro ⟨⟩

variable {m m' : Mode Db} {α β : Type}

/-- A body that completes, in a `with` block. -/
theorem runs_withConn {body : Sql α} {R : Except QueueError α → List (Db × Write) → Prop}
    (hbody : Does Write.exec Db.Disciplined .idle m body fun r h => Completes r ∧ R r h) :
    Runs (withConn body) fun r h => Completes r ∧ R r h :=
  hbody.withConn (by rintro e h ⟨⟨a, ha⟩, -⟩; cases ha)

/-- A statement that is always accepted. -/
theorem does_execute {w : Write} (hkeeps : Keeps Write.exec Db.Disciplined w)
    (hacc : ∀ db : Db, db.Disciplined → ∃ x, Write.exec w db = .ok x) {f : ℕ → Sql α}
    {R : Except QueueError α → List (Db × Write) → Prop}
    (h : ∀ (db : Db) n, db.Disciplined →
      Does Write.exec Db.Disciplined .any .any (f n) fun r h => R r ((db, w) :: h)) :
    Does Write.exec Db.Disciplined m .any (execute w >>= f) R := by
  refine does_write_bind hkeeps (fun db e hdb he => ?_) fun db n _ hdb _ => h db n hdb
  obtain ⟨x, hx⟩ := hacc db hdb
  rw [hx] at he
  cases he

/-- An update that is always accepted. -/
theorem does_update {id : String} {u : EpisodeUpdate}
    (hacc : ∀ db : Db, db.Disciplined → db.rejects id u = false) {f : ℕ → Sql α}
    {R : Except QueueError α → List (Db × Write) → Prop}
    (h : ∀ (db : Db) n, db.Disciplined → Does Write.exec Db.Disciplined .any .any (f n)
      fun r h => R r ((db, .updateEpisode id u) :: h)) :
    Does Write.exec Db.Disciplined m .any (execute (.updateEpisode id u) >>= f) R :=
  does_execute (keeps_updateEpisode id u)
    (fun db hdb => ⟨_, if_neg (by simp [hacc db hdb])⟩) h

/-- An update that leaves the active statuses is always accepted. -/
theorem does_inactive {id : String} {u : EpisodeUpdate}
    (hu : ∀ e, (u.set e).status ∉ activeStatuses) {f : ℕ → Sql α}
    {R : Except QueueError α → List (Db × Write) → Prop}
    (h : ∀ (db : Db) n, db.Disciplined → Does Write.exec Db.Disciplined .any .any (f n)
      fun r h => R r ((db, .updateEpisode id u) :: h)) :
    Does Write.exec Db.Disciplined m .any (execute (.updateEpisode id u) >>= f) R :=
  does_update (fun _ _ => Db.rejects_of_inactive hu) h

/-- The dead letters and the ledger accept everything. -/
theorem does_elsewhere {w : Write} (hw : ∀ id e, w ≠ .insertEpisode id e)
    (hacc : ∀ db : Db, ∃ x, Write.exec w db = .ok x) {f : ℕ → Sql α}
    {R : Except QueueError α → List (Db × Write) → Prop}
    (h : ∀ (db : Db) n, db.Disciplined →
      Does Write.exec Db.Disciplined .any .any (f n) fun r h => R r ((db, w) :: h)) :
    Does Write.exec Db.Disciplined m .any (execute w >>= f) R :=
  does_execute (keeps_discipline fun e => hw "" e) (fun db _ => hacc db) h

/-- The last commit of a body. -/
theorem does_commit_complete :
    Does Write.exec Db.Disciplined m .any (commit : Sql Unit) fun r _ => Completes r ∧ True :=
  (does_commit ⟨⟨(), rfl⟩, trivial⟩).to_any

/-! ## Outcomes and checkpoints -/

/-- `mark_failed` completes: a failed row has no key in the index. -/
theorem runs_markFailed (env : Env) (id error : String) :
    Runs (markFailed env id error) fun r _ => Completes r := by
  refine (runs_withConn (R := fun _ _ => True) (m := .any) ?_).mono fun r h hr => hr.1
  exact does_inactive (fun e => by simp [EpisodeUpdate.set, activeStatuses])
    fun db n _ => does_commit_complete

/-- `update_checkpoint` completes: it leaves the key of its row alone. -/
theorem runs_updateCheckpoint (env : Env) (id text : String) :
    Runs (updateCheckpoint env id text) fun r _ => Completes r := by
  refine (runs_withConn (R := fun _ _ => True) (m := .any) ?_).mono fun r h hr => hr.1
  exact does_update (fun db hdb => hdb.rejects_of_indexKey fun e => rfl)
    fun db n _ => does_commit_complete

/-- `mark_done` completes, and closes the dead letter if there is an open one. -/
theorem runs_markDone (env : Env) (id : String) :
    Runs (markDone env id) fun r _ => Completes r := by
  refine (runs_withConn (R := fun _ _ => True) (m := .any) ?_).mono fun r h hr => hr.1
  refine does_inactive (fun e => by simp [EpisodeUpdate.set, activeStatuses]) fun db n _ => ?_
  refine does_select_bind fun db' _ => ?_
  split
  · exact does_elsewhere (by rintro id e ⟨⟩) (fun db => ⟨_, rfl⟩) fun db n _ => does_commit_complete
  · exact does_commit_complete

/-- `mark_aborted` completes. The row it reads may have changed when it writes, since
the read begins no transaction. -/
theorem runs_markAborted (env : Env) (id error : String) :
    Runs (markAborted env id error) fun r _ => Completes r := by
  refine (runs_withConn (R := fun _ _ => True) (m := .any) ?_).mono fun r h hr => hr.1
  refine does_select_bind fun db _ => ?_
  refine does_inactive (fun e => by simp [EpisodeUpdate.set, activeStatuses]) fun db n _ => ?_
  exact does_elsewhere (by rintro id e ⟨⟩) (fun db => ⟨_, rfl⟩) fun db n _ => does_commit_complete

/-- An event is recorded, or its error is swallowed; either way the call completes. -/
theorem runs_recordDedupEvent (ev : DedupEvent) :
    Runs (recordDedupEvent ev) fun r _ => Completes r := by
  refine (runs_withConn (R := fun _ _ => True) (m := .any) ?_).mono fun r h hr => hr.1
  refine does_tryWrite_bind (keeps_discipline (by rintro e ⟨⟩)) fun db _ => ?_
  exact does_commit_complete

/-- `mark_skipped_duplicate` completes, on its two connections. -/
theorem runs_markSkippedDuplicate (env : Env) (id : String) (existing payloadHash : Option String) :
    Runs (markSkippedDuplicate env id existing payloadHash) fun r _ => Completes r := by
  have hskip : Runs (withConn do
      let _ ← execute (.updateEpisode id (.skipDuplicate
        ("skipped: payload already ingested as " ++ pyOr existing "unknown") env.now))
      commit) fun r _ => Completes r := by
    refine (runs_withConn (R := fun _ _ => True) (m := .any) ?_).mono fun r h hr => hr.1
    exact does_inactive (fun e => by simp [EpisodeUpdate.set, activeStatuses])
      fun db n _ => does_commit_complete
  refine hskip.bind (fun _ h _ => ?_) (by rintro e h ⟨a, ha⟩; cases ha)
  split
  · exact runs_recordDedupEvent _
  · exact does_ret ⟨(), rfl⟩

/-! ## Enqueue -/

/-- A lookup sends nothing and returns. -/
theorem does_find (find : Db → Option String) {payloadHash : String} :
    Does Write.exec Db.Disciplined m m (do
      if payloadHash = "" then return none
      let db ← select
      return find db : Sql (Option String)) fun r h => Completes r ∧ h = [] := by
  split
  · exact does_ret ⟨⟨none, rfl⟩, rfl⟩
  · exact does_select_bind fun db _ => does_ret ⟨⟨_, rfl⟩, rfl⟩

/-- A lookup on a connection of its own. -/
theorem runs_findActiveDuplicate (env : Env) (payloadHash : String) :
    Runs (withConn (findActiveDuplicate env payloadHash)) fun r _ => Completes r :=
  (runs_withConn (does_find _)).mono fun _ _ hr => hr.1

/-- Without a legacy hash the gate is `off`, and only the primary key can object. -/
theorem runs_insertSync_none (env : Env) {id : String} (hid : id ≠ "") (payloadJson : PayloadJson)
    (now : ℕ) (canonicalHash : Option String) :
    Runs (insertSync env id payloadJson now none .off canonicalHash) fun r _ => NoIndexError r := by
  have hexec : ∀ (db : Db) err, Write.exec (.insertEpisode id
      (newEpisode payloadJson now none none canonicalHash .off)) db = .error err →
      err = .primaryKey := by
    intro db err h
    have hkey : (newEpisode payloadJson now none none canonicalHash .off).indexKey = none :=
      Episode.indexKey_of_gate (by simp [newEpisode])
    simp only [Write.exec, Db.conflicts_of_indexKey_none hkey, Bool.false_eq_true, if_false] at h
    split at h
    · exact (Except.error.inj h).symm
    · cases h
  have hbody : Does Write.exec Db.Disciplined .idle .any (do
      let _ ← execute (.insertEpisode id (newEpisode payloadJson now none none canonicalHash .off))
      commit) fun (r : Except QueueError Unit) h => (NoIndexError r ∧ ∀ x ∈ h,
        r ≠ .ok () → applied Write.exec x.1 x.2 = x.1) := by
    refine does_write_bind (keeps_insertEpisode hid _) (fun db err _ herr => ?_)
      fun db n _ _ _ => (does_commit ⟨by rintro ⟨⟩, fun x _ h => absurd rfl h⟩).to_any
    obtain rfl := hexec db err herr
    refine ⟨by rintro ⟨⟩, fun x hx _ => ?_⟩
    obtain rfl := List.mem_singleton.mp hx
    exact applied_error herr
  have hrun := Does.withConn hbody fun e h hr x hx => hr.2 x hx (by rintro ⟨⟩)
  exact hrun.mono fun r h hr => hr.1

/-- With a legacy hash every integrity error is a race lost. -/
theorem runs_insertSync_some (env : Env) {id : String} (hid : id ≠ "") (payloadJson : PayloadJson)
    (now : ℕ) (hash : String) (gate : DedupMode) (canonicalHash : Option String) :
    Runs (insertSync env id payloadJson now (some hash) gate canonicalHash) fun r _ =>
      r = .ok () ∨ ∃ existing, r = .error (.duplicateRace existing hash) := by
  refine (Does.withConn (m := .any) (R := fun r h => r = .ok () ∨
    (∃ existing, r = .error (.duplicateRace existing hash)) ∧
      ∀ x ∈ h, applied Write.exec x.1 x.2 = x.1) ?_ ?_).mono ?_
  · refine does_tryWrite_bind (keeps_insertEpisode hid _) fun db _ => ?_
    rcases hexec : Write.exec (.insertEpisode id (newEpisode payloadJson now (some hash)
      (some ("mcp:" ++ env.pid)) (canonicalHash.orElse fun _ => some hash) gate)) db
      with err | ⟨n, db'⟩
    · -- rejected: both lookups are followed by the same exception
      refine (Does.bind (does_find (m := .any) _) ?_ ?_).of_any
      · rintro existing _ ⟨-, rfl⟩
        rcases existing with _ | existing
        · refine Does.bind (does_find (m := .any) _) ?_ ?_
          · rintro existing _ ⟨-, rfl⟩
            refine does_fail (Or.inr ⟨⟨existing, rfl⟩, fun x hx => ?_⟩)
            obtain rfl := List.mem_singleton.mp hx
            exact applied_error hexec
          · rintro e h ⟨⟨a, ha⟩, -⟩
            cases ha
        · refine does_fail (Or.inr ⟨⟨some existing, rfl⟩, fun x hx => ?_⟩)
          obtain rfl := List.mem_singleton.mp hx
          exact applied_error hexec
      · rintro e h ⟨⟨a, ha⟩, -⟩
        cases ha
    · exact (does_commit (Or.inl rfl)).to_any
  · rintro e h (herr | ⟨-, hnone⟩)
    · cases herr
    · exact hnone
  · rintro r h (hok | ⟨hrace, -⟩)
    · exact Or.inl hok
    · exact Or.inr hrace

/-- An id that is generated if none is given is not empty. -/
theorem pyOr_ne {value : Option String} {fallback : String} (h : fallback ≠ "") :
    pyOr value fallback ≠ "" := by
  rcases value with _ | s
  · exact h
  · simp only [pyOr]
    split
    · exact h
    · assumption

/-- A ledger row and then a result. -/
theorem runs_recorded {p : Sql Unit} (hp : Runs p fun r _ => Completes r) {q : Sql α}
    (hq : Runs q fun r _ => NoIndexError r) :
    Runs (p >>= fun _ => q) fun r _ => NoIndexError r :=
  hp.bind (fun _ _ _ => hq) (by rintro e h ⟨a, ha⟩; cases ha)

/-- What returns at once raises nothing. -/
theorem runs_return (a : α) : Runs (.ret a : Sql α) fun r _ => NoIndexError r :=
  does_ret (by rintro ⟨⟩)

/-- An error of the code itself is not one of the index. -/
theorem runs_raise {e : QueueError} (h : e ≠ .integrity .uniqueIndex) :
    Runs (.fail e : Sql α) fun r _ => NoIndexError r :=
  does_fail (by rintro ⟨⟩; exact h rfl)

/-- **`enqueue` never raises the error of the index.** With a legacy hash it is translated;
without one the row is not under the index, and what is raised as it is comes from the
primary key. -/
theorem runs_enqueue (sha : Sha256) (env : Env) (args : EnqueueArgs) :
    Runs (enqueue sha env args) fun r _ => NoIndexError r := by
  have hid : args.epId env ≠ "" := pyOr_ne env.uuid_ne
  have hlog : ∀ action existing, Runs (recordDedupEventSync env args.mode action
      (some (args.canonicalHash sha)) existing (some (args.epId env))) fun r _ => Completes r :=
    fun action existing => runs_recordDedupEvent _
  unfold enqueue
  dsimp only
  split
  · refine (runs_insertSync_none env hid _ _ _).bind (fun _ _ _ => runs_return _) ?_
    exact fun e h hr => ⟨fun he => hr (congrArg Except.error (Except.error.inj he)), Or.inr rfl⟩
  · refine (runs_findActiveDuplicate env _).bind ?_ (by rintro e h ⟨a, ha⟩; cases ha)
    rintro duplicateOf h -
    split
    · exact runs_recorded (hlog _ _) (runs_raise (by rintro ⟨⟩))
    · have hinsert := runs_insertSync_some env hid (args.payload env).dumps env.now
        (args.canonicalHash sha) args.mode (some (args.canonicalHash sha))
      refine hinsert.attempt.bind ?_ (by rintro e h ⟨r', hr, -⟩; cases hr)
      rintro _ _ ⟨r, ⟨⟩, rfl | ⟨existing, rfl⟩⟩
      · dsimp only
        split
        · exact runs_recorded (hlog _ _) (runs_return _)
        · exact runs_return _
      · dsimp only
        split
        · exact runs_recorded (hlog _ _) (runs_raise (by rintro ⟨⟩))
        · exact runs_recorded (hlog _ _) (runs_return _)

/-- Where the index rejects an `INSERT`, the lookup finds an active row. -/
theorem Db.activeDuplicate_of_conflict {db : Db} (rank : String → ℕ) {id hash : String}
    {e : Episode} (hhash : e.canonicalHash = some hash)
    (hexec : Write.exec (.insertEpisode id e) db = .error .uniqueIndex) :
    ∃ existing, db.activeDuplicate rank hash = some existing := by
  have hconf : db.conflicts id e = true := by
    simp only [Write.exec] at hexec
    split at hexec
    · cases hexec
    · rcases hc : db.conflicts id e with _ | _
      · simp [hc] at hexec
      · rfl
  simp only [conflicts, Bool.and_eq_true, List.any_eq_true] at hconf
  obtain ⟨⟨-, hsome⟩, ⟨id', e'⟩, hmem, hrow⟩ := hconf
  obtain ⟨key, hkey⟩ := Option.isSome_iff_exists.mp hsome
  have hkey' : e'.indexKey = some key := by
    simp only [ne_eq, decide_eq_true_eq] at hrow
    exact hrow.2.trans hkey
  obtain ⟨-, -, hhash'⟩ := Episode.indexKey_eq_some.mp hkey
  obtain ⟨-, hactive, hholder⟩ := Episode.indexKey_eq_some.mp hkey'
  obtain rfl := Option.some.inj (hhash.symm.trans hhash')
  refine Option.ne_none_iff_exists'.mp fun hfound => ?_
  -- the row with the same key is one the lookup would find
  have hholds := activeDuplicate_eq_none_iff.mp hfound id' e' (Table.mem_rows.mp hmem) hactive
  simp [Episode.holds, hholder] at hholds

/-- **What the index rejects has a holder.** In a disciplined database the lookup finds an
active row, and its id is not empty, so that the caller takes it for one. -/
theorem Db.Disciplined.activeDuplicate_of_conflict {db : Db} (h : db.Disciplined)
    (rank : String → ℕ) {id hash : String} {e : Episode} (hhash : e.canonicalHash = some hash)
    (hexec : Write.exec (.insertEpisode id e) db = .error .uniqueIndex) :
    ∃ existing, db.activeDuplicate rank hash = some existing ∧ existing ≠ "" := by
  obtain ⟨existing, hfound⟩ := Db.activeDuplicate_of_conflict rank hhash hexec
  refine ⟨existing, hfound, ?_⟩
  rintro rfl
  obtain ⟨e', he'⟩ := exists_of_activeDuplicate hfound
  rw [h.ids] at he'
  cases he'

/-- The insert of the adapter translates the index's error. -/
theorem runs_insertWithHashSync (env : Env) (content groupId : String) (name : Option String)
    (sourceDescription : String) {payloadHash : String} (hhash : payloadHash ≠ "")
    (claimedBy : Option String) (mode : DedupMode) :
    Runs (insertWithHashSync env content groupId name sourceDescription payloadHash claimedBy mode)
      fun r _ => NoIndexError r := by
  refine (Does.withConn (m := .any) (R := fun r h => NoIndexError r ∧
    ∀ e, r = .error e → ∀ x ∈ h, applied Write.exec x.1 x.2 = x.1) ?_ ?_).mono
      fun r h hr => hr.1
  · refine does_tryWrite_bind (keeps_insertEpisode env.uuid_ne _) fun db hdb => ?_
    rcases hexec : Write.exec (.insertEpisode env.uuid (newEpisode (Payload.dumps ⟨content, groupId,
      pyOr name (defaultName env.uuid), sourceDescription⟩) env.now
      (if mode = .off then none else some payloadHash) claimedBy (some payloadHash) mode)) db
      with err | ⟨n, db'⟩
    · -- rejected: the lookup sees the database the index saw
      rw [applied_error hexec]
      have hnone : ∀ x ∈ [(db, Write.insertEpisode env.uuid (newEpisode (Payload.dumps ⟨content,
          groupId, pyOr name (defaultName env.uuid), sourceDescription⟩) env.now
          (if mode = .off then none else some payloadHash) claimedBy (some payloadHash) mode))],
          applied Write.exec x.1 x.2 = x.1 := by
        intro x hx
        obtain rfl := List.mem_singleton.mp hx
        exact applied_error hexec
      simp only [Except.map, findActiveDuplicate, if_neg hhash, bind_assoc]
      refine does_select_sees (Does.to_any (o := .sees db) ?_)
      rw [pure_bind, ← Db.activeDuplicate]
      rcases err with _ | _
      · -- the primary key
        rcases db.activeDuplicate env.rank payloadHash with _ | existing
        · exact does_fail ⟨by rintro ⟨⟩, fun _ _ => hnone⟩
        · dsimp only
          split
          · exact does_fail ⟨by rintro ⟨⟩, fun _ _ => hnone⟩
          · exact does_fail ⟨by rintro ⟨⟩, fun _ _ => hnone⟩
      · obtain ⟨existing, hfound, hne⟩ := hdb.activeDuplicate_of_conflict env.rank rfl hexec
        rw [hfound]
        dsimp only
        rw [if_neg hne]
        exact does_fail ⟨by rintro ⟨⟩, fun _ _ => hnone⟩
    · exact (does_commit_ret ⟨by rintro ⟨⟩, by rintro e ⟨⟩⟩).to_any
  · rintro e h ⟨-, hnone⟩
    exact hnone e rfl

/-- **`enqueue_guarded` never raises it either.** A row that the index rejects has an active
holder, which the lookup after it finds. -/
theorem runs_enqueueGuarded (sha : Sha256) (env : Env) (lockMode : LockMode)
    (instanceId content groupId : String) (name : Option String) (sourceDescription : String)
    (mode : DedupMode) :
    Runs (enqueueGuarded sha env lockMode instanceId content groupId name sourceDescription mode)
      fun r _ => NoIndexError r := by
  have hhash : canonicalPayloadHash sha content groupId sourceDescription ≠ "" :=
    sha.hexdigest_ne _
  have hinsert := runs_insertWithHashSync env content groupId name sourceDescription hhash
    (some instanceId) mode
  have hlog : ∀ action existing, Runs (adapterRecordDedupEvent env mode action
      (canonicalPayloadHash sha content groupId sourceDescription) existing)
      fun r _ => Completes r := fun action existing => runs_recordDedupEvent _
  unfold enqueueGuarded
  split
  · exact runs_raise (by rintro ⟨⟩)
  · dsimp only
    split
    · exact hinsert
    · refine (runs_findActiveDuplicate env _).bind ?_ (by rintro e h ⟨a, ha⟩; cases ha)
      rintro (_ | existing) h -
      · exact hinsert
      · dsimp only
        split
        · exact runs_recorded (hlog _ _) (runs_raise (by rintro ⟨⟩))
        · exact runs_recorded (hlog _ _) hinsert

/-! ## Requeues -/

/-- What `reap_stuck_processing` sends for a row: an abort; or a requeue and, if the
index rejects it, the mark of a skipped duplicate. -/
inductive ReapStuckTurn (now : ℕ) (maxAttempts : ℤ) (row : String × Episode) :
    List (Db × Write) → Prop where
  | aborted {db db' : Db} : maxAttempts ≤ (row.2.attemptCount + 1 : ℕ) →
      ReapStuckTurn now maxAttempts row
        [(db, .updateEpisode row.1 (.aborted (row.2.attemptCount + 1) timeoutError now)),
          (db', .replaceDeadLetter row.1
            (newDeadLetter row.2.payloadJson timeoutError (row.2.attemptCount + 1) now))]
  | requeued {db : Db} : db.rejects row.1 (.requeueStuck (row.2.attemptCount + 1) now) = false →
      ReapStuckTurn now maxAttempts row
        [(db, .updateEpisode row.1 (.requeueStuck (row.2.attemptCount + 1) now))]
  | skipped {db db' : Db} : db.rejects row.1 (.requeueStuck (row.2.attemptCount + 1) now) = true →
      ReapStuckTurn now maxAttempts row
        [(db, .updateEpisode row.1 (.requeueStuck (row.2.attemptCount + 1) now)),
          (db', .updateEpisode row.1 (.skipReaped now))]

/-- What `requeue_guarded` sends for an episode: its requeue, whatever the index says. -/
inductive RequeueTurn (now : ℕ) (extra : RequeueExtra) (id : String) :
    List (Db × Write) → Prop where
  | attempted {db : Db} : RequeueTurn now extra id [(db, .updateEpisode id (.requeue now extra))]

/-- What `replay_dlq_batch` sends for a row: its requeue and, unless the index rejects
it, the closing of its dead letter. -/
inductive ReplayTurn (now : ℕ) (row : String × DeadLetter) : List (Db × Write) → Prop where
  | rejected {db : Db} : db.rejects row.1 (.replayBatch now) = true →
      ReplayTurn now row [(db, .updateEpisode row.1 (.replayBatch now))]
  | accepted {db db' : Db} : db.rejects row.1 (.replayBatch now) = false →
      ReplayTurn now row [(db, .updateEpisode row.1 (.replayBatch now)),
        (db', .recoverDeadLetter row.1 now row.2.attemptCount false)]

/-- What `replay_dlq_episode` sends: nothing, or the requeue of its episode and, unless
the index rejects it, the closing of the dead letter. -/
inductive ReplayEpisodeTurn (now : ℕ) (id : String) : List (Db × Write) → Prop where
  | refused : ReplayEpisodeTurn now id []
  | rejected {db : Db} : db.rejects id (.requeue now .replay) = true →
      ReplayEpisodeTurn now id [(db, .updateEpisode id (.requeue now .replay))]
  | accepted {db db' : Db} {attempts : ℕ} : db.rejects id (.requeue now .replay) = false →
      ReplayEpisodeTurn now id [(db, .updateEpisode id (.requeue now .replay)),
        (db', .recoverDeadLetter id now attempts false)]

/-- One turn of `reap_stuck_processing` inside the loop. -/
theorem does_reapStuckRow (now : ℕ) (maxAttempts : ℤ) (row : String × Episode) :
    Does Write.exec Db.Disciplined .any .any (reapStuckRow now maxAttempts row)
      fun r h => (∃ a, r = .ok a) ∧ ReapStuckTurn now maxAttempts row h := by
  have hinactive : ∀ e, (EpisodeUpdate.set (.skipReaped now) e).status ∉ activeStatuses := by
    simp [EpisodeUpdate.set, activeStatuses]
  unfold reapStuckRow
  dsimp only
  split
  · rename_i hmax
    refine does_inactive (fun e => by simp [EpisodeUpdate.set, activeStatuses]) fun db n _ => ?_
    refine does_elsewhere (by rintro id e ⟨⟩) (fun db => ⟨_, rfl⟩) fun db' n _ => ?_
    exact does_ret ⟨⟨(), rfl⟩, .aborted hmax⟩
  · refine does_guarded_bind (keeps_updateEpisode _ _) (Or.inl rfl) fun db _ => ?_
    rcases hrej : db.rejects row.1 (.requeueStuck (row.2.attemptCount + 1) now) with _ | _
    · rw [Write.exec, if_neg (by simp [hrej])]
      exact does_ret ⟨⟨(), rfl⟩, .requeued hrej⟩
    · rw [Write.exec, if_pos hrej]
      refine does_inactive hinactive fun db' n _ => ?_
      exact does_ret ⟨⟨(), rfl⟩, .skipped hrej⟩

/-- **`reap_stuck_processing`** completes, and every stuck row it has selected gets its turn,
in their order. -/
theorem runs_reapStuckProcessing (env : Env) (timeoutSec maxAttempts : ℤ) :
    Runs (reapStuckProcessing env timeoutSec maxAttempts) fun r h => Completes r ∧
      ∃ (db : Db) (turns : List (List (Db × Write))), h = turns.flatten ∧
        List.Forall₂ (ReapStuckTurn env.now maxAttempts) (db.stuckRows env timeoutSec) turns := by
  refine runs_withConn (m := .any) (does_select_bind fun db _ => ?_)
  have hloop := does_forEach (does_reapStuckRow env.now maxAttempts) (db.stuckRows env timeoutSec)
  refine hloop.of_any.bind ?_ (by rintro e h ⟨⟨a, ha⟩, -⟩; cases ha)
  rintro as _ ⟨-, turns, rfl, hturns⟩
  refine (does_commit_ret ⟨⟨_, rfl⟩, db, turns, ?_, hturns⟩).to_any
  rw [List.append_nil]

/-- A requeue outside or inside a transaction: its id is returned if it was accepted. -/
theorem does_requeueRow (hmode : m = .any ∨ m = .idle) (now : ℕ) (extra : RequeueExtra)
    (id : String) :
    Does Write.exec Db.Disciplined m m (requeueRow now extra id) fun r h =>
      ∃ db : Db, h = [(db, .updateEpisode id (.requeue now extra))] ∧
        r = .ok (if db.rejects id (.requeue now extra) then none else some id) := by
  refine does_guarded_bind (keeps_updateEpisode _ _) hmode fun db _ => ?_
  rcases hrej : db.rejects id (.requeue now extra) with _ | _
  · rw [Write.exec, if_neg (by simp [hrej])]
    exact does_ret ⟨db, rfl, by rw [hrej]; rfl⟩
  · rw [Write.exec, if_pos hrej]
    exact does_ret ⟨db, rfl, by rw [hrej]; rfl⟩

/-- `requeue_guarded` goes through its ids and stops at none of them. -/
theorem does_requeueGuarded (now : ℕ) (extra : RequeueExtra) (ids : List String) :
    Does Write.exec Db.Disciplined .any .any (requeueGuarded now extra ids) fun r h =>
      Completes r ∧ ∃ turns, h = turns.flatten ∧ List.Forall₂ (RequeueTurn now extra) ids turns := by
  have hloop := does_forEach (m := .any) (T := RequeueTurn now extra)
    (fun id => (does_requeueRow (Or.inl rfl) now extra id).mono (by
      rintro r h ⟨db, rfl, rfl⟩
      exact ⟨⟨_, rfl⟩, .attempted⟩)) ids
  refine hloop.bind ?_ (by rintro e h ⟨⟨a, ha⟩, -⟩; cases ha)
  rintro as _ ⟨-, turns, rfl, hturns⟩
  exact does_ret ⟨⟨_, rfl⟩, turns, by rw [List.append_nil], hturns⟩

/-- **`reap_failed_or_aborted`** completes, and every eligible row it has selected gets its
turn. A limit that is not positive selects none. -/
theorem runs_reapFailedOrAborted (env : Env) (limit : Option ℤ) (policy : Option RetryPolicy) :
    Runs (reapFailedOrAborted env limit policy) fun r h => Completes r ∧
      (0 < limit.getD (policy.getD {}).reapLimit →
        ∃ (db : Db) (turns : List (List (Db × Write))), h = turns.flatten ∧
          List.Forall₂ (RequeueTurn env.now .resetFailures)
            ((db.reapable env.rank (policy.getD {})
              (limit.getD (policy.getD {}).reapLimit)).map Prod.fst) turns) := by
  unfold reapFailedOrAborted
  dsimp only
  split
  · rename_i hlimit
    exact does_ret ⟨⟨0, rfl⟩, fun hpos => absurd hlimit (by omega)⟩
  · refine runs_withConn (m := .any) (does_select_bind fun db _ => ?_)
    split
    · rename_i hempty
      rw [List.isEmpty_iff] at hempty
      refine (does_ret ⟨⟨0, rfl⟩, fun _ => ⟨db, [], rfl, ?_⟩⟩).to_any
      rw [hempty]
      exact .nil
    · refine (does_requeueGuarded env.now .resetFailures _).of_any.bind ?_
        (by rintro e h ⟨⟨a, ha⟩, -⟩; cases ha)
      rintro requeued _ ⟨-, turns, rfl, hturns⟩
      refine (does_commit_ret ⟨⟨_, rfl⟩, fun _ => ⟨db, turns, ?_, hturns⟩⟩).to_any
      rw [List.append_nil]

/-- `requeue_guarded` of one episode outside a transaction. -/
theorem runs_requeueGuarded_one (now : ℕ) (extra : RequeueExtra) (id : String) :
    Runs (requeueGuarded now extra [id]) fun r h =>
      ∃ db : Db, h = [(db, .updateEpisode id (.requeue now extra))] ∧
        r = .ok (if db.rejects id (.requeue now extra) then [] else [id]) := by
  have hrow := does_requeueRow (m := .idle) (Or.inr rfl) now extra id
  refine Does.bind (o := .idle) (R := fun r h =>
    ∃ db : Db, h = [(db, .updateEpisode id (.requeue now extra))] ∧
      r = .ok [if db.rejects id (.requeue now extra) then none else some id]) ?_ ?_ ?_
  · refine hrow.bind ?_ (by rintro e h ⟨db, -, hr⟩; cases hr)
    rintro a _ ⟨db, rfl, hr⟩
    obtain rfl := Except.ok.inj hr
    exact does_ret ⟨db, rfl, rfl⟩
  · rintro a _ ⟨db, rfl, hr⟩
    obtain rfl := Except.ok.inj hr
    refine does_ret ⟨db, rfl, ?_⟩
    split <;> simp [List.reduceOption_cons_of_none, List.reduceOption_cons_of_some]
  · rintro e h ⟨db, -, hr⟩
    cases hr

/-- The policy is asked by a `SELECT`, if it is asked at all. -/
theorem does_replayAdmitted (id : String) (policy : RetryPolicy) :
    Does Write.exec Db.Disciplined m m (replayAdmitted id policy) fun r h => Completes r ∧ h = [] := by
  unfold replayAdmitted
  split
  · exact does_ret ⟨⟨true, rfl⟩, rfl⟩
  · exact does_select_bind fun db _ => does_ret ⟨⟨_, rfl⟩, rfl⟩

/-- **`replay_dlq_episode`** completes. When the index rejects the requeue it rolls back, and
the dead letter stays open. -/
theorem runs_replayDlqEpisode (env : Env) (id : String) (policy : Option RetryPolicy) :
    Runs (replayDlqEpisode env id policy) fun r h =>
      Completes r ∧ ReplayEpisodeTurn env.now id h := by
  refine runs_withConn (m := .any) (does_select_bind fun db _ => ?_)
  split
  · exact (does_ret ⟨⟨false, rfl⟩, .refused⟩).to_any
  · rename_i d _
    refine Does.bind (does_replayAdmitted _ _) ?_
      (by rintro e h ⟨⟨a, ha⟩, -⟩; cases ha)
    rintro admitted _ ⟨-, rfl⟩
    split
    · exact (does_ret ⟨⟨false, rfl⟩, .refused⟩).to_any
    · refine (runs_requeueGuarded_one env.now .replay id).bind ?_
        (by rintro e h ⟨db, -, hr⟩; cases hr)
      rintro requeued _ ⟨db', rfl, hr⟩
      obtain rfl := Except.ok.inj hr
      rcases hrej : db'.rejects id (.requeue env.now .replay) with _ | _
      · simp only [Bool.false_eq_true, if_false, List.isEmpty_cons]
        refine does_elsewhere (by rintro id e ⟨⟩) (fun db => ⟨_, rfl⟩) fun db'' n _ => ?_
        exact (does_commit_ret ⟨⟨true, rfl⟩, .accepted hrej⟩).to_any
      · simp only [if_true, List.isEmpty_nil]
        have hrollback : Runs (rollback : Sql Unit) fun r h => Completes r ∧ h = [] :=
          does_rollback ⟨⟨(), rfl⟩, rfl⟩
        refine (hrollback.bind ?_ (by rintro e h ⟨⟨a, ha⟩, -⟩; cases ha)).to_any (o := .idle)
        rintro _ _ ⟨-, rfl⟩
        exact does_ret ⟨⟨false, rfl⟩, .rejected hrej⟩

/-- One turn of the batch replay inside the loop. -/
theorem does_replayRow (now : ℕ) (row : String × DeadLetter) :
    Does Write.exec Db.Disciplined .any .any (replayRow now row)
      fun r h => (∃ a, r = .ok a) ∧ ReplayTurn now row h := by
  unfold replayRow
  refine does_guarded_bind (keeps_updateEpisode _ _) (Or.inl rfl) fun db _ => ?_
  rcases hrej : db.rejects row.1 (.replayBatch now) with _ | _
  · rw [Write.exec, if_neg (by simp [hrej])]
    simp only [Except.map]
    split
    · refine does_elsewhere (by rintro id e ⟨⟩) (fun db => ⟨_, rfl⟩) fun db' n _ => ?_
      exact does_ret ⟨⟨0, rfl⟩, .accepted hrej⟩
    · refine does_elsewhere (by rintro id e ⟨⟩) (fun db => ⟨_, rfl⟩) fun db' n _ => ?_
      exact does_ret ⟨⟨1, rfl⟩, .accepted hrej⟩
  · rw [Write.exec, if_pos hrej]
    exact does_ret ⟨⟨0, rfl⟩, .rejected hrej⟩

/-- **`replay_dlq_batch`** completes, and every dead letter it has selected gets its turn. -/
theorem runs_replayDlqBatch (env : Env) (limit : ℤ) (classes : List String) (minAgeSec : ℤ)
    (policy : Option RetryPolicy) :
    Runs (replayDlqBatch env limit classes minAgeSec policy) fun r h => Completes r ∧
      ∃ (db : Db) (turns : List (List (Db × Write))), h = turns.flatten ∧
        List.Forall₂ (ReplayTurn env.now)
          (db.replayable env (policy.getD {}) classes minAgeSec limit) turns := by
  refine runs_withConn (m := .any) (does_select_bind fun db _ => ?_)
  dsimp only
  split
  · rename_i hempty
    rw [List.isEmpty_iff] at hempty
    refine (does_ret ⟨⟨0, rfl⟩, db, [], rfl, ?_⟩).to_any
    rw [hempty]
    exact .nil
  · refine (does_forEach (does_replayRow env.now) _).of_any.bind ?_
      (by rintro e h ⟨⟨a, ha⟩, -⟩; cases ha)
    rintro replayed _ ⟨-, turns, rfl, hturns⟩
    refine (does_commit_ret ⟨⟨_, rfl⟩, db, turns, ?_, hturns⟩).to_any
    rw [List.append_nil]

end JanusGraph
