import JanusGraph.Queue.IndexInvariant

/-!
# Two writers, one decision

The MCP server enqueues through `EpisodeQueue.enqueue`, the daemon through
`EpisodeQueueAdapter.enqueue_guarded`: two implementations of check-then-insert. Each
is run with a rival, a third writer whose row is committed after the check and right
before the `INSERT`.

They decide alike, and leave alike traces in the ledger, up to one case: an `enforce`
call whose check finds nothing and whose `INSERT` meets the rival's row. Both reject
it, but only the MCP writer records that it did.

The comparison has three stages.

* **The run.** `Conn.stepRivalled` executes the statements one by one and lets the rival
  in before the first `INSERT`. What is sent before (the check, and the event of a
  detected duplicate) does not let it in, which is what `Avoids` says.
* **One equation for each writer.** `againstRival_enqueue` and `againstRival_enqueueGuarded`
  give the outcome in terms of two databases: the one the check has read, and the one that
  the rival has struck.
* **The cases.** Mode, result of the check, and whether the index lets the row in
  (`EnqueueArgs.conflicts_struck_iff`). In one case the equations differ (`Overtaken`).

A decision is compared, not a row: the two writers store different names, and different
values of `claimed_by`. Their ledger rows name different writers, too, and are compared by
mode and action.
-/

namespace JanusGraph

open Script

/-- The statement a rival comes in before. -/
def Write.isInsert : Write → Bool
  | .insertEpisode _ _ => true
  | _ => false

/-- What the rival's `INSERT` makes of the database: nothing, if it is rejected, or
if there is no rival. -/
def Db.struck (db : Db) (rival : Option (String × Episode)) : Db :=
  rival.elim db fun r => db.apply (.insertEpisode r.1 r.2)

/-- A writer that runs with a rival: what it returns or raises, and the database it
leaves. -/
def againstRival {α : Type} (rival : Option (String × Episode)) (p : Sql α) (db : Db) :
    Except QueueError α × Db :=
  let r := p.run (Conn.stepRivalled Write.exec Write.isInsert)
    ⟨Conn.idle db, some fun db => db.struck rival⟩
  (r.1, r.2.conn.disk)

/-! ## What is compared -/

/-- What a writer decided. -/
inductive Decision : Type where
  | inserted
  | duplicate (existing : Option String)
  | neither
  deriving DecidableEq

/-- The decision of a writer whose row would be stored under `id`. -/
def decision (id : String) (r : Except QueueError String × Db) : Decision :=
  match r.1 with
  | .ok _ => if (r.2.episodes.get? id).isSome then .inserted else .neither
  | .error (.duplicateEpisode existing _) => .duplicate existing
  | .error (.episodeDuplicate existing) => .duplicate (some existing)
  | .error _ => .neither

/-- Mode and action of the ledger rows that have been appended to those of `db`. -/
def ledgerTrace (db db' : Db) : List (EventMode × EventAction) :=
  (db'.dedupEvents.drop db.dedupEvents.length).map fun ev => (ev.mode, ev.action)

/-- Two writers agree: both have inserted a row, or both have rejected it for the same
episode, and their ledger rows are alike. -/
structure Parity (db : Db) (id id' : String) (r r' : Except QueueError String × Db) : Prop where
  decided : decision id r ≠ .neither
  decision : decision id r = decision id' r'
  ledger : ledgerTrace db r.2 = ledgerTrace db r'.2

/-! ## The writers, one by one -/

/-- The check sends no `INSERT INTO episodes`. -/
theorem avoids_findActiveDuplicate (env : Env) (payloadHash : String) :
    Avoids Write.isInsert (withConn (findActiveDuplicate env payloadHash)) := by
  refine Avoids.withConn ?_
  unfold findActiveDuplicate
  split
  · exact avoids_ret none
  · exact avoids_select.bind fun db => avoids_ret _

/-- Neither does a ledger row, though it is an `INSERT`. -/
theorem avoids_recordDedupEvent (ev : DedupEvent) :
    Avoids Write.isInsert (recordDedupEvent ev) := by
  refine Avoids.withConn ((avoids_tryWrite rfl).bind ?_)
  rintro (e | n)
  · exact avoids_ret ()
  · exact avoids_commit

variable (strike : Db → Db)

/-- The check, with the rival still to come. -/
theorem rivalled_check (env : Env) {payloadHash : String} (h : payloadHash ≠ "") (db : Db) :
    (withConn (findActiveDuplicate env payloadHash)).run
        (Conn.stepRivalled Write.exec Write.isInsert) ⟨Conn.idle db, some strike⟩ =
      (.ok (db.activeDuplicate env.rank payloadHash), ⟨Conn.idle db, some strike⟩) := by
  rw [(avoids_findActiveDuplicate env payloadHash).run,
    run_withConn_ok (run_findActiveDuplicate env h (Conn.idle db))]
  rfl

/-- A ledger row, before or after the rival. -/
theorem rivalled_record (ev : DedupEvent) (db : Db) (rival : Option (Db → Db)) :
    (recordDedupEvent ev).run (Conn.stepRivalled Write.exec Write.isInsert)
        ⟨Conn.idle db, rival⟩ = (.ok (), ⟨Conn.idle (db.logged ev), rival⟩) := by
  have hrun := run_recordDedupEvent ev db
  rw [alone] at hrun
  rw [(avoids_recordDedupEvent ev).run, hrun]

/-- The same, for the rows of the MCP writer. -/
theorem rivalled_recordSync (env : Env) (mode : DedupMode) (action : EventAction)
    (payloadHash existing duplicate : Option String) (db : Db) (rival : Option (Db → Db)) :
    (recordDedupEventSync env mode action payloadHash existing duplicate).run
        (Conn.stepRivalled Write.exec Write.isInsert) ⟨Conn.idle db, rival⟩ =
      (.ok (), ⟨Conn.idle (db.logged (dedupEvent env mode action payloadHash existing duplicate)),
        rival⟩) :=
  rivalled_record _ db rival

/-- `_insert_sync` runs on the database the rival leaves. -/
theorem rivalled_insertSync (env : Env) (id : String) (payloadJson : PayloadJson) (now : ℕ)
    (payloadHash : Option String) (gate : DedupMode) (canonicalHash : Option String) (db : Db) :
    (insertSync env id payloadJson now payloadHash gate canonicalHash).run
        (Conn.stepRivalled Write.exec Write.isInsert) ⟨Conn.idle db, some strike⟩ =
      ((alone (insertSync env id payloadJson now payloadHash gate canonicalHash) (strike db)).1,
        ⟨(alone (insertSync env id payloadJson now payloadHash gate canonicalHash)
          (strike db)).2, none⟩) := by
  cases payloadHash with
  | none => exact run_rivalled rfl _ db (some strike)
  | some hash => exact run_rivalled rfl _ db (some strike)

/-- `_insert_with_hash_sync`, too. -/
theorem rivalled_insertWithHashSync (env : Env) (content groupId : String) (name : Option String)
    (sourceDescription payloadHash : String) (claimedBy : Option String) (mode : DedupMode)
    (db : Db) :
    (insertWithHashSync env content groupId name sourceDescription payloadHash claimedBy mode).run
        (Conn.stepRivalled Write.exec Write.isInsert) ⟨Conn.idle db, some strike⟩ =
      ((alone (insertWithHashSync env content groupId name sourceDescription payloadHash claimedBy
          mode) (strike db)).1,
        ⟨(alone (insertWithHashSync env content groupId name sourceDescription payloadHash
          claimedBy mode) (strike db)).2, none⟩) :=
  run_rivalled rfl _ db (some strike)

/-- What `enqueue` returns or raises, and the database it leaves, if its check meets
`db` and its `INSERT` meets `db₁`. -/
def EnqueueArgs.rivalledOutcome (args : EnqueueArgs) (sha : Sha256) (env : Env) (db db₁ : Db) :
    Except QueueError String × Db :=
  let hash := args.canonicalHash sha
  let existing := db.activeDuplicate env.rank hash
  if args.mode = .enforce ∧ existing.isSome then
    (.error (.duplicateEpisode existing hash), db.logged (args.event sha env .rejected existing))
  else
    match args.mode, Write.exec (.insertEpisode (args.epId env) (args.row sha env)) db₁ with
    | .off, .error e => (.error (.integrity e), db₁)
    | .observe, .error _ =>
      (.ok (args.epId env),
        db₁.logged (args.event sha env .detected (db₁.holder env.rank hash)))
    | .enforce, .error _ =>
      (.error (.duplicateEpisode (db₁.holder env.rank hash) hash),
        db₁.logged (args.event sha env .rejected (db₁.holder env.rank hash)))
    | .observe, .ok (_, db') =>
      (.ok (args.epId env),
        if existing.isSome then db'.logged (args.event sha env .detected existing) else db')
    | _, .ok (_, db') => (.ok (args.epId env), db')

/-- `_insert_sync` of an enqueue without a gate, after the rival. -/
theorem EnqueueArgs.rivalled_insert_off {args : EnqueueArgs} (hmode : args.mode = .off)
    (sha : Sha256) (env : Env) (db : Db) :
    (insertSync env (args.epId env) (args.payload env).dumps env.now none .off
        (some (args.canonicalHash sha))).run
        (Conn.stepRivalled Write.exec Write.isInsert) ⟨Conn.idle db, some strike⟩ =
      match Write.exec (.insertEpisode (args.epId env) (args.row sha env)) (strike db) with
      | .ok (_, db') => (.ok (), ⟨Conn.idle db', none⟩)
      | .error e => (.error (.integrity e), ⟨Conn.idle (strike db), none⟩) := by
  rw [rivalled_insertSync, run_insertSync_none, EnqueueArgs.row, if_pos hmode]
  rcases Write.exec _ (strike db) with e | ⟨n, db'⟩ <;> rfl

/-- And with one. -/
theorem EnqueueArgs.rivalled_insert_gated {args : EnqueueArgs} (hmode : args.mode ≠ .off)
    (sha : Sha256) (env : Env) (db : Db) :
    (insertSync env (args.epId env) (args.payload env).dumps env.now
        (some (args.canonicalHash sha)) args.mode (some (args.canonicalHash sha))).run
        (Conn.stepRivalled Write.exec Write.isInsert) ⟨Conn.idle db, some strike⟩ =
      match Write.exec (.insertEpisode (args.epId env) (args.row sha env)) (strike db) with
      | .ok (_, db') => (.ok (), ⟨Conn.idle db', none⟩)
      | .error _ => (.error (.duplicateRace ((strike db).holder env.rank (args.canonicalHash sha))
          (args.canonicalHash sha)), ⟨Conn.idle (strike db), none⟩) := by
  rw [rivalled_insertSync, run_insertSync_some env _ _ _ (args.canonicalHash_ne sha),
    EnqueueArgs.row, if_neg hmode]
  rcases Write.exec _ (strike db) with e | ⟨n, db'⟩ <;> rfl

/-- **The MCP writer against a rival.** The check reads `db`, the `INSERT` meets what the
rival leaves. -/
theorem againstRival_enqueue (sha : Sha256) (env : Env) (args : EnqueueArgs) (db : Db)
    (rival : Option (String × Episode)) :
    againstRival rival (enqueue sha env args) db =
      args.rivalledOutcome sha env db (db.struck rival) := by
  have hcheck := rivalled_check (fun db => db.struck rival) env (args.canonicalHash_ne sha) db
  have hgated (hmode : args.mode ≠ .off) :=
    EnqueueArgs.rivalled_insert_gated (fun db => db.struck rival) hmode sha env db
  rcases hmode : args.mode with _ | _ | _
  · -- off: no check, and an integrity error is raised
    have hrun := EnqueueArgs.rivalled_insert_off (fun db => db.struck rival) hmode sha env db
    rcases h : Write.exec (.insertEpisode (args.epId env) (args.row sha env)) (db.struck rival)
      with e | ⟨n, db'⟩
    all_goals
      rw [h] at hrun
      simp [againstRival, enqueue, hmode, Prog.run_bind, hrun, EnqueueArgs.rivalledOutcome, h]
  · -- observe: the id is returned, and a duplicate is recorded
    have hrun := hgated (by simp [hmode])
    rcases h : Write.exec (.insertEpisode (args.epId env) (args.row sha env)) (db.struck rival)
      with e | ⟨n, db'⟩
    all_goals
      rw [h, hmode] at hrun
      rcases hdup : db.activeDuplicate env.rank (args.canonicalHash sha) with _ | existing
      all_goals
        rw [hdup] at hcheck
        simp [againstRival, enqueue, hmode, Prog.run_bind, Prog.run_attempt, hcheck, hrun,
          rivalled_recordSync, EnqueueArgs.rivalledOutcome, EnqueueArgs.event, h, hdup]
  · -- enforce: a duplicate found, or met by the `INSERT`, is rejected
    rcases hdup : db.activeDuplicate env.rank (args.canonicalHash sha) with _ | existing
    · have hrun := hgated (by simp [hmode])
      rcases h : Write.exec (.insertEpisode (args.epId env) (args.row sha env)) (db.struck rival)
        with e | ⟨n, db'⟩
      all_goals
        rw [h, hmode] at hrun
        rw [hdup] at hcheck
        simp [againstRival, enqueue, hmode, Prog.run_bind, Prog.run_attempt, hcheck, hrun,
          rivalled_recordSync, EnqueueArgs.rivalledOutcome, EnqueueArgs.event, h, hdup]
    · rw [hdup] at hcheck
      simp [againstRival, enqueue, hmode, Prog.run_bind, hcheck, rivalled_recordSync,
        EnqueueArgs.rivalledOutcome, EnqueueArgs.event, hdup]

/-- An `INSERT` does not look at the ledger. -/
theorem Db.exec_insertEpisode_logged (db : Db) (ev : DedupEvent) (id : String) (e : Episode) :
    Write.exec (.insertEpisode id e) (db.logged ev) =
      (Write.exec (.insertEpisode id e) db).map fun r => (r.1, r.2.logged ev) := by
  have hepisodes : (db.logged ev).episodes = db.episodes := rfl
  have hconflicts : (db.logged ev).conflicts id e = db.conflicts id e := rfl
  simp only [Write.exec, hepisodes, hconflicts]
  split_ifs <;> rfl

/-- The rival and the ledger do not meet. -/
theorem Db.struck_logged (db : Db) (ev : DedupEvent) (rival : Option (String × Episode)) :
    (db.logged ev).struck rival = (db.struck rival).logged ev := by
  rcases rival with _ | ⟨id, e⟩
  · rfl
  · simp only [struck, Option.elim_some, apply, applied, exec_insertEpisode_logged]
    rcases Write.exec (.insertEpisode id e) db with err | ⟨n, db'⟩ <;> rfl

/-- The adapter's `INSERT`. -/
def adapterInsert (sha : Sha256) (env : Env) (instanceId : String) (name : Option String)
    (args : EnqueueArgs) (db : Db) : Except QueueError String × Db :=
  match Write.exec (.insertEpisode env.uuid (adapterRow env args.content args.groupId name
    args.sourceDescription (args.canonicalHash sha) (some instanceId) args.mode)) db with
  | .ok (_, db') => (.ok env.uuid, db')
  | .error e => (.error (adapterError e (db.activeDuplicate env.rank (args.canonicalHash sha))), db)

/-- The ledger row of the adapter. -/
def adapterEvent (sha : Sha256) (env : Env) (args : EnqueueArgs) (action : EventAction)
    (existing : String) : DedupEvent where
  detectedAt := env.detectedAt
  mode := .gate args.mode
  action
  payloadHash := some (args.canonicalHash sha)
  existingEpisodeId := some existing
  duplicateEpisodeId := none
  writer := some ("daemon:" ++ env.pid)

/-- What `enqueue_guarded` returns or raises, and the database it leaves, if its check
meets `db` and its `INSERT` meets `db₁`, but for the ledger row it writes in between. -/
def adapterOutcome (sha : Sha256) (env : Env) (instanceId : String) (name : Option String)
    (args : EnqueueArgs) (db db₁ : Db) : Except QueueError String × Db :=
  match args.mode, db.activeDuplicate env.rank (args.canonicalHash sha) with
  | .enforce, some existing =>
    (.error (.episodeDuplicate existing), db.logged (adapterEvent sha env args .rejected existing))
  | .observe, some existing =>
    adapterInsert sha env instanceId name args
      (db₁.logged (adapterEvent sha env args .detected existing))
  | _, _ => adapterInsert sha env instanceId name args db₁

/-- **The daemon writer against a rival.** Its lock mode lets it write. -/
theorem againstRival_enqueueGuarded (sha : Sha256) (env : Env) {lockMode : LockMode}
    (hlock : lockMode ≠ .mcpOnly) (instanceId : String) (name : Option String)
    (args : EnqueueArgs) (db : Db) (rival : Option (String × Episode)) :
    againstRival rival (enqueueGuarded sha env lockMode instanceId args.content args.groupId name
        args.sourceDescription args.mode) db =
      adapterOutcome sha env instanceId name args db (db.struck rival) := by
  have hhash : canonicalPayloadHash sha args.content args.groupId args.sourceDescription =
    args.canonicalHash sha := rfl
  have hcheck := rivalled_check (fun db => db.struck rival) env (args.canonicalHash_ne sha) db
  have hinsert : ∀ db, (insertWithHashSync env args.content args.groupId name
      args.sourceDescription (args.canonicalHash sha) (some instanceId) args.mode).run
        (Conn.stepRivalled Write.exec Write.isInsert)
        ⟨Conn.idle db, some fun db => db.struck rival⟩ =
      ((adapterInsert sha env instanceId name args (db.struck rival)).1,
        ⟨Conn.idle (adapterInsert sha env instanceId name args (db.struck rival)).2, none⟩) := by
    intro db
    rw [rivalled_insertWithHashSync, run_insertWithHashSync env _ _ _ _ (args.canonicalHash_ne sha),
      adapterInsert]
    rcases Write.exec (.insertEpisode env.uuid (adapterRow env args.content args.groupId name
      args.sourceDescription (args.canonicalHash sha) (some instanceId) args.mode))
      (db.struck rival) with e | ⟨n, db'⟩ <;> rfl
  have hlog : ∀ action existing, (adapterRecordDedupEvent env args.mode action
      (args.canonicalHash sha) existing).run (Conn.stepRivalled Write.exec Write.isInsert)
        ⟨Conn.idle db, some fun db => db.struck rival⟩ =
      (.ok (), ⟨Conn.idle (db.logged (adapterEvent sha env args action existing)),
        some fun db => db.struck rival⟩) := fun _ _ => rivalled_record _ _ _
  rcases hmode : args.mode with _ | _ | _ <;> rw [hmode] at hinsert hlog
  · simp [againstRival, enqueueGuarded, hlock, hhash, hinsert, adapterOutcome, hmode]
  · rcases hdup : db.activeDuplicate env.rank (args.canonicalHash sha) with _ | existing <;>
      rw [hdup] at hcheck
    · simp [againstRival, enqueueGuarded, hlock, hhash, Prog.run_bind, hcheck, hinsert,
        adapterOutcome, hmode, hdup]
    · simp [againstRival, enqueueGuarded, hlock, hhash, Prog.run_bind, hcheck, hlog, hinsert,
        adapterOutcome, hmode, hdup, Db.struck_logged]
  · rcases hdup : db.activeDuplicate env.rank (args.canonicalHash sha) with _ | existing <;>
      rw [hdup] at hcheck
    · simp [againstRival, enqueueGuarded, hlock, hhash, Prog.run_bind, hcheck, hinsert,
        adapterOutcome, hmode, hdup]
    · simp [againstRival, enqueueGuarded, hlock, hhash, Prog.run_bind, hcheck, hlog,
        adapterOutcome, hmode, hdup]

/-! ## What the `INSERT` meets -/

/-- The id of a row that is to be inserted: nobody has it, the rival included. -/
def Db.Fresh (db : Db) (rival : Option (String × Episode)) (id : String) : Prop :=
  db.episodes.get? id = none ∧ ∀ r ∈ rival, r.1 ≠ id

/-- Under a new id only the index can refuse a row. -/
theorem Db.exec_insertEpisode_new {db : Db} {id : String} (h : db.episodes.get? id = none)
    (e : Episode) :
    Write.exec (.insertEpisode id e) db =
      if db.conflicts id e then .error .uniqueIndex
      else .ok (1, { db with episodes := db.episodes.put id e }) := by
  simp [Write.exec, h]

/-- The rival's row is there, or nothing has changed. -/
theorem Db.struck_cases (db : Db) (rival : Option (String × Episode)) :
    db.struck rival = db ∨ ∃ id e, rival = some (id, e) ∧ db.episodes.get? id = none ∧
      db.struck rival = { db with episodes := db.episodes.put id e } := by
  rcases rival with _ | ⟨id, e⟩
  · exact Or.inl rfl
  · rcases h : Write.exec (.insertEpisode id e) db with err | ⟨n, db'⟩
    · exact Or.inl (applied_error h)
    · obtain ⟨hnone, rfl⟩ := insertEpisode_ok h
      exact Or.inr ⟨id, e, rfl, hnone, applied_ok h⟩

/-- The rival leaves the id of the writer alone. -/
theorem Db.Fresh.struck {db : Db} {rival : Option (String × Episode)} {id : String}
    (h : db.Fresh rival id) : (db.struck rival).episodes.get? id = none := by
  obtain hsame | ⟨id', e, hrival, -, hput⟩ := db.struck_cases rival
  · rw [hsame]
    exact h.1
  · rw [hput, Table.get?_put_ne _ _ (Ne.symm (h.2 _ hrival))]
    exact h.1

/-- The rival leaves the ledger alone, -/
theorem Db.dedupEvents_struck (db : Db) (rival : Option (String × Episode)) :
    (db.struck rival).dedupEvents = db.dedupEvents := by
  obtain hsame | ⟨id, e, -, -, hput⟩ := db.struck_cases rival
  · rw [hsame]
  · rw [hput]

/-- and the index where it was. -/
theorem Db.uniqueIndex_struck (db : Db) (rival : Option (String × Episode)) :
    (db.struck rival).uniqueIndex = db.uniqueIndex := by
  obtain hsame | ⟨id, e, -, -, hput⟩ := db.struck_cases rival
  · rw [hsame]
  · rw [hput]

/-- If the check finds nothing, no row is in the index under the hash. -/
theorem Db.indexKey_ne_of_activeDuplicate {db : Db} {rank : String → ℕ} {hash id : String}
    {e : Episode} (h : db.activeDuplicate rank hash = none) (he : db.episodes.get? id = some e) :
    e.indexKey ≠ some hash := by
  intro hkey
  obtain ⟨-, hactive, hhash⟩ := Episode.indexKey_eq_some.mp hkey
  have hholds := activeDuplicate_eq_none_iff.mp h id e he hactive
  simp [Episode.holds, hhash] at hholds

/-- The rival takes the hash from under an `enforce` call whose check found nothing. -/
def EnqueueArgs.Overtaken (args : EnqueueArgs) (sha : Sha256) (env : Env) (db : Db)
    (rival : Option (String × Episode)) : Prop :=
  args.mode = .enforce ∧ db.activeDuplicate env.rank (args.canonicalHash sha) = none ∧
    db.uniqueIndex = true ∧ ∃ id e, rival = some (id, e) ∧ db.episodes.get? id = none ∧
      e.indexKey = some (args.canonicalHash sha)

/-- **Where the rival matters.** The index rejects a new `enforce` row after an empty check
exactly if the rival has taken the hash. -/
theorem EnqueueArgs.conflicts_struck_iff {args : EnqueueArgs} {sha : Sha256} {env : Env} {db : Db}
    {rival : Option (String × Episode)} {id : String} {e : Episode}
    (hmode : args.mode = .enforce)
    (hdup : db.activeDuplicate env.rank (args.canonicalHash sha) = none)
    (hid : db.Fresh rival id) (he : e.indexKey = some (args.canonicalHash sha)) :
    (db.struck rival).conflicts id e = true ↔ args.Overtaken sha env db rival := by
  constructor
  · intro hconf
    simp only [Db.conflicts, Db.uniqueIndex_struck, Bool.and_eq_true, List.any_eq_true] at hconf
    obtain ⟨⟨hindex, -⟩, ⟨id', e'⟩, hmem, hrow⟩ := hconf
    obtain ⟨-, hkey⟩ : id' ≠ id ∧ e'.indexKey = e.indexKey := by simpa using hrow
    rw [he] at hkey
    have hget := Table.mem_rows.mp hmem
    obtain hsame | ⟨id₁, e₁, hrival, hnone, hput⟩ := db.struck_cases rival
    · rw [hsame] at hget
      exact absurd hkey (Db.indexKey_ne_of_activeDuplicate hdup hget)
    · rw [hput, Table.get?_put] at hget
      split at hget
      · rename_i heq
        obtain rfl := Option.some.inj hget
        exact ⟨hmode, hdup, hindex, id₁, e₁, hrival, hnone, hkey⟩
      · exact absurd hkey (Db.indexKey_ne_of_activeDuplicate hdup hget)
  · rintro ⟨-, -, hindex, id', e', rfl, hnone, hkey⟩
    -- nothing stops the rival: no row is in the index under the hash
    have haccepted : db.conflicts id' e' = false := by
      refine (Db.not_conflicts_iff hindex).mpr fun id₁ e₁ key he₁ _ hkey₁ => ?_
      obtain rfl := Option.some.inj (hkey.symm.trans hkey₁)
      exact Db.indexKey_ne_of_activeDuplicate hdup he₁
    have hput : db.struck (some (id', e')) = { db with episodes := db.episodes.put id' e' } := by
      refine applied_ok (n := 1) ?_
      rw [Db.exec_insertEpisode_new hnone, haccepted]
      rfl
    have hmem : (id', e') ∈ (db.episodes.put id' e').rows :=
      Table.mem_rows.mpr (Table.get?_put_self _ _ _)
    have hne : id' ≠ id := hid.2 _ rfl
    rw [hput]
    simp only [Db.conflicts, hindex, he, Option.isSome_some, Bool.and_self, Bool.true_and,
      List.any_eq_true]
    exact ⟨_, hmem, by simp [hne, hkey]⟩

/-! ## Parity -/

/-- Nothing recorded, nothing to compare. -/
@[simp] theorem ledgerTrace_self (db : Db) : ledgerTrace db db = [] := by simp [ledgerTrace]

/-- Rows that are inserted do not show in the ledger. -/
theorem ledgerTrace_of_eq {db db' : Db} (h : db'.dedupEvents = db.dedupEvents) :
    ledgerTrace db db' = [] := by
  simp [ledgerTrace, h]

/-- One event that is recorded at the end is the whole trace. -/
theorem ledgerTrace_logged {db db' : Db} (h : db'.dedupEvents = db.dedupEvents)
    (ev : DedupEvent) : ledgerTrace db (db'.logged ev) = [(ev.mode, ev.action)] := by
  simp [ledgerTrace, Db.logged, h]

/-- A row of the adapter is under the index in `enforce` mode, -/
theorem adapterRow_indexKey (env : Env) (content groupId : String) (name : Option String)
    (sourceDescription payloadHash : String) (claimedBy : Option String) (mode : DedupMode) :
    (adapterRow env content groupId name sourceDescription payloadHash claimedBy mode).indexKey =
      if mode = .enforce then some payloadHash else none := by
  simp [adapterRow, newEpisode, Episode.indexKey, activeStatuses]

/-- and a row of the MCP writer is there in the same mode, with the same key. -/
theorem EnqueueArgs.row_indexKey (args : EnqueueArgs) (sha : Sha256) (env : Env) :
    (args.row sha env).indexKey =
      if args.mode = .enforce then some (args.canonicalHash sha) else none := by
  rcases hmode : args.mode with _ | _ | _ <;>
    simp [row, hmode, newEpisode, Episode.indexKey, activeStatuses]

/-- Where the index has nothing to say, `enqueue` inserts its row. -/
theorem EnqueueArgs.rivalledOutcome_of_accepted {args : EnqueueArgs} {sha : Sha256} {env : Env}
    {db db₁ : Db} (hnew : db₁.episodes.get? (args.epId env) = none)
    (hacc : db₁.conflicts (args.epId env) (args.row sha env) = false)
    (hrej : ¬ (args.mode = .enforce ∧
      (db.activeDuplicate env.rank (args.canonicalHash sha)).isSome)) :
    args.rivalledOutcome sha env db db₁ =
      (.ok (args.epId env),
        let db' := { db₁ with episodes := db₁.episodes.put (args.epId env) (args.row sha env) }
        if args.mode = .observe ∧
            (db.activeDuplicate env.rank (args.canonicalHash sha)).isSome then
          db'.logged (args.event sha env .detected
            (db.activeDuplicate env.rank (args.canonicalHash sha)))
        else db') := by
  rw [rivalledOutcome, if_neg hrej, Db.exec_insertEpisode_new hnew, hacc]
  rcases hmode : args.mode with _ | _ | _ <;> simp

/-- So does the adapter. -/
theorem adapterInsert_of_accepted {sha : Sha256} {env : Env} {instanceId : String}
    {name : Option String} {args : EnqueueArgs} {db : Db}
    (hnew : db.episodes.get? env.uuid = none)
    (hacc : db.conflicts env.uuid (adapterRow env args.content args.groupId name
      args.sourceDescription (args.canonicalHash sha) (some instanceId) args.mode) = false) :
    adapterInsert sha env instanceId name args db =
      (.ok env.uuid, { db with episodes := db.episodes.put env.uuid (adapterRow env args.content
        args.groupId name args.sourceDescription (args.canonicalHash sha) (some instanceId)
        args.mode) }) := by
  rw [adapterInsert, Db.exec_insertEpisode_new hnew, hacc]
  rfl

variable {args : EnqueueArgs} {sha : Sha256} {env env' : Env} {lockMode : LockMode}
  {instanceId : String} {name : Option String} {db : Db} {rival : Option (String × Episode)}

/-- A check that does not reject the call, and a rival that does not overtake it: the
index accepts its row. -/
theorem EnqueueArgs.accepted {id : String} {e : Episode}
    (hrej : ¬ (args.mode = .enforce ∧
      (db.activeDuplicate env.rank (args.canonicalHash sha)).isSome))
    (hover : ¬ args.Overtaken sha env db rival) (hid : db.Fresh rival id)
    (he : e.indexKey = if args.mode = .enforce then some (args.canonicalHash sha) else none) :
    (db.struck rival).conflicts id e = false := by
  by_cases hmode : args.mode = .enforce
  · rw [if_pos hmode] at he
    have hdup : db.activeDuplicate env.rank (args.canonicalHash sha) = none := by
      rw [← Option.not_isSome_iff_eq_none]
      exact fun hsome => hrej ⟨hmode, hsome⟩
    rw [← Bool.not_eq_true]
    exact fun hconf => hover ((conflicts_struck_iff hmode hdup hid he).mp hconf)
  · rw [if_neg hmode] at he
    exact Db.conflicts_of_indexKey_none he

/-- **Parity**, in every case but one. An `INSERT` is accepted for both or for neither, and
they look at the same database for the name of the holder. -/
theorem parity_of_not_overtaken (hrank : env'.rank = env.rank)
    (hid : db.Fresh rival (args.epId env)) (hid' : db.Fresh rival env'.uuid)
    (hover : ¬ args.Overtaken sha env db rival) :
    Parity db (args.epId env) env'.uuid (args.rivalledOutcome sha env db (db.struck rival))
      (adapterOutcome sha env' instanceId name args db (db.struck rival)) := by
  have hevents := db.dedupEvents_struck rival
  by_cases hrej : args.mode = .enforce ∧
      (db.activeDuplicate env.rank (args.canonicalHash sha)).isSome
  · -- the check has found a duplicate, the same one
    obtain ⟨hmode, hsome⟩ := hrej
    obtain ⟨existing, hdup⟩ := Option.isSome_iff_exists.mp hsome
    have hr : args.rivalledOutcome sha env db (db.struck rival) =
        (.error (.duplicateEpisode (some existing) (args.canonicalHash sha)),
          db.logged (args.event sha env .rejected (some existing))) := by
      simp [EnqueueArgs.rivalledOutcome, hmode, hdup]
    have hr' : adapterOutcome sha env' instanceId name args db (db.struck rival) =
        (.error (.episodeDuplicate existing),
          db.logged (adapterEvent sha env' args .rejected existing)) := by
      simp [adapterOutcome, hmode, hrank, hdup]
    rw [hr, hr']
    refine ⟨by simp [decision], rfl, ?_⟩
    rw [ledgerTrace_logged rfl, ledgerTrace_logged rfl]
    rfl
  · have hr := EnqueueArgs.rivalledOutcome_of_accepted hid.struck
      (EnqueueArgs.accepted hrej hover hid (args.row_indexKey sha env)) hrej
    have hacc' := EnqueueArgs.accepted hrej hover hid' (adapterRow_indexKey env' args.content
      args.groupId name args.sourceDescription (args.canonicalHash sha) (some instanceId) args.mode)
    by_cases hobs : args.mode = .observe ∧
        (db.activeDuplicate env.rank (args.canonicalHash sha)).isSome
    · -- both insert, and record the duplicate: one after its row, the other before it
      obtain ⟨hmode, hsome⟩ := hobs
      obtain ⟨existing, hdup⟩ := Option.isSome_iff_exists.mp hsome
      have hr' : adapterOutcome sha env' instanceId name args db (db.struck rival) =
          adapterInsert sha env' instanceId name args
            ((db.struck rival).logged (adapterEvent sha env' args .detected existing)) := by
        simp [adapterOutcome, hmode, hrank, hdup]
      have hins := @adapterInsert_of_accepted sha env' instanceId name args
        ((db.struck rival).logged (adapterEvent sha env' args .detected existing))
        hid'.struck hacc'
      rw [hins] at hr'
      rw [hr, hr', if_pos ⟨hmode, hsome⟩]
      refine ⟨by simp [decision, Db.logged], by simp [decision, Db.logged], ?_⟩
      simp [ledgerTrace, Db.logged, hevents, adapterEvent, EnqueueArgs.event, dedupEvent]
    · have hr' : adapterOutcome sha env' instanceId name args db (db.struck rival) =
          adapterInsert sha env' instanceId name args (db.struck rival) := by
        rcases hmode : args.mode with _ | _ | _ <;>
          rcases hdup : db.activeDuplicate env.rank (args.canonicalHash sha) with _ | existing <;>
          simp_all [adapterOutcome]
      rw [adapterInsert_of_accepted hid'.struck hacc'] at hr'
      rw [hr, hr', if_neg hobs]
      refine ⟨by simp [decision], by simp [decision], ?_⟩
      exact (ledgerTrace_of_eq hevents).trans (ledgerTrace_of_eq hevents).symm

/-- **The one case.** Both reject the row for the rival's; the MCP writer has recorded a
rejection, the daemon writer nothing. -/
theorem not_parity_of_overtaken (hrank : env'.rank = env.rank)
    (hid : db.Fresh rival (args.epId env)) (hid' : db.Fresh rival env'.uuid)
    (hover : args.Overtaken sha env db rival) :
    ¬ Parity db (args.epId env) env'.uuid (args.rivalledOutcome sha env db (db.struck rival))
      (adapterOutcome sha env' instanceId name args db (db.struck rival)) := by
  have hevents := db.dedupEvents_struck rival
  obtain ⟨hmode, hdup, -⟩ := id hover
  have hconf : (db.struck rival).conflicts (args.epId env) (args.row sha env) = true :=
    (EnqueueArgs.conflicts_struck_iff hmode hdup hid
      (by rw [args.row_indexKey, if_pos hmode])).mpr hover
  have hconf' : (db.struck rival).conflicts env'.uuid (adapterRow env' args.content args.groupId
      name args.sourceDescription (args.canonicalHash sha) (some instanceId) args.mode) = true :=
    (EnqueueArgs.conflicts_struck_iff hmode hdup hid'
      (by rw [adapterRow_indexKey, if_pos hmode])).mpr hover
  rw [hmode] at hconf'
  have hr : (args.rivalledOutcome sha env db (db.struck rival)).2 = (db.struck rival).logged
      (args.event sha env .rejected ((db.struck rival).holder env.rank (args.canonicalHash sha))) := by
    simp [EnqueueArgs.rivalledOutcome, hmode, hdup, Db.exec_insertEpisode_new hid.struck, hconf]
  have hr' : (adapterOutcome sha env' instanceId name args db (db.struck rival)).2 =
      db.struck rival := by
    simp [adapterOutcome, adapterInsert, hmode, hrank, hdup, Db.exec_insertEpisode_new hid'.struck,
      hconf']
  intro hparity
  have hledger := hparity.ledger
  rw [hr, hr', ledgerTrace_logged hevents, ledgerTrace_of_eq hevents] at hledger
  cases hledger

/-- **Writer parity, exactly.** Whatever a rival inserts between the check and the `INSERT`,
the two writers agree if and only if it does not take the hash from under an `enforce` call.
Both check first and insert then, with the same hash and the same index in between; they
differ in what they record when the index rejects what the check had let through. -/
theorem writer_parity_iff (sha : Sha256) (env env' : Env) (args : EnqueueArgs)
    (lockMode : LockMode) (instanceId : String) (name : Option String) (db : Db)
    (rival : Option (String × Episode)) (hlock : lockMode ≠ .mcpOnly)
    (hrank : env'.rank = env.rank) (hid : db.Fresh rival (args.epId env))
    (hid' : db.Fresh rival env'.uuid) :
    Parity db (args.epId env) env'.uuid (againstRival rival (enqueue sha env args) db)
        (againstRival rival (enqueueGuarded sha env' lockMode instanceId args.content args.groupId
          name args.sourceDescription args.mode) db) ↔
      ¬ args.Overtaken sha env db rival := by
  rw [againstRival_enqueue, againstRival_enqueueGuarded sha env' hlock]
  exact ⟨fun hparity hover => not_parity_of_overtaken hrank hid hid' hover hparity,
    parity_of_not_overtaken hrank hid hid'⟩

/-- An environment with another uuid, for the second writer. -/
def Env.daemon (now : ℕ) : Env :=
  { Env.at now with uuid := "11111111-1111-4111-8111-111111111111", uuid_ne := by decide }

/-- The row of a third writer that takes the hash of `content`. -/
def rivalRow (content : String) : String × Episode :=
  ("rival", { content, mode := .enforce : EnqueueArgs }.row .plain (.at 1))

/-- Different contents: the rival does no harm. -/
theorem writer_parity_apart :
    Parity Db.empty (Env.at 2).uuid (Env.daemon 2).uuid
        (againstRival (some (rivalRow "other")) (enqueue .plain (.at 2)
          { content := "x", mode := .enforce }) Db.empty)
        (againstRival (some (rivalRow "other")) (enqueueGuarded .plain (.daemon 2) .daemonOnly "d"
          "x" "graphiti" none "agent_interaction" .enforce) Db.empty) ↔
      ¬ EnqueueArgs.Overtaken { content := "x", mode := .enforce } .plain (.at 2) Db.empty
        (some (rivalRow "other")) :=
  writer_parity_iff .plain (.at 2) (.daemon 2) { content := "x", mode := .enforce } .daemonOnly "d"
    none Db.empty (some (rivalRow "other")) (by decide) rfl
    ⟨rfl, by rintro r ⟨⟩; decide⟩ ⟨rfl, by rintro r ⟨⟩; decide⟩

/-- The same content: the MCP writer records its rejection, the daemon does not. -/
theorem not_writer_parity :
    ¬ Parity Db.empty (Env.at 2).uuid (Env.daemon 2).uuid
        (againstRival (some (rivalRow "x")) (enqueue .plain (.at 2)
          { content := "x", mode := .enforce }) Db.empty)
        (againstRival (some (rivalRow "x")) (enqueueGuarded .plain (.daemon 2) .daemonOnly "d"
          "x" "graphiti" none "agent_interaction" .enforce) Db.empty) := by
  intro hparity
  exact absurd hparity.ledger (by decide +kernel)

end JanusGraph
