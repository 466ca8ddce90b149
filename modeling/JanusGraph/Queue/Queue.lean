import JanusGraph.Lib.Sqlite
import JanusGraph.Queue.Policy
import Mathlib.Algebra.GroupWithZero.Nat
import Mathlib.Algebra.Ring.Int.Defs

/-!
# The queue operations

`EpisodeQueue` of `pipeline/queue.py`, `core/dedup.py` and the writer of
`daemon/episode_queue_adapter.py`, statement by statement. Every operation opens
its own connection and works inside `with conn:`; what SQLite makes of the
statements is `Write.exec` under the transaction rules of `Script`.

What an operation reads besides the database is its `Env`: the clock, a fresh
uuid, its process id, and the order in which SQLite returns rows that its
`ORDER BY` does not separate. SHA-256 is a parameter.

* **Enqueue.** Both writers look for a duplicate on one connection and insert on another,
  and the ledger is written on a third; nothing holds the three together. What the index
  rejects is read in the transaction of the rejected `INSERT`.
* **Claim.** One read and one update, by ids. The update does not ask for the status.
* **Outcomes** are keyed by the id alone. Only `mark_aborted` reads the row before.
* **Reapers and replays** select their rows first and then go through them. A requeue is
  sent inside a savepoint (`Script.guarded`), so that the index can refuse one row
  and let the others through.

`Op` lists the operations with their arguments and `Step` is one of them in its
environment. `Step.exec` runs a step alone; processes that overlap run the same scripts
block by block (`Processes.lean`).
-/

namespace JanusGraph

/-- What an operation reads from its process. -/
structure Env : Type where
  /-- `_iso_now()`, taken when the operation starts -/
  now : ℕ
  /-- `datetime.now` when a processing row is looked at -/
  clock : String → ℕ
  /-- `detected_at` of the ledger row -/
  detectedAt : ℕ
  /-- the order of rows that are tied -/
  rank : String → ℕ
  /-- `str(uuid.uuid4())` -/
  uuid : String
  uuid_ne : uuid ≠ ""
  /-- `str(os.getpid())` -/
  pid : String

/-- `hashlib.sha256` on the UTF-8 of a text. -/
structure Sha256 : Type where
  hexdigest : String → String
  hexdigest_ne : ∀ text, hexdigest text ≠ ""

/-- `canonical_payload_hash` -/
def canonicalPayloadHash (sha : Sha256) (content groupId sourceDescription : String) : String :=
  sha.hexdigest (content ++ "|" ++ groupId ++ "|" ++ sourceDescription)

/-- The exceptions of the operations. -/
inductive QueueError : Type where
  /-- `sqlite3.IntegrityError` -/
  | integrity (e : IntegrityError)
  /-- `DuplicateEpisodeError` -/
  | duplicateEpisode (existing : Option String) (payloadHash : String)
  /-- `DuplicateRaceError` -/
  | duplicateRace (existing : Option String) (payloadHash : String)
  /-- `EpisodeDuplicateError` of the daemon adapter -/
  | episodeDuplicate (existing : String)
  /-- `LockModeError` of the daemon adapter -/
  | lockMode
  deriving DecidableEq

/-- A script over the queue database. -/
abbrev Sql (α : Type) : Type := Script Db Write IntegrityError QueueError α

/-- `conn.execute` of a data-changing statement. -/
def execute (w : Write) : Sql ℕ := Script.write QueueError.integrity w

/-- `value or default`, for texts. -/
def pyOr (value : Option String) (fallback : String) : String :=
  match value with
  | some s => if s = "" then fallback else s
  | none => fallback

/-- `f"ep_{ep_id[:8]}"` -/
def defaultName (id : String) : String := "ep_" ++ String.ofList (id.toList.take 8)

/-! ## Lookups -/

/-- A row holds this digest: in its canonical column, or in the legacy one if it
has no canonical hash. -/
def Episode.holds (payloadHash : String) (e : Episode) : Bool :=
  match e.canonicalHash with
  | some h => h == payloadHash
  | none => e.payloadHash == some payloadHash

/-- `SELECT id … WHERE … ORDER BY created_at DESC LIMIT 1` -/
def Db.newest (db : Db) (rank : String → ℕ) (p : Episode → Bool) : Option String :=
  ((Table.orderBy (fun r => r.2.createdAt) rank
    (db.episodes.rows.filter fun r => p r.2)).map Prod.fst).getLast?

/-- `find_active_duplicate` -/
def findActiveDuplicate (env : Env) (payloadHash : String) : Sql (Option String) := do
  if payloadHash = "" then return none
  let db ← Script.select
  return db.newest env.rank fun e => e.holds payloadHash && decide (e.status ∈ activeStatuses)

/-- `find_any_duplicate` -/
def findAnyDuplicate (env : Env) (payloadHash : String) : Sql (Option String) := do
  if payloadHash = "" then return none
  let db ← Script.select
  return db.newest env.rank fun e => e.holds payloadHash

/-! ## Enqueue -/

/-- `record_dedup_event` on its own connection; both callers swallow its
exceptions. -/
def recordDedupEvent (ev : DedupEvent) : Sql Unit :=
  Script.withConn do
    match ← Script.tryWrite (.insertEvent ev) with
    | .ok _ => Script.commit
    | .error _ => return

/-- `EpisodeQueue._record_dedup_event_sync` -/
def recordDedupEventSync (env : Env) (mode : DedupMode) (action : EventAction)
    (payloadHash existing duplicate : Option String) : Sql Unit :=
  recordDedupEvent
    { detectedAt := env.detectedAt
      mode := .gate mode
      action
      payloadHash
      existingEpisodeId := existing
      duplicateEpisodeId := duplicate
      writer := some ("mcp:" ++ env.pid) }

/-- The columns of a row both writers insert. -/
def newEpisode (payloadJson : PayloadJson) (now : ℕ) (payloadHash claimedBy canonicalHash :
    Option String) (gate : DedupMode) : Episode where
  status := .queued
  payloadJson
  enqueuedAt := now
  startedAt := none
  finishedAt := none
  attemptCount := 0
  consecutiveFailures := 0
  lastError := none
  checkpoint := none
  createdAt := now
  updatedAt := now
  lastReplayAt := none
  payloadHash
  claimedBy
  canonicalHash
  dedupGate := some gate

/-- `EpisodeQueue._insert_sync` -/
def insertSync (env : Env) (id : String) (payloadJson : PayloadJson) (now : ℕ)
    (payloadHash : Option String) (gate : DedupMode) (canonicalHash : Option String) :
    Sql Unit :=
  Script.withConn do
    match payloadHash with
    | none => do
      let _ ← execute (.insertEpisode id (newEpisode payloadJson now none none canonicalHash gate))
    | some hash => do
      let columns := newEpisode payloadJson now (some hash) (some ("mcp:" ++ env.pid))
        (canonicalHash.orElse fun _ => some hash) gate
      match ← Script.tryWrite (.insertEpisode id columns) with
      | .ok _ => pure ()
      | .error _ => do
        match ← findActiveDuplicate env hash with
        | some existing => Prog.fail (.duplicateRace (some existing) hash)
        | none => do
          let existing ← findAnyDuplicate env hash
          Prog.fail (.duplicateRace existing hash)
    Script.commit

/-- The arguments of `EpisodeQueue.enqueue`; the mode is the one
`_resolve_dedup_mode` returned. -/
structure EnqueueArgs : Type where
  content : String
  groupId : String := "graphiti"
  name : Option String := none
  sourceDescription : String := "agent_interaction"
  episodeId : Option String := none
  mode : DedupMode

namespace EnqueueArgs

/-- `ep_id` -/
def epId (args : EnqueueArgs) (env : Env) : String := pyOr args.episodeId env.uuid

/-- `payload` -/
def payload (args : EnqueueArgs) (env : Env) : Payload where
  content := args.content
  groupId := args.groupId
  name := pyOr args.name (defaultName (args.epId env))
  sourceDescription := args.sourceDescription

/-- `canonical_hash` -/
def canonicalHash (args : EnqueueArgs) (sha : Sha256) : String :=
  canonicalPayloadHash sha args.content args.groupId args.sourceDescription

end EnqueueArgs

/-- `EpisodeQueue.enqueue`. The check, the insert and the ledger row are three connections.
In `enforce` mode a duplicate is rejected by the check or by the index, in `observe` mode it
is recorded and inserted all the same, and an id that is taken is returned as if it were new.
-/
def enqueue (sha : Sha256) (env : Env) (args : EnqueueArgs) : Sql String :=
  let epId := args.epId env
  let payloadJson := (args.payload env).dumps
  let canonicalHash := args.canonicalHash sha
  if args.mode = .off then do
    insertSync env epId payloadJson env.now none .off (some canonicalHash)
    return epId
  else do
    let duplicateOf ← Script.withConn (findActiveDuplicate env canonicalHash)
    if args.mode = .enforce ∧ duplicateOf.isSome then
      recordDedupEventSync env args.mode .rejected (some canonicalHash) duplicateOf (some epId)
      Prog.fail (.duplicateEpisode duplicateOf canonicalHash)
    else
      match ← (insertSync env epId payloadJson env.now (some canonicalHash) args.mode
          (some canonicalHash)).attempt with
      | .ok () =>
        -- observe mode: the duplicate is recorded, and the row is enqueued
        if duplicateOf.isSome then
          recordDedupEventSync env args.mode .detected (some canonicalHash) duplicateOf (some epId)
          return epId
        else
          return epId
      | .error (.duplicateRace existing _) =>
        if args.mode = .enforce then
          recordDedupEventSync env args.mode .rejected (some canonicalHash) existing (some epId)
          Prog.fail (.duplicateEpisode existing canonicalHash)
        else
          -- the row was not inserted, and its id is returned all the same
          recordDedupEventSync env args.mode .detected (some canonicalHash) existing (some epId)
          return epId
      | .error e => Prog.fail e

/-- `DaemonLockSettings.mode` -/
inductive LockMode : Type where
  | mcpOnly | daemonOnly | dualWithLock
  deriving DecidableEq

/-- `EpisodeQueueAdapter._record_dedup_event_sync` -/
def adapterRecordDedupEvent (env : Env) (mode : DedupMode) (action : EventAction)
    (payloadHash existing : String) : Sql Unit :=
  recordDedupEvent
    { detectedAt := env.detectedAt
      mode := .gate mode
      action
      payloadHash := some payloadHash
      existingEpisodeId := some existing
      duplicateEpisodeId := none
      writer := some ("daemon:" ++ env.pid) }

/-- `EpisodeQueueAdapter._insert_with_hash_sync` -/
def insertWithHashSync (env : Env) (content groupId : String) (name : Option String)
    (sourceDescription payloadHash : String) (claimedBy : Option String) (mode : DedupMode) :
    Sql String :=
  let epId := env.uuid
  let payload : Payload :=
    { content, groupId, name := pyOr name (defaultName epId), sourceDescription }
  let legacyHash := if mode = .off then none else some payloadHash
  Script.withConn do
    match ← Script.tryWrite (.insertEpisode epId
        (newEpisode payload.dumps env.now legacyHash claimedBy (some payloadHash) mode)) with
    | .ok _ => do
      Script.commit
      return epId
    | .error e => do
      match ← findActiveDuplicate env payloadHash with
      | some existing =>
        if existing = "" then Prog.fail (.integrity e)
        else Prog.fail (.episodeDuplicate existing)
      | none => Prog.fail (.integrity e)

/-- `EpisodeQueueAdapter.enqueue_guarded`. It records what its check finds before it inserts,
and what the index finds it only raises. -/
def enqueueGuarded (sha : Sha256) (env : Env) (lockMode : LockMode) (instanceId content
    groupId : String) (name : Option String) (sourceDescription : String) (mode : DedupMode) :
    Sql String := do
  if lockMode = .mcpOnly then
    Prog.fail .lockMode
  else
    let payloadHash := canonicalPayloadHash sha content groupId sourceDescription
    if mode = .off then
      insertWithHashSync env content groupId name sourceDescription payloadHash
        (some instanceId) mode
    else
      match ← Script.withConn (findActiveDuplicate env payloadHash) with
      | some existing =>
        if mode = .enforce then
          adapterRecordDedupEvent env mode .rejected payloadHash existing
          Prog.fail (.episodeDuplicate existing)
        else
          adapterRecordDedupEvent env mode .detected payloadHash existing
          insertWithHashSync env content groupId name sourceDescription payloadHash
            (some instanceId) mode
      | none =>
        insertWithHashSync env content groupId name sourceDescription payloadHash
          (some instanceId) mode

/-! ## Claim -/

/-- A claimed episode, as `claim_next_batch` returns it. -/
structure EpisodeRecord : Type where
  id : String
  payload : Json
  status : Status
  enqueuedAt : ℕ
  startedAt : ℕ
  finishedAt : Option ℕ
  attemptCount : ℕ
  consecutiveFailures : ℕ
  lastError : Option String
  checkpoint : Option String
  createdAt : Option Stamp := none
  updatedAt : Option Stamp := none

/-- `json.loads`, with the fallback of `claim_next_batch`. -/
def PayloadJson.loads : PayloadJson → Json
  | .json j => j
  | .text _ => .obj [("content", .str "")]

/-- The record of a selected row; the `SELECT` has neither `created_at` nor
`updated_at`. -/
def claimRecord (now : ℕ) (row : String × Episode) : EpisodeRecord where
  id := row.1
  payload := row.2.payloadJson.loads
  status := .processing
  enqueuedAt := row.2.enqueuedAt
  startedAt := now
  finishedAt := row.2.finishedAt
  attemptCount := row.2.attemptCount
  consecutiveFailures := row.2.consecutiveFailures
  lastError := row.2.lastError
  checkpoint := row.2.checkpoint

/-- `limit if (limit is not None and limit > 0) else 20` -/
def claimLimit (limit : Option ℤ) : ℤ := (limit.filter fun n => 0 < n).getD 20

/-- The head of the queue: `WHERE status = 'queued' ORDER BY enqueued_at ASC
LIMIT ?`. -/
def Db.queueHead (db : Db) (rank : String → ℕ) (limit : Option ℤ) : List (String × Episode) :=
  sqlLimit (claimLimit limit) <| Table.orderBy (fun r => r.2.enqueuedAt) rank <|
    db.episodes.rows.filter fun r => r.2.status == .queued

/-- `EpisodeQueue.claim_next_batch`. The `UPDATE` is by the ids that the `SELECT` has found,
without a condition on the status. -/
def claimNextBatch (env : Env) (limit : Option ℤ) : Sql (List EpisodeRecord) :=
  Script.withConn do
    let db ← Script.select
    let rows := db.queueHead env.rank limit
    if rows.isEmpty then
      return []
    else
      let _ ← execute (.claimEpisodes (rows.map Prod.fst) env.now)
      Script.commit
      return rows.map (claimRecord env.now)

/-! ## Outcomes -/

/-- `EpisodeQueue.mark_done` -/
def markDone (env : Env) (id : String) : Sql Unit :=
  Script.withConn do
    let _ ← execute (.updateEpisode id (.done env.now))
    let db ← Script.select
    match (db.deadLetter.get? id).filter DeadLetter.isOpen with
    | some d => do
      let _ ← execute (.recoverDeadLetter id env.now d.attemptCount true)
    | none => pure ()
    Script.commit

/-- `EpisodeQueue.mark_failed`. It counts an attempt in the row, whatever the row says. -/
def markFailed (env : Env) (id error : String) : Sql Unit :=
  Script.withConn do
    let _ ← execute (.updateEpisode id (.failed error env.now))
    Script.commit

/-- The dead letter `INSERT OR REPLACE` writes. -/
def newDeadLetter (payloadJson : PayloadJson) (error : String) (attempts now : ℕ) :
    DeadLetter where
  payloadJson
  lastError := error
  attemptCount := attempts
  failedAt := now
  recoveredAt := none
  recoveredAttempts := none

/-- `EpisodeQueue.mark_aborted` -/
def markAborted (env : Env) (id error : String) : Sql Unit :=
  Script.withConn do
    let db ← Script.select
    let row := db.episodes.get? id
    let payloadJson := (row.map Episode.payloadJson).getD (.json (.obj []))
    let attempts := (row.map Episode.attemptCount).getD 0 + 1
    let _ ← execute (.updateEpisode id (.aborted attempts error env.now))
    let _ ← execute (.replaceDeadLetter id (newDeadLetter payloadJson error attempts env.now))
    Script.commit

/-- `EpisodeQueue.update_checkpoint` -/
def updateCheckpoint (env : Env) (id text : String) : Sql Unit :=
  Script.withConn do
    let _ ← execute (.updateEpisode id (.checkpoint text env.now))
    Script.commit

/-- `EpisodeQueue.mark_skipped_duplicate` -/
def markSkippedDuplicate (env : Env) (id : String) (existing payloadHash : Option String) :
    Sql Unit := do
  Script.withConn do
    let _ ← execute (.updateEpisode id (.skipDuplicate
      ("skipped: payload already ingested as " ++ pyOr existing "unknown") env.now))
    Script.commit
  if pyOr existing "" ≠ "" ∨ pyOr payloadHash "" ≠ "" then
    recordDedupEvent
      { detectedAt := env.detectedAt
        mode := .backstop
        action := .backstopSkipped
        payloadHash
        existingEpisodeId := existing
        duplicateEpisodeId := some id
        writer := some ("worker:" ++ env.pid) }

/-! ## Reapers -/

/-- `last_error` of an episode the reaper aborts. -/
def timeoutError : String := "Processing timeout exceeded"

/-- Whether a processing row is stuck: its claim is `timeout_sec` old, or its
`started_at` does not parse. A row without `started_at` is left alone. -/
def Episode.stuck (clock : ℕ) (timeoutSec : ℤ) (e : Episode) : Bool :=
  match e.startedAt with
  | none => false
  | some (.iso t) => decide (timeoutSec * 1000000 ≤ (clock : ℤ) - t)
  | some .unreadable => true

/-- The stuck rows, in the order SQLite returns them. -/
def Db.stuckRows (db : Db) (env : Env) (timeoutSec : ℤ) : List (String × Episode) :=
  (Table.orderBy (fun _ => 0) env.rank db.episodes.rows).filter fun r =>
    r.2.status == .processing && r.2.stuck (env.clock r.1) timeoutSec

/-- One turn of the loop of `reap_stuck_processing`. -/
def reapStuckRow (now : ℕ) (maxAttempts : ℤ) (row : String × Episode) : Sql Unit := do
  let attempts := row.2.attemptCount + 1
  if maxAttempts ≤ attempts then
    let _ ← execute (.updateEpisode row.1 (.aborted attempts timeoutError now))
    let _ ← execute (.replaceDeadLetter row.1
      (newDeadLetter row.2.payloadJson timeoutError attempts now))
  else
    match ← Script.guarded (.updateEpisode row.1 (.requeueStuck attempts now)) with
    | .ok _ => return
    | .error _ =>
      let _ ← execute (.updateEpisode row.1 (.skipReaped now))

/-- `EpisodeQueue.reap_stuck_processing`. The loop runs in one transaction as soon as a row
is aborted; requeues are sent in savepoints inside it. -/
def reapStuckProcessing (env : Env) (timeoutSec maxAttempts : ℤ) : Sql ℕ :=
  Script.withConn do
    let db ← Script.select
    let rows := db.stuckRows env timeoutSec
    let turns ← Prog.forEach (reapStuckRow env.now maxAttempts) rows
    Script.commit
    return turns.length

/-- One turn of the loop of `requeue_guarded`: the id, if it was requeued. -/
def requeueRow (now : ℕ) (extra : RequeueExtra) (id : String) : Sql (Option String) := do
  match ← Script.guarded (.updateEpisode id (.requeue now extra)) with
  | .ok _ => return some id
  | .error _ => return none

/-- `requeue_guarded` of `core/dedup.py`; the update succeeds when no row matches,
too. -/
def requeueGuarded (now : ℕ) (extra : RequeueExtra) (ids : List String) : Sql (List String) := do
  let turns ← Prog.forEach (requeueRow now extra) ids
  return turns.reduceOption

/-- The pick-set of `reap_failed_or_aborted`. -/
def Db.reapable (db : Db) (rank : String → ℕ) (policy : RetryPolicy) (limit : ℤ) :
    List (String × Episode) :=
  sqlLimit limit <| Table.orderBy (fun r => r.2.updatedAt) rank <|
    db.episodes.rows.filter fun r => reapEligible policy r.2 (db.deadLetter.get? r.1)

/-- `EpisodeQueue.reap_failed_or_aborted`. It counts the rows that the index has let through.
-/
def reapFailedOrAborted (env : Env) (limit : Option ℤ) (policy : Option RetryPolicy) : Sql ℕ :=
  let effPolicy := policy.getD {}
  let effLimit := limit.getD effPolicy.reapLimit
  if effLimit ≤ 0 then
    return 0
  else
    Script.withConn do
      let db ← Script.select
      let ids := (db.reapable env.rank effPolicy effLimit).map Prod.fst
      if ids.isEmpty then
        return 0
      else
        let requeued ← requeueGuarded env.now .resetFailures ids
        Script.commit
        return requeued.length

/-! ## Dead-letter replay -/

/-- `SELECT 1 FROM dead_letter WHERE episode_id = ? AND …` finds a row. -/
def Db.replayAdmitted (db : Db) (id : String) (policy : RetryPolicy) : Bool :=
  (db.deadLetter.get? id).any fun d => policyWhereClause policy (some d.lastError)

/-- The policy check of `replay_dlq_episode`: a second look at the dead letter, if
the policy has clauses at all. -/
def replayAdmitted (id : String) (policy : RetryPolicy) : Sql Bool :=
  if policy.codes.isEmpty then
    return true
  else do
    let db ← Script.select
    return db.replayAdmitted id policy

/-- `EpisodeQueue.replay_dlq_episode`. It looks at the dead letter and at the policy, not at
the episode: neither its status nor `recovered_at` is asked for. -/
def replayDlqEpisode (env : Env) (id : String) (policy : Option RetryPolicy) : Sql Bool :=
  let effPolicy := policy.getD {}
  Script.withConn do
    let db ← Script.select
    match db.deadLetter.get? id with
    | none => return false
    | some d => do
      let admitted ← replayAdmitted id effPolicy
      if !admitted then
        return false
      else
        let requeued ← requeueGuarded env.now .replay [id]
        if requeued.isEmpty then
          Script.rollback
          return false
        else
          let _ ← execute (.recoverDeadLetter id env.now d.attemptCount false)
          Script.commit
          return true

/-- The pick-set of `replay_dlq_batch`. -/
def Db.replayable (db : Db) (env : Env) (policy : RetryPolicy) (classes : List String)
    (minAgeSec limit : ℤ) : List (String × DeadLetter) :=
  sqlLimit limit <| Table.orderBy (fun r => r.2.failedAt) env.rank <|
    db.deadLetter.rows.filter fun r => replayEligible policy classes minAgeSec env.now r.2

/-- One turn of the loop of `replay_dlq_batch`: how many episodes it replayed. -/
def replayRow (now : ℕ) (row : String × DeadLetter) : Sql ℕ := do
  match ← Script.guarded (.updateEpisode row.1 (.replayBatch now)) with
  | .error _ => return 0
  | .ok rowcount =>
    if rowcount = 0 then
      let _ ← execute (.recoverDeadLetter row.1 now row.2.attemptCount false)
      return 0
    else
      let _ ← execute (.recoverDeadLetter row.1 now row.2.attemptCount false)
      return 1

/-- `EpisodeQueue.replay_dlq_batch`. It counts the episodes it has requeued, not the dead
letters it has closed. -/
def replayDlqBatch (env : Env) (limit : ℤ) (classes : List String) (minAgeSec : ℤ)
    (policy : Option RetryPolicy) : Sql ℕ :=
  Script.withConn do
    let db ← Script.select
    let rows := db.replayable env (policy.getD {}) classes minAgeSec limit
    if rows.isEmpty then
      return 0
    else
      let replayed ← Prog.forEach (replayRow env.now) rows
      Script.commit
      return replayed.sum

/-! ## Operations -/

/-- The operations of the queue, with their arguments. -/
inductive Op : Type where
  | enqueue (args : EnqueueArgs)
  | enqueueGuarded (lockMode : LockMode) (instanceId content groupId : String)
      (name : Option String) (sourceDescription : String) (mode : DedupMode)
  | claimNextBatch (limit : Option ℤ)
  | markDone (id : String)
  | markFailed (id error : String)
  | markAborted (id error : String)
  | markSkippedDuplicate (id : String) (existing payloadHash : Option String)
  | updateCheckpoint (id text : String)
  | reapStuckProcessing (timeoutSec maxAttempts : ℤ)
  | reapFailedOrAborted (limit : Option ℤ) (policy : Option RetryPolicy)
  | replayDlqEpisode (id : String) (policy : Option RetryPolicy)
  | replayDlqBatch (limit : ℤ) (classes : List String) (minAgeSec : ℤ)
      (policy : Option RetryPolicy)

/-- What an operation returns. -/
inductive OpResult : Type where
  | id (id : String)
  | records (records : List EpisodeRecord)
  | unit
  | count (n : ℕ)
  | bool (b : Bool)

/-- The script of an operation. -/
def Op.script (sha : Sha256) (env : Env) : Op → Sql OpResult
  | .enqueue args => .id <$> JanusGraph.enqueue sha env args
  | .enqueueGuarded lockMode instanceId content groupId name sourceDescription mode =>
    .id <$> JanusGraph.enqueueGuarded sha env lockMode instanceId content groupId name
      sourceDescription mode
  | .claimNextBatch limit => .records <$> JanusGraph.claimNextBatch env limit
  | .markDone id => (fun _ => .unit) <$> JanusGraph.markDone env id
  | .markFailed id error => (fun _ => .unit) <$> JanusGraph.markFailed env id error
  | .markAborted id error => (fun _ => .unit) <$> JanusGraph.markAborted env id error
  | .markSkippedDuplicate id existing payloadHash =>
    (fun _ => .unit) <$> JanusGraph.markSkippedDuplicate env id existing payloadHash
  | .updateCheckpoint id text => (fun _ => .unit) <$> JanusGraph.updateCheckpoint env id text
  | .reapStuckProcessing timeoutSec maxAttempts =>
    .count <$> JanusGraph.reapStuckProcessing env timeoutSec maxAttempts
  | .reapFailedOrAborted limit policy =>
    .count <$> JanusGraph.reapFailedOrAborted env limit policy
  | .replayDlqEpisode id policy => .bool <$> JanusGraph.replayDlqEpisode env id policy
  | .replayDlqBatch limit classes minAgeSec policy =>
    .count <$> JanusGraph.replayDlqBatch env limit classes minAgeSec policy

/-- An operation started in an environment. -/
structure Step : Type where
  env : Env
  op : Op

/-- The script of a step. -/
def Step.script (sha : Sha256) (st : Step) : Sql OpResult := st.op.script sha st.env

/-- The database after a step that runs alone. -/
def Step.exec (sha : Sha256) (db : Db) (st : Step) : Db := (st.script sha).exec Write.exec db

/-- What the step returns or raises then. -/
def Step.result (sha : Sha256) (db : Db) (st : Step) : Except QueueError OpResult :=
  (st.script sha).result Write.exec db

/-- The database after a serial run. -/
def runSteps (sha : Sha256) (db : Db) (steps : List Step) : Db := steps.foldl (Step.exec sha) db

/-! ## A concrete process

Runs on fixed inputs use this environment and this digest. -/

/-- A process in which everything happens at one instant. -/
def Env.at (now : ℕ) : Env where
  now
  clock := fun _ => now
  detectedAt := now
  rank := fun _ => 0
  uuid := "00000000-0000-4000-8000-000000000000"
  uuid_ne := by decide
  pid := "1"

/-- A digest that tells all texts apart. -/
def Sha256.plain : Sha256 where
  hexdigest := fun text => "#" ++ text
  hexdigest_ne := by
    intro text h
    have hlist : ("#" ++ text).toList = [] := by rw [h]; rfl
    simp at hlist

end JanusGraph
