import JanusGraph.Lib.Table

/-!
# The queue database

The tables of `pipeline/queue.py` and the statements that change them. A table
carries its primary key (`Table`); the partial unique index
`idx_episodes_canonical_hash_active` is checked by every statement that moves a
row (`Db.conflicts`), because a row can enter its scope by `INSERT` and by
`UPDATE` alike.

Three columns are kept as what they are read back to:

* a timestamp is the instant `_iso_now` wrote, in microseconds. `started_at`,
  the one timestamp that is parsed, may also hold text that does not parse;
* `payload_json` is the JSON value of its text, or a text that is not JSON.

The statements are three kinds of `Write` on `episodes` and three on the other tables.
`Write.exec` runs one of them against the whole database, with the constraint it violates
if it does: a row that comes in or changes is checked against all other rows, and no
statement leaves the table half changed. An `UPDATE` is given by
its `SET` list (`EpisodeUpdate.set`) and what its `WHERE` asks besides the id
(`EpisodeUpdate.admits`).

`Db.IndexOk` is what the index promises. Here it is only a statement about a database; that
the operations keep it is the subject of `IndexInvariant.lean`.
-/

namespace JanusGraph

/-- What `json.loads` returns. -/
inductive Json : Type where
  | null : Json
  | bool : Bool → Json
  | num : String → Json
  | str : String → Json
  /-- a text with a lone surrogate, as its code points: UTF-8 cannot encode it -/
  | surrogates : List ℕ → Json
  | arr : List Json → Json
  | obj : List (String × Json) → Json

/-- A `payload_json` text. -/
inductive PayloadJson : Type where
  /-- the text `json.dumps` writes for a value -/
  | json : Json → PayloadJson
  /-- a text `json.loads` rejects -/
  | text : String → PayloadJson

/-- The payload both writers store for an episode. -/
structure Payload : Type where
  content : String
  groupId : String
  name : String
  sourceDescription : String
  deriving DecidableEq

/-- `json.dumps(payload)` -/
def Payload.dumps (p : Payload) : PayloadJson :=
  .json (.obj [("content", .str p.content), ("group_id", .str p.groupId),
    ("name", .str p.name), ("source_description", .str p.sourceDescription)])

/-- The stored text determines the payload. -/
theorem Payload.dumps_injective : Function.Injective Payload.dumps := by
  rintro ⟨c, g, n, s⟩ ⟨c', g', n', s'⟩ h
  simp only [dumps, PayloadJson.json.injEq, Json.obj.injEq, List.cons.injEq, Prod.mk.injEq,
    Json.str.injEq, and_true, true_and] at h
  obtain ⟨rfl, rfl, rfl, rfl⟩ := h
  rfl

/-- Life-cycle status of an episode. `skippedDuplicate` is
`BACKSTOP_SKIPPED_STATUS`. -/
inductive Status : Type where
  | queued | processing | done | failed | aborted | skippedDuplicate
  deriving DecidableEq

/-- `ACTIVE_STATUSES`: the payload is in flight. -/
def activeStatuses : List Status := [.queued, .processing]

/-- The three dedup modes; also the values of `episodes.dedup_gate`. -/
inductive DedupMode : Type where
  | off | observe | enforce
  deriving DecidableEq

/-- The text of `started_at`. -/
inductive Stamp : Type where
  /-- written by `_iso_now` -/
  | iso : ℕ → Stamp
  /-- text `datetime.fromisoformat` rejects -/
  | unreadable : Stamp
  deriving DecidableEq

/-- The columns of `episodes` besides its key. -/
structure Episode : Type where
  status : Status
  payloadJson : PayloadJson
  enqueuedAt : ℕ
  startedAt : Option Stamp
  finishedAt : Option ℕ
  attemptCount : ℕ
  consecutiveFailures : ℕ
  lastError : Option String
  checkpoint : Option String
  createdAt : ℕ
  updatedAt : ℕ
  lastReplayAt : Option ℕ
  payloadHash : Option String
  claimedBy : Option String
  canonicalHash : Option String
  dedupGate : Option DedupMode

/-- The columns of `dead_letter` besides its key. -/
structure DeadLetter : Type where
  payloadJson : PayloadJson
  lastError : String
  attemptCount : ℕ
  failedAt : ℕ
  recoveredAt : Option ℕ
  recoveredAttempts : Option ℕ

/-- `recovered_at IS NULL` -/
def DeadLetter.isOpen (d : DeadLetter) : Bool := d.recoveredAt.isNone

/-- Which gate a ledger row was written by. -/
inductive EventMode : Type where
  | gate : DedupMode → EventMode
  | backstop : EventMode
  deriving DecidableEq

/-- What happened to the duplicate. -/
inductive EventAction : Type where
  | detected | rejected | backstopSkipped
  deriving DecidableEq

/-- A row of the `dedup_events` ledger. -/
structure DedupEvent : Type where
  detectedAt : ℕ
  mode : EventMode
  action : EventAction
  payloadHash : Option String
  existingEpisodeId : Option String
  duplicateEpisodeId : Option String
  writer : Option String
  deriving DecidableEq

/-- The queue database. -/
structure Db : Type where
  episodes : Table String Episode
  deadLetter : Table String DeadLetter
  /-- the ledger, oldest event first -/
  dedupEvents : List DedupEvent
  /-- whether `idx_episodes_canonical_hash_active` could be created -/
  uniqueIndex : Bool

/-- A fresh database after `_init_db_sync`. -/
def Db.empty : Db := ⟨Table.empty, Table.empty, [], true⟩

/-! ## The partial unique index -/

/-- The key a row has in the unique index, if the index covers it:
`canonical_hash IS NOT NULL AND dedup_gate = 'enforce' AND status IN ('queued',
'processing')`. -/
def Episode.indexKey (e : Episode) : Option String :=
  if e.dedupGate = some .enforce ∧ e.status ∈ activeStatuses then e.canonicalHash else none

/-- Whether the index rejects the columns `e` for row `id`: another row is there
under the same key. -/
def Db.conflicts (db : Db) (id : String) (e : Episode) : Bool :=
  db.uniqueIndex && e.indexKey.isSome &&
    db.episodes.rows.any fun p => p.1 ≠ id && p.2.indexKey = e.indexKey

/-- What the index guarantees: its keys are distinct. -/
def Db.IndexOk (db : Db) : Prop :=
  db.uniqueIndex = true → ∀ (id id' : String) (e e' : Episode) (key : String),
    db.episodes.get? id = some e → db.episodes.get? id' = some e' →
    e.indexKey = some key → e'.indexKey = some key → id = id'

/-! ## Statements -/

/-- `sqlite3.IntegrityError`: the primary key of `episodes`, or the unique
index. -/
inductive IntegrityError : Type where
  | primaryKey | uniqueIndex
  deriving DecidableEq

/-- The `extra_set` fragments `requeue_guarded` is called with. -/
inductive RequeueExtra : Type where
  /-- `consecutive_failures = 0` -/
  | resetFailures : RequeueExtra
  /-- `attempt_count = 0, last_error = NULL, last_replay_at = ?` -/
  | replay : RequeueExtra

/-- The `UPDATE episodes SET … WHERE id = ?` statements, one constructor for each
`SET` list. -/
inductive EpisodeUpdate : Type where
  /-- `mark_done` -/
  | done (now : ℕ)
  /-- `mark_failed` -/
  | failed (error : String) (now : ℕ)
  /-- `mark_aborted` and the abort branch of `reap_stuck_processing` -/
  | aborted (attempts : ℕ) (error : String) (now : ℕ)
  /-- `update_checkpoint` -/
  | checkpoint (text : String) (now : ℕ)
  /-- the requeue branch of `reap_stuck_processing` -/
  | requeueStuck (attempts now : ℕ)
  /-- the conflict branch of `reap_stuck_processing` -/
  | skipReaped (now : ℕ)
  /-- `requeue_guarded` -/
  | requeue (now : ℕ) (extra : RequeueExtra)
  /-- `replay_dlq_batch` -/
  | replayBatch (now : ℕ)
  /-- `mark_skipped_duplicate` -/
  | skipDuplicate (error : String) (now : ℕ)

namespace EpisodeUpdate

/-- The columns after the statement. -/
def set : EpisodeUpdate → Episode → Episode
  | .done now, e =>
    { e with status := .done, finishedAt := some now, updatedAt := now, consecutiveFailures := 0 }
  | .failed error now, e =>
    { e with
      status := .failed
      attemptCount := e.attemptCount + 1
      consecutiveFailures := e.consecutiveFailures + 1
      lastError := some error
      updatedAt := now }
  | .aborted attempts error now, e =>
    { e with
      status := .aborted, attemptCount := attempts, lastError := some error, updatedAt := now }
  | .checkpoint text now, e => { e with checkpoint := some text, updatedAt := now }
  | .requeueStuck attempts now, e =>
    { e with
      status := .queued
      attemptCount := attempts
      consecutiveFailures := 0
      enqueuedAt := now
      updatedAt := now }
  | .skipReaped now, e =>
    { e with
      status := .skippedDuplicate
      updatedAt := now
      lastError := some "reaped: canonical hash already held by an active row" }
  | .requeue now .resetFailures, e =>
    { e with status := .queued, enqueuedAt := now, updatedAt := now, consecutiveFailures := 0 }
  | .requeue now .replay, e =>
    { e with
      status := .queued
      enqueuedAt := now
      updatedAt := now
      attemptCount := 0
      lastError := none
      lastReplayAt := some now }
  | .replayBatch now, e =>
    { e with
      status := .queued
      attemptCount := 0
      lastError := none
      enqueuedAt := now
      updatedAt := now
      lastReplayAt := some now }
  | .skipDuplicate error now, e =>
    { e with
      status := .skippedDuplicate
      finishedAt := some now
      updatedAt := now
      lastError := some error
      consecutiveFailures := 0 }

/-- What the `WHERE` clause asks besides `id = ?`: only the batch replay adds
`AND status != 'done'`. -/
def admits : EpisodeUpdate → Episode → Bool
  | .replayBatch _, e => e.status ≠ .done
  | _, _ => true

end EpisodeUpdate

/-- The statements that change the queue database. -/
inductive Write : Type where
  /-- `INSERT INTO episodes` -/
  | insertEpisode (id : String) (e : Episode)
  /-- `UPDATE episodes SET … WHERE id = ?` -/
  | updateEpisode (id : String) (u : EpisodeUpdate)
  /-- the `UPDATE … WHERE id IN (…)` of `claim_next_batch` -/
  | claimEpisodes (ids : List String) (now : ℕ)
  /-- `INSERT OR REPLACE INTO dead_letter` -/
  | replaceDeadLetter (id : String) (d : DeadLetter)
  /-- `UPDATE dead_letter SET recovered_at = ?, recovered_attempts = ? WHERE
  episode_id = ?`, with `AND recovered_at IS NULL` in `mark_done` -/
  | recoverDeadLetter (id : String) (now attempts : ℕ) (openOnly : Bool)
  /-- `INSERT INTO dedup_events` -/
  | insertEvent (ev : DedupEvent)

/-- The columns of a row `claim_next_batch` claims. -/
def Episode.claim (now : ℕ) (e : Episode) : Episode :=
  { e with status := .processing, startedAt := some (.iso now), updatedAt := now }

/-- A dead letter marked as recovered. -/
def DeadLetter.recover (now attempts : ℕ) (d : DeadLetter) : DeadLetter :=
  { d with recoveredAt := some now, recoveredAttempts := some attempts }

/-- Rewrite the columns of row `id`, if the `WHERE` clause matches it. -/
def Db.update (db : Db) (id : String) (u : EpisodeUpdate) : Db :=
  { db with episodes := db.episodes.modify id fun e => if u.admits e then u.set e else e }

/-- The columns `u` would give row `id`, if its `WHERE` clause matches. -/
def Db.updated (db : Db) (id : String) (u : EpisodeUpdate) : Option Episode :=
  ((db.episodes.get? id).filter u.admits).map u.set

/-- Whether the index rejects the update `u` of row `id`. -/
def Db.rejects (db : Db) (id : String) (u : EpisodeUpdate) : Bool :=
  (db.updated id u).any (db.conflicts id)

/-- Rewrite the columns of the claimed episodes. -/
def Db.claim (db : Db) (ids : List String) (now : ℕ) : Db :=
  { db with episodes := db.episodes.map fun id e => if id ∈ ids then e.claim now else e }

/-- Whether the index rejects the claim of `ids`: one of the claimed rows conflicts
with another row, claimed or not. -/
def Db.rejectsClaim (db : Db) (ids : List String) (now : ℕ) : Bool :=
  ids.any fun id => ((db.claim ids now).episodes.get? id).any ((db.claim ids now).conflicts id)

/-- Mark the dead letter of an episode as recovered. -/
def Db.recover (db : Db) (id : String) (now attempts : ℕ) (openOnly : Bool) : Db :=
  { db with
    deadLetter := db.deadLetter.modify id fun d =>
      if openOnly && !d.isOpen then d else d.recover now attempts }

/-- Run one statement: the number of rows and the new database, or the
constraint it violates. -/
def Write.exec : Write → Db → Except IntegrityError (ℕ × Db)
  | .insertEpisode id e, db =>
    if (db.episodes.get? id).isSome then .error .primaryKey
    else if db.conflicts id e then .error .uniqueIndex
    else .ok (1, { db with episodes := db.episodes.put id e })
  | .updateEpisode id u, db =>
    if db.rejects id u then .error .uniqueIndex
    else .ok ((db.updated id u).elim 0 fun _ => 1, db.update id u)
  | .claimEpisodes ids now, db =>
    if db.rejectsClaim ids now then .error .uniqueIndex
    else .ok (ids.countP fun id => (db.episodes.get? id).isSome, db.claim ids now)
  | .replaceDeadLetter id d, db => .ok (1, { db with deadLetter := db.deadLetter.put id d })
  | .recoverDeadLetter id now attempts openOnly, db =>
    .ok (((db.deadLetter.get? id).filter fun d => !(openOnly && !d.isOpen)).elim 0 fun _ => 1,
      db.recover id now attempts openOnly)
  | .insertEvent ev, db => .ok (1, { db with dedupEvents := db.dedupEvents ++ [ev] })

/-! ## What the index accepts -/

/-- Columns outside the scope of the index never conflict. -/
theorem Db.conflicts_of_indexKey_none {db : Db} {id : String} {e : Episode}
    (h : e.indexKey = none) : db.conflicts id e = false := by
  simp [Db.conflicts, h]

/-- A conflict names the row that holds the key. -/
theorem Db.conflicts_eq_true_iff {db : Db} {id : String} {e : Episode} :
    db.conflicts id e = true ↔ db.uniqueIndex = true ∧ ∃ id' e' key,
      db.episodes.get? id' = some e' ∧ id' ≠ id ∧ e.indexKey = some key ∧
        e'.indexKey = some key := by
  rw [conflicts]
  rcases hkey : e.indexKey with _ | key
  · simp
  · simp only [Option.isSome_some, Bool.and_true, Bool.and_eq_true, List.any_eq_true, ne_eq,
      decide_eq_true_eq, Option.some.injEq, Prod.exists, Table.mem_rows]
    grind

theorem Episode.indexKey_of_inactive {e : Episode} (h : e.status ∉ activeStatuses) :
    e.indexKey = none := by
  rw [Episode.indexKey, if_neg]
  exact fun hc => h hc.2

theorem Episode.indexKey_of_gate {e : Episode} (h : e.dedupGate ≠ some .enforce) :
    e.indexKey = none := by
  rw [Episode.indexKey, if_neg]
  exact fun hc => h hc.1

/-- An update that leaves the active statuses is never rejected. -/
theorem Db.rejects_of_inactive {db : Db} {id : String} {u : EpisodeUpdate}
    (h : ∀ e, (u.set e).status ∉ activeStatuses) : db.rejects id u = false := by
  rw [Db.rejects, Db.updated]
  rcases (db.episodes.get? id).filter u.admits with _ | e
  · rfl
  · exact conflicts_of_indexKey_none (Episode.indexKey_of_inactive (h e))

end JanusGraph
