import JanusGraph.Lib.Blocks
import JanusGraph.Queue.Enqueue
import JanusGraph.Queue.IndexDiscipline

/-!
# What the operations add

No operation deletes a row of `episodes` or of the ledger, and none rewrites what an
episode was inserted with (`Origin`). So a statement adds to the two tables or leaves
them (`inserted`, `recorded`), and only the two writers and the backstop send
statements that add: `EnqueueSends`, `GuardedSends` and `runs_skipSends` say which,
with the databases they meet, what they had looked up before (`LookedUp`), and what is
returned.

* **One statement.** `Db.origins_apply` and `Db.dedupEvents_apply`: the two tables
  after it are those before it, with its additions at the end. Over a history this
  becomes a sum, whoever has sent the statements.
* **One writer.** A constructor of `EnqueueSends` is one way through `enqueue`: which mode,
  what the lookup had found, what became of the `INSERT`, and the ledger row that goes
  with it, written out with the ids and the hash of the call. `GuardedSends` does the
  same for the adapter.
* **All other operations** send statements of `Write.Quiet`, which add nothing in
  whichever database (`sends_quiet`). It takes no knowledge of when they are sent.

The lookup of a writer and its `INSERT` are two transactions, and others may come in
between; hence `LookedUp` speaks of the database the first of them began in, and the
outcome of the `INSERT` of another one.
-/

namespace JanusGraph

open Script

/-! ## What is there for good -/

/-- The columns of an episode that no operation rewrites. -/
structure Origin : Type where
  payloadJson : PayloadJson
  createdAt : ℕ
  payloadHash : Option String
  claimedBy : Option String
  canonicalHash : Option String
  dedupGate : Option DedupMode

/-- Where an episode comes from. -/
def Episode.origin (e : Episode) : Origin where
  payloadJson := e.payloadJson
  createdAt := e.createdAt
  payloadHash := e.payloadHash
  claimedBy := e.claimedBy
  canonicalHash := e.canonicalHash
  dedupGate := e.dedupGate

@[simp] theorem Episode.origin_claim (e : Episode) (now : ℕ) : (e.claim now).origin = e.origin :=
  rfl

@[simp] theorem EpisodeUpdate.origin_set (u : EpisodeUpdate) (e : Episode) :
    (u.set e).origin = e.origin := by
  cases u with
  | requeue now extra => cases extra <;> rfl
  | _ => rfl

/-- The episodes with their origins, oldest first. -/
def Db.origins (db : Db) : List (String × Origin) :=
  db.episodes.rows.map fun row => (row.1, row.2.origin)

/-- The origins are listed under the ids of the episodes. -/
theorem Db.origins_keys (db : Db) : db.origins.map Prod.fst = db.episodes.keys := by
  rw [origins, List.map_map]
  rfl

/-- Rewriting columns that are not of the origin leaves the origins. -/
theorem Db.origins_map {db db' : Db} {f : String → Episode → Episode}
    (h : db'.episodes = db.episodes.map f) (hf : ∀ id e, (f id e).origin = e.origin) :
    db'.origins = db.origins := by
  rw [origins, h, Table.map, List.map_map]
  exact List.map_congr_left fun row _ => congrArg (Prod.mk row.1) (hf row.1 row.2)

/-- No update rewrites an origin, whatever it does to status, attempts and times. -/
theorem Db.origins_update (db : Db) (id : String) (u : EpisodeUpdate) :
    (db.update id u).origins = db.origins := by
  refine origins_map (f := fun k e => if k = id then if u.admits e then u.set e else e else e) rfl
    fun k e => ?_
  split
  · split
    · exact u.origin_set e
    · rfl
  · rfl

/-- Nor does a claim. It leaves `claimed_by` as the writer has set it. -/
theorem Db.origins_claim (db : Db) (ids : List String) (now : ℕ) :
    (db.claim ids now).origins = db.origins := by
  refine origins_map (f := fun id e => if id ∈ ids then e.claim now else e) rfl fun id e => ?_
  split <;> rfl

/-! ## What statements add -/

/-- The row that a statement inserts in a database. -/
def inserted (x : Db × Write) : List (String × Origin) :=
  match x.2 with
  | .insertEpisode id e =>
    match Write.exec (.insertEpisode id e) x.1 with
    | .ok _ => [(id, e.origin)]
    | .error _ => []
  | _ => []

/-- The ledger row that a statement inserts. -/
def recorded (x : Db × Write) : List DedupEvent :=
  match x.2 with
  | .insertEvent ev => [ev]
  | _ => []

/-- An accepted `INSERT` adds its row. -/
theorem inserted_of_ok {db : Db} {id : String} {e : Episode} {a : ℕ × Db}
    (h : Write.exec (.insertEpisode id e) db = .ok a) :
    inserted (db, .insertEpisode id e) = [(id, e.origin)] := by
  simp only [inserted, h]

/-- A rejected one adds nothing. -/
theorem inserted_of_error {db : Db} {id : String} {e : Episode} {err : IntegrityError}
    (h : Write.exec (.insertEpisode id e) db = .error err) :
    inserted (db, .insertEpisode id e) = [] := by
  simp only [inserted, h]

@[simp] theorem inserted_insertEvent (db : Db) (ev : DedupEvent) :
    inserted (db, .insertEvent ev) = [] := rfl

/-- **One statement, the episodes.** They are what they were, followed by the row that the
statement inserts. Only an accepted `INSERT` inserts one; the other statements rewrite
columns that are not of the origin, or another table. -/
theorem Db.origins_apply (db : Db) (w : Write) :
    (db.apply w).origins = db.origins ++ inserted (db, w) := by
  cases w with
  | insertEpisode id e =>
    rcases h : Write.exec (.insertEpisode id e) db with err | ⟨n, db'⟩
    · rw [inserted_of_error h, List.append_nil, Db.apply, applied_error h]
    · rw [inserted_of_ok h, Db.apply, applied_ok h]
      obtain ⟨hnone, rfl⟩ := Db.insertEpisode_ok h
      rw [origins, Table.rows_put hnone, List.map_append]
      rfl
  | updateEpisode id u =>
    rw [inserted, List.append_nil, Db.apply_update]
    split
    · rfl
    · exact db.origins_update id u
  | claimEpisodes ids now =>
    rw [inserted, List.append_nil, Db.apply_claim]
    split
    · rfl
    · exact db.origins_claim ids now
  | replaceDeadLetter id d => exact (List.append_nil _).symm
  | recoverDeadLetter id now attempts openOnly => exact (List.append_nil _).symm
  | insertEvent ev => exact (List.append_nil _).symm

/-- **One statement, the ledger.** It is what it was, followed by the event that the
statement records. Nothing about an event can be rejected. -/
theorem Db.dedupEvents_apply (db : Db) (w : Write) :
    (db.apply w).dedupEvents = db.dedupEvents ++ recorded (db, w) := by
  cases w with
  | insertEpisode id e =>
    rcases h : Write.exec (.insertEpisode id e) db with err | ⟨n, db'⟩
    · rw [Db.apply, applied_error h]
      exact (List.append_nil _).symm
    · rw [Db.apply, applied_ok h]
      obtain ⟨-, rfl⟩ := Db.insertEpisode_ok h
      exact (List.append_nil _).symm
  | updateEpisode id u =>
    rw [recorded, List.append_nil, Db.apply_update]
    split <;> rfl
  | claimEpisodes ids now =>
    rw [recorded, List.append_nil, Db.apply_claim]
    split <;> rfl
  | replaceDeadLetter id d => exact (List.append_nil _).symm
  | recoverDeadLetter id now attempts openOnly => exact (List.append_nil _).symm
  | insertEvent ev => rfl

/-! ## What operations add -/

/-- The row of `enqueue_guarded`. -/
def guardedRow (sha : Sha256) (env : Env) (instanceId content groupId : String)
    (name : Option String) (sourceDescription : String) (mode : DedupMode) : Episode :=
  adapterRow env content groupId name sourceDescription
    (canonicalPayloadHash sha content groupId sourceDescription) (some instanceId) mode

/-- The ledger row of the adapter. -/
def daemonEvent (env : Env) (mode : DedupMode) (action : EventAction)
    (payloadHash existing : String) : DedupEvent where
  detectedAt := env.detectedAt
  mode := .gate mode
  action
  payloadHash := some payloadHash
  existingEpisodeId := some existing
  duplicateEpisodeId := none
  writer := some ("daemon:" ++ env.pid)

/-- The ledger row of the backstop. -/
def backstopEvent (env : Env) (id : String) (existing payloadHash : Option String) :
    DedupEvent where
  detectedAt := env.detectedAt
  mode := .backstop
  action := .backstopSkipped
  payloadHash
  existingEpisodeId := existing
  duplicateEpisodeId := some id
  writer := some ("worker:" ++ env.pid)

/-- The lookup of a writer, with which its first block begins, finds `existing`. -/
def LookedUp (env : Env) (payloadHash : String) (blocks : List (Event Db Write))
    (existing : Option String) : Prop :=
  ∃ ev, blocks.head? = some ev ∧ ev.before.activeDuplicate env.rank payloadHash = existing

/-- What was looked up first stays so, whatever is sent later. -/
theorem LookedUp.append {env : Env} {payloadHash : String} {blocks : List (Event Db Write)}
    {existing : Option String} (h : LookedUp env payloadHash blocks existing)
    (more : List (Event Db Write)) : LookedUp env payloadHash (blocks ++ more) existing := by
  obtain ⟨ev, hev, hexisting⟩ := h
  exact ⟨ev, by rw [List.head?_append, hev, Option.some_or], hexisting⟩

/-- What `enqueue` sends after its lookup has found `found`, with the databases it meets, and what
it returns. Without a mode it looks nothing up. -/
inductive EnqueueSends (sha : Sha256) (env : Env) (args : EnqueueArgs) (found : Option String) :
    Except QueueError String → List (Db × Write) → Prop where
  /-- the row is inserted -/
  | stored {db : Db} {a : ℕ × Db} : (args.mode ≠ .off → found = none) →
      Write.exec (.insertEpisode (args.epId env) (args.row sha env)) db = .ok a →
      EnqueueSends sha env args found (.ok (args.epId env))
        [(db, .insertEpisode (args.epId env) (args.row sha env))]
  /-- the row is inserted although the payload is there already -/
  | detected {db db' : Db} {a : ℕ × Db} : args.mode = .observe → found.isSome = true →
      Write.exec (.insertEpisode (args.epId env) (args.row sha env)) db = .ok a →
      EnqueueSends sha env args found (.ok (args.epId env))
        [(db, .insertEpisode (args.epId env) (args.row sha env)),
          (db', .insertEvent (args.event sha env .detected found))]
  /-- the id is taken, and returned all the same -/
  | taken {db db' : Db} {e : IntegrityError} : args.mode = .observe →
      Write.exec (.insertEpisode (args.epId env) (args.row sha env)) db = .error e →
      EnqueueSends sha env args found (.ok (args.epId env))
        [(db, .insertEpisode (args.epId env) (args.row sha env)),
          (db', .insertEvent (args.event sha env .detected
            (db.holder env.rank (args.canonicalHash sha))))]
  /-- the lookup finds the payload -/
  | refused {db : Db} : args.mode = .enforce → found.isSome = true →
      EnqueueSends sha env args found (.error (.duplicateEpisode found (args.canonicalHash sha)))
        [(db, .insertEvent (args.event sha env .rejected found))]
  /-- the index finds it -/
  | raced {db db' : Db} {e : IntegrityError} : args.mode = .enforce → found = none →
      Write.exec (.insertEpisode (args.epId env) (args.row sha env)) db = .error e →
      EnqueueSends sha env args found
        (.error (.duplicateEpisode (db.holder env.rank (args.canonicalHash sha))
          (args.canonicalHash sha)))
        [(db, .insertEpisode (args.epId env) (args.row sha env)),
          (db', .insertEvent (args.event sha env .rejected
            (db.holder env.rank (args.canonicalHash sha))))]
  /-- the id is taken -/
  | clashed {db : Db} {e : IntegrityError} : args.mode = .off →
      Write.exec (.insertEpisode (args.epId env) (args.row sha env)) db = .error e →
      EnqueueSends sha env args found (.error (.integrity e))
        [(db, .insertEpisode (args.epId env) (args.row sha env))]

/-- A recorded event is one statement, in some database. -/
theorem runs_record (ev : DedupEvent) :
    Runs (recordDedupEvent ev) fun r h => Completes r ∧ ∃ db, h = [(db, .insertEvent ev)] := by
  refine runs_withConn (m := .any) ?_
  refine does_tryWrite_bind (keeps_discipline (by rintro e ⟨⟩)) fun db _ => ?_
  exact (does_commit ⟨⟨(), rfl⟩, db, rfl⟩).to_any

/-- Without a legacy hash an integrity error is raised as it is. -/
theorem runs_insert_none (env : Env) {id : String} (hid : id ≠ "") (payloadJson : PayloadJson)
    (now : ℕ) (gate : DedupMode) (canonicalHash : Option String) :
    Runs (insertSync env id payloadJson now none gate canonicalHash) fun r h =>
      ∃ db, h = [(db, .insertEpisode id
          (newEpisode payloadJson now none none canonicalHash gate))] ∧
        ((∃ a, Write.exec (.insertEpisode id
            (newEpisode payloadJson now none none canonicalHash gate)) db = .ok a ∧ r = .ok ()) ∨
          ∃ e, Write.exec (.insertEpisode id
            (newEpisode payloadJson now none none canonicalHash gate)) db = .error e ∧
            r = .error (.integrity e)) := by
  refine Does.withConn (m := .any) ?_ ?_
  · refine does_write_bind (keeps_insertEpisode hid _) (fun db err _ herr => ?_)
      fun db n db' _ hok => (does_commit ?_).to_any
    · exact ⟨db, rfl, .inr ⟨err, herr, rfl⟩⟩
    · exact ⟨db, rfl, .inl ⟨_, hok, rfl⟩⟩
  · rintro err h ⟨db, rfl, ⟨a, -, hr⟩ | ⟨e, herr, -⟩⟩ x hx
    · cases hr
    · obtain rfl := List.mem_singleton.mp hx
      exact applied_error herr

/-- In the transaction of a rejected insert the lookup finds what the index saw. -/
theorem does_find_sees (find : Db → Option String) {payloadHash : String} (hhash : payloadHash ≠ "")
    (db : Db) : Does Write.exec Db.Disciplined (.sees db) (.sees db) (do
      if payloadHash = "" then return none
      let db ← select
      return find db : Sql (Option String)) fun r h => r = .ok (find db) ∧ h = [] := by
  rw [if_neg hhash]
  exact does_select_sees (does_ret ⟨rfl, rfl⟩)

/-- **The insert of `enqueue`, among the others.** With a legacy hash every integrity error
is a race lost, to the row that holds the hash. The lookups are made in the transaction of
the rejected `INSERT`, so that they see the database that rejected it. -/
theorem runs_insert_some (env : Env) {id : String} (hid : id ≠ "") (payloadJson : PayloadJson)
    (now : ℕ) {hash : String} (hhash : hash ≠ "") (gate : DedupMode) :
    Runs (insertSync env id payloadJson now (some hash) gate (some hash)) fun r h =>
      ∃ db, h = [(db, .insertEpisode id (newEpisode payloadJson now (some hash)
          (some ("mcp:" ++ env.pid)) (some hash) gate))] ∧
        ((∃ a, Write.exec (.insertEpisode id (newEpisode payloadJson now (some hash)
            (some ("mcp:" ++ env.pid)) (some hash) gate)) db = .ok a ∧ r = .ok ()) ∨
          ∃ e, Write.exec (.insertEpisode id (newEpisode payloadJson now (some hash)
            (some ("mcp:" ++ env.pid)) (some hash) gate)) db = .error e ∧
            r = .error (.duplicateRace (db.holder env.rank hash) hash)) := by
  refine Does.withConn (m := .any) ?_ ?_
  · refine does_tryWrite_bind (keeps_insertEpisode hid _) fun db _ => ?_
    rcases hexec : Write.exec (.insertEpisode id (newEpisode payloadJson now (some hash)
      (some ("mcp:" ++ env.pid)) ((some hash : Option String).orElse fun _ => some hash) gate)) db
      with err | a
    · -- rejected: the first lookup decides if there is a second one
      rw [applied_error hexec]
      refine Does.bind (does_find_sees _ hhash db) ?_ (by rintro e h ⟨ha, -⟩; cases ha)
      rintro existing _ ⟨hactive, rfl⟩
      rw [← Db.activeDuplicate] at hactive
      have hholder : db.holder env.rank hash = existing.orElse fun _ =>
          db.anyDuplicate env.rank hash := by rw [Db.holder, ← Except.ok.inj hactive]
      rcases existing with _ | existing
      · refine Does.bind (does_find_sees _ hhash db) ?_ (by rintro e h ⟨ha, -⟩; cases ha)
        rintro existing _ ⟨hany, rfl⟩
        obtain rfl := Except.ok.inj hany
        exact (does_fail ⟨db, rfl, .inr ⟨err, hexec, by rw [hholder]; rfl⟩⟩).to_any
      · exact (does_fail ⟨db, rfl, .inr ⟨err, hexec, by rw [hholder]; rfl⟩⟩).to_any
    · exact (does_commit ⟨db, rfl, .inl ⟨a, hexec, rfl⟩⟩).to_any
  · rintro err h ⟨db, rfl, ⟨a, -, hr⟩ | ⟨e, herr, -⟩⟩ x hx
    · cases hr
    · obtain rfl := List.mem_singleton.mp hx
      exact applied_error herr

/-- The lookup of a writer sees the database its first block begins in. -/
theorem sees_findActiveDuplicate (env : Env) {payloadHash : String} (h : payloadHash ≠ "") :
    Sees Write.exec Db.Disciplined (withConn (findActiveDuplicate env payloadHash)) fun r blocks =>
      ∃ found, r = .ok found ∧ LookedUp env payloadHash blocks found ∧
        history Write.exec blocks = [] := by
  rw [findActiveDuplicate, if_neg h]
  refine (sees_lookup fun db : Db => db.activeDuplicate env.rank payloadHash).mono ?_
  rintro _ blocks ⟨ev, hev, rfl, hhistory⟩
  exact ⟨_, rfl, ⟨ev, hev, rfl⟩, hhistory⟩

/-- **`enqueue`, among the others**: it goes one of the ways of `EnqueueSends`, after its own
lookup. -/
theorem sees_enqueueSends (sha : Sha256) (env : Env) (args : EnqueueArgs) :
    Sees Write.exec Db.Disciplined (enqueue sha env args) fun r blocks =>
      ∃ found, (args.mode ≠ .off → LookedUp env (args.canonicalHash sha) blocks found) ∧
        EnqueueSends sha env args found r (history Write.exec blocks) := by
  have hid : args.epId env ≠ "" := pyOr_ne env.uuid_ne
  have hlog : ∀ action existing, Runs (recordDedupEventSync env args.mode action
      (some (args.canonicalHash sha)) existing (some (args.epId env))) fun r h =>
        Completes r ∧ ∃ db, h = [(db, .insertEvent (args.event sha env action existing))] :=
    fun action existing => runs_record _
  unfold enqueue
  dsimp only
  split
  · rename_i hoff
    have hrow : newEpisode (args.payload env).dumps env.now none none
        (some (args.canonicalHash sha)) .off = args.row sha env := by
      rw [EnqueueArgs.row, if_pos hoff]
    have hinsert := runs_insert_none env hid (args.payload env).dumps env.now .off
      (some (args.canonicalHash sha))
    rw [hrow] at hinsert
    refine hinsert.sees.bind ?_ ?_
    · rintro _ blocks ⟨db, hhistory, ⟨a, hok, -⟩ | ⟨e, -, hr⟩⟩
      · refine sees_ret ⟨none, absurd hoff, ?_⟩
        rw [List.append_nil, hhistory]
        exact .stored (fun _ => rfl) hok
      · cases hr
    · rintro _ blocks ⟨db, hhistory, ⟨a, -, hr⟩ | ⟨e, herr, hr⟩⟩
      · cases hr
      · obtain rfl := Except.error.inj hr
        exact ⟨none, absurd hoff, hhistory ▸ .clashed hoff herr⟩
  · rename_i hon
    have hrow : newEpisode (args.payload env).dumps env.now (some (args.canonicalHash sha))
        (some ("mcp:" ++ env.pid)) (some (args.canonicalHash sha)) args.mode =
      args.row sha env := by
      rw [EnqueueArgs.row, if_neg hon]
    have hinsert := runs_insert_some env hid (args.payload env).dumps env.now
      (args.canonicalHash_ne sha) args.mode
    rw [hrow] at hinsert
    have hobserve : args.mode ≠ .enforce → args.mode = .observe := by
      rcases hmode : args.mode with _ | _ | _
      · exact absurd hmode hon
      · exact fun _ => rfl
      · exact fun h => absurd rfl h
    refine (sees_findActiveDuplicate env (args.canonicalHash_ne sha)).bind ?_
      (by rintro e blocks ⟨found, hr, -⟩; cases hr)
    rintro found looked ⟨_, ⟨⟩, hfound, hlooked⟩
    split
    · rename_i hrefused
      refine (hlog _ _).sees.bind ?_ (by rintro e blocks ⟨⟨a, ha⟩, -⟩; cases ha)
      rintro _ logged ⟨-, db, hlogged⟩
      refine sees_fail ⟨found, fun _ => hfound.append _, ?_⟩
      simp only [history_append, List.append_nil, hlooked, hlogged, List.nil_append]
      exact .refused hrefused.1 hrefused.2
    · rename_i hadmitted
      refine hinsert.sees.attempt.bind ?_ (by rintro e blocks ⟨r', hr, -⟩; cases hr)
      rintro _ sent ⟨r, ⟨⟩, db, hsent, ⟨a, hok, rfl⟩ | ⟨e, herr, rfl⟩⟩
      · dsimp only
        split
        · rename_i hdup
          refine (hlog _ _).sees.bind ?_ (by rintro e blocks ⟨⟨a, ha⟩, -⟩; cases ha)
          rintro _ logged ⟨-, db', hlogged⟩
          refine sees_ret ⟨found, fun _ => hfound.append _, ?_⟩
          simp only [history_append, List.append_nil, hlooked, hsent, hlogged, List.nil_append]
          exact .detected (hobserve fun henforce => hadmitted ⟨henforce, hdup⟩) hdup hok
        · rename_i hnone
          refine sees_ret ⟨found, fun _ => hfound.append _, ?_⟩
          simp only [history_append, List.append_nil, hlooked, hsent, List.nil_append]
          exact .stored (fun _ => by simpa using hnone) hok
      · dsimp only
        split
        · rename_i henforce
          refine (hlog _ _).sees.bind ?_ (by rintro e blocks ⟨⟨a, ha⟩, -⟩; cases ha)
          rintro _ logged ⟨-, db', hlogged⟩
          refine sees_fail ⟨found, fun _ => hfound.append _, ?_⟩
          simp only [history_append, List.append_nil, hlooked, hsent, hlogged, List.nil_append]
          exact .raced henforce (by simpa [henforce] using hadmitted) herr
        · rename_i henforce
          refine (hlog _ _).sees.bind ?_ (by rintro e blocks ⟨⟨a, ha⟩, -⟩; cases ha)
          rintro _ logged ⟨-, db', hlogged⟩
          refine sees_ret ⟨found, fun _ => hfound.append _, ?_⟩
          simp only [history_append, List.append_nil, hlooked, hsent, hlogged, List.nil_append]
          exact .taken (hobserve henforce) herr

/-- What `enqueue_guarded` sends after its lookup has found `found`, and what it returns. -/
inductive GuardedSends (sha : Sha256) (env : Env) (lockMode : LockMode)
    (instanceId content groupId : String) (name : Option String) (sourceDescription : String)
    (mode : DedupMode) (found : Option String) :
    Except QueueError String → List (Db × Write) → Prop where
  /-- the lock mode forbids it -/
  | locked : lockMode = .mcpOnly →
      GuardedSends sha env lockMode instanceId content groupId name sourceDescription mode found
        (.error .lockMode) []
  /-- the row is inserted -/
  | stored {db : Db} {a : ℕ × Db} : lockMode ≠ .mcpOnly → (mode ≠ .off → found = none) →
      Write.exec (.insertEpisode env.uuid
        (guardedRow sha env instanceId content groupId name sourceDescription mode)) db = .ok a →
      GuardedSends sha env lockMode instanceId content groupId name sourceDescription mode found
        (.ok env.uuid)
        [(db, .insertEpisode env.uuid
          (guardedRow sha env instanceId content groupId name sourceDescription mode))]
  /-- the row is inserted although the payload is there already -/
  | detected {db db' : Db} {a : ℕ × Db} {existing : String} : lockMode ≠ .mcpOnly →
      mode = .observe → found = some existing →
      Write.exec (.insertEpisode env.uuid
        (guardedRow sha env instanceId content groupId name sourceDescription mode)) db' = .ok a →
      GuardedSends sha env lockMode instanceId content groupId name sourceDescription mode found
        (.ok env.uuid)
        [(db, .insertEvent (daemonEvent env mode .detected
            (canonicalPayloadHash sha content groupId sourceDescription) existing)),
          (db', .insertEpisode env.uuid
            (guardedRow sha env instanceId content groupId name sourceDescription mode))]
  /-- the lookup finds the payload -/
  | refused {db : Db} {existing : String} : lockMode ≠ .mcpOnly → mode = .enforce →
      found = some existing →
      GuardedSends sha env lockMode instanceId content groupId name sourceDescription mode found
        (.error (.episodeDuplicate existing))
        [(db, .insertEvent (daemonEvent env mode .rejected
          (canonicalPayloadHash sha content groupId sourceDescription) existing))]
  /-- the index finds it, or the id is taken: the ledger is not told -/
  | raced {db : Db} {e : IntegrityError} : lockMode ≠ .mcpOnly → (mode ≠ .off → found = none) →
      Write.exec (.insertEpisode env.uuid
        (guardedRow sha env instanceId content groupId name sourceDescription mode)) db =
          .error e →
      GuardedSends sha env lockMode instanceId content groupId name sourceDescription mode found
        (.error (adapterError e (db.activeDuplicate env.rank
          (canonicalPayloadHash sha content groupId sourceDescription))))
        [(db, .insertEpisode env.uuid
          (guardedRow sha env instanceId content groupId name sourceDescription mode))]
  /-- the payload is there already, and the id is taken -/
  | clashed {db db' : Db} {e : IntegrityError} {existing : String} : lockMode ≠ .mcpOnly →
      mode = .observe → found = some existing →
      Write.exec (.insertEpisode env.uuid
        (guardedRow sha env instanceId content groupId name sourceDescription mode)) db' =
          .error e →
      GuardedSends sha env lockMode instanceId content groupId name sourceDescription mode found
        (.error (adapterError e (db'.activeDuplicate env.rank
          (canonicalPayloadHash sha content groupId sourceDescription))))
        [(db, .insertEvent (daemonEvent env mode .detected
            (canonicalPayloadHash sha content groupId sourceDescription) existing)),
          (db', .insertEpisode env.uuid
            (guardedRow sha env instanceId content groupId name sourceDescription mode))]

/-- **The insert of the adapter, among the others.** It asks for an active holder only, and
raises the error as it is when there is none. -/
theorem runs_guardedInsert (sha : Sha256) (env : Env) (instanceId content groupId : String)
    (name : Option String) (sourceDescription : String) (mode : DedupMode) :
    Runs (insertWithHashSync env content groupId name sourceDescription
        (canonicalPayloadHash sha content groupId sourceDescription) (some instanceId) mode)
      fun r h => ∃ db, h = [(db, .insertEpisode env.uuid
          (guardedRow sha env instanceId content groupId name sourceDescription mode))] ∧
        ((∃ a, Write.exec (.insertEpisode env.uuid
            (guardedRow sha env instanceId content groupId name sourceDescription mode)) db =
              .ok a ∧ r = .ok env.uuid) ∨
          ∃ e, Write.exec (.insertEpisode env.uuid
            (guardedRow sha env instanceId content groupId name sourceDescription mode)) db =
              .error e ∧ r = .error (adapterError e (db.activeDuplicate env.rank
                (canonicalPayloadHash sha content groupId sourceDescription)))) := by
  have hhash : canonicalPayloadHash sha content groupId sourceDescription ≠ "" :=
    sha.hexdigest_ne _
  refine Does.withConn (m := .any) ?_ ?_
  · refine does_tryWrite_bind (keeps_insertEpisode env.uuid_ne _) fun db _ => ?_
    rcases hexec : Write.exec (.insertEpisode env.uuid
      (guardedRow sha env instanceId content groupId name sourceDescription mode)) db with err | a
    · have hrejected := hexec
      rw [guardedRow, adapterRow] at hexec
      rw [hexec, applied_error hexec]
      refine Does.bind (does_find_sees _ hhash db) ?_ (by rintro e h ⟨ha, -⟩; cases ha)
      rintro existing _ ⟨hactive, rfl⟩
      obtain hactive := Except.ok.inj hactive
      rw [← Db.activeDuplicate] at hactive
      rcases existing with _ | existing
      · exact (does_fail ⟨db, rfl, .inr ⟨err, hrejected, by rw [← hactive]; rfl⟩⟩).to_any
      · dsimp only
        split
        · rename_i hempty
          refine (does_fail ⟨db, rfl, .inr ⟨err, hrejected, ?_⟩⟩).to_any
          rw [← hactive, adapterError, if_pos hempty]
        · rename_i hne
          refine (does_fail ⟨db, rfl, .inr ⟨err, hrejected, ?_⟩⟩).to_any
          rw [← hactive, adapterError, if_neg hne]
    · have hstored := hexec
      rw [guardedRow, adapterRow] at hexec
      rw [hexec]
      exact (does_commit_ret ⟨db, rfl, .inl ⟨a, hstored, rfl⟩⟩).to_any
  · rintro err h ⟨db, rfl, ⟨a, -, hr⟩ | ⟨e, herr, -⟩⟩ x hx
    · cases hr
    · obtain rfl := List.mem_singleton.mp hx
      exact applied_error herr

/-- **`enqueue_guarded`, among the others.** Under a lock of the MCP server it looks nothing
up, since it refuses at once. -/
theorem sees_guardedSends (sha : Sha256) (env : Env) (lockMode : LockMode)
    (instanceId content groupId : String) (name : Option String) (sourceDescription : String)
    (mode : DedupMode) :
    Sees Write.exec Db.Disciplined
      (enqueueGuarded sha env lockMode instanceId content groupId name sourceDescription mode)
      fun r blocks => ∃ found, (lockMode ≠ .mcpOnly → mode ≠ .off →
          LookedUp env (canonicalPayloadHash sha content groupId sourceDescription) blocks found) ∧
        GuardedSends sha env lockMode instanceId content groupId name sourceDescription mode found r
          (history Write.exec blocks) := by
  have hinsert := runs_guardedInsert sha env instanceId content groupId name sourceDescription mode
  have hlog : ∀ action existing, Runs (adapterRecordDedupEvent env mode action
      (canonicalPayloadHash sha content groupId sourceDescription) existing) fun r h =>
        Completes r ∧ ∃ db, h = [(db, .insertEvent (daemonEvent env mode action
          (canonicalPayloadHash sha content groupId sourceDescription) existing))] :=
    fun action existing => runs_record _
  unfold enqueueGuarded
  split
  · rename_i hlocked
    exact sees_fail ⟨none, fun h => absurd hlocked h, .locked hlocked⟩
  · rename_i hopen
    dsimp only
    split
    · rename_i hoff
      refine hinsert.sees.mono ?_
      rintro r sent ⟨db, hsent, hr⟩
      refine ⟨none, fun _ h => absurd hoff h, hsent ▸ ?_⟩
      rcases hr with ⟨a, hok, rfl⟩ | ⟨e, herr, rfl⟩
      · exact .stored hopen (fun _ => rfl) hok
      · exact .raced hopen (fun _ => rfl) herr
    · rename_i hon
      refine (sees_findActiveDuplicate env (sha.hexdigest_ne _)).bind ?_
        (by rintro e blocks ⟨found, hr, -⟩; cases hr)
      rintro (_ | existing) looked ⟨_, ⟨⟩, hfound, hlooked⟩
      · refine hinsert.sees.mono ?_
        rintro r sent ⟨db, hsent, hr⟩
        refine ⟨none, fun _ _ => hfound.append _, ?_⟩
        rw [history_append, hlooked, hsent, List.nil_append]
        rcases hr with ⟨a, hok, rfl⟩ | ⟨e, herr, rfl⟩
        · exact .stored hopen (fun _ => rfl) hok
        · exact .raced hopen (fun _ => rfl) herr
      · dsimp only
        split
        · rename_i henforce
          refine (hlog _ _).sees.bind ?_ (by rintro e blocks ⟨⟨a, ha⟩, -⟩; cases ha)
          rintro _ logged ⟨-, db, hlogged⟩
          refine sees_fail ⟨some existing, fun _ _ => hfound.append _, ?_⟩
          simp only [history_append, List.append_nil, hlooked, hlogged, List.nil_append]
          exact .refused hopen henforce rfl
        · rename_i henforce
          have hobserve : mode = .observe := by
            rcases mode with _ | _ | _
            · exact absurd rfl hon
            · rfl
            · exact absurd rfl henforce
          refine (hlog _ _).sees.bind ?_ (by rintro e blocks ⟨⟨a, ha⟩, -⟩; cases ha)
          rintro _ logged ⟨-, db, hlogged⟩
          refine hinsert.sees.mono ?_
          rintro r sent ⟨db', hsent, hr⟩
          refine ⟨some existing, fun _ _ => hfound.append _, ?_⟩
          simp only [history_append, hlooked, hsent, hlogged, List.nil_append, List.cons_append]
          rcases hr with ⟨a, hok, rfl⟩ | ⟨e, herr, rfl⟩
          · exact .detected hopen hobserve rfl hok
          · exact .clashed hopen hobserve rfl herr

/-! ### The other operations -/

/-- The backstop marks the episode and, if it knows the duplicate, records it. -/
theorem runs_skipSends (env : Env) (id : String) (existing payloadHash : Option String) :
    Runs (markSkippedDuplicate env id existing payloadHash) fun r h => r = .ok () ∧
      h.flatMap inserted = [] ∧
      h.flatMap recorded = if pyOr existing "" ≠ "" ∨ pyOr payloadHash "" ≠ "" then
        [backstopEvent env id existing payloadHash] else [] := by
  have hskip : Runs (withConn do
      let _ ← execute (.updateEpisode id (.skipDuplicate
        ("skipped: payload already ingested as " ++ pyOr existing "unknown") env.now))
      commit) fun r h => Completes r ∧ ∃ db u, h = [(db, .updateEpisode id u)] := by
    refine runs_withConn (m := .any) ?_
    exact does_inactive (fun e => by simp [EpisodeUpdate.set, activeStatuses])
      fun db n _ => (does_commit ⟨⟨(), rfl⟩, db, _, rfl⟩).to_any
  refine hskip.bind ?_ (by rintro e h ⟨⟨a, ha⟩, -⟩; cases ha)
  rintro _ _ ⟨-, db, u, rfl⟩
  split
  · refine (runs_record _).mono ?_
    rintro _ _ ⟨⟨_, rfl⟩, db', rfl⟩
    exact ⟨rfl, rfl, rfl⟩
  · exact does_ret ⟨rfl, rfl, rfl⟩

/-- The statement adds to neither table. -/
def Write.Quiet (w : Write) : Prop := ∀ db, inserted (db, w) = [] ∧ recorded (db, w) = []

/-- An update of one row adds nothing. -/
theorem quiet_update (id : String) (u : EpisodeUpdate) : (Write.updateEpisode id u).Quiet :=
  fun _ => ⟨rfl, rfl⟩

/-- Neither does a dead letter that is opened, -/
theorem quiet_replace (id : String) (d : DeadLetter) : (Write.replaceDeadLetter id d).Quiet :=
  fun _ => ⟨rfl, rfl⟩

/-- or closed, -/
theorem quiet_recover (id : String) (now attempts : ℕ) (openOnly : Bool) :
    (Write.recoverDeadLetter id now attempts openOnly).Quiet :=
  fun _ => ⟨rfl, rfl⟩

/-- or a claim. -/
theorem quiet_claim (ids : List String) (now : ℕ) : (Write.claimEpisodes ids now).Quiet :=
  fun _ => ⟨rfl, rfl⟩

/-- The operation adds to neither table. -/
def Op.isQuiet : Op → Bool
  | .enqueue _ => false
  | .enqueueGuarded .. => false
  | .markSkippedDuplicate .. => false
  | _ => true

/-- One turn of the stuck-reaper is quiet, in each of its three branches. -/
theorem sends_reapStuckRow (now : ℕ) (maxAttempts : ℤ) (row : String × Episode) :
    Sends Write.Quiet (reapStuckRow now maxAttempts row) := by
  rw [reapStuckRow]
  split
  · exact (sends_write (quiet_update _ _)).bind fun _ =>
      (sends_write (quiet_replace _ _)).bind fun _ => Prog.only_ret ()
  · refine (sends_guarded (quiet_update _ _)).bind ?_
    rintro (e | n)
    · exact (sends_write (quiet_update _ _)).bind fun _ => Prog.only_ret ()
    · exact Prog.only_ret ()

/-- So are guarded requeues, -/
theorem sends_requeueGuarded (now : ℕ) (extra : RequeueExtra) (ids : List String) :
    Sends Write.Quiet (requeueGuarded now extra ids) := by
  refine (Prog.Only.forEach (fun id => ?_) ids).bind fun turns => Prog.only_ret _
  refine (sends_guarded (quiet_update _ _)).bind ?_
  rintro (e | n)
  · exact Prog.only_ret _
  · exact Prog.only_ret _

/-- and one turn of the batch replay, -/
theorem sends_replayRow (now : ℕ) (row : String × DeadLetter) :
    Sends Write.Quiet (replayRow now row) := by
  refine (sends_guarded (quiet_update _ _)).bind ?_
  rintro (e | n)
  · exact Prog.only_ret 0
  · dsimp only
    split
    · exact (sends_write (quiet_recover _ _ _ _)).bind fun _ => Prog.only_ret 0
    · exact (sends_write (quiet_recover _ _ _ _)).bind fun _ => Prog.only_ret 1

/-- and the question to the policy, which sends nothing at all. -/
theorem sends_replayAdmitted (id : String) (policy : RetryPolicy) :
    Sends Write.Quiet (replayAdmitted id policy) := by
  rw [replayAdmitted]
  split
  · exact Prog.only_ret true
  · exact sends_select.bind fun _ => Prog.only_ret _

/-- **All other operations add nothing**, whenever their statements are sent. -/
theorem sends_quiet (sha : Sha256) (env : Env) {op : Op} (h : op.isQuiet = true) :
    Sends Write.Quiet (op.script sha env) := by
  cases op with
  | enqueue | enqueueGuarded | markSkippedDuplicate => cases h
  | claimNextBatch limit =>
    refine Prog.Only.bind (Sends.withConn (sends_select.bind fun db => ?_)) fun _ => Prog.only_ret _
    dsimp only
    split
    · exact Prog.only_ret _
    · exact (sends_write (quiet_claim _ _)).bind fun _ =>
        sends_commit.bind fun _ => Prog.only_ret _
  | markDone id =>
    refine Prog.Only.bind (Sends.withConn ((sends_write (quiet_update _ _)).bind fun _ =>
      sends_select.bind fun db => ?_)) fun _ => Prog.only_ret _
    split
    · exact (sends_write (quiet_recover _ _ _ _)).bind fun _ => sends_commit
    · exact sends_commit
  | markFailed id error =>
    exact Prog.Only.bind (Sends.withConn ((sends_write (quiet_update _ _)).bind fun _ =>
      sends_commit)) fun _ => Prog.only_ret _
  | markAborted id error =>
    exact Prog.Only.bind (Sends.withConn (sends_select.bind fun db =>
      (sends_write (quiet_update _ _)).bind fun _ => (sends_write (quiet_replace _ _)).bind fun _ =>
        sends_commit)) fun _ => Prog.only_ret _
  | updateCheckpoint id text =>
    exact Prog.Only.bind (Sends.withConn ((sends_write (quiet_update _ _)).bind fun _ =>
      sends_commit)) fun _ => Prog.only_ret _
  | reapStuckProcessing timeoutSec maxAttempts =>
    exact Prog.Only.bind (Sends.withConn (sends_select.bind fun db =>
      (Prog.Only.forEach (sends_reapStuckRow _ _) _).bind fun _ => sends_commit.bind fun _ =>
        Prog.only_ret _)) fun _ => Prog.only_ret _
  | reapFailedOrAborted limit policy =>
    refine Prog.Only.bind ?_ fun _ => Prog.only_ret _
    rw [reapFailedOrAborted]
    dsimp only
    split
    · exact Prog.only_ret 0
    · refine Sends.withConn (sends_select.bind fun db => ?_)
      split
      · exact Prog.only_ret 0
      · exact (sends_requeueGuarded _ _ _).bind fun _ => sends_commit.bind fun _ => Prog.only_ret _
  | replayDlqEpisode id policy =>
    refine Prog.Only.bind (Sends.withConn (sends_select.bind fun db => ?_)) fun _ => Prog.only_ret _
    split
    · exact Prog.only_ret false
    · refine (sends_replayAdmitted _ _).bind fun admitted => ?_
      split
      · exact Prog.only_ret false
      · refine (sends_requeueGuarded _ _ _).bind fun requeued => ?_
        split
        · exact sends_rollback.bind fun _ => Prog.only_ret false
        · exact (sends_write (quiet_recover _ _ _ _)).bind fun _ => sends_commit.bind fun _ =>
            Prog.only_ret true
  | replayDlqBatch limit classes minAgeSec policy =>
    refine Prog.Only.bind (Sends.withConn (sends_select.bind fun db => ?_)) fun _ => Prog.only_ret _
    dsimp only
    split
    · exact Prog.only_ret 0
    · exact (Prog.Only.forEach (sends_replayRow _) _).bind fun _ => sends_commit.bind fun _ =>
        Prog.only_ret _

end JanusGraph
