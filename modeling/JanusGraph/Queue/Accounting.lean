import JanusGraph.Lib.Blocks
import JanusGraph.Queue.Additions
import JanusGraph.Queue.UniqueIndex

/-!
# What the processes have added

Any number of processes enqueue, claim, finish, reap and replay in any interleaving
of their statements, and each of them may die between two of them. The episodes and
the ledger are what they were, and what the sessions have added to them, each session
its own part: `Step.Inserts` and `Op.Records` say which part, for a session that is
over.

* **What a session owes.** `addsPost` is read off the statements of one operation
  (`EnqueueSends.inserts`, `EnqueueSends.records` and their counterparts for the adapter
  and the backstop), and holds whatever the other sessions do (`safe_adds`).
* **What the database has.** The log of a schedule lists the blocks of all sessions in the
  order in which they were committed. Both tables are sums over it (`Db.origins_apply`,
  `Db.dedupEvents_apply`), and its blocks are those of the sessions in another order
  (`perm_sessions`).
* **What is under way.** A session that is not over, for good if its process has died, has
  added the beginning of what it would have added at its end (`insertedBy_initial`).

`Op.Records` is an inductive predicate with one constructor for each way an operation can
end, so that it says in each case which event there is and that there is no other.
-/

namespace JanusGraph

open Script

/-! ## What an operation that is over has added -/

/-- The row that the operation inserts, if it inserts one. -/
def Step.newRow (sha : Sha256) (st : Step) : Option (String × Origin) :=
  match st.op with
  | .enqueue args => some (args.epId st.env, (args.row sha st.env).origin)
  | .enqueueGuarded _ instanceId content groupId name sourceDescription mode =>
    some (st.env.uuid,
      (guardedRow sha st.env instanceId content groupId name sourceDescription mode).origin)
  | _ => none

/-- An `enqueue` in `observe` mode, which returns its id even if that is taken. -/
def Op.observes : Op → Prop
  | .enqueue args => args.mode = .observe
  | _ => False

/-- What an operation with the result `r` and the history `h` has inserted. -/
structure Step.Inserts (sha : Sha256) (st : Step) (r : Except QueueError OpResult)
    (h : List (Db × Write)) : Prop where
  /-- nothing but its row -/
  atMost : h.flatMap inserted <+: (st.newRow sha).toList
  /-- its row, if it has returned an id, unless that was taken -/
  returned : ∀ id, r = .ok (.id id) → (st.newRow sha).map Prod.fst = some id ∧
    (h.flatMap inserted = (st.newRow sha).toList ∨
      st.op.observes ∧ h.flatMap inserted = [] ∧ ∃ x ∈ h, id ∈ x.1.origins.map Prod.fst)
  /-- nothing, if it has raised -/
  raised : ∀ e, r = .error e → h.flatMap inserted = []

/-- The row was sent to a database that took it. -/
def Accepted (blocks : List (Event Db Write)) (id : String) (e : Episode) : Prop :=
  ∃ db a, (db, .insertEpisode id e) ∈ history Write.exec blocks ∧
    Write.exec (.insertEpisode id e) db = .ok a

/-- The row was sent to `db`, which refused it. -/
def Refused (blocks : List (Event Db Write)) (id : String) (e : Episode) (db : Db)
    (err : IntegrityError) : Prop :=
  (db, .insertEpisode id e) ∈ history Write.exec blocks ∧
    Write.exec (.insertEpisode id e) db = .error err

/-- What an operation has recorded in the ledger when it ends with the result `r`. For a writer
that depends on its two encounters with the database: what its lookup found, and whether its row
was taken. -/
inductive Op.Records (sha : Sha256) (env : Env) (blocks : List (Event Db Write)) :
    Op → Except QueueError OpResult → List DedupEvent → Prop where
  | nothing {op : Op} {r : Except QueueError OpResult} : op.isQuiet = true →
      Records sha env blocks op r []
  /-- nothing of a row that is no duplicate -/
  | enqueued {args : EnqueueArgs} :
      (args.mode ≠ .off → LookedUp env (args.canonicalHash sha) blocks none) →
      Accepted blocks (args.epId env) (args.row sha env) →
      Records sha env blocks (.enqueue args) (.ok (.id (args.epId env))) []
  | detected {args : EnqueueArgs} {existing : String} : args.mode = .observe →
      LookedUp env (args.canonicalHash sha) blocks (some existing) →
      Accepted blocks (args.epId env) (args.row sha env) →
      Records sha env blocks (.enqueue args) (.ok (.id (args.epId env)))
        [args.event sha env .detected (some existing)]
  /-- a row that is not taken counts as detected, as what the refusing database holds -/
  | taken {args : EnqueueArgs} {db : Db} {err : IntegrityError} : args.mode = .observe →
      Refused blocks (args.epId env) (args.row sha env) db err →
      Records sha env blocks (.enqueue args) (.ok (.id (args.epId env)))
        [args.event sha env .detected (db.holder env.rank (args.canonicalHash sha))]
  /-- every refusal is recorded, with the episode it names -/
  | rejected {args : EnqueueArgs} {existing : String} : args.mode = .enforce →
      LookedUp env (args.canonicalHash sha) blocks (some existing) →
      Records sha env blocks (.enqueue args)
        (.error (.duplicateEpisode (some existing) (args.canonicalHash sha)))
        [args.event sha env .rejected (some existing)]
  | raced {args : EnqueueArgs} {db : Db} {err : IntegrityError} : args.mode = .enforce →
      LookedUp env (args.canonicalHash sha) blocks none →
      Refused blocks (args.epId env) (args.row sha env) db err →
      Records sha env blocks (.enqueue args)
        (.error (.duplicateEpisode (db.holder env.rank (args.canonicalHash sha))
          (args.canonicalHash sha)))
        [args.event sha env .rejected (db.holder env.rank (args.canonicalHash sha))]
  | clashed {args : EnqueueArgs} {db : Db} {err : IntegrityError} : args.mode = .off →
      Refused blocks (args.epId env) (args.row sha env) db err →
      Records sha env blocks (.enqueue args) (.error (.integrity err)) []
  | adapterLocked {lockMode : LockMode} {instanceId content groupId : String}
      {name : Option String} {sourceDescription : String} {mode : DedupMode} :
      lockMode = .mcpOnly →
      Records sha env blocks
        (.enqueueGuarded lockMode instanceId content groupId name sourceDescription mode)
        (.error .lockMode) []
  | adapterEnqueued {lockMode : LockMode} {instanceId content groupId : String}
      {name : Option String} {sourceDescription : String} {mode : DedupMode} :
      lockMode ≠ .mcpOnly → (mode ≠ .off →
        LookedUp env (canonicalPayloadHash sha content groupId sourceDescription) blocks none) →
      Accepted blocks env.uuid
        (guardedRow sha env instanceId content groupId name sourceDescription mode) →
      Records sha env blocks
        (.enqueueGuarded lockMode instanceId content groupId name sourceDescription mode)
        (.ok (.id env.uuid)) []
  /-- the adapter records nothing of a duplicate that only the index finds -/
  | adapterRaced {lockMode : LockMode} {instanceId content groupId : String}
      {name : Option String} {sourceDescription : String} {mode : DedupMode} {db : Db}
      {err : IntegrityError} :
      lockMode ≠ .mcpOnly → (mode ≠ .off →
        LookedUp env (canonicalPayloadHash sha content groupId sourceDescription) blocks none) →
      Refused blocks env.uuid
        (guardedRow sha env instanceId content groupId name sourceDescription mode) db err →
      Records sha env blocks
        (.enqueueGuarded lockMode instanceId content groupId name sourceDescription mode)
        (.error (adapterError err (db.activeDuplicate env.rank
          (canonicalPayloadHash sha content groupId sourceDescription)))) []
  /-- what the adapter's lookup finds is recorded before the row is sent, whatever becomes of it -/
  | adapterDetected {lockMode : LockMode} {instanceId content groupId : String}
      {name : Option String} {sourceDescription : String} {mode : DedupMode} {existing : String}
      {r : Except QueueError OpResult} : lockMode ≠ .mcpOnly → mode = .observe →
      LookedUp env (canonicalPayloadHash sha content groupId sourceDescription) blocks
        (some existing) →
      (r = .ok (.id env.uuid) ∧ Accepted blocks env.uuid
          (guardedRow sha env instanceId content groupId name sourceDescription mode) ∨
        ∃ db err, r = .error (adapterError err (db.activeDuplicate env.rank
            (canonicalPayloadHash sha content groupId sourceDescription))) ∧
          Refused blocks env.uuid
            (guardedRow sha env instanceId content groupId name sourceDescription mode) db err) →
      Records sha env blocks
        (.enqueueGuarded lockMode instanceId content groupId name sourceDescription mode) r
        [daemonEvent env mode .detected
          (canonicalPayloadHash sha content groupId sourceDescription) existing]
  | adapterRejected {lockMode : LockMode} {instanceId content groupId : String}
      {name : Option String} {sourceDescription : String} {mode : DedupMode} {existing : String} :
      lockMode ≠ .mcpOnly → mode = .enforce →
      LookedUp env (canonicalPayloadHash sha content groupId sourceDescription) blocks
        (some existing) →
      Records sha env blocks
        (.enqueueGuarded lockMode instanceId content groupId name sourceDescription mode)
        (.error (.episodeDuplicate existing))
        [daemonEvent env mode .rejected
          (canonicalPayloadHash sha content groupId sourceDescription) existing]
  /-- the backstop records what it knows the duplicate by -/
  | skipped {id : String} {existing payloadHash : Option String} :
      Records sha env blocks (.markSkippedDuplicate id existing payloadHash) (.ok .unit)
        (if pyOr existing "" ≠ "" ∨ pyOr payloadHash "" ≠ "" then
          [backstopEvent env id existing payloadHash]
        else [])

/-- An operation that has inserted its row and returns the id. -/
theorem Step.inserts_ok {sha : Sha256} {st : Step} {id : String} {origin : Origin}
    {h : List (Db × Write)} (hrow : st.newRow sha = some (id, origin))
    (hin : h.flatMap inserted = [(id, origin)]) : st.Inserts sha (.ok (.id id)) h where
  atMost := by
    rw [hin, hrow]
    exact List.prefix_rfl
  returned := by
    rintro id ⟨⟩
    rw [hin, hrow]
    exact ⟨rfl, .inl rfl⟩
  raised := by rintro e ⟨⟩

/-- An operation that has inserted nothing and returns no id. -/
theorem Step.inserts_nil {sha : Sha256} {st : Step} {r : Except QueueError OpResult}
    {h : List (Db × Write)} (hin : h.flatMap inserted = []) (hr : ∀ id, r ≠ .ok (.id id)) :
    st.Inserts sha r h where
  atMost := hin ▸ List.nil_prefix
  returned := fun id hok => absurd hok (hr id)
  raised := fun _ _ => hin

/-- What `enqueue` has inserted, by the way it went. -/
theorem EnqueueSends.inserts {sha : Sha256} {env : Env} {args : EnqueueArgs}
    {found : Option String} {r : Except QueueError String} {h : List (Db × Write)}
    (hs : EnqueueSends sha env args found r h) :
    Step.Inserts sha ⟨env, .enqueue args⟩ (r.map OpResult.id) h := by
  cases hs with
  | stored _ hok => exact Step.inserts_ok rfl (by simp [inserted_of_ok hok])
  | detected _ _ hok => exact Step.inserts_ok rfl (by simp [inserted_of_ok hok])
  | taken hobserve herr =>
    refine ⟨?_, ?_, by rintro e ⟨⟩⟩
    · simp [inserted_of_error herr]
    · rintro id ⟨⟩
      refine ⟨rfl, .inr ⟨hobserve, by simp [inserted_of_error herr], _, List.mem_cons_self, ?_⟩⟩
      rw [Db.origins_keys]
      exact Table.mem_keys.mpr
        (Db.insertEpisode_error (args.indexKey_row (by simp [hobserve]) sha env) herr)
  | refused _ _ => exact Step.inserts_nil rfl (by rintro id ⟨⟩)
  | raced _ _ herr => exact Step.inserts_nil (by simp [inserted_of_error herr]) (by rintro id ⟨⟩)
  | clashed _ herr => exact Step.inserts_nil (by simp [inserted_of_error herr]) (by rintro id ⟨⟩)

/-- What it has recorded. -/
theorem EnqueueSends.records {sha : Sha256} {env : Env} {args : EnqueueArgs}
    {found : Option String} {r : Except QueueError String} {blocks : List (Event Db Write)}
    (hs : EnqueueSends sha env args found r (history Write.exec blocks))
    (hfound : args.mode ≠ .off → LookedUp env (args.canonicalHash sha) blocks found) :
    Op.Records sha env blocks (.enqueue args) (r.map OpResult.id)
      ((history Write.exec blocks).flatMap recorded) := by
  have hon : ∀ {mode : DedupMode}, args.mode = mode → mode ≠ .off → args.mode ≠ .off :=
    fun hmode hne => hmode ▸ hne
  generalize hhistory : history Write.exec blocks = h at hs
  cases hs with
  | @stored db a hnone hok =>
    exact .enqueued (fun hne => hnone hne ▸ hfound hne) ⟨db, a, by simp [hhistory], hok⟩
  | @detected db db' a hobserve hdup hok =>
    obtain ⟨existing, rfl⟩ := Option.isSome_iff_exists.mp hdup
    exact .detected hobserve (hfound (hon hobserve nofun)) ⟨db, a, by simp [hhistory], hok⟩
  | taken hobserve herr => exact .taken hobserve ⟨by simp [hhistory], herr⟩
  | refused henforce hdup =>
    obtain ⟨existing, rfl⟩ := Option.isSome_iff_exists.mp hdup
    exact .rejected henforce (hfound (hon henforce nofun))
  | raced henforce hnone herr =>
    subst hnone
    exact .raced henforce (hfound (hon henforce nofun)) ⟨by simp [hhistory], herr⟩
  | clashed hoff herr => exact .clashed hoff ⟨by simp [hhistory], herr⟩

/-- What `enqueue_guarded` has inserted, by the way it went. -/
theorem GuardedSends.inserts {sha : Sha256} {env : Env} {lockMode : LockMode}
    {instanceId content groupId : String} {name : Option String} {sourceDescription : String}
    {mode : DedupMode} {found : Option String} {r : Except QueueError String}
    {h : List (Db × Write)}
    (hs : GuardedSends sha env lockMode instanceId content groupId name sourceDescription mode
      found r h) :
    Step.Inserts sha
      ⟨env, .enqueueGuarded lockMode instanceId content groupId name sourceDescription mode⟩
      (r.map OpResult.id) h := by
  cases hs with
  | locked _ => exact Step.inserts_nil rfl (by rintro id ⟨⟩)
  | stored _ _ hok => exact Step.inserts_ok rfl (by simp [inserted_of_ok hok])
  | detected _ _ _ hok => exact Step.inserts_ok rfl (by simp [inserted_of_ok hok])
  | refused _ _ _ => exact Step.inserts_nil rfl (by rintro id ⟨⟩)
  | raced _ _ herr => exact Step.inserts_nil (by simp [inserted_of_error herr]) (by rintro id ⟨⟩)
  | clashed _ _ _ herr =>
    exact Step.inserts_nil (by simp [inserted_of_error herr]) (by rintro id ⟨⟩)

/-- What it has recorded. An `INSERT` that the index rejects leaves no event there. -/
theorem GuardedSends.records {sha : Sha256} {env : Env} {lockMode : LockMode}
    {instanceId content groupId : String} {name : Option String} {sourceDescription : String}
    {mode : DedupMode} {found : Option String} {r : Except QueueError String}
    {blocks : List (Event Db Write)}
    (hs : GuardedSends sha env lockMode instanceId content groupId name sourceDescription mode
      found r (history Write.exec blocks))
    (hfound : lockMode ≠ .mcpOnly → mode ≠ .off →
      LookedUp env (canonicalPayloadHash sha content groupId sourceDescription) blocks found) :
    Op.Records sha env blocks
      (.enqueueGuarded lockMode instanceId content groupId name sourceDescription mode)
      (r.map OpResult.id) ((history Write.exec blocks).flatMap recorded) := by
  generalize hhistory : history Write.exec blocks = h at hs
  cases hs with
  | locked hlocked => exact .adapterLocked hlocked
  | @stored db a hopen hnone hok =>
    exact .adapterEnqueued hopen (fun hne => hnone hne ▸ hfound hopen hne)
      ⟨db, a, by simp [hhistory], hok⟩
  | @detected db db' a existing hopen hobserve hdup hok =>
    subst hdup hobserve
    exact .adapterDetected hopen rfl (hfound hopen nofun)
      (.inl ⟨rfl, db', a, by simp [hhistory], hok⟩)
  | refused hopen henforce hdup =>
    subst hdup henforce
    exact .adapterRejected hopen rfl (hfound hopen nofun)
  | raced hopen hnone herr =>
    exact .adapterRaced hopen (fun hne => hnone hne ▸ hfound hopen hne)
      ⟨by simp [hhistory], herr⟩
  | @clashed db db' err existing hopen hobserve hdup herr =>
    subst hdup hobserve
    exact .adapterDetected hopen rfl (hfound hopen nofun)
      (.inr ⟨db', err, rfl, by simp [hhistory], herr⟩)

/-! ## The sessions -/

/-- A session of the pool. -/
abbrev QueueSession : Type := Session Step Db Write IntegrityError QueueError OpResult

/-- The rows that a session has inserted. -/
def insertedBy (s : QueueSession) : List (String × Origin) :=
  (history Write.exec s.events).flatMap inserted

/-- The ledger rows that a session has inserted. -/
def recordedBy (s : QueueSession) : List DedupEvent :=
  (history Write.exec s.events).flatMap recorded

/-- **What a session owes** when it is over, with the result `r`: it has inserted what its
operation inserts, and recorded what its operation records. Both are read off the statements
it has sent, with the databases they met. -/
structure addsPost (sha : Sha256) (st : Step) (r : Except QueueError OpResult)
    (events : List (Event Db Write)) : Prop where
  inserts : st.Inserts sha r (history Write.exec events)
  records : st.op.Records sha st.env events r ((history Write.exec events).flatMap recorded)

/-- Statements that are all quiet add nothing. -/
theorem flatMap_of_quiet {events : List (Event Db Write)}
    (h : ∀ ev ∈ events, ∀ w ∈ ev.sent, w.Quiet) :
    (history Write.exec events).flatMap inserted = [] ∧
      (history Write.exec events).flatMap recorded = [] := by
  have hquiet : ∀ x ∈ history Write.exec events, inserted x = [] ∧ recorded x = [] := by
    intro x hx
    obtain ⟨ev, hev, hmet⟩ := List.mem_flatMap.mp hx
    exact h ev hev x.2 (mem_sent_of_met hmet) x.1
  exact ⟨List.flatMap_eq_nil_iff.mpr fun x hx => (hquiet x hx).1,
    List.flatMap_eq_nil_iff.mpr fun x hx => (hquiet x hx).2⟩

/-- A quiet operation, which returns no id, adds nothing. -/
theorem safe_quiet {sha : Sha256} {env : Env} {op : Op} {db : Db} (hdb : db.Disciplined)
    (hquiet : op.isQuiet = true) {α : Type} {p : Sql α} {f : α → OpResult}
    (hscript : op.script sha env = f <$> p) (hf : ∀ a id, f a ≠ .id id) :
    (Step.script sha ⟨env, op⟩).Safe Write.exec Db.Disciplined
      (Event.Faithful Write.exec Db.Disciplined)
      (fun r t => addsPost sha ⟨env, op⟩ r t.events) (.start db []) := by
  have hsends := (safe_disciplined sha ⟨env, op⟩ hdb).sends (sends_quiet sha env hquiet)
    (by rintro ev ⟨⟩) (by rintro w ⟨⟩)
  have hresult : (Step.script sha ⟨env, op⟩).Safe Write.exec Db.Disciplined (fun _ => True)
      (fun r _ => ∃ r', r = Except.map f r') (.start db []) := by
    rw [Step.script, hscript]
    exact safe_map ((Safe.trivial p _).mono fun r _ _ => ⟨r, rfl⟩)
  refine (hsends.and hresult).weaken (fun ev hev => hev.1) ?_
  rintro _ t ⟨⟨-, hsent⟩, r, rfl⟩
  obtain ⟨hin, hrec⟩ := flatMap_of_quiet hsent
  refine ⟨Step.inserts_nil hin fun id => ?_, hrec ▸ .nothing hquiet⟩
  rcases r with e | a
  · rintro ⟨⟩
  · exact fun h => hf a id (Except.ok.inj h)

/-- **Every operation pays its part**, whatever the others do in between. The writers and the
backstop are taken through their scripts; all other operations are quiet. -/
theorem safe_adds (sha : Sha256) (st : Step) {db : Db} (hdb : db.Disciplined) :
    (st.script sha).Safe Write.exec Db.Disciplined (Event.Faithful Write.exec Db.Disciplined)
      (fun r t => addsPost sha st r t.events) (.start db []) := by
  obtain ⟨env, op⟩ := st
  cases op with
  | enqueue args =>
    refine (((sees_enqueueSends sha env args).map OpResult.id).safe hdb).mono ?_
    rintro r t ⟨r', rfl, found, hfound, hs⟩
    exact ⟨hs.inserts, hs.records hfound⟩
  | enqueueGuarded lockMode instanceId content groupId name sourceDescription mode =>
    refine (((sees_guardedSends sha env lockMode instanceId content groupId name sourceDescription
      mode).map OpResult.id).safe hdb).mono ?_
    rintro r t ⟨r', rfl, found, hfound, hs⟩
    exact ⟨hs.inserts, hs.records hfound⟩
  | markSkippedDuplicate id existing payloadHash =>
    refine (((runs_skipSends env id existing payloadHash).map fun _ => OpResult.unit).safe
      hdb).mono ?_
    rintro r t ⟨r', rfl, rfl, hin, hrec⟩
    refine ⟨Step.inserts_nil hin (by rintro id ⟨⟩), ?_⟩
    rw [hrec]
    exact .skipped
  | _ => exact safe_quiet hdb rfl rfl (by rintro a id ⟨⟩)

/-- What is known of the processes after any schedule. -/
theorem sound_adds (sha : Sha256) {db : Db} (hdb : db.Disciplined) (schedule : List (Label Step)) :
    Pool.Sound Write.exec Db.Disciplined (fun _ => Event.Faithful Write.exec Db.Disciplined)
      (addsPost sha) db (runSchedule sha db schedule) :=
  Pool.sound (fun _ _ _ hG => hG.inv) (fun st _ hd => safe_adds sha st hd) hdb schedule

/-- The two readings of a session that is over, by its result and by its script. -/
theorem Ended.session {s : QueueSession} {r : Except QueueError OpResult} (h : Ended s r) :
    s.Ended r := by
  rcases r with e | a
  · exact h
  · exact h

/-- A session that is over has added its part. -/
theorem Ended.adds {sha : Sha256} {db : Db} (hdb : db.Disciplined) {schedule : List (Label Step)}
    {s : QueueSession} (hs : s ∈ (runSchedule sha db schedule).sessions)
    {r : Except QueueError OpResult} (h : Ended s r) : addsPost sha s.tag r s.events :=
  (sound_adds sha hdb schedule).post hs h.session

/-- A block in the log has done what its statements do, one after the other. -/
theorem faithful_log (sha : Sha256) {db : Db} (hdb : db.Disciplined)
    (schedule : List (Label Step)) : ∀ entry ∈ (runSchedule sha db schedule).log,
      entry.2.after = entry.2.sent.foldl Db.apply entry.2.before :=
  (sound_adds sha hdb schedule).faithful fun _ _ hG => hG

section

variable {α : Type} {f : Db → List α} {g : Db × Write → List α}

/-- What only grows holds what it held, and what each session has added. -/
theorem perm_sessions (h : ∀ db w, f (db.apply w) = f db ++ g (db, w)) (sha : Sha256) {db : Db}
    (hdb : db.Disciplined) (schedule : List (Label Step)) :
    (f (runSchedule sha db schedule).disk).Perm (f db ++
      (runSchedule sha db schedule).sessions.flatMap fun s =>
        (history Write.exec s.events).flatMap g) := by
  have hsound := sound_adds sha hdb schedule
  rw [hsound.chained.grows h (faithful_log sha hdb schedule)]
  refine List.Perm.append_left _ ?_
  have hperm : (history Write.exec ((runSchedule sha db schedule).log.map Prod.snd)).Perm
      (history Write.exec ((runSchedule sha db schedule).sessions.flatMap Session.events)) :=
    hsound.events_perm.flatMap_right _
  refine (hperm.flatMap_right g).trans (List.Perm.of_eq ?_)
  simp only [history, List.flatMap_assoc]

/-- What only grows is still there when the schedule goes on. -/
theorem prefix_schedule (h : ∀ db w, f (db.apply w) = f db ++ g (db, w)) (sha : Sha256) {db : Db}
    (hdb : db.Disciplined) (schedule rest : List (Label Step)) :
    f (runSchedule sha db schedule).disk <+: f (runSchedule sha db (schedule ++ rest)).disk :=
  (sound_adds sha hdb schedule).kept (sound_adds sha hdb (schedule ++ rest)) (fun _ _ hG => hG) h

end

/-- What a session has inserted so far is the beginning of what it inserts when it ends. -/
theorem insertedBy_initial (sha : Sha256) {db : Db} (hdb : db.Disciplined)
    (schedule : List (Label Step)) {s : QueueSession}
    (hs : s ∈ (runSchedule sha db schedule).sessions) :
    insertedBy s <+: (s.tag.newRow sha).toList := by
  obtain ⟨i, hi⟩ := List.mem_iff_getElem?.mp hs
  obtain ⟨r, events, hpost, more, rfl⟩ := (sound_adds sha hdb schedule).exists_post hi
  refine List.IsPrefix.trans ?_ hpost.inserts.atMost
  rw [history_append, List.flatMap_append]
  exact List.prefix_append _ _

/-! ## The theorems -/

/-- **Every enqueue counts once.** After any schedule, in which processes may have died at any
point: the episodes are those at the start and those that the sessions have inserted, no two of
them under one id, and whatever happens next they keep what they were inserted with. A session has
inserted nothing but its row; if it has returned an id, an episode is there under it, and that is
its row unless an `observe` call met the id taken; if it has raised, it has inserted nothing. -/
theorem every_enqueue_counts (sha : Sha256) {db : Db} (hdb : db.Disciplined)
    (schedule rest : List (Label Step)) :
    (runSchedule sha db schedule).disk.origins <+:
        (runSchedule sha db (schedule ++ rest)).disk.origins ∧
      ((runSchedule sha db schedule).disk.origins.Perm
        (db.origins ++ (runSchedule sha db schedule).sessions.flatMap insertedBy)) ∧
      ((db.origins ++ (runSchedule sha db schedule).sessions.flatMap insertedBy).map
        Prod.fst).Nodup ∧
      ∀ s ∈ (runSchedule sha db schedule).sessions,
        insertedBy s <+: (s.tag.newRow sha).toList ∧
        (∀ id, Ended s (.ok (.id id)) → (s.tag.newRow sha).map Prod.fst = some id ∧
          id ∈ (runSchedule sha db schedule).disk.origins.map Prod.fst ∧
          (insertedBy s = (s.tag.newRow sha).toList ∨ s.tag.op.observes ∧ insertedBy s = [])) ∧
        ∀ e, Ended s (.error e) → insertedBy s = [] := by
  have hsound := sound_adds sha hdb schedule
  have hperm := perm_sessions Db.origins_apply sha hdb schedule
  refine ⟨prefix_schedule Db.origins_apply sha hdb schedule rest, hperm, ?_, ?_⟩
  · refine (hperm.map Prod.fst).nodup_iff.mp ?_
    rw [Db.origins_keys]
    exact (runSchedule sha db schedule).disk.episodes.nodup
  · intro s hs
    refine ⟨insertedBy_initial sha hdb schedule hs, fun id hended => ?_, fun e hended => ?_⟩
    · obtain ⟨hid, hrow⟩ := (hended.adds hdb hs).inserts.returned id rfl
      refine ⟨hid, ?_, hrow.imp_right fun h => ⟨h.1, h.2.1⟩⟩
      rcases hrow with hrow | ⟨-, -, x, hx, hmem⟩
      · obtain ⟨row, hnew, rfl⟩ := Option.map_eq_some_iff.mp hid
        refine List.mem_map_of_mem (hperm.mem_iff.mpr (List.mem_append_right _ ?_))
        refine List.mem_flatMap.mpr ⟨s, hs, ?_⟩
        rw [hrow, hnew]
        exact List.mem_singleton_self row
      · -- the row it met is still there
        have hkept := hsound.met_subset (fun _ _ hG => hG) Db.origins_apply hs hx
        exact List.map_subset Prod.fst hkept hmem
    · exact (hended.adds hdb hs).inserts.raised e rfl

/-- Two processes look the same payload up before either inserts it; a third one dies before it
has looked anything up. -/
def twoWriters : List (Label Step) :=
  [.start ⟨.at 1, .enqueue { content := "c", episodeId := some "e", mode := .enforce }⟩,
    .start ⟨.at 1, .enqueue { content := "c", episodeId := some "f", mode := .enforce }⟩,
    .start ⟨.at 1, .enqueue { content := "d", episodeId := some "g", mode := .enforce }⟩,
    .block 0, .block 1, .block 0, .block 1, .block 0, .block 1, .block 0, .block 1, .block 1]

/-- Two writers of one payload, of which the index turns one down, and a third. -/
theorem every_enqueue_counts_twoWriters :
    (runSchedule .plain Db.empty twoWriters).disk.origins.Perm
      (Db.empty.origins ++ (runSchedule .plain Db.empty twoWriters).sessions.flatMap insertedBy) :=
  (every_enqueue_counts .plain Db.disciplined_empty twoWriters []).2.1

/-- **The ledger is the record of the duplicates.** After any schedule: the ledger is what it was
and what the sessions have recorded, and whatever happens next it is only added to. A session that
is over has recorded exactly the events of its outcome, which is what its lookup found and what
became of its row; one that is not has recorded the beginning of what some outcome records. -/
theorem ledger_records (sha : Sha256) {db : Db} (hdb : db.Disciplined)
    (schedule rest : List (Label Step)) :
    (runSchedule sha db schedule).disk.dedupEvents <+:
        (runSchedule sha db (schedule ++ rest)).disk.dedupEvents ∧
      ((runSchedule sha db schedule).disk.dedupEvents.Perm
        (db.dedupEvents ++ (runSchedule sha db schedule).sessions.flatMap recordedBy)) ∧
      ∀ s ∈ (runSchedule sha db schedule).sessions,
        (∃ more r events, s.tag.op.Records sha s.tag.env (s.events ++ more) r events ∧
          recordedBy s <+: events) ∧
        ∀ r, Ended s r → s.tag.op.Records sha s.tag.env s.events r (recordedBy s) := by
  have hsound := sound_adds sha hdb schedule
  refine ⟨prefix_schedule Db.dedupEvents_apply sha hdb schedule rest,
    perm_sessions Db.dedupEvents_apply sha hdb schedule, fun s hs => ?_⟩
  obtain ⟨i, hi⟩ := List.mem_iff_getElem?.mp hs
  refine ⟨?_, fun r hended => (hended.adds hdb hs).records⟩
  obtain ⟨r, events, hpost, more, rfl⟩ := hsound.exists_post hi
  refine ⟨more, r, _, hpost.records, ?_⟩
  rw [history_append, List.flatMap_append]
  exact List.prefix_append _ _

/-- The same schedule: the refusal is recorded, and nothing else. -/
theorem ledger_records_twoWriters :
    (runSchedule .plain Db.empty twoWriters).disk.dedupEvents.Perm
      (Db.empty.dedupEvents ++
        (runSchedule .plain Db.empty twoWriters).sessions.flatMap recordedBy) :=
  (ledger_records .plain Db.disciplined_empty twoWriters []).2.1

/-- The second writer is refused by the index, and the ledger says so. -/
example : (runSchedule .plain Db.empty twoWriters).sessions.map (fun s => (recordedBy s).map
    DedupEvent.action) = [[], [.rejected], []] := rfl

end JanusGraph
