import JanusGraph.Queue.Accounting

/-!
# Refusals are justified

A writer that refuses an episode names another one. Between the lookup that found it and the
answer the others go on, so that what is certain is told of a moment of the call: the episode that
is named was active then, with the hash of the payload that is refused. It stays in the table, with
what it was inserted with.

The moment is the beginning of a block, in which the writer sees one database and nobody else
writes. For a refusal by the lookup that is the first block. For one by the index it is the block
of the `INSERT`, and the row that was in the way then is looked up in the same transaction.

There is one refusal with no name, or with that of a row that is no longer active: an `INSERT`
under an id that is taken. In `enforce` mode `enqueue` takes any integrity error for a race, so
that it answers with a duplicate where the primary key was in the way; `Db.Refuses` has a case
for it.
-/

namespace JanusGraph

open Script

/-! ## What a refusal rests on -/

/-- Why an insert under `id` is refused in `db` with the name of `existing`: an active row holds the
hash, or the id is taken. -/
def Db.Refuses (db : Db) (rank : String → ℕ) (payloadHash id : String) (existing : Option String) :
    Prop :=
  (∃ holder, existing = some holder ∧ db.activeDuplicate rank payloadHash = some holder) ∨
    (∃ e, db.episodes.get? id = some e) ∧ existing = db.holder rank payloadHash

variable {env : Env}

/-- **What a rejected insert rests on.** It is refused for what the index or the primary key
found. The holder is looked up in the database that rejected it. -/
theorem Db.refuses_of_rejected {db : Db} (rank : String → ℕ) {id hash : String} {e : Episode}
    {err : IntegrityError} (hhash : e.canonicalHash = some hash)
    (hexec : Write.exec (.insertEpisode id e) db = .error err) :
    db.Refuses rank hash id (db.holder rank hash) := by
  rcases hactive : db.activeDuplicate rank hash with _ | holder
  · cases err with
    | uniqueIndex =>
      obtain ⟨holder, hholder⟩ := activeDuplicate_of_conflict rank hhash hexec
      rw [hactive] at hholder
      cases hholder
    | primaryKey =>
      simp only [Write.exec] at hexec
      split at hexec
      · next htaken => exact .inr ⟨Option.isSome_iff_exists.mp htaken, rfl⟩
      · split at hexec
        · cases hexec
        · cases hexec
  · exact .inl ⟨holder, by rw [Db.holder, hactive]; rfl, hactive⟩

/-- A refusal names an episode that holds the hash. -/
theorem Db.Refuses.holds {db : Db} {rank : String → ℕ} {payloadHash id holder : String}
    (h : db.Refuses rank payloadHash id (some holder)) :
    ∃ e, db.episodes.get? holder = some e ∧ e.holds payloadHash = true := by
  have hactive : db.activeDuplicate rank payloadHash = some holder →
      ∃ e, db.episodes.get? holder = some e ∧ e.holds payloadHash = true := by
    intro hfound
    obtain ⟨e, he, hp, -⟩ := Db.newest_spec hfound
    exact ⟨e, he, (Bool.and_eq_true_iff.mp hp).1⟩
  rcases h with ⟨holder', hholder, hfound⟩ | ⟨-, hholder⟩
  · obtain rfl := Option.some.inj hholder
    exact hactive hfound
  · rcases hfound : db.activeDuplicate rank payloadHash with _ | holder'
    · rw [Db.holder, hfound] at hholder
      obtain ⟨e, he, hp, -⟩ := Db.newest_spec hholder.symm
      exact ⟨e, he, hp⟩
    · rw [Db.holder, hfound] at hholder
      obtain rfl := Option.some.inj hholder
      exact hactive hfound

/-! ## What the two writers have seen -/

/-- The episode that a refusal names, if it knows one. -/
def QueueError.refusal : QueueError → Option (Option String)
  | .duplicateEpisode existing _ => some existing
  | .episodeDuplicate existing => some (some existing)
  | _ => none

/-- A writer of the row `id` that raises a refusal has seen what it rests on. -/
def Justified (env : Env) (payloadHash id : String) {α : Type} (r : Except QueueError α)
    (blocks : List (Event Db Write)) : Prop :=
  ∀ e existing, r = .error e → e.refusal = some existing →
    ∃ ev ∈ blocks, ev.before.Refuses env.rank payloadHash id existing

section

variable {α β : Type} {payloadHash id : String} {r : Except QueueError α}
  {blocks blocks' : List (Event Db Write)}

/-- A call that returns refuses nothing. -/
theorem justified_ok (a : α) :
    Justified env payloadHash id (.ok a : Except QueueError α) blocks := by
  rintro e existing ⟨⟩

/-- What has happened before the refusal does not make it less justified. -/
theorem Justified.append_left (h : Justified env payloadHash id r blocks) :
    Justified env payloadHash id r (blocks' ++ blocks) :=
  fun e existing hr he =>
    have ⟨ev, hev, hrefuses⟩ := h e existing hr he
    ⟨ev, List.mem_append_right _ hev, hrefuses⟩

/-- What is returned does not matter. -/
theorem Justified.of_map {f : α → β} (h : Justified env payloadHash id r blocks) :
    Justified env payloadHash id (r.map f) blocks := by
  rcases r with e | a
  · exact fun e' existing he => h e' existing (by cases he; rfl)
  · exact justified_ok (f a)

end

/-- **`enqueue`**: the lookup finds the holder, or the index does. -/
theorem sees_enqueue (sha : Sha256) (env : Env) (args : EnqueueArgs) :
    Sees Write.exec Db.Disciplined (enqueue sha env args)
      (Justified env (args.canonicalHash sha) (args.epId env)) := by
  have hid : args.epId env ≠ "" := pyOr_ne env.uuid_ne
  have hhash := args.canonicalHash_ne sha
  have hlog : ∀ action existing, Sees Write.exec Db.Disciplined (recordDedupEventSync env args.mode
      action (some (args.canonicalHash sha)) existing (some (args.epId env)))
      fun r _ => Completes r :=
    fun action existing => (runs_record _).sees.mono fun _ _ hr => hr.1
  unfold enqueue
  dsimp only
  split
  · refine (runs_insert_none env hid _ env.now .off _).sees.bind
      (fun _ _ _ => sees_ret (justified_ok _)) ?_
    rintro e blocks ⟨db, -, ⟨a, -, hr⟩ | ⟨e', -, hr⟩⟩ err existing herr hrefusal
    · cases hr
    · obtain rfl := Except.error.inj hr
      obtain rfl := Except.error.inj herr
      cases hrefusal
  · refine (sees_findActiveDuplicate env hhash).bind ?_ (by rintro e blocks ⟨ev, hr, -⟩; cases hr)
    rintro duplicateOf blocks ⟨-, ⟨⟩, ⟨ev, hfirst, rfl⟩, -⟩
    have hev : ev ∈ blocks := List.mem_of_head? hfirst
    split
    · next hrefused =>
      -- the lookup is what the refusal rests on
      refine (hlog _ _).bind (fun _ more _ => sees_fail ?_) (by rintro e more ⟨a, ha⟩; cases ha)
      obtain ⟨holder, hholder⟩ := Option.isSome_iff_exists.mp hrefused.2
      rintro e existing ⟨⟩ ⟨⟩
      exact ⟨ev, by simp [hev], .inl ⟨holder, hholder, hholder⟩⟩
    · refine (runs_insert_some env hid _ env.now hhash _).sees.attempt.bind ?_
        (by rintro e more ⟨r', hr, -⟩; cases hr)
      rintro _ more ⟨r, ⟨⟩, db, hhistory, ⟨a, hok, rfl⟩ | ⟨e, hrejected, rfl⟩⟩
      · dsimp only
        split
        · exact (hlog _ _).bind (fun _ _ _ => sees_ret (justified_ok _))
            (by rintro e more ⟨a, ha⟩; cases ha)
        · exact sees_ret (justified_ok _)
      · dsimp only
        split
        · -- the index is what it rests on
          obtain ⟨ev', hev', rfl, -⟩ := event_of_history hhistory
          refine (hlog _ _).bind (fun _ rest _ => sees_fail ?_) (by rintro e rest ⟨a, ha⟩; cases ha)
          rintro err existing ⟨⟩ ⟨⟩
          refine ⟨ev', by simp [hev'], ?_⟩
          exact Db.refuses_of_rejected env.rank rfl hrejected
        · exact (hlog _ _).bind (fun _ _ _ => sees_ret (justified_ok _))
            (by rintro e more ⟨a, ha⟩; cases ha)

/-- The adapter names an active episode only. -/
theorem adapterError_refuses {db : Db} {rank : String → ℕ} {payloadHash id : String}
    {err : IntegrityError} {existing : Option String}
    (h : (adapterError err (db.activeDuplicate rank payloadHash)).refusal = some existing) :
    db.Refuses rank payloadHash id existing := by
  rcases hfound : db.activeDuplicate rank payloadHash with _ | holder
  · rw [hfound] at h
    cases h
  · rw [hfound, adapterError] at h
    split at h
    · cases h
    · obtain rfl := Option.some.inj h
      exact .inl ⟨holder, rfl, hfound⟩

/-- **`enqueue_guarded`**, the same for the daemon. What its lookup after a rejected `INSERT`
does not find, it raises as the error it was. -/
theorem sees_enqueueGuarded (sha : Sha256) (env : Env) (lockMode : LockMode)
    (instanceId content groupId : String) (name : Option String) (sourceDescription : String)
    (mode : DedupMode) :
    Sees Write.exec Db.Disciplined
      (enqueueGuarded sha env lockMode instanceId content groupId name sourceDescription mode)
      (Justified env (canonicalPayloadHash sha content groupId sourceDescription) env.uuid) := by
  have hhash : canonicalPayloadHash sha content groupId sourceDescription ≠ "" :=
    sha.hexdigest_ne _
  have hinsert : Sees Write.exec Db.Disciplined (insertWithHashSync env content groupId name
      sourceDescription (canonicalPayloadHash sha content groupId sourceDescription)
      (some instanceId) mode)
      (Justified env (canonicalPayloadHash sha content groupId sourceDescription) env.uuid) := by
    refine (runs_guardedInsert sha env instanceId content groupId name sourceDescription
      mode).sees.mono ?_
    rintro r blocks ⟨db, hhistory, ⟨a, -, rfl⟩ | ⟨err, hrejected, rfl⟩⟩
    · exact justified_ok _
    · obtain ⟨ev, hev, rfl, -⟩ := event_of_history hhistory
      rintro e existing ⟨⟩ hrefusal
      exact ⟨ev, hev, adapterError_refuses hrefusal⟩
  have hlog : ∀ action existing, Sees Write.exec Db.Disciplined (adapterRecordDedupEvent env mode
      action (canonicalPayloadHash sha content groupId sourceDescription) existing)
      fun r _ => Completes r :=
    fun action existing => (runs_record _).sees.mono fun _ _ hr => hr.1
  unfold enqueueGuarded
  split
  · exact sees_fail (by rintro e existing ⟨⟩ ⟨⟩)
  · dsimp only
    split
    · exact hinsert
    · refine (sees_findActiveDuplicate env hhash).bind ?_
        (by rintro e blocks ⟨ev, hr, -⟩; cases hr)
      rintro (_ | holder) blocks ⟨-, ⟨⟩, ⟨ev, hfirst, hfound⟩, -⟩
      · exact hinsert.mono fun _ _ hr => hr.append_left
      · dsimp only
        split
        · refine (hlog _ _).bind (fun _ more _ => sees_fail ?_) (by rintro e more ⟨a, ha⟩; cases ha)
          rintro e existing ⟨⟩ ⟨⟩
          exact ⟨ev, by simp [List.mem_of_head? hfirst], .inl ⟨holder, rfl, hfound⟩⟩
        · refine (hlog _ _).bind (fun _ more _ => ?_) (by rintro e more ⟨a, ha⟩; cases ha)
          exact hinsert.mono fun _ _ hr => hr.append_left.append_left

/-! ## The sessions -/

/-- The session of a writer that is over has seen what its refusal rests on. -/
def refusalPost (sha : Sha256) (st : Step) (r : Except QueueError OpResult)
    (events : List (Event Db Write)) : Prop :=
  ∀ id origin, st.newRow sha = some (id, origin) →
    ∃ payloadHash, origin.canonicalHash = some payloadHash ∧
      Justified st.env payloadHash id r events

/-- The row of a call carries the hash of its payload. -/
theorem EnqueueArgs.canonicalHash_row (args : EnqueueArgs) (sha : Sha256) (env : Env) :
    (args.row sha env).canonicalHash = some (args.canonicalHash sha) := by
  unfold row
  split <;> rfl

/-- **Whatever the others do, a writer refuses for what it has seen.** The other operations
refuse nothing. -/
theorem safe_refusals (sha : Sha256) (st : Step) {db : Db} (hdb : db.Disciplined) :
    (st.script sha).Safe Write.exec Db.Disciplined (Event.Faithful Write.exec Db.Disciplined)
      (fun r t => refusalPost sha st r t.events) (.start db []) := by
  obtain ⟨env, op⟩ := st
  cases op with
  | enqueue args =>
    refine (((sees_enqueue sha env args).map OpResult.id).safe hdb).mono ?_
    rintro _ t ⟨r, rfl, hjustified⟩ id origin ⟨⟩
    exact ⟨_, args.canonicalHash_row sha env, hjustified.of_map⟩
  | enqueueGuarded lockMode instanceId content groupId name sourceDescription mode =>
    refine (((sees_enqueueGuarded sha env lockMode instanceId content groupId name
      sourceDescription mode).map OpResult.id).safe hdb).mono ?_
    rintro _ t ⟨r, rfl, hjustified⟩ id origin ⟨⟩
    exact ⟨_, rfl, hjustified.of_map⟩
  | _ =>
    refine (safe_adds sha _ hdb).mono fun r t _ => ?_
    rintro id origin ⟨⟩

/-- Every session of a schedule is one of these calls, or refuses nothing. -/
theorem sound_refusals (sha : Sha256) {db : Db} (hdb : db.Disciplined)
    (schedule : List (Label Step)) :
    Pool.Sound Write.exec Db.Disciplined (fun _ => Event.Faithful Write.exec Db.Disciplined)
      (refusalPost sha) db (runSchedule sha db schedule) :=
  Pool.sound (fun _ _ _ hG => hG.inv) (fun st _ hd => safe_refusals sha st hd) hdb schedule

/-- **Refusals are justified.** After any schedule: a writer that has refused its row has begun a
block in a database in which the episode it names was active with the hash of the row, or in which
the id of the row was taken. The episode it names held the hash, and is in the table for good, as
what it was inserted as. -/
theorem refusals_justified (sha : Sha256) {db : Db} (hdb : db.Disciplined)
    (schedule rest : List (Label Step)) {s : QueueSession}
    (hs : s ∈ (runSchedule sha db schedule).sessions) {e : QueueError} (hended : Ended s (.error e))
    {existing : Option String} (hrefusal : e.refusal = some existing) {id : String}
    {origin : Origin} (hrow : s.tag.newRow sha = some (id, origin)) :
    ∃ payloadHash, origin.canonicalHash = some payloadHash ∧ ∃ ev ∈ s.events,
      ev.before.Refuses s.tag.env.rank payloadHash id existing ∧
      ∀ holder, existing = some holder → ∃ e, ev.before.episodes.get? holder = some e ∧
        e.holds payloadHash = true ∧
        (holder, e.origin) ∈ (runSchedule sha db (schedule ++ rest)).disk.origins := by
  have hsound := sound_refusals sha hdb schedule
  obtain ⟨payloadHash, hhash, hjustified⟩ := hsound.post hs hended.session id origin hrow
  obtain ⟨ev, hev, hrefuses⟩ := hjustified e existing rfl hrefusal
  refine ⟨payloadHash, hhash, ev, hev, hrefuses, ?_⟩
  rintro holder rfl
  obtain ⟨row, hget, hholds⟩ := hrefuses.holds
  refine ⟨row, hget, hholds, ?_⟩
  have hkept := (prefix_schedule Db.origins_apply sha hdb schedule rest).subset
  refine hkept (hsound.before_subset (fun _ _ hG => hG) Db.origins_apply hs hev ?_)
  exact List.mem_map.mpr ⟨(holder, row), Table.mem_rows.mpr hget, rfl⟩

/-- The writer that loses the race is refused in the name of the one that wins it. -/
theorem refusals_justified_twoWriters :
    ∃ s ∈ (runSchedule .plain Db.empty twoWriters).sessions, ∃ ev ∈ s.events, ∃ e,
      ev.before.episodes.get? "e" = some e ∧
        ("e", e.origin) ∈ (runSchedule .plain Db.empty (twoWriters ++ [])).disk.origins := by
  have hs := List.get_mem (runSchedule .plain Db.empty twoWriters).sessions ⟨1, by decide⟩
  have hended : Ended ((runSchedule .plain Db.empty twoWriters).sessions.get ⟨1, by decide⟩)
      (.error (.duplicateEpisode (some "e") (({ content := "c", mode := .enforce } :
        EnqueueArgs).canonicalHash .plain))) := rfl
  obtain ⟨hash, -, ev, hev, -, hfound⟩ :=
    refusals_justified .plain Db.disciplined_empty twoWriters [] hs hended rfl rfl
  obtain ⟨e, hget, -, hkept⟩ := hfound "e" rfl
  exact ⟨_, hs, ev, hev, e, hget, hkept⟩

end JanusGraph
