import JanusGraph.Queue.Effect

/-!
# What an enqueue promises

`enqueue` returns an id when it has inserted a row, and in one more case: in
`observe` mode every integrity error of the `INSERT` is taken for a race with
another writer of the same payload, whose row will do. A row of that mode is never
in the scope of the unique index, so the only error it can meet is the primary key,
and the row that is there under the id may hold anything.

`enqueue` is read off its outcome when it runs alone (`EnqueueArgs.outcome_ok`). In `enforce`
mode a rejected `INSERT` is an exception, with no mode it is raised as it is, and in `observe`
mode the call returns its id whatever has happened (`EnqueueArgs.outcome_observe`).
-/

namespace JanusGraph

/-- The columns a writer inserts are queued, with the payload of the call. -/
theorem EnqueueArgs.row_stored (args : EnqueueArgs) (sha : Sha256) (env : Env) :
    (args.row sha env).status = .queued ∧
      (args.row sha env).payloadJson = (args.payload env).dumps := by
  unfold row
  split <;> exact ⟨rfl, rfl⟩

/-- Outside `enforce` mode the row is not in the scope of the unique index. -/
theorem EnqueueArgs.indexKey_row {args : EnqueueArgs} (h : args.mode ≠ .enforce) (sha : Sha256)
    (env : Env) : (args.row sha env).indexKey = none := by
  refine Episode.indexKey_of_gate ?_
  unfold row
  split
  · simp [newEpisode]
  · intro hgate
    exact h (Option.some.inj hgate)

/-- An `INSERT` out of the scope of the index is rejected by the primary key only. -/
theorem Db.insertEpisode_error {db : Db} {id : String} {e : Episode} {err : IntegrityError}
    (hkey : e.indexKey = none) (h : Write.exec (.insertEpisode id e) db = .error err) :
    ∃ e', db.episodes.get? id = some e' := by
  refine Option.isSome_iff_exists.mp ?_
  by_contra hnone
  simp [Write.exec, hnone, Db.conflicts_of_indexKey_none hkey] at h

/-- The call loses nothing: if it returns an id, that is the id of a queued row with
exactly the payload of the call. -/
def EnqueueArgs.Stored (args : EnqueueArgs) (sha : Sha256) (env : Env) (db : Db) : Prop :=
  ∀ id, (enqueue sha env args).result Write.exec db = .ok id →
    ∃ e, ((enqueue sha env args).exec Write.exec db).episodes.get? id = some e ∧
      e.status = .queued ∧ e.payloadJson = (args.payload env).dumps

/-- A call that returns has inserted its row, or it is an `observe` call that met a
row under its id and left it as it was. -/
theorem EnqueueArgs.outcome_ok {args : EnqueueArgs} {sha : Sha256} {env : Env} {db : Db}
    {id : String} (h : (args.outcome sha env db).1 = .ok id) :
    id = args.epId env ∧
      (db.episodes.get? id = none ∧
          (args.outcome sha env db).2.episodes = db.episodes.put id (args.row sha env) ∨
        args.mode = .observe ∧ (∃ e, db.episodes.get? id = some e) ∧
          (args.outcome sha env db).2.episodes = db.episodes) := by
  rcases hmode : args.mode with _ | _ | _ <;>
    rcases hins : Write.exec (.insertEpisode (args.epId env) (args.row sha env)) db
      with err | ⟨n, db'⟩ <;>
    simp only [outcome, hmode, hins] at h ⊢
  · -- off, rejected: raised
    cases h
  · obtain rfl := Except.ok.inj h
    obtain ⟨hnone, rfl⟩ := Db.insertEpisode_ok hins
    exact ⟨rfl, Or.inl ⟨hnone, rfl⟩⟩
  · -- observe, rejected: the id is returned
    obtain rfl := Except.ok.inj h
    have hkey := indexKey_row (by rw [hmode]; decide) sha env
    exact ⟨rfl, Or.inr ⟨trivial, Db.insertEpisode_error hkey hins, rfl⟩⟩
  · obtain rfl := Except.ok.inj h
    obtain ⟨hnone, rfl⟩ := Db.insertEpisode_ok hins
    refine ⟨rfl, Or.inl ⟨hnone, ?_⟩⟩
    split <;> rfl
  · -- enforce, rejected: raised, whatever the lookup said
    split at h <;> cases h
  · split at h
    · cases h
    · rename_i hnew
      obtain rfl := Except.ok.inj h
      obtain ⟨hnone, rfl⟩ := Db.insertEpisode_ok hins
      rw [if_neg hnew]
      exact ⟨rfl, Or.inl ⟨hnone, rfl⟩⟩

/-- An `observe` call always returns its id. -/
theorem EnqueueArgs.outcome_observe {args : EnqueueArgs} (h : args.mode = .observe) (sha : Sha256)
    (env : Env) (db : Db) : (args.outcome sha env db).1 = .ok (args.epId env) := by
  rcases hins : Write.exec (.insertEpisode (args.epId env) (args.row sha env)) db
    with err | ⟨n, db'⟩ <;>
  simp only [outcome, h, hins]

/-- **No lost enqueue, exactly.** A call loses nothing if and only if it is not an `observe`
call that meets its id in the table with another payload, or no longer queued. In the other
two modes a rejected row is an exception; this one takes it for a race with a writer of the
same payload. -/
theorem enqueue_stored_iff (sha : Sha256) (env : Env) (args : EnqueueArgs) (db : Db) :
    args.Stored sha env db ↔
      (args.mode = .observe → ∀ e, db.episodes.get? (args.epId env) = some e →
        e.status = .queued ∧ e.payloadJson = (args.payload env).dumps) := by
  unfold EnqueueArgs.Stored
  rw [Script.result_eq (run_enqueue sha env args db), Script.exec_eq (run_enqueue sha env args db),
    Conn.idle_disk]
  constructor
  · intro hstored hobserve e he
    have hret := EnqueueArgs.outcome_observe hobserve sha env db
    obtain ⟨e', he', hqueued, hpayload⟩ := hstored _ hret
    obtain ⟨-, ⟨hnone, -⟩ | ⟨-, -, hsame⟩⟩ := EnqueueArgs.outcome_ok hret
    · rw [hnone] at he
      cases he
    · rw [hsame, he] at he'
      obtain rfl := Option.some.inj he'
      exact ⟨hqueued, hpayload⟩
  · intro hcond id hret
    obtain ⟨rfl, ⟨-, hput⟩ | ⟨hobserve, ⟨e, he⟩, hsame⟩⟩ := EnqueueArgs.outcome_ok hret
    · obtain ⟨hqueued, hpayload⟩ := args.row_stored sha env
      exact ⟨args.row sha env, by rw [hput, Table.get?_put_self], hqueued, hpayload⟩
    · exact ⟨e, by rw [hsame, he], hcond hobserve e he⟩

/-- An `observe` call under an id that is taken: its content is nowhere, and the id
is returned as if it were. -/
theorem not_enqueue_stored :
    ¬ ({ content := "new", episodeId := some "e", mode := .observe } : EnqueueArgs).Stored .plain
      (.at 2) (runSteps .plain Db.empty
        [⟨.at 1, .enqueue { content := "old", episodeId := some "e", mode := .observe }⟩]) := by
  intro hstored
  obtain ⟨e, he, -, hpayload⟩ := hstored "e" rfl
  obtain rfl := Option.some.inj he
  have hcontent := congrArg Payload.content (Payload.dumps_injective hpayload)
  exact absurd hcontent (by decide)

end JanusGraph
