import JanusGraph.Queue.DeadLetters

/-!
# What the rows of a run have in common

A row comes from one of the two writers. After that it is claimed, or one of the updates rewrites
its columns. What is true of the inserted rows and stays then is true of all rows of a run
(`runSteps_rows`). Every time that is written is the one at which the operation started.

The two halves of that are proved on different views of an operation. The rows that are there
already are followed through `Move`, slot by slot (`Move.rows`). The rows that are new are
followed through the statements of the two writers: each of them is a ledger row or an episode
of which the property is true (`Write.Brings`), and a statement of that kind keeps the property
of the table.

`RowInvariant` asks for the property of an inserted row with any legacy hash, any writer and any
mode, but with the payload and the canonical hash that belong together, as both writers have it.
-/

namespace JanusGraph

/-- `Q` is true of the rows that are inserted at `now`, and stays. -/
structure RowInvariant (sha : Sha256) (now : ℕ) (Q : Episode → Prop) : Prop where
  inserted : ∀ content groupId name sourceDescription payloadHash claimedBy gate,
    Q (newEpisode (Payload.mk content groupId name sourceDescription).dumps now payloadHash
      claimedBy (some (canonicalPayloadHash sha content groupId sourceDescription)) gate)
  claimed : ∀ e, Q e → Q (e.claim now)
  updated : ∀ (u : EpisodeUpdate) e, u.now = now → Q e → Q (u.set e)

/-- `Q` is true of all rows. -/
def Db.Rows (Q : Episode → Prop) (db : Db) : Prop := ∀ id e, db.episodes.get? id = some e → Q e

/-! ## The operations that enqueue nothing -/

/-- An operation that enqueues nothing keeps the property of a slot. -/
theorem Move.rows {env : Env} {id : String} {op : Op} {s s' : Slot} (h : Move env id op s s')
    (hop : op.isEnqueue = false) {sha : Sha256} {Q : Episode → Prop}
    (hQ : RowInvariant sha env.now Q) (hs : ∀ e, s.episode = some e → Q e) :
    ∀ e, s'.episode = some e → Q e := by
  intro e' he'
  rcases hbefore : s.episode with _ | e
  · rw [h.eq_none hop hbefore] at he'
    cases he'
  · obtain ⟨e'', he'', hbecomes⟩ := h.becomes hbefore
    obtain rfl := Option.some.inj (he''.symm.trans he')
    have he := hs e hbefore
    rcases hbecomes with rfl | rfl | ⟨u, hu, rfl⟩
    · exact he
    · exact hQ.claimed e he
    · exact hQ.updated u e hu he

/-! ## The writers -/

/-- A ledger row, or an episode of which `Q` is true. -/
def Write.Brings (Q : Episode → Prop) (w : Write) : Prop :=
  (∃ ev, w = .insertEvent ev) ∨ ∃ id e, w = .insertEpisode id e ∧ Q e

/-- Neither a ledger row nor such an episode spoils the table. A rejected `INSERT` leaves it
as it is. -/
theorem Write.Brings.keeps {Q : Episode → Prop} {w : Write} (h : w.Brings Q) {db : Db}
    (hdb : db.Rows Q) : (Script.applied Write.exec db w).Rows Q := by
  obtain ⟨ev, rfl⟩ | ⟨id, e, rfl, he⟩ := h
  · exact hdb
  · rcases hexec : Write.exec (.insertEpisode id e) db with err | ⟨n, db'⟩
    · rw [Script.applied_error hexec]
      exact hdb
    · rw [Script.applied_ok hexec]
      obtain ⟨-, rfl⟩ := Db.insertEpisode_ok hexec
      intro id' e' he'
      rw [Table.get?_put] at he'
      split at he'
      · obtain rfl := Option.some.inj he'
        exact he
      · exact hdb id' e' he'

section

open Script

variable {sha : Sha256} {env : Env} {Q : Episode → Prop}

/-- A lookup sends nothing, so that any predicate is true of what it sends. -/
theorem sends_findActiveDuplicate (P : Write → Prop) (env : Env) (payloadHash : String) :
    Sends P (findActiveDuplicate env payloadHash) := by
  rw [findActiveDuplicate]
  split
  · exact Prog.only_ret none
  · exact sends_select.bind fun db => Prog.only_ret _

/-- The second lookup sends nothing either. -/
theorem sends_findAnyDuplicate (P : Write → Prop) (env : Env) (payloadHash : String) :
    Sends P (findAnyDuplicate env payloadHash) := by
  rw [findAnyDuplicate]
  split
  · exact Prog.only_ret none
  · exact sends_select.bind fun db => Prog.only_ret _

/-- What goes to the ledger is no episode. -/
theorem sends_recordDedupEvent (ev : DedupEvent) :
    Sends (Write.Brings Q) (recordDedupEvent ev) := by
  refine Sends.withConn ((sends_tryWrite (.inl ⟨ev, rfl⟩)).bind ?_)
  rintro (e | n)
  · exact Prog.only_ret ()
  · exact sends_commit

/-- `_insert_sync` sends one row, whether it is accepted or not. -/
theorem sends_insertSync (hQ : RowInvariant sha env.now Q) (id content groupId name
    sourceDescription : String) (payloadHash : Option String) (gate : DedupMode) :
    Sends (Write.Brings Q) (insertSync env id
      (Payload.mk content groupId name sourceDescription).dumps env.now payloadHash gate
      (some (canonicalPayloadHash sha content groupId sourceDescription))) := by
  have hrow : ∀ payloadHash claimedBy, Write.Brings Q (.insertEpisode id (newEpisode
      (Payload.mk content groupId name sourceDescription).dumps env.now payloadHash claimedBy
      (some (canonicalPayloadHash sha content groupId sourceDescription)) gate)) :=
    fun _ _ => .inr ⟨id, _, rfl, hQ.inserted _ _ _ _ _ _ _⟩
  refine Sends.withConn ?_
  rcases payloadHash with _ | hash
  · refine Prog.Only.bind (Prog.Only.bind (sends_tryWrite (hrow _ _)) ?_) fun _ => sends_commit
    rintro (e | n)
    · exact Prog.only_fail _
    · exact Prog.only_ret _
  · refine (sends_tryWrite (hrow _ _)).bind ?_
    rintro (e | n)
    · refine (sends_findActiveDuplicate _ env hash).bind ?_
      rintro (_ | existing)
      · exact (sends_findAnyDuplicate _ env hash).bind fun _ => Prog.only_fail _
      · exact Prog.only_fail _
    · exact sends_commit

/-- **`enqueue`** brings no row but its own. -/
theorem sends_enqueue (hQ : RowInvariant sha env.now Q) (args : EnqueueArgs) :
    Sends (Write.Brings Q) (enqueue sha env args) := by
  have hinsert := sends_insertSync hQ (args.epId env) args.content args.groupId
    (args.payload env).name args.sourceDescription
  rw [enqueue]
  split
  · exact (hinsert none .off).bind fun _ => Prog.only_ret _
  · refine (sends_findActiveDuplicate _ env _).withConn.bind fun duplicateOf => ?_
    split
    · exact (sends_recordDedupEvent _).bind fun _ => Prog.only_fail _
    · refine (hinsert _ _).attempt.bind ?_
      rintro (e | _)
      · cases e with
        | duplicateRace existing hash =>
          dsimp only
          split
          · exact (sends_recordDedupEvent _).bind fun _ => Prog.only_fail _
          · exact (sends_recordDedupEvent _).bind fun _ => Prog.only_ret _
        | _ => exact Prog.only_fail _
      · dsimp only
        split
        · exact (sends_recordDedupEvent _).bind fun _ => Prog.only_ret _
        · exact Prog.only_ret _

/-- `_insert_with_hash_sync` sends one row, too. -/
theorem sends_insertWithHashSync (hQ : RowInvariant sha env.now Q) (content groupId : String)
    (name : Option String) (sourceDescription : String) (claimedBy : Option String)
    (mode : DedupMode) :
    Sends (Write.Brings Q) (insertWithHashSync env content groupId name sourceDescription
      (canonicalPayloadHash sha content groupId sourceDescription) claimedBy mode) := by
  refine Sends.withConn ((sends_tryWrite
    (.inr ⟨_, _, rfl, hQ.inserted _ _ _ _ _ _ _⟩)).bind ?_)
  rintro (e | n)
  · refine (sends_findActiveDuplicate _ env _).bind ?_
    rintro (_ | existing)
    · exact Prog.only_fail _
    · dsimp only
      split
      · exact Prog.only_fail _
      · exact Prog.only_fail _
  · exact sends_commit.bind fun _ => Prog.only_ret _

/-- **`enqueue_guarded`** brings no row but its own. -/
theorem sends_enqueueGuarded (hQ : RowInvariant sha env.now Q) (lockMode : LockMode)
    (instanceId content groupId : String) (name : Option String) (sourceDescription : String)
    (mode : DedupMode) :
    Sends (Write.Brings Q) (enqueueGuarded sha env lockMode instanceId content groupId name
      sourceDescription mode) := by
  have hinsert := sends_insertWithHashSync hQ content groupId name sourceDescription
    (some instanceId) mode
  rw [enqueueGuarded]
  split
  · exact Prog.only_fail _
  · dsimp only
    split
    · exact hinsert
    · refine (sends_findActiveDuplicate _ env _).withConn.bind ?_
      rintro (_ | existing)
      · exact hinsert
      · dsimp only
        split
        · exact (sends_recordDedupEvent _).bind fun _ => Prog.only_fail _
        · exact (sends_recordDedupEvent _).bind fun _ => hinsert

end

/-! ## Runs -/

/-- **Step.** An invariant of rows is kept by every operation: by the writers for the rows
they bring, by the others for the rows they find. -/
theorem Step.rows {sha : Sha256} {st : Step} {Q : Episode → Prop}
    (hQ : RowInvariant sha st.env.now Q) {db : Db} (h : db.Rows Q) : (st.exec sha db).Rows Q := by
  obtain ⟨env, op⟩ := st
  rcases hop : op.isEnqueue with _ | _
  · intro id e he
    exact (Step.move sha ⟨env, op⟩ db id).rows hop hQ (h id) e he
  · have hkeeps : ∀ w, Write.Brings Q w → ∀ db, Db.Rows Q db →
        (Script.applied Write.exec db w).Rows Q := fun w hw db hdb => hw.keeps hdb
    cases op with
    | enqueue args =>
      exact Script.Sends.exec (Prog.Only.bind (sends_enqueue hQ args) fun _ => Prog.only_ret _)
        hkeeps h
    | enqueueGuarded lockMode instanceId content groupId name sourceDescription mode =>
      exact Script.Sends.exec (Prog.Only.bind (sends_enqueueGuarded hQ lockMode instanceId content
        groupId name sourceDescription mode) fun _ => Prog.only_ret _) hkeeps h
    | _ => cases hop

/-- **Run.** So it is true of all rows of a serial run whose steps it holds of. -/
theorem runSteps_rows {sha : Sha256} {Q : Episode → Prop} {steps : List Step}
    (hQ : ∀ st ∈ steps, RowInvariant sha st.env.now Q) {db : Db} (h : db.Rows Q) :
    (runSteps sha db steps).Rows Q := by
  induction steps generalizing db with
  | nil => exact h
  | cons st steps ih =>
    obtain ⟨hst, hsteps⟩ := List.forall_mem_cons.mp hQ
    exact ih hsteps (Step.rows hst h)

end JanusGraph
