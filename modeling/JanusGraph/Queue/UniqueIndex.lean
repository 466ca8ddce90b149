import JanusGraph.Queue.IndexDiscipline

/-!
# The discipline of the unique index

Any number of processes run any operations, in any interleaving of their statements.
The index stays distinct; every requeue gets its turn, and a rejected one changes
nothing else; and no operation raises the index's error untranslated, unless the
update of a claim meets an episode that has left the queue since it was selected,
while its hash has been taken by another row.

The sessions of a schedule are put together from what each operation does among the others
(`IndexDiscipline.lean`). `Runs.safe` and `Runs.safe_turns` turn the judgement about a script
into one about a session, `safe_disciplined` is the list of all operations, and
`sound_disciplined` is what then holds of the disk, of every entry of the log and of every
session after any schedule.
-/

namespace JanusGraph

open Script

/-- At most one row per canonical hash is enforced and queued or processing. -/
def Db.OneActivePerHash (db : Db) : Prop :=
  ∀ id id' e e' hash, db.episodes.get? id = some e → db.episodes.get? id' = some e' →
    e.canonicalHash = some hash → e'.canonicalHash = some hash →
    e.dedupGate = some .enforce → e'.dedupGate = some .enforce →
    e.status ∈ activeStatuses → e'.status ∈ activeStatuses → id = id'

/-- The session is over, with the result `r`. -/
def Ended (s : Session Step Db Write IntegrityError QueueError OpResult)
    (r : Except QueueError OpResult) : Prop :=
  s.script = match r with
    | .ok a => .ret a
    | .error e => .fail e

/-- What an operation that requeues has done when it is over: it has returned, and
every row it selected has had its turn. A turn is what was sent, with the database it
met; a rejected requeue leaves that database as it was (`Db.apply_update`). -/
def Step.AllTurns (st : Step) (r : Except QueueError OpResult) (h : List (Db × Write)) : Prop :=
  match st.op with
  | .reapStuckProcessing timeoutSec maxAttempts => Completes r ∧
    ∃ (db : Db) (turns : List (List (Db × Write))), h = turns.flatten ∧
      List.Forall₂ (ReapStuckTurn st.env.now maxAttempts) (db.stuckRows st.env timeoutSec) turns
  | .reapFailedOrAborted limit policy => Completes r ∧
    (0 < limit.getD (policy.getD {}).reapLimit →
      ∃ (db : Db) (turns : List (List (Db × Write))), h = turns.flatten ∧
        List.Forall₂ (RequeueTurn st.env.now .resetFailures)
          ((db.reapable st.env.rank (policy.getD {})
            (limit.getD (policy.getD {}).reapLimit)).map Prod.fst) turns)
  | .replayDlqEpisode id _ => Completes r ∧ ReplayEpisodeTurn st.env.now id h
  | .replayDlqBatch limit classes minAgeSec policy => Completes r ∧
    ∃ (db : Db) (turns : List (List (Db × Write))), h = turns.flatten ∧
      List.Forall₂ (ReplayTurn st.env.now)
        (db.replayable st.env (policy.getD {}) classes minAgeSec limit) turns
  | _ => True

/-- A session that is over has raised the index's error only if its claim met it. -/
def indexPost (st : Step) (r : Except QueueError OpResult) (events : List (Event Db Write)) :
    Prop :=
  (NoIndexError r ∨ ∃ ev ∈ events, ∃ ids now, ev.sent = [.claimEpisodes ids now] ∧
    ev.before.rejectsClaim ids now = true) ∧
    st.AllTurns r (history Write.exec events)

/-! ## Every operation -/

variable {α : Type} {p : Sql α} {f : α → OpResult} {db : Db} {st : Step}

theorem NoIndexError.map {r : Except QueueError α} (h : NoIndexError r) :
    NoIndexError (r.map f) := by
  rcases r with e | a
  · intro he
    exact h (congrArg Except.error (Except.error.inj he))
  · rintro ⟨⟩

theorem Completes.map {r : Except QueueError α} (h : Completes r) : Completes (r.map f) := by
  obtain ⟨a, rfl⟩ := h
  exact ⟨f a, rfl⟩

/-- An operation of which only the exceptions matter. -/
theorem Runs.safe (hp : Runs p fun r _ => NoIndexError r)
    (hst : ∀ r h, st.AllTurns r h) (hdb : db.Disciplined) :
    (f <$> p).Safe Write.exec Db.Disciplined (Event.Faithful Write.exec Db.Disciplined)
      (fun r t => indexPost st r t.events) (.start db []) := by
  refine ((hp.map f).safe hdb).mono ?_
  rintro r t ⟨r', rfl, hr⟩
  exact ⟨Or.inl hr.map, hst _ _⟩

/-- An operation that returns, and whose history matters. -/
theorem Runs.safe_turns {T : List (Db × Write) → Prop} (hp : Runs p fun r h => Completes r ∧ T h)
    (hst : ∀ r h, Completes r → T h → st.AllTurns r h) (hdb : db.Disciplined) :
    (f <$> p).Safe Write.exec Db.Disciplined (Event.Faithful Write.exec Db.Disciplined)
      (fun r t => indexPost st r t.events) (.start db []) := by
  refine ((hp.map f).safe hdb).mono ?_
  rintro r t ⟨r', rfl, hr, hT⟩
  exact ⟨Or.inl hr.noIndexError.map, hst _ _ hr.map hT⟩

/-- **Every operation is safe among the others**: each of its blocks keeps the discipline,
and when it is over it has done what `indexPost` and `Step.AllTurns` say. -/
theorem safe_disciplined (sha : Sha256) (st : Step) (hdb : db.Disciplined) :
    (st.script sha).Safe Write.exec Db.Disciplined (Event.Faithful Write.exec Db.Disciplined)
      (fun r t => indexPost st r t.events) (.start db []) := by
  obtain ⟨env, op⟩ := st
  cases op with
  | enqueue args => exact (runs_enqueue sha env args).safe (fun _ _ => trivial) hdb
  | enqueueGuarded lockMode instanceId content groupId name sourceDescription mode =>
    exact (runs_enqueueGuarded sha env lockMode instanceId content groupId name sourceDescription
      mode).safe (fun _ _ => trivial) hdb
  | claimNextBatch limit =>
    have hclaim : Runs (claimNextBatch env limit) (ClaimSends env) :=
      does_claimNextBatch (fun ids now => keeps_claimEpisodes ids now) env limit
    refine ((hclaim.map OpResult.records).safe hdb).mono ?_
    rintro r t ⟨r', rfl, hsends⟩
    refine ⟨?_, trivial⟩
    generalize hh : history Write.exec t.events = h at hsends
    cases hsends with
    | empty => exact Or.inl (by rintro ⟨⟩)
    | claimed => exact Or.inl (by rintro ⟨⟩)
    | @rejected s rows hrej =>
      obtain ⟨ev, hev, rfl, hsent⟩ := event_of_history hh
      exact Or.inr ⟨ev, hev, _, _, hsent, hrej⟩
  | markDone id =>
    exact Runs.safe ((runs_markDone env id).mono fun _ _ => Completes.noIndexError)
      (fun _ _ => trivial) hdb
  | markFailed id error =>
    exact Runs.safe ((runs_markFailed env id error).mono fun _ _ => Completes.noIndexError)
      (fun _ _ => trivial) hdb
  | markAborted id error =>
    exact Runs.safe ((runs_markAborted env id error).mono fun _ _ => Completes.noIndexError)
      (fun _ _ => trivial) hdb
  | markSkippedDuplicate id existing payloadHash =>
    exact Runs.safe ((runs_markSkippedDuplicate env id existing payloadHash).mono
      fun _ _ => Completes.noIndexError) (fun _ _ => trivial) hdb
  | updateCheckpoint id text =>
    exact Runs.safe ((runs_updateCheckpoint env id text).mono fun _ _ => Completes.noIndexError)
      (fun _ _ => trivial) hdb
  | reapStuckProcessing timeoutSec maxAttempts =>
    exact (runs_reapStuckProcessing env timeoutSec maxAttempts).safe_turns
      (fun _ _ hr hT => ⟨hr, hT⟩) hdb
  | reapFailedOrAborted limit policy =>
    exact (runs_reapFailedOrAborted env limit policy).safe_turns (fun _ _ hr hT => ⟨hr, hT⟩) hdb
  | replayDlqEpisode id policy =>
    exact (runs_replayDlqEpisode env id policy).safe_turns (fun _ _ hr hT => ⟨hr, hT⟩) hdb
  | replayDlqBatch limit classes minAgeSec policy =>
    exact (runs_replayDlqBatch env limit classes minAgeSec policy).safe_turns
      (fun _ _ hr hT => ⟨hr, hT⟩) hdb

/-! ## The theorem -/

/-- **After any schedule** the disk is disciplined, every entry of the log has done what its
statements do, and every session that is over satisfies `indexPost`. -/
theorem sound_disciplined (sha : Sha256) (hdb : db.Disciplined) (schedule : List (Label Step)) :
    Pool.Sound Write.exec Db.Disciplined (fun _ => Event.Faithful Write.exec Db.Disciplined)
      indexPost db (runSchedule sha db schedule) :=
  Pool.sound (fun _ _ _ hG => hG.inv) (fun st _ hd => safe_disciplined sha st hd) hdb schedule

/-- No operation that is over has raised the index's error. -/
def NoIndexErrorEscapes (p : Processes) : Prop :=
  ∀ (i : ℕ) s r, p.sessions[i]? = some s → Ended s r → NoIndexError r

/-- Every requeueing operation that is over has given its rows their turns. -/
def EveryRowHadItsTurn (p : Processes) : Prop :=
  ∀ (i : ℕ) s r, p.sessions[i]? = some s → Ended s r → s.tag.AllTurns r (history Write.exec s.events)

/-- Every update of a claim was clear of the index. -/
def ClaimsClear (p : Processes) : Prop :=
  ∀ entry ∈ p.log, ∀ ids now, entry.2.sent = [.claimEpisodes ids now] →
    entry.2.before.ClaimClear ids

/-- **Unique-index discipline.** After any schedule in which the update of every claim was
clear of the index, at most one row per hash is enforced and active; every block has
committed what its statements did, a rejected one doing nothing; no operation that is over
has raised the index's error; and every requeueing operation that is over has returned and
given every row it selected its turn, in which a rejected update leaves the database as it
was. Every statement asks the index about what it writes; the requeues are sent in
savepoints, and the writers translate its error. The update of a claim has neither. -/
theorem index_discipline (sha : Sha256) {db : Db} (hdb : db.Disciplined)
    (schedule : List (Label Step)) (hclear : ClaimsClear (runSchedule sha db schedule)) :
    (runSchedule sha db schedule).disk.OneActivePerHash ∧
      (∀ entry ∈ (runSchedule sha db schedule).log,
        entry.2.after = entry.2.sent.foldl Db.apply entry.2.before) ∧
      (∀ (d : Db) (id : String) (u : EpisodeUpdate), d.apply (.updateEpisode id u) =
        if d.rejects id u then d else d.update id u) ∧
      NoIndexErrorEscapes (runSchedule sha db schedule) ∧
      EveryRowHadItsTurn (runSchedule sha db schedule) := by
  have hsound := sound_disciplined sha hdb schedule
  have hpost : ∀ (i : ℕ) (s : Session Step Db Write IntegrityError QueueError OpResult)
      (r : Except QueueError OpResult), (runSchedule sha db schedule).sessions[i]? = some s →
      Ended s r → indexPost s.tag r s.events := by
    intro i s r hs hended
    have hsafe := hsound.sessions i s hs _ hsound.disk
    rw [hended] at hsafe
    rcases r with e | a <;> exact hsafe
  refine ⟨?_, fun entry hentry => ?_, Db.apply_update, fun i s r hs hended => ?_,
    fun i s r hs hended => (hpost i s r hs hended).2⟩
  · intro id id' e e' hash he he' hh hh' hg hg' ha ha'
    exact hsound.disk.distinct.unique hsound.disk.uniqueIndex he he' hh hh' hg hg' ha ha'
  · obtain ⟨-, -, s, -, hG⟩ := hsound.log entry hentry
    exact hG.after
  · rcases (hpost i s r hs hended).1 with hno | ⟨ev, hev, ids, now, hsent, hrej⟩
    · exact hno
    · -- the claim was clear, so the index did not reject it
      rw [hsound.events i s hs] at hev
      obtain ⟨entry, hentry, rfl⟩ := List.mem_map.mp hev
      obtain ⟨hlog, -⟩ := List.mem_filter.mp hentry
      obtain ⟨hbefore, -, -⟩ := hsound.log entry hlog
      rw [(hbefore.rejectsClaim_iff now).mpr (hclear entry hlog ids now hsent)] at hrej
      cases hrej

theorem Db.disciplined_empty : Db.empty.Disciplined where
  uniqueIndex := rfl
  distinct := by
    rintro - id id' e e' key he
    cases he
  ids := rfl

/-- One enforced episode in the queue. -/
def oneEnforced : Db :=
  runSteps .plain Db.empty
    [⟨.at 1, .enqueue { content := "c", episodeId := some "e", mode := .enforce }⟩]

/-- One episode is enqueued and claimed: the theorem at a schedule in which the claim
meets it in the queue. -/
theorem index_discipline_serial :
    (runSchedule .plain Db.empty
      [.start ⟨.at 1, .enqueue { content := "c", episodeId := some "e", mode := .enforce }⟩,
        .block 0, .block 0, .block 0, .block 0, .start ⟨.at 2, .claimNextBatch none⟩,
        .block 1, .block 1]).disk.OneActivePerHash := by
  refine (index_discipline .plain Db.disciplined_empty _ ?_).1
  have hlog : (runSchedule .plain Db.empty
      [.start ⟨.at 1, .enqueue { content := "c", episodeId := some "e", mode := .enforce }⟩,
        .block 0, .block 0, .block 0, .block 0, .start ⟨.at 2, .claimNextBatch none⟩,
        .block 1, .block 1]).log.map (fun entry => (entry.2.before, entry.2.sent)) =
      [(Db.empty, []), (Db.empty, []), (Db.empty, [.insertEpisode "e" (newEpisode
        (Payload.dumps ⟨"c", "graphiti", "ep_e", "agent_interaction"⟩) 1
        (some "#c|graphiti|agent_interaction") (some "mcp:1")
        (some "#c|graphiti|agent_interaction") .enforce)]),
        (oneEnforced, []), (oneEnforced, []), (oneEnforced, [.claimEpisodes ["e"] 2])] := rfl
  intro entry hentry ids now hsent id hid e hash he hinactive
  have hmem := List.mem_map_of_mem (f := fun entry : ℕ × Event Db Write =>
    (entry.2.before, entry.2.sent)) hentry
  rw [hlog, hsent] at hmem
  simp only [List.mem_cons, Prod.mk.injEq, reduceCtorEq, and_false, false_or, List.cons.injEq,
    Write.claimEpisodes.injEq, and_true, List.not_mem_nil, or_false] at hmem
  obtain ⟨hbefore, rfl, rfl⟩ := hmem
  obtain rfl := List.mem_singleton.mp hid
  rw [hbefore] at he
  obtain rfl := Option.some.inj ((show oneEnforced.episodes.get? "e" = some _ from rfl).symm.trans he)
  exact absurd (by decide) hinactive

/-- A claim has selected an episode when a second process claims it and fails, and its
payload is enqueued again. -/
def takenOver : List (Label Step) :=
  [.start ⟨.at 1, .enqueue { content := "c", episodeId := some "e", mode := .enforce }⟩,
    .block 0, .block 0, .block 0, .block 0,
    .start ⟨.at 2, .claimNextBatch none⟩, .block 1,
    .start ⟨.at 3, .claimNextBatch none⟩, .block 2, .block 2, .block 2,
    .start ⟨.at 4, .markFailed "e" "TimeoutError: <no message>"⟩, .block 3, .block 3,
    .start ⟨.at 5, .enqueue { content := "c", episodeId := some "f", mode := .enforce }⟩,
    .block 4, .block 4, .block 4, .block 4,
    .block 1]

/-- The index rejects the first claim, which raises its error as it is. -/
theorem not_noIndexErrorEscapes :
    ¬ NoIndexErrorEscapes (runSchedule .plain Db.empty takenOver) := by
  intro h
  exact h 1 _ (.error (.integrity .uniqueIndex)) rfl rfl rfl

end JanusGraph
