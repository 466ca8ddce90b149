import JanusGraph.Queue.Processes
import JanusGraph.Queue.Transition

/-!
# Outcomes of reaped claims

`reap_stuck_processing` takes an episode away from a worker that is still at work.
When the worker is finished it records its outcome all the same: `mark_done`,
`mark_failed` and `mark_aborted` are keyed by the episode's id, and look neither at
its status nor at who has claimed it. So what a later claimant has recorded stands
if and only if the late outcome happens to find its own values in the row.

An outcome is recorded in one block, by a session that may have read the row long ago
(`seen`; only `mark_aborted` reads). What the block does is what the operation does alone
(`safe_reports`), so that the question is whether the statement finds its own values: the same
`done`, the same abort, or no row at all. `mark_failed` counts, and never does
(`set_failed_ne`).

The claims to which an outcome belongs are not part of the statement. A worker has no token of
its claim, and an outcome of a first claim looks like one of the second.
-/

namespace JanusGraph

open Script

/-- One process' operation. -/
abbrev Worker : Type := Session Step Db Write IntegrityError QueueError OpResult

/-! ## Late outcomes -/

/-- The operation records one of the outcomes a worker has for `id`. -/
def Op.reports (id : String) : Op → Bool
  | .markDone id' => id == id'
  | .markFailed id' _ => id == id'
  | .markAborted id' _ => id == id'
  | _ => false

/-- The episode is being processed. -/
def Db.Processing (db : Db) (id : String) : Prop :=
  ∃ e, db.episodes.get? id = some e ∧ e.status = .processing

/-- In block `k` session `i` claims `id`. -/
def ClaimsAt (p : Processes) (k i : ℕ) (id : String) : Prop :=
  ∃ ev, p.log[k]? = some (i, ev) ∧
    (∃ ids now, ev.sent = [.claimEpisodes ids now] ∧ id ∈ ids) ∧ ev.after.Processing id

/-- In block `k` a `reap_stuck_processing` takes `id` from its worker. -/
def ReapsAt (p : Processes) (k : ℕ) (id : String) : Prop :=
  ∃ i ev s timeoutSec maxAttempts, p.log[k]? = some (i, ev) ∧ p.sessions[i]? = some s ∧
    s.tag.op = .reapStuckProcessing timeoutSec maxAttempts ∧
    ev.before.Processing id ∧ ¬ ev.after.Processing id

/-- In block `k` session `i`, which is `s`, records its outcome of `id`. -/
def ReportsAt (p : Processes) (k i : ℕ) (s : Worker) (ev : Event Db Write) (id : String) : Prop :=
  p.log[k]? = some (i, ev) ∧ p.sessions[i]? = some s ∧ s.tag.op.reports id = true ∧ ev.sent ≠ []

/-- A block in which `s` records the outcome of a claim of `id` that has been reaped,
after a later claimant has recorded `done`. The claim an outcome belongs to is the
worker's knowledge: `claimOf` of the reporting session is the claiming one. -/
def LateOutcome (p : Processes) (claimOf : ℕ → ℕ) (id : String) (s : Worker)
    (ev : Event Db Write) : Prop :=
  ∃ claim reap claim' done late : ℕ,
    claim < reap ∧ reap < claim' ∧ claim' < done ∧ done < late ∧
    ∃ i j, claimOf i ≠ claimOf j ∧
      ClaimsAt p claim (claimOf i) id ∧ ReapsAt p reap id ∧ ClaimsAt p claim' (claimOf j) id ∧
      (∃ s' ev', ReportsAt p done j s' ev' id ∧ s'.tag.op = .markDone id) ∧
      ReportsAt p late i s ev id

/-- The dead letter of the episode is open. -/
def Db.DeadLetterOpen (db : Db) (id : String) : Prop :=
  ∃ d, db.deadLetter.get? id = some d ∧ d.isOpen = true

/-- No late outcome changes the episode's row or opens a dead letter. -/
def NewerOutcomeStands (p : Processes) (claimOf : ℕ → ℕ) (id : String) : Prop :=
  ∀ s ev, LateOutcome p claimOf id s ev →
    ev.after.episodes.get? id = ev.before.episodes.get? id ∧
      (ev.after.DeadLetterOpen id → ev.before.DeadLetterOpen id)

/-- What a session's first `SELECT` saw of the episode. -/
def seen (id : String) (events : List (Event Db Write)) : Option Episode :=
  events.head?.bind fun ev => ev.before.episodes.get? id

/-- What an outcome would write is there already: for `mark_failed`, which counts, only
if there is no row at all. `row` is what `mark_aborted` read before it began its
transaction. -/
def Step.Repeats (st : Step) (id : String) (row : Option Episode) (db : Db) : Prop :=
  match st.op with
  | .markDone _ => ∀ e, db.episodes.get? id = some e →
    e.status = .done ∧ e.finishedAt = some st.env.now ∧ e.updatedAt = st.env.now ∧
      e.consecutiveFailures = 0
  | .markFailed _ _ => db.episodes.get? id = none
  | .markAborted _ error => db.DeadLetterOpen id ∧ ∀ e, db.episodes.get? id = some e →
    e.status = .aborted ∧ e.attemptCount = (row.map Episode.attemptCount).getD 0 + 1 ∧
      e.lastError = some error ∧ e.updatedAt = st.env.now
  | _ => True

/-- Every late outcome finds its own values. -/
def LateOutcomesRepeat (p : Processes) (claimOf : ℕ → ℕ) (id : String) : Prop :=
  ∀ s ev, LateOutcome p claimOf id s ev → s.tag.Repeats id (seen id s.events) ev.before

/-! ## What an outcome does among others -/

/-- The effect of an outcome, if `row` is what it read of the episode. -/
def Step.record (st : Step) (row : Option Episode) (db : Db) : Db :=
  match st.op with
  | .markDone id => db.markDone id st.env.now
  | .markFailed id error => db.update id (.failed error st.env.now)
  | .markAborted id error => db.abort id ((row.map Episode.payloadJson).getD (.json (.obj [])))
      ((row.map Episode.attemptCount).getD 0 + 1) error st.env.now
  | _ => db

/-- The block in which an outcome is recorded does what it does alone. -/
def reportPost (st : Step) (events : List (Event Db Write)) : Prop :=
  ∀ id, st.op.reports id = true → ∀ ev ∈ events, ev.sent ≠ [] →
    ev.after = st.record (seen id events) ev.before

variable {env : Env} {id error : String} {db : Db}

theorem safe_markFailed (env : Env) (id error : String) (db : Db) :
    (markFailed env id error).Safe Write.exec (fun _ => True) (fun _ => True)
      (fun _ t => ∃ d d' : Db, t.events =
        [⟨d, d.update id (.failed error env.now), [.updateEpisode id (.failed error env.now)]⟩,
          ⟨d', d', []⟩]) (.start db []) := by
  have hacc : db.rejects id (.failed error env.now) = false :=
    Db.rejects_of_inactive fun e => by simp [EpisodeUpdate.set, activeStatuses]
  simp [markFailed, withConn, execute, Script.write, Prog.request, Prog.attempt, Script.commit,
    Safe, Conn.step, Write.exec, hacc, Trace.record, Trace.event, Stmt.writes, Conn.idle]

theorem safe_markDone (env : Env) (id : String) (db : Db) :
    (markDone env id).Safe Write.exec (fun _ => True) (fun _ => True)
      (fun _ t => ∃ (d d' : Db) (sent : List Write), t.events =
        [⟨d, d.markDone id env.now, sent⟩, ⟨d', d', []⟩]) (.start db []) := by
  have hacc : db.rejects id (.done env.now) = false :=
    Db.rejects_of_inactive fun e => by simp [EpisodeUpdate.set, activeStatuses]
  rcases hd : (db.deadLetter.get? id).filter DeadLetter.isOpen with _ | d <;>
  simp [markDone, withConn, execute, Script.write, Script.select, Prog.request, Prog.attempt,
    Script.commit, Safe, Conn.step, Write.exec, hacc, Trace.record, Trace.event, Stmt.writes,
    Conn.idle, Db.markDone, hd, Db.update]

theorem safe_markAborted (env : Env) (id error : String) (db : Db) :
    (markAborted env id error).Safe Write.exec (fun _ => True) (fun _ => True)
      (fun _ t => ∃ (d d' d'' : Db) (sent : List Write), t.events =
        [⟨d, d, []⟩, ⟨d', d'.abort id
          (((d.episodes.get? id).map Episode.payloadJson).getD (.json (.obj [])))
          (((d.episodes.get? id).map Episode.attemptCount).getD 0 + 1) error env.now, sent⟩,
          ⟨d'', d'', []⟩]) (.start db []) := by
  have hacc : ∀ (d : Db) attempts, d.rejects id (.aborted attempts error env.now) = false :=
    fun _ _ => Db.rejects_of_inactive fun e => by simp [EpisodeUpdate.set, activeStatuses]
  simp [markAborted, withConn, execute, Script.write, Script.select, Prog.request, Prog.attempt,
    Script.commit, Safe, Conn.step, Write.exec, hacc, Trace.record, Trace.event, Stmt.writes,
    Conn.idle, Db.abort, Db.update]
  exact fun _ _ _ => rfl

theorem safe_reports (sha : Sha256) (st : Step) (db : Db) :
    (st.script sha).Safe Write.exec (fun _ => True) (fun _ => True)
      (fun _ t => reportPost st t.events) (.start db []) := by
  obtain ⟨env, op⟩ := st
  cases op with
  | markDone id =>
    refine safe_map ((safe_markDone env id db).mono ?_)
    rintro r t ⟨d, d', sent, hevents⟩ id' - ev hev hsent
    simp only [hevents, List.mem_cons, List.not_mem_nil, or_false] at hev
    rcases hev with rfl | rfl
    · rfl
    · exact absurd rfl hsent
  | markFailed id error =>
    refine safe_map ((safe_markFailed env id error db).mono ?_)
    rintro r t ⟨d, d', hevents⟩ id' - ev hev hsent
    simp only [hevents, List.mem_cons, List.not_mem_nil, or_false] at hev
    rcases hev with rfl | rfl
    · rfl
    · exact absurd rfl hsent
  | markAborted id error =>
    refine safe_map ((safe_markAborted env id error db).mono ?_)
    rintro r t ⟨d, d', d'', sent, hevents⟩ id' hid ev hev hsent
    obtain rfl : id' = id := by simpa [Op.reports] using hid
    rw [hevents] at hev ⊢
    simp only [List.mem_cons, List.not_mem_nil, or_false] at hev
    rcases hev with rfl | rfl | rfl
    · exact absurd rfl hsent
    · rfl
    · exact absurd rfl hsent
  | _ =>
    refine (Safe.trivial _ _).mono ?_
    rintro r t - id ⟨⟩

/-- What is known of the processes after any schedule. -/
theorem sound_reports (sha : Sha256) (db : Db) (schedule : List (Label Step)) :
    Pool.Sound Write.exec (fun _ => True) (fun _ _ => True) (fun st _ events => reportPost st events)
      db (runSchedule sha db schedule) :=
  Pool.sound (fun _ _ _ _ => trivial) (fun st d _ => safe_reports sha st d) trivial schedule

/-- An outcome in the log is recorded as it is alone, if `mark_aborted` reads what its
session has seen. Whatever came between the read and the write is not looked at. -/
theorem after_of_reportsAt {sha : Sha256} {schedule : List (Label Step)} {k i : ℕ} {s : Worker}
    {ev : Event Db Write} (h : ReportsAt (runSchedule sha db schedule) k i s ev id) :
    ev.after = s.tag.record (seen id s.events) ev.before := by
  obtain ⟨hlog, hs, hop, hsent⟩ := h
  have hsound := sound_reports sha db schedule
  have hmem : ev ∈ s.events := by
    rw [hsound.events i s hs]
    exact List.mem_map.mpr ⟨(i, ev), List.mem_filter.mpr
      ⟨List.mem_of_getElem? hlog, by simp⟩, rfl⟩
  -- the session may still have to end, but it has begun as it ends
  obtain ⟨r, events, hpost, hlog⟩ := (hsound.sessions i s hs db trivial).exists_post trivial
  have hhead : seen id s.events = seen id events := by
    obtain ⟨rest, rfl⟩ := hlog
    rw [Trace.start_events] at *
    unfold seen
    rw [List.head?_append_of_ne_nil _ (List.ne_nil_of_mem hmem)]
  rw [hhead]
  exact hpost id hop ev (hlog.subset hmem) hsent

/-! ## When an outcome changes nothing -/

theorem map_set_eq_self_iff {row : Option Episode} {u : EpisodeUpdate} :
    row.map u.set = row ↔ ∀ e, row = some e → u.set e = e := by
  rcases row with _ | e
  · simp
  · simp

theorem set_done_eq_iff {e : Episode} {now : ℕ} :
    (EpisodeUpdate.done now).set e = e ↔
      e.status = .done ∧ e.finishedAt = some now ∧ e.updatedAt = now ∧
        e.consecutiveFailures = 0 := by
  obtain ⟨⟩ := e
  simp only [EpisodeUpdate.set, Episode.mk.injEq, true_and, and_true]
  constructor
  · rintro ⟨rfl, rfl, rfl, rfl⟩
    exact ⟨rfl, rfl, rfl, rfl⟩
  · rintro ⟨rfl, rfl, rfl, rfl⟩
    exact ⟨rfl, rfl, rfl, rfl⟩

theorem set_aborted_eq_iff {e : Episode} {attempts now : ℕ} :
    (EpisodeUpdate.aborted attempts error now).set e = e ↔
      e.status = .aborted ∧ e.attemptCount = attempts ∧ e.lastError = some error ∧
        e.updatedAt = now := by
  obtain ⟨⟩ := e
  simp only [EpisodeUpdate.set, Episode.mk.injEq, true_and, and_true]
  constructor
  · rintro ⟨rfl, rfl, rfl, rfl⟩
    exact ⟨rfl, rfl, rfl, rfl⟩
  · rintro ⟨rfl, rfl, rfl, rfl⟩
    exact ⟨rfl, rfl, rfl, rfl⟩

/-- `mark_failed` counts, so that it changes every row. -/
theorem set_failed_ne {e : Episode} {now : ℕ} : (EpisodeUpdate.failed error now).set e ≠ e := by
  intro h
  have hcount : e.attemptCount + 1 = e.attemptCount := congrArg Episode.attemptCount h
  omega

/-- A dead letter that has been closed is not open. -/
theorem DeadLetter.not_isOpen_close (now : ℕ) (d : DeadLetter) : (d.close now).isOpen = false := by
  unfold close
  split
  · rfl
  · rename_i h
    simpa using h

/-- **When a late outcome does no harm.** An outcome changes neither the row nor opens a dead
letter if and only if it repeats what is there. The times count: the same outcome at another
instant is another row. -/
theorem Step.record_iff {st : Step} (hop : st.op.reports id = true) (row : Option Episode)
    (db : Db) :
    ((st.record row db).episodes.get? id = db.episodes.get? id ∧
        ((st.record row db).DeadLetterOpen id → db.DeadLetterOpen id)) ↔
      st.Repeats id row db := by
  obtain ⟨env, op⟩ := st
  cases op with
  | markDone id' =>
    obtain rfl : id = id' := by simpa [Op.reports] using hop
    have hslot := Db.slot_markDone db id id env.now
    rw [if_pos rfl] at hslot
    have hclosed : ¬ (db.markDone id env.now).DeadLetterOpen id := by
      rintro ⟨d, hd, hopen⟩
      rw [← Db.slot_deadLetter, hslot, Option.map_eq_some_iff] at hd
      obtain ⟨d', -, rfl⟩ := hd
      rw [DeadLetter.not_isOpen_close] at hopen
      cases hopen
    change (db.markDone id env.now).episodes.get? id = _ ∧
      ((db.markDone id env.now).DeadLetterOpen id → _) ↔ _
    rw [← Db.slot_episode, hslot, map_set_eq_self_iff]
    simp only [set_done_eq_iff, Repeats, hclosed, false_imp_iff, and_true]
  | markFailed id' error =>
    obtain rfl : id = id' := by simpa [Op.reports] using hop
    have hslot := Db.slot_update db id id (.failed error env.now)
    rw [if_pos rfl] at hslot
    change (db.update id (.failed error env.now)).episodes.get? id = _ ∧
      ((db.update id (.failed error env.now)).DeadLetterOpen id → _) ↔ _
    have hdead : (db.update id (.failed error env.now)).DeadLetterOpen id ↔
      db.DeadLetterOpen id := Iff.rfl
    rw [← Db.slot_episode, hslot]
    simp only [EpisodeUpdate.admits, if_true, hdead, imp_self, and_true, Repeats]
    rw [map_set_eq_self_iff]
    simp only [set_failed_ne, imp_false, Option.eq_none_iff_forall_ne_some, ne_eq]
  | markAborted id' error =>
    obtain rfl : id = id' := by simpa [Op.reports] using hop
    set attempts := (row.map Episode.attemptCount).getD 0 + 1 with hattempts
    have hslot := Db.slot_abort db id id ((row.map Episode.payloadJson).getD (.json (.obj [])))
      attempts error env.now
    rw [if_pos rfl] at hslot
    change (db.abort id _ attempts error env.now).episodes.get? id = _ ∧
      ((db.abort id _ attempts error env.now).DeadLetterOpen id → _) ↔ _
    have hopen : (db.abort id ((row.map Episode.payloadJson).getD (.json (.obj []))) attempts error
        env.now).DeadLetterOpen id := by
      refine ⟨_, (Db.slot_deadLetter _ _).symm.trans (congrArg Slot.deadLetter hslot), rfl⟩
    rw [← Db.slot_episode, hslot, map_set_eq_self_iff]
    simp only [set_aborted_eq_iff, hopen, true_imp_iff, Repeats, ← hattempts]
    exact and_comm
  | _ => cases hop

/-! ## The theorem -/

/-- **Newer outcomes stand, exactly.** After any schedule of any operations, and whatever
claims the outcomes belong to, no late outcome has changed the row or opened a dead letter if
and only if every late outcome has found its own values there. The statements of a worker are
keyed by the id of the episode alone, so that a late one is executed like any other. -/
theorem newer_outcome_stands_iff (sha : Sha256) (db : Db) (schedule : List (Label Step))
    (claimOf : ℕ → ℕ) (id : String) :
    NewerOutcomeStands (runSchedule sha db schedule) claimOf id ↔
      LateOutcomesRepeat (runSchedule sha db schedule) claimOf id := by
  have hblock : ∀ s ev, LateOutcome (runSchedule sha db schedule) claimOf id s ev →
      ((ev.after.episodes.get? id = ev.before.episodes.get? id ∧
        (ev.after.DeadLetterOpen id → ev.before.DeadLetterOpen id)) ↔
          s.tag.Repeats id (seen id s.events) ev.before) := by
    rintro s ev ⟨_, _, _, _, late, -, -, -, -, i, j, -, -, -, -, -, hreport⟩
    rw [after_of_reportsAt hreport]
    exact Step.record_iff hreport.2.2.1 _ _
  constructor
  · exact fun hstand s ev hlate => (hblock s ev hlate).mp (hstand s ev hlate)
  · exact fun hrep s ev hlate => (hblock s ev hlate).mpr (hrep s ev hlate)

/-- The first worker is reaped after a quarter of an hour, the second claims the
episode and is done with it, and then the first one gives up. -/
def lateAbort : List (Label Step) :=
  [.start ⟨.at 1, .enqueue { content := "c", episodeId := some "e", mode := .off }⟩,
    .block 0, .block 0,
    .start ⟨.at 2, .claimNextBatch none⟩, .block 1, .block 1, .block 1,
    .start ⟨.at 900000002, .reapStuckProcessing 900 3⟩, .block 2, .block 2, .block 2, .block 2,
    .start ⟨.at 900000003, .claimNextBatch none⟩, .block 3, .block 3, .block 3,
    .start ⟨.at 900000004, .markDone "e"⟩, .block 4, .block 4,
    .start ⟨.at 900000005, .markAborted "e" "TimeoutError: <no message>"⟩, .block 5, .block 5]

/-- The episode that is done is aborted, and its dead letter opened. -/
theorem not_newerOutcomeStands :
    ¬ NewerOutcomeStands (runSchedule .plain Db.empty lateAbort) (fun i => if i = 5 then 1 else 3)
      "e" := by
  intro h
  have hlate := h _ _ ⟨3, 6, 10, 12, 15, by decide, by decide, by decide, by decide, 5, 4,
    by decide, ⟨_, rfl, ⟨_, _, rfl, List.mem_singleton.mpr rfl⟩, _, rfl, rfl⟩,
    ⟨_, _, _, _, _, rfl, rfl, rfl, ⟨_, rfl, rfl⟩, by rintro ⟨e, ⟨⟩, ⟨⟩⟩⟩,
    ⟨_, rfl, ⟨_, _, rfl, List.mem_singleton.mpr rfl⟩, _, rfl, rfl⟩,
    ⟨_, _, ⟨rfl, rfl, rfl, List.cons_ne_nil _ _⟩, rfl⟩, rfl, rfl, rfl, List.cons_ne_nil _ _⟩
  obtain ⟨d, hd, -⟩ := hlate.2 ⟨_, rfl, rfl⟩
  cases hd

end JanusGraph
