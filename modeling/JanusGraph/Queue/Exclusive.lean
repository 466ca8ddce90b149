import JanusGraph.Queue.Replay

/-!
# A claim is exclusive until it is released

A claim is nothing but the status `processing` and the `started_at` it wrote. The
reapers respect it: `reap_failed_or_aborted` selects other statuses and
`reap_stuck_processing` waits for the timeout. The replays do not look. So the
claim stands until it is released if and only if no replay requeues the episode
while it is being processed.

* **What ends a claim.** `Step.releases`: somebody records an outcome of the episode, or the
  stuck-reaper looks at it after its timeout.
* **What does not.** Any other step that is not a replay keeps the status and `started_at`
  (`Step.claimed`), and an episode with that status is not at the head of the queue
  (`Step.not_returns_of_claimed`).
* **What should not.** A replay that requeues the episode. `NotReplayedIn` says that none does.
-/

namespace JanusGraph

/-- The operation records an outcome of `id`. -/
def Op.recordsOutcome (id : String) : Op → Bool
  | .markDone id' => id == id'
  | .markFailed id' _ => id == id'
  | .markAborted id' _ => id == id'
  | .markSkippedDuplicate id' _ _ => id == id'
  | _ => false

/-- The step is a `reap_stuck_processing` for which a claim of `id` made at
`claimedAt` is at least `timeout_sec` old. -/
def Step.reapsExpired (st : Step) (id : String) (claimedAt : ℕ) : Bool :=
  match st.op with
  | .reapStuckProcessing timeoutSec _ =>
    decide (timeoutSec * 1000000 ≤ (st.env.clock id : ℤ) - claimedAt)
  | _ => false

/-- The step ends the claim of `id` made at `claimedAt`. -/
def Step.releases (st : Step) (id : String) (claimedAt : ℕ) : Bool :=
  st.op.recordsOutcome id || st.reapsExpired id claimedAt

/-- The step is a `claim_next_batch` that returns the episode. -/
def Step.returns (sha : Sha256) (db : Db) (st : Step) (id : String) : Prop :=
  ∃ rs, st.result sha db = .ok (.records rs) ∧ ∃ r ∈ rs, r.id = id

/-- The step neither puts the episode back in the queue nor hands it out again. -/
def Step.leavesClaimed (sha : Sha256) (db : Db) (st : Step) (id : String) : Prop :=
  (∀ e, (st.exec sha db).episodes.get? id = some e → e.status ≠ .queued) ∧ ¬ st.returns sha db id

/-- `id` is claimed, since `claimedAt`. -/
def Db.Claimed (db : Db) (id : String) (claimedAt : ℕ) : Prop :=
  ∃ e, db.episodes.get? id = some e ∧ e.status = .processing ∧
    e.startedAt = some (.iso claimedAt)

/-! ## What a claim returns -/

theorem Step.result_of_map {sha : Sha256} {st : Step} {α : Type} {f : α → OpResult} {p : Sql α}
    {db : Db} (hst : st.script sha = f <$> p) :
    st.result sha db = (alone p db).1.map f := by
  rw [Step.result, Script.result, hst, Prog.run_map]

/-- The records a claim returns are those of the head of the queue. -/
theorem Step.records_eq {sha : Sha256} {db : Db} {env : Env} {limit : Option ℤ}
    {records : List EpisodeRecord}
    (h : (⟨env, .claimNextBatch limit⟩ : Step).result sha db = .ok (.records records)) :
    records = (db.queueHead env.rank limit).map (claimRecord env.now) ∧
      db.rejectsClaim ((db.queueHead env.rank limit).map Prod.fst) env.now = false := by
  rw [result_of_map (f := OpResult.records) rfl] at h
  rcases hp : (alone (claimNextBatch env limit) db).1 with err | rs
  · rw [hp] at h
    cases h
  · rw [hp] at h
    obtain rfl : rs = records := OpResult.records.inj (Except.ok.inj h)
    exact result_claimNextBatch hp

/-- Only `claim_next_batch` returns records: those of the head of the queue, which
are claimed then. -/
theorem Step.returns_cases {sha : Sha256} {db : Db} {st : Step} {id : String}
    (h : st.returns sha db id) :
    ∃ limit e, st.op = .claimNextBatch limit ∧ db.episodes.get? id = some e ∧
      e.status = .queued ∧ (st.exec sha db).episodes.get? id = some (e.claim st.env.now) := by
  obtain ⟨rs, hrs, rec, hrec, rfl⟩ := h
  obtain ⟨env, op⟩ := st
  have hno : ∀ {α : Type} {f : α → OpResult} {p : Sql α}, (∀ a rs, f a ≠ .records rs) →
      (alone p db).1.map f ≠ .ok (.records rs) := by
    intro α f p hf heq
    rcases hp : (alone p db).1 with err | a
    · rw [hp] at heq
      cases heq
    · rw [hp] at heq
      exact hf a rs (Except.ok.inj heq)
  cases op with
  | claimNextBatch limit =>
    obtain ⟨rfl, hrej⟩ := records_eq hrs
    obtain ⟨row, hrow, rfl⟩ := List.mem_map.mp hrec
    obtain ⟨hget, hqueued⟩ := Db.mem_queueHead hrow
    refine ⟨limit, row.2, rfl, hget, hqueued, ?_⟩
    have hne : (db.queueHead env.rank limit).isEmpty = false := by
      simpa using List.ne_nil_of_mem hrow
    have hid : row.1 ∈ (db.queueHead env.rank limit).map Prod.fst := List.mem_map_of_mem hrow
    rw [exec_claimNextBatch, hne]
    simp only [Bool.false_eq_true, if_false, Db.apply, Script.applied, Write.exec, hrej,
      claimRecord]
    rw [Db.claim, Table.get?_map, hget, Option.map_some, if_pos hid]
  | enqueue args =>
    rw [result_of_map (f := OpResult.id) rfl] at hrs
    exact absurd hrs (hno (by simp))
  | enqueueGuarded =>
    rw [result_of_map (f := OpResult.id) rfl] at hrs
    exact absurd hrs (hno (by simp))
  | reapStuckProcessing =>
    rw [result_of_map (f := OpResult.count) rfl] at hrs
    exact absurd hrs (hno (by simp))
  | reapFailedOrAborted =>
    rw [result_of_map (f := OpResult.count) rfl] at hrs
    exact absurd hrs (hno (by simp))
  | replayDlqBatch =>
    rw [result_of_map (f := OpResult.count) rfl] at hrs
    exact absurd hrs (hno (by simp))
  | replayDlqEpisode =>
    rw [result_of_map (f := OpResult.bool) rfl] at hrs
    exact absurd hrs (hno (by simp))
  | _ =>
    rw [result_of_map (f := fun _ => OpResult.unit) rfl] at hrs
    exact absurd hrs (hno (by simp))

/-! ## One step -/

/-- **Step.** A step that does not release the claim, and does not replay the episode, keeps
the claim. The reapers pass it over: one asks for another status, the other for a timeout. -/
theorem Step.claimed (sha : Sha256) {db : Db} {st : Step} {id : String} {claimedAt : ℕ}
    (h : db.Claimed id claimedAt) (hrel : ¬ st.releases id claimedAt)
    (hreplay : ∀ e, db.episodes.get? id = some e → ¬ st.requeuesByReplay db id e) :
    (st.exec sha db).Claimed id claimedAt := by
  obtain ⟨e, he, hprocessing, hstarted⟩ := h
  have hkept := hreplay e he
  have hslot : db.slot id = ⟨some e, db.deadLetter.get? id⟩ := by simp [Db.slot, he]
  have hmove := st.move sha db id
  rw [hslot] at hmove
  -- a row the reaper finds stuck has an expired claim
  have hstuck : ∀ clock timeoutSec, e.stuck clock timeoutSec = true →
      timeoutSec * 1000000 ≤ (clock : ℤ) - claimedAt := by
    intro clock timeoutSec hs
    simpa [Episode.stuck, hstarted] using hs
  simp only [releases, Bool.or_eq_true, not_or, Bool.not_eq_true] at hrel
  obtain ⟨hout, hexp⟩ := hrel
  unfold Db.Claimed
  simp only [← Db.slot_episode]
  obtain ⟨env, op⟩ := st
  generalize hs' : (exec sha db ⟨env, op⟩).slot id = s' at hmove ⊢
  generalize db.deadLetter.get? id = d at hmove
  cases hmove with
  | stay => exact ⟨e, rfl, hprocessing, hstarted⟩
  | claimed hq => rw [hprocessing] at hq; cases hq
  | done => simp [Op.recordsOutcome] at hout
  | failed => simp [Op.recordsOutcome] at hout
  | aborted => simp [Op.recordsOutcome] at hout
  | skipped => simp [Op.recordsOutcome] at hout
  | checkpoint => exact ⟨_, rfl, hprocessing, hstarted⟩
  | reapAborted _ hs =>
    have hage := hstuck _ _ hs
    simp only [reapsExpired, decide_eq_false_iff_not] at hexp
    exact absurd hage hexp
  | reapRequeued _ hs =>
    have hage := hstuck _ _ hs
    simp only [reapsExpired, decide_eq_false_iff_not] at hexp
    exact absurd hage hexp
  | reapSkipped _ hs =>
    have hage := hstuck _ _ hs
    simp only [reapsExpired, decide_eq_false_iff_not] at hexp
    exact absurd hage hexp
  | reaped helig => simp [reapEligible, hprocessing] at helig
  | replayed =>
    have hsame := (episode_replayDlqEpisode sha env db id id _ he).trans (if_neg hkept)
    rw [← Db.slot_episode, hs'] at hsame
    have hstatus := congrArg Episode.status (Option.some.inj hsame)
    rw [hprocessing] at hstatus
    cases hstatus
  | replayedBatch =>
    have hsame := (episode_replayDlqBatch sha env db id _ _ _ _ he).trans (if_neg hkept)
    rw [← Db.slot_episode, hs'] at hsame
    have hstatus := congrArg Episode.status (Option.some.inj hsame)
    rw [hprocessing] at hstatus
    cases hstatus
  | replayClosed _ hdone =>
    have := hdone e rfl
    rw [hprocessing] at this
    cases this

/-- A claimed episode is not at the head of the queue. -/
theorem Step.not_returns_of_claimed (sha : Sha256) {db : Db} {st : Step} {id : String}
    {claimedAt : ℕ} (h : db.Claimed id claimedAt) : ¬ st.returns sha db id := by
  obtain ⟨e, he, hprocessing, -⟩ := h
  intro hret
  obtain ⟨limit, e', -, he', hqueued, -⟩ := returns_cases hret
  obtain rfl : e = e' := Option.some.inj (he.symm.trans he')
  rw [hprocessing] at hqueued
  cases hqueued

/-! ## Serial runs -/

/-- The replays of a run pass over `id` while it is being processed. -/
def NotReplayedIn (sha : Sha256) (id : String) : Db → List Step → Prop
  | _, [] => True
  | db, st :: steps =>
    (∀ e, db.episodes.get? id = some e → e.status = .processing →
      ¬ st.requeuesByReplay db id e) ∧ NotReplayedIn sha id (st.exec sha db) steps

/-- No step of a run puts `id` back in the queue or hands it out again. -/
def StaysClaimed (sha : Sha256) (id : String) : Db → List Step → Prop
  | _, [] => True
  | db, st :: steps => st.leavesClaimed sha db id ∧ StaysClaimed sha id (st.exec sha db) steps

/-- **Run.** As long as nobody releases the claim, it stands if and only if no replay
requeues the episode. A replay that does puts it back in the queue at once, and nothing else
can. -/
theorem staysClaimed_iff (sha : Sha256) {id : String} {claimedAt : ℕ} {steps : List Step}
    (hrel : ∀ st ∈ steps, ¬ st.releases id claimedAt) {db : Db} (h : db.Claimed id claimedAt) :
    StaysClaimed sha id db steps ↔ NotReplayedIn sha id db steps := by
  induction steps generalizing db with
  | nil => exact Iff.rfl
  | cons st steps ih =>
    obtain ⟨e, he, hprocessing, hstarted⟩ := h
    by_cases hreplay : st.requeuesByReplay db id e
    · -- the replay puts the episode back in the queue
      obtain ⟨e', he', hqueued⟩ := st.status_of_requeuesByReplay sha db id he hreplay
      exact ⟨fun hstay => absurd hqueued (hstay.1.1 e' he'),
        fun hnot => absurd hreplay (hnot.1 e he hprocessing)⟩
    · have hclaimed := Step.claimed sha ⟨e, he, hprocessing, hstarted⟩
        (hrel st List.mem_cons_self)
        (fun e' he' => by rwa [← Option.some.inj (he.symm.trans he')])
      have hrest := ih (fun st' hst' => hrel st' (List.mem_cons_of_mem st hst')) hclaimed
      refine ⟨fun hstay => ⟨?_, hrest.mp hstay.2⟩, fun hnot => ⟨⟨?_, ?_⟩, hrest.mpr hnot.2⟩⟩
      · intro e' he' _
        rwa [← Option.some.inj (he.symm.trans he')]
      · intro e' he' hqueued
        obtain ⟨e'', he'', hp, -⟩ := hclaimed
        rw [Option.some.inj (he'.symm.trans he''), hp] at hqueued
        cases hqueued
      · exact Step.not_returns_of_claimed sha ⟨e, he, hprocessing, hstarted⟩

/-- **Claim exclusivity, exactly.** In a serial run from the empty database, let a
`claim_next_batch` return `id`, and let no later step record an outcome of `id` or reap it
after its timeout. Then no step puts `id` back in the queue or returns it again if and only
if no replay requeues it. A claim is a status and a time, and the reapers ask for both. The
replays look at the dead letter, which an episode keeps from an earlier life. -/
theorem claim_exclusive_iff (sha : Sha256) (start : List Step) (claim : Step) (id : String)
    (steps : List Step) (hclaim : claim.returns sha (runSteps sha Db.empty start) id)
    (hrel : ∀ st ∈ steps, ¬ st.releases id claim.env.now) :
    StaysClaimed sha id (runSteps sha Db.empty (start ++ [claim])) steps ↔
      NotReplayedIn sha id (runSteps sha Db.empty (start ++ [claim])) steps := by
  refine staysClaimed_iff sha hrel ?_
  obtain ⟨limit, e, -, -, -, hafter⟩ := Step.returns_cases hclaim
  rw [runSteps_append]
  exact ⟨_, hafter, rfl, rfl⟩

/-- A claim that nobody disturbs: the theorem at a run of one reaper. -/
theorem claim_exclusive_iff_reaper :
    StaysClaimed .plain "e" (runSteps .plain Db.empty
        ([⟨.at 1, .enqueue { content := "c", episodeId := some "e", mode := .off }⟩] ++
          [⟨.at 2, .claimNextBatch none⟩])) [⟨.at 3, .reapStuckProcessing 900 3⟩] ↔
      NotReplayedIn .plain "e" (runSteps .plain Db.empty
        ([⟨.at 1, .enqueue { content := "c", episodeId := some "e", mode := .off }⟩] ++
          [⟨.at 2, .claimNextBatch none⟩])) [⟨.at 3, .reapStuckProcessing 900 3⟩] := by
  refine claim_exclusive_iff .plain
    [⟨.at 1, .enqueue { content := "c", episodeId := some "e", mode := .off }⟩]
    ⟨.at 2, .claimNextBatch none⟩ "e" [⟨.at 3, .reapStuckProcessing 900 3⟩] ?_ (by decide)
  exact ⟨_, rfl, _, List.mem_singleton.mpr rfl, rfl⟩

/-- An episode that is aborted, requeued by the reaper and claimed again has an open
dead letter while it is being processed. -/
def reapedAndClaimed : List Step :=
  [⟨.at 1, .enqueue { content := "c", episodeId := some "e", mode := .off }⟩,
    ⟨.at 2, .claimNextBatch none⟩,
    ⟨.at 3, .markAborted "e" "TimeoutError: <no message>"⟩,
    ⟨.at 4, .reapFailedOrAborted none none⟩]

/-- A replay right after the second claim puts the episode back in the queue. -/
theorem not_staysClaimed :
    (⟨.at 5, .claimNextBatch none⟩ : Step).returns .plain (runSteps .plain Db.empty reapedAndClaimed)
        "e" ∧
      (∀ st ∈ [(⟨.at 6, .replayDlqBatch 100 [] 0 none⟩ : Step)], ¬ st.releases "e" 5) ∧
      ¬ StaysClaimed .plain "e"
        (runSteps .plain Db.empty (reapedAndClaimed ++ [⟨.at 5, .claimNextBatch none⟩]))
        [⟨.at 6, .replayDlqBatch 100 [] 0 none⟩] := by
  refine ⟨⟨_, rfl, _, List.mem_singleton.mpr rfl, rfl⟩, by decide, ?_⟩
  rintro ⟨⟨hqueued, -⟩, -⟩
  have hafter : ((Step.exec .plain (runSteps .plain Db.empty
      (reapedAndClaimed ++ [⟨.at 5, .claimNextBatch none⟩]))
      ⟨.at 6, .replayDlqBatch 100 [] 0 none⟩).episodes.get? "e").map Episode.status =
        some .queued := by decide +kernel
  obtain ⟨e, he, hstatus⟩ := Option.map_eq_some_iff.mp hafter
  exact hqueued e he hstatus

end JanusGraph
