import JanusGraph.Queue.Exclusive
import JanusGraph.Queue.Stranded

/-!
# The attempt budget

`pipeline.max_attempts` is meant to bound the attempts of an episode. Four places take
the decision, each with a bound of its own: the worker (`should_retry`) and the
stuck-reaper of the sweep use their default, 3; the stuck-reaper of the CLI and the
policy of `reap_failed_or_aborted` use the setting; a deferral uses none.

`WithinBudget` is what the bound promises of one episode, with what it takes to keep it.
Every operation keeps it whose decision is the one the setting would take; a run of such
operations claims the episode at most `max_attempts` times, and dead-letters it when its
attempts reach that number.

The budget is kept by a case analysis of `Move` (`Slot.WithinBudget.move`) and by what a claim
takes of it (`Slot.WithinBudget.claimed`): a claim is paid for by the failure, the abort or the
reap that follows it, each of which counts one attempt. Which decision an operation takes about
the episode is a condition on the operation alone (`Upkeep.Agrees`), in terms of the bound it
was called with and of the one that is configured.
-/

namespace JanusGraph

/-! ## The settings -/

/-- `RetryPolicyConfig` -/
structure RetryPolicyConfig : Type where
  permanentErrorCodes : List String := ["Error code: 404", "Error code: 402"]
  allowedErrorCodes : List String := []
  reapLimit : ℤ := 24
  respectAttemptCeiling : Bool := true

/-- What the attempt limits are read from. -/
structure PipelineSettings : Type where
  maxAttempts : ℕ := 3
  retryPolicy : Option RetryPolicyConfig := some {}

/-- `RetryPolicy.from_settings` -/
def RetryPolicy.fromSettings (settings : PipelineSettings) : RetryPolicy :=
  match settings.retryPolicy with
  | none => {}
  | some policy =>
    { permanentErrorCodes :=
        if policy.permanentErrorCodes.isEmpty then ["Error code: 404", "Error code: 402"]
        else policy.permanentErrorCodes
      allowedErrorCodes := policy.allowedErrorCodes
      reapLimit := policy.reapLimit
      respectAttemptCeiling := policy.respectAttemptCeiling
      maxAttempts := if settings.maxAttempts = 0 then 3 else settings.maxAttempts }

/-! ## Sweeps and reaps -/

/-- What happens to the queue between two looks at it, replays aside. -/
inductive Upkeep : Type where
  | enqueue (op : Op)
  | claim (limit : Option ℤ)
  /-- the worker that holds the record sends the operation at position `i` of
  `process_record` -/
  | process (record : EpisodeRecord) (p : Processing) (i : ℕ)
  /-- `run_cron_sweep` defers the record -/
  | defer (record : EpisodeRecord)
  /-- phase 1 of `run_cron_sweep`: `max_attempts` is left at its default -/
  | reapStuckSweep (timeoutSec : ℤ)
  /-- `queue reap` of the CLI -/
  | reapStuckCli (timeoutSec : ℤ)
  /-- `queue reap` of the CLI, and the nightly run -/
  | reapFailed (limit : Option ℤ)

/-- The operation it sends. -/
def Upkeep.op (settings : PipelineSettings) : Upkeep → Option Op
  | .enqueue op => if op.isEnqueue then some op else none
  | .claim limit => some (.claimNextBatch limit)
  | .process record p i => (processRecord record p)[i]?
  | .defer record => some (deferRecord record)
  | .reapStuckSweep timeoutSec => some (.reapStuckProcessing timeoutSec 3)
  | .reapStuckCli timeoutSec => some (.reapStuckProcessing timeoutSec settings.maxAttempts)
  | .reapFailed limit => some (.reapFailedOrAborted limit (some (.fromSettings settings)))

/-- Nobody acts for a record that was never handed out. -/
def Upkeep.Possible (w : World) : Upkeep → Prop
  | .process record _ _ => record ∈ w.held
  | .defer record => record ∈ w.held
  | _ => True

/-- The worlds that runs reach whose steps all satisfy `cond`. -/
inductive Upkept (sha : Sha256) (settings : PipelineSettings)
    (cond : World → Env → Upkeep → Prop) : World → Prop where
  | init : Upkept sha settings cond World.init
  | step {w : World} {env : Env} {a : Upkeep} {op : Op} : Upkept sha settings cond w →
      a.Possible w → a.op settings = some op → cond w env a →
      Upkept sha settings cond (w.after sha ⟨env, op⟩)

/-! ## The claim -/

/-- `should_retry` has nothing against the exception itself. -/
def Exc.retryable (exc : Exc) : Bool :=
  !exc.fatal && !(exc.name = "ValidationError" ||
    nonRetryableSchemaSignatures.any fun sig => instr exc.message.toList sig.toList)

/-- Every attempt of `id` fails, with a retryable error. -/
def Upkeep.Fails (id : String) : Upkeep → Prop
  | .process record p _ => record.id = id → p.backstop = none ∧
      ∃ exc, exc.retryable = true ∧ (p.ingestion = .raised exc ∨ p.ingestion = .raisedEarly exc)
  | _ => True

/-- How many times `id` has been claimed. -/
def World.claims (w : World) (id : String) : ℕ := w.held.countP fun record => record.id = id

/-- `id` has been claimed at most `n` times, and has a dead letter exactly if it has used
up `n` attempts. -/
def World.Budgeted (w : World) (n : ℕ) (id : String) : Prop :=
  w.claims id ≤ n ∧ ∀ e, w.db.episodes.get? id = some e →
    ((w.db.deadLetter.get? id).isSome ↔ n ≤ e.attemptCount)

/-- The decision about `id` is the one that the configured bound would take. -/
def Upkeep.Agrees (settings : PipelineSettings) (id : String) (w : World) (env : Env) :
    Upkeep → Prop
  | .process record p i => ∀ exc e, record.id = id →
      (processRecord record p)[i]? = some (failurePath record exc) →
      w.db.episodes.get? id = some e → e.attemptCount < settings.maxAttempts →
      (3 ≤ record.attemptCount + 1 ↔ settings.maxAttempts ≤ e.attemptCount + 1)
  | .defer record => ∀ e, record.id = id → w.db.episodes.get? id = some e →
      e.attemptCount + 1 ≠ settings.maxAttempts
  | .reapStuckSweep timeoutSec => ∀ e, w.db.episodes.get? id = some e →
      e.status = .processing → e.stuck (env.clock id) timeoutSec →
      (3 ≤ e.attemptCount + 1 ↔ settings.maxAttempts ≤ e.attemptCount + 1)
  | .reapFailed _ => ∀ e, w.db.episodes.get? id = some e →
      reapEligible (.fromSettings settings) e (w.db.deadLetter.get? id) →
      e.attemptCount < settings.maxAttempts
  | _ => True

/-! ## One operation -/

/-- What an operation must not do to `id`, for a bound of `n`. -/
def Op.Conforms (n : ℕ) (id : String) (env : Env) (s : Slot) : Op → Prop
  | .markFailed id' _ => id' = id → ∀ e, s.episode = some e → e.attemptCount + 1 ≠ n
  | .markAborted id' _ => id' = id → ∃ e, s.episode = some e ∧ n ≤ e.attemptCount + 1
  | .reapStuckProcessing timeoutSec maxAttempts => ∀ e, s.episode = some e →
      e.status = .processing → e.stuck (env.clock id) timeoutSec →
      (maxAttempts ≤ (e.attemptCount + 1 : ℕ) ↔ n ≤ e.attemptCount + 1)
  | .reapFailedOrAborted _ policy => ∀ e, s.episode = some e →
      reapEligible (policy.getD {}) e s.deadLetter → e.attemptCount < n
  | .markDone id' => id' ≠ id
  | .markSkippedDuplicate id' _ _ => id' ≠ id
  | .replayDlqEpisode _ _ => False
  | .replayDlqBatch .. => False
  | _ => True

/-- The episode of the slot is within a budget of `n` attempts, after `claims` claims. -/
structure Slot.WithinBudget (n claims : ℕ) (s : Slot) : Prop where
  /-- before it is enqueued there is nothing -/
  none : s.episode = none → s.deadLetter = none ∧ claims = 0
  letter : ∀ e, s.episode = some e → (s.deadLetter.isSome ↔ n ≤ e.attemptCount)
  active : ∀ e, s.episode = some e → e.status ∈ activeStatuses → e.attemptCount < n
  /-- an attempt is counted when its claim ends -/
  counted : ∀ e, s.episode = some e → claims ≤ e.attemptCount +
    if e.status = .processing ∨ e.status = .skippedDuplicate then 1 else 0
  claims_le : claims ≤ n

/-- The rule for an episode that is there. -/
theorem Slot.withinBudget_some {n claims : ℕ} {e : Episode} {d : Option DeadLetter}
    (letter : d.isSome ↔ n ≤ e.attemptCount)
    (active : e.status ∈ activeStatuses → e.attemptCount < n)
    (counted : claims ≤ e.attemptCount +
      if e.status = .processing ∨ e.status = .skippedDuplicate then 1 else 0)
    (claims_le : claims ≤ n) : (⟨some e, d⟩ : Slot).WithinBudget n claims where
  none := by rintro ⟨⟩
  letter := by rintro e' ⟨⟩; exact letter
  active := by rintro e' ⟨⟩; exact active
  counted := by rintro e' ⟨⟩; exact counted
  claims_le := claims_le

/-- **Step.** A conforming operation that does not hand out the episode keeps it within its
budget. Each case of `Move` either leaves attempts and claims alone or counts one attempt for
a claim that was made. -/
theorem Slot.WithinBudget.move {n claims : ℕ} {env : Env} {id : String} {op : Op} {s s' : Slot}
    (hn : 1 ≤ n) (h : s.WithinBudget n claims) (hmove : Move env id op s s')
    (hop : op.Conforms n id env s) (hclaim : ∀ limit, op = .claimNextBatch limit → s' = s) :
    s'.WithinBudget n claims := by
  cases hmove with
  | stay => exact h
  | inserted =>
    obtain ⟨rfl, rfl⟩ := h.none rfl
    refine withinBudget_some ?_ (fun _ => ?_) (Nat.zero_le _) (Nat.zero_le _)
    · simp only [newEpisode, Option.isSome_none, Bool.false_eq_true, false_iff]
      omega
    · simp only [newEpisode]
      omega
  | claimed =>
    rw [hclaim _ rfl]
    exact h
  | done => exact absurd rfl hop
  | skipped => exact absurd rfl hop
  | @failed error e d =>
    rcases e with _ | e
    · exact h
    · have hne := hop rfl e rfl
      have hletter := h.letter e rfl
      have hcounted := h.counted e rfl
      refine withinBudget_some ?_ ?_ ?_ h.claims_le
      · simp only [hletter, EpisodeUpdate.set]
        omega
      · simp [EpisodeUpdate.set, activeStatuses]
      · simp only [EpisodeUpdate.set]
        split at hcounted <;> omega
  | @aborted error e d =>
    obtain ⟨e, rfl, hle⟩ := hop rfl
    have hcounted := h.counted e rfl
    refine withinBudget_some ?_ ?_ ?_ h.claims_le
    · simpa [EpisodeUpdate.set] using hle
    · simp [EpisodeUpdate.set, activeStatuses]
    · simp only [EpisodeUpdate.set, Option.map_some, Option.getD_some]
      split at hcounted <;> omega
  | @checkpoint text e d =>
    rcases e with _ | e
    · exact h
    · exact withinBudget_some (h.letter e rfl) (h.active e rfl) (h.counted e rfl) h.claims_le
  | @reapAborted timeoutSec maxAttempts e d hprocessing hstuck hmax =>
    have hle := (hop e rfl hprocessing hstuck).mp hmax
    have hcounted := h.counted e rfl
    refine withinBudget_some ?_ ?_ ?_ h.claims_le
    · simpa [EpisodeUpdate.set] using hle
    · simp [EpisodeUpdate.set, activeStatuses]
    · simp only [EpisodeUpdate.set]
      split at hcounted <;> omega
  | @reapRequeued timeoutSec maxAttempts e d hprocessing hstuck hmax =>
    have hlt : e.attemptCount + 1 < n := by
      by_contra hge
      have := (hop e rfl hprocessing hstuck).mpr (by omega)
      omega
    have hletter := h.letter e rfl
    have hcounted := h.counted e rfl
    refine withinBudget_some ?_ (fun _ => hlt) ?_ h.claims_le
    · simp only [hletter, EpisodeUpdate.set]
      omega
    · simp only [EpisodeUpdate.set]
      split at hcounted <;> omega
  | @reapSkipped timeoutSec maxAttempts e d hprocessing hstuck =>
    have hcounted := h.counted e rfl
    refine withinBudget_some (h.letter e rfl) ?_ ?_ h.claims_le
    · simp [EpisodeUpdate.set, activeStatuses]
    · simp only [EpisodeUpdate.set, or_true, if_true]
      split at hcounted <;> omega
  | @reaped limit policy e d helig =>
    have hlt := hop e rfl helig
    have hcounted := h.counted e rfl
    have hstatus : ¬ (e.status = .processing ∨ e.status = .skippedDuplicate) := by
      simp only [reapEligible, Bool.and_eq_true, Bool.or_eq_true, beq_iff_eq] at helig
      rintro (hs | hs) <;> simp [hs] at helig
    rw [if_neg hstatus] at hcounted
    exact withinBudget_some (h.letter e rfl) (fun _ => hlt) (by simpa [EpisodeUpdate.set] using hcounted)
      h.claims_le
  | replayed => exact hop.elim
  | replayedBatch => exact hop.elim
  | replayClosed => exact hop.elim

/-- **Claim.** A claim uses one unit of the budget: only a queued episode is claimed, and a
queued one has attempts left. -/
theorem Slot.WithinBudget.claimed {n claims : ℕ} {e : Episode} {d : Option DeadLetter} {now : ℕ}
    (h : (⟨some e, d⟩ : Slot).WithinBudget n claims) (hqueued : e.status = .queued) :
    (⟨some (e.claim now), d⟩ : Slot).WithinBudget n (claims + 1) := by
  have hlt := h.active e rfl (by simp [hqueued, activeStatuses])
  have hcounted := h.counted e rfl
  simp only [hqueued, reduceCtorEq, or_self, if_false] at hcounted
  refine withinBudget_some (h.letter e rfl) (fun _ => hlt) ?_ (by omega)
  simp only [Episode.claim, true_or, if_true]
  omega

/-! ## Claims -/

theorem World.claims_after (sha : Sha256) (w : World) (st : Step) (id : String) :
    (w.after sha st).claims id =
      w.claims id + (handedOut (st.result sha w.db)).countP fun record => record.id = id :=
  List.countP_append

/-- A claim that does not hand out an episode leaves it alone. -/
theorem Step.slot_of_not_handedOut {sha : Sha256} {db : Db} {env : Env} {limit : Option ℤ}
    {id : String} (h : ((handedOut ((⟨env, .claimNextBatch limit⟩ : Step).result sha db)).countP
      fun record => record.id = id) = 0) :
    ((⟨env, .claimNextBatch limit⟩ : Step).exec sha db).slot id = db.slot id := by
  rw [result_of_map (f := OpResult.records) rfl, fst_claimNextBatch] at h
  rw [exec_claimNextBatch, Db.apply_claim]
  split
  · rfl
  split
  · rfl
  rename_i hrej
  rw [if_neg hrej] at h
  have hid : id ∉ (db.queueHead env.rank limit).map Prod.fst := by
    intro hid
    obtain ⟨row, hrow, rfl⟩ := List.mem_map.mp hid
    exact List.countP_eq_zero.mp h _ (List.mem_map_of_mem hrow) (by simp [claimRecord])
  rw [Db.slot_claim]
  simp only [hid, if_false, Option.map_id']
  rfl

/-- A step hands out an episode at most once, and then it has claimed it. -/
theorem Step.handedOut_cases (sha : Sha256) (db : Db) (st : Step) (id : String) :
    ((handedOut (st.result sha db)).countP fun record => record.id = id) = 0 ∨
      ((handedOut (st.result sha db)).countP fun record => record.id = id) = 1 ∧
        ∃ e, db.episodes.get? id = some e ∧ e.status = .queued ∧
          (st.exec sha db).slot id = ⟨some (e.claim st.env.now), db.deadLetter.get? id⟩ := by
  rcases Nat.eq_zero_or_pos
    ((handedOut (st.result sha db)).countP fun record => record.id = id) with hzero | hpos
  · exact Or.inl hzero
  · obtain ⟨record, hmem, hid⟩ := List.countP_pos_iff.mp hpos
    have hid : record.id = id := by simpa using hid
    obtain ⟨records, hresult⟩ : ∃ records, st.result sha db = .ok (.records records) := by
      rcases hr : st.result sha db with err | r
      · simp [hr, handedOut] at hmem
      · cases r with
        | records records => exact ⟨records, rfl⟩
        | _ => simp [hr, handedOut] at hmem
    have hmem' : record ∈ records := by simpa [hresult, handedOut] using hmem
    obtain ⟨limit, e, hop, he, hqueued, hexec⟩ :=
      Step.returns_cases ⟨records, hresult, record, hmem', hid⟩
    refine Or.inr ⟨?_, e, he, hqueued, ?_⟩
    · -- the head of the queue has no episode twice
      obtain ⟨env, op⟩ := st
      obtain rfl : op = .claimNextBatch limit := hop
      obtain ⟨hrecords, -⟩ := records_eq hresult
      have hnodup : ((db.queueHead env.rank limit).map Prod.fst).Nodup := nodup_selected _ _ _ _ _
      have hcount : ((db.queueHead env.rank limit).map Prod.fst).count id ≤ 1 :=
        List.nodup_iff_count_le_one.mp hnodup id
      have hsame : ((db.queueHead env.rank limit).map (claimRecord env.now)).countP
          (fun record => record.id = id) = ((db.queueHead env.rank limit).map Prod.fst).count id := by
        rw [List.count, List.countP_map, List.countP_map]
        rfl
      rw [hresult, handedOut, hrecords, hsame] at hpos ⊢
      omega
    · have hmove := st.move sha db id
      rw [hop] at hmove
      have hdead : ((st.exec sha db).slot id).deadLetter = (db.slot id).deadLetter := by
        generalize (st.exec sha db).slot id = s' at hmove
        generalize db.slot id = s at hmove
        cases hmove <;> rfl
      exact Slot.ext hexec hdead

/-! ## Runs -/

theorem shouldRetry_of_retryable {exc : Exc} (h : exc.retryable = true) (record : EpisodeRecord)
    (maxAttempts : ℕ) :
    shouldRetry record exc maxAttempts = decide (record.attemptCount + 1 < maxAttempts) := by
  simp only [Exc.retryable, Bool.and_eq_true, Bool.not_eq_true', Bool.or_eq_false_iff] at h
  obtain ⟨hfatal, hname, hsig⟩ := h
  by_cases hmax : maxAttempts ≤ record.attemptCount + 1
  · rw [shouldRetry, if_pos hmax, eq_comm, decide_eq_false_iff_not]
    omega
  · rw [shouldRetry, if_neg hmax, hfatal]
    simp only [hname, hsig, Bool.or_self, Bool.false_eq_true, if_false]
    rw [eq_comm, decide_eq_true_iff]
    omega

/-- The worker of a failing attempt writes the checkpoint, or takes the failure path. -/
theorem op_of_fails {record : EpisodeRecord} {p : Processing} {i : ℕ} {op : Op}
    (hfails : (Upkeep.process record p i).Fails record.id)
    (hop : (processRecord record p)[i]? = some op) :
    (∃ text, op = .updateCheckpoint record.id text) ∨
      ∃ exc, exc.retryable = true ∧ op = failurePath record exc := by
  obtain ⟨hbackstop, exc, hretry, hraised⟩ := hfails rfl
  have hmem := List.mem_of_getElem? hop
  rcases hraised with hraised | hraised <;>
    simp only [processRecord, hbackstop, hraised, List.mem_cons, List.not_mem_nil, or_false] at hmem
  · rcases hmem with rfl | rfl
    · exact Or.inl ⟨_, rfl⟩
    · exact Or.inr ⟨exc, hretry, rfl⟩
  · exact Or.inr ⟨exc, hretry, hmem⟩

/-- An operation that only touches another episode conforms. -/
theorem conforms_of_processRecord_ne {record : EpisodeRecord} {p : Processing} {op : Op}
    (hop : op ∈ processRecord record p) {id : String} (hid : record.id ≠ id) (n : ℕ) (env : Env)
    (s : Slot) : op.Conforms n id env s := by
  rcases processRecord_cases hop with ⟨_, _, rfl⟩ | ⟨_, rfl⟩ | rfl | ⟨exc, rfl⟩
  · exact hid
  · trivial
  · exact hid
  · unfold failurePath
    split
    · exact fun h => absurd h hid
    · exact fun h => absurd h hid

/-- A decision that agrees with the setting conforms to it. This is where the four places
that decide come together: each has a bound of its own, and agreement is about the episode at
hand, not about the bounds. -/
theorem Upkeep.conforms {settings : PipelineSettings} {id : String} {w : World} {env : Env}
    {a : Upkeep} {op : Op} (hpossible : a.Possible w) (hop : a.op settings = some op)
    (hfails : a.Fails id) (hagrees : a.Agrees settings id w env)
    (h : (w.db.slot id).WithinBudget settings.maxAttempts (w.claims id)) :
    op.Conforms settings.maxAttempts id env (w.db.slot id) := by
  -- a record that was handed out is of an episode
  have hheld : ∀ record ∈ w.held, record.id = id → ∃ e, w.db.episodes.get? id = some e := by
    intro record hrecord hid
    rcases he : w.db.episodes.get? id with _ | e
    · have hpos : 0 < w.claims id := List.countP_pos_iff.mpr ⟨record, hrecord, by simpa using hid⟩
      have hzero := (h.none he).2
      omega
    · exact ⟨e, rfl⟩
  cases a with
  | enqueue op' =>
    simp only [Upkeep.op] at hop
    split at hop
    · obtain rfl := Option.some.inj hop
      cases op' <;> trivial
    · cases hop
  | claim limit =>
    obtain rfl := Option.some.inj hop
    trivial
  | process record p i =>
    by_cases hid : record.id = id
    · subst hid
      rcases op_of_fails hfails hop with ⟨text, rfl⟩ | ⟨exc, hretry, rfl⟩
      · trivial
      · obtain ⟨e, he⟩ := hheld record hpossible rfl
        have hdecision := hagrees exc e rfl hop he
        have hshould := shouldRetry_of_retryable hretry record 3
        rcases hs : shouldRetry record exc 3 with _ | _
        · rw [hs, eq_comm, decide_eq_false_iff_not] at hshould
          simp only [failurePath, hs, Bool.false_eq_true, if_false]
          refine fun _ => ⟨e, he, ?_⟩
          by_cases hlt : e.attemptCount < settings.maxAttempts
          · exact (hdecision hlt).mp (by omega)
          · omega
        · rw [hs, eq_comm, decide_eq_true_iff] at hshould
          simp only [failurePath, hs, if_true]
          intro _ e' he' hlast
          obtain rfl := Option.some.inj (he.symm.trans he')
          have := (hdecision (by omega)).mpr (by omega)
          omega
    · exact conforms_of_processRecord_ne (List.mem_of_getElem? hop) hid _ _ _
  | defer record =>
    obtain rfl := Option.some.inj hop
    exact fun hid e he => hagrees e hid he
  | reapStuckSweep timeoutSec =>
    obtain rfl := Option.some.inj hop
    intro e he hprocessing hstuck
    have := hagrees e he hprocessing hstuck
    omega
  | reapStuckCli timeoutSec =>
    obtain rfl := Option.some.inj hop
    intro e he hprocessing hstuck
    omega
  | reapFailed limit =>
    obtain rfl := Option.some.inj hop
    exact fun e he helig => hagrees e he helig

/-- **Run.** Every world that agreeing decisions reach is within the budget, by induction on
the run. -/
theorem Upkept.withinBudget {sha : Sha256} {settings : PipelineSettings} {id : String} {w : World}
    (hn : 1 ≤ settings.maxAttempts)
    (hrun : Upkept sha settings
      (fun w env a => a.Fails id ∧ a.Agrees settings id w env) w) :
    (w.db.slot id).WithinBudget settings.maxAttempts (w.claims id) := by
  induction hrun with
  | init =>
    exact
      { none := fun _ => ⟨rfl, rfl⟩
        letter := by rintro e ⟨⟩
        active := by rintro e ⟨⟩
        counted := by rintro e ⟨⟩
        claims_le := Nat.zero_le _ }
  | @step w env a op _ hpossible hop hcond ih =>
    obtain ⟨hfails, hagrees⟩ := hcond
    rw [World.claims_after]
    rcases Step.handedOut_cases sha w.db ⟨env, op⟩ id with hzero | ⟨hone, e, he, hqueued, hslot⟩
    · rw [hzero, Nat.add_zero]
      refine ih.move hn (Step.move sha ⟨env, op⟩ w.db id)
        (Upkeep.conforms hpossible hop hfails hagrees ih) ?_
      rintro limit rfl
      exact Step.slot_of_not_handedOut hzero
    · rw [hone]
      change ((Step.exec sha w.db ⟨env, op⟩).slot id).WithinBudget _ _
      rw [hslot]
      have hslot₀ : w.db.slot id = ⟨some e, w.db.deadLetter.get? id⟩ := by simp [Db.slot, he]
      rw [hslot₀] at ih
      exact ih.claimed hqueued

/-- **Attempt budget.** In every run of sweeps and reaps whose decisions about an episode are
those the configured bound would take, an episode that always fails is claimed at most
`max_attempts` times, and dead-lettered when its attempts reach that number. Each claim is
paid for by the failure, abort or reap that ends it, and the last one that the budget allows
is the one that opens the dead letter. -/
theorem attempt_budget (sha : Sha256) (settings : PipelineSettings) (id : String) {w : World}
    (hn : 1 ≤ settings.maxAttempts)
    (hrun : Upkept sha settings
      (fun w env a => a.Fails id ∧ a.Agrees settings id w env) w) :
    w.Budgeted settings.maxAttempts id :=
  ⟨(hrun.withinBudget hn).claims_le, (hrun.withinBudget hn).letter⟩

/-- `asyncio.TimeoutError()` -/
def timeoutExc : Exc := ⟨"TimeoutError", false, ""⟩

/-- The only episode has been claimed once, and has timed out. -/
def timedOutOnce : World :=
  ((World.init.after .plain ⟨.at 1, .enqueue { content := "c", episodeId := some "e", mode := .off }⟩).after
    .plain ⟨.at 2, .claimNextBatch none⟩).after .plain ⟨.at 3, failurePath firstRecord timeoutExc⟩

/-- It is reached by an enqueue, a claim and a failure. -/
theorem upkept_timedOutOnce {settings : PipelineSettings} {cond : World → Env → Upkeep → Prop}
    (henqueue : ∀ w env op, cond w env (.enqueue op)) (hclaim : ∀ w env limit, cond w env (.claim limit))
    (hfailure : cond ((World.init.after .plain
        ⟨.at 1, .enqueue { content := "c", episodeId := some "e", mode := .off }⟩).after .plain
        ⟨.at 2, .claimNextBatch none⟩) (.at 3)
      (.process firstRecord ⟨none, .raisedEarly timeoutExc⟩ 0)) :
    Upkept .plain settings cond timedOutOnce := by
  refine .step (a := .process firstRecord ⟨none, .raisedEarly timeoutExc⟩ 0) (.step (a := .claim none)
    (.step (a := .enqueue (.enqueue { content := "c", episodeId := some "e", mode := .off })) .init
      trivial rfl (henqueue _ _ _)) trivial rfl (hclaim _ _ _)) ?_ rfl hfailure
  exact List.mem_singleton.mpr rfl

theorem fails_timeout (id : String) :
    (Upkeep.process firstRecord ⟨none, .raisedEarly timeoutExc⟩ 0).Fails id :=
  fun _ => ⟨rfl, timeoutExc, by decide +kernel, Or.inr rfl⟩

/-- With the default bound, which is also that of the worker. -/
theorem attempt_budget_default : timedOutOnce.Budgeted 3 "e" := by
  refine attempt_budget .plain {} "e" (by decide) (upkept_timedOutOnce ?_ ?_ ?_)
  · exact fun _ _ _ => ⟨trivial, trivial⟩
  · exact fun _ _ _ => ⟨trivial, trivial⟩
  · refine ⟨fails_timeout "e", ?_⟩
    intro exc e _ _ he _
    obtain rfl := Option.some.inj he
    decide

/-- With a bound of 1: the first failure uses up the budget, and leaves no dead letter. -/
theorem not_attempt_budget :
    (∃ w, Upkept .plain { maxAttempts := 1 } (fun _ _ a => a.Fails "e") w ∧ ¬ w.Budgeted 1 "e") := by
  refine ⟨timedOutOnce, upkept_timedOutOnce (fun _ _ _ => trivial) (fun _ _ _ => trivial)
    (fails_timeout "e"), fun hbudget => ?_⟩
  have hletter := (hbudget.2 _ rfl).mpr (by decide)
  exact absurd hletter (by decide)

end JanusGraph
