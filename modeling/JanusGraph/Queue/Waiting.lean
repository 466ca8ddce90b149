import JanusGraph.Queue.Attempts
import JanusGraph.Queue.Fifo
import JanusGraph.Queue.UniqueIndex

/-!
# Nobody waits for ever

An episode in the queue is overtaken by nobody: what is enqueued or requeued after it goes behind
it, and every claim that leaves it takes as many of those in front as it may. So the claims that
leave it waiting have room for no more episodes than were in front of it to begin with
(`Db.Waiting.run`), whatever else happens in between.

It keeps its place unless it gives it up itself: a replay of its own dead letter writes a new
`enqueued_at`, though the episode is queued already. An episode that never was in the dead-letter
table has none to replay.

* **The front.** `Db.ahead` are the other episodes that are queued and were not queued later. It
  only shrinks (`Step.ahead_subset`): each statement that queues an episode writes the time of
  its operation (`EpisodeUpdate.queued_set`, `rowInvariant_enqueuedAt`).
* **One claim.** If it leaves the episode, the head of the queue it has selected is full, and all
  of it comes from the front (`Db.Waiting.claim`). The episodes are queued when they are
  claimed, so that the index refuses nothing.
* **One step** of any kind is accounted for by its `room` (`Db.Waiting.step`), which is 0 for
  everything but a claim.

The measure is the number of episodes in front. It says nothing of how long a claim may be
away, and nothing has to be assumed of the clock but that it goes on.
-/

namespace JanusGraph

/-- The episode is queued, since `since`. -/
def Db.Waiting (db : Db) (id : String) (since : ℕ) : Prop :=
  ∃ e, db.episodes.get? id = some e ∧ e.status = .queued ∧ e.enqueuedAt = since

/-- The other episodes that were queued no later. -/
def Db.ahead (db : Db) (id : String) (since : ℕ) : List String :=
  (db.episodes.rows.filter fun r =>
    r.1 ≠ id && (r.2.status == .queued && decide (r.2.enqueuedAt ≤ since))).map Prod.fst

/-- How many episodes the step may claim. -/
def Step.room (st : Step) : ℕ :=
  match st.op with
  | .claimNextBatch limit => (claimLimit limit).toNat
  | _ => 0

/-- What the claims of a serial run hand out. -/
def handedOutIn (sha : Sha256) : Db → List Step → List EpisodeRecord
  | _, [] => []
  | db, st :: steps => handedOut (st.result sha db) ++ handedOutIn sha (st.exec sha db) steps

section

variable {db : Db} {id : String} {since : ℕ}

/-- Who is in front. -/
theorem Db.mem_ahead {id' : String} :
    id' ∈ db.ahead id since ↔ id' ≠ id ∧
      ∃ e, db.episodes.get? id' = some e ∧ e.status = .queued ∧ e.enqueuedAt ≤ since := by
  rw [ahead, List.mem_map]
  constructor
  · rintro ⟨⟨id', e⟩, hr, rfl⟩
    obtain ⟨hrow, hp⟩ := List.mem_filter.mp hr
    simp only [Bool.and_eq_true, decide_eq_true_eq, beq_iff_eq] at hp
    exact ⟨hp.1, e, Table.mem_rows.mp hrow, hp.2⟩
  · rintro ⟨hne, e, he, hqueued, hle⟩
    refine ⟨(id', e), List.mem_filter.mpr ⟨Table.mem_rows.mpr he, ?_⟩, rfl⟩
    simp [hne, hqueued, hle]

/-- Everybody is in front once. -/
theorem Db.nodup_ahead : (db.ahead id since).Nodup :=
  Table.nodup_keys_of_sublist_perm List.filter_sublist (List.Perm.refl _)

/-! ## Nobody comes in front -/

/-- An update that queues an episode puts it at the end. -/
theorem EpisodeUpdate.queued_set {u : EpisodeUpdate} {e : Episode}
    (h : (u.set e).status = .queued) :
    (u.set e).enqueuedAt = u.now ∨ e.status = .queued ∧ (u.set e).enqueuedAt = e.enqueuedAt := by
  cases u with
  | checkpoint => exact .inr ⟨h, rfl⟩
  | requeueStuck | replayBatch => exact .inl rfl
  | requeue now extra => cases extra <;> exact .inl rfl
  | done | failed | aborted | skipReaped | skipDuplicate => cases h

/-- An inserted row is queued at the time of the operation. -/
theorem rowInvariant_enqueuedAt (sha : Sha256) (now : ℕ) :
    RowInvariant sha now fun e => e.enqueuedAt = now where
  inserted _ _ _ _ _ _ _ := rfl
  claimed _ he := he
  updated u e hu he := by
    subst hu
    cases u with
    | requeueStuck | replayBatch => rfl
    | requeue now extra => cases extra <;> rfl
    | done | failed | aborted | checkpoint | skipReaped | skipDuplicate => exact he

/-- What a writer sends leaves the front as it was. -/
theorem Write.Brings.ahead_subset {now : ℕ} {w : Write}
    (h : w.Brings fun e => e.enqueuedAt = now) (hlater : since < now) {front : List String}
    (hdb : db.ahead id since ⊆ front) :
    (Script.applied Write.exec db w).ahead id since ⊆ front := by
  obtain ⟨ev, rfl⟩ | ⟨id', e', rfl, he'⟩ := h
  · exact hdb
  · rcases hexec : Write.exec (.insertEpisode id' e') db with err | ⟨n, db'⟩
    · rwa [Script.applied_error hexec]
    · rw [Script.applied_ok hexec]
      obtain ⟨-, rfl⟩ := Db.insertEpisode_ok hexec
      intro id'' hmem
      obtain ⟨hne, e, he, hqueued, hle⟩ := Db.mem_ahead.mp hmem
      rw [Table.get?_put] at he
      split at he
      · -- the new row is queued later
        obtain rfl := Option.some.inj he
        omega
      · exact hdb (Db.mem_ahead.mpr ⟨hne, e, he, hqueued, hle⟩)

/-- **Later, nobody comes in front.** Whoever is queued by a later step is queued at the time
of that step, and whoever was queued before stays or leaves. -/
theorem Step.ahead_subset (sha : Sha256) {st : Step} (hlater : since < st.env.now) :
    (st.exec sha db).ahead id since ⊆ db.ahead id since := by
  obtain ⟨env, op⟩ := st
  rcases hop : op.isEnqueue with _ | _
  · intro id' hmem
    obtain ⟨hne, e', he', hqueued, hle⟩ := Db.mem_ahead.mp hmem
    have hmove := Step.move sha ⟨env, op⟩ db id'
    refine Db.mem_ahead.mpr ⟨hne, ?_⟩
    rcases he : db.episodes.get? id' with _ | e
    · rw [← Db.slot_episode, hmove.eq_none hop he] at he'
      cases he'
    · obtain ⟨e'', he'', hbecomes⟩ := hmove.becomes he
      obtain rfl := Option.some.inj (he''.symm.trans he')
      refine ⟨e, rfl, ?_⟩
      rcases hbecomes with rfl | rfl | ⟨u, hu, rfl⟩
      · exact ⟨hqueued, hle⟩
      · cases hqueued
      · rcases EpisodeUpdate.queued_set hqueued with hnow | ⟨hqueued', hsame⟩
        · exact absurd hle (by rw [hnow, hu]; exact not_le.mpr hlater)
        · exact ⟨hqueued', hsame ▸ hle⟩
  · have hkeeps : ∀ w, Write.Brings (fun e => e.enqueuedAt = env.now) w → ∀ d : Db,
        d.ahead id since ⊆ db.ahead id since →
        (Script.applied Write.exec d w).ahead id since ⊆ db.ahead id since :=
      fun w hw d hd => hw.ahead_subset hlater hd
    have hQ := rowInvariant_enqueuedAt sha env.now
    cases op with
    | enqueue args =>
      exact Script.Sends.exec (Prog.Only.bind (sends_enqueue hQ args) fun _ => Prog.only_ret _)
        hkeeps (List.Subset.refl _)
    | enqueueGuarded lockMode instanceId content groupId name sourceDescription mode =>
      exact Script.Sends.exec (Prog.Only.bind (sends_enqueueGuarded hQ lockMode instanceId content
        groupId name sourceDescription mode) fun _ => Prog.only_ret _) hkeeps (List.Subset.refl _)
    | _ => cases hop

/-! ## A claim takes those in front -/

/-- A limit that is not positive is not used, so that every claim has room for somebody. -/
theorem claimLimit_pos (limit : Option ℤ) : 0 < claimLimit limit := by
  rcases limit with _ | n
  · decide
  · rw [claimLimit, Option.filter_some]
    split
    · next hpos => simpa using hpos
    · decide

/-- A head of the queue that leaves somebody is full. -/
theorem Db.length_queueHead {rank : String → ℕ} {limit : Option ℤ} {e : Episode}
    (he : db.episodes.get? id = some e) (hqueued : e.status = .queued)
    (hleft : id ∉ (db.queueHead rank limit).map Prod.fst) :
    (db.queueHead rank limit).length = (claimLimit limit).toNat := by
  have hmem : (id, e) ∈ Table.orderBy (fun r : String × Episode => r.2.enqueuedAt) rank
      (db.episodes.rows.filter fun r => r.2.status == .queued) :=
    Table.mem_orderBy.mpr (List.mem_filter.mpr ⟨Table.mem_rows.mpr he, by simp [hqueued]⟩)
  have hnot : (id, e) ∉ db.queueHead rank limit := fun h => hleft (List.mem_map_of_mem h)
  have hpos := claimLimit_pos limit
  rw [queueHead, sqlLimit, if_neg (by omega)] at hnot ⊢
  rw [List.length_take, Nat.min_eq_left]
  by_contra hshort
  rw [List.take_of_length_le (by omega)] at hnot
  exact hnot hmem

/-- A claim of queued episodes meets nothing the index refuses. -/
theorem Db.Disciplined.rejectsClaim_queueHead (hdb : db.Disciplined) (env : Env)
    (limit : Option ℤ) :
    db.rejectsClaim ((db.queueHead env.rank limit).map Prod.fst) env.now = false := by
  refine hdb.rejectsClaim_of_clear ?_ env.now
  intro id' hid' e hash he hinactive
  obtain ⟨r, hr, rfl⟩ := List.mem_map.mp hid'
  obtain ⟨hget, hqueued⟩ := Db.mem_queueHead hr
  obtain rfl := Option.some.inj (hget.symm.trans he)
  exact absurd (by simp [hqueued, activeStatuses]) hinactive

/-- A claim hands out the head of the queue; it cannot fail. -/
theorem handedOut_claim (sha : Sha256) (hdb : db.Disciplined) (env : Env) (limit : Option ℤ) :
    handedOut ((⟨env, .claimNextBatch limit⟩ : Step).result sha db) =
      (db.queueHead env.rank limit).map (claimRecord env.now) := by
  rw [Step.result_of_map (f := OpResult.records) rfl, fst_claimNextBatch,
    hdb.rejectsClaim_queueHead env limit]
  rfl

/-- **One claim.** If it leaves the episode waiting it hands out as many as it may, all from
the front: its head of the queue was full without the episode, and the head is in the order
of the queue. -/
theorem Db.Waiting.claim (sha : Sha256) (hdb : db.Disciplined) (hwait : db.Waiting id since)
    {env : Env} {limit : Option ℤ} (hlater : since < env.now)
    (hstill : ((⟨env, .claimNextBatch limit⟩ : Step).exec sha db).Waiting id since) :
    (handedOut ((⟨env, .claimNextBatch limit⟩ : Step).result sha db)).length =
        (claimLimit limit).toNat ∧
      (((⟨env, .claimNextBatch limit⟩ : Step).exec sha db).ahead id since).length +
        (claimLimit limit).toNat ≤ (db.ahead id since).length := by
  obtain ⟨e, he, hqueued, hsince⟩ := hwait
  obtain ⟨e', he', hqueued', -⟩ := hstill
  have haccepted := hdb.rejectsClaim_queueHead env limit
  obtain ⟨-, hleft⟩ := Step.queued_of_claim haccepted he' hqueued'
  have hlength := Db.length_queueHead he hqueued hleft
  refine ⟨by rw [handedOut_claim sha hdb, List.length_map, hlength], ?_⟩
  -- the head is part of the front, and is no longer queued
  have hhead : (db.queueHead env.rank limit).map Prod.fst ⊆ db.ahead id since := by
    intro id' hid'
    obtain ⟨r, hr, rfl⟩ := List.mem_map.mp hid'
    obtain ⟨hget, hq⟩ := Db.mem_queueHead hr
    refine Db.mem_ahead.mpr ⟨fun hid => hleft (hid ▸ hid'), r.2, hget, hq, ?_⟩
    exact hsince ▸ Db.enqueuedAt_le_of_queueHead hr he hqueued hleft
  have hdisjoint : ((⟨env, .claimNextBatch limit⟩ : Step).exec sha db |>.ahead id since).Disjoint
      ((db.queueHead env.rank limit).map Prod.fst) := by
    intro id' hahead hid'
    obtain ⟨-, e'', he'', hq, -⟩ := Db.mem_ahead.mp hahead
    exact (Step.queued_of_claim haccepted he'' hq).2 hid'
  have hfront : ((⟨env, .claimNextBatch limit⟩ : Step).exec sha db).ahead id since ⊆
      db.ahead id since := Step.ahead_subset sha hlater
  have hheadNodup : ((db.queueHead env.rank limit).map Prod.fst).Nodup := nodup_selected _ _ _ _ _
  have hnodup := Db.nodup_ahead.append hheadNodup hdisjoint
  have hsubset := List.append_subset.mpr ⟨hfront, hhead⟩
  have hle := (List.subperm_of_subset hnodup hsubset).length_le
  rwa [List.length_append, List.length_map, hlength] at hle

/-- Only a claim hands anything out. -/
theorem Step.handedOut_eq_nil (sha : Sha256) {st : Step}
    (h : ∀ limit, st.op ≠ .claimNextBatch limit) : handedOut (st.result sha db) = [] := by
  rcases hresult : st.result sha db with err | r
  · rfl
  · cases r with
    | records records =>
      rcases records with _ | ⟨record, records⟩
      · rfl
      · obtain ⟨limit, -, hop, -⟩ :=
          Step.returns_cases ⟨_, hresult, record, List.mem_cons_self, rfl⟩
        exact absurd hop (h limit)
    | _ => rfl

/-- Only a claim has room. -/
theorem Step.room_eq_zero {st : Step} (h : ∀ limit, st.op ≠ .claimNextBatch limit) :
    st.room = 0 := by
  rw [room]
  split
  · next limit hop => exact absurd hop (h limit)
  · rfl

/-- A step that leaves the episode waiting takes as many from the front as it has room for, and
hands out no others. -/
theorem Db.Waiting.step (sha : Sha256) (hdb : db.Disciplined) (hwait : db.Waiting id since)
    {st : Step} (hlater : since < st.env.now) (hstill : (st.exec sha db).Waiting id since) :
    (handedOut (st.result sha db)).length = st.room ∧
      ((st.exec sha db).ahead id since).length + st.room ≤ (db.ahead id since).length := by
  have hfront : ((st.exec sha db).ahead id since).length ≤ (db.ahead id since).length :=
    (List.subperm_of_subset Db.nodup_ahead (Step.ahead_subset sha hlater)).length_le
  by_cases hclaim : ∃ limit, st.op = .claimNextBatch limit
  · obtain ⟨env, op⟩ := st
    obtain ⟨limit, rfl⟩ := hclaim
    exact hwait.claim sha hdb hlater hstill
  · have hno : ∀ limit, st.op ≠ .claimNextBatch limit := fun limit hop => hclaim ⟨limit, hop⟩
    rw [Step.handedOut_eq_nil sha hno, Step.room_eq_zero hno]
    exact ⟨rfl, hfront⟩

/-! ## The end of the waiting -/

/-- The step takes the episode out of the queue: it claims it, or somebody records an outcome for
it. -/
def Step.takes (sha : Sha256) (db : Db) (st : Step) (id : String) : Prop :=
  st.returns sha db id ∨ st.op.recordsOutcome id = true

/-- The step replays the dead letter of the episode, which puts it at the end of the queue. -/
def Step.putsBack (db : Db) (st : Step) (id : String) : Prop :=
  ∃ e, db.episodes.get? id = some e ∧ st.requeuesByReplay db id e = true

/-- Without a dead letter there is nothing to replay. -/
theorem Step.putsBack.deadLetter_ne_none {st : Step} (h : st.putsBack db id) :
    db.deadLetter.get? id ≠ none := by
  obtain ⟨⟨env, op⟩, e, -, hreplay⟩ := st, h
  intro hnone
  cases op with
  | replayDlqEpisode id' policy =>
    simp [requeuesByReplay, Db.replayAdmitted, hnone] at hreplay
  | replayDlqBatch limit classes minAgeSec policy =>
    simp only [requeuesByReplay, Bool.and_eq_true, List.contains_eq_mem, decide_eq_true_eq]
      at hreplay
    obtain ⟨r, hr, rfl⟩ := List.mem_map.mp hreplay.1.1
    exact Option.some_ne_none _ ((Db.mem_replayable hr).1.symm.trans hnone)
  | _ => cases hreplay

/-- An episode that goes on waiting gets no dead letter. -/
theorem Db.Waiting.deadLetter_eq_none (sha : Sha256) (hwait : db.Waiting id since) {st : Step}
    (hstill : (st.exec sha db).Waiting id since) (hnone : db.deadLetter.get? id = none) :
    (st.exec sha db).deadLetter.get? id = none := by
  obtain ⟨e, he, hqueued, -⟩ := hwait
  obtain ⟨e', he', hqueued', -⟩ := hstill
  have hmove := st.move sha db id
  rw [show db.slot id = ⟨some e, none⟩ by rw [Db.slot, he, hnone]] at hmove
  rw [← Db.slot_episode] at he'
  rw [← Db.slot_deadLetter]
  obtain ⟨env, op⟩ := st
  generalize Db.slot _ id = s' at hmove he' ⊢
  cases hmove with
  | stay | claimed | failed | skipped | checkpoint | reapRequeued | reapSkipped | reaped | done =>
    rfl
  | aborted =>
    obtain rfl := Option.some.inj he'
    cases hqueued'
  | reapAborted hp => cases hqueued.symm.trans hp

/-- **The end of the waiting.** Only a claim of the episode, an outcome recorded for it or a
replay of its dead letter ends it; the reapers do not look at what is queued. -/
theorem Db.Waiting.takes (sha : Sha256) (hdb : db.Disciplined) (hwait : db.Waiting id since)
    {st : Step} (hover : ¬ (st.exec sha db).Waiting id since) :
    st.takes sha db id ∨ st.putsBack db id := by
  obtain ⟨e, he, hqueued, hsince⟩ := hwait
  by_contra hnot
  simp only [Step.takes, Step.putsBack, not_or, not_exists, not_and] at hnot
  obtain ⟨⟨hreturns, hout⟩, hreplay⟩ := hnot
  have hkept := hreplay e he
  have hslot : db.slot id = ⟨some e, db.deadLetter.get? id⟩ := by simp [Db.slot, he]
  have hmove := st.move sha db id
  rw [hslot] at hmove
  obtain ⟨env, op⟩ := st
  refine hover ?_
  rw [Waiting, ← Db.slot_episode]
  generalize hs' : (Step.exec sha db ⟨env, op⟩).slot id = s' at hmove ⊢
  generalize db.deadLetter.get? id = d at hmove
  have hstatus : ∀ status : Status, status ≠ .queued → e.status ≠ status := by
    rintro status hne rfl
    exact hne hqueued
  cases hmove with
  | stay | replayClosed => exact ⟨e, rfl, hqueued, hsince⟩
  | checkpoint => exact ⟨_, rfl, hqueued, hsince⟩
  | @claimed limit =>
    -- the row has changed, so it was handed out
    refine absurd ?_ hreturns
    rcases Nat.eq_zero_or_pos ((handedOut ((⟨env, .claimNextBatch limit⟩ : Step).result sha
        db)).countP fun record => record.id = id) with hcount | hpos
    · rw [Step.slot_of_not_handedOut hcount, hslot] at hs'
      have hsame := congrArg (fun s : Slot => s.episode.map Episode.status) hs'
      simp [Episode.claim, hqueued] at hsame
    · obtain ⟨record, hmem, hid⟩ := List.countP_pos_iff.mp hpos
      rw [handedOut_claim sha hdb] at hmem
      refine ⟨_, ?_, record, hmem, by simpa using hid⟩
      rw [Step.result_of_map (f := OpResult.records) rfl, fst_claimNextBatch,
        hdb.rejectsClaim_queueHead env limit]
      rfl
  | done | failed | aborted | skipped => simp [Op.recordsOutcome] at hout
  | reapAborted hp | reapRequeued hp | reapSkipped hp => exact absurd hp (hstatus _ (by decide))
  | reaped helig => simp [reapEligible, hqueued] at helig
  | replayed =>
    have hsame := (Step.episode_replayDlqEpisode sha env db id id _ he).trans (if_neg hkept)
    rw [← Db.slot_episode, hs'] at hsame
    exact ⟨e, hsame, hqueued, hsince⟩
  | replayedBatch =>
    have hsame := (Step.episode_replayDlqBatch sha env db id _ _ _ _ he).trans (if_neg hkept)
    rw [← Db.slot_episode, hs'] at hsame
    exact ⟨e, hsame, hqueued, hsince⟩

end

/-! ## Runs -/

/-- A step of the queue keeps the discipline of its index. -/
theorem Step.disciplined (sha : Sha256) {db : Db} (st : Step) (hdb : db.Disciplined) :
    (st.exec sha db).Disciplined :=
  (safe_disciplined sha st hdb).alone (fun _ _ hG => hG.inv) hdb

/-- **Run.** The claims that leave the episode waiting have room for no more than were in
front of it, by induction on the steps: each takes its room from the front, which never
grows. -/
theorem Db.Waiting.run (sha : Sha256) {steps : List Step} {db : Db} (hdb : db.Disciplined)
    {id : String} {since : ℕ} (hwait : db.Waiting id since)
    (hlater : ∀ st ∈ steps, since < st.env.now)
    (hroom : (db.ahead id since).length < (steps.map Step.room).sum) :
    ∃ before st after, steps = before ++ st :: after ∧
      (runSteps sha db before).Waiting id since ∧
      (st.takes sha (runSteps sha db before) id ∨
        db.deadLetter.get? id ≠ none ∧ st.putsBack (runSteps sha db before) id) ∧
      (handedOutIn sha db before).length = (before.map Step.room).sum ∧
      (handedOutIn sha db before).length ≤ (db.ahead id since).length := by
  induction steps generalizing db with
  | nil => cases hroom
  | cons st steps ih =>
    obtain ⟨hst, hsteps⟩ := List.forall_mem_cons.mp hlater
    by_cases hstill : (st.exec sha db).Waiting id since
    · obtain ⟨hout, hfront⟩ := hwait.step sha hdb hst hstill
      rw [List.map_cons, List.sum_cons] at hroom
      obtain ⟨before, st', after, rfl, hbefore, hends, hlength, hle⟩ :=
        ih (st.disciplined sha hdb) hstill hsteps (by omega)
      have hends' := hends.imp_right (And.imp_left (mt (hwait.deadLetter_eq_none sha hstill)))
      refine ⟨st :: before, st', after, rfl, hbefore, hends', ?_, ?_⟩
      · rw [handedOutIn, List.length_append, hout, hlength, List.map_cons, List.sum_cons]
      · rw [handedOutIn, List.length_append, hout]
        omega
    · have hends := (hwait.takes sha hdb hstill).imp_right fun hback =>
        And.intro hback.deadLetter_ne_none hback
      exact ⟨[], st, steps, rfl, hwait, hends, rfl, Nat.zero_le _⟩

/-- **Nobody waits for ever.** An episode is in the queue after any run, and another run follows at
later times, with any operations. If its claims have room for more episodes than were queued no
later than this one, then one of its steps claims the episode, or records an outcome for it, or, if
it had a dead letter from the start, replays this. Up to then the claims have handed out as many
episodes as they had room for, and no more than were in front. -/
theorem claimed_within (sha : Sha256) (start : List Step) {steps : List Step} {id : String}
    {since : ℕ} (hwait : (runSteps sha Db.empty start).Waiting id since)
    (hlater : ∀ st ∈ steps, since < st.env.now)
    (hroom : ((runSteps sha Db.empty start).ahead id since).length <
      (steps.map Step.room).sum) :
    ∃ before st after, steps = before ++ st :: after ∧
      (runSteps sha Db.empty (start ++ before)).Waiting id since ∧
      (st.takes sha (runSteps sha Db.empty (start ++ before)) id ∨
        (runSteps sha Db.empty start).deadLetter.get? id ≠ none ∧
          st.putsBack (runSteps sha Db.empty (start ++ before)) id) ∧
      (handedOutIn sha (runSteps sha Db.empty start) before).length =
        (before.map Step.room).sum ∧
      (handedOutIn sha (runSteps sha Db.empty start) before).length ≤
        ((runSteps sha Db.empty start).ahead id since).length := by
  have hdb : (runSteps sha Db.empty start).Disciplined :=
    runSteps_induction (fun _ st hdb => st.disciplined sha hdb) Db.disciplined_empty start
  obtain ⟨before, st, after, hsteps, h⟩ := hwait.run sha hdb hlater hroom
  rw [← runSteps_append] at h
  exact ⟨before, st, after, hsteps, h⟩

/-- The later one of two episodes, while a third is enqueued. -/
theorem claimed_within_noon :
    ∃ before st after,
      [⟨.at 63082324800000002, .claimNextBatch (some 1)⟩,
        ⟨.at 63082324800000003, .enqueue { content := "e", mode := .off }⟩,
        ⟨.at 63082324800000004, .claimNextBatch (some 1)⟩] = before ++ st :: after ∧
      (runSteps .plain Db.empty (queuedAtNoon ++ before)).Waiting "late" 63082324800000001 ∧
      (st.takes .plain (runSteps .plain Db.empty (queuedAtNoon ++ before)) "late" ∨
        (runSteps .plain Db.empty queuedAtNoon).deadLetter.get? "late" ≠ none ∧
          st.putsBack (runSteps .plain Db.empty (queuedAtNoon ++ before)) "late") ∧
      (handedOutIn .plain (runSteps .plain Db.empty queuedAtNoon) before).length =
        (before.map Step.room).sum ∧
      (handedOutIn .plain (runSteps .plain Db.empty queuedAtNoon) before).length ≤
        ((runSteps .plain Db.empty queuedAtNoon).ahead "late" 63082324800000001).length :=
  claimed_within .plain queuedAtNoon ⟨_, rfl, rfl, rfl⟩ (by decide +kernel) (by decide +kernel)

end JanusGraph
