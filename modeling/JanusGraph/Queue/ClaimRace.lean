import JanusGraph.Queue.Processes

/-!
# Claims of several processes

`claim_next_batch` reads the head of the queue and then claims what it has read, by
ids. The read takes no lock, so another process can claim the same episodes in
between, and the update does not look at the status it overwrites. Two claims have
an episode in common, without a requeue between them, only if one of the updates
meets an episode that is no longer queued.

The proof reads the log of the schedule. A claim that has returned an episode has an entry
there, whose update took it (`exists_claim_of_returned`); after that entry the episode is not
queued, and a later update that meets it in the queue has to be preceded by a block that put it
back (`exists_requeue`). Nothing is assumed of the reads: the heads of the queue that two claims
select may be as old as they like.
-/

namespace JanusGraph

open Script

/-- The episode waits in the queue. -/
def Db.Queued (db : Db) (id : String) : Prop :=
  ∃ e, db.episodes.get? id = some e ∧ e.status = .queued

/-- The block is the update of a claim of `id`. -/
def claimsIn (ev : Event Db Write) (id : String) : Prop :=
  ∃ ids now, ev.sent = [.claimEpisodes ids now] ∧ id ∈ ids

/-- Session `i` is a `claim_next_batch` that has returned `rs`. -/
def Returned (p : Processes) (i : ℕ) (rs : List EpisodeRecord) : Prop :=
  ∃ s limit, p.sessions[i]? = some s ∧ s.tag.op = .claimNextBatch limit ∧
    s.script = .ret (.records rs)

/-- Between the claims of `id` by the sessions `i` and `j`, whichever came first, a
block of somebody put `id` back in the queue. -/
def RequeuedBetween (p : Processes) (i j : ℕ) (id : String) : Prop :=
  ∃ start a between b rest, p.log = start ++ a :: (between ++ b :: rest) ∧
    (a.1 = i ∧ b.1 = j ∨ a.1 = j ∧ b.1 = i) ∧ claimsIn a.2 id ∧ claimsIn b.2 id ∧
    ∃ entry ∈ between, ¬ entry.2.before.Queued id ∧ entry.2.after.Queued id

/-- No two claims return the same episode, unless it was requeued in between. -/
def ClaimsDisjoint (p : Processes) : Prop :=
  ∀ i j rs rs' id, i ≠ j → Returned p i rs → Returned p j rs' →
    id ∈ rs.map EpisodeRecord.id → id ∈ rs'.map EpisodeRecord.id → RequeuedBetween p i j id

/-- Every update of a claim met its episodes in the queue. -/
def ClaimsMeetQueued (p : Processes) : Prop :=
  ∀ entry ∈ p.log, ∀ ids now, entry.2.sent = [.claimEpisodes ids now] →
    ∀ id ∈ ids, entry.2.before.Queued id

/-! ## What a claim leaves in the log -/

/-- The blocks of a claim are faithful. -/
def claimGuarantee (st : Step) (ev : Event Db Write) : Prop :=
  ∀ limit, st.op = .claimNextBatch limit → ev.Faithful Write.exec fun _ => True

/-- A claim that has returned records has claimed them, in one block. -/
def claimPost (st : Step) (r : Except QueueError OpResult) (events : List (Event Db Write)) :
    Prop :=
  ∀ limit rs, st.op = .claimNextBatch limit → r = .ok (.records rs) → rs ≠ [] →
    ∃ ev ∈ events, ev.sent = [.claimEpisodes (rs.map EpisodeRecord.id) st.env.now] ∧
      ev.before.rejectsClaim (rs.map EpisodeRecord.id) st.env.now = false

theorem safe_step (sha : Sha256) (st : Step) (db : Db) :
    (st.script sha).Safe Write.exec (fun _ => True) (claimGuarantee st)
      (fun r t => claimPost st r t.events) (.start db []) := by
  obtain ⟨env, op⟩ := st
  by_cases hop : ∃ limit, op = .claimNextBatch limit
  · obtain ⟨limit, rfl⟩ := hop
    have hdoes : Does Write.exec (fun _ => True) .idle .idle
        (OpResult.records <$> claimNextBatch env limit)
        fun r h => ∃ r', r = r'.map OpResult.records ∧ ClaimSends env r' h :=
      (does_claimNextBatch (fun _ _ _ _ => trivial) env limit).map OpResult.records
    refine (hdoes.safe (s := db) trivial).weaken (fun ev hev _ _ => hev) ?_
    rintro r t ⟨r', hr, hsends⟩ _ rs - hret hne
    generalize hh : history Write.exec t.events = h at hsends
    cases hsends with
    | empty =>
      obtain rfl := OpResult.records.inj (Except.ok.inj (hr.symm.trans hret))
      exact absurd rfl hne
    | @claimed s rows hrej =>
      obtain rfl := OpResult.records.inj (Except.ok.inj (hr.symm.trans hret))
      obtain ⟨ev, hev, rfl, hsent⟩ := event_of_history hh
      have hids : (rows.map (claimRecord env.now)).map EpisodeRecord.id = rows.map Prod.fst := by
        rw [List.map_map]
        rfl
      rw [hids]
      exact ⟨ev, hev, hsent, hrej⟩
    | rejected =>
      rw [hr] at hret
      cases hret
  · refine (Safe.trivial _ _).weaken (fun ev _ limit h => absurd ⟨limit, h⟩ hop) ?_
    intro r t _ limit rs h
    exact absurd ⟨limit, h⟩ hop

/-- What is known of the processes after any schedule. -/
theorem sound_claims (sha : Sha256) (db : Db) (schedule : List (Label Step)) :
    Pool.Sound Write.exec (fun _ => True) claimGuarantee claimPost db
      (runSchedule sha db schedule) :=
  Pool.sound (fun _ _ _ _ => trivial) (fun st d _ => safe_step sha st d) trivial schedule

/-- A claim that has returned `id` has an entry in the log, which took it: what a claim
returns is what its update has written. -/
theorem exists_claim_of_returned {sha : Sha256} {db : Db} {schedule : List (Label Step)} {i : ℕ}
    {rs : List EpisodeRecord} {id : String}
    (h : Returned (runSchedule sha db schedule) i rs) (hid : id ∈ rs.map EpisodeRecord.id) :
    ∃ ev, (i, ev) ∈ (runSchedule sha db schedule).log ∧ claimsIn ev id ∧ ¬ ev.after.Queued id := by
  have hsound := sound_claims sha db schedule
  obtain ⟨s, limit, hs, hop, hret⟩ := h
  have hne : rs ≠ [] := by
    rintro rfl
    cases hid
  have hpost := hsound.sessions i s hs db trivial
  rw [hret] at hpost
  obtain ⟨ev, hev, hsent, hrej⟩ := hpost limit rs hop rfl hne
  rw [Trace.start_events, hsound.events i s hs] at hev
  obtain ⟨⟨i', ev'⟩, hentry, rfl⟩ := List.mem_map.mp hev
  obtain ⟨hlog, hi⟩ := List.mem_filter.mp hentry
  obtain rfl : i' = i := by simpa using hi
  refine ⟨ev', hlog, ⟨_, _, hsent, hid⟩, ?_⟩
  obtain ⟨-, -, s', hs', hG⟩ := hsound.log _ hlog
  obtain rfl := Option.some.inj (hs.symm.trans hs')
  rintro ⟨e, he, hqueued⟩
  rw [(hG limit hop).after, hsent, List.foldl_cons, List.foldl_nil, applied, Write.exec, hrej] at he
  simp only [Bool.false_eq_true, if_false, Db.claim, Table.get?_map, Option.map_eq_some_iff] at he
  obtain ⟨e', -, rfl⟩ := he
  rw [if_pos hid] at hqueued
  cases hqueued

/-! ## The theorem -/

/-- **The gap between two claims.** Between a claim of `id` and an update that meets it in
the queue, it was put back. The claim has left it in `processing`, so that some block between
the two has changed its status. -/
theorem exists_requeue {db db' : Db} {start between rest : List (ℕ × Event Db Write)}
    {a b : ℕ × Event Db Write}
    (h : Chained db (start ++ a :: (between ++ b :: rest)) db') {id : String}
    (ha : ¬ a.2.after.Queued id) (hb : b.2.before.Queued id) :
    ∃ entry ∈ between, ¬ entry.2.before.Queued id ∧ entry.2.after.Queued id :=
  h.split.2.split.1.exists_step (P := fun d => d.Queued id) ha hb

/-- **Atomic claim across processes.** After any schedule of any operations in which the
update of every claim met its episodes in the queue, no two claims have returned the same
episode, unless it was requeued in between. The update does not look at the status it
overwrites; where it is `queued` all the same, somebody has put it back since the other
claim. -/
theorem claims_disjoint (sha : Sha256) (db : Db) (schedule : List (Label Step))
    (h : ClaimsMeetQueued (runSchedule sha db schedule)) :
    ClaimsDisjoint (runSchedule sha db schedule) := by
  intro i j rs rs' id hij hi hj hid hid'
  have hchained := (sound_claims sha db schedule).chained
  obtain ⟨ev, hev, hclaim, htaken⟩ := exists_claim_of_returned hi hid
  obtain ⟨ev', hev', hclaim', htaken'⟩ := exists_claim_of_returned hj hid'
  have hqueued : ∀ entry ∈ (runSchedule sha db schedule).log, claimsIn entry.2 id →
      entry.2.before.Queued id := by
    rintro entry hentry ⟨ids, now, hsent, hmem⟩
    exact h entry hentry ids now hsent id hmem
  obtain ⟨start, between, rest, hlog | hlog⟩ :=
    exists_order_of_mem hev hev' (fun heq => hij (congrArg Prod.fst heq))
  · rw [hlog] at hchained
    exact ⟨start, _, between, _, rest, hlog, Or.inl ⟨rfl, rfl⟩, hclaim, hclaim',
      exists_requeue hchained htaken (hqueued _ hev' hclaim')⟩
  · rw [hlog] at hchained
    exact ⟨start, _, between, _, rest, hlog, Or.inr ⟨rfl, rfl⟩, hclaim', hclaim,
      exists_requeue hchained htaken' (hqueued _ hev hclaim)⟩

/-- A queue with one episode. -/
def oneQueued : Db :=
  runSteps .plain Db.empty [⟨.at 1, .enqueue { content := "c", episodeId := some "e", mode := .off }⟩]

/-- Two claims one after the other: the theorem at a schedule in which the second finds
the queue empty. -/
theorem claims_disjoint_serial :
    ClaimsDisjoint (runSchedule .plain oneQueued
      [.start ⟨.at 2, .claimNextBatch none⟩, .block 0, .block 0, .block 0,
        .start ⟨.at 3, .claimNextBatch none⟩, .block 1, .block 1]) := by
  refine claims_disjoint .plain oneQueued _ ?_
  have hlog : (runSchedule .plain oneQueued
      [.start ⟨.at 2, .claimNextBatch none⟩, .block 0, .block 0, .block 0,
        .start ⟨.at 3, .claimNextBatch none⟩, .block 1, .block 1]).log.map
          (fun entry => (entry.2.before, entry.2.sent)) =
      [(oneQueued, []), (oneQueued, [.claimEpisodes ["e"] 2]), (oneQueued.claim ["e"] 2, []),
        (oneQueued.claim ["e"] 2, []), (oneQueued.claim ["e"] 2, [])] := rfl
  intro entry hentry ids now hsent id hid
  have hmem := List.mem_map_of_mem (f := fun entry : ℕ × Event Db Write =>
    (entry.2.before, entry.2.sent)) hentry
  rw [hlog, hsent] at hmem
  simp only [List.mem_cons, Prod.mk.injEq, reduceCtorEq, and_false, false_or, List.cons.injEq,
    Write.claimEpisodes.injEq, and_true, List.not_mem_nil, or_false] at hmem
  obtain ⟨hbefore, rfl, rfl⟩ := hmem
  obtain rfl := List.mem_singleton.mp hid
  rw [hbefore]
  exact ⟨_, rfl, rfl⟩

/-- Both processes read the head of the queue before either claims it. -/
def racingClaims : List (Label Step) :=
  [.start ⟨.at 2, .claimNextBatch none⟩, .start ⟨.at 3, .claimNextBatch none⟩, .block 0, .block 1,
    .block 0, .block 1, .block 0, .block 1]

/-- Both return the episode, and nobody has requeued it. -/
theorem not_claimsDisjoint : ¬ ClaimsDisjoint (runSchedule .plain oneQueued racingClaims) := by
  intro h
  obtain ⟨start, a, between, b, rest, hlog, -, -, -, entry, hentry, hnot, hqueued⟩ :=
    h 0 1 _ _ "e" (by decide) ⟨_, none, rfl, rfl, rfl⟩ ⟨_, none, rfl, rfl, rfl⟩
      (List.mem_singleton.mpr rfl) (List.mem_singleton.mpr rfl)
  have hnone : ∀ entry ∈ (runSchedule .plain oneQueued racingClaims).log,
      (entry.2.after.episodes.get? "e").map Episode.status = some .queued →
      (entry.2.before.episodes.get? "e").map Episode.status = some .queued := by decide +kernel
  obtain ⟨e, he, hstatus⟩ := hqueued
  have hbefore := hnone entry (by rw [hlog]; simp [hentry]) (by rw [he, Option.map_some, hstatus])
  obtain ⟨e', he', hstatus'⟩ := Option.map_eq_some_iff.mp hbefore
  exact hnot ⟨e', he', hstatus'⟩

end JanusGraph
