import JanusGraph.Queue.Transition

/-!
# The dead letters agree with the episodes

`mark_done`, `mark_aborted`, both reapers and both replays keep the two tables in
step, each on its own. The invariant is about one slot (`Slot.Consistent`), every
`Move` keeps it, and so does every serial run.

A replay closes the dead letter of the episode it requeues, and so does `mark_done`. Between
them the two tables may differ: a failed or a queued episode promises nothing of its dead letter
(`Slot.consistent_of_status`).
-/

namespace JanusGraph

/-- **Run.** What one step keeps, a serial run keeps. -/
theorem runSteps_induction {P : Db → Prop} {sha : Sha256}
    (hstep : ∀ db st, P db → P (Step.exec sha db st)) {db : Db} (h : P db) (steps : List Step) :
    P (runSteps sha db steps) := by
  induction steps generalizing db with
  | nil => exact h
  | cons st steps ih => exact ih (hstep db st h)

theorem runSteps_append (sha : Sha256) (db : Db) (steps steps' : List Step) :
    runSteps sha db (steps ++ steps') = runSteps sha (runSteps sha db steps) steps' :=
  List.foldl_append

/-- A done episode has no open dead letter; an aborted one has an open dead letter
with its payload and its attempts. -/
structure Slot.Consistent (s : Slot) : Prop where
  done : ∀ e, s.episode = some e → e.status = .done →
    ∀ d, s.deadLetter = some d → d.recoveredAt ≠ none
  aborted : ∀ e, s.episode = some e → e.status = .aborted →
    ∃ d, s.deadLetter = some d ∧ d.recoveredAt = none ∧ d.payloadJson = e.payloadJson ∧
      d.attemptCount = e.attemptCount

theorem DeadLetter.close_recoveredAt (now : ℕ) (d : DeadLetter) :
    (d.close now).recoveredAt ≠ none := by
  unfold close isOpen
  rcases h : d.recoveredAt with _ | at' <;> simp [recover, h]

/-- A slot whose episode is neither done nor aborted promises nothing. -/
theorem Slot.consistent_of_status {e : Episode} {d : Option DeadLetter} (hd : e.status ≠ .done)
    (ha : e.status ≠ .aborted) : (⟨some e, d⟩ : Slot).Consistent where
  done := by rintro e' ⟨⟩ h; exact absurd h hd
  aborted := by rintro e' ⟨⟩ h; exact absurd h ha

theorem Slot.consistent_none (d : Option DeadLetter) : (⟨none, d⟩ : Slot).Consistent where
  done := by rintro e' ⟨⟩
  aborted := by rintro e' ⟨⟩

/-- The slot of an update to a status that promises nothing. -/
theorem Slot.consistent_map {e : Option Episode} {d : Option DeadLetter} {u : EpisodeUpdate}
    (hd : ∀ e, (u.set e).status ≠ .done) (ha : ∀ e, (u.set e).status ≠ .aborted) :
    (⟨e.map u.set, d⟩ : Slot).Consistent := by
  rcases e with _ | e
  · exact consistent_none d
  · exact consistent_of_status (hd e) (ha e)

/-- An abort opens a dead letter of the same payload and attempts. -/
theorem Slot.consistent_abort (e : Episode) (error : String) (now : ℕ) :
    (⟨some (EpisodeUpdate.set (.aborted (e.attemptCount + 1) error now) e),
      some (newDeadLetter e.payloadJson error (e.attemptCount + 1) now)⟩ : Slot).Consistent where
  done := by rintro e' ⟨⟩ h; cases h
  aborted := by
    rintro e' ⟨⟩ -
    exact ⟨_, rfl, rfl, rfl, rfl⟩

/-- **Step.** Every move keeps the agreement of the two tables. Each constructor either
leaves the status to one that promises nothing or writes both rows of the slot. -/
theorem Slot.Consistent.move {env : Env} {id : String} {op : Op} {s s' : Slot}
    (h : s.Consistent) (hmove : Move env id op s s') : s'.Consistent := by
  cases hmove with
  | stay => exact h
  | inserted => exact consistent_of_status (by simp [newEpisode]) (by simp [newEpisode])
  | claimed => exact consistent_of_status (by simp [Episode.claim]) (by simp [Episode.claim])
  | @done e d =>
    refine ⟨?_, ?_⟩
    · rintro e' he' - d' hd'
      obtain ⟨d, -, rfl⟩ := Option.map_eq_some_iff.mp hd'
      exact d.close_recoveredAt _
    · intro e' he' ha
      obtain ⟨e, -, rfl⟩ := Option.map_eq_some_iff.mp he'
      cases ha
  | failed =>
    exact consistent_map (by simp [EpisodeUpdate.set]) (by simp [EpisodeUpdate.set])
  | @aborted error e d =>
    rcases e with _ | e
    · exact consistent_none _
    · exact consistent_abort e error env.now
  | skipped => exact consistent_map (by simp [EpisodeUpdate.set]) (by simp [EpisodeUpdate.set])
  | @checkpoint text e d =>
    -- the status, the payload and the attempts stay
    rcases e with _ | e
    · exact consistent_none d
    · exact ⟨by rintro e' ⟨⟩; exact h.done e rfl, by rintro e' ⟨⟩; exact h.aborted e rfl⟩
  | @reapAborted timeoutSec maxAttempts e => exact consistent_abort e timeoutError env.now
  | reapRequeued =>
    exact consistent_of_status (by simp [EpisodeUpdate.set]) (by simp [EpisodeUpdate.set])
  | reapSkipped =>
    exact consistent_of_status (by simp [EpisodeUpdate.set]) (by simp [EpisodeUpdate.set])
  | reaped =>
    exact consistent_of_status (by simp [EpisodeUpdate.set]) (by simp [EpisodeUpdate.set])
  | replayed => exact consistent_map (by simp [EpisodeUpdate.set]) (by simp [EpisodeUpdate.set])
  | replayedBatch =>
    exact consistent_of_status (by simp [EpisodeUpdate.set]) (by simp [EpisodeUpdate.set])
  | replayClosed _ hdone =>
    -- a done episode keeps a closed dead letter
    refine ⟨?_, ?_⟩
    · rintro e' - - d' ⟨⟩
      simp [DeadLetter.recover]
    · intro e' he' ha
      rw [hdone e' he'] at ha
      cases ha

/-- **Dead-letter consistency.** After every serial run from the empty database, a done
episode has no open dead letter, and an aborted one has an open dead letter with its payload
and its attempts. Every operation that writes one of these two statuses writes the dead
letter in the same transaction, and every operation that opens or closes a dead letter leaves
the status to match. -/
theorem deadLetters_consistent (sha : Sha256) (steps : List Step) (id : String) :
    ((runSteps sha Db.empty steps).slot id).Consistent := by
  have hempty : ∀ id, (Db.empty.slot id).Consistent := fun id => Slot.consistent_none _
  exact runSteps_induction (P := fun db => ∀ id, (db.slot id).Consistent)
    (fun db st h id => (h id).move (st.move sha db id)) hempty steps id

end JanusGraph
