import JanusGraph.Queue.Exclusive
import JanusGraph.Queue.Stranded

/-!
# The reference time of an episode

`_execute_ingestion` of `pipeline/worker.py` dates an episode by the `created_at` of its
record, and by the clock if there is none. The column itself is safe: no statement
rewrites it. But the record comes from `claim_next_batch`, which does not select the
column, so the clock is what every episode is dated by.

Both halves are facts about columns: `created_at` is written by an `INSERT` and by nothing else
(`runSteps_createdAt`), and a claimed record does not have it (`createdAt_of_claimed`). So it is
the instant of the ingestion that an episode is attributed to, however long it has been in the
queue.
-/

namespace JanusGraph

/-- `ref_time` of `_execute_ingestion`; `clock` is `datetime.now(timezone.utc)`. -/
def EpisodeRecord.refTime (record : EpisodeRecord) (clock : ℕ) : ℕ :=
  match record.createdAt with
  | none => clock
  | some (.iso createdAt) => createdAt
  | some .unreadable => clock

/-! ## The column -/

theorem EpisodeUpdate.set_createdAt (u : EpisodeUpdate) (e : Episode) :
    (u.set e).createdAt = e.createdAt := by
  cases u with
  | requeue now extra => cases extra <;> rfl
  | _ => rfl

/-- No operation removes an episode or rewrites its `created_at`. -/
theorem Move.createdAt {env : Env} {id : String} {op : Op} {s s' : Slot}
    (h : Move env id op s s') {e : Episode} (he : s.episode = some e) :
    ∃ e', s'.episode = some e' ∧ e'.createdAt = e.createdAt := by
  obtain ⟨e', he', hbecomes⟩ := h.becomes he
  refine ⟨e', he', ?_⟩
  rcases hbecomes with rfl | rfl | ⟨u, -, rfl⟩
  · rfl
  · rfl
  · exact EpisodeUpdate.set_createdAt u e

/-- Nor does a run of operations. -/
theorem runSteps_createdAt (sha : Sha256) {id : String} (steps : List Step) {db : Db}
    {e : Episode} (he : db.episodes.get? id = some e) :
    ∃ e', (runSteps sha db steps).episodes.get? id = some e' ∧ e'.createdAt = e.createdAt := by
  induction steps generalizing db e with
  | nil => exact ⟨e, he, rfl⟩
  | cons st steps ih =>
    obtain ⟨e₁, he₁, hcreated₁⟩ := (st.move sha db id).createdAt he
    obtain ⟨e₂, he₂, hcreated₂⟩ := ih he₁
    exact ⟨e₂, he₂, hcreated₂.trans hcreated₁⟩

/-! ## The record -/

/-- A claimed record has no `created_at`. -/
theorem createdAt_of_claimed {sha : Sha256} {db : Db} {env : Env} {limit : Option ℤ}
    {records : List EpisodeRecord}
    (h : (⟨env, .claimNextBatch limit⟩ : Step).result sha db = .ok (.records records))
    {record : EpisodeRecord} (hrecord : record ∈ records) : record.createdAt = none := by
  obtain ⟨rfl, -⟩ := Step.records_eq h
  obtain ⟨row, -, rfl⟩ := List.mem_map.mp hrecord
  rfl

/-- A claimed record is of an episode. -/
theorem exists_of_claimed {sha : Sha256} {db : Db} {env : Env} {limit : Option ℤ}
    {records : List EpisodeRecord}
    (h : (⟨env, .claimNextBatch limit⟩ : Step).result sha db = .ok (.records records))
    {record : EpisodeRecord} (hrecord : record ∈ records) :
    ∃ e, db.episodes.get? record.id = some e := by
  obtain ⟨limit, e, -, he, -⟩ := Step.returns_cases ⟨records, h, record, hrecord, rfl⟩
  exact ⟨e, he⟩

/-- `add_episode` is called with the instant stored in the episode's `created_at`. -/
def EpisodeRecord.Attributed (record : EpisodeRecord) (db : Db) (clock : ℕ) : Prop :=
  ∃ e, db.episodes.get? record.id = some e ∧ record.refTime clock = e.createdAt

/-- **Temporal attribution, exactly.** Whatever has happened to the queue since the claim, an
episode is dated by its `created_at` if and only if the clock of the worker shows that very
instant. The column is never rewritten, but the claim does not select it, so that the record
has none and the clock is asked instead. -/
theorem referenceTime_iff (sha : Sha256) (db : Db) (env : Env) (limit : Option ℤ)
    (records : List EpisodeRecord) (record : EpisodeRecord) (steps : List Step) (clock : ℕ)
    (hclaim : (⟨env, .claimNextBatch limit⟩ : Step).result sha db = .ok (.records records))
    (hrecord : record ∈ records) :
    record.Attributed (runSteps sha db (⟨env, .claimNextBatch limit⟩ :: steps)) clock ↔
      ∃ e, db.episodes.get? record.id = some e ∧ clock = e.createdAt := by
  have hclock : record.refTime clock = clock := by
    rw [EpisodeRecord.refTime, createdAt_of_claimed hclaim hrecord]
  obtain ⟨e, he⟩ := exists_of_claimed hclaim hrecord
  obtain ⟨e', he', hcreated⟩ :=
    runSteps_createdAt sha (⟨env, .claimNextBatch limit⟩ :: steps) he
  constructor
  · rintro ⟨e'', he'', href⟩
    obtain rfl := Option.some.inj (he'.symm.trans he'')
    exact ⟨e, he, by rw [← hclock, href, hcreated]⟩
  · rintro ⟨e'', he'', rfl⟩
    obtain rfl := Option.some.inj (he.symm.trans he'')
    exact ⟨e', he', by rw [hclock, hcreated]⟩

/-- A queue with one episode, of instant 1. -/
def queuedAtOne : Db :=
  runSteps .plain Db.empty [⟨.at 1, .enqueue { content := "c", episodeId := some "e", mode := .off }⟩]

theorem referenceTime_iff_one :
    firstRecord.Attributed (runSteps .plain queuedAtOne
        [⟨.at 2, .claimNextBatch none⟩, ⟨.at 3, .updateCheckpoint "e" "ingesting"⟩]) 3 ↔
      ∃ e, queuedAtOne.episodes.get? "e" = some e ∧ 3 = e.createdAt :=
  referenceTime_iff .plain queuedAtOne (.at 2) none [firstRecord] firstRecord
    [⟨.at 3, .updateCheckpoint "e" "ingesting"⟩] 3 rfl (List.mem_singleton.mpr rfl)

/-- Ingested at instant 3, it is dated 3. -/
theorem not_referenceTime :
    (⟨.at 2, .claimNextBatch none⟩ : Step).result .plain queuedAtOne = .ok (.records [firstRecord]) ∧
      ¬ firstRecord.Attributed (runSteps .plain queuedAtOne
        [⟨.at 2, .claimNextBatch none⟩, ⟨.at 3, .updateCheckpoint "e" "ingesting"⟩]) 3 := by
  refine ⟨rfl, ?_⟩
  rintro ⟨e, he, hcreated⟩
  obtain rfl := Option.some.inj he
  exact absurd hcreated (by decide)

end JanusGraph
