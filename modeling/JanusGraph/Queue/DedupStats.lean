import JanusGraph.Queue.Accounting

/-!
# The dedup statistics

`get_dedup_stats` of `pipeline/queue.py` counts rows of the ledger and of the episodes. What it
counts is never deleted and never loses the columns it is counted by, so that the numbers of a queue
that many processes use are sums over the processes.

One number counts the ledger, two count columns that no statement rewrites, one counts a status,
and one the legacy hashes that active rows share. The first three only grow. A row that the
backstop has skipped can be replayed, so that the fourth may go down. The last is 0 as long as
every writer enforces, since the index then keeps the active rows apart
(`Db.Disciplined.nodup_activeHashes`).
-/

namespace JanusGraph

open Script

/-- What `get_dedup_stats` returns; the mode is the one `_resolve_dedup_mode` returned. -/
structure DedupStats : Type where
  mode : DedupMode
  observedHits : ℕ
  hashedRows : ℕ
  canonicalRows : ℕ
  activeDuplicates : ℕ
  backstopSkips : ℕ

/-- The legacy hashes of the active rows. -/
def Db.activeHashes (db : Db) : List String :=
  (db.episodes.rows.filter fun r => decide (r.2.status ∈ activeStatuses)).filterMap fun r =>
    r.2.payloadHash

/-- The hashes that `GROUP BY payload_hash HAVING COUNT(*) > 1` leaves. -/
def Db.sharedHashes (db : Db) : List String :=
  db.activeHashes.dedup.filter fun hash => 1 < db.activeHashes.count hash

/-- `EpisodeQueue.get_dedup_stats`, in a database that has the ledger. -/
def getDedupStats (mode : DedupMode) : Sql DedupStats :=
  Script.withConn do
    let hashed ← Script.select
    let canonical ← Script.select
    let active ← Script.select
    let ledger ← Script.select
    let skipped ← Script.select
    return { mode
             observedHits := ledger.dedupEvents.length
             hashedRows := hashed.episodes.rows.countP fun r => r.2.payloadHash.isSome
             canonicalRows := canonical.episodes.rows.countP fun r => r.2.canonicalHash.isSome
             activeDuplicates := active.sharedHashes.length
             backstopSkips := skipped.episodes.rows.countP fun r =>
               r.2.status == .skippedDuplicate }

/-- The statistics of a database that nobody changes in between. -/
def Db.dedupStats (db : Db) (mode : DedupMode) : DedupStats where
  mode
  observedHits := db.dedupEvents.length
  hashedRows := db.origins.countP fun row => row.2.payloadHash.isSome
  canonicalRows := db.origins.countP fun row => row.2.canonicalHash.isSome
  activeDuplicates := db.sharedHashes.length
  backstopSkips := db.episodes.rows.countP fun r => r.2.status == .skippedDuplicate

/-- It is the origins of the rows that are counted. -/
theorem run_getDedupStats (mode : DedupMode) (db : Db) :
    alone (getDedupStats mode) db = (.ok (db.dedupStats mode), Conn.idle db) := by
  simp [alone, getDedupStats, Db.dedupStats, Db.origins, List.countP_map, Function.comp_def,
    Episode.origin, withConn, Prog.run_bind, Prog.run_attempt]

/-! ## Enforced rows -/

/-- A row that was inserted in `enforce` mode. -/
structure Origin.Enforced (origin : Origin) : Prop where
  gate : origin.dedupGate = some .enforce
  hash : origin.payloadHash = origin.canonicalHash

/-- A writer in `enforce` mode stores one hash twice. -/
theorem Step.enforced_newRow {sha : Sha256} {st : Step} {row : String × Origin}
    (hrow : st.newRow sha = some row) (hgate : row.2.dedupGate = some .enforce) :
    row.2.Enforced := by
  refine ⟨hgate, ?_⟩
  obtain ⟨env, op⟩ := st
  cases op with
  | enqueue args =>
    obtain rfl := Option.some.inj hrow
    revert hgate
    simp only [EnqueueArgs.row]
    split
    · rintro ⟨⟩
    · exact fun _ => rfl
  | enqueueGuarded lockMode instanceId content groupId name sourceDescription mode =>
    obtain rfl := Option.some.inj hrow
    obtain rfl : mode = .enforce := Option.some.inj hgate
    rfl
  | _ => cases hrow

/-- Of enforced rows, no two active ones share a hash. -/
theorem Db.Disciplined.nodup_activeHashes {db : Db} (h : db.Disciplined)
    (henforced : ∀ row ∈ db.origins, row.2.Enforced) : db.activeHashes.Nodup := by
  have hkeys : db.episodes.rows.Pairwise fun r r' => r.1 ≠ r'.1 :=
    List.pairwise_map.mp db.episodes.nodup
  have hrow : ∀ r ∈ db.episodes.rows, r.2.origin.Enforced := fun r hr =>
    henforced _ (List.mem_map.mpr ⟨r, hr, rfl⟩)
  refine List.pairwise_filterMap.mpr ((hkeys.filter _).imp_of_mem ?_)
  intro r r' hr hr' hne hash hhash hash' hhash' heq
  obtain ⟨hr, hactive⟩ := List.mem_filter.mp hr
  obtain ⟨hr', hactive'⟩ := List.mem_filter.mp hr'
  subst heq
  have hcanonical : r.2.canonicalHash = some hash := (hrow r hr).hash.symm.trans hhash
  have hcanonical' : r'.2.canonicalHash = some hash := (hrow r' hr').hash.symm.trans hhash'
  exact hne (h.distinct.unique h.uniqueIndex (Table.mem_rows.mp hr) (Table.mem_rows.mp hr')
    hcanonical hcanonical' (hrow r hr).gate (hrow r' hr').gate (of_decide_eq_true hactive)
    (of_decide_eq_true hactive'))

/-- Hashes that are all different are not shared. -/
theorem Db.sharedHashes_eq_nil {db : Db} (h : db.activeHashes.Nodup) : db.sharedHashes = [] := by
  refine List.filter_eq_nil_iff.mpr fun hash _ => ?_
  have hle := List.nodup_iff_count_le_one.mp h hash
  simpa using hle

/-! ## Schedules -/

/-- The rows of a kind are those at the start and those that each session has inserted. -/
theorem countP_origins_schedule (sha : Sha256) {db : Db} (hdb : db.Disciplined)
    (schedule : List (Label Step)) (p : String × Origin → Bool) :
    (runSchedule sha db schedule).disk.origins.countP p = db.origins.countP p +
      ((runSchedule sha db schedule).sessions.map fun s => (insertedBy s).countP p).sum := by
  rw [(perm_sessions Db.origins_apply sha hdb schedule).countP_eq, List.countP_append,
    List.countP_flatMap]
  rfl

/-- Where every writer enforces, every row stays an enforced one. -/
theorem enforced_schedule (sha : Sha256) {db : Db} (hdb : db.Disciplined)
    (schedule : List (Label Step)) (hstart : ∀ row ∈ db.origins, row.2.Enforced)
    (hwriters : ∀ s ∈ (runSchedule sha db schedule).sessions, ∀ row,
      s.tag.newRow sha = some row → row.2.dedupGate = some .enforce) :
    ∀ row ∈ (runSchedule sha db schedule).disk.origins, row.2.Enforced := by
  intro row hrow
  have hperm := perm_sessions Db.origins_apply sha hdb schedule
  rcases List.mem_append.mp (hperm.mem_iff.mp hrow) with hold | hnew
  · exact hstart row hold
  · obtain ⟨s, hs, hmem⟩ := List.mem_flatMap.mp hnew
    have hrow := Option.mem_toList.mp ((insertedBy_initial sha hdb schedule hs).subset hmem)
    exact Step.enforced_newRow hrow (hwriters s hs row hrow)

/-! ## The theorem -/

/-- **The dedup statistics count what was done.** What `get_dedup_stats` returns after any schedule:
the hits are the events of the ledger at the start and those that the sessions have recorded; the
hashed and the canonical rows are those at the start and those that the sessions have inserted with
such a hash; and none of the three ever goes down. Where every row was inserted in `enforce` mode,
there are no active duplicates. -/
theorem dedup_stats_exact (sha : Sha256) {db : Db} (hdb : db.Disciplined)
    (schedule rest : List (Label Step)) (mode : DedupMode) :
    let now := (runSchedule sha db schedule).disk.dedupStats mode
    let later := (runSchedule sha db (schedule ++ rest)).disk.dedupStats mode
    let sessions := (runSchedule sha db schedule).sessions
    (alone (getDedupStats mode) (runSchedule sha db schedule).disk).1 = .ok now ∧
      now.observedHits = db.dedupEvents.length +
        (sessions.map fun s => (recordedBy s).length).sum ∧
      now.hashedRows = (db.dedupStats mode).hashedRows +
        (sessions.map fun s => (insertedBy s).countP fun row => row.2.payloadHash.isSome).sum ∧
      now.canonicalRows = (db.dedupStats mode).canonicalRows +
        (sessions.map fun s => (insertedBy s).countP fun row => row.2.canonicalHash.isSome).sum ∧
      (now.observedHits ≤ later.observedHits ∧ now.hashedRows ≤ later.hashedRows ∧
        now.canonicalRows ≤ later.canonicalRows) ∧
      ((∀ row ∈ db.origins, row.2.Enforced) →
        (∀ s ∈ sessions, ∀ row, s.tag.newRow sha = some row →
          row.2.dedupGate = some .enforce) → now.activeDuplicates = 0) := by
  intro now later sessions
  have hcount := countP_origins_schedule sha hdb schedule
  have hevents := perm_sessions Db.dedupEvents_apply sha hdb schedule
  have hkept := (prefix_schedule Db.origins_apply sha hdb schedule rest).sublist
  refine ⟨congrArg Prod.fst (run_getDedupStats mode _), ?_, hcount _, hcount _,
    ⟨?_, hkept.countP_le, hkept.countP_le⟩, fun hstart hwriters => ?_⟩
  · refine hevents.length_eq.trans ?_
    rw [List.length_append, List.length_flatMap]
    rfl
  · exact (prefix_schedule Db.dedupEvents_apply sha hdb schedule rest).length_le
  · have henforced := enforced_schedule sha hdb schedule hstart hwriters
    have hnodup := (sound_adds sha hdb schedule).disk.nodup_activeHashes henforced
    exact List.length_eq_zero_iff.mpr (Db.sharedHashes_eq_nil hnodup)

/-- The second of the two writers is refused, so that no hash is active twice. -/
theorem dedup_stats_exact_twoWriters :
    ((runSchedule .plain Db.empty twoWriters).disk.dedupStats .enforce).activeDuplicates = 0 :=
  (dedup_stats_exact .plain Db.disciplined_empty twoWriters [] .enforce).2.2.2.2.2
    (fun _ hrow => nomatch hrow) (by decide)

end JanusGraph
