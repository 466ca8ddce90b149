import JanusGraph.Queue.PayloadHash

/-!
# Opening a queue

`EpisodeQueue._init_db_sync` of `pipeline/queue.py` on a table of any content. It fills the
empty canonical hashes from the payloads of their rows and then creates the unique index. The
index is allowed to fail, a row is not: what `canonical_payload_hash` raises for a payload
comes out of the constructor, and so does an `UPDATE` that an older index rejects.

The columns and the other indexes are taken to be there; rows of an older schema have `NULL`
in the columns it lacks.

* **The reads.** The loop that collects the updates raises exactly if a payload has its triple
  and a part of it cannot be hashed (`collectUpdates_eq`, `PayloadJson.Unhashable`). A payload
  without a triple is passed over.
* **The updates.** They go through one by one; an older index may refuse one of them, and the
  exception of that one leaves the constructor (`run_fillRows`). The transaction is rolled back,
  so that a queue that does not open is left as it was (`run_initDb_error`).
* **The index.** `CREATE UNIQUE INDEX` fails if two rows share a key; the failure is logged, and
  the queue works on without an index (`run_ensureUniqueActiveHashIndex`).

A filled row is filled for good (`Episode.filled_filled`), which is why a second opening has
nothing to do.
-/

namespace JanusGraph

open Script

/-! ## The migration -/

/-- What opening a queue can raise. -/
inductive OpenError : Type where
  /-- `sqlite3.IntegrityError` -/
  | integrity (e : IntegrityError)
  /-- `canonical_payload_hash` of something that is no text, or that UTF-8 cannot encode -/
  | unhashable
  deriving DecidableEq

/-- The statements of `_init_db_sync` that can change a table or its unique index. -/
inductive Migration : Type where
  /-- `UPDATE episodes SET canonical_hash = ? WHERE id = ?` -/
  | setCanonicalHash (hash id : String)
  /-- `UNIQUE_INDEX_DDL` -/
  | createUniqueIndex

/-- The columns after the `UPDATE`. -/
def Episode.setCanonicalHash (hash : String) (e : Episode) : Episode :=
  { e with canonicalHash := some hash }

/-- The table after the `UPDATE`. -/
def Db.setCanonicalHash (db : Db) (hash id : String) : Db :=
  { db with episodes := db.episodes.modify id (Episode.setCanonicalHash hash) }

/-- The keys that the unique index would have. -/
def Db.indexKeys (db : Db) : List String := db.episodes.rows.filterMap fun r => r.2.indexKey

/-- Run one statement. -/
def Migration.exec : Migration → Db → Except IntegrityError (ℕ × Db)
  | .setCanonicalHash hash id, db =>
    if (db.episodes.get? id).any fun e => db.conflicts id (e.setCanonicalHash hash) then
      .error .uniqueIndex
    else .ok ((db.episodes.get? id).elim 0 fun _ => 1, db.setCanonicalHash hash id)
  | .createUniqueIndex, db =>
    -- `IF NOT EXISTS`
    if db.uniqueIndex then .ok (0, db)
    else if db.indexKeys.Nodup then .ok (0, { db with uniqueIndex := true })
    else .error .uniqueIndex

/-- A script of the constructor. -/
abbrev OpenSql (α : Type) : Type := Script Db Migration IntegrityError OpenError α

/-- The loop of `_backfill_canonical_hash_sync` that collects `updates`. -/
def collectUpdates (sha : Sha256) :
    List (String × Episode) → Except OpenError (List (String × String))
  | [] => .ok []
  | (id, e) :: rows =>
    match e.payloadJson with
    | .text _ => collectUpdates sha rows
    | .json payload =>
      match payload.readTriple with
      | .incomplete => collectUpdates sha rows
      | .unhashable => .error .unhashable
      | .triple t =>
        (collectUpdates sha rows).map fun updates =>
          (canonicalPayloadHash sha t.content t.groupId t.sourceDescription, id) :: updates

/-- `_backfill_canonical_hash_sync` -/
def backfillCanonicalHash (sha : Sha256) : OpenSql Unit := do
  let db ← Script.select
  let rows := db.episodes.rows.filter fun r => r.2.canonicalHash.isNone
  if rows.isEmpty then return ()
  else
    match collectUpdates sha rows with
    | .error e => Prog.fail e
    | .ok updates =>
      if updates.isEmpty then return ()
      else
        -- `executemany`
        let _ ← Prog.forEach (fun u => Script.write .integrity (.setCanonicalHash u.1 u.2)) updates
        return ()

/-- `_ensure_unique_active_hash_index_sync`: a failure is logged. -/
def ensureUniqueActiveHashIndex : OpenSql Unit := do
  match ← Script.tryWrite .createUniqueIndex with
  | .ok _ => return ()
  | .error _ => return ()

/-- `_init_db_sync` -/
def initDb (sha : Sha256) : OpenSql Unit :=
  Script.withConn do
    backfillCanonicalHash sha
    ensureUniqueActiveHashIndex
    Script.commit

/-! ## What a row should hold afterwards -/

/-- The canonical hash of a payload with a triple of texts. -/
def PayloadJson.canonicalHash (sha : Sha256) : PayloadJson → Option String
  | .text _ => none
  | .json payload =>
    match payload.readTriple with
    | .triple t => some (canonicalPayloadHash sha t.content t.groupId t.sourceDescription)
    | _ => none

/-- The payload has the three fields, and one of them cannot be hashed. -/
def PayloadJson.Unhashable : PayloadJson → Prop
  | .text _ => False
  | .json payload => payload.readTriple = .unhashable

/-- The row with the canonical hash of its payload, if it had none. -/
def Episode.filled (sha : Sha256) (e : Episode) : Episode :=
  { e with canonicalHash := e.canonicalHash.or (e.payloadJson.canonicalHash sha) }

/-- All rows filled. -/
def Db.filled (sha : Sha256) (db : Db) : Db :=
  { db with episodes := db.episodes.map fun _ e => e.filled sha }

/-- The rows `ids` filled. -/
def Db.filledAt (sha : Sha256) (ids : List String) (db : Db) : Db :=
  { db with episodes := db.episodes.map fun id e => if id ∈ ids then e.filled sha else e }

/-- Opening the queue completes; it fills the rows that can be filled and changes nothing else
in the tables; and opening it again changes nothing. -/
structure Db.BackfillTotal (sha : Sha256) (db : Db) : Prop where
  completes : (initDb sha).result Migration.exec db = .ok ()
  episodes : ((initDb sha).exec Migration.exec db).episodes =
    db.episodes.map fun _ e => e.filled sha
  deadLetter : ((initDb sha).exec Migration.exec db).deadLetter = db.deadLetter
  dedupEvents : ((initDb sha).exec Migration.exec db).dedupEvents = db.dedupEvents
  again : (initDb sha).result Migration.exec ((initDb sha).exec Migration.exec db) = .ok ()
  stays : (initDb sha).exec Migration.exec ((initDb sha).exec Migration.exec db) =
    (initDb sha).exec Migration.exec db

/-- No row without a canonical hash has a payload that cannot be hashed. -/
def Db.Hashable (db : Db) : Prop :=
  ∀ id e, db.episodes.get? id = some e → e.canonicalHash = none → ¬ e.payloadJson.Unhashable

/-- No row without a canonical hash meets another row in the index when it gets one. -/
def Db.FillsApart (sha : Sha256) (db : Db) : Prop :=
  ∀ id e, db.episodes.get? id = some e → e.canonicalHash = none →
    (db.filled sha).conflicts id (e.filled sha) = false

/-! ## Filling rows -/

section

variable {sha : Sha256} {db : Db}

/-- A row that has a canonical hash is left alone. -/
theorem Episode.filled_of_some {e : Episode} {hash : String} (h : e.canonicalHash = some hash) :
    e.filled sha = e := by
  rw [filled, h, Option.some_or, ← h]

/-- So is a row whose payload has no triple of texts. -/
theorem Episode.filled_of_none {e : Episode} (h : e.payloadJson.canonicalHash sha = none) :
    e.filled sha = e := by
  rw [filled, h, Option.or_none]

@[simp] theorem Episode.filled_filled (e : Episode) : (e.filled sha).filled sha = e.filled sha := by
  simp only [filled, Option.or_assoc, Option.or_self]

/-- The `UPDATE` of the backfill fills the row. -/
theorem Episode.setCanonicalHash_eq {e : Episode} {hash : String} (hnull : e.canonicalHash = none)
    (hhash : e.payloadJson.canonicalHash sha = some hash) :
    e.setCanonicalHash hash = e.filled sha := by
  rw [setCanonicalHash, filled, hnull, hhash, Option.none_or]

/-- A row without a canonical hash is not in the index. -/
theorem Episode.indexKey_of_null {e : Episode} (h : e.canonicalHash = none) : e.indexKey = none := by
  rw [indexKey, h, ite_self]

/-- A key of the index stays when its row is filled. -/
theorem Episode.indexKey_filled {e : Episode} {key : String} (h : e.indexKey = some key) :
    (e.filled sha).indexKey = some key := by
  rwa [filled_of_some (indexKey_eq_some.mp h).2.2]

theorem Db.get?_filledAt (ids : List String) (id : String) :
    (db.filledAt sha ids).episodes.get? id =
      (db.episodes.get? id).map fun e => if id ∈ ids then e.filled sha else e :=
  Table.get?_map _ _ _

theorem Db.get?_filled (id : String) :
    (db.filled sha).episodes.get? id = (db.episodes.get? id).map (Episode.filled sha) :=
  Table.get?_map _ _ _

/-- Filling more rows removes no conflict. -/
theorem Db.conflicts_filledAt_mono {ids ids' : List String} (hsub : ids ⊆ ids') {id : String}
    {e : Episode} (h : (db.filledAt sha ids).conflicts id e = true) :
    (db.filledAt sha ids').conflicts id e = true := by
  obtain ⟨hindex, id', e', key, he', hne, hkey, hkey'⟩ := conflicts_eq_true_iff.mp h
  rw [get?_filledAt, Option.map_eq_some_iff] at he'
  obtain ⟨f, hf, rfl⟩ := he'
  refine conflicts_eq_true_iff.mpr ⟨hindex, id', if id' ∈ ids' then f.filled sha else f, key, ?_,
    hne, hkey, ?_⟩
  · rw [get?_filledAt, hf, Option.map_some]
  · by_cases hmem : id' ∈ ids
    · rw [if_pos hmem] at hkey'
      rwa [if_pos (hsub hmem)]
    · rw [if_neg hmem] at hkey'
      split
      · exact Episode.indexKey_filled hkey'
      · exact hkey'

/-- No row of `ids` meets another row in the index once they are filled. -/
def Db.AcceptsAt (sha : Sha256) (ids : List String) (db : Db) : Prop :=
  ∀ id ∈ ids, ∀ e, db.episodes.get? id = some e →
    (db.filledAt sha ids).conflicts id (e.filled sha) = false

/-- One more row is accepted. -/
theorem Db.AcceptsAt.snoc {ids : List String} (h : db.AcceptsAt sha ids) {id : String}
    {e : Episode} (he : db.episodes.get? id = some e)
    (hacc : (db.filledAt sha ids).conflicts id (e.filled sha) = false) :
    db.AcceptsAt sha (ids ++ [id]) := by
  intro i hi f hf
  rw [← Bool.not_eq_true] at hacc ⊢
  intro hconflict
  obtain ⟨hindex, i', f', key, hf', hne, hkey, hkey'⟩ := conflicts_eq_true_iff.mp hconflict
  rw [get?_filledAt, Option.map_eq_some_iff] at hf'
  obtain ⟨g, hg, rfl⟩ := hf'
  by_cases hi' : i' = id
  · -- the new row meets a row that was filled before it
    subst hi'
    have hold : i ∈ ids := by
      rcases List.mem_append.mp hi with hi | hi
      · exact hi
      · exact absurd (List.mem_singleton.mp hi) (Ne.symm hne)
    obtain rfl := Option.some.inj (he.symm.trans hg)
    rw [if_pos (List.mem_append_right _ (List.mem_singleton.mpr rfl))] at hkey'
    refine hacc (conflicts_eq_true_iff.mpr ⟨hindex, i, f.filled sha, key, ?_, Ne.symm hne, hkey',
      hkey⟩)
    rw [get?_filledAt, hf, Option.map_some, if_pos hold]
  · have hrow : (db.filledAt sha ids).episodes.get? i' =
        some (if i' ∈ ids ++ [id] then g.filled sha else g) := by
      simp [get?_filledAt, hg, hi']
    by_cases heq : i = id
    · subst heq
      obtain rfl := Option.some.inj (he.symm.trans hf)
      exact hacc (conflicts_eq_true_iff.mpr ⟨hindex, i', _, key, hrow, hne, hkey, hkey'⟩)
    · have hold : i ∈ ids := by
        rcases List.mem_append.mp hi with hi | hi
        · exact hi
        · exact absurd (List.mem_singleton.mp hi) heq
      have hclear := h i hold f hf
      rw [← Bool.not_eq_true] at hclear
      exact hclear (conflicts_eq_true_iff.mpr ⟨hindex, i', _, key, hrow, hne, hkey, hkey'⟩)

/-! ## The loops -/

/-- What the loop collects, if nothing raises. -/
def canonicalUpdates (sha : Sha256) (rows : List (String × Episode)) : List (String × String) :=
  rows.filterMap fun r => (r.2.payloadJson.canonicalHash sha).map fun hash => (hash, r.1)

/-- The collecting loop raises exactly if a payload cannot be hashed. -/
theorem collectUpdates_eq (sha : Sha256) (rows : List (String × Episode)) :
    ((∀ r ∈ rows, ¬ r.2.payloadJson.Unhashable) ∧
        collectUpdates sha rows = .ok (canonicalUpdates sha rows)) ∨
      ((∃ r ∈ rows, r.2.payloadJson.Unhashable) ∧
        collectUpdates sha rows = .error .unhashable) := by
  induction rows with
  | nil => exact .inl ⟨by simp, rfl⟩
  | cons r rows ih =>
    obtain ⟨id, e⟩ := r
    rcases hpayload : e.payloadJson with payload | text
    · rcases hreading : payload.readTriple with _ | _ | t
      · simpa [collectUpdates, canonicalUpdates, hpayload, hreading, PayloadJson.canonicalHash,
          PayloadJson.Unhashable] using ih
      · right
        simp [collectUpdates, hpayload, hreading, PayloadJson.Unhashable]
      · rcases ih with ⟨hall, hrest⟩ | ⟨hsome, hrest⟩
        · left
          simpa [collectUpdates, canonicalUpdates, hpayload, hreading, PayloadJson.canonicalHash,
            PayloadJson.Unhashable, hrest, Except.map] using hall
        · right
          simpa [collectUpdates, hpayload, hreading, PayloadJson.Unhashable, hrest, Except.map]
            using hsome
    · simpa [collectUpdates, canonicalUpdates, hpayload, PayloadJson.canonicalHash,
        PayloadJson.Unhashable] using ih

/-- The statements go to rows without a canonical hash, with the hash of their payload. -/
def Db.Updates (sha : Sha256) (updates : List (String × String)) (db : Db) : Prop :=
  ∀ u ∈ updates, ∃ e, db.episodes.get? u.2 = some e ∧ e.canonicalHash = none ∧
    e.payloadJson.canonicalHash sha = some u.1

/-- One `UPDATE` of the backfill, after the rows `ids` have been filled. -/
theorem exec_setCanonicalHash (ids : List String) {id hash : String} {e : Episode}
    (he : db.episodes.get? id = some e) (hnull : e.canonicalHash = none)
    (hhash : e.payloadJson.canonicalHash sha = some hash) :
    Migration.exec (.setCanonicalHash hash id) (db.filledAt sha ids) =
      if (db.filledAt sha ids).conflicts id (e.filled sha) then .error .uniqueIndex
      else .ok (1, db.filledAt sha (ids ++ [id])) := by
  have hset : ∀ f : Episode, f = e ∨ f = e.filled sha →
      f.setCanonicalHash hash = e.filled sha := by
    rintro f (rfl | rfl)
    · exact Episode.setCanonicalHash_eq hnull hhash
    · rw [← Episode.setCanonicalHash_eq hnull hhash]
      rfl
  have hrow : (db.filledAt sha ids).episodes.get? id =
      some (if id ∈ ids then e.filled sha else e) := by
    rw [Db.get?_filledAt, he, Option.map_some]
  have hfilled : (if id ∈ ids then e.filled sha else e).setCanonicalHash hash = e.filled sha :=
    hset _ (by split <;> simp)
  have htable : (db.filledAt sha ids).setCanonicalHash hash id =
      db.filledAt sha (ids ++ [id]) := by
    rw [Db.setCanonicalHash, Db.filledAt, Db.filledAt, Db.mk.injEq]
    refine ⟨Table.ext_get? (by simp) fun k _ => ?_, rfl, rfl, rfl⟩
    rw [Table.get?_modify, Table.get?_map, Table.get?_map]
    by_cases hk : k = id
    · subst hk
      rw [if_pos rfl, he, Option.map_some, Option.map_some, Option.map_some, hfilled,
        if_pos (List.mem_append_right _ (List.mem_singleton.mpr rfl))]
    · simp [hk]
  rw [Migration.exec, hrow, Option.any_some, hfilled, htable]
  rfl

/-- **The loop of updates** fills its rows, unless one of them meets another row in the
index. It stops at the first that does, and raises. -/
theorem run_fillRows {updates : List (String × String)} (hupdates : db.Updates sha updates)
    {ids : List String} (hids : db.AcceptsAt sha ids) {c : Conn Db} (hdisk : c.disk = db)
    (hvisible : c.visible = db.filledAt sha ids) :
    ((db.AcceptsAt sha (ids ++ updates.map Prod.snd)) ∧ ∃ ns c',
      (Prog.forEach (fun u => Script.write OpenError.integrity (.setCanonicalHash u.1 u.2))
          updates).run (Conn.step Migration.exec) c = (.ok ns, c') ∧
        c'.disk = db ∧ c'.visible = db.filledAt sha (ids ++ updates.map Prod.snd)) ∨
    (¬ db.AcceptsAt sha (ids ++ updates.map Prod.snd) ∧ ∃ e c',
      (Prog.forEach (fun u => Script.write OpenError.integrity (.setCanonicalHash u.1 u.2))
          updates).run (Conn.step Migration.exec) c = (.error e, c') ∧ c'.disk = db) := by
  induction updates generalizing ids c with
  | nil =>
    left
    rw [List.map_nil, List.append_nil]
    exact ⟨hids, [], c, rfl, hdisk, hvisible⟩
  | cons u updates ih =>
    obtain ⟨e, he, hnull, hhash⟩ := hupdates u List.mem_cons_self
    have hexec := exec_setCanonicalHash ids he hnull hhash
    rw [← hvisible] at hexec
    have hids' : ids ++ (u :: updates).map Prod.snd =
        (ids ++ [u.2]) ++ updates.map Prod.snd := by simp
    rcases hconflict : (db.filledAt sha ids).conflicts u.2 (e.filled sha) with _ | _
    · rw [hvisible, hconflict, ← hvisible] at hexec
      have hrun := @Script.run_write_ok _ _ _ OpenError _ OpenError.integrity _ _ _ _ hexec
      have hrest := ih (fun u' hu' => hupdates u' (List.mem_cons_of_mem _ hu'))
        (hids.snoc he hconflict) (c := c.wrote (db.filledAt sha (ids ++ [u.2]))) hdisk rfl
      rw [hids', Prog.forEach, Prog.run_bind_ok hrun]
      rcases hrest with ⟨hacc, ns, c', hrun', hc'⟩ | ⟨hrej, e', c', hrun', hc'⟩
      · refine .inl ⟨hacc, 1 :: ns, c', ?_, hc'⟩
        rw [Prog.run_bind_ok hrun']
        rfl
      · refine .inr ⟨hrej, e', c', ?_, hc'⟩
        rw [Prog.run_bind, hrun']
    · right
      refine ⟨fun hacc => ?_, .integrity .uniqueIndex, ⟨c.disk, some c.txOrBegin⟩, ?_, hdisk⟩
      · have hclear := hacc u.2 (by simp) e he
        rw [Db.conflicts_filledAt_mono (List.subset_append_left _ _) hconflict] at hclear
        cases hclear
      · rw [hvisible, hconflict, ← hvisible] at hexec
        rw [Prog.forEach, Prog.run_bind, Script.run_write_error hexec]

/-! ## Opening -/

/-- The statements of the backfill, if nothing raises. -/
def Db.updates (sha : Sha256) (db : Db) : List (String × String) :=
  canonicalUpdates sha (db.episodes.rows.filter fun r => r.2.canonicalHash.isNone)

theorem Db.mem_updates {hash id : String} :
    (hash, id) ∈ db.updates sha ↔ ∃ e, db.episodes.get? id = some e ∧ e.canonicalHash = none ∧
      e.payloadJson.canonicalHash sha = some hash := by
  simp only [updates, canonicalUpdates, List.mem_filterMap, List.mem_filter, Option.isNone_iff_eq_none,
    Option.map_eq_some_iff, Prod.mk.injEq, Prod.exists, Table.mem_rows]
  constructor
  · rintro ⟨id', e, ⟨he, hnull⟩, hash', hhash, rfl, rfl⟩
    exact ⟨e, he, hnull, hhash⟩
  · rintro ⟨e, he, hnull, hhash⟩
    exact ⟨id, e, ⟨he, hnull⟩, hash, hhash, rfl, rfl⟩

theorem Db.updates_updates (sha : Sha256) (db : Db) : db.Updates sha (db.updates sha) :=
  fun _ hu => mem_updates.mp hu

/-- A row that gets no statement is filled already. -/
theorem Db.filled_of_not_mem {id : String} {e : Episode} (he : db.episodes.get? id = some e)
    (h : id ∉ (db.updates sha).map Prod.snd) : e.filled sha = e := by
  rcases hnull : e.canonicalHash with _ | hash
  · refine Episode.filled_of_none (Option.eq_none_iff_forall_not_mem.mpr fun hash hhash => h ?_)
    exact List.mem_map.mpr ⟨(hash, id), mem_updates.mpr ⟨e, he, hnull, hhash⟩, rfl⟩
  · exact Episode.filled_of_some hnull

@[simp] theorem Db.filledAt_nil : db.filledAt sha [] = db := by
  simp only [filledAt, List.not_mem_nil, if_false]
  congr
  exact Table.ext_get? (by simp) fun k _ => by rw [Table.get?_map, Option.map_id']

theorem Db.filledAt_updates : db.filledAt sha ((db.updates sha).map Prod.snd) = db.filled sha := by
  rw [filledAt, filled, Db.mk.injEq]
  refine ⟨Table.ext_get? (by simp) fun k _ => ?_, rfl, rfl, rfl⟩
  rw [Table.get?_map, Table.get?_map]
  refine Option.map_congr fun e he => ?_
  split
  · rfl
  · rename_i hmem
    exact (filled_of_not_mem he hmem).symm

theorem Db.acceptsAt_updates_iff :
    db.AcceptsAt sha ((db.updates sha).map Prod.snd) ↔ db.FillsApart sha := by
  rw [AcceptsAt, filledAt_updates]
  constructor
  · intro h id e he hnull
    by_cases hmem : id ∈ (db.updates sha).map Prod.snd
    · exact h id hmem e he
    · rw [filled_of_not_mem he hmem]
      exact conflicts_of_indexKey_none (Episode.indexKey_of_null hnull)
  · intro h id hmem e he
    obtain ⟨⟨hash, id'⟩, hu, rfl⟩ := List.mem_map.mp hmem
    obtain ⟨e', he', hnull, -⟩ := mem_updates.mp hu
    obtain rfl := Option.some.inj (he.symm.trans he')
    exact h _ _ he hnull

/-- The rows that the backfill reads can be hashed exactly if the queue is hashable. -/
theorem Db.hashable_iff : db.Hashable ↔
    ∀ r ∈ db.episodes.rows.filter fun r => r.2.canonicalHash.isNone,
      ¬ r.2.payloadJson.Unhashable := by
  simp only [Hashable, List.mem_filter, Option.isNone_iff_eq_none, and_imp, Prod.forall,
    Table.mem_rows]

/-- A backfill that can hash its rows sends its statements; with none there is nothing to do. -/
theorem run_backfill_loop (hhash : db.Hashable) :
    (backfillCanonicalHash sha).run (Conn.step Migration.exec) (Conn.idle db) =
      (Prog.forEach (fun u => Script.write OpenError.integrity (.setCanonicalHash u.1 u.2))
        (db.updates sha) >>= fun _ => Prog.ret ()).run (Conn.step Migration.exec)
          (Conn.idle db) := by
  have hcollect : collectUpdates sha (db.episodes.rows.filter fun r => r.2.canonicalHash.isNone) =
      .ok (db.updates sha) := by
    rcases collectUpdates_eq sha
      (db.episodes.rows.filter fun r => r.2.canonicalHash.isNone) with ⟨-, h⟩ | ⟨⟨r, hr, hbad⟩, -⟩
    · exact h
    · exact absurd hbad (Db.hashable_iff.mp hhash r hr)
  rw [backfillCanonicalHash, Prog.run_bind_ok (Script.run_select _), Conn.visible_idle]
  dsimp only
  split
  · rename_i hempty
    rw [List.isEmpty_iff] at hempty
    rw [hempty] at hcollect
    rw [← Except.ok.inj hcollect]
    rfl
  · rw [hcollect]
    dsimp only
    split
    · rename_i hempty
      rw [List.isEmpty_iff.mp hempty]
      rfl
    · rfl

/-- The backfill fills the table, or raises. -/
theorem run_backfillCanonicalHash (sha : Sha256) (db : Db) :
    ((db.Hashable ∧ db.FillsApart sha) ∧ ∃ c,
      (backfillCanonicalHash sha).run (Conn.step Migration.exec) (Conn.idle db) = (.ok (), c) ∧
        c.visible = db.filled sha) ∨
    (¬ (db.Hashable ∧ db.FillsApart sha) ∧ ∃ e c,
      (backfillCanonicalHash sha).run (Conn.step Migration.exec) (Conn.idle db) = (.error e, c) ∧
        c.disk = db) := by
  by_cases hhash : db.Hashable
  · have hloop := run_fillRows (Db.updates_updates sha db)
      (fun id (hid : id ∈ []) => absurd hid List.not_mem_nil) (c := Conn.idle db) rfl (by simp)
    rw [List.nil_append, Db.acceptsAt_updates_iff, Db.filledAt_updates] at hloop
    rw [run_backfill_loop hhash]
    rcases hloop with ⟨hacc, ns, c, hrun, -, hvisible⟩ | ⟨hrej, e, c, hrun, hdisk⟩
    · exact .inl ⟨⟨hhash, hacc⟩, c, Prog.run_bind_ok hrun, hvisible⟩
    · refine .inr ⟨fun h => hrej h.2, e, c, ?_, hdisk⟩
      rw [Prog.run_bind, hrun]
  · refine .inr ⟨fun h => hhash h.1, .unhashable, Conn.idle db, ?_, rfl⟩
    rcases collectUpdates_eq sha
      (db.episodes.rows.filter fun r => r.2.canonicalHash.isNone) with ⟨hall, -⟩ | ⟨⟨r, hr, -⟩, h⟩
    · exact absurd (Db.hashable_iff.mpr hall) hhash
    · rw [backfillCanonicalHash, Prog.run_bind_ok (Script.run_select _), Conn.visible_idle]
      have hsome : (db.episodes.rows.filter fun r => r.2.canonicalHash.isNone).isEmpty = false :=
        List.isEmpty_eq_false_iff.mpr (List.ne_nil_of_mem hr)
      dsimp only
      rw [hsome, h]
      rfl

/-- The database after `UNIQUE_INDEX_DDL`. -/
def Db.indexed (db : Db) : Db := Script.applied Migration.exec db .createUniqueIndex

theorem Db.indexed_eq (db : Db) : db.indexed = db ∨ db.indexed = { db with uniqueIndex := true } := by
  rw [indexed, Script.applied]
  rcases h : Migration.exec .createUniqueIndex db with e | ⟨n, db'⟩
  · exact .inl rfl
  · rw [Migration.exec] at h
    grind

/-- A second attempt at the index changes nothing. -/
theorem Db.indexed_indexed (db : Db) : db.indexed.indexed = db.indexed := by
  by_cases hindex : db.uniqueIndex = true
  · simp [indexed, Script.applied, Migration.exec, hindex]
  · by_cases hkeys : db.indexKeys.Nodup <;>
      simp [indexed, Script.applied, Migration.exec, hindex, hkeys]

/-- A failure of the index is not raised. -/
theorem run_ensureUniqueActiveHashIndex (c : Conn Db) :
    ∃ c', ensureUniqueActiveHashIndex.run (Conn.step Migration.exec) c = (.ok (), c') ∧
      c'.visible = c.visible.indexed := by
  rcases h : Migration.exec .createUniqueIndex c.visible with e | ⟨n, db'⟩
  · refine ⟨⟨c.disk, some c.txOrBegin⟩, ?_, ?_⟩
    · rw [ensureUniqueActiveHashIndex, Prog.run_bind_ok (Script.run_tryWrite_error h)]
      rfl
    · rw [Db.indexed, Script.applied_error h, Conn.visible_mk_some, Conn.txOrBegin_view]
  · refine ⟨c.wrote db', ?_, ?_⟩
    · rw [ensureUniqueActiveHashIndex, Prog.run_bind_ok (Script.run_tryWrite_ok h)]
      rfl
    · rw [Db.indexed, Script.applied_ok h, Conn.wrote_visible]

/-- **Opening a queue that can be filled.** It fills the rows, then makes the index if no two
rows are in its way, and commits both together. -/
theorem run_initDb (hhash : db.Hashable) (hapart : db.FillsApart sha) :
    (initDb sha).run (Conn.step Migration.exec) (Conn.idle db) =
      (.ok (), Conn.idle (db.filled sha).indexed) := by
  rcases run_backfillCanonicalHash sha db with ⟨-, c, hfill, hvisible⟩ | ⟨hnot, -⟩
  · obtain ⟨c', hindex, hvisible'⟩ := run_ensureUniqueActiveHashIndex c
    have hbody : (do
        backfillCanonicalHash sha
        ensureUniqueActiveHashIndex
        Script.commit : OpenSql Unit).run (Conn.step Migration.exec) (Conn.idle db) =
        (.ok (), Conn.idle c'.visible) := by
      rw [Prog.run_bind_ok hfill, Prog.run_bind_ok hindex, Script.run_commit]
    rw [initDb, Script.run_withConn_ok hbody, Conn.visible_idle, hvisible', hvisible]
  · exact absurd ⟨hhash, hapart⟩ hnot

/-- **Any other queue does not open**, and is left as it was: the transaction of the backfill
is never committed. -/
theorem run_initDb_error (h : ¬ (db.Hashable ∧ db.FillsApart sha)) :
    ∃ e, (initDb sha).run (Conn.step Migration.exec) (Conn.idle db) =
      (.error e, Conn.idle db) := by
  rcases run_backfillCanonicalHash sha db with ⟨hyes, -⟩ | ⟨-, e, c, hfill, hdisk⟩
  · exact absurd hyes h
  · refine ⟨e, ?_⟩
    rw [initDb, Script.withConn, Prog.run_bind, Prog.run_attempt, Prog.run_bind, hfill]
    rw [← hdisk]
    rfl

/-- The index is all that an opening changes besides the canonical hashes. -/
theorem Db.get?_opened (id : String) : (db.filled sha).indexed.episodes.get? id =
    (db.episodes.get? id).map (Episode.filled sha) := by
  rw [← get?_filled]
  rcases (db.filled sha).indexed_eq with h | h <;> rw [h]

theorem Db.filled_opened : (db.filled sha).indexed.filled sha = (db.filled sha).indexed := by
  rw [filled, Db.mk.injEq]
  refine ⟨Table.ext_get? (by simp) fun k _ => ?_, rfl, rfl, rfl⟩
  rw [Table.get?_map, get?_opened, Option.map_map]
  exact Option.map_congr fun e _ => Episode.filled_filled e

/-- A queue that has been opened can be opened again. -/
theorem Db.Hashable.opened (h : db.Hashable) : (db.filled sha).indexed.Hashable := by
  intro id e he hnull
  rw [get?_opened, Option.map_eq_some_iff] at he
  obtain ⟨e', he', rfl⟩ := he
  exact h id e' he' (Option.or_eq_none_iff.mp hnull).1

theorem Db.fillsApart_opened (sha : Sha256) (db : Db) : (db.filled sha).indexed.FillsApart sha := by
  intro id e he hnull
  rw [get?_opened, Option.map_eq_some_iff] at he
  obtain ⟨e', -, rfl⟩ := he
  rw [Episode.filled_filled]
  exact conflicts_of_indexKey_none (Episode.indexKey_of_null hnull)

end

/-- **Opening is total, exactly when** every payload that gets a hash can be hashed and no
filled row meets another one in an index that is there already. Neither exception is caught
on the way out of the constructor; that of the index itself is. -/
theorem backfill_total_iff (sha : Sha256) (db : Db) :
    db.BackfillTotal sha ↔ db.Hashable ∧ db.FillsApart sha := by
  constructor
  · intro h
    by_contra hnot
    obtain ⟨e, herror⟩ := run_initDb_error hnot
    have hdone := h.completes
    rw [Script.result, herror] at hdone
    cases hdone
  · rintro ⟨hhash, hapart⟩
    have hrun := run_initDb hhash hapart
    have hexec : (initDb sha).exec Migration.exec db = (db.filled sha).indexed := by
      rw [Script.exec, hrun, Conn.idle_disk]
    have hagain := run_initDb hhash.opened (Db.fillsApart_opened sha db)
    rw [Db.filled_opened, Db.indexed_indexed] at hagain
    have hrows : (db.filled sha).indexed.episodes = (db.filled sha).episodes ∧
        (db.filled sha).indexed.deadLetter = db.deadLetter ∧
        (db.filled sha).indexed.dedupEvents = db.dedupEvents := by
      rcases (db.filled sha).indexed_eq with h | h <;> rw [h] <;> exact ⟨rfl, rfl, rfl⟩
    refine ⟨by rw [Script.result, hrun], ?_, ?_, ?_, ?_, ?_⟩
    · rw [hexec, hrows.1]
      rfl
    · rw [hexec, hrows.2.1]
    · rw [hexec, hrows.2.2]
    · rw [hexec, Script.result, hagain]
    · rw [hexec, Script.exec, hagain, Conn.idle_disk]

/-- A finished row of an older schema, whose content is a number. -/
def oldEpisode : Episode where
  status := .done
  payloadJson := .json (.obj [("content", .num "5"), ("group_id", .str "g"),
    ("source_description", .str "c")])
  enqueuedAt := 0
  startedAt := none
  finishedAt := none
  attemptCount := 0
  consecutiveFailures := 0
  lastError := none
  checkpoint := none
  createdAt := 0
  updatedAt := 0
  lastReplayAt := none
  payloadHash := none
  claimedBy := none
  canonicalHash := none
  dedupGate := none

/-- One such row, and the queue does not open. -/
theorem not_backfill_total :
    (initDb .plain).result Migration.exec
        { Db.empty with episodes := Table.empty.put "e" oldEpisode } = .error .unhashable ∧
      ¬ Db.BackfillTotal .plain
        { Db.empty with episodes := Table.empty.put "e" oldEpisode } := by
  have hresult : (initDb .plain).result Migration.exec
      { Db.empty with episodes := Table.empty.put "e" oldEpisode } = .error .unhashable := by
    rfl
  refine ⟨hresult, fun h => ?_⟩
  have hdone := h.completes
  rw [hresult] at hdone
  cases hdone

end JanusGraph
