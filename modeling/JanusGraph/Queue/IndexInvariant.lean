import JanusGraph.Lib.Work
import JanusGraph.Queue.Transition

/-!
# The unique index is kept by every statement

A row comes under the unique index by `INSERT`, by a requeue, and by a claim of a row
that has left the active statuses in the meantime. Each statement asks the index about
the columns it writes, so that no accepted statement breaks it.

The invariant is `Db.Disciplined`: the index exists, no two rows share a key of it, and
no episode has the empty id, which the lookups would take for none.

* **Kept.** `keeps_insertEpisode`, `keeps_updateEpisode` and `keeps_claimEpisodes`, one
  for each kind of statement that writes to `episodes`; `keeps_discipline` is all of them.
  They are about one statement in any database, so that nothing has to be known of
  the process that sends it, or of the others.
* **Not needed.** An update that leaves the key of its row alone is never refused
  (`Db.Disciplined.rejects_of_indexKey`), which is why the outcomes and the checkpoints
  need no savepoint.
* **Needed.** A claim writes many rows at once and has no savepoint either. `Db.ClaimClear`
  is what it takes for the index to let it through.
-/

namespace JanusGraph

open Script

/-- The index is there and distinct, and no episode has the empty id. -/
structure Db.Disciplined (db : Db) : Prop where
  uniqueIndex : db.uniqueIndex = true
  distinct : db.IndexOk
  ids : db.episodes.get? "" = none

/-- At most one row per canonical hash is enforced and active: the index in the terms
of the columns. -/
theorem Db.IndexOk.unique {db : Db} (h : db.IndexOk) (hindex : db.uniqueIndex = true)
    {id id' hash : String} {e e' : Episode} (he : db.episodes.get? id = some e)
    (he' : db.episodes.get? id' = some e') (hhash : e.canonicalHash = some hash)
    (hhash' : e'.canonicalHash = some hash) (hgate : e.dedupGate = some .enforce)
    (hgate' : e'.dedupGate = some .enforce) (hactive : e.status ∈ activeStatuses)
    (hactive' : e'.status ∈ activeStatuses) : id = id' := by
  refine h hindex id id' e e' hash he he' ?_ ?_
  · rw [Episode.indexKey, if_pos ⟨hgate, hactive⟩, hhash]
  · rw [Episode.indexKey, if_pos ⟨hgate', hactive'⟩, hhash']

/-- What it means to have a key in the index. -/
theorem Episode.indexKey_eq_some {e : Episode} {hash : String} :
    e.indexKey = some hash ↔
      e.dedupGate = some .enforce ∧ e.status ∈ activeStatuses ∧ e.canonicalHash = some hash := by
  unfold indexKey
  split
  · rename_i h
    exact ⟨fun hhash => ⟨h.1, h.2, hhash⟩, fun hall => hall.2.2⟩
  · rename_i h
    exact ⟨fun hhash => (by cases hhash), fun hall => absurd ⟨hall.1, hall.2.1⟩ h⟩

/-- Columns the index accepts have a key no other row has. -/
theorem Db.not_conflicts_iff {db : Db} (hindex : db.uniqueIndex = true) {id : String}
    {e : Episode} :
    db.conflicts id e = false ↔
      ∀ id' e' key, db.episodes.get? id' = some e' → id' ≠ id → e.indexKey = some key →
        e'.indexKey ≠ some key := by
  rw [conflicts, hindex, Bool.true_and, Bool.and_eq_false_iff]
  constructor
  · rintro (hnone | hany) id' e' key he' hne hkey
    · rw [hkey] at hnone
      cases hnone
    · rw [List.any_eq_false] at hany
      intro hkey'
      refine hany (id', e') (Table.mem_rows.mpr he') ?_
      simp [hne, hkey, hkey']
  · intro h
    rcases hkey : e.indexKey with _ | key
    · exact Or.inl rfl
    · refine Or.inr (List.any_eq_false.mpr ?_)
      rintro ⟨id', e'⟩ hmem
      simp only [ne_eq, Bool.and_eq_true, decide_eq_true_eq, not_and]
      intro hne hkey'
      exact h id' e' key (Table.mem_rows.mp hmem) (by simpa using hne) hkey hkey'

/-- **The shape of every case.** Writing columns that the index accepts under one id keeps
it: two rows with one key are either both old, or the same row, or the new one and an old
one, and that the index has ruled out. -/
theorem Db.IndexOk.write {db db' : Db} {id : String} {e : Episode} (h : db.IndexOk)
    (hindex : db'.uniqueIndex = db.uniqueIndex)
    (hget : ∀ id', db'.episodes.get? id' = if id' = id then some e else db.episodes.get? id')
    (hacc : db.conflicts id e = false) : db'.IndexOk := by
  intro hindex' id₁ id₂ e₁ e₂ key he₁ he₂ hkey₁ hkey₂
  rw [hindex] at hindex'
  have hother := (not_conflicts_iff hindex').mp hacc
  rw [hget] at he₁ he₂
  by_cases h₁ : id₁ = id
  · by_cases h₂ : id₂ = id
    · rw [h₁, h₂]
    · rw [if_pos h₁] at he₁
      rw [if_neg h₂] at he₂
      obtain rfl := Option.some.inj he₁
      exact absurd hkey₂ (hother id₂ e₂ key he₂ h₂ hkey₁)
  · rw [if_neg h₁] at he₁
    by_cases h₂ : id₂ = id
    · rw [if_pos h₂] at he₂
      obtain rfl := Option.some.inj he₂
      exact absurd hkey₁ (hother id₁ e₁ key he₁ h₁ hkey₂)
    · rw [if_neg h₂] at he₂
      exact h hindex' id₁ id₂ e₁ e₂ key he₁ he₂ hkey₁ hkey₂

/-- A statement that does not touch the episodes keeps the discipline. -/
theorem Db.Disciplined.of_get? {db db' : Db} (h : db.Disciplined)
    (hindex : db'.uniqueIndex = db.uniqueIndex)
    (hget : ∀ id, db'.episodes.get? id = db.episodes.get? id) : db'.Disciplined where
  uniqueIndex := hindex.trans h.uniqueIndex
  distinct := by
    intro hindex' id₁ id₂ e₁ e₂ key he₁ he₂
    rw [hget] at he₁ he₂
    exact h.distinct h.uniqueIndex id₁ id₂ e₁ e₂ key he₁ he₂
  ids := (hget "").trans h.ids

/-- **Insert.** The index is asked before the row is there; a taken id is refused before
that. -/
theorem keeps_insertEpisode {id : String} (hid : id ≠ "") (e : Episode) :
    Keeps Write.exec Db.Disciplined (.insertEpisode id e) := by
  intro db hdb
  rcases hexec : Write.exec (.insertEpisode id e) db with err | ⟨n, db'⟩
  · rw [applied_error hexec]
    exact hdb
  · rw [applied_ok hexec]
    obtain ⟨hnone, rfl⟩ := Db.insertEpisode_ok hexec
    have hacc : db.conflicts id e = false := by
      rcases hc : db.conflicts id e with _ | _
      · rfl
      · simp [Write.exec, hnone, hc] at hexec
    refine ⟨hdb.uniqueIndex, hdb.distinct.write rfl (fun id' => Table.get?_put _ _ _ _) hacc, ?_⟩
    rw [Table.get?_put_ne _ _ (Ne.symm hid)]
    exact hdb.ids

/-- **Update of one row**, guarded or not: if the `WHERE` clause admits the row, the index
has been asked about its new columns. -/
theorem keeps_updateEpisode (id : String) (u : EpisodeUpdate) :
    Keeps Write.exec Db.Disciplined (.updateEpisode id u) := by
  intro db hdb
  change (db.apply _).Disciplined
  rw [Db.apply_update]
  split
  · exact hdb
  · rename_i hrej
    rcases hu : db.updated id u with _ | e
    · -- the `WHERE` clause matches no row
      refine hdb.of_get? rfl fun id' => ?_
      rw [Db.update, Table.get?_modify]
      split
      · rename_i hid
        subst hid
        rcases he : db.episodes.get? id' with _ | e
        · rfl
        · have hadmits : u.admits e = false := by
            simpa [Db.updated, he, Option.filter] using hu
          simp [hadmits]
      · rfl
    · have hacc : db.conflicts id e = false := by simpa [Db.rejects, hu] using hrej
      refine ⟨hdb.uniqueIndex, hdb.distinct.write (e := e) rfl (fun id' => ?_) hacc, ?_⟩
      · obtain ⟨e', he', rfl⟩ := Option.map_eq_some_iff.mp hu
        obtain ⟨he, hadmits⟩ := Option.filter_eq_some_iff.mp he'
        rw [Db.update, Table.get?_modify]
        split
        · rename_i hid
          rw [hid, he, Option.map_some, if_pos hadmits]
        · rfl
      · rw [Db.update, Table.get?_modify, hdb.ids]
        split <;> rfl

/-- **Claim.** One statement writes all rows, and the index is asked about each of them as
they are afterwards, so that two rows of one claim cannot collide unnoticed. -/
theorem keeps_claimEpisodes (ids : List String) (now : ℕ) :
    Keeps Write.exec Db.Disciplined (.claimEpisodes ids now) := by
  intro db hdb
  change (db.apply _).Disciplined
  rw [Db.apply_claim]
  split
  · exact hdb
  · rename_i hrej
    rw [Bool.not_eq_true] at hrej
    refine ⟨hdb.uniqueIndex, ?_, ?_⟩
    · -- the index was asked about every claimed row, after the update
      intro hindex id₁ id₂ e₁ e₂ key he₁ he₂ hkey₁ hkey₂
      have hacc : ∀ id ∈ ids, ∀ e, (db.claim ids now).episodes.get? id = some e →
          (db.claim ids now).conflicts id e = false := by
        intro id hid e he
        have hall := List.any_eq_false.mp hrej id hid
        simpa [he] using hall
      by_contra hne
      have hout : ∀ id id' e e', (db.claim ids now).episodes.get? id = some e →
          (db.claim ids now).episodes.get? id' = some e' → e.indexKey = some key →
          e'.indexKey = some key → id' ≠ id → id ∉ ids := by
        intro id id' e e' he he' hkey hkey' hid hmem
        exact (Db.not_conflicts_iff hindex).mp (hacc id hmem e he) id' e' key he' hid hkey hkey'
      have h₁ := hout id₁ id₂ e₁ e₂ he₁ he₂ hkey₁ hkey₂ (Ne.symm hne)
      have h₂ := hout id₂ id₁ e₂ e₁ he₂ he₁ hkey₂ hkey₁ hne
      rw [Db.get?_claim] at he₁ he₂
      simp only [h₁, h₂, if_false, Option.map_id'] at he₁ he₂
      exact hne (hdb.distinct hdb.uniqueIndex id₁ id₂ e₁ e₂ key he₁ he₂ hkey₁ hkey₂)
    · rw [Db.get?_claim, hdb.ids]
      rfl

/-- **One statement.** Only the row with the empty id is refused; every other statement,
accepted or rejected, keeps the discipline. -/
theorem keeps_discipline {w : Write} (h : ∀ e, w ≠ .insertEpisode "" e) :
    Keeps Write.exec Db.Disciplined w := by
  cases w with
  | insertEpisode id e => exact keeps_insertEpisode (fun hid => h e (by rw [hid])) e
  | updateEpisode id u => exact keeps_updateEpisode id u
  | claimEpisodes ids now => exact keeps_claimEpisodes ids now
  | replaceDeadLetter | recoverDeadLetter | insertEvent =>
    exact fun db hdb => hdb.of_get? rfl fun _ => rfl

/-! ## What the index refuses -/

/-- An update that keeps the key of its row is accepted. -/
theorem Db.Disciplined.rejects_of_indexKey {db : Db} (h : db.Disciplined) {id : String}
    {u : EpisodeUpdate} (hkey : ∀ e, (u.set e).indexKey = e.indexKey) : db.rejects id u = false := by
  rw [Db.rejects, Db.updated]
  rcases he : (db.episodes.get? id).filter u.admits with _ | e
  · rfl
  · obtain ⟨hget, -⟩ := Option.filter_eq_some_iff.mp he
    refine (Db.not_conflicts_iff h.uniqueIndex).mpr ?_
    intro id' e' key he' hne hkey₁ hkey₂
    rw [hkey] at hkey₁
    exact hne (h.distinct h.uniqueIndex id' id e' e key he' hget hkey₂ hkey₁)

/-- The claim of `ids` meets nothing the index refuses: an enforced row that has left
the active statuses has a hash that no active row, and no other row of the claim, is
enforced under. -/
def Db.ClaimClear (db : Db) (ids : List String) : Prop :=
  ∀ id ∈ ids, ∀ e hash, db.episodes.get? id = some e → e.status ∉ activeStatuses →
    e.dedupGate = some .enforce → e.canonicalHash = some hash →
    ∀ id' e', id' ≠ id → db.episodes.get? id' = some e' → e'.dedupGate = some .enforce →
      e'.canonicalHash = some hash → e'.status ∉ activeStatuses ∧ id' ∉ ids

/-- A claim that meets nothing of the kind goes through. Two rows that would collide are both
active after it; either one of them was not before, and then it is not clear, or both were,
and then they were one row already. -/
theorem Db.Disciplined.rejectsClaim_of_clear {db : Db} (h : db.Disciplined) {ids : List String}
    (hclear : db.ClaimClear ids) (now : ℕ) : db.rejectsClaim ids now = false := by
  rw [Db.rejectsClaim, List.any_eq_false]
  intro id hid
  rw [Db.get?_claim]
  rcases he : db.episodes.get? id with _ | e
  · simp
  rw [Option.map_some, if_pos hid, Option.any_some, Bool.not_eq_true]
  have hindex : (db.claim ids now).uniqueIndex = true := h.uniqueIndex
  refine (Db.not_conflicts_iff hindex).mpr ?_
  intro id' e₁ key he₁ hne hkey hkey₁
  obtain ⟨hgate, -, hhash⟩ := Episode.indexKey_eq_some.mp hkey
  obtain ⟨hgate₁, hactive₁, hhash₁⟩ := Episode.indexKey_eq_some.mp hkey₁
  rw [Db.get?_claim, Option.map_eq_some_iff] at he₁
  obtain ⟨e', he', rfl⟩ := he₁
  have hgate' : e'.dedupGate = some .enforce := by
    split at hgate₁ <;> exact hgate₁
  have hhash' : e'.canonicalHash = some key := by
    split at hhash₁ <;> exact hhash₁
  by_cases hactive : e.status ∈ activeStatuses
  · by_cases hactive' : e'.status ∈ activeStatuses
    · exact hne (h.distinct.unique h.uniqueIndex he' he hhash' hhash hgate' hgate hactive' hactive)
    · -- the other row is claimed, too
      have hid' : id' ∈ ids := by
        by_contra hnot
        rw [if_neg hnot] at hactive₁
        exact hactive' hactive₁
      exact (hclear id' hid' e' key he' hactive' hgate' hhash' id e (Ne.symm hne) he hgate
        hhash).1 hactive
  · obtain ⟨hinactive', hnot⟩ := hclear id hid e key he hactive hgate hhash id' e' hne he' hgate'
      hhash'
    rw [if_neg hnot] at hactive₁
    exact hinactive' hactive₁

/-- **Claim, exactly.** The index refuses no other claim: from a claim that goes through one
reads off that nothing was in its way. -/
theorem Db.Disciplined.rejectsClaim_iff {db : Db} (h : db.Disciplined) {ids : List String}
    (now : ℕ) : db.rejectsClaim ids now = false ↔ db.ClaimClear ids := by
  refine ⟨fun hacc id hid e hash he hinactive hgate hhash id' e' hne he' hgate' hhash' => ?_,
    fun hclear => h.rejectsClaim_of_clear hclear now⟩
  -- after the claim row `id` is under its hash, and nobody else may be
  have hrow : (db.claim ids now).conflicts id (e.claim now) = false := by
    have hall := List.any_eq_false.mp hacc id hid
    rw [Db.get?_claim, he, Option.map_some, if_pos hid, Option.any_some, Bool.not_eq_true] at hall
    exact hall
  have hkey : (e.claim now).indexKey = some hash :=
    Episode.indexKey_eq_some.mpr ⟨hgate, by simp [Episode.claim, activeStatuses], hhash⟩
  have hindex : (db.claim ids now).uniqueIndex = true := h.uniqueIndex
  have hother := (Db.not_conflicts_iff hindex).mp hrow id'
  rw [Db.get?_claim, he', Option.map_some] at hother
  have hout := hother _ hash rfl hne hkey
  rw [Ne, Episode.indexKey_eq_some] at hout
  by_cases hmem : id' ∈ ids
  · rw [if_pos hmem] at hout
    exact absurd ⟨hgate', by simp [Episode.claim, activeStatuses], hhash'⟩ hout
  · rw [if_neg hmem] at hout
    exact ⟨fun hactive => hout ⟨hgate', hactive, hhash'⟩, hmem⟩

end JanusGraph
