import JanusGraph.Queue.PayloadHash

/-!
# The backstop and its window

`EpisodeWorker._backstop_skip_if_ingested` of `pipeline/worker.py` skips a record whose
payload a finished episode already has. `DedupBackstopSettings` says how far back it looks,
but `_resolve_backstop` drops the setting and `find_ingested_duplicate_sync` takes the newest
finished row of any age.

The lookup is by hash, and the window is about payloads. What connects the two is that every row
of a run carries the hash of its own payload (`Db.Stamped`): in such a queue the lookup finds the
rows that have been ingested with the payload of the record (`Db.Stamped.holds_eq`) and takes the
newest of them. A window that has an older one has a newer one, too
(`DedupBackstopSettings.InWindow.of_le`), so that what it gets wrong is a newest row outside of
the window, and a newest row that is the record's own (`newest_demands_iff`).

The handler of the worker swallows whatever the lookup raises; a record is then ingested
(`skips_iff_try`).
-/

namespace JanusGraph

open Script

/-- `DedupBackstopSettings` -/
structure DedupBackstopSettings : Type where
  enabled : Bool := false
  lookbackSec : ℤ := 0

/-- `EpisodeQueue.find_ingested_duplicate_sync` -/
def findIngestedDuplicate (env : Env) (payloadHash : String) : Sql (Option String) :=
  if payloadHash = "" then return none
  else Script.withConn do
    let db ← Script.select
    return db.newest env.rank fun e => e.holds payloadHash && e.status == .done

/-- `_resolve_backstop`: `enabled` is all that is left of the settings. -/
def resolveBackstop (backstop : Option DedupBackstopSettings) : Bool :=
  match backstop with
  | none => false
  | some backstop => backstop.enabled

/-- The `try` of `_backstop_skip_if_ingested`. -/
def tryBackstop (sha : Sha256) (env : Env) (backstop : Option DedupBackstopSettings)
    (record : EpisodeRecord) : Sql Bool :=
  if !resolveBackstop backstop then return false
  else
    match record.payload.readTriple with
    | .incomplete => return false
    | .unhashable =>
      -- what `canonical_payload_hash` raises, the handler turns into this
      return false
    | .triple t => do
      let payloadHash := canonicalPayloadHash sha t.content t.groupId t.sourceDescription
      match ← findIngestedDuplicate env payloadHash with
      | none => return false
      | some existing =>
        if existing = record.id then return false
        else
          markSkippedDuplicate env record.id (some existing) (some payloadHash)
          return true

/-- `_backstop_skip_if_ingested` -/
def backstopSkipIfIngested (sha : Sha256) (env : Env) (backstop : Option DedupBackstopSettings)
    (record : EpisodeRecord) : Sql Bool := do
  match ← ((tryBackstop sha env backstop record).attempt : Sql (Except QueueError Bool)) with
  | .ok skipped => return skipped
  | .error _ => return false

/-! ## What the window promises -/

/-- The row has the payload of the record, as far as `canonical_payload_hash` can tell. -/
def samePayload (sha : Sha256) (record : EpisodeRecord) (e : Episode) : Bool :=
  match record.payload.readTriple, e.payloadJson.loads.readTriple with
  | .triple t, .triple t' => sha.hexdigest t'.preimage = sha.hexdigest t.preimage
  | _, _ => false

/-- A row that has been ingested with the payload of the record. -/
def ingestedAs (sha : Sha256) (record : EpisodeRecord) (e : Episode) : Bool :=
  samePayload sha record e && e.status == .done

/-- The row is less than `lookback_sec` old; without a `lookback_sec`, any row is. -/
def DedupBackstopSettings.InWindow (backstop : DedupBackstopSettings) (now : ℕ) (e : Episode) :
    Prop :=
  0 < backstop.lookbackSec → (now : ℤ) - e.createdAt < backstop.lookbackSec * 1000000

/-- There is a reason to skip the record: another row has been ingested with its payload, and
is in the window. -/
def DedupBackstopSettings.Demands (backstop : DedupBackstopSettings) (sha : Sha256) (now : ℕ)
    (record : EpisodeRecord) (db : Db) : Prop :=
  backstop.enabled = true ∧ ∃ id e, db.episodes.get? id = some e ∧ id ≠ record.id ∧
    ingestedAs sha record e = true ∧ backstop.InWindow now e

/-- The newest row that has been ingested with the payload of the record is in the window;
or it is the record's own, and no other such row is. -/
def DedupBackstopSettings.NewestDecides (backstop : DedupBackstopSettings) (sha : Sha256)
    (env : Env) (record : EpisodeRecord) (db : Db) : Prop :=
  ∀ id e, db.newest env.rank (ingestedAs sha record) = some id → db.episodes.get? id = some e →
    (id ≠ record.id → backstop.InWindow env.now e) ∧
    (id = record.id → ∀ id' e', db.episodes.get? id' = some e' → id' ≠ record.id →
      ingestedAs sha record e' = true → ¬ backstop.InWindow env.now e')

/-! ## The check -/

section

variable {sha : Sha256} {env : Env} {backstop : DedupBackstopSettings} {record : EpisodeRecord}
  {db : Db}

/-- A window that takes a row in takes in every newer one. -/
theorem DedupBackstopSettings.InWindow.of_le {now : ℕ} {e e' : Episode}
    (h : backstop.InWindow now e) (hle : e.createdAt ≤ e'.createdAt) :
    backstop.InWindow now e' := by
  intro hpos
  have hage := h hpos
  have hle' : (e.createdAt : ℤ) ≤ e'.createdAt := Int.ofNat_le.mpr hle
  omega

/-- Lookups that agree on the rows find the same one. -/
theorem Db.newest_congr {rank : String → ℕ} {p q : Episode → Bool}
    (h : ∀ id e, db.episodes.get? id = some e → p e = q e) : db.newest rank p = db.newest rank q := by
  have hfilter : (db.episodes.rows.filter fun r => p r.2) =
      db.episodes.rows.filter fun r => q r.2 :=
    List.filter_congr fun r hr => h r.1 r.2 (Table.mem_rows.mp hr)
  rw [newest, newest, hfilter]

/-- In a stamped queue the hash of the record finds the rows with its payload. -/
theorem Db.Stamped.holds_eq (h : db.Stamped sha) {t : EpisodeTriple}
    (ht : record.payload.readTriple = .triple t) {id : String} {e : Episode}
    (he : db.episodes.get? id = some e) :
    e.holds (sha.hexdigest t.preimage) = samePayload sha record e := by
  obtain ⟨t', hstores, hhash⟩ := h id e he
  rw [Episode.holds, hhash, samePayload, ht, hstores.readTriple]
  rfl

theorem run_findIngestedDuplicate (env : Env) {payloadHash : String} (h : payloadHash ≠ "")
    (db : Db) :
    alone (findIngestedDuplicate env payloadHash) db =
      (.ok (db.newest env.rank fun e => e.holds payloadHash && e.status == .done),
        Conn.idle db) := by
  simp [alone, findIngestedDuplicate, h, withConn, Prog.run_bind, Prog.run_attempt]

/-- The handler turns whatever the `try` raises into "do not skip". -/
theorem skips_iff_try :
    (backstopSkipIfIngested sha env (some backstop) record).result Write.exec db = .ok true ↔
      (alone (tryBackstop sha env (some backstop) record) db).1 = .ok true := by
  rcases htry : alone (tryBackstop sha env (some backstop) record) db with ⟨e | skipped, c⟩
  all_goals
    simp only [alone] at htry
    simp [backstopSkipIfIngested, Script.result, Prog.run_bind, Prog.run_attempt, htry]

/-- **What the worker does.** In a stamped queue the backstop skips a record exactly if it is
enabled and the newest row that has been ingested with the payload of the record is another
one. The age of that row is not looked at. -/
theorem Db.Stamped.skips_iff (h : db.Stamped sha) :
    (backstopSkipIfIngested sha env (some backstop) record).result Write.exec db = .ok true ↔
      backstop.enabled = true ∧
        ∃ id, db.newest env.rank (ingestedAs sha record) = some id ∧ id ≠ record.id := by
  rw [skips_iff_try]
  rcases henabled : backstop.enabled with _ | _
  · simp [alone, tryBackstop, resolveBackstop, henabled]
  have hunread : (∀ e, samePayload sha record e = false) →
      db.newest env.rank (ingestedAs sha record) = none := fun hsame =>
    newest_eq_none_iff.mpr fun _ e _ => by rw [ingestedAs, hsame e, Bool.false_and]
  rcases hreading : record.payload.readTriple with _ | _ | t
  · have hnone := hunread fun e => by rw [samePayload, hreading]
    simp [alone, tryBackstop, resolveBackstop, henabled, hreading, hnone]
  · have hnone := hunread fun e => by rw [samePayload, hreading]
    simp [alone, tryBackstop, resolveBackstop, henabled, hreading, hnone]
  have hhash : sha.hexdigest t.preimage ≠ "" := sha.hexdigest_ne _
  have hnewest : db.newest env.rank (fun e => e.holds (sha.hexdigest t.preimage) &&
      e.status == .done) = db.newest env.rank (ingestedAs sha record) :=
    newest_congr fun id e he => by rw [h.holds_eq hreading he, ingestedAs]
  have hfind := run_findIngestedDuplicate env hhash db
  rw [hnewest] at hfind
  have hcanonical : canonicalPayloadHash sha t.content t.groupId t.sourceDescription =
      sha.hexdigest t.preimage := rfl
  simp only [alone] at hfind
  rcases hid : db.newest env.rank (ingestedAs sha record) with _ | id
  · rw [hid] at hfind
    simp [alone, tryBackstop, resolveBackstop, henabled, hreading, hcanonical, Prog.run_bind,
      hfind]
  rw [hid] at hfind
  by_cases hown : id = record.id
  · simp [alone, tryBackstop, resolveBackstop, henabled, hreading, hcanonical, Prog.run_bind,
      hfind, hown]
  · obtain ⟨db', error, hmark, -⟩ := run_markSkippedDuplicate env record.id (some id)
      (some (sha.hexdigest t.preimage)) db
    simp only [alone] at hmark
    simp [alone, tryBackstop, resolveBackstop, henabled, hreading, hcanonical, Prog.run_bind,
      hfind, hown, hmark]

/-- Another row is the newest that has been ingested with the payload of the record: then it
is a reason to skip the record exactly if it is in the window. -/
theorem newest_demands_iff {id : String} {e : Episode}
    (hid : db.newest env.rank (ingestedAs sha record) = some id)
    (he : db.episodes.get? id = some e) (hne : id ≠ record.id) (henabled : backstop.enabled = true) :
    backstop.Demands sha env.now record db ↔ backstop.InWindow env.now e := by
  obtain ⟨e₁, he₁, hingested, hnewest⟩ := Db.newest_spec hid
  obtain rfl := Option.some.inj (he.symm.trans he₁)
  constructor
  · rintro ⟨-, id', e', he', -, hingested', hwindow⟩
    exact hwindow.of_le (hnewest id' e' he' hingested')
  · intro hwindow
    exact ⟨henabled, id, e, he, hne, hingested, hwindow⟩

end

/-- **The backstop keeps to its window, exactly when** the newest row that has been ingested
with the payload decides. The worker skips a record exactly if another row that was ingested
with its payload is in the window, when the backstop is off, and when it is on, if the newest
such row is in the window itself; where it is the record's own row, if no other one is. The
setting of the window is dropped before the lookup, so that its only effect is what the
newest row happens to be. -/
theorem backstop_window_iff (sha : Sha256) (steps : List Step) (env : Env)
    (backstop : DedupBackstopSettings) (record : EpisodeRecord) :
    ((backstopSkipIfIngested sha env (some backstop) record).result Write.exec
          (runSteps sha Db.empty steps) = .ok true ↔
        backstop.Demands sha env.now record (runSteps sha Db.empty steps)) ↔
      (backstop.enabled = true →
        backstop.NewestDecides sha env record (runSteps sha Db.empty steps)) := by
  have hstamped := runSteps_stamped sha steps
  generalize runSteps sha Db.empty steps = db at hstamped ⊢
  rw [hstamped.skips_iff]
  rcases henabled : backstop.enabled with _ | _
  · have hnot : ¬ backstop.Demands sha env.now record db := fun h => by
      rw [h.1] at henabled
      cases henabled
    simp [hnot]
  rcases hid : db.newest env.rank (ingestedAs sha record) with _ | id
  · -- nothing has been ingested with the payload
    have hnone := Db.newest_eq_none_iff.mp hid
    have hnot : ¬ backstop.Demands sha env.now record db := by
      rintro ⟨-, id, e, he, -, hingested, -⟩
      rw [hnone id e he] at hingested
      cases hingested
    simp [hnot, DedupBackstopSettings.NewestDecides, hid]
  obtain ⟨e, he, hingested, -⟩ := Db.newest_spec hid
  have hdecides : backstop.NewestDecides sha env record db ↔
      (id ≠ record.id → backstop.InWindow env.now e) ∧
        (id = record.id → ∀ id' e', db.episodes.get? id' = some e' → id' ≠ record.id →
          ingestedAs sha record e' = true → ¬ backstop.InWindow env.now e') := by
    constructor
    · exact fun h => h id e hid he
    · rintro h id' e' hid' he'
      obtain rfl := Option.some.inj (hid.symm.trans hid')
      obtain rfl := Option.some.inj (he.symm.trans he')
      exact h
  by_cases hown : id = record.id
  · simp [hdecides, hown, DedupBackstopSettings.Demands, henabled]
  · rw [newest_demands_iff hid he hown henabled]
    simp [hdecides, hown]

/-- A payload is ingested, and enqueued again ten seconds later. -/
def ingestedBefore : List Step :=
  [⟨.at 0, .enqueue (memoryCall "e" "a" "c")⟩, ⟨.at 1, .claimNextBatch (some 1)⟩,
    ⟨.at 2, .markDone "e"⟩, ⟨.at 10000000, .enqueue (memoryCall "f" "a" "c")⟩]

/-- The worker claims the second row and skips it, with a window of one second. -/
theorem not_backstop_window :
    ∃ record, (Step.mk (.at 10000001) (.claimNextBatch (some 1))).result .plain
        (runSteps .plain Db.empty ingestedBefore) = .ok (.records [record]) ∧
      (backstopSkipIfIngested .plain (.at 10000002)
          (some { enabled := true, lookbackSec := 1 }) record).result Write.exec
          (runSteps .plain Db.empty
            (ingestedBefore ++ [⟨.at 10000001, .claimNextBatch (some 1)⟩])) = .ok true ∧
      ¬ DedupBackstopSettings.Demands { enabled := true, lookbackSec := 1 } .plain 10000002 record
          (runSteps .plain Db.empty
            (ingestedBefore ++ [⟨.at 10000001, .claimNextBatch (some 1)⟩])) := by
  refine ⟨_, rfl, rfl, ?_⟩
  rintro ⟨-, id, e, he, hne, -, hwindow⟩
  have hrows : ∃ e₁ f₁, (runSteps .plain Db.empty (ingestedBefore ++
      [⟨.at 10000001, .claimNextBatch (some 1)⟩])).episodes.rows = [("e", e₁), ("f", f₁)] ∧
      e₁.createdAt = 0 := ⟨_, _, rfl, rfl⟩
  obtain ⟨e₁, f₁, hrows, hcreated⟩ := hrows
  have hmem := Table.mem_rows.mpr he
  rw [hrows, List.mem_cons, List.mem_singleton] at hmem
  rcases hmem with h | h
  · obtain ⟨rfl, rfl⟩ := Prod.mk.inj h
    have hage : (10000002 : ℤ) - e.createdAt < 1 * 1000000 := hwindow (by decide)
    rw [hcreated] at hage
    omega
  · exact hne (Prod.mk.inj h).1

end JanusGraph
