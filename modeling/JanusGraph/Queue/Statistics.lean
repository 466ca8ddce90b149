import JanusGraph.Lib.Counting
import JanusGraph.Queue.Effect
import Mathlib.Data.List.Infix

/-!
# What the statistics say

The read-only accessors of `pipeline/queue.py`, and the dead-letter block that
`graphiti_health` of `mcp/server.py` makes of them. All of them count rows by
predicates of their own: the open dead letters, those of one class, those of any
class, and, for the batch replay, those `LIKE` matches. The numbers are about the
same rows if nobody moves in between.

The accessors read on connections of their own, one after the other. `run_getStats` and its
neighbours give what each returns in a database that nobody changes, and the rest is counting:

* by status, where every row has one (`sum_statuses`);
* by class, where a row may have several, so that the classes add up to the union or to more
  (`Db.countOpen_le_sum`, `Db.countOpen_eq_sum_iff`), and the union and `unclassified` to
  all open rows (`Db.countOpen_add_not`);
* by `LIKE`, where a class with a `%` or a `_` in it matches more than it carries
  (`matchesClasses_of_carries`, `carries_of_matchesClasses`).
-/

namespace JanusGraph

open Script

/-! ## The accessors -/

/-- `get_stats()`; a status without rows counts 0. -/
structure QueueStats : Type where
  count : Status → ℕ
  dlq : ℕ

/-- `EpisodeQueue.get_stats` -/
def getStats : Sql QueueStats :=
  Script.withConn do
    let db ← Script.select
    let db' ← Script.select
    return { count := fun s => db.episodes.rows.countP fun r => r.2.status == s
             dlq := db'.deadLetter.rows.countP fun r => r.2.isOpen }

/-- `EpisodeQueue.count_total` -/
def countTotal : Sql ℕ :=
  Script.withConn do
    let db ← Script.select
    return db.episodes.rows.length

/-- `_dlq_class_predicate`: any of the classes, wherever it is in the error. -/
def dlqClassPredicate (classes : List String) (error : String) : Bool :=
  classes.any fun c => carries error c

/-- A row of `get_dlq_records`. -/
structure DlqRecord : Type where
  episodeId : String
  payloadJson : PayloadJson
  lastError : String
  attemptCount : ℕ
  failedAt : ℕ
  recoveredAt : Option ℕ

/-- `err[:error_chars] + "…"` of a text that is longer; 0 is the off-switch. -/
def truncateError (errorChars : Option ℤ) (error : String) : String :=
  match errorChars with
  | some n =>
    if 0 < n ∧ n < error.toList.length then String.ofList (error.toList.take n.toNat) ++ "…"
    else error
  | none => error

/-- The `WHERE` clause of `get_dlq_records`. -/
def dlqWhere (classes : List String) (openOnly : Option Bool) (d : DeadLetter) : Bool :=
  (match openOnly with
    | some b => d.isOpen == b
    | none => true) &&
  (classes.isEmpty || dlqClassPredicate classes d.lastError)

/-- `EpisodeQueue.get_dlq_records`: the latest failure comes first. -/
def getDlqRecords (env : Env) (limit : ℤ) (classes : List String) (errorChars : Option ℤ)
    (openOnly : Option Bool) : Sql (List DlqRecord) :=
  Script.withConn do
    let db ← Script.select
    let rows := sqlLimit limit <| List.reverse <| Table.orderBy (fun r => r.2.failedAt) env.rank <|
      db.deadLetter.rows.filter fun r => dlqWhere classes openOnly r.2
    return rows.map fun r =>
      { episodeId := r.1
        payloadJson := r.2.payloadJson
        lastError := truncateError errorChars r.2.lastError
        attemptCount := r.2.attemptCount
        failedAt := r.2.failedAt
        recoveredAt := r.2.recoveredAt }

/-- `counts[cls] = n`, one after the other. -/
def countsDict (counts : List (String × ℕ)) : Table String ℕ :=
  counts.foldl (fun d x => d.upsert x.1 fun _ => x.2) Table.empty

/-- How many open dead letters satisfy a predicate of their error. -/
def Db.countOpen (db : Db) (p : String → Bool) : ℕ :=
  db.deadLetter.rows.countP fun r => r.2.isOpen && p r.2.lastError

/-- One turn of the loop of `dlq_class_counts`. -/
def dlqClassCount (cls : String) : Sql (String × ℕ) := do
  let db ← Script.select
  return (cls, db.countOpen fun error => carries error cls)

/-- `EpisodeQueue.dlq_class_counts` -/
def dlqClassCounts (classes : List String) : Sql (Table String ℕ) :=
  if classes.isEmpty then return Table.empty
  else
    Script.withConn do
      let counts ← Prog.forEach dlqClassCount classes
      return countsDict counts

/-- `EpisodeQueue.dlq_class_union_count` -/
def dlqClassUnionCount (classes : List String) : Sql ℕ :=
  if classes.isEmpty then return 0
  else
    Script.withConn do
      let db ← Script.select
      return db.countOpen (dlqClassPredicate classes)

/-- The `dlq` block of `graphiti_health`. -/
structure DlqBreakdown : Type where
  /-- `open` -/
  openCount : ℕ
  /-- without a taxonomy the two are absent -/
  byClass : Option (Table String ℕ)
  unclassified : Option ℕ

/-- `_dlq_breakdown` -/
def dlqBreakdown (taxonomy : List String) (stats : QueueStats) : Sql DlqBreakdown :=
  if taxonomy.isEmpty then return ⟨stats.dlq, none, none⟩
  else do
    let byClass ← dlqClassCounts taxonomy
    let matched ← dlqClassUnionCount taxonomy
    return ⟨stats.dlq, some byClass, some (stats.dlq - matched)⟩

/-- The queue part of `graphiti_health`. -/
def healthDlq (taxonomy : List String) : Sql DlqBreakdown := do
  let stats ← getStats
  dlqBreakdown taxonomy stats

/-- The dictionary that `dlq_class_counts` returns for a database. -/
def Db.classCounts (db : Db) (classes : List String) : Table String ℕ :=
  countsDict (classes.map fun c => (c, db.countOpen fun error => carries error c))

/-! ## What they return, when nobody moves in between -/

theorem run_getStats (db : Db) : alone getStats db =
    (.ok ⟨fun s => db.episodes.rows.countP fun r => r.2.status == s,
      db.deadLetter.rows.countP fun r => r.2.isOpen⟩, Conn.idle db) := by
  simp [alone, getStats, withConn, Prog.run_bind, Prog.run_attempt]

theorem run_countTotal (db : Db) :
    alone countTotal db = (.ok db.episodes.rows.length, Conn.idle db) := by
  simp [alone, countTotal, withConn, Prog.run_bind, Prog.run_attempt]

theorem run_getDlqRecords (env : Env) (limit : ℤ) (classes : List String)
    (errorChars : Option ℤ) (openOnly : Option Bool) (db : Db) :
    ∃ records, alone (getDlqRecords env limit classes errorChars openOnly) db =
        (.ok records, Conn.idle db) ∧
      records.length = (sqlLimit limit (db.deadLetter.rows.filter fun r =>
        dlqWhere classes openOnly r.2)).length := by
  refine ⟨_, by
    simp only [alone, getDlqRecords, withConn, Prog.run_bind, Prog.run_attempt]
    rfl, ?_⟩
  have hperm := Table.orderBy_perm (fun r : String × DeadLetter => r.2.failedAt) env.rank
    (db.deadLetter.rows.filter fun r => dlqWhere classes openOnly r.2)
  rw [List.length_map, sqlLimit, sqlLimit]
  split <;> simp [hperm.length_eq]

theorem run_dlqClassCounts {classes : List String} (hne : classes ≠ []) (db : Db) :
    alone (dlqClassCounts classes) db = (.ok (db.classCounts classes), Conn.idle db) := by
  obtain ⟨_, hloop, rfl⟩ : ∃ c, (Prog.forEach dlqClassCount classes).run (Conn.step Write.exec)
      (Conn.idle db) = (.ok (classes.map fun c => (c, db.countOpen fun error => carries error c)),
        c) ∧ c = Conn.idle db :=
    Prog.run_forEach_map (I := fun _ c => c = Conn.idle db)
      (fun done cls rest c _ hc => ⟨c, by rw [hc]; rfl, hc⟩) rfl
  have hempty : classes.isEmpty = false := by simpa using hne
  simp [alone, dlqClassCounts, hempty, withConn, Prog.run_bind, Prog.run_attempt, hloop,
    Db.classCounts]

theorem run_dlqClassUnionCount {classes : List String} (hne : classes ≠ []) (db : Db) :
    alone (dlqClassUnionCount classes) db =
      (.ok (db.countOpen (dlqClassPredicate classes)), Conn.idle db) := by
  have hempty : classes.isEmpty = false := by simpa using hne
  simp [alone, dlqClassUnionCount, hempty, withConn, Prog.run_bind, Prog.run_attempt]

theorem run_healthDlq {taxonomy : List String} (hne : taxonomy ≠ []) (db : Db) :
    alone (healthDlq taxonomy) db =
      (.ok ⟨db.deadLetter.rows.countP fun r => r.2.isOpen,
        some (db.classCounts taxonomy),
        some ((db.deadLetter.rows.countP fun r => r.2.isOpen) -
          db.countOpen (dlqClassPredicate taxonomy))⟩, Conn.idle db) := by
  have hempty : taxonomy.isEmpty = false := by simpa using hne
  have hstats := run_getStats db
  have hcounts := run_dlqClassCounts hne db
  have hunion := run_dlqClassUnionCount hne db
  simp only [alone] at hstats hcounts hunion
  simp [alone, healthDlq, dlqBreakdown, hempty, Prog.run_bind, hstats, hcounts, hunion]

/-! ## Statuses -/

/-- Every status. -/
def allStatuses : List Status := [.queued, .processing, .done, .failed, .aborted, .skippedDuplicate]

/-- The statuses of `get_stats` add up to `count_total`: `dlq` is not one of them. -/
theorem sum_statuses (rows : List (String × Episode)) :
    (allStatuses.map fun s => rows.countP fun r => r.2.status == s).sum = rows.length := by
  have hone : ∀ status : Status, allStatuses.countP (fun s => status == s) = 1 := by
    intro status
    cases status <;> rfl
  induction rows with
  | nil => rfl
  | cons row rows ih => rw [List.sum_map_countP_cons, ih, hone, List.length_cons]

/-! ## Classes -/

/-- What the dictionary of counts holds. -/
theorem get?_countsDict (f : String → ℕ) (classes : List String) (k : String) :
    (countsDict (classes.map fun c => (c, f c))).get? k =
      if k ∈ classes then some (f k) else none := by
  have hfold : ∀ d : Table String ℕ,
      ((classes.map fun c => (c, f c)).foldl (fun d x => d.upsert x.1 fun _ => x.2) d).get? k =
        if k ∈ classes then some (f k) else d.get? k := by
    induction classes with
    | nil => simp
    | cons c classes ih =>
      intro d
      rw [List.map_cons, List.foldl_cons, ih, Table.get?_upsert]
      by_cases hk : k ∈ classes
      · simp [hk]
      · by_cases hc : k = c
        · simp [hc]
        · simp [hk, hc]
  exact hfold Table.empty

/-- Its values, class by class. -/
theorem rows_countsDict (f : String → ℕ) (classes : List String) :
    (countsDict (classes.map fun c => (c, f c))).rows.map Prod.snd =
      (countsDict (classes.map fun c => (c, f c))).keys.map f := by
  rw [Table.keys, List.map_map]
  refine List.map_congr_left fun row hrow => ?_
  have hget := get?_countsDict f classes row.1
  rw [Table.mem_rows.mp hrow] at hget
  split at hget
  · exact Option.some.inj hget
  · cases hget

theorem mem_keys_countsDict {f : String → ℕ} {classes : List String} {k : String} :
    k ∈ (countsDict (classes.map fun c => (c, f c))).keys ↔ k ∈ classes := by
  rw [Table.mem_keys, get?_countsDict]
  split <;> simp_all

/-! ## `LIKE` -/

/-- What is in the text is `LIKE` the text around it, whatever wildcards it has. -/
theorem sqlLike_of_isPrefixOf {part text : List Char} (h : part.isPrefixOf text = true) :
    sqlLike (part ++ ['%']) text = true := by
  induction part generalizing text with
  | nil =>
    rw [List.nil_append, sqlLike, List.any_eq_true]
    exact ⟨[], (List.mem_tails _ _).mpr List.nil_suffix, rfl⟩
  | cons p part ih =>
    rcases text with _ | ⟨c, text⟩
    · simp at h
    · simp only [List.isPrefixOf, Bool.and_eq_true, beq_iff_eq] at h
      obtain ⟨rfl, htext⟩ := h
      rw [List.cons_append]
      by_cases hpercent : p = '%'
      · subst hpercent
        rw [sqlLike, List.any_eq_true]
        exact ⟨text, (List.mem_tails _ _).mpr (List.suffix_cons _ _), ih htext⟩
      · by_cases hunder : p = '_'
        · subst hunder
          rw [sqlLike]
          exact ih htext
        · rw [sqlLike]
          · simp [ih htext]
          · exact hpercent
          · exact hunder

/-- Without wildcards the text around it is all that is `LIKE` it. -/
theorem isPrefixOf_of_sqlLike {part text : List Char} (hplain : ∀ c ∈ part, c ≠ '%' ∧ c ≠ '_')
    (h : sqlLike (part ++ ['%']) text = true) : part.isPrefixOf text = true := by
  induction part generalizing text with
  | nil => rfl
  | cons p part ih =>
    obtain ⟨⟨hpercent, hunder⟩, hplain⟩ := List.forall_mem_cons.mp hplain
    rw [List.cons_append] at h
    rcases text with _ | ⟨c, text⟩
    · rw [sqlLike] at h
      · cases h
      · exact hpercent
      · exact hunder
    · rw [sqlLike] at h
      · simp only [Bool.and_eq_true, beq_iff_eq] at h
        simp [List.isPrefixOf, h.1, ih hplain h.2]
      · exact hpercent
      · exact hunder

/-- An error that carries a class is one the batch replay matches. -/
theorem matchesClasses_of_carries {error c : String} (h : carries error c = true) :
    matchesClasses [c] error = true := by
  rw [carries, instr, List.any_eq_true] at h
  obtain ⟨text, htext, hprefix⟩ := h
  simp only [matchesClasses, List.isEmpty_cons, Bool.false_or, List.any_cons, List.any_nil,
    Bool.or_false, sqlLike, List.cons_append, List.any_eq_true]
  exact ⟨text, htext, sqlLike_of_isPrefixOf hprefix⟩

/-- Without a wildcard in the class, it matches no other. -/
theorem carries_of_matchesClasses {error c : String}
    (hplain : ∀ ch ∈ sqlLower c, ch ≠ '%' ∧ ch ≠ '_') (h : matchesClasses [c] error = true) :
    carries error c = true := by
  simp only [matchesClasses, List.isEmpty_cons, Bool.false_or, List.any_cons, List.any_nil,
    Bool.or_false, sqlLike, List.cons_append, List.any_eq_true] at h
  obtain ⟨text, htext, hlike⟩ := h
  rw [carries, instr, List.any_eq_true]
  exact ⟨text, htext, isPrefixOf_of_sqlLike hplain hlike⟩

/-! ## The theorem -/

/-- The open rows of some class, and the others. -/
theorem Db.countOpen_add_not (db : Db) (p : String → Bool) :
    db.countOpen p + db.countOpen (fun error => !p error) =
      db.deadLetter.rows.countP fun r => r.2.isOpen := by
  rw [countOpen, countOpen]
  induction db.deadLetter.rows with
  | nil => rfl
  | cons row rows ih =>
    rw [List.countP_cons, List.countP_cons, List.countP_cons, ← ih]
    rcases row.2.isOpen <;> rcases p row.2.lastError <;> simp <;> omega

/-- The open rows of some class, by the keys of the dictionary. -/
theorem Db.countOpen_keys (db : Db) (taxonomy : List String) :
    db.countOpen (dlqClassPredicate taxonomy) = db.deadLetter.rows.countP fun r =>
      (db.classCounts taxonomy).keys.any fun c => r.2.isOpen && carries r.2.lastError c := by
  refine List.countP_congr fun r _ => ?_
  simp only [dlqClassPredicate, Bool.and_eq_true, List.any_eq_true, classCounts,
    mem_keys_countsDict]
  constructor
  · rintro ⟨hopen, c, hc, hcarries⟩
    exact ⟨c, hc, hopen, hcarries⟩
  · rintro ⟨c, hc, hopen, hcarries⟩
    exact ⟨hopen, c, hc, hcarries⟩

/-- **By class, at least.** The counts add up to the open rows of some class at least, since
a row is counted under each of its classes. -/
theorem Db.countOpen_le_sum (db : Db) (taxonomy : List String) :
    db.countOpen (dlqClassPredicate taxonomy) ≤
      ((db.classCounts taxonomy).rows.map Prod.snd).sum := by
  rw [countOpen_keys, classCounts, rows_countsDict]
  exact List.countP_any_le_sum
    (fun (c : String) (r : String × DeadLetter) => r.2.isOpen && carries r.2.lastError c) _ _

/-- **By class, exactly.** No more if no open row is of two classes. -/
theorem Db.countOpen_eq_sum_iff (db : Db) (taxonomy : List String) :
    db.countOpen (dlqClassPredicate taxonomy) =
        ((db.classCounts taxonomy).rows.map Prod.snd).sum ↔
      ∀ id d, db.deadLetter.get? id = some d → d.isOpen = true → ∀ c ∈ taxonomy,
        ∀ c' ∈ taxonomy, carries d.lastError c = true → carries d.lastError c' = true → c = c' := by
  have hiff := List.countP_any_eq_sum_iff
    (p := fun (c : String) (r : String × DeadLetter) => r.2.isOpen && carries r.2.lastError c)
    (db.classCounts taxonomy).nodup db.deadLetter.rows
  rw [countOpen_keys, classCounts, rows_countsDict]
  refine hiff.trans ?_
  constructor
  · intro hone id d hd hopen c hc c' hc' hcarries hcarries'
    exact hone (id, d) (Table.mem_rows.mpr hd) c (mem_keys_countsDict.mpr hc) c'
      (mem_keys_countsDict.mpr hc') (by simp [hopen, hcarries]) (by simp [hopen, hcarries'])
  · rintro hone ⟨id, d⟩ hmem c hc c' hc' h h'
    simp only [Bool.and_eq_true] at h h'
    exact hone id d (Table.mem_rows.mp hmem) h.1 c (mem_keys_countsDict.mp hc) c'
      (mem_keys_countsDict.mp hc') h.2 h'.2

/-- The rows that the batch replay selects by one class, if nothing else restricts it. -/
theorem Db.length_replayable (db : Db) (env : Env) {policy : RetryPolicy} (h : policy.codes = [])
    (c : String) : (db.replayable env policy [c] 0 (-1)).length =
      db.countOpen fun error => matchesClasses [c] error := by
  have hperm := Table.orderBy_perm (fun r : String × DeadLetter => r.2.failedAt) env.rank
    (db.deadLetter.rows.filter fun r => replayEligible policy [c] 0 env.now r.2)
  rw [replayable, sqlLimit, if_pos (by decide), hperm.length_eq, countOpen,
    List.countP_eq_length_filter]
  refine congrArg List.length (List.filter_congr fun r _ => ?_)
  have hall : ∀ error, policyWhereClause policy error = true :=
    policyWhereClause_of_codes_nil (by rw [h]; rfl)
  simp [replayEligible, oldEnough, hall]

/-- **By `LIKE`.** The batch replay selects what is counted under the class, and no more
unless the class has a wildcard. -/
theorem Db.countOpen_matches (db : Db) (c : String) :
    (db.countOpen fun error => carries error c) ≤
        (db.countOpen fun error => matchesClasses [c] error) ∧
      ((∀ ch ∈ sqlLower c, ch ≠ '%' ∧ ch ≠ '_') →
        (db.countOpen fun error => matchesClasses [c] error) =
          db.countOpen fun error => carries error c) := by
  refine ⟨List.countP_mono_left fun r _ h => ?_, fun hplain => List.countP_congr fun r _ => ?_⟩
  · simp only [Bool.and_eq_true] at h ⊢
    exact ⟨h.1, matchesClasses_of_carries h.2⟩
  · simp only [Bool.and_eq_true]
    exact and_congr_right fun _ => ⟨carries_of_matchesClasses hplain, matchesClasses_of_carries⟩

/-- **The statistics agree.** If nobody moves in between: the statuses add up to the total; the
rows of no class are those that `unclassified` counts, and `by_class` and `unclassified` add up to
`open` exactly when no open dead letter is of two classes. What is counted under a class is what
`get_dlq_records` returns for it, and the batch replay of the class selects those rows, and no
others unless the class has a wildcard in it. -/
theorem dlq_breakdown_exact (env : Env) (db : Db) {taxonomy : List String}
    (hne : taxonomy ≠ []) :
    ∃ stats total counts unclassified,
      alone getStats db = (.ok stats, Conn.idle db) ∧
      alone countTotal db = (.ok total, Conn.idle db) ∧
      (allStatuses.map stats.count).sum = total ∧
      alone (healthDlq taxonomy) db =
        (.ok ⟨stats.dlq, some counts, some unclassified⟩, Conn.idle db) ∧
      unclassified = db.countOpen (fun error => !dlqClassPredicate taxonomy error) ∧
      stats.dlq ≤ (counts.rows.map Prod.snd).sum + unclassified ∧
      (stats.dlq = (counts.rows.map Prod.snd).sum + unclassified ↔
        ∀ id d, db.deadLetter.get? id = some d → d.isOpen = true → ∀ c ∈ taxonomy,
          ∀ c' ∈ taxonomy, carries d.lastError c = true → carries d.lastError c' = true → c = c') ∧
      ∀ c ∈ taxonomy, ∃ n records, counts.get? c = some n ∧
        alone (getDlqRecords env (-1) [c] none (some true)) db = (.ok records, Conn.idle db) ∧
        records.length = n ∧
        ∀ policy : RetryPolicy, policy.codes = [] →
          n ≤ (db.replayable env policy [c] 0 (-1)).length ∧
          ((∀ ch ∈ sqlLower c, ch ≠ '%' ∧ ch ≠ '_') →
            (db.replayable env policy [c] 0 (-1)).length = n) := by
  have hadd := db.countOpen_add_not (dlqClassPredicate taxonomy)
  have hle := db.countOpen_le_sum taxonomy
  refine ⟨_, _, _, _, run_getStats db, run_countTotal db, sum_statuses _, run_healthDlq hne db,
    by omega, ?_, ?_, fun c hc => ?_⟩
  · dsimp only
    omega
  · rw [← db.countOpen_eq_sum_iff taxonomy]
    dsimp only
    omega
  · obtain ⟨records, hrun, hlength⟩ := run_getDlqRecords env (-1) [c] none (some true) db
    refine ⟨_, records, (get?_countsDict _ taxonomy c).trans (if_pos hc), hrun, ?_, ?_⟩
    · rw [hlength, sqlLimit, if_pos (by decide), Db.countOpen, List.countP_eq_length_filter]
      refine congrArg List.length (List.filter_congr fun r _ => ?_)
      simp [dlqWhere, dlqClassPredicate]
    · intro policy hcodes
      rw [db.length_replayable env hcodes]
      exact db.countOpen_matches c

/-- One failure of two classes. -/
theorem dlq_breakdown_exact_timeout :
    ∃ counts unclassified, alone (healthDlq ["Timeout", "429"]) (runSteps .plain Db.empty
        [⟨.at 1, .enqueue { content := "c", episodeId := some "e", mode := .off }⟩,
          ⟨.at 2, .markAborted "e" "429: TimeoutError"⟩]) =
      (.ok ⟨1, some counts, some unclassified⟩, Conn.idle (runSteps .plain Db.empty
        [⟨.at 1, .enqueue { content := "c", episodeId := some "e", mode := .off }⟩,
          ⟨.at 2, .markAborted "e" "429: TimeoutError"⟩])) := by
  obtain ⟨stats, total, counts, unclassified, hstats, -, -, hhealth, -⟩ :=
    dlq_breakdown_exact (.at 3) (runSteps .plain Db.empty
      [⟨.at 1, .enqueue { content := "c", episodeId := some "e", mode := .off }⟩,
        ⟨.at 2, .markAborted "e" "429: TimeoutError"⟩])
      (show ["Timeout", "429"] ≠ [] by decide)
  obtain rfl := Except.ok.inj (Prod.mk.inj ((run_getStats _).symm.trans hstats)).1
  exact ⟨counts, unclassified, hhealth⟩

end JanusGraph
