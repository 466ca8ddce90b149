import JanusGraph.Dream.Audit

/-!
# What a dream counts as a failure

A phase has failed if its line begins with `FAILED`. That is so for Phase 1 if the statistics
before it could not be read, for Phases 2 and 3 if FalkorDB was reached and their snapshot could
not be read, and for Phase 4 if one of its statements raised. Each of these is said of what the
requests are answered (`Prog.Raises`), in the state in which the phase sends them.
-/

namespace JanusGraph

/-! ## Lines -/

/-- A line is told by its first six characters. -/
theorem lineFailed_append {a : String} (ha : 6 ≤ a.toList.length) (b : String) :
    lineFailed (a ++ b) = lineFailed a := by
  unfold lineFailed
  rw [String.toList_append, Bool.eq_iff_iff, List.isPrefixOf_iff_prefix,
    List.isPrefixOf_iff_prefix]
  constructor
  · exact fun h => List.prefix_of_prefix_length_le h (List.prefix_append _ _) ha
  · exact fun h => h.trans (List.prefix_append _ _)

theorem lineFailed_error (e : String) : lineFailed ("FAILED: " ++ e) = true := by
  rw [lineFailed_append (by decide)]
  decide

theorem lineFailed_phaseLine {status : String} (hstatus : 6 ≤ (status ++ " (").toList.length)
    (detail reason : String) :
    lineFailed (phaseLine status detail reason) = lineFailed (status ++ " (") := by
  rw [phaseLine, String.append_assoc, lineFailed_append hstatus]

/-- The line of Phase 1 is `SKIPPED` or `DONE`, whatever became of the snapshot. -/
theorem lineFailed_clusterReport (result : ClusterResult) (totalEpisodes : ℕ) (threshold : ℤ)
    (force : Bool) : lineFailed (clusterReport result totalEpisodes threshold force) = false := by
  unfold clusterReport
  simp only [String.append_assoc]
  split
  · rw [← String.append_assoc, lineFailed_append (by decide)]
    decide
  · rw [← String.append_assoc, lineFailed_append (by decide)]
    decide

theorem lineFailed_skipped (detail reason : String) :
    lineFailed (phaseLine "SKIPPED" detail reason) = false := by
  rw [lineFailed_phaseLine (by decide)]
  decide

theorem DedupStatus.lineFailed_iff (status : DedupStatus) (detail reason : String) :
    lineFailed (phaseLine status.text detail reason) = true ↔ status = .failed := by
  cases status <;> rw [lineFailed_phaseLine (by decide)] <;> decide

theorem PruneStatus.lineFailed_iff (status : PruneStatus) (detail reason : String) :
    lineFailed (phaseLine status.text detail reason) = true ↔ status = .failed := by
  cases status <;> rw [lineFailed_phaseLine (by decide)] <;> decide

theorem lineFailed_dedupLine {Score : Type} (payload : Except String (DedupReport Score)) :
    lineFailed (dedupLine payload) = true ↔
      ∃ report, payload = .ok report ∧ report.status = .failed := by
  cases payload with
  | error e => simp [dedupLine, lineFailed_skipped]
  | ok report => simp [dedupLine, DedupStatus.lineFailed_iff]

theorem lineFailed_pruneLine (payload : Except String PruneReport) :
    lineFailed (pruneLine payload) = true ↔
      ∃ report, payload = .ok report ∧ report.status = .failed := by
  cases payload with
  | error e => simp [pruneLine, lineFailed_skipped]
  | ok report => simp [pruneLine, PruneStatus.lineFailed_iff]

/-! ## Snapshots -/

/-- Texts that are not empty, joined. -/
theorem intercalate_eq_empty_iff {separator : String} {texts : List String}
    (htexts : ∀ text ∈ texts, text ≠ "") : separator.intercalate texts = "" ↔ texts = [] := by
  rcases texts with _ | ⟨text, _ | ⟨text', rest⟩⟩
  · simp
  · simpa using htexts text
  · simpa [String.intercalate_cons_cons, String.append_eq_empty_iff] using
      fun hempty => absurd hempty (htexts text List.mem_cons_self)

theorem ne_empty_of_mem_readError {α : Type} {name text : String} {read : Except String α}
    (h : text ∈ readError name read) : text ≠ "" := by
  cases read with
  | ok a => cases h
  | error e =>
    obtain rfl := List.mem_singleton.mp h
    simp [String.append_eq_empty_iff]

theorem readError_eq_nil {α : Type} {name : String} {read : Except String α} :
    readError name read = [] ↔ ¬ ∃ e, read = .error e := by
  cases read <;> simp [readError]

/-- What a snapshot says of its four reads. -/
theorem unread_iff {α β γ δ : Type} (entities : Except String α) (episodics : Except String β)
    (mentions : Except String γ) (relations : Except String δ) :
    "; ".intercalate (readError "entities" entities ++ readError "episodics" episodics ++
        readError "mentions" mentions ++ readError "relations" relations) ≠ "" ↔
      (∃ e, entities = .error e) ∨ (∃ e, episodics = .error e) ∨ (∃ e, mentions = .error e) ∨
        ∃ e, relations = .error e := by
  rw [Ne, intercalate_eq_empty_iff]
  · simp only [List.append_eq_nil_iff, readError_eq_nil]
    tauto
  · intro text htext
    simp only [List.mem_append] at htext
    rcases htext with ((h | h) | h) | h <;> exact ne_empty_of_mem_readError h

/-- The queries of `load_graph_snapshot`, as Phase 2 sends them. -/
def dedupReads (gid : String) : List DedupQuery :=
  [.entities gid, .pass (.episodics gid), .mentions gid, .relations gid]

/-- The same as Phase 3 sends them. -/
def pruneReads (gid : String) : List PruneQuery :=
  [.entities gid, .episodics gid, .mentions gid, .relations gid]

theorem run_loadDedupSnapshot_iff {S : Type}
    (h : Handler DedupQuery (fun q => Except String q.Result) S) (py : Builtins) (gid : String)
    (s : S) : ∃ snap readErr s',
      Prog.run h (loadDedupSnapshot py gid) s = (.ok (snap, readErr), s') ∧
        (readErr ≠ "" ↔ Prog.Raises h (dedupReads gid) s) := by
  rw [loadDedupSnapshot, run_dedupQuery_attempt_bind, run_dedupQuery_attempt_bind,
    run_dedupQuery_attempt_bind, run_dedupQuery_attempt_bind]
  refine ⟨_, _, _, rfl, ?_⟩
  rw [unread_iff]
  simp [dedupReads]

theorem run_loadGraphSnapshot_iff {S : Type}
    (h : Handler PruneQuery (fun q => Except String q.Result) S) (py : Builtins) (gid : String)
    (s : S) : ∃ snap readErr s',
      Prog.run h (loadGraphSnapshot py gid) s = (.ok (snap, readErr), s') ∧
        (readErr ≠ "" ↔ Prog.Raises h (pruneReads gid) s) := by
  rw [loadGraphSnapshot, run_pruneQuery_attempt_bind, run_pruneQuery_attempt_bind,
    run_pruneQuery_attempt_bind, run_pruneQuery_attempt_bind]
  refine ⟨_, _, _, rfl, ?_⟩
  rw [unread_iff]
  simp [pruneReads]

theorem DedupSettings.report_status_ne {Score : Type} [LinearOrder Score]
    (cfg : DedupSettings Score) (snap : DedupSnapshot) (counters : ApplyCounters)
    (episodicCounters : Counters) :
    (cfg.report snap counters episodicCounters).status ≠ .failed := by
  simp only [DedupSettings.report]
  split <;> nofun

/-- Phase 2 says `FAILED` of a snapshot that it could not read, and of nothing else. -/
theorem run_runPhase2Dedup_iff {Score S : Type} [LinearOrder Score] (cfg : DedupSettings Score)
    (h : Handler DedupQuery (fun q => Except String q.Result) S) (gid : String) (force : Bool)
    (s : S) : ∃ report s', Prog.run h (runPhase2Dedup cfg gid force) s = (.ok report, s') ∧
      (report.status = .failed ↔ Prog.Raises h (dedupReads gid) s) := by
  obtain ⟨report, s', hrun⟩ := (returns_runPhase2Dedup cfg gid force).run h s
  refine ⟨report, s', hrun, ?_⟩
  obtain ⟨snap, readErr, s₁, hload, hunread⟩ := run_loadDedupSnapshot_iff h cfg.scoring.py gid s
  rw [runPhase2Dedup, Prog.run_bind_ok hload] at hrun
  dsimp only at hrun
  split at hrun
  next herr =>
    cases hrun
    exact iff_of_true rfl (hunread.mp herr)
  next herr =>
    have hgives : Prog.Gives (fun report : DedupReport Score => report.status ≠ .failed)
        ((applyPlan cfg.scoring.py (cfg.plan snap) force 200).pass >>= fun counters =>
          (applyEpisodicPlan (cfg.episodicPlan snap) (cfg.foldArgs gid force)).pass >>=
            fun episodicCounters => pure (cfg.report snap counters episodicCounters)) :=
      (Prog.gives_true _).bind fun counters _ => (Prog.gives_true _).bind fun episodicCounters _ =>
        cfg.report_status_ne snap counters episodicCounters
    exact iff_of_false (hgives.run hrun) (mt hunread.mpr herr)

theorem PruneReport.apply_status_ne {out : PruneReport} (hout : out.status ≠ .failed)
    (counters : PruneCounters) : (out.apply counters).status ≠ .failed := by
  simp only [PruneReport.apply]
  split
  · nofun
  split
  · nofun
  · exact hout

/-- So does Phase 3. -/
theorem run_runPhase3Prune_iff {S : Type}
    (h : Handler PruneQuery (fun q => Except String q.Result) S) (py : Builtins) (gid : String)
    (force : Bool) (s : S) :
    ∃ report s', Prog.run h (runPhase3Prune py gid force) s = (.ok report, s') ∧
      (report.status = .failed ↔ Prog.Raises h (pruneReads gid) s) := by
  obtain ⟨report, s', hrun⟩ := (returns_runPhase3Prune py gid force).run h s
  refine ⟨report, s', hrun, ?_⟩
  obtain ⟨snap, readErr, s₁, hload, hunread⟩ := run_loadGraphSnapshot_iff h py gid s
  rw [runPhase3Prune, Prog.run_bind_ok hload] at hrun
  dsimp only at hrun
  split at hrun
  next herr =>
    cases hrun
    exact iff_of_true rfl (hunread.mp herr)
  next herr =>
    refine iff_of_false ?_ (mt hunread.mpr herr)
    split at hrun
    · cases hrun
      nofun
    split at hrun
    · cases hrun
      nofun
    · refine Prog.Gives.run (R := fun report : PruneReport => report.status ≠ .failed) ?_ hrun
      refine (Prog.gives_true _).bind fun counters _ => PruneReport.apply_status_ne ?_ counters
      rw [PrunePlan.report]
      nofun

/-! ## Phases -/

section

variable {Rate S : Type} (h : Handler DreamRequest (fun q => Except String (q.Result Rate)) S)

/-- A phase that begins with a request. -/
theorem run_tryPhase_request {Payload : Type} (q : DreamRequest)
    (rest : q.Result Rate → Dreamer Rate (String × Payload)) (s : S) :
    Prog.run h (tryPhase (dreamRequest q >>= rest)) s =
      match (h q s).1 with
      | .ok a => Prog.run h (tryPhase (rest a)) (h q s).2
      | .error e => (.ok ⟨"FAILED: " ++ e, none⟩, (h q s).2) := by
  unfold tryPhase dreamRequest
  simp only [Prog.ask_bind, Prog.attempt_ask, Prog.run_ask]
  cases (h q s).1 <;> rfl

/-- A phase that returns leaves the line and the payload that it returns. -/
theorem run_tryPhase_ok {Payload : Type} {phase : Dreamer Rate (String × Payload)}
    {line : String} {payload : Payload} {s s' : S}
    (hphase : Prog.run h phase s = (.ok (line, payload), s')) :
    Prog.run h (tryPhase phase) s = (.ok ⟨line, some payload⟩, s') := by
  have hattempt : Prog.run h (phase.attempt : Dreamer Rate _) s =
      (.ok (.ok (line, payload)), s') := by
    rw [Prog.run_attempt, hphase]
  rw [tryPhase, Prog.run_bind_ok hattempt]
  rfl

/-- FalkorDB is reached, and a query of the snapshot raises. -/
def Unread (reads : List DreamRequest) (s : S) : Prop :=
  (h .connect s).1.isOk ∧ Prog.Raises h reads (h .connect s).2

variable {h}

/-- A phase on the handle that it opens, which fails if its queries raise. -/
theorem run_onGraph_iff {Report : Type} {phase : Dreamer Rate Report} {failed : Report → Prop}
    {line : Except String Report → String} {reads : List DreamRequest}
    (hphase : ∀ s, ∃ report s', Prog.run h phase s = (.ok report, s') ∧
      (failed report ↔ Prog.Raises h reads s))
    (hline : ∀ payload, lineFailed (line payload) = true ↔
      ∃ report, payload = .ok report ∧ failed report) (s : S) :
    ∃ o s', Prog.run h (tryPhase do
        let payload ← onGraph phase
        return (line payload, payload)) s = (.ok o, s') ∧
      o.payload.isSome ∧ (lineFailed o.line = true ↔ Unread h reads s) := by
  have hgraph : ∃ payload s', Prog.run h (onGraph phase) s = (.ok payload, s') ∧
      ((∃ report, payload = .ok report ∧ failed report) ↔ Unread h reads s) := by
    have hopen : Prog.run h openGraph s = (.ok (h .connect s).1, (h .connect s).2) := by
      rw [openGraph, Prog.run_attempt, dreamRequest, Prog.run_ask]
      cases (h .connect s).1 <;> rfl
    rw [onGraph, Prog.run_bind_ok hopen]
    cases hconnect : (h .connect s).1 with
    | error e => exact ⟨.error e, _, rfl, by simp [Unread, hconnect, Except.isOk, Except.toBool]⟩
    | ok _ =>
      obtain ⟨report, s', hrun, hfailed⟩ := hphase (h .connect s).2
      refine ⟨.ok report, s', (Prog.run_bind_ok hrun).trans rfl, ?_⟩
      simp [Unread, hconnect, Except.isOk, Except.toBool, hfailed]
  obtain ⟨payload, s', hrun, hfailed⟩ := hgraph
  have hreturns : Prog.run h (onGraph phase >>= fun payload => pure (line payload, payload)) s =
      (.ok (line payload, payload), s') := (Prog.run_bind_ok hrun).trans rfl
  exact ⟨_, s', run_tryPhase_ok h hreturns, rfl, (hline payload).trans hfailed⟩

variable {Score : Type} [LinearOrder Score] (cfg : DreamSettings Score) (h)

omit [LinearOrder Score] in
theorem returns_runPhase1Cluster (gid : String) :
    Prog.Returns (runPhase1Cluster cfg gid : Dreamer Rate _) := by
  refine (Prog.returns_attempt _).bind fun opened => ?_
  rcases opened with e | _
  · trivial
  · refine (returns_loadGraphSnapshot cfg.dedup.scoring.py gid).via.bind fun read => ?_
    dsimp only
    split <;> trivial

omit [LinearOrder Score] in
/-- Phase 1 fails when the statistics cannot be read, and for no other reason. -/
theorem run_dreamPhase1 (gid : String) (force : Bool) (s : S) :
    ∃ o s', Prog.run h (dreamPhase1 cfg gid force : Dreamer Rate _) s = (.ok o, s') ∧
      (lineFailed o.line = true ↔ Prog.Raises h [.getStats] s) := by
  rw [dreamPhase1, run_tryPhase_request]
  cases hstats : (h .getStats s).1 with
  | error e => exact ⟨_, _, rfl, by simp [lineFailed_error, hstats]⟩
  | ok stats =>
    obtain ⟨payload, s', hrun⟩ := (returns_runPhase1Cluster cfg gid).run h (h .getStats s).2
    have hphase : Prog.run h (clusterPhase cfg gid force stats) (h .getStats s).2 =
        (.ok (clusterReport payload.clusterResult (stats.count .done + stats.count .queued)
          cfg.communityThreshold force, payload), s') := by
      rw [clusterPhase, Prog.run_bind_ok hrun]
      rfl
    exact ⟨_, s', run_tryPhase_ok h hphase, by simp [lineFailed_clusterReport, hstats]⟩

theorem run_dreamPhase2 (gid : String) (force : Bool) (s : S) :
    ∃ o s', Prog.run h (dreamPhase2 cfg gid force : Dreamer Rate _) s = (.ok o, s') ∧
      o.payload.isSome ∧
      (lineFailed o.line = true ↔ Unread h ((dedupReads gid).map .dedup) s) := by
  refine run_onGraph_iff (fun s => ?_) lineFailed_dedupLine s
  obtain ⟨report, s', hrun, hfailed⟩ := run_runPhase2Dedup_iff cfg.dedup
    (fun q s => h (.dedup q) s) gid (force || cfg.dedupApply) s
  exact ⟨report, s', (Prog.run_via _ _ _ s).trans hrun, hfailed.trans (Prog.raises_map _ _ s).symm⟩

omit [LinearOrder Score] in
theorem run_dreamPhase3 (gid : String) (force : Bool) (s : S) :
    ∃ o s', Prog.run h (dreamPhase3 cfg gid force : Dreamer Rate _) s = (.ok o, s') ∧
      o.payload.isSome ∧
      (lineFailed o.line = true ↔ Unread h ((pruneReads gid).map .prune) s) := by
  refine run_onGraph_iff (fun s => ?_) lineFailed_pruneLine s
  obtain ⟨report, s', hrun, hfailed⟩ := run_runPhase3Prune_iff (fun q s => h (.prune q) s)
    cfg.dedup.scoring.py gid force s
  exact ⟨report, s', (Prog.run_via _ _ _ s).trans hrun, hfailed.trans (Prog.raises_map _ _ s).symm⟩

/-! ### Phase 4 -/

/-- The queue calls of Phase 4. -/
def repairRequests (cfg : DreamSettings Score) : List DreamRequest :=
  [.reapFailedOrAborted cfg.policy, .reapFairnessStats cfg.maxAttempts] ++
    (match cfg.dlqReplay with
      | some dlq =>
        if dlq.enabled then [.replayDlqBatch dlq.limit dlq.classes dlq.minAgeSec cfg.policy] else []
      | none => []) ++
    [.getStats, .dlqClassCounts ((cfg.dlqReplay.map DlqReplay.classes).getD [])]

/-- The statements come to an end, and the line says `FAILED` exactly if one of `requests`,
which they send one after the other, raises. -/
def Repairs (p : Dreamer Rate (RepairOutcome Rate)) (requests : List DreamRequest) : Prop :=
  ∀ s, ∃ out s', Prog.run h p s = (.ok out, s') ∧
    (lineFailed out.line = true ↔ Prog.Raises h requests s)

variable {h}

theorem repairs_ret {out : RepairOutcome Rate} (hline : lineFailed out.line = false) :
    Repairs h (.ret out) [] := fun s => ⟨out, s, rfl, by simp [hline]⟩

theorem repairs_repairStep {out : RepairOutcome Rate} {q : DreamRequest}
    {next : q.Result Rate → Dreamer Rate (RepairOutcome Rate)} {requests : List DreamRequest}
    (hnext : ∀ answer, Repairs h (next answer) requests) :
    Repairs h (repairStep out q next) (q :: requests) := by
  intro s
  rw [repairStep, dreamRequest_attempt_bind, Prog.run_ask]
  cases hanswer : (h q s).1 with
  | error e => exact ⟨_, _, rfl, by simp [lineFailed_error, hanswer]⟩
  | ok answer =>
    obtain ⟨out', s', hrun, hfailed⟩ := hnext answer (h q s).2
    exact ⟨out', s', hrun, by simp [hfailed, hanswer]⟩

theorem repairs_dlqHealth (classes : List String) {out : RepairOutcome Rate}
    (hline : lineFailed out.line = false) :
    Repairs h (dlqHealth classes out) [.getStats, .dlqClassCounts classes] :=
  repairs_repairStep fun _ => repairs_repairStep fun _ => repairs_ret hline

omit [LinearOrder Score] in
theorem repairs_dreamPhase4 : Repairs h (dreamPhase4 cfg) (repairRequests cfg) := by
  unfold dreamPhase4 repairRequests
  refine repairs_repairStep fun repaired => repairs_repairStep fun stats => ?_
  have hline : lineFailed ("DONE (" ++ toString repaired ++ " requeued)") = false := by
    rw [String.append_assoc, lineFailed_append (by decide)]
    decide
  cases cfg.dlqReplay with
  | none => exact repairs_dlqHealth _ hline
  | some dlq =>
    dsimp only
    split
    · exact repairs_repairStep fun replayed => repairs_dlqHealth _ hline
    · exact repairs_dlqHealth _ hline

end

/-! ## The run -/

theorem mem_failedAmong {name cluster dedup prune repair : String} :
    name ∈ failedAmong cluster dedup prune repair ↔
      name = "phase_1_clustering" ∧ lineFailed cluster = true ∨
      name = "phase_2_deduplication" ∧ lineFailed dedup = true ∨
      name = "phase_3_orphan_pruning" ∧ lineFailed prune = true ∨
      name = "phase_4_dlq_repair" ∧ lineFailed repair = true := by
  simp only [failedAmong, List.mem_map, List.mem_filter, List.mem_cons, List.not_mem_nil, or_false]
  constructor
  · rintro ⟨phase, ⟨rfl | rfl | rfl | rfl, hline⟩, rfl⟩ <;> simp [hline]
  · rintro (⟨rfl, hline⟩ | ⟨rfl, hline⟩ | ⟨rfl, hline⟩ | ⟨rfl, hline⟩)
    · exact ⟨_, ⟨.inl rfl, hline⟩, rfl⟩
    · exact ⟨_, ⟨.inr (.inl rfl), hline⟩, rfl⟩
    · exact ⟨_, ⟨.inr (.inr (.inl rfl)), hline⟩, rfl⟩
    · exact ⟨_, ⟨.inr (.inr (.inr rfl)), hline⟩, rfl⟩

section

variable {Score Rate W : Type} [LinearOrder Score] (cfg : DreamSettings Score)
  (host : DreamHost Rate W) (clock : DreamClock) (w : DreamWorld W) (force : Bool)
  (groupId : Option String)

/-- On what Phase 2 begins. -/
def DreamHost.clustered : DreamWorld W :=
  (Prog.run host.handle
    (dreamPhase1 cfg (dedupGroup groupId cfg.groupId) force : Dreamer Rate _)
    (host.begun clock w)).2

/-- On what Phase 3 begins. -/
def DreamHost.deduplicated : DreamWorld W :=
  (Prog.run host.handle
    (dreamPhase2 cfg (dedupGroup groupId cfg.groupId) force : Dreamer Rate _)
    (host.clustered cfg clock w force groupId)).2

/-- On what Phase 4 begins. -/
def DreamHost.pruned : DreamWorld W :=
  (Prog.run host.handle
    (dreamPhase3 cfg (dedupGroup groupId cfg.groupId) force : Dreamer Rate _)
    (host.deduplicated cfg clock w force groupId)).2

/-- **What counts as a failure.** Phases 2 and 3 never raise, and a run is completed exactly if no
phase has failed. Phase 1 has where the statistics could not be read, Phases 2 and 3 where FalkorDB
was reached and one of the four queries of their snapshot was not answered, and Phase 4 where one
of its calls of the queue was not. Whether Phase 1 has read its snapshot, whether FalkorDB could be
reached, and whether the writes of the passes went through does not matter. -/
theorem dream_failures_exact :
    ∃ (report : DreamReport Score Rate) (last : DreamWorld W),
      Prog.run host.handle (runDreamConsolidation cfg clock force groupId) w =
          (.ok report, last) ∧
        (report.dedup.payload.isSome ∧ report.prune.payload.isSome) ∧
        (report.status = .completed ↔ report.failedPhases = []) ∧
        ∀ name, name ∈ report.failedPhases ↔
          name = "phase_1_clustering" ∧
              Prog.Raises host.handle [.getStats] (host.begun clock w) ∨
            name = "phase_2_deduplication" ∧
              Unread host.handle ((dedupReads (dedupGroup groupId cfg.groupId)).map .dedup)
                (host.clustered cfg clock w force groupId) ∨
            name = "phase_3_orphan_pruning" ∧
              Unread host.handle ((pruneReads (dedupGroup groupId cfg.groupId)).map .prune)
                (host.deduplicated cfg clock w force groupId) ∨
            name = "phase_4_dlq_repair" ∧
              Prog.Raises host.handle (repairRequests cfg)
                (host.pruned cfg clock w force groupId) := by
  let gid := dedupGroup groupId cfg.groupId
  obtain ⟨cluster, w₁, hrun₁, hcluster⟩ := run_dreamPhase1 host.handle cfg gid force
    (host.begun clock w)
  have hw₁ : host.clustered cfg clock w force groupId = w₁ := congrArg Prod.snd hrun₁
  obtain ⟨dedup, w₂, hrun₂, hdedup, hdedupFailed⟩ := run_dreamPhase2 host.handle cfg gid force w₁
  have hw₂ : host.deduplicated cfg clock w force groupId = w₂ := by
    rw [DreamHost.deduplicated, hw₁]
    exact congrArg Prod.snd hrun₂
  obtain ⟨prune, w₃, hrun₃, hprune, hpruneFailed⟩ := run_dreamPhase3 host.handle cfg gid force w₂
  have hw₃ : host.pruned cfg clock w force groupId = w₃ := by
    rw [DreamHost.pruned, hw₂]
    exact congrArg Prod.snd hrun₃
  obtain ⟨repair, w₄, hrun₄, hrepair⟩ := repairs_dreamPhase4 (h := host.handle) cfg w₃
  have hphases : Prog.run host.handle (dreamPhases cfg clock gid force) (host.begun clock w) =
      (.ok (dreamReport cfg clock cluster dedup prune repair), w₄) := by
    rw [dreamPhases, Prog.run_bind_ok hrun₁, Prog.run_bind_ok hrun₂, Prog.run_bind_ok hrun₃,
      Prog.run_bind_ok hrun₄]
    rfl
  obtain ⟨last, hrun⟩ : ∃ last, Prog.run host.handle
      (runDreamConsolidation cfg clock force groupId) w =
        (.ok (dreamReport cfg clock cluster dedup prune repair), last) := by
    rw [runDreamConsolidation_eq, Prog.run_ask]
    exact ⟨_, (Prog.run_bind_ok hphases).trans rfl⟩
  refine ⟨_, last, hrun, ⟨hdedup, hprune⟩, ?_, ?_⟩
  · simp only [dreamReport]
    split <;> simp [*]
  · intro name
    rw [hw₁, hw₂, hw₃, ← hcluster, ← hdedupFailed, ← hpruneFailed, ← hrepair]
    exact mem_failedAmong

end

end JanusGraph
