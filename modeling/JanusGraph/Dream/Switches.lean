import JanusGraph.Dream.Runner
import JanusGraph.Graph.Serve

/-!
# The write switches of a dream

Phase 2 writes to the graph under `force` or `dedup_apply`, Phase 3 under `force` alone, and
Phase 1 never. The first two are one fact about the programs, whatever is answered to them:
it is a matter of the queries that they send. That the graph stays as it is follows for a
server on which a query that does not write leaves it.
-/

namespace JanusGraph

/-! ## Queries that write -/

/-- A query of the two passes that writes. -/
def Query.writes : Query → Bool
  | .episodics _ | .mentionsFrom _ | .countMentions | .episodicProperties _ | .countEmptied _
  | .mentionsTo _ | .relationsTouching _ | .countDuplicates | .countDetached _ => false
  | .deleteMentions _ | .createMention .. | .deleteMention .. | .deleteEmptied _
  | .createRelation .. | .deleteRelation .. | .deleteDuplicates | .deleteDetached _ => true

/-- A query of Phase 2 that writes. -/
def DedupQuery.writes : DedupQuery → Bool
  | .pass q => q.writes
  | .entities _ | .mentions _ | .relations _ => false

/-- A query of Phase 3 that writes. -/
def PruneQuery.writes : PruneQuery → Bool
  | .deleteOrphans _ => true
  | .entities _ | .episodics _ | .mentions _ | .relations _ | .existsCount _
  | .stillOrphanCount _ => false

theorem Query.exec_of_not_writes {q : Query} (hq : q.writes = false) (order : Scan) (g : Graph) :
    (q.exec order g).2 = g := by
  cases q <;> first | rfl | cases hq

theorem PruneQuery.exec_of_not_writes {q : PruneQuery} (hq : q.writes = false) (order : Scan)
    (g : Graph) : (q.exec order g).2 = g := by
  cases q <;> first | rfl | cases hq

/-- A request that writes to the graph. -/
def DreamRequest.writes : DreamRequest → Bool
  | .cluster q => q.writes
  | .dedup q => q.writes
  | .prune q => q.writes
  | _ => false

/-- What a request may be, given the two switches. -/
def DreamRequest.Permitted (force dedupApply : Bool) : DreamRequest → Prop
  | .cluster q => q.writes = false
  | .dedup q => q.writes = true → force = true ∨ dedupApply = true
  | .prune q => q.writes = true → force = true
  | _ => True

/-! ## What the phases send -/

theorem only_dedupQuery {P : DedupQuery → Prop} {q : DedupQuery} (hq : P q) :
    Prog.Only P (dedupQuery q) :=
  ⟨hq, fun answer => by cases answer <;> trivial⟩

theorem only_pruneQuery {P : PruneQuery → Prop} {q : PruneQuery} (hq : P q) :
    Prog.Only P (pruneQuery q) :=
  ⟨hq, fun answer => by cases answer <;> trivial⟩

theorem only_dreamRequest {Rate : Type} {P : DreamRequest → Prop} {q : DreamRequest} (hq : P q) :
    Prog.Only P (dreamRequest q : Dreamer Rate _) :=
  ⟨hq, fun answer => by cases answer <;> trivial⟩

theorem only_readPrune {q : PruneQuery} (hq : q.writes = false) :
    Prog.Only (fun q => q.writes = false) ((pruneQuery q).attempt : Pruner (Except String _)) :=
  Prog.Only.attempt (only_pruneQuery hq)

theorem only_readDedup {q : DedupQuery} (hq : q.writes = false) :
    Prog.Only (fun q => q.writes = false) ((dedupQuery q).attempt : Deduper (Except String _)) :=
  Prog.Only.attempt (only_dedupQuery hq)

theorem only_readQuery {q : Query} (hq : q.writes = false) :
    Prog.Only (fun q => q.writes = false) ((query q).attempt : Cypher (Except String _)) :=
  Prog.Only.attempt (only_query hq)

/-- The snapshot is read. -/
theorem only_loadGraphSnapshot (py : Builtins) (gid : String) :
    Prog.Only (fun q => q.writes = false) (loadGraphSnapshot py gid) :=
  (only_readPrune rfl).bind fun _ => (only_readPrune rfl).bind fun _ =>
    (only_readPrune rfl).bind fun _ => (only_readPrune rfl).bind fun _ =>
      Prog.only_ret _

theorem only_loadDedupSnapshot (py : Builtins) (gid : String) :
    Prog.Only (fun q => q.writes = false) (loadDedupSnapshot py gid) :=
  (only_readDedup rfl).bind fun _ => (only_readDedup rfl).bind fun _ =>
    (only_readDedup rfl).bind fun _ => (only_readDedup rfl).bind fun _ =>
      Prog.only_ret _

/-- Without `apply`, the first pass sends nothing at all. -/
theorem only_applyPlan_dry {Score : Type} (py : Builtins) (plan : DedupPlan Score) (batch : ℕ) :
    Prog.Only (fun q => q.writes = false) (applyPlan py plan false batch) := by
  unfold applyPlan
  split
  · trivial
  · exact Prog.only_ret _

/-- The second one reads the edges that it would move. -/
theorem only_applyEpisodicPlan_dry (merges : List EpisodicMerge) {args : FoldArgs}
    (hdry : args.apply = false) :
    Prog.Only (fun q => q.writes = false) (applyEpisodicPlan merges args) := by
  unfold applyEpisodicPlan
  dsimp only
  split
  · trivial
  refine (only_readQuery rfl).bind fun rows => ?_
  split
  · trivial
  split
  · trivial
  refine (only_readQuery rfl).bind fun survRows => ?_
  rw [hdry]
  exact Prog.only_ret _

/-- Phase 2 writes under `force` only. -/
theorem only_runPhase2Dedup {Score : Type} [LinearOrder Score] (cfg : DedupSettings Score)
    (gid : String) (force : Bool) :
    Prog.Only (fun q => q.writes = true → force = true) (runPhase2Dedup cfg gid force) := by
  cases force with
  | true => exact Prog.only_of_forall (fun _ _ => rfl) _
  | false =>
    have hreads : Prog.Only (fun q => q.writes = false) (runPhase2Dedup cfg gid false) := by
      refine (only_loadDedupSnapshot _ _).bind fun read => ?_
      dsimp only
      split
      · trivial
      · refine (Prog.Only.via (only_applyPlan_dry _ _ _) fun _ => id).bind fun counters => ?_
        exact (Prog.Only.via (only_applyEpisodicPlan_dry _ rfl) fun _ => id).bind fun _ =>
          Prog.only_ret _
    exact hreads.mono fun q hq hwrites => by simp [hq] at hwrites

/-- So does Phase 3. -/
theorem only_runPhase3Prune (py : Builtins) (gid : String) (force : Bool) :
    Prog.Only (fun q => q.writes = true → force = true) (runPhase3Prune py gid force) := by
  cases force with
  | true => exact Prog.only_of_forall (fun _ _ => rfl) _
  | false =>
    have hreads : Prog.Only (fun q => q.writes = false) (runPhase3Prune py gid false) := by
      refine (only_loadGraphSnapshot _ _).bind fun read => ?_
      dsimp only
      split
      · trivial
      split
      · trivial
      · exact Prog.only_ret _
    exact hreads.mono fun q hq hwrites => by simp [hq] at hwrites

/-! ## The run -/

section

variable {Score Rate : Type} [LinearOrder Score] (cfg : DreamSettings Score)

/-- A phase under its `try` sends what the phase sends. -/
theorem only_tryPhase {Payload : Type} {P : DreamRequest → Prop}
    {phase : Dreamer Rate (String × Payload)} (hphase : Prog.Only P phase) :
    Prog.Only P (tryPhase phase) :=
  hphase.attempt.bind fun outcome => by rcases outcome with e | ⟨line, payload⟩ <;> trivial

theorem only_onGraph {α : Type} {P : DreamRequest → Prop} {phase : Dreamer Rate α}
    (hconnect : P .connect) (hphase : Prog.Only P phase) : Prog.Only P (onGraph phase) :=
  (only_dreamRequest hconnect).attempt.bind fun opened => by
    rcases opened with e | _
    · trivial
    · exact hphase.bind fun _ => Prog.only_ret _

theorem only_repairStep {P : DreamRequest → Prop} {out : RepairOutcome Rate} {q : DreamRequest}
    {next : q.Result Rate → Dreamer Rate (RepairOutcome Rate)} (hq : P q)
    (hnext : ∀ answer, Prog.Only P (next answer)) : Prog.Only P (repairStep out q next) :=
  (only_dreamRequest hq).attempt.bind fun answer => by
    rcases answer with e | answer
    · trivial
    · exact hnext answer

theorem only_dlqHealth {P : DreamRequest → Prop} (hstats : P .getStats)
    (hcounts : ∀ classes, P (.dlqClassCounts classes)) (classes : List String)
    (out : RepairOutcome Rate) : Prog.Only P (dlqHealth classes out) :=
  only_repairStep hstats fun _ => only_repairStep (hcounts classes) fun _ => Prog.only_ret _

omit [LinearOrder Score] in
/-- Phase 1 reads its snapshot. -/
theorem only_dreamPhase1 (gid : String) (force : Bool) {P : DreamRequest → Prop}
    (hstats : P .getStats) (hconnect : P .connect)
    (hcluster : ∀ q : PruneQuery, q.writes = false → P (.cluster q)) :
    Prog.Only P (dreamPhase1 cfg gid force : Dreamer Rate _) := by
  have hsnapshot : Prog.Only P
      ((loadGraphSnapshot cfg.dedup.scoring.py gid).cluster : Dreamer Rate _) :=
    Prog.Only.via (only_loadGraphSnapshot _ _) hcluster
  refine only_tryPhase ((only_dreamRequest hstats).bind fun stats => ?_)
  refine Prog.Only.bind ?_ fun _ => Prog.only_ret _
  refine (only_dreamRequest hconnect).attempt.bind fun opened => ?_
  rcases opened with e | _
  · trivial
  · refine hsnapshot.bind fun read => ?_
    dsimp only
    split <;> trivial

/-- Phase 2 writes under either switch. -/
theorem only_dreamPhase2 (gid : String) (force : Bool) {P : DreamRequest → Prop}
    (hconnect : P .connect)
    (hdedup : ∀ q : DedupQuery, (q.writes = true → (force || cfg.dedupApply) = true) →
      P (.dedup q)) :
    Prog.Only P (dreamPhase2 cfg gid force : Dreamer Rate _) :=
  only_tryPhase ((only_onGraph hconnect
    (Prog.Only.via (only_runPhase2Dedup cfg.dedup gid _) hdedup)).bind fun _ => Prog.only_ret _)

omit [LinearOrder Score] in
/-- Phase 3 writes under `force`. -/
theorem only_dreamPhase3 (gid : String) (force : Bool) {P : DreamRequest → Prop}
    (hconnect : P .connect)
    (hprune : ∀ q : PruneQuery, (q.writes = true → force = true) → P (.prune q)) :
    Prog.Only P (dreamPhase3 cfg gid force : Dreamer Rate _) :=
  only_tryPhase ((only_onGraph hconnect
    (Prog.Only.via (only_runPhase3Prune _ gid force) hprune)).bind fun _ => Prog.only_ret _)

omit [LinearOrder Score] in
/-- Phase 4 asks the queue alone. -/
theorem only_dreamPhase4 {P : DreamRequest → Prop} (hstats : P .getStats)
    (hcounts : ∀ classes, P (.dlqClassCounts classes))
    (hreap : ∀ policy, P (.reapFailedOrAborted policy))
    (hfairness : ∀ maxAttempts, P (.reapFairnessStats maxAttempts))
    (hreplay : ∀ limit classes age policy, P (.replayDlqBatch limit classes age policy)) :
    Prog.Only P (dreamPhase4 cfg : Dreamer Rate _) := by
  refine only_repairStep (hreap _) fun repaired => only_repairStep (hfairness _) fun stats => ?_
  split
  · exact only_dlqHealth hstats hcounts _ _
  split
  · exact only_repairStep (hreplay ..) fun replayed => only_dlqHealth hstats hcounts _ _
  · exact only_dlqHealth hstats hcounts _ _

/-- What every request of the phases satisfies. -/
structure OfPhases (force dedupApply : Bool) (P : DreamRequest → Prop) : Prop where
  getStats : P .getStats
  connect : P .connect
  cluster : ∀ q : PruneQuery, q.writes = false → P (.cluster q)
  prune : ∀ q : PruneQuery, (q.writes = true → force = true) → P (.prune q)
  dedup : ∀ q : DedupQuery, (q.writes = true → (force || dedupApply) = true) → P (.dedup q)
  reap : ∀ policy, P (.reapFailedOrAborted policy)
  fairness : ∀ maxAttempts, P (.reapFairnessStats maxAttempts)
  replay : ∀ limit classes age policy, P (.replayDlqBatch limit classes age policy)
  counts : ∀ classes, P (.dlqClassCounts classes)

/-- The four phases send queries that the switches allow, and operations of the queue. -/
theorem only_dreamPhases {P : DreamRequest → Prop} {force : Bool}
    (hP : OfPhases force cfg.dedupApply P) (clock : DreamClock) (gid : String) :
    Prog.Only P (dreamPhases cfg clock gid force : Dreamer Rate _) := by
  have hphase4 : Prog.Only P (dreamPhase4 cfg : Dreamer Rate _) :=
    only_dreamPhase4 cfg hP.getStats hP.counts hP.reap hP.fairness hP.replay
  exact (only_dreamPhase1 cfg gid force hP.getStats hP.connect hP.cluster).bind fun _ =>
    (only_dreamPhase2 cfg gid force hP.connect hP.dedup).bind fun _ =>
      (only_dreamPhase3 cfg gid force hP.connect hP.prune).bind fun _ =>
        hphase4.bind fun _ => Prog.only_ret _

end

/-! ## Where a run works -/

/-- One query of Phase 3, on the server of the others. -/
def Server.handlePrune (server : Server) :
    Handler PruneQuery (fun q => Except String q.Result) FalkorDb :=
  fun q db =>
    match server.raises db.tick with
    | some error => (.error error, { db with tick := db.tick + 1 })
    | none =>
      let r := q.exec (server.scan db.tick) db.graph
      (.ok r.1, { db with graph := r.2, tick := db.tick + 1 })

/-- What a run works on: the graph, `dream_runs`, and whatever else there is. -/
structure DreamWorld (W : Type) : Type where
  db : FalkorDb
  runs : Table String DreamRun
  rest : W

/-- Who answers a run. What is not the graph decides what the queue returns, and whether a
write to `dream_runs` raises. -/
structure DreamHost (Rate W : Type) : Type 1 where
  server : Server
  answer : Handler DreamRequest (fun q => Except String (q.Result Rate)) W

section

variable {Rate W : Type} (host : DreamHost Rate W)

/-- A request that moves neither the graph nor `dream_runs`. -/
def DreamHost.other (q : DreamRequest) (w : DreamWorld W) :
    Except String (q.Result Rate) × DreamWorld W :=
  ((host.answer q w.rest).1, { w with rest := (host.answer q w.rest).2 })

/-- A write to `dream_runs`: one that raises has changed nothing. -/
def DreamHost.write (q : DreamRequest) (move : Table String DreamRun → Table String DreamRun)
    (w : DreamWorld W) : Except String (q.Result Rate) × DreamWorld W :=
  ((host.answer q w.rest).1,
    { w with
      runs := if (host.answer q w.rest).1.isOk then move w.runs else w.runs
      rest := (host.answer q w.rest).2 })

/-- Answer one request. -/
def DreamHost.handle :
    Handler DreamRequest (fun q => Except String (q.Result Rate)) (DreamWorld W)
  | .cluster q, w =>
    ((host.server.handlePrune q w.db).1, { w with db := (host.server.handlePrune q w.db).2 })
  | .prune q, w =>
    ((host.server.handlePrune q w.db).1, { w with db := (host.server.handlePrune q w.db).2 })
  | .dedup q, w =>
    ((host.server.handleDedup q w.db).1, { w with db := (host.server.handleDedup q w.db).2 })
  | .recordDreamRun runId row, w =>
    host.write (.recordDreamRun runId row) (fun runs => runs.put runId row) w
  | .updateDreamRun runId update, w =>
    host.write (.updateDreamRun runId update)
      (fun runs => runs.modify runId fun row => row.update update) w
  | .getStats, w => host.other .getStats w
  | .connect, w => host.other .connect w
  | .reapFailedOrAborted policy, w => host.other (.reapFailedOrAborted policy) w
  | .reapFairnessStats maxAttempts, w => host.other (.reapFairnessStats maxAttempts) w
  | .replayDlqBatch limit classes age policy, w =>
    host.other (.replayDlqBatch limit classes age policy) w
  | .dlqClassCounts classes, w => host.other (.dlqClassCounts classes) w
  | .emitQuick, w => host.other .emitQuick w

/-! ## A dry run -/

theorem graph_handlePrune {server : Server} {q : PruneQuery} (hq : q.writes = false)
    (db : FalkorDb) : (server.handlePrune q db).2.graph = db.graph := by
  unfold Server.handlePrune
  split
  · rfl
  · exact PruneQuery.exec_of_not_writes hq _ _

theorem graph_handleDedup {server : Server} {q : DedupQuery} (hq : q.writes = false)
    (db : FalkorDb) : (server.handleDedup q db).2.graph = db.graph := by
  have hread : ∀ {α : Type} (rows : Graph → List α),
      (Server.handleDedup.read server db rows).2.graph = db.graph := by
    intro α rows
    unfold Server.handleDedup.read
    dsimp only
    split <;> rfl
  cases q with
  | entities gid => exact hread _
  | mentions gid => exact hread _
  | relations gid => exact hread _
  | pass q =>
    rcases handle_cases server q db with ⟨error, h⟩ | h <;> rw [Server.handleDedup, h]
    exact Query.exec_of_not_writes hq _ _

/-- No request of a dry run moves the graph. -/
theorem graph_handle {q : DreamRequest} (hq : q.Permitted false false) (w : DreamWorld W) :
    (host.handle q w).2.db.graph = w.db.graph := by
  cases q with
  | cluster q => exact graph_handlePrune hq _
  | prune q => exact graph_handlePrune (by simpa [DreamRequest.Permitted] using hq) _
  | dedup q => exact graph_handleDedup (by simpa [DreamRequest.Permitted] using hq) _
  | _ => rfl

variable {Score : Type} [LinearOrder Score] (cfg : DreamSettings Score)

/-- A run sends what its switches permit. -/
theorem only_runDreamConsolidation (clock : DreamClock) (force : Bool) (groupId : Option String) :
    Prog.Only (DreamRequest.Permitted force cfg.dedupApply)
      (runDreamConsolidation cfg clock force groupId : Dreamer Rate _) := by
  have hphases : OfPhases force cfg.dedupApply (DreamRequest.Permitted force cfg.dedupApply) :=
    { getStats := trivial
      connect := trivial
      cluster := fun q hq => hq
      prune := fun q hq => hq
      dedup := fun q hq hwrites => (Bool.or_eq_true _ _).mp (hq hwrites)
      reap := fun _ => trivial
      fairness := fun _ => trivial
      replay := fun _ _ _ _ => trivial
      counts := fun _ => trivial }
  unfold runDreamConsolidation
  refine Prog.Only.bind (Prog.Only.attempt (only_dreamRequest ?_)) fun _ => ?_
  · trivial
  refine (only_dreamPhases cfg hphases clock _).bind fun report => ?_
  refine Prog.Only.bind (Prog.Only.attempt (only_dreamRequest ?_)) fun stats => ?_
  · trivial
  refine Prog.Only.bind (Prog.Only.attempt (only_dreamRequest ?_)) fun _ => ?_
  · trivial
  refine Prog.Only.bind (Prog.Only.attempt (only_dreamRequest ?_)) fun _ => Prog.only_ret _
  · trivial

end

end JanusGraph
