import JanusGraph.Dream.Dedup
import JanusGraph.Queue.ReapStats
import JanusGraph.Queue.Statistics

/-!
# A dream

`run_dream_consolidation` of `pipeline/dream.py`. It opens a row in `dream_runs`, runs the
four phases one after another, closes the row and sends the report. Each phase stands under
a `try`: one that raises leaves `FAILED: …` as its line. What the two writes to `dream_runs`
and the dispatcher raise is only logged.
-/

namespace JanusGraph

/-! ## `dream_runs` -/

/-- The status of a run. -/
inductive DreamStatus : Type where
  | running | completed | completedWithFailures
  deriving DecidableEq

/-- A row of `dream_runs`, without its key. -/
structure DreamRun : Type where
  startedAt : String
  completedAt : Option String := none
  status : DreamStatus := .running
  episodesEvaluated : ℕ := 0
  phase1Status : String := "SKIPPED"
  phase2Status : String := "PENDING"
  phase3Status : String := "PENDING"
  phase4Status : String := "PENDING"
  errorMessage : Option String := none

/-- The arguments of `update_dream_run`. -/
structure DreamRunUpdate : Type where
  completedAt : Option String := none
  status : Option DreamStatus := none
  episodesEvaluated : Option ℕ := none
  phase1Status : Option String := none
  phase2Status : Option String := none
  phase3Status : Option String := none
  phase4Status : Option String := none
  errorMessage : Option String := none

/-- The `UPDATE` of `update_dream_run`: what is `None` is not written. -/
def DreamRun.update (r : DreamRun) (u : DreamRunUpdate) : DreamRun :=
  { r with
    completedAt := u.completedAt <|> r.completedAt
    status := u.status.getD r.status
    episodesEvaluated := u.episodesEvaluated.getD r.episodesEvaluated
    phase1Status := u.phase1Status.getD r.phase1Status
    phase2Status := u.phase2Status.getD r.phase2Status
    phase3Status := u.phase3Status.getD r.phase3Status
    phase4Status := u.phase4Status.getD r.phase4Status
    errorMessage := u.errorMessage <|> r.errorMessage }

/-! ## Requests -/

/-- What a run asks for. -/
inductive DreamRequest : Type where
  /-- `queue.record_dream_run`: `INSERT OR REPLACE` -/
  | recordDreamRun (runId : String) (row : DreamRun)
  | updateDreamRun (runId : String) (update : DreamRunUpdate)
  | getStats
  /-- `FalkorDB(…).select_graph(group_id)` and `RETURN 1` -/
  | connect
  /-- a query of the snapshot of Phase 1, which is read as that of Phase 3 -/
  | cluster (q : PruneQuery)
  /-- a query of Phase 3 -/
  | prune (q : PruneQuery)
  /-- a query of Phase 2 -/
  | dedup (q : DedupQuery)
  | reapFailedOrAborted (policy : RetryPolicy)
  | reapFairnessStats (maxAttempts : ℤ)
  | replayDlqBatch (limit : ℤ) (classes : List String) (minAgeSec : ℤ) (policy : RetryPolicy)
  | dlqClassCounts (classes : List String)
  /-- `dispatcher.emit_quick`, with the report that the run returns -/
  | emitQuick

/-- What a request returns. -/
abbrev DreamRequest.Result (Rate : Type) : DreamRequest → Type
  | .recordDreamRun .. => Unit
  | .updateDreamRun .. => Unit
  | .getStats => QueueStats
  | .connect => Unit
  | .cluster q => q.Result
  | .prune q => q.Result
  | .dedup q => q.Result
  | .reapFailedOrAborted _ => ℕ
  | .reapFairnessStats _ => ReapStats Rate
  | .replayDlqBatch .. => ℕ
  | .dlqClassCounts _ => Table String ℕ
  | .emitQuick => Unit

/-- A program that makes the requests of a run. -/
abbrev Dreamer (Rate α : Type) : Type :=
  Prog DreamRequest (fun q => Except String (q.Result Rate)) String α

/-- Make one request. -/
def dreamRequest {Rate : Type} (q : DreamRequest) : Dreamer Rate (q.Result Rate) :=
  .ask q fun
    | .ok a => .ret a
    | .error e => .fail e

/-- `_graph(cfg, group_id)`: what it raises becomes a text. -/
def openGraph {Rate : Type} : Dreamer Rate (Except String Unit) := (dreamRequest .connect).attempt

/-- A phase on the handle that it opens; an error where there is none. -/
def onGraph {Rate α : Type} (phase : Dreamer Rate α) : Dreamer Rate (Except String α) := do
  match ← openGraph with
  | .error e => return .error e
  | .ok _ =>
    let a ← phase
    return .ok a

/-- The queries of the snapshot of Phase 1 as requests of a run. -/
def Pruner.cluster {Rate α : Type} (p : Pruner α) : Dreamer Rate α :=
  Prog.via .cluster (fun _ answer => answer) p

/-- The queries of Phase 3 as requests of a run. -/
def Pruner.dream {Rate α : Type} (p : Pruner α) : Dreamer Rate α :=
  Prog.via .prune (fun _ answer => answer) p

/-- The queries of Phase 2 as requests of a run. -/
def Deduper.dream {Rate α : Type} (p : Deduper α) : Dreamer Rate α :=
  Prog.via .dedup (fun _ answer => answer) p

/-- `"FalkorDB unreachable (%s)" % err` -/
def graphUnreachable (error : String) : String := "FalkorDB unreachable (" ++ error ++ ")"

/-- Whether a line of a report starts with `FAILED`. -/
def lineFailed (line : String) : Bool := "FAILED".toList.isPrefixOf line.toList

/-- `"%s (%s)" % (status, " - ".join(x for x in (detail, reason) if x))` -/
def phaseLine (status detail reason : String) : String :=
  status ++ " (" ++ " - ".intercalate ([detail, reason].filter fun x => x ≠ "") ++ ")"

/-! ## Phase 1 -/

/-- `ClusterResult.describe` -/
def ClusterResult.describe (r : ClusterResult) : String :=
  if r.nodes = 0 then "SKIPPED (no entities in the snapshot)"
  else
    "; ".intercalate <|
      [toString r.communities ++ " communities over " ++ toString r.nodes ++ " nodes",
        if !r.cycleDetected then "deterministic" else "deterministic-after-cycle-resolution",
        "rounds=" ++ toString r.rounds,
        "structural floor: " ++ toString r.components ++ " components, largest " ++
          toString r.largestComponent,
        "hash=" ++ r.partitionHash] ++
      (if r.pinnedNodes ≠ 0 then
        [toString r.pinnedNodes ++ " low-degree nodes pinned (min_degree=" ++
          toString r.minDegree ++ ")"] else []) ++
      (if !r.converged then ["did not converge in " ++ toString r.rounds ++ " rounds"] else []) ++
      (if r.cycleDetected then
        ["2-cycle on " ++ toString r.oscillatingNodes ++
          " nodes resolved by smallest-uuid rule"] else []) ++
      (if r.oversized then
        ["CAVEAT largest community " ++ toString r.largestCommunity ++
          " exceeds the largest connected component " ++ toString r.largestComponent ++
          ", so this count is not a semantic clustering"] else [])

/-- `cluster_report` -/
def clusterReport (result : ClusterResult) (totalEpisodes : ℕ) (threshold : ℤ) (force : Bool) :
    String :=
  let gate := if force then "forced" else "gated"
  let why :=
    if force then
      "force=True bypassed the " ++ toString threshold ++ "-episode threshold (" ++
        toString totalEpisodes ++ " episodes)"
    else if totalEpisodes ≥ threshold then
      "gate passed (" ++ toString totalEpisodes ++ " episodes >= " ++ toString threshold ++ ")"
    else "gate closed (" ++ toString totalEpisodes ++ " episodes < " ++ toString threshold ++ ")"
  (if result.nodes = 0 then "SKIPPED" else "DONE") ++ " (" ++ gate ++ ", " ++ why ++ "): " ++
    result.describe

/-- The status of Phase 1. -/
inductive ClusterStatus : Type where
  | skipped | failed | done
  deriving DecidableEq

/-- What `run_phase1_cluster` returns. Where there is no result, it has `communities` and
`nodes` of 0. -/
structure ClusterPayload : Type where
  status : ClusterStatus
  reason : Option String := none
  detail : String
  result : Option ClusterResult := none

/-- `run_phase1_cluster` of a snapshot that was read -/
def ClusterResult.payload (result : ClusterResult) : ClusterPayload :=
  { status := .done
    reason :=
      if result.converged then none
      else if result.cycleDetected then
        some ("label propagation 2-cycled on " ++ toString result.oscillatingNodes ++
          " node(s); resolved by the smallest-uuid rule, so the partition is still reproducible")
      else some ("did not converge within " ++ toString result.rounds ++ " rounds")
    detail := result.describe
    result := some result }

/-- `_phase1_result`: without a result, an empty one -/
def ClusterPayload.clusterResult (payload : ClusterPayload) : ClusterResult :=
  payload.result.getD
    { nodes := 0, communities := 0, rounds := 0, converged := true, cycleDetected := false
      oscillatingNodes := 0, pinnedNodes := 0, components := 0, largestComponent := 0
      largestCommunity := 0, minDegree := 0, partitionHash := "", oversized := false }

/-- `cfg.pipeline.dlq_replay` -/
structure DlqReplay : Type where
  enabled : Bool := true
  limit : ℤ := 100
  classes : List String := ["SCHEMA_DRIFT", "TIMEOUT"]
  minAgeSec : ℤ := 60

/-- What a run takes of its settings. -/
structure DreamSettings (Score : Type) : Type where
  /-- what Phase 2 is given -/
  dedup : DedupSettings Score
  /-- how sets are iterated -/
  order : SetOrder
  sha256 : String → String
  /-- `_cluster_min_degree(cfg)` -/
  minDegree : ℤ
  /-- `DEFAULT_COMMUNITY_THRESHOLD` -/
  communityThreshold : ℤ := 50
  /-- `cfg.pipeline.dream.dedup_apply` -/
  dedupApply : Bool := false
  /-- `cfg.graphiti.group_id` -/
  groupId : Option String := none
  /-- `RetryPolicy.from_settings(cfg)` -/
  policy : RetryPolicy := {}
  /-- `cfg.pipeline.max_attempts or 3` -/
  maxAttempts : ℤ := 3
  /-- `none` where the pipeline has no such section -/
  dlqReplay : Option DlqReplay := some {}
  /-- the text of a list of classes -/
  showClasses : List String → String

/-- `group_id or cfg.graphiti.group_id or "graphiti_memory"` -/
def dedupGroup (groupId configured : Option String) : String :=
  ((groupId.filter (· ≠ "")) <|> configured.filter (· ≠ "")).getD "graphiti_memory"

section

variable {Score Rate : Type} [LinearOrder Score] (cfg : DreamSettings Score)

/-- `run_phase1_cluster` -/
def runPhase1Cluster (gid : String) : Dreamer Rate ClusterPayload := do
  match ← openGraph with
  | .error e =>
    return { status := .skipped
             reason := some (graphUnreachable e)
             detail := "no graph connection" }
  | .ok _ =>
    let (snap, readErr) ← (loadGraphSnapshot cfg.dedup.scoring.py gid).cluster
    if readErr ≠ "" then
      return { status := .failed, reason := some readErr, detail := "snapshot read failed" }
    else
      let result := planClustering cfg.order cfg.sha256 snap.entities snap.relations cfg.minDegree
      return result.payload

/-- What a phase leaves: its line, and what it has returned unless it raised. -/
structure PhaseOutcome (Payload : Type) : Type where
  line : String
  payload : Option Payload

/-- `try` around a phase, which ends with its line. -/
def tryPhase {Payload : Type} (phase : Dreamer Rate (String × Payload)) :
    Dreamer Rate (PhaseOutcome Payload) := do
  match ← phase.attempt with
  | .ok (line, payload) => return ⟨line, some payload⟩
  | .error e => return ⟨"FAILED: " ++ e, none⟩

/-- What is left of Phase 1 when the statistics are read. -/
def clusterPhase (gid : String) (force : Bool) (stats : QueueStats) :
    Dreamer Rate (String × ClusterPayload) := do
  let payload ← runPhase1Cluster cfg gid
  return (clusterReport payload.clusterResult (stats.count .done + stats.count .queued)
    cfg.communityThreshold force, payload)

/-- Phase 1 of a run -/
def dreamPhase1 (gid : String) (force : Bool) : Dreamer Rate (PhaseOutcome ClusterPayload) :=
  tryPhase do
    let stats ← dreamRequest .getStats
    clusterPhase cfg gid force stats

/-! ## Phase 2 -/

/-- The text of a status. -/
def DedupStatus.text : DedupStatus → String
  | .failed => "FAILED"
  | .done => "DONE"
  | .partly => "PARTIAL"

/-- The line of Phase 2. -/
def dedupLine : Except String (DedupReport Score) → String
  | .error e => phaseLine "SKIPPED" "" (graphUnreachable e)
  | .ok report =>
    phaseLine report.status.text ((report.details.map DedupDetails.detail).getD "") report.reason

/-- Phase 2 of a run. `dedup_apply` is its own write switch. -/
def dreamPhase2 (gid : String) (force : Bool) :
    Dreamer Rate (PhaseOutcome (Except String (DedupReport Score))) :=
  tryPhase do
    let payload ← onGraph (runPhase2Dedup cfg.dedup gid (force || cfg.dedupApply)).dream
    return (dedupLine payload, payload)

/-! ## Phase 3 -/

/-- The text of a status. -/
def PruneStatus.text : PruneStatus → String
  | .failed => "FAILED"
  | .done => "DONE"
  | .planned => "PLANNED"
  | .partly => "PARTIAL"

/-- The line of Phase 3. -/
def pruneLine : Except String PruneReport → String
  | .error e => phaseLine "SKIPPED" "no graph connection" (graphUnreachable e)
  | .ok report => phaseLine report.status.text report.detail (report.reason.getD "")

/-- Phase 3 of a run -/
def dreamPhase3 (gid : String) (force : Bool) :
    Dreamer Rate (PhaseOutcome (Except String PruneReport)) :=
  tryPhase do
    let payload ← onGraph (runPhase3Prune cfg.dedup.scoring.py gid force).dream
    return (pruneLine payload, payload)

/-! ## Phase 4 -/

/-- What Phase 4 leaves in the report. -/
structure RepairOutcome (Rate : Type) : Type where
  /-- `phase_4_dlq_repair` -/
  line : String := "PENDING"
  fairness : Option (ReapStats Rate) := none
  /-- `phase_4_replay_dlq_batch` -/
  replay : Option String := none
  dlqOpen : Option ℕ := none
  dlqByClass : Option (Table String ℕ) := none

/-- One statement of Phase 4: an exception ends the phase, and what is in the report stays. -/
def repairStep (out : RepairOutcome Rate) (q : DreamRequest)
    (next : q.Result Rate → Dreamer Rate (RepairOutcome Rate)) :
    Dreamer Rate (RepairOutcome Rate) := do
  match ← (dreamRequest q).attempt with
  | .ok answer => next answer
  | .error e => return { out with line := "FAILED: " ++ e }

/-- The last statements of Phase 4 -/
def dlqHealth (classes : List String) (out : RepairOutcome Rate) :
    Dreamer Rate (RepairOutcome Rate) :=
  repairStep out .getStats fun stats =>
    let out := { out with dlqOpen := some stats.dlq }
    repairStep out (.dlqClassCounts classes) fun byClass =>
      return { out with dlqByClass := some byClass }

/-- Phase 4 of a run -/
def dreamPhase4 : Dreamer Rate (RepairOutcome Rate) :=
  repairStep {} (.reapFailedOrAborted cfg.policy) fun repaired =>
    let out : RepairOutcome Rate := { line := "DONE (" ++ toString repaired ++ " requeued)" }
    repairStep out (.reapFairnessStats cfg.maxAttempts) fun stats =>
      let out := { out with fairness := some stats }
      match cfg.dlqReplay with
      | none => dlqHealth [] { out with replay := some "SKIPPED (dlq_replay.enabled=false)" }
      | some dlq =>
        if dlq.enabled then
          repairStep out (.replayDlqBatch dlq.limit dlq.classes dlq.minAgeSec cfg.policy)
            fun replayed =>
              dlqHealth dlq.classes { out with
                replay := some ("DONE (" ++ toString replayed ++ " replayed, classes=" ++
                  cfg.showClasses dlq.classes ++ ")") }
        else
          dlqHealth dlq.classes { out with
            replay := some "SKIPPED (dlq_replay.enabled=false)" }

/-! ## The run -/

/-- What a run takes of its surroundings: a new uuid, and two readings of the clock. -/
structure DreamClock : Type where
  runId : String
  startedAt : String
  completedAt : String

/-- What `run_dream_consolidation` returns. -/
structure DreamReport (Score Rate : Type) : Type where
  clock : DreamClock
  status : DreamStatus
  /-- `phase_2_apply` -/
  apply : Bool
  cluster : PhaseOutcome ClusterPayload
  dedup : PhaseOutcome (Except String (DedupReport Score))
  prune : PhaseOutcome (Except String PruneReport)
  repair : RepairOutcome Rate
  failedPhases : List String
  nodesBefore : ℕ
  nodesAfter : ℕ

/-- `phase2.get("entities_seen")` -/
def entitiesSeen (payload : Option (Except String (DedupReport Score))) : Option ℕ :=
  match payload with
  | some (.ok report) => report.details.map DedupDetails.entitiesSeen
  | _ => none

/-- `phase3.get("deleted")`, unless Phase 3 raised -/
def prunedCount (payload : Option (Except String PruneReport)) : Option ℕ :=
  payload.map fun
    | .ok report => report.deleted
    | .error _ => 0

/-- `[k for k in results if k.startswith("phase_") and str(results[k]).startswith("FAILED")]`:
of the other values that are there, none is a text that starts so. -/
def failedAmong (cluster dedup prune repair : String) : List String :=
  ([("phase_1_clustering", cluster), ("phase_2_deduplication", dedup),
    ("phase_3_orphan_pruning", prune), ("phase_4_dlq_repair", repair)].filter
      fun phase => lineFailed phase.2).map Prod.fst

/-- The report of the four phases. -/
def dreamReport (clock : DreamClock) (cluster : PhaseOutcome ClusterPayload)
    (dedup : PhaseOutcome (Except String (DedupReport Score)))
    (prune : PhaseOutcome (Except String PruneReport)) (repair : RepairOutcome Rate) :
    DreamReport Score Rate :=
  let failed := failedAmong cluster.line dedup.line prune.line repair.line
  let nodesBefore := (entitiesSeen dedup.payload).getD 0
  { clock
    status := if failed = [] then .completed else .completedWithFailures
    apply := cfg.dedupApply
    cluster
    dedup
    prune
    repair
    failedPhases := failed
    nodesBefore
    nodesAfter := ((prunedCount prune.payload).map fun n => nodesBefore - n).getD 0 }

/-- The arguments of the second write to `dream_runs`. -/
def DreamReport.update (report : DreamReport Score Rate) (episodesEvaluated : ℕ) :
    DreamRunUpdate :=
  { completedAt := some report.clock.completedAt
    status := some report.status
    episodesEvaluated := some episodesEvaluated
    phase1Status := some report.cluster.line
    phase2Status := some report.dedup.line
    phase3Status := some report.prune.line
    phase4Status := some report.repair.line
    errorMessage :=
      if report.failedPhases = [] then none else some ("; ".intercalate report.failedPhases) }

/-- `episodes_evaluated`: the dead letters of `get_stats` are not counted. -/
def episodesEvaluated : Except String QueueStats → ℕ
  | .ok stats => (allStatuses.map stats.count).sum
  | .error _ => 0

/-- The four phases -/
def dreamPhases (clock : DreamClock) (gid : String) (force : Bool) :
    Dreamer Rate (DreamReport Score Rate) := do
  let cluster ← dreamPhase1 cfg gid force
  let dedup ← dreamPhase2 cfg gid force
  let prune ← dreamPhase3 cfg gid force
  let repair ← dreamPhase4 cfg
  return dreamReport cfg clock cluster dedup prune repair

/-- `run_dream_consolidation` -/
def runDreamConsolidation (clock : DreamClock) (force : Bool) (groupId : Option String) :
    Dreamer Rate (DreamReport Score Rate) := do
  let _ ← (dreamRequest (.recordDreamRun clock.runId { startedAt := clock.startedAt })).attempt
  let report ← dreamPhases cfg clock (dedupGroup groupId cfg.groupId) force
  let stats ← (dreamRequest .getStats).attempt
  let _ ← (dreamRequest
    (.updateDreamRun clock.runId (report.update (episodesEvaluated stats)))).attempt
  let _ ← (dreamRequest .emitQuick).attempt
  return report

end

end JanusGraph
