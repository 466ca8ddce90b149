import JanusGraph.Dream.Phases
import JanusGraph.Graph.Schema

/-!
# Phase 3: orphan pruning

`run_phase3_prune` of `pipeline/dream_apply.py`, on a graph handle that it is given. It
reads a snapshot of the graph with four queries, plans on it, and then takes one
planned node after another: it counts the node, counts it again if nothing touches it,
and deletes it under the same gate.
-/

namespace JanusGraph

/-! ## Queries -/

/-- The queries of Phase 3. -/
inductive PruneQuery : Type where
  /-- `_ENTITIES_Q` -/
  | entities (gid : String)
  /-- `_EPISODIC_Q` -/
  | episodics (gid : String)
  /-- `_MENTIONS_Q` -/
  | mentions (gid : String)
  /-- `_RELATIONS_Q` -/
  | relations (gid : String)
  /-- `_EXISTS_COUNT`, for a list `$u` of one uuid as the next two -/
  | existsCount (uuid : String)
  /-- `_STILL_ORPHAN_COUNT` -/
  | stillOrphanCount (uuid : String)
  /-- `_DELETE_ORPHANS` -/
  | deleteOrphans (uuid : String)

/-- What a query returns. The rows of `_RELATIONS_Q` are cut down to the two columns for
the ends, those of `_MENTIONS_Q` to `n.uuid`. -/
abbrev PruneQuery.Result : PruneQuery → Type
  | .entities _ => List Node
  | .episodics _ => List Node
  | .mentions _ => List (Option String)
  | .relations _ => List (Value × Value)
  | .existsCount _ => ℕ
  | .stillOrphanCount _ => ℕ
  | .deleteOrphans _ => Unit

namespace Graph

/-- `MATCH (n:Label) WHERE n.group_id = $gid` -/
def inGroup (g : Graph) (label : NodeLabel) (gid : String) : List Node :=
  (g.nodes.rows.map Prod.snd).filter fun n => n.label = label ∧ n.groupId = some gid

/-- `MATCH (s:Episodic)-[e:MENTIONS]->(n:Entity) WHERE n.group_id = $gid RETURN n.uuid` -/
def mentionedIn (g : Graph) (gid : String) : List (Option String) :=
  g.mentions.filterMap fun e =>
    match g.labelled .episodic e.src, g.labelled .entity e.dst with
    | some _, some n => if n.groupId = some gid then some n.uuid else none
    | _, _ => none

/-- `MATCH (a:Entity)-[e:RELATES_TO]->(b:Entity) WHERE a.group_id = $gid RETURN
e.source_node_uuid, e.target_node_uuid` -/
def relatedIn (g : Graph) (gid : String) : List (Value × Value) :=
  g.relations.filterMap fun e =>
    match g.labelled .entity e.src, g.labelled .entity e.dst with
    | some a, some _ =>
      if a.groupId = some gid then some (e.prop "source_node_uuid", e.prop "target_node_uuid")
      else none
    | _, _ => none

/-- `MATCH (v:Entity) WHERE v.uuid IN $u`, as a condition on a node -/
def listed (uuids : List String) (n : Node) : Bool :=
  n.label = .entity ∧ n.uuid ∈ uuids.map some

end Graph

/-- Execute one query. -/
def PruneQuery.exec (order : Scan) : (q : PruneQuery) → Graph → q.Result × Graph
  | .entities gid, g => (order.scan (g.inGroup .entity gid), g)
  | .episodics gid, g => (order.scan (g.inGroup .episodic gid), g)
  | .mentions gid, g => (order.scan (g.mentionedIn gid), g)
  | .relations gid, g => (order.scan (g.relatedIn gid), g)
  | .existsCount uuid, g => (g.nodes.rows.countP fun r => Graph.listed [uuid] r.2, g)
  | .stillOrphanCount uuid, g => (g.nodes.rows.countP fun r => g.detached [uuid] r.1 r.2, g)
  | .deleteOrphans uuid, g => ((), g.removeNodes (g.detached [uuid]))

/-- A program that sends queries of Phase 3. -/
abbrev Pruner (α : Type) : Type := Prog PruneQuery (fun q => Except String q.Result) String α

/-- `graph.query(cypher, params)` -/
def pruneQuery (q : PruneQuery) : Pruner q.Result :=
  .ask q fun
    | .ok a => .ret a
    | .error e => .fail e

/-- A query under `try`: what follows is given its answer. -/
theorem run_pruneQuery_attempt_bind {α S : Type}
    {h : Handler PruneQuery (fun q => Except String q.Result) S} (q : PruneQuery)
    (f : Except String q.Result → Pruner α) (s : S) :
    Prog.run h ((pruneQuery q).attempt >>= f) s = Prog.run h (f (h q s).1) (h q s).2 := by
  rw [pruneQuery, Prog.attempt_ask_bind id (fun answer => by cases answer <;> rfl), Prog.run_ask]
  rfl

/-! ## The snapshot -/

/-- What Phase 3 takes of a snapshot. -/
structure Snapshot : Type where
  entities : List SnapshotEntity
  mentions : List SnapshotMention
  relations : List SnapshotRelation

/-- A row of `_ENTITIES_Q` -/
def snapshotEntity (n : Node) : SnapshotEntity :=
  { uuid := n.uuid, name := n.name, summary := n.summary }

/-- A row of `_RELATIONS_Q` -/
def snapshotRelation (py : Builtins) (row : Value × Value) : SnapshotRelation :=
  { srcUuid := (Graph.storedEnds py row.1 row.2).1
    dstUuid := (Graph.storedEnds py row.1 row.2).2 }

/-- `"entities: %s" % exc`, if the read has raised -/
def readError {α : Type} (name : String) (read : Except String α) : List String :=
  match read with
  | .ok _ => []
  | .error e => [name ++ ": " ++ e]

/-- `load_graph_snapshot`: a read that raises leaves its list empty. -/
def loadGraphSnapshot (py : Builtins) (gid : String) : Pruner (Snapshot × String) := do
  let entities ← (pruneQuery (.entities gid)).attempt
  let episodics ← (pruneQuery (.episodics gid)).attempt
  let mentions ← (pruneQuery (.mentions gid)).attempt
  let relations ← (pruneQuery (.relations gid)).attempt
  let errors := readError "entities" entities ++ readError "episodics" episodics ++
    readError "mentions" mentions ++ readError "relations" relations
  return ({ entities := (entities.toOption.getD []).map snapshotEntity
            mentions := (mentions.toOption.getD []).map SnapshotMention.mk
            relations := (relations.toOption.getD []).map (snapshotRelation py) },
    "; ".intercalate errors)

/-! ## Deleting -/

/-- What has become of one uuid. -/
inductive PruneOutcome : Type where
  | alreadyGone | stillReferenced | deleted
  | error (text : String)
  deriving DecidableEq

/-- `text[:n]` -/
def takeChars (n : ℕ) (text : String) : String := String.ofList (text.toList.take n)

/-- What one turn of `_delete_orphans` tries. -/
def tryDelete (uuid : String) : Pruner PruneOutcome := do
  let found ← pruneQuery (.existsCount uuid)
  if found = 0 then return .alreadyGone
  else
    let orphans ← pruneQuery (.stillOrphanCount uuid)
    if orphans = 0 then return .stillReferenced
    else
      let _ ← pruneQuery (.deleteOrphans uuid)
      return .deleted

/-- One turn of `_delete_orphans`. -/
def deleteOrphan (uuid : String) : Pruner PruneOutcome := do
  match ← (tryDelete uuid).attempt with
  | .ok outcome => return outcome
  | .error e => return .error ("delete " ++ takeChars 16 uuid ++ ": " ++ e)

/-- The counters of `_delete_orphans`. -/
structure PruneCounters : Type where
  deleted : ℕ
  skippedStillReferenced : ℕ
  alreadyGone : ℕ
  errors : List String

/-- `counters["errors"]` -/
def PruneOutcome.errors : PruneOutcome → List String
  | .error text => [text]
  | _ => []

/-- `_delete_orphans` -/
def deleteOrphans (uuids : List String) : Pruner PruneCounters := do
  let outcomes ← Prog.forEach deleteOrphan uuids
  return { deleted := outcomes.countP (· = .deleted)
           skippedStillReferenced := outcomes.countP (· = .stillReferenced)
           alreadyGone := outcomes.countP (· = .alreadyGone)
           errors := outcomes.flatMap PruneOutcome.errors }

/-! ## The phase -/

/-- The status of a report. -/
inductive PruneStatus : Type where
  | failed | done | planned | partly
  deriving DecidableEq

/-- What `run_phase3_prune` returns. -/
structure PruneReport : Type where
  status : PruneStatus := .done
  reason : Option String := none
  candidates : ℕ := 0
  prunable : ℕ := 0
  deleted : ℕ := 0
  applied : Bool := false
  detail : String
  /-- `plan.as_dict()`, and with it `protected` and `protected_chars` -/
  plan : Option PrunePlan := none
  skippedStillReferenced : Option ℕ := none
  alreadyGone : Option ℕ := none

/-- `PrunePlan.describe`; nothing ever sets `PrunePlan.deleted`. -/
def PrunePlan.describe (plan : PrunePlan) : String :=
  "candidates=" ++ toString plan.candidates.length ++ " prunable=" ++
    toString plan.prunable.length ++ " protected=" ++ toString plan.protectedNodes ++
    " (holding " ++ toString plan.protectedChars ++ " chars), deleted=0"

/-- The report before anything is deleted. -/
def PrunePlan.report (plan : PrunePlan) : PruneReport :=
  { candidates := plan.candidates.length
    prunable := plan.prunable.length
    detail := plan.describe
    plan := some plan }

/-- The report after `_delete_orphans`. -/
def PruneReport.apply (out : PruneReport) (counters : PruneCounters) : PruneReport :=
  let out := { out with
    applied := true
    deleted := counters.deleted
    skippedStillReferenced := some counters.skippedStillReferenced
    alreadyGone := some counters.alreadyGone }
  if counters.errors ≠ [] then
    { out with
      status := .partly
      reason := some (takeChars 300 ("; ".intercalate counters.errors)) }
  else if counters.skippedStillReferenced ≠ 0 then
    { out with
      status := .partly
      reason := some (toString counters.skippedStillReferenced ++
        " node(s) gained an edge and were left alone") }
  else out

/-- `run_phase3_prune` -/
def runPhase3Prune (py : Builtins) (gid : String) (force : Bool) : Pruner PruneReport := do
  let (snap, readErr) ← loadGraphSnapshot py gid
  if readErr ≠ "" then
    return { status := .failed, reason := some readErr, detail := "snapshot read failed" }
  else
    let plan := planOrphanPruning snap.entities snap.mentions snap.relations
    let out := plan.report
    if plan.prunable = [] then
      return { out with reason := some ("nothing prunable: all " ++
        toString plan.candidates.length ++ " orphan(s) hold summary text") }
    else if !force then
      return { out with
        status := .planned
        reason := some ("dry-run: " ++ toString plan.prunable.length ++
          " prunable node(s) withheld (force=False)") }
    else
      let counters ← deleteOrphans (plan.prunable.map Orphan.uuid)
      return out.apply counters

end JanusGraph
