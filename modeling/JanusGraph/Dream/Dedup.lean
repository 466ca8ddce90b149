import JanusGraph.Dream.Prune
import JanusGraph.Graph.Snapshot

/-!
# Phase 2: deduplication

`run_phase2_dedup` of `pipeline/dedup_apply.py`, on a graph handle that it has opened.
It reads a snapshot of the group, folds entities of one name into one another, and then
byte-identical episodes. The two passes send the queries of `Graph/Schema`; the reads of
the snapshot stand before them.
-/

namespace JanusGraph

/-! ## Queries -/

/-- The queries of Phase 2. -/
inductive DedupQuery : Type where
  /-- `_ENTITIES_Q` -/
  | entities (gid : String)
  /-- `_MENTIONS_Q` -/
  | mentions (gid : String)
  /-- `_RELATIONS_Q` -/
  | relations (gid : String)
  /-- those of the two passes, and `_EPISODIC_Q` -/
  | pass (q : Query)

/-- What a query returns. The rows of `_MENTIONS_Q` are cut down to the two uuids, those of
`_RELATIONS_Q` to the columns for the ends and the fact. -/
abbrev DedupQuery.Result : DedupQuery → Type
  | .entities _ => List Node
  | .mentions _ => List MentionRecord
  | .relations _ => List (Value × Value × Value)
  | .pass q => q.Result

namespace Graph

/-- `MATCH (s:Episodic)-[e:MENTIONS]->(n:Entity) WHERE n.group_id = $gid RETURN s.uuid, n.uuid` -/
def mentionEnds (g : Graph) (gid : String) : List MentionRecord :=
  g.mentions.filterMap fun e =>
    match g.labelled .episodic e.src, g.labelled .entity e.dst with
    | some s, some n => if n.groupId = some gid then some ⟨s.uuid, n.uuid⟩ else none
    | _, _ => none

/-- `MATCH (a:Entity)-[e:RELATES_TO]->(b:Entity) WHERE a.group_id = $gid RETURN
e.source_node_uuid, e.target_node_uuid, e.fact` -/
def relationEnds (g : Graph) (gid : String) : List (Value × Value × Value) :=
  g.relations.filterMap fun e =>
    match g.labelled .entity e.src, g.labelled .entity e.dst with
    | some a, some _ =>
      if a.groupId = some gid then
        some (e.prop "source_node_uuid", e.prop "target_node_uuid", e.prop "fact")
      else none
    | _, _ => none

end Graph

/-- Send one query; a read of the snapshot leaves no entry in the log. -/
def Server.handleDedup (server : Server) :
    Handler DedupQuery (fun q => Except String q.Result) FalkorDb
  | .pass q, db => server.handle q db
  | .entities gid, db => read db fun g => g.inGroup .entity gid
  | .mentions gid, db => read db fun g => g.mentionEnds gid
  | .relations gid, db => read db fun g => g.relationEnds gid
where
  /-- the rows, in some order, unless the query raises -/
  read {α : Type} (db : FalkorDb) (rows : Graph → List α) : Except String (List α) × FalkorDb :=
    let db' := { db with tick := db.tick + 1 }
    match server.raises db.tick with
    | some error => (.error error, db')
    | none => (.ok ((server.scan db.tick).scan (rows db.graph)), db')

/-- A program that sends queries of Phase 2. -/
abbrev Deduper (α : Type) : Type :=
  Prog DedupQuery (fun q => Except String q.Result) String α

/-- `_records(graph, cypher, params)` -/
def dedupQuery (q : DedupQuery) : Deduper q.Result :=
  .ask q fun
    | .ok a => .ret a
    | .error e => .fail e

/-- A query under `try`: what follows is given its answer. -/
theorem run_dedupQuery_attempt_bind {α S : Type}
    {h : Handler DedupQuery (fun q => Except String q.Result) S} (q : DedupQuery)
    (f : Except String q.Result → Deduper α) (s : S) :
    Prog.run h ((dedupQuery q).attempt >>= f) s = Prog.run h (f (h q s).1) (h q s).2 := by
  rw [dedupQuery, Prog.attempt_ask_bind id (fun answer => by cases answer <;> rfl), Prog.run_ask]
  rfl

/-- One of the passes, on the handle of Phase 2. -/
def Cypher.pass {α : Type} (p : Cypher α) : Deduper α := Prog.via .pass (fun _ answer => answer) p

/-! ## The snapshot -/

/-- What Phase 2 takes of a snapshot. -/
structure DedupSnapshot : Type where
  entities : List EntityRecord
  episodics : List Node
  mentions : List MentionRecord
  relations : List RelationRecord

/-- `load_graph_snapshot`: a read that raises leaves its list empty. -/
def loadDedupSnapshot (py : Builtins) (gid : String) : Deduper (DedupSnapshot × String) := do
  let entities ← (dedupQuery (.entities gid)).attempt
  let episodics ← (dedupQuery (.pass (.episodics gid))).attempt
  let mentions ← (dedupQuery (.mentions gid)).attempt
  let relations ← (dedupQuery (.relations gid)).attempt
  let errors := readError "entities" entities ++ readError "episodics" episodics ++
    readError "mentions" mentions ++ readError "relations" relations
  return ({ entities := (entities.toOption.getD []).map Node.entityRecord
            episodics := episodics.toOption.getD []
            mentions := mentions.toOption.getD []
            relations := (relations.toOption.getD []).map (relationRecord py) },
    "; ".intercalate errors)

/-! ## The phase -/

/-- What Phase 2 is given besides the graph. -/
structure DedupSettings (Score : Type) : Type where
  scoring : Scoring Score
  sha1 : String → String
  /-- `_dedup_threshold(cfg)` -/
  threshold : Score
  /-- `plan.describe()`, with `episodic_clusters_scanned` and `episodic_duplicate_nodes` -/
  describe : DedupPlan Score → ℕ → ℕ → String
  /-- `queue.record_episodic_undo_sync(run_id, rows)`, with a queue and a run -/
  undoWriter : Option (List UndoRow → Except String ℤ)

/-- The status of a report. -/
inductive DedupStatus : Type where
  | failed | done | partly
  deriving DecidableEq

/-- What a report has of a snapshot that was read. -/
structure DedupDetails (Score : Type) : Type where
  episodicMerges : ℕ
  entitiesSeen : ℕ
  episodicsSeen : ℕ
  /-- `plan.as_dict()`, and with it `episodic_duplicate_nodes` -/
  plan : DedupPlan Score
  episodicClustersScanned : ℕ
  counters : ApplyCounters
  episodicCounters : Counters
  detail : String

/-- What `run_phase2_dedup` returns. -/
structure DedupReport (Score : Type) : Type where
  status : DedupStatus
  reason : String
  applied : Bool := false
  merges : ℕ := 0
  details : Option (DedupDetails Score) := none

/-- `_count_episodic_clusters` -/
def countEpisodicClusters (sha1 : String → String) (episodics : List Node) : ℕ :=
  (byKey sha1 episodics).rows.countP fun group => 1 < group.2.length

section

variable {Score : Type} [LinearOrder Score] (cfg : DedupSettings Score)

/-- `plan_dedup(snap["entities"], …, threshold=threshold)` -/
def DedupSettings.plan (snap : DedupSnapshot) : DedupPlan Score :=
  planDedup cfg.scoring snap.entities snap.mentions snap.relations cfg.threshold

/-- `plan_episodic_exact_dups(snap["episodics"])` -/
def DedupSettings.episodicPlan (snap : DedupSnapshot) : List EpisodicMerge :=
  planEpisodicExactDups cfg.sha1 snap.episodics

/-- The arguments of `apply_episodic_plan`. -/
def DedupSettings.foldArgs (gid : String) (force : Bool) : FoldArgs :=
  { apply := force, undoWriter := cfg.undoWriter, groupId := gid }

/-- The report of the two passes. -/
def DedupSettings.report (snap : DedupSnapshot) (counters : ApplyCounters)
    (episodicCounters : Counters) : DedupReport Score :=
  let plan := cfg.plan snap
  let episodicMerges := (cfg.episodicPlan snap).length
  let clusters := countEpisodicClusters cfg.sha1 snap.episodics
  let errors := counters.errors ++ episodicCounters.errors
  { status := if errors = [] then .done else .partly
    reason := takeChars 300 ("; ".intercalate errors)
    applied := counters.applied
    merges := plan.merges.length
    details := some
      { episodicMerges
        entitiesSeen := snap.entities.length
        episodicsSeen := snap.episodics.length
        plan
        episodicClustersScanned := clusters
        counters
        episodicCounters
        detail := cfg.describe plan clusters episodicMerges } }

/-- `run_phase2_dedup` -/
def runPhase2Dedup (gid : String) (force : Bool) : Deduper (DedupReport Score) := do
  let (snap, readErr) ← loadDedupSnapshot cfg.scoring.py gid
  if readErr ≠ "" then
    return { status := .failed, reason := readErr }
  else
    let counters ← (applyPlan cfg.scoring.py (cfg.plan snap) force 200).pass
    let episodicCounters ←
      (applyEpisodicPlan (cfg.episodicPlan snap) (cfg.foldArgs gid force)).pass
    return cfg.report snap counters episodicCounters

end

end JanusGraph
