import JanusGraph.Graph.Dedup
import JanusGraph.Graph.Redirect

/-!
# Applying the entity merges

`apply_plan` of `pipeline/dedup_apply.py`: the `MENTIONS` of the victims are moved to
their roots (phase A), and so are their `RELATES_TO` edges (phase B), each by a `CREATE`
and then a `DELETE`; duplicate `RELATES_TO` edges are dropped (phase C), and the victims
that no edge touches any more are deleted (phase D). The `DELETE` of phase A waits for a
`CREATE` that has made an edge; that of phase B does not.
-/

namespace JanusGraph

variable {Score : Type}

/-- `redirect = {m.victim_uuid: m.survivor_uuid for m in plan.merges}` -/
def DedupPlan.redirect (plan : DedupPlan Score) : Table String String :=
  plan.merges.foldl (fun redirect m => redirect.upsert m.victimUuid fun _ => m.survivorUuid)
    Table.empty

/-- `victims = list(redirect.keys())` -/
def DedupPlan.victims (plan : DedupPlan Score) : List String := plan.redirect.rows.map Prod.fst

/-- What one turn of a loop of `apply_plan` counts. -/
structure Moved : Type where
  moved : ℕ := 0
  selfLoops : ℕ := 0
  errors : List String := []

/-- One turn of the loop of phase A. -/
def moveMention (redirect : Table String String) (row : MentionRow) : Cypher Moved := do
  let src := row.srcUuid.getD ""
  let dst := row.dstUuid.getD ""
  if src = "" ∨ dst = "" then
    return { errors := ["mentions-skip " ++ row.edgeUuid ++ ": unresolved endpoint"] }
  else if rootIn redirect dst = dst then
    return {}
  else
    match ← (query (.createMention src (rootIn redirect dst) row.edgeUuid
        (orDefault row.groupId "graphiti_memory") (orNone row.createdAt))).attempt with
    | .error e => return { errors := ["mentions-move " ++ row.edgeUuid ++ ": " ++ e] }
    | .ok made =>
      if made = 0 then
        return { errors := ["mentions-create " ++ row.edgeUuid ++
          ": endpoints did not match, edge kept"] }
      else
        match ← (query (.deleteMention src dst row.edgeUuid)).attempt with
        | .error e => return { errors := ["mentions-move " ++ row.edgeUuid ++ ": " ++ e] }
        | .ok _ => return { moved := 1 }

/-- `str(v) if v else None` -/
def textOrNull (py : Builtins) (v : Value) : Value := if v.truthy then .str (py.text v) else .null

/-- The property map phase B gives to the new edge. -/
def recreatedProps (py : Builtins) (row : RelationRow) (src dst : String) :
    List (String × Value) :=
  [("uuid", row.edgeUuid), ("source_node_uuid", .str src), ("target_node_uuid", .str dst),
    ("group_id", .str "graphiti_memory"), ("fact", row.fact), ("name", row.name),
    ("created_at", textOrNull py row.createdAt), ("valid_at", textOrNull py row.validAt),
    ("reference_time", textOrNull py row.referenceTime),
    ("episodes", if row.episodes.truthy then row.episodes else .list [])]

/-- `root.get(str(src_uuid), str(src_uuid))` and the same of the target -/
def RelationRow.newSrc (redirect : Table String String) (row : RelationRow) : String :=
  rootIn redirect (row.srcUuid.getD "None")

def RelationRow.newDst (redirect : Table String String) (row : RelationRow) : String :=
  rootIn redirect (row.dstUuid.getD "None")

/-- The `CREATE` of a row of phase B. -/
def RelationRow.recreate (py : Builtins) (redirect : Table String String) (row : RelationRow) :
    Query :=
  .createRelation (row.newSrc redirect) (row.newDst redirect)
    (recreatedProps py row (row.newSrc redirect) (row.newDst redirect))

/-- Its `DELETE`. -/
def RelationRow.delete (row : RelationRow) : Query :=
  .deleteRelation row.srcUuid row.dstUuid row.edgeUuid

/-- One turn of the loop of phase B. -/
def moveRelation (py : Builtins) (redirect : Table String String) (row : RelationRow) :
    Cypher Moved := do
  let uuid := py.text row.edgeUuid
  if row.newSrc redirect = row.srcUuid.getD "None" ∧
      row.newDst redirect = row.dstUuid.getD "None" then
    return {}
  else if row.newSrc redirect = row.newDst redirect then
    match ← (query row.delete).attempt with
    | .error e => return { selfLoops := 1, errors := ["selfloop-drop " ++ uuid ++ ": " ++ e] }
    | .ok _ => return { selfLoops := 1 }
  else
    match ← (query (row.recreate py redirect)).attempt with
    | .error e => return { errors := ["relations-move " ++ uuid ++ ": " ++ e] }
    | .ok _ =>
      match ← (query row.delete).attempt with
      | .error e => return { errors := ["relations-move " ++ uuid ++ ": " ++ e] }
      | .ok _ => return { moved := 1 }

/-- Phase C: how many duplicates there are, and their deletion. -/
def dropDuplicates : Cypher (ℕ × List String) := do
  match ← (query .countDuplicates).attempt with
  | .error e => return (0, ["dedupe-edges: " ++ e])
  | .ok dup =>
    if dup = 0 then return (0, [])
    else
      match ← (query .deleteDuplicates).attempt with
      | .error e => return (dup, ["dedupe-edges: " ++ e])
      | .ok _ => return (dup, [])

/-- One turn of the loop of phase D. -/
def deleteDetachedChunk (chunk : List String) : Cypher (ℕ × List String) := do
  match ← (query (.countDetached chunk)).attempt with
  | .error e => return (0, ["node-delete: " ++ e])
  | .ok before =>
    match ← (query (.deleteDetached chunk)).attempt with
    | .error e => return (0, ["node-delete: " ++ e])
    | .ok _ => return (before, [])

/-- The counters `apply_plan` returns. -/
structure ApplyCounters : Type where
  applied : Bool
  nodesDeleted : ℕ := 0
  mentionsMoved : ℕ := 0
  relationsMoved : ℕ := 0
  selfLoopsDropped : ℕ := 0
  duplicateEdgesDropped : ℕ := 0
  /-- `nodes_to_delete`, `mentions_to_move` and `relations_to_move` of a dry run -/
  dryRun : Option (ℕ × ℕ × ℕ) := none
  errors : List String := []

/-- A read under `try`: its rows, or none and an error. -/
def readRows {α : Type} (what : String) (read : Cypher (List α)) :
    Cypher (List α × List String) := do
  match ← (read.attempt : Cypher (Except String (List α))) with
  | .error e => return ([], [what ++ ": " ++ e])
  | .ok rows => return (rows, [])

/-- `apply_plan` -/
def applyPlan (py : Builtins) (plan : DedupPlan Score) (apply : Bool) (batch : ℕ) :
    Cypher ApplyCounters := do
  if plan.merges.isEmpty then
    return { applied := apply }
  else if !apply then
    return { applied := false
             dryRun := some (plan.nodesToDelete, plan.mentionsToRedirect,
               plan.relationsToRedirect) }
  else
    let victims := plan.redirect.rows.map Prod.fst
    -- phase A
    let (mentRows, mentErrors) ← readRows "mentions-read" (query (.mentionsTo victims))
    let mentions ← Prog.forEach (moveMention plan.redirect) mentRows
    -- phase B
    let (relRows, relErrors) ← readRows "relations-read" (query (.relationsTouching victims))
    let relations ← Prog.forEach (moveRelation py plan.redirect) relRows
    -- phase C
    let (duplicates, dupErrors) ← dropDuplicates
    -- phase D
    if batch = 0 then
      Prog.fail "range() arg 3 must not be zero"
    else
      let deleted ← Prog.forEach deleteDetachedChunk (batches batch victims)
      return { applied := true
               nodesDeleted := (deleted.map Prod.fst).sum
               mentionsMoved := (mentions.map Moved.moved).sum
               relationsMoved := (relations.map Moved.moved).sum
               selfLoopsDropped := (relations.map Moved.selfLoops).sum
               duplicateEdgesDropped := duplicates
               errors := mentErrors ++ mentions.flatMap Moved.errors ++ relErrors ++
                 relations.flatMap Moved.errors ++ dupErrors ++ deleted.flatMap Prod.snd }

end JanusGraph
