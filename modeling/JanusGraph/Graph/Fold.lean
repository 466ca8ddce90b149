import JanusGraph.Graph.Plan
import JanusGraph.Lib.Chase

/-!
# The episodic fold

`apply_episodic_plan` of `pipeline/dedup_apply.py`. It reads the `MENTIONS` of the
victims and of the survivors, decides for each row of a victim whether it is redundant
or has to be recreated on the survivor, and then writes: the redundant rows are deleted
by the uuid of their edge (phase B), the others are created on the survivor and deleted
on the victim, one after another (phases A and C), and the emptied victims are deleted
(phase D), if they all have an undo row.
-/

namespace JanusGraph

/-! ## Redirects -/

/-- `redirect = {m.victim_uuid: m.survivor_uuid for m in merges}` -/
def redirectOf (merges : List EpisodicMerge) : Table String String :=
  merges.foldl (fun redirect m => redirect.upsert m.victimUuid fun _ => m.survivorUuid) Table.empty

/-- `_root_map`: a chain of redirects is followed to its end, or round a cycle once. -/
def rootMap (redirect : Table String String) : Table String String :=
  redirect.map fun uuid _ => chase redirect.get? (redirect.rows.length + 1) [] uuid

/-- `root.get(uuid, uuid)` -/
def rootOf (merges : List EpisodicMerge) (uuid : String) : String :=
  ((rootMap (redirectOf merges)).get? uuid).getD uuid

/-- `victims = list(redirect.keys())` -/
def victimsOf (merges : List EpisodicMerge) : List String :=
  (redirectOf merges).rows.map Prod.fst

/-- `survivors = sorted(set(root.values()))` -/
def survivorsOf (merges : List EpisodicMerge) : List String :=
  ((rootMap (redirectOf merges)).rows.map Prod.snd).dedup.insertionSort (· ≤ ·)

/-! ## Planning the rewire -/

/-- A row of a victim with both endpoints resolved. -/
structure VictimEdge : Type where
  uuid : String
  src : String
  dst : String
  createdAt : Option String
  groupId : Option String
  deriving DecidableEq

/-- The row, unless an endpoint has no uuid. -/
def MentionRow.resolve (row : MentionRow) : Option VictimEdge :=
  if row.srcUuid.getD "" = "" ∨ row.dstUuid.getD "" = "" then none
  else some ⟨row.edgeUuid, row.srcUuid.getD "", row.dstUuid.getD "", row.createdAt, row.groupId⟩

/-- The errors of the rows that are skipped. -/
def unresolvedErrors (rows : List MentionRow) : List String :=
  (rows.filter fun row => row.resolve.isNone).map fun row =>
    "episodic-mentions-skip " ++ row.edgeUuid ++ ": unresolved endpoint"

/-- `surv_targets`: the pairs of a survivor and a target it mentions. -/
def survTargets (rows : List MentionRow) : List (String × String) :=
  (rows.filterMap MentionRow.resolve).map fun e => (e.src, e.dst)

/-- `unique_victim_edges` and `intra_victim_dup_edges`: the first row of each pair of
endpoints, and the uuids of the others. -/
def splitRows : List (String × String) → List VictimEdge → List VictimEdge × List String
  | _, [] => ([], [])
  | seen, e :: es =>
    if (e.src, e.dst) ∈ seen then
      ((splitRows seen es).1, e.uuid :: (splitRows seen es).2)
    else
      (e :: (splitRows ((e.src, e.dst) :: seen) es).1, (splitRows ((e.src, e.dst) :: seen) es).2)

/-- A row to recreate on its survivor. -/
structure Rewiring : Type where
  edge : VictimEdge
  survivor : String

/-- What becomes of the rows. -/
structure Rewire : Type where
  /-- the survivor mentions the target already -/
  toDrop : List String := []
  /-- an earlier row gives the survivor the target -/
  survivorDedupe : List String := []
  toCreate : List Rewiring := []
  errors : List String := []

/-- The loop that classifies the rows; `created` is `created_targets`. -/
def classify (root : String → String) (targets : List (String × String)) :
    List (String × String) → List VictimEdge → Rewire
  | _, [] => {}
  | created, e :: es =>
    if root e.src = e.src then
      let r := classify root targets created es
      { r with
        errors := ("episodic-mentions-skip " ++ e.uuid ++ ": no survivor for " ++ e.src) ::
          r.errors }
    else if (root e.src, e.dst) ∈ targets then
      let r := classify root targets created es
      { r with toDrop := e.uuid :: r.toDrop }
    else if (root e.src, e.dst) ∈ created then
      let r := classify root targets created es
      { r with survivorDedupe := e.uuid :: r.survivorDedupe }
    else
      let r := classify root targets ((root e.src, e.dst) :: created) es
      { r with toCreate := ⟨e, root e.src⟩ :: r.toCreate }

/-- What the fold has read of the rows, and planned for them. -/
structure RewirePlan : Type where
  /-- `victim_edges` -/
  edges : List VictimEdge
  /-- `unique_victim_edges` -/
  unique : List VictimEdge
  /-- `intra_victim_dup_edges` -/
  dups : List String
  rewire : Rewire

/-- Plan the rewire from the rows of the victims and of the survivors. -/
def planRewire (merges : List EpisodicMerge) (mentRows survRows : List MentionRow) : RewirePlan :=
  let edges := mentRows.filterMap MentionRow.resolve
  let unique := (splitRows [] edges).1
  { edges := edges
    unique := unique
    dups := (splitRows [] edges).2
    rewire := classify (rootOf merges) (survTargets survRows) [] unique }

/-! ## Writing -/

/-- `text or default` -/
def orDefault (text : Option String) (default : String) : String :=
  (text.filter (· ≠ "")).getD default

/-- `str(text) if text else None` -/
def orNone (text : Option String) : Option String := text.filter (· ≠ "")

/-- `_delete_mentions_by_uuid` -/
def deleteMentionsByUuid (uuids : List String) : Cypher ℤ :=
  if uuids.isEmpty then return 0
  else do
    let before ← query .countMentions
    let _ ← query (.deleteMentions uuids)
    let after ← query .countMentions
    return (before : ℤ) - after

/-- What one turn of the rewire loop counts. -/
structure Turn : Type where
  created : ℕ := 0
  rewired : ℕ := 0
  errors : List String := []

/-- `counters["errors"].append("episodic-mentions-move %s: %s" % (edge_uuid, exc))` -/
def moveError (m : Rewiring) (error : String) : String :=
  "episodic-mentions-move " ++ m.edge.uuid ++ ": " ++ error

/-- One turn of the rewire loop: create on the survivor, and only then delete on the
victim. -/
def rewireRow (m : Rewiring) : Cypher Turn := do
  match ← (query (.createMention m.survivor m.edge.dst m.edge.uuid
      (orDefault m.edge.groupId "graphiti_memory") (orNone m.edge.createdAt))).attempt with
  | .error e => return { errors := [moveError m e] }
  | .ok made =>
    if made = 0 then
      return { errors := ["episodic-mentions-create " ++ m.edge.uuid ++
        ": endpoints did not match, edge kept"] }
    else
      match ← (query (.deleteMention m.edge.src m.edge.dst m.edge.uuid)).attempt with
      | .error e => return { created := 1, errors := [moveError m e] }
      | .ok _ => return { created := 1, rewired := 1 }

/-- A `MENTIONS` row in an undo row. -/
structure UndoMention : Type where
  edgeUuid : String
  srcUuid : String
  dstUuid : String
  createdAt : Option String
  groupId : String

/-- What it takes to restore a victim. -/
structure UndoRow : Type where
  victimUuid : String
  survivorUuid : String
  nodeSnapshot : Node
  mentions : List UndoMention

/-- `_build_episodic_undo_rows` -/
def buildEpisodicUndoRows (merges : List EpisodicMerge) (edges : List VictimEdge)
    (groupId : String) : Cypher (List UndoRow) :=
  if merges.isEmpty then return []
  else do
    let rows ← query (.episodicProperties (merges.map EpisodicMerge.victimUuid))
    let props : Table String Node := (rows : List Node).foldl (fun props n =>
      if n.uuidText = "" then props else props.upsert n.uuidText fun _ => n) Table.empty
    return (merges.map EpisodicMerge.victimUuid).filterMap fun victim =>
      (props.get? victim).map fun node =>
        { victimUuid := victim
          survivorUuid := ((redirectOf merges).get? victim).getD ""
          nodeSnapshot := node
          mentions := (edges.filter fun e => e.src = victim).map fun e =>
            { edgeUuid := e.uuid
              srcUuid := e.src
              dstUuid := e.dst
              createdAt := orNone e.createdAt
              groupId := orDefault e.groupId groupId } }

/-- `victims[start : start + batch] for start in range(0, len(victims), batch)` -/
def batches {α : Type} (batch : ℕ) (l : List α) : List (List α) :=
  (List.range ((l.length + batch - 1) / batch)).map fun i => (l.drop (i * batch)).take batch

/-- What one turn of the deletion loop counts. -/
structure Deletion : Type where
  deleted : ℤ := 0
  notEmpty : ℤ := 0
  errors : List String := []

/-- One turn of the deletion loop. -/
def deleteChunk (chunk : List String) : Cypher Deletion := do
  match ← (do
      let before ← query (.countEmptied chunk)
      let _ ← query (.deleteEmptied chunk)
      return before : Cypher ℕ).attempt with
  | .error e => return { errors := ["episodic-node-delete: " ++ e] }
  | .ok before => return { deleted := before, notEmpty := chunk.length - before }

/-- The counters `apply_episodic_plan` returns. -/
structure Counters : Type where
  applied : Bool
  episodicMerges : ℕ
  episodicVictims : ℕ := 0
  mentionsRewired : ℕ := 0
  mentionsMoved : ℕ := 0
  mentionsDropped : ℕ := 0
  mentionsCreated : ℕ := 0
  mentionsIntraVictimDup : ℕ := 0
  survivorDedupeDropped : ℕ := 0
  mentionsAccounted : ℕ := 0
  nodesDeleted : ℤ := 0
  victimsNotEmpty : ℤ := 0
  undoRowsWritten : ℤ := 0
  /-- `nodes_to_delete`, `mentions_to_delete` and `mentions_to_create` of a dry run -/
  dryRun : Option (ℕ × ℕ × ℕ) := none
  errors : List String := []

/-- The arguments of `apply_episodic_plan` besides the merges. -/
structure FoldArgs : Type where
  apply : Bool := false
  batch : ℕ := 200
  /-- `undo_writer`: how many rows it persisted, or what it raised -/
  undoWriter : Option (List UndoRow → Except String ℤ) := none
  groupId : String := "graphiti_memory"

/-- The end of the fold: the undo rows, and the deletion of the victims. -/
def deleteVictims (merges : List EpisodicMerge) (args : FoldArgs) (edges : List VictimEdge)
    (counters : Counters) : Cypher Counters := do
  let victims := victimsOf merges
  let built ← (buildEpisodicUndoRows merges edges args.groupId).attempt
  let undoRows := built.toOption.getD []
  let counters := match built with
    | .error e => { counters with errors := counters.errors ++ ["episodic-undo-build: " ++ e] }
    | .ok _ => counters
  if undoRows.length < victims.length then
    return { counters with
      errors := counters.errors ++ ["episodic-undo: only " ++ toString undoRows.length ++
        " undo rows for " ++ toString victims.length ++ " victims — nodes NOT deleted"]
      victimsNotEmpty := victims.length }
  else
    match args.undoWriter with
    | none => return { counters with
        errors := counters.errors ++
          ["episodic-undo: no undo_writer supplied — nodes NOT deleted"]
        victimsNotEmpty := victims.length }
    | some writer =>
      let result := writer undoRows
      let written := result.toOption.getD 0
      let counters := { counters with
        undoRowsWritten := written
        errors := match result with
          | .error e => counters.errors ++ ["episodic-undo-write: " ++ e]
          | .ok _ => counters.errors }
      if written < victims.length then
        return { counters with
          errors := counters.errors ++ ["episodic-undo: wrote " ++ toString written ++ " of " ++
            toString victims.length ++ " undo rows — nodes NOT deleted"]
          victimsNotEmpty := victims.length }
      else if args.batch = 0 then
        Prog.fail "range() arg 3 must not be zero"
      else
        let turns ← Prog.forEach deleteChunk (batches args.batch victims)
        return { counters with
          nodesDeleted := (turns.map Deletion.deleted).sum
          victimsNotEmpty := (turns.map Deletion.notEmpty).sum
          errors := counters.errors ++ turns.flatMap Deletion.errors }

/-- The numbers of the plan, which a dry run reports. -/
def Counters.planned (counters : Counters) (plan : RewirePlan) (errors : List String) : Counters :=
  { counters with
    mentionsRewired := plan.edges.length
    mentionsMoved := plan.rewire.toCreate.length
    mentionsDropped := plan.rewire.toDrop.length
    mentionsCreated := plan.rewire.toCreate.length
    mentionsIntraVictimDup := plan.dups.length
    survivorDedupeDropped := plan.rewire.survivorDedupe.length
    mentionsAccounted := plan.edges.length
    errors := errors ++ plan.rewire.errors }

/-- Phases B, A and C, and D. -/
def writeRewire (merges : List EpisodicMerge) (args : FoldArgs) (plan : RewirePlan)
    (counters : Counters) : Cypher Counters := do
  -- phase B
  let dropped ← (deleteMentionsByUuid
    (plan.rewire.toDrop ++ plan.rewire.survivorDedupe ++ plan.dups)).attempt
  let dropErrors := match dropped with
    | .error e => ["episodic-mentions-drop: " ++ e]
    | .ok _ => []
  -- phases A and C
  let turns ← Prog.forEach rewireRow plan.rewire.toCreate
  let counters := { counters with
    mentionsMoved := (turns.map Turn.rewired).sum
    mentionsCreated := (turns.map Turn.created).sum
    errors := counters.errors ++ dropErrors ++ turns.flatMap Turn.errors }
  -- phase D
  deleteVictims merges args plan.unique counters

/-- `apply_episodic_plan` -/
def applyEpisodicPlan (merges : List EpisodicMerge) (args : FoldArgs) : Cypher Counters := do
  let counters : Counters := { applied := args.apply, episodicMerges := merges.length }
  if merges.isEmpty then
    return counters
  else
    let victims := victimsOf merges
    let counters := { counters with episodicVictims := victims.length }
    match ← (query (.mentionsFrom victims)).attempt with
    | .error e => return { counters with errors := ["episodic-mentions-read: " ++ e] }
    | .ok (mentRows : List MentionRow) =>
      if mentRows.isEmpty then
        return { counters with
          errors := ["episodic-mentions-read: 0 rows for " ++ toString victims.length ++
            " victims — refusing to delete nodes whose edges were never seen"] }
      else
        let survRead ← (query (.mentionsFrom (survivorsOf merges))).attempt
        let survRows : List MentionRow := survRead.toOption.getD []
        let readErrors := match survRead with
          | .error e => ["episodic-survivor-read: " ++ e]
          | .ok _ => []
        let plan := planRewire merges mentRows survRows
        let counters := counters.planned plan (readErrors ++ unresolvedErrors mentRows)
        if !args.apply then
          return { counters with
            dryRun := some (victims.length,
              plan.rewire.toDrop.length + plan.rewire.survivorDedupe.length,
              plan.rewire.toCreate.length) }
        else
          writeRewire merges args plan counters

/-- The episodic half of a nightly run: read, plan, apply. -/
def refold (sha1 : String → String) (gid : String) (args : FoldArgs) :
    Cypher (Option Counters) := do
  match ← (query (.episodics gid)).attempt with
  | .error _ => return none
  | .ok (episodics : List Node) =>
    let counters ← applyEpisodicPlan (planEpisodicExactDups sha1 episodics) args
    return some counters

end JanusGraph
