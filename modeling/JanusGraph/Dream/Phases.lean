import Mathlib.Data.Int.Order.Basic
import Mathlib.Data.List.Dedup
import Mathlib.Data.List.MinMax
import Mathlib.Data.Prod.Lex
import Mathlib.Data.String.Basic
import JanusGraph.Lib.Python
import JanusGraph.Lib.Table

/-!
# What the dream phases decide

`pipeline/dream_phases.py`: the orphans Phase 3 may prune and the communities Phase 1
reports. Nothing here touches a database.

A dict is a `Table`. A set is the list of what was added to it: Python promises nothing
about the order in which it is iterated (`SetOrder`), and the functions that iterate one
take that order as an argument.
-/

namespace JanusGraph

/-! ## Snapshots -/

/-- An entity of the snapshot. -/
structure SnapshotEntity : Type where
  uuid : Option String
  name : Option String := none
  summary : Option String := none

/-- A `MENTIONS` edge of the snapshot. -/
structure SnapshotMention : Type where
  dstUuid : Option String

/-- A `RELATES_TO` edge of the snapshot, in both spellings of its ends. -/
structure SnapshotRelation : Type where
  srcUuid : Option String
  dstUuid : Option String
  sourceNodeUuid : Option String := none
  targetNodeUuid : Option String := none

/-- `str(v)` of a text that may be missing -/
def pyStr (v : Option String) : String := v.getD "None"

/-! ## Orphans -/

/-- `Orphan` -/
structure Orphan : Type where
  uuid : String
  name : String
  summary : String
  prunable : Bool
  reason : String

/-- `Orphan.summary_chars` -/
def Orphan.summaryChars (o : Orphan) : ℕ := o.summary.length

/-- `PrunePlan` -/
structure PrunePlan : Type where
  candidates : List Orphan
  protectedNodes : ℕ
  protectedChars : ℕ

/-- `PrunePlan.prunable` -/
def PrunePlan.prunable (plan : PrunePlan) : List Orphan := plan.candidates.filter Orphan.prunable

/-- `if v: out.add(str(v))` -/
def addText (out : List String) (v : Option String) : List String :=
  match v with
  | some text => if text = "" then out else out ++ [text]
  | none => out

/-- `referenced_uuids` -/
def referencedUuids (mentions : List SnapshotMention) (relations : List SnapshotRelation) :
    List String :=
  let out := mentions.foldl (fun out m => addText out m.dstUuid) []
  relations.foldl (fun out r =>
    [r.sourceNodeUuid, r.targetNodeUuid, r.srcUuid, r.dstUuid].foldl addText out) out

/-- `find_orphan_candidates` -/
def findOrphanCandidates (entities : List SnapshotEntity) (mentions : List SnapshotMention)
    (relations : List SnapshotRelation) : List Orphan :=
  let refs := referencedUuids mentions relations
  entities.filterMap fun e =>
    match e.uuid with
    | none => none
    | some uuid =>
      if uuid ∈ refs then none
      else
        let summary := e.summary.getD ""
        let name := e.name.getD ""
        if strip summary ≠ "" then
          some { uuid, name, summary, prunable := false, reason :=
            "unreferenced but holds " ++ toString summary.length ++ " chars of summary" }
        else
          some { uuid, name, summary := "", prunable := true, reason := "unreferenced and empty" }

/-- `plan_orphan_pruning` -/
def planOrphanPruning (entities : List SnapshotEntity) (mentions : List SnapshotMention)
    (relations : List SnapshotRelation) : PrunePlan :=
  let cands := findOrphanCandidates entities mentions relations
  { candidates := cands
    protectedNodes := cands.countP fun o => !o.prunable
    protectedChars := ((cands.filter fun o => !o.prunable).map Orphan.summaryChars).sum }

/-! ## Sets and dicts -/

/-- The order in which a set is iterated, given the elements that were added to it. -/
structure SetOrder : Type where
  iter : List String → List String
  nodup : ∀ adds, (iter adds).Nodup
  mem_iter : ∀ {adds x}, x ∈ iter adds ↔ x ∈ adds

/-- `sorted(l)` -/
def sorted {α : Type} [LinearOrder α] (l : List α) : List α := l.insertionSort (· ≤ ·)

/-- An adjacency dict: node to the set of its neighbours. -/
abbrev Adjacency : Type := Table String (List String)

/-- `adj[u].add(v)` and `adj[v].add(u)` -/
def connect (adj : Adjacency) (u v : String) : Adjacency :=
  (adj.modify u fun vs => vs ++ [v]).modify v fun us => us ++ [u]

/-- `sorted(adj)` -/
def nodesOf (adj : Adjacency) : List String := sorted adj.keys

theorem nodup_nodesOf (adj : Adjacency) : (nodesOf adj).Nodup :=
  (List.perm_insertionSort _ _).nodup_iff.mpr adj.nodup

variable (order : SetOrder)

/-- `for nb in adj[u]` -/
def neighbours (adj : Adjacency) (u : String) : List String := order.iter ((adj.get? u).getD [])

/-- `build_adjacency` -/
def buildAdjacency (entities : List SnapshotEntity) (relations : List SnapshotRelation) :
    Adjacency :=
  let nodes := entities.map fun ent => pyStr ent.uuid
  relations.foldl (fun adj rel =>
      let src := pyStr rel.srcUuid
      let dst := pyStr rel.dstUuid
      if src ∉ nodes ∨ dst ∉ nodes ∨ src = dst then adj else connect adj src dst)
    (Table.ofKeys (order.iter nodes) (order.nodup nodes) fun _ => [])

/-! ## Connected components -/

/-- The state of the depth-first search; the top of the stack comes first. -/
structure Traversal : Type where
  seen : List String
  stack : List String
  comp : List String

/-- `if nb not in seen: seen.add(nb); stack.append(nb)` -/
def Traversal.push (t : Traversal) (nb : String) : Traversal :=
  if nb ∈ t.seen then t else { t with seen := t.seen ++ [nb], stack := nb :: t.stack }

/-- `while stack`, for at most `fuel` turns. -/
def traverse (adj : Adjacency) : ℕ → Traversal → Traversal
  | 0, t => t
  | fuel + 1, t =>
    match t.stack with
    | [] => t
    | node :: stack =>
      traverse adj fuel ((sorted (neighbours order adj node)).foldl Traversal.push
        { t with stack, comp := t.comp ++ [node] })

/-- The key components are sorted by. -/
def componentKey (comp : List String) : ℤ ×ₗ String := toLex (-(comp.length : ℤ), comp.headD "")

/-- One turn of `for root in sorted(adj)`: what has been seen, and the components. -/
def findComponent (adj : Adjacency) (found : List String × List (List String)) (root : String) :
    List String × List (List String) :=
  if root ∈ found.1 then found
  else
    let t := traverse order adj adj.rows.length ⟨found.1 ++ [root], [root], []⟩
    (t.seen, found.2 ++ [sorted t.comp])

/-- `connected_components` -/
def connectedComponents (adj : Adjacency) : List (List String) :=
  ((nodesOf adj).foldl (findComponent order adj) ([], [])).2.insertionSort
    fun a b => componentKey a ≤ componentKey b

/-- `comp_of` -/
def componentOf (comps : List (List String)) : Table String ℕ :=
  comps.zipIdx.foldl (fun compOf comp =>
    comp.1.foldl (fun compOf node => compOf.upsert node fun _ => comp.2) compOf) Table.empty

/-! ## Label propagation -/

/-- `labels[node]` -/
def labelOf (labels : Table String ℕ) (node : String) : ℕ := (labels.get? node).getD 0

/-- `partition_hash`, for a given `sha256(…).hexdigest()` -/
def partitionHash (sha256 : String → String) (labels : Table String ℕ) : String :=
  let groups := labels.rows.foldl (fun groups item =>
    groups.upsert item.2 fun group => group.getD [] ++ [item.1])
    (Table.empty : Table ℕ (List String))
  let canonical := sorted (groups.rows.map fun group => sorted group.2)
  let blob := String.join (canonical.map fun group =>
    toString group.length ++ ":" ++ "\x1f".intercalate group)
  String.ofList ((sha256 blob).toList.take 16)

/-- `comp_of.get(node, 0)`, where a `comp_of` that is missing is all zero -/
def componentNumber (compOf : Option (Table String ℕ)) (node : String) : ℕ :=
  match compOf with
  | none => 0
  | some compOf => (compOf.get? node).getD 0

/-- `_resolve_cycle` -/
def resolveCycle (labels : Table String ℕ) (oscillating : List String)
    (compOf : Option (Table String ℕ)) : Table String ℕ :=
  let members := sorted (order.iter oscillating)
  let byComponent := members.foldl (fun groups node =>
    groups.upsert (componentNumber compOf node) fun group => group.getD [] ++ [node])
    (Table.empty : Table ℕ (List String))
  byComponent.rows.foldl (fun labels group =>
    let keeperLabel := labelOf labels (group.2.headD "")
    group.2.foldl (fun labels node => labels.upsert node fun _ => keeperLabel) labels) labels

/-- The key `min` compares the items of a tally by. -/
def tallyKey (item : ℕ × ℕ) : ℤ ×ₗ ℕ := toLex (-(item.2 : ℤ), item.1)

instance tallyOrder : Preorder (ℤ ×ₗ ℕ) := (Prod.Lex.instLinearOrder ℤ ℕ).toPreorder

/-- The labels of the neighbours that are not pinned, counted. -/
def tallyOf (adj : Adjacency) (pinned : List String) (labels : Table String ℕ) (node : String) :
    Table ℕ ℕ :=
  (neighbours order adj node).foldl (fun tally nb =>
    if nb ∈ pinned then tally
    else tally.upsert (labelOf labels nb) fun count => count.getD 0 + 1) Table.empty

/-- One round: every node reads the labels of the round before. -/
def sweep (adj : Adjacency) (pinned : List String) (labels : Table String ℕ) : Table String ℕ :=
  Table.ofKeys (nodesOf adj) (nodup_nodesOf adj) fun node =>
    if node ∈ pinned then labelOf labels node
    else
      match (tallyOf order adj pinned labels node).rows.argmin tallyKey with
      | none => labelOf labels node
      | some item => item.1

/-- The state of the rounds. At the head of a round `prev` holds what `labels` holds, and
two labellings have the same items exactly if they are the same table, since both are over
the nodes in their order. -/
structure Propagation : Type where
  labels : Table String ℕ
  seen : List (Table String ℕ)
  rounds : ℕ := 0
  oscillating : List String := []
  cycle : Bool := false
  converged : Bool := false

/-- `for rounds in range(1, max_rounds + 1)`, for the rounds that are left. -/
def propagate (adj : Adjacency) (pinned : List String) : ℕ → Propagation → Propagation
  | 0, p => p
  | left + 1, p =>
    let labels := sweep order adj pinned p.labels
    if labels = p.labels then { p with rounds := p.rounds + 1, converged := true }
    else if labels ∈ p.seen then
      { p with
        labels
        rounds := p.rounds + 1
        oscillating := (nodesOf adj).filter fun u => labelOf labels u ≠ labelOf p.labels u
        cycle := true }
    else
      propagate adj pinned left
        { p with labels, seen := labels :: p.seen, rounds := p.rounds + 1 }

/-- The symmetric adjacency `cluster_graph` works on. -/
def normalise (adj : Adjacency) : Adjacency :=
  let raw := adj.map fun _ vs => order.iter vs
  let keys := raw.keys ++ order.iter (raw.rows.flatMap fun item => order.iter item.2)
  raw.rows.foldl (fun adj item =>
      if item.1 ∉ keys then adj
      else (order.iter item.2).foldl (fun adj v =>
        if v ∈ keys ∧ item.1 ≠ v then connect adj item.1 v else adj) adj)
    (Table.ofKeys (order.iter keys) (order.nodup keys) fun _ => [])

/-- `pinned` -/
def pinnedNodes (adj : Adjacency) (minDegree : ℤ) : List String :=
  (nodesOf adj).filter fun u => ((neighbours order adj u).length : ℤ) < minDegree

/-- `labels = {u: rank[u] for u in nodes}` -/
def seedLabels (adj : Adjacency) : Table String ℕ :=
  Table.ofKeys (nodesOf adj) (nodup_nodesOf adj) fun u => (nodesOf adj).idxOf u

/-- What the rounds leave. -/
def propagated (adj : Adjacency) (minDegree maxRounds : ℤ) : Propagation :=
  propagate order adj (pinnedNodes order adj minDegree) maxRounds.toNat
    { labels := seedLabels adj, seen := [seedLabels adj] }

/-- The labels once a cycle has been resolved. -/
def finalLabels (adj : Adjacency) (minDegree maxRounds : ℤ) : Table String ℕ :=
  let p := propagated order adj minDegree maxRounds
  if p.oscillating = [] then p.labels
  else resolveCycle order p.labels p.oscillating
    (some (componentOf (connectedComponents order adj)))

/-- `ClusterResult` -/
structure ClusterResult : Type where
  nodes : ℕ
  communities : ℕ
  rounds : ℕ
  converged : Bool
  cycleDetected : Bool
  oscillatingNodes : ℕ
  pinnedNodes : ℕ
  components : ℕ
  largestComponent : ℕ
  largestCommunity : ℕ
  minDegree : ℤ
  partitionHash : String
  oversized : Bool
  deriving DecidableEq

/-- `cluster_graph` -/
def clusterGraph (sha256 : String → String) (adj : Adjacency) (minDegree : ℤ := 3)
    (maxRounds : ℤ := 1000) : ClusterResult :=
  let adj := normalise order adj
  if nodesOf adj = [] then
    { nodes := 0
      communities := 0
      rounds := 0
      converged := true
      cycleDetected := false
      oscillatingNodes := 0
      pinnedNodes := 0
      components := 0
      largestComponent := 0
      largestCommunity := 0
      minDegree
      partitionHash := partitionHash sha256 Table.empty
      oversized := false }
  else
    let comps := connectedComponents order adj
    let p := propagated order adj minDegree maxRounds
    let labels := finalLabels order adj minDegree maxRounds
    let sizes := labels.rows.foldl (fun sizes item =>
      sizes.upsert item.2 fun size => size.getD 0 + 1) (Table.empty : Table ℕ ℕ)
    let largestCommunity := (sizes.rows.map Prod.snd).foldl max 0
    let largestComponent := (comps.headD []).length
    { nodes := (nodesOf adj).length
      communities := sizes.rows.length
      rounds := p.rounds
      converged := p.converged
      cycleDetected := p.cycle
      oscillatingNodes := p.oscillating.length
      pinnedNodes := (pinnedNodes order adj minDegree).length
      components := comps.length
      largestComponent
      largestCommunity
      minDegree
      partitionHash := partitionHash sha256 labels
      oversized := decide (largestCommunity > largestComponent) }

/-- `plan_clustering` -/
def planClustering (sha256 : String → String) (entities : List SnapshotEntity)
    (relations : List SnapshotRelation) (minDegree : ℤ := 3) : ClusterResult :=
  clusterGraph order sha256 (buildAdjacency order entities relations) minDegree

/-- Sets that are iterated in the order in which their elements were added last. -/
def SetOrder.added : SetOrder where
  iter := List.dedup
  nodup := List.nodup_dedup
  mem_iter := List.mem_dedup

end JanusGraph
