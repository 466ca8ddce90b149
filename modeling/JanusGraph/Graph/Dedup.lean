import JanusGraph.Graph.Fold

/-!
# Planning the entity merges

`plan_dedup` of `pipeline/dedup.py`: entities with one name whose summaries resemble
each other enough fold into one another, the best pair first, until no pair of the name
is left. Then it predicts what becomes of the edges. Scores are Python floats; what is
used of them is a linear order, a quotient and `round`.
-/

namespace JanusGraph

/-- What the planner takes from Python. -/
structure Scoring (Score : Type) : Type where
  /-- `m / n` -/
  div : ℕ → ℕ → Score
  /-- `round(x, 4)` -/
  round4 : Score → Score
  /-- `0.0` -/
  zero : Score
  /-- `1.0` -/
  one : Score
  /-- `text.lower()` -/
  lower : String → String
  /-- `str(v)` -/
  py : Builtins

variable {Score : Type} (scoring : Scoring Score)

/-- `[a-z0-9_]` -/
def isWordChar (c : Char) : Bool :=
  ('a' ≤ c && c ≤ 'z') || ('0' ≤ c && c ≤ '9') || c = '_'

/-- `tokenize` -/
def tokenize (text : Option String) : Finset String :=
  ((((scoring.lower (text.getD "")).toList.splitOnP fun c => !isWordChar c).filter
    (· ≠ [])).map String.ofList).toFinset

/-- `jaccard` -/
def jaccard (a b : Finset String) : Score :=
  if a = ∅ ∧ b = ∅ then scoring.one
  else if a ∪ b = ∅ then scoring.one
  else scoring.div (a ∩ b).card (a ∪ b).card

/-- An entity of the snapshot. -/
structure EntityRecord : Type where
  uuid : Option String
  name : Option String
  summary : Option String
  createdAt : Option String
  deriving DecidableEq

/-- What the planner reads of a `MENTIONS` edge of the snapshot. -/
structure MentionRecord : Type where
  srcUuid : Option String
  dstUuid : Option String

/-- What the planner reads of a `RELATES_TO` edge of the snapshot. -/
structure RelationRecord : Type where
  srcUuid : Option String
  dstUuid : Option String
  fact : Value

/-- `Merge` -/
structure Merge (Score : Type) : Type where
  name : String
  survivorUuid : String
  victimUuid : String
  similarity : Score
  survivorSummaryLen : ℕ
  victimSummaryLen : ℕ

/-- `DedupPlan`, without the counters of the episodic half, which the planner leaves
alone. -/
structure DedupPlan (Score : Type) : Type where
  merges : List (Merge Score) := []
  clustersScanned : ℕ := 0
  duplicateNameNodes : ℕ := 0
  mentionsToRedirect : ℕ := 0
  relationsToRedirect : ℕ := 0
  mentionsToDrop : ℕ := 0
  relationsToDrop : ℕ := 0
  selfLoopsDropped : ℕ := 0
  nodesToDelete : ℕ := 0
  summaryCharsSaved : ℕ := 0
  threshold : Score
  maxObservedSimilarity : Score
  mergeableClusters : ℕ := 0

/-- `total_relations_removed` -/
def DedupPlan.totalRelationsRemoved (plan : DedupPlan Score) : ℕ :=
  plan.relationsToDrop + plan.selfLoopsDropped

/-- `len(summary or "")` -/
def EntityRecord.summaryLen (n : EntityRecord) : ℕ := (n.summary.getD "").length

/-- `str(node.get("uuid"))` -/
def EntityRecord.uuidText (n : EntityRecord) : String := n.uuid.getD "None"

/-- The order of `_pick_survivor`: longest summary, then `created_at`, then `uuid`. -/
def EntityRecord.before (a b : EntityRecord) : Prop :=
  b.summaryLen < a.summaryLen ∨ a.summaryLen = b.summaryLen ∧
    (a.createdAt.getD "" < b.createdAt.getD "" ∨ a.createdAt.getD "" = b.createdAt.getD "" ∧
      a.uuid.getD "" ≤ b.uuid.getD "")

instance : DecidableRel EntityRecord.before := fun a b => by
  unfold EntityRecord.before
  infer_instance

/-- `_pick_survivor([a, b])`, and the other one -/
def pickSurvivor (a b : EntityRecord) : EntityRecord × EntityRecord :=
  if a.before b then (a, b) else (b, a)

/-- The pairs `i < j` of a list, in the order of the two loops. -/
def pairsOf {α : Type} : List α → List (α × α)
  | [] => []
  | a :: l => l.map (fun b => (a, b)) ++ pairsOf l

section

variable [LinearOrder Score]

/-- The best pair so far, with its score. -/
abbrev Best (Score : Type) : Type := Option (Score × EntityRecord × EntityRecord)

/-- One turn of the loops over pairs: the highest score seen, and the best pair. -/
def scorePair (threshold : Score) (seen : Score × Best Score) (pair : EntityRecord × EntityRecord) :
    Score × Best Score :=
  let score := jaccard scoring (tokenize scoring pair.1.summary) (tokenize scoring pair.2.summary)
  (if seen.1 < score then score else seen.1,
    if threshold ≤ score ∧ seen.2.all (fun best => best.1 < score) then some (score, pair)
    else seen.2)

/-- What the loop over the clusters has done so far. -/
structure Clustering (Score : Type) : Type where
  /-- `victims` -/
  victims : Table String String
  plan : DedupPlan Score

/-- `while len(remaining) > 1`, with fuel for as many turns as there are nodes: each turn
takes one away. -/
def mergeCluster (name : String) : ℕ → List EntityRecord → Clustering Score → Clustering Score
  | 0, _, c => c
  | fuel + 1, remaining, c =>
    if remaining.length ≤ 1 then c
    else
      let seen := (pairsOf remaining).foldl (scorePair scoring c.plan.threshold)
        (c.plan.maxObservedSimilarity, none)
      let plan := { c.plan with maxObservedSimilarity := seen.1 }
      match seen.2 with
      | none => { c with plan }
      | some (score, a, b) =>
        let plan := { plan with mergeableClusters := plan.mergeableClusters + 1 }
        let keeper := (pickSurvivor a b).1
        let loser := (pickSurvivor a b).2
        if keeper.uuidText = loser.uuidText then { c with plan }
        else
          mergeCluster name fuel (remaining.filter fun n => n.uuidText ≠ loser.uuidText)
            { victims := c.victims.upsert loser.uuidText fun _ => keeper.uuidText
              plan := { plan with
                merges := plan.merges ++ [
                  { name
                    survivorUuid := keeper.uuidText
                    victimUuid := loser.uuidText
                    similarity := scoring.round4 score
                    survivorSummaryLen := keeper.summaryLen
                    victimSummaryLen := loser.summaryLen }] } }

/-- `by_name` -/
def byName (entities : List EntityRecord) : Table String (List EntityRecord) :=
  entities.foldl (fun groups n => groups.upsert (n.name.getD "") fun nodes => nodes.getD [] ++ [n])
    Table.empty

/-- The loop over the clusters. -/
def mergeClusters (threshold : Score) (entities : List EntityRecord) : Clustering Score :=
  (byName entities).rows.foldl (fun c group =>
    if group.2.length < 2 then c
    else mergeCluster scoring group.1 group.2.length group.2
      { c with plan := { c.plan with
          clustersScanned := c.plan.clustersScanned + 1
          duplicateNameNodes := c.plan.duplicateNameNodes + group.2.length } })
    ⟨Table.empty, { threshold, maxObservedSimilarity := scoring.zero }⟩

end

/-- `_collisions` -/
def collisions {E K : Type} [DecidableEq K] (edges : List E) (key : E → K) (touched : E → Bool) :
    ℕ :=
  let groups : Table K (List E) := edges.foldl
    (fun groups e => groups.upsert (key e) fun group => group.getD [] ++ [e]) Table.empty
  (groups.rows.map fun group =>
    if group.2.length < 2 then 0
    else if group.2.any touched then group.2.length - 1
    else 0).sum

section

variable (redirect : Table String String)

/-- `redirect.get(uuid, uuid)`, when `redirect` already holds roots -/
def redirected (uuid : Option String) : String :=
  (redirect.get? (uuid.getD "")).getD (uuid.getD "")

/-- `uuid in redirect` -/
def isRedirected (uuid : Option String) : Bool := (redirect.get? (uuid.getD "")).isSome

/-- `_ment_key` -/
def mentKey (men : MentionRecord) : String × String :=
  (men.srcUuid.getD "", redirected redirect men.dstUuid)

/-- `_ment_touched` -/
def mentTouched (men : MentionRecord) : Bool := isRedirected redirect men.dstUuid

/-- `str(fact or "")` -/
def factText (py : Builtins) (fact : Value) : String := if fact.truthy then py.text fact else ""

/-- Both ends fold into one. -/
def isLoop (rel : RelationRecord) : Bool :=
  redirected redirect rel.srcUuid = redirected redirect rel.dstUuid

/-- `_rel_key` -/
def relKey (py : Builtins) (rel : RelationRecord) : String × String × String :=
  if isLoop redirect rel then ("__self_loop__", rel.srcUuid.getD "", rel.dstUuid.getD "")
  else (redirected redirect rel.srcUuid, redirected redirect rel.dstUuid, factText py rel.fact)

/-- `_rel_touched` -/
def relTouched (rel : RelationRecord) : Bool :=
  isRedirected redirect rel.srcUuid || isRedirected redirect rel.dstUuid

end

/-- `plan_dedup`. The two loops whose counts are overwritten before it returns are left
out. -/
def planDedup [LinearOrder Score] (entities : List EntityRecord) (mentions : List MentionRecord)
    (relations : List RelationRecord) (threshold : Score) : DedupPlan Score :=
  let c := mergeClusters scoring threshold entities
  let redirect := rootMap c.victims
  { c.plan with
    nodesToDelete := c.victims.rows.length
    mentionsToRedirect := mentions.countP (mentTouched redirect)
    relationsToRedirect := relations.countP (relTouched redirect)
    mentionsToDrop := collisions mentions (mentKey redirect) (mentTouched redirect)
    selfLoopsDropped := relations.countP fun rel => relTouched redirect rel && isLoop redirect rel
    relationsToDrop := collisions relations (relKey redirect scoring.py) (relTouched redirect)
    summaryCharsSaved := (c.plan.merges.map Merge.victimSummaryLen).sum }

end JanusGraph
