import JanusGraph.Lib.Prog
import JanusGraph.Lib.Python
import JanusGraph.Lib.Table

/-!
# The memory graph and its queries

What `pipeline/dedup_apply.py` sees of FalkorDB: nodes with a label, `MENTIONS`,
`RELATES_TO` and other edges between them, and the queries it sends. FalkorDB has no
transaction, so each query is a step of its own. Two things are left to the server:
the order in which it returns and collects what it matches, and whether a query
raises, in which case it has not been executed.

The properties of nodes and of `MENTIONS` are texts or missing. A `MENTIONS` edge
always has its `uuid`, as the module docstring of the source has measured; a node need
not have one. A `RELATES_TO` edge has any properties.
-/

namespace JanusGraph

/-- Whether a uuid is in a list of uuids is decided by this. -/
instance instLawfulBEqUuid : LawfulBEq (Option String) := Option.instLawfulBEq String

/-- The label of a node. -/
inductive NodeLabel : Type where
  | episodic | entity
  | other (name : String)
  deriving DecidableEq

/-- A node with its property map. -/
structure Node : Type where
  label : NodeLabel
  uuid : Option String
  name : Option String
  content : Option String
  summary : Option String
  createdAt : Option String
  groupId : Option String
  deriving DecidableEq

/-- A `MENTIONS` edge between two nodes, given by their internal ids. -/
structure Mention : Type where
  src : ℕ
  dst : ℕ
  uuid : String
  groupId : Option String
  createdAt : Option String
  deriving DecidableEq

/-- A `RELATES_TO` edge with its property map; a property is never null. -/
structure Relation : Type where
  src : ℕ
  dst : ℕ
  props : Table String Value

/-- `e.key` -/
def Relation.prop (e : Relation) (key : String) : Value := (e.props.get? key).getD .null

/-- An edge of another type. -/
structure OtherEdge : Type where
  type : String
  src : ℕ
  dst : ℕ
  deriving DecidableEq

/-- The graph. -/
@[ext] structure Graph : Type where
  nodes : Table ℕ Node
  mentions : List Mention
  relations : List Relation
  others : List OtherEdge
  /-- no edge without its nodes -/
  attached : (∀ e ∈ mentions, (nodes.get? e.src).isSome ∧ (nodes.get? e.dst).isSome) ∧
    (∀ e ∈ relations, (nodes.get? e.src).isSome ∧ (nodes.get? e.dst).isSome) ∧
    ∀ e ∈ others, (nodes.get? e.src).isSome ∧ (nodes.get? e.dst).isSome

namespace Graph

/-- The node `i`, if it has the label. -/
def labelled (g : Graph) (label : NodeLabel) (i : ℕ) : Option Node :=
  (g.nodes.get? i).filter fun n => n.label = label

/-- `(:Label {uuid: $uuid})`: the internal ids of the nodes it matches. -/
def withUuid (g : Graph) (label : NodeLabel) (uuid : String) : List ℕ :=
  (g.nodes.rows.filter fun r => r.2.label = label ∧ r.2.uuid = some uuid).map Prod.fst

end Graph

/-- A row of `_VICTIM_MENTIONS_Q` and `_SURVIVOR_MENTIONS_Q`. -/
structure MentionRow : Type where
  edgeUuid : String
  srcUuid : Option String
  dstUuid : Option String
  createdAt : Option String
  groupId : Option String
  deriving DecidableEq

/-- A row of the read of phase B of `apply_plan`. -/
structure RelationRow : Type where
  edgeUuid : Value
  srcUuid : Option String
  dstUuid : Option String
  fact : Value
  createdAt : Value
  episodes : Value
  validAt : Value
  referenceTime : Value
  name : Value

/-- The queries of the two passes. -/
inductive Query : Type where
  /-- `_EPISODIC_Q` -/
  | episodics (gid : String)
  /-- `_VICTIM_MENTIONS_Q` and `_SURVIVOR_MENTIONS_Q` -/
  | mentionsFrom (sources : List String)
  /-- `MATCH ()-[e:MENTIONS]->() RETURN count(e)` -/
  | countMentions
  /-- `MATCH ()-[e:MENTIONS]->() WHERE e.uuid IN $uus DELETE e` -/
  | deleteMentions (uuids : List String)
  /-- `MATCH (s:Episodic {uuid: $src}), (t:Entity {uuid: $dst}) CREATE (s)-[e:MENTIONS
  {uuid: $eu, group_id: $gid, created_at: $ca}]->(t) RETURN count(*)` -/
  | createMention (src dst eu gid : String) (createdAt : Option String)
  /-- `MATCH (:Episodic {uuid: $src})-[e:MENTIONS]->(:Entity {uuid: $dst}) WHERE e.uuid =
  $eu DELETE e` -/
  | deleteMention (src dst eu : String)
  /-- `MATCH (v:Episodic) WHERE v.uuid IN $victims RETURN v.uuid, properties(v)` -/
  | episodicProperties (victims : List String)
  /-- `MATCH (v:Episodic) WHERE v.uuid IN $victims AND NOT (v)-[:MENTIONS]->() RETURN
  count(v)` -/
  | countEmptied (victims : List String)
  /-- `MATCH (v:Episodic) WHERE v.uuid IN $victims AND NOT (v)-[:MENTIONS]->() DETACH
  DELETE v` -/
  | deleteEmptied (victims : List String)
  /-- `MATCH (s:Episodic)-[e:MENTIONS]->(v:Entity) WHERE v.uuid IN $victims RETURN …` -/
  | mentionsTo (victims : List String)
  /-- `MATCH (a:Entity)-[e:RELATES_TO]->(b:Entity) WHERE a.uuid IN $victims OR b.uuid IN
  $victims RETURN …` -/
  | relationsTouching (victims : List String)
  /-- `MATCH (s:Entity {uuid: $s2}), (t:Entity {uuid: $d2}) CREATE (s)-[e:RELATES_TO
  {…}]->(t)` -/
  | createRelation (src dst : String) (props : List (String × Value))
  /-- `MATCH (:Entity {uuid: $s})-[e:RELATES_TO]->(:Entity {uuid: $d}) WHERE e.uuid = $eu
  DELETE e` -/
  | deleteRelation (src dst : Option String) (eu : Value)
  /-- `MATCH (a:Entity)-[e:RELATES_TO]->(b:Entity) WITH a.uuid AS s, b.uuid AS t, e.fact AS
  f, collect(e.uuid) AS ids … WHERE size(ids) > 1 RETURN sum(size(ids) - 1)` -/
  | countDuplicates
  /-- `MATCH (a:Entity)-[e:RELATES_TO]->(b:Entity) WITH a.uuid AS s, b.uuid AS t, e.fact AS
  f, collect(e) AS es WHERE size(es) > 1 FOREACH (x IN es[1..] | DELETE x)` -/
  | deleteDuplicates
  /-- `MATCH (v:Entity) WHERE v.uuid IN $victims AND NOT (v)--() RETURN count(v)` -/
  | countDetached (victims : List String)
  /-- `MATCH (v:Entity) WHERE v.uuid IN $victims AND NOT (v)--() DETACH DELETE v` -/
  | deleteDetached (victims : List String)

/-- What a query returns. -/
abbrev Query.Result : Query → Type
  | .episodics _ => List Node
  | .mentionsFrom _ => List MentionRow
  | .countMentions => ℕ
  | .deleteMentions _ => Unit
  | .createMention .. => ℕ
  | .deleteMention .. => Unit
  | .episodicProperties _ => List Node
  | .countEmptied _ => ℕ
  | .deleteEmptied _ => Unit
  | .mentionsTo _ => List MentionRow
  | .relationsTouching _ => List RelationRow
  | .createRelation .. => Unit
  | .deleteRelation .. => Unit
  | .countDuplicates => ℕ
  | .deleteDuplicates => Unit
  | .countDetached _ => ℕ
  | .deleteDetached _ => Unit

namespace Graph

/-- The row of a matched edge. -/
def mentionRow (g : Graph) (e : Mention) : Option MentionRow :=
  match g.labelled .episodic e.src, g.labelled .entity e.dst with
  | some s, some t => some ⟨e.uuid, s.uuid, t.uuid, e.createdAt, e.groupId⟩
  | _, _ => none

/-- `MATCH (s:Episodic)-[e:MENTIONS]->(t:Entity) WHERE …` -/
def mentionRows (g : Graph) (p : MentionRow → Bool) : List MentionRow :=
  (g.mentions.filterMap g.mentionRow).filter p

/-- `MATCH (n:Episodic) WHERE …` -/
def episodicNodes (g : Graph) (p : Node → Bool) : List Node :=
  (g.nodes.rows.map Prod.snd).filter fun n => n.label = .episodic ∧ p n

/-- Keep the edges that satisfy `p`. -/
def keepMentions (g : Graph) (p : Mention → Bool) : Graph :=
  { g with
    mentions := g.mentions.filter p
    attached := ⟨fun e he => g.attached.1 e (List.mem_of_mem_filter he), g.attached.2⟩ }

/-- The edges a `CREATE` makes, one for each pair of matched nodes. -/
def created (g : Graph) (src dst eu gid : String) (createdAt : Option String) : List Mention :=
  (g.withUuid .episodic src).flatMap fun s =>
    (g.withUuid .entity dst).map fun t => ⟨s, t, eu, some gid, createdAt⟩

theorem isSome_of_mem_withUuid {g : Graph} {label : NodeLabel} {uuid : String} {i : ℕ}
    (h : i ∈ g.withUuid label uuid) : (g.nodes.get? i).isSome := by
  obtain ⟨⟨i, n⟩, hmem, rfl⟩ := List.mem_map.mp h
  rw [Table.mem_rows.mp (List.mem_of_mem_filter hmem)]
  rfl

/-- The graph after a `CREATE`. -/
def create (g : Graph) (src dst eu gid : String) (createdAt : Option String) : Graph :=
  { g with
    mentions := g.mentions ++ g.created src dst eu gid createdAt
    attached := by
      refine ⟨fun e he => ?_, g.attached.2⟩
      rcases List.mem_append.mp he with he | he
      · exact g.attached.1 e he
      · obtain ⟨s, hs, he⟩ := List.mem_flatMap.mp he
        obtain ⟨t, ht, rfl⟩ := List.mem_map.mp he
        exact ⟨isSome_of_mem_withUuid hs, isSome_of_mem_withUuid ht⟩ }

/-- The edge matches `(:Episodic {uuid: $src})-[e:MENTIONS]->(:Entity {uuid: $dst}) WHERE
e.uuid = $eu`. -/
def matchesMention (g : Graph) (src dst eu : String) (e : Mention) : Bool :=
  e.uuid = eu ∧ (g.labelled .episodic e.src).any (fun s => s.uuid = some src) ∧
    (g.labelled .entity e.dst).any fun t => t.uuid = some dst

/-- The graph without the nodes `p` picks, and whatever edges touch them. -/
def removeNodes (g : Graph) (p : ℕ → Node → Bool) : Graph :=
  let stays := fun i => (g.nodes.get? i).any fun n => !p i n
  have hstays : ∀ i, stays i = true → ((g.nodes.filter fun i n => !p i n).get? i).isSome := by
    intro i hi
    obtain ⟨n, hn, hp⟩ := (Option.any_eq_true _ _).mp hi
    rw [Table.get?_filter, hn, Option.filter_some, if_pos hp]
    rfl
  { nodes := g.nodes.filter fun i n => !p i n
    mentions := g.mentions.filter fun e => stays e.src && stays e.dst
    relations := g.relations.filter fun e => stays e.src && stays e.dst
    others := g.others.filter fun e => stays e.src && stays e.dst
    attached := by
      simp only [List.mem_filter, Bool.and_eq_true]
      exact ⟨fun e he => ⟨hstays _ he.2.1, hstays _ he.2.2⟩,
        fun e he => ⟨hstays _ he.2.1, hstays _ he.2.2⟩,
        fun e he => ⟨hstays _ he.2.1, hstays _ he.2.2⟩⟩ }

/-- An episode of the list that mentions nothing. -/
def emptied (g : Graph) (victims : List String) (i : ℕ) (n : Node) : Bool :=
  n.label = .episodic ∧ n.uuid ∈ victims.map some ∧ g.mentions.all fun e => e.src ≠ i

/-! ## Entities and their relations -/

/-- The row of a matched edge. -/
def relationRow (g : Graph) (e : Relation) : Option RelationRow :=
  match g.labelled .entity e.src, g.labelled .entity e.dst with
  | some a, some b => some
    { edgeUuid := e.prop "uuid"
      srcUuid := a.uuid
      dstUuid := b.uuid
      fact := e.prop "fact"
      createdAt := e.prop "created_at"
      episodes := e.prop "episodes"
      validAt := e.prop "valid_at"
      referenceTime := e.prop "reference_time"
      name := e.prop "name" }
  | _, _ => none

/-- `MATCH (a:Entity)-[e:RELATES_TO]->(b:Entity) WHERE …` -/
def relationRows (g : Graph) (p : RelationRow → Bool) : List RelationRow :=
  (g.relations.filterMap g.relationRow).filter p

/-- A stored uuid as a planner takes it: a falsy one is none. -/
def endText (py : Builtins) (v : Value) : Option String :=
  if v.truthy then some (py.text v) else none

/-- `src = rec[1] or rec[2]` and `dst = rec[2] or rec[1]`, of the ends that an edge has stored -/
def storedEnds (py : Builtins) (source target : Value) : Option String × Option String :=
  (endText py (if source.truthy then source else target),
    endText py (if target.truthy then target else source))

/-- A property map as it is stored: a null is no property. -/
def storedProps (props : List (String × Value)) : Table String Value :=
  props.foldl (fun stored kv => if kv.2 = .null then stored else stored.upsert kv.1 fun _ => kv.2)
    Table.empty

/-- The edges a `CREATE` makes, one for each pair of matched nodes. -/
def createdRelations (g : Graph) (src dst : String) (props : List (String × Value)) :
    List Relation :=
  (g.withUuid .entity src).flatMap fun s =>
    (g.withUuid .entity dst).map fun t => ⟨s, t, storedProps props⟩

/-- The graph after a `CREATE`. -/
def createRelation (g : Graph) (src dst : String) (props : List (String × Value)) : Graph :=
  { g with
    relations := g.relations ++ g.createdRelations src dst props
    attached := by
      refine ⟨g.attached.1, fun e he => ?_, g.attached.2.2⟩
      rcases List.mem_append.mp he with he | he
      · exact g.attached.2.1 e he
      · obtain ⟨s, hs, he⟩ := List.mem_flatMap.mp he
        obtain ⟨t, ht, rfl⟩ := List.mem_map.mp he
        exact ⟨isSome_of_mem_withUuid hs, isSome_of_mem_withUuid ht⟩ }

/-- Keep the relations of a list. -/
def withRelations (g : Graph) (relations : List Relation) (h : ∀ e ∈ relations, e ∈ g.relations) :
    Graph :=
  { g with
    relations := relations
    attached := ⟨g.attached.1, fun e he => g.attached.2.1 e (h e he), g.attached.2.2⟩ }

/-- The edge matches `(:Entity {uuid: $s})-[e:RELATES_TO]->(:Entity {uuid: $d}) WHERE e.uuid =
$eu`; a null matches nothing. -/
def matchesRelation (g : Graph) (src dst : Option String) (eu : Value) (e : Relation) : Bool :=
  eu ≠ .null ∧ e.prop "uuid" = eu ∧ src.isSome ∧ dst.isSome ∧
    (g.labelled .entity e.src).any (fun a => a.uuid = src) ∧
    (g.labelled .entity e.dst).any fun b => b.uuid = dst

/-- What Phase C groups the relations by: the uuids of both ends, and the fact. -/
def relationGroup (g : Graph) (e : Relation) : Option (Option String × Option String × Value) :=
  (g.relationRow e).map fun row => (row.srcUuid, row.dstUuid, row.fact)

/-- How many relations a list holds beyond the first of each group. -/
def duplicates (g : Graph) (relations : List Relation) : ℕ :=
  (relations.filterMap g.relationGroup).length - (relations.filterMap g.relationGroup).dedup.length

/-- The first relation of each group, and those that are in none. -/
def firstOfGroups (g : Graph) : List Relation → List (Option String × Option String × Value) →
    List Relation
  | [], _ => []
  | e :: es, seen =>
    match g.relationGroup e with
    | none => e :: g.firstOfGroups es seen
    | some group =>
      if group ∈ seen then g.firstOfGroups es seen else e :: g.firstOfGroups es (group :: seen)

theorem firstOfGroups_sublist (g : Graph) (es : List Relation)
    (seen : List (Option String × Option String × Value)) :
    (g.firstOfGroups es seen).Sublist es := by
  induction es generalizing seen with
  | nil => exact List.Sublist.refl _
  | cons e es ih =>
    rw [firstOfGroups]
    split
    · exact (ih seen).cons_cons e
    · split
      · exact (ih seen).cons e
      · exact (ih _).cons_cons e

/-- An entity of the list that no edge touches. -/
def detached (g : Graph) (victims : List String) (i : ℕ) (n : Node) : Bool :=
  n.label = .entity ∧ n.uuid ∈ victims.map some ∧
    (g.mentions.all fun e => e.src ≠ i ∧ e.dst ≠ i) ∧
    (g.relations.all fun e => e.src ≠ i ∧ e.dst ≠ i) ∧
    g.others.all fun e => e.src ≠ i ∧ e.dst ≠ i

end Graph

/-- The orders a server returns and collects in. -/
structure Scan : Type 1 where
  scan : {α : Type} → List α → List α
  perm : ∀ {α : Type} (l : List α), (scan l).Perm l

/-- Execute one query. -/
def Query.exec (order : Scan) : (q : Query) → Graph → q.Result × Graph
  | .episodics gid, g => (order.scan (g.episodicNodes fun n => n.groupId = some gid), g)
  | .mentionsFrom sources, g =>
    (order.scan (g.mentionRows fun row => row.srcUuid ∈ sources.map some), g)
  | .countMentions, g => (g.mentions.length, g)
  | .deleteMentions uuids, g => ((), g.keepMentions fun e => e.uuid ∉ uuids)
  | .createMention src dst eu gid createdAt, g =>
    ((g.created src dst eu gid createdAt).length, g.create src dst eu gid createdAt)
  | .deleteMention src dst eu, g => ((), g.keepMentions fun e => !g.matchesMention src dst eu e)
  | .episodicProperties victims, g =>
    (order.scan (g.episodicNodes fun n => n.uuid ∈ victims.map some), g)
  | .countEmptied victims, g => (g.nodes.rows.countP fun r => g.emptied victims r.1 r.2, g)
  | .deleteEmptied victims, g => ((), g.removeNodes (g.emptied victims))
  | .mentionsTo victims, g =>
    (order.scan (g.mentionRows fun row => row.dstUuid ∈ victims.map some), g)
  | .relationsTouching victims, g =>
    (order.scan (g.relationRows fun row =>
      row.srcUuid ∈ victims.map some ∨ row.dstUuid ∈ victims.map some), g)
  | .createRelation src dst props, g => ((), g.createRelation src dst props)
  | .deleteRelation src dst eu, g =>
    ((), g.withRelations (g.relations.filter fun e => !g.matchesRelation src dst eu e)
      fun _ => List.mem_of_mem_filter)
  | .countDuplicates, g =>
    (g.duplicates (g.relations.filter fun e => e.prop "uuid" ≠ .null), g)
  | .deleteDuplicates, g =>
    ((), g.withRelations (g.firstOfGroups (order.scan g.relations) []) fun _ he =>
      (order.perm g.relations).mem_iff.mp ((g.firstOfGroups_sublist _ _).subset he))
  | .countDetached victims, g => (g.nodes.rows.countP fun r => g.detached victims r.1 r.2, g)
  | .deleteDetached victims, g => ((), g.removeNodes (g.detached victims))

/-- A FalkorDB server: the order in which its n-th query is answered, and whether that
query raises. -/
structure Server : Type 1 where
  scan : ℕ → Scan
  raises : ℕ → Option String

/-- A query that has been executed, with its result. -/
structure Executed : Type where
  query : Query
  result : query.Result

/-- The graph on its server. -/
structure FalkorDb : Type where
  graph : Graph
  /-- how many queries it has been sent -/
  tick : ℕ
  /-- those it has executed, oldest first -/
  log : List Executed

/-- Send one query. -/
def Server.handle (server : Server) : Handler Query (fun q => Except String q.Result) FalkorDb :=
  fun q db =>
    match server.raises db.tick with
    | some error => (.error error, { db with tick := db.tick + 1 })
    | none =>
      let r := q.exec (server.scan db.tick) db.graph
      (.ok r.1, ⟨r.2, db.tick + 1, db.log ++ [⟨q, r.1⟩]⟩)

/-- A program that queries the graph. -/
abbrev Cypher (α : Type) : Type := Prog Query (fun q => Except String q.Result) String α

/-- `_records(graph, cypher, params)` -/
def query (q : Query) : Cypher q.Result :=
  .ask q fun
    | .ok a => .ret a
    | .error e => .fail e

end JanusGraph
