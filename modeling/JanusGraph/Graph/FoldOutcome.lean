import JanusGraph.Graph.FoldRun

/-!
# The outcome of a fold

On a graph in which `MENTIONS` run from episodes to entities and the uuids tell nodes
and edges apart (`Graph.Tidy`), for merges without chains: the rows that are read, the
graph that a fold without a failing query leaves, and what it counts. A row with an empty
uuid at one end is skipped, and its victim stays.
-/

namespace JanusGraph

/-- The uuids of both ends of an edge. -/
def Graph.endsOf (g : Graph) (e : Mention) : String × String := (g.uuidAt e.src, g.uuidAt e.dst)

/-- `MENTIONS` run from episodes to entities, and uuids tell the nodes and the edges
apart. -/
structure Graph.Tidy (g : Graph) : Prop where
  episodic : g.Keyed .episodic
  entity : g.Keyed .entity
  ends : g.MentionsTyped
  uuids : (g.mentions.map Mention.uuid).Nodup

/-- Neither end of the edge has an empty uuid. -/
def Graph.resolves (g : Graph) (e : Mention) : Bool := g.uuidAt e.src ≠ "" ∧ g.uuidAt e.dst ≠ ""

/-- Every edge of the victim resolves. -/
def Graph.clears (g : Graph) (victim : String) : Bool :=
  g.mentions.all fun e => g.uuidAt e.src = victim → g.resolves e

/-- An episode has this uuid. -/
def Graph.HasEpisode (g : Graph) (uuid : String) : Prop :=
  ∃ i n, g.labelled .episodic i = some n ∧ n.uuid = some uuid

/-- The merges are without chains, between episodes of the graph. -/
structure Graph.Foldable (g : Graph) (merges : List EpisodicMerge) : Prop where
  direct : Direct merges
  named : ∀ m ∈ merges, m.victimUuid ≠ ""
  victim : ∀ m ∈ merges, g.HasEpisode m.victimUuid
  survivor : ∀ m ∈ merges, g.HasEpisode m.survivorUuid

section

variable {g : Graph} {label : NodeLabel}

theorem Graph.Keyed.uuid_eq (hkeyed : g.Keyed label) {i : ℕ} {n : Node}
    (hi : g.labelled label i = some n) : n.uuid = some (g.uuidAt i) := by
  obtain ⟨u, hu⟩ := hkeyed.named hi
  rw [uuidAt_eq hi hu, hu]

/-- What is planned for episodes of the graph can be folded. -/
theorem Graph.Keyed.foldable (hkeyed : g.Keyed .episodic) (sha1 : String → String)
    {episodics : List Node}
    (hin : ∀ n ∈ episodics, ∃ i, g.labelled .episodic i = some n) :
    g.Foldable (planEpisodicExactDups sha1 episodics) where
  direct := by
    refine direct_planEpisodicExactDups sha1 fun n hn n' hn' heq => ?_
    obtain ⟨i, hi⟩ := hin n hn
    obtain ⟨j, hj⟩ := hin n' hn'
    obtain rfl := hkeyed.inj hi hj heq
    exact Option.some.inj (hi.symm.trans hj)
  named m hm := by
    obtain ⟨-, -, -, -, -, hne, -⟩ := of_mem_planEpisodicExactDups hm
    exact hne
  victim m hm := by
    obtain ⟨v, hv, -, -, huuid, -⟩ := of_mem_planEpisodicExactDups hm
    obtain ⟨i, hi⟩ := hin v hv
    exact ⟨i, v, hi, huuid⟩
  survivor m hm := by
    obtain ⟨v, -, k, hk, -, -, -, huuid⟩ := of_mem_planEpisodicExactDups hm
    obtain ⟨i, hi⟩ := hin k (List.mem_of_mem_filter (mem_of_pickEpisodicSurvivor hk))
    obtain ⟨u, hu⟩ := hkeyed.named hi
    refine ⟨i, k, hi, ?_⟩
    rw [hu, ← huuid, Node.uuidText, hu]
    rfl

/-! ## The rows -/

/-- The row of an edge. -/
def Graph.rowAt (g : Graph) (e : Mention) : MentionRow :=
  ⟨e.uuid, some (g.uuidAt e.src), some (g.uuidAt e.dst), e.createdAt, e.groupId⟩

/-- The row with both endpoints resolved. -/
def Graph.edgeAt (g : Graph) (e : Mention) : VictimEdge :=
  ⟨e.uuid, g.uuidAt e.src, g.uuidAt e.dst, e.createdAt, e.groupId⟩

theorem Graph.resolve_rowAt (e : Mention) :
    (g.rowAt e).resolve = if g.resolves e then some (g.edgeAt e) else none := by
  by_cases hsrc : g.uuidAt e.src = "" <;> by_cases hdst : g.uuidAt e.dst = "" <;>
    simp [MentionRow.resolve, rowAt, edgeAt, resolves, hsrc, hdst]

variable (htidy : g.Tidy)

include htidy

theorem Graph.Tidy.src_mem {e : Mention} (he : e ∈ g.mentions) :
    e.src ∈ g.withUuid .episodic (g.uuidAt e.src) := by
  obtain ⟨s, hs⟩ := Option.isSome_iff_exists.mp (htidy.ends e he).1
  exact mem_withUuid.mpr ⟨s, hs, htidy.episodic.uuid_eq hs⟩

theorem Graph.Tidy.dst_mem {e : Mention} (he : e ∈ g.mentions) :
    e.dst ∈ g.withUuid .entity (g.uuidAt e.dst) := by
  obtain ⟨t, ht⟩ := Option.isSome_iff_exists.mp (htidy.ends e he).2
  exact mem_withUuid.mpr ⟨t, ht, htidy.entity.uuid_eq ht⟩

theorem Graph.Tidy.mentionRow_eq {e : Mention} (he : e ∈ g.mentions) :
    g.mentionRow e = some (g.rowAt e) := by
  obtain ⟨s, hs⟩ := Option.isSome_iff_exists.mp (htidy.ends e he).1
  obtain ⟨t, ht⟩ := Option.isSome_iff_exists.mp (htidy.ends e he).2
  rw [mentionRow, hs, ht, rowAt, ← htidy.episodic.uuid_eq hs, ← htidy.entity.uuid_eq ht]

/-- The rows of the edges from these sources. -/
theorem Graph.Tidy.mentionRows_from (sources : List String) :
    (g.mentionRows fun row => row.srcUuid ∈ sources.map some) =
      (g.mentions.filter fun e => g.uuidAt e.src ∈ sources).map g.rowAt := by
  have hall : g.mentions.filterMap g.mentionRow = g.mentions.map g.rowAt := by
    rw [← List.filterMap_eq_map]
    exact List.filterMap_congr fun e he => htidy.mentionRow_eq he
  rw [mentionRows, hall, List.filter_map]
  congr 1
  refine List.filter_congr fun e _ => ?_
  simp [rowAt]

variable {rows : List MentionRow} {sources : List String}

/-- In whatever order the rows come, they resolve to the edges from these sources that have
uuids at both ends. -/
theorem Graph.Tidy.resolved
    (hrows : rows.Perm (g.mentionRows fun row => row.srcUuid ∈ sources.map some)) :
    (rows.filterMap MentionRow.resolve).Perm
      ((g.mentions.filter fun e => g.uuidAt e.src ∈ sources && g.resolves e).map g.edgeAt) := by
  refine (hrows.filterMap _).trans (List.Perm.of_eq ?_)
  have hresolve : MentionRow.resolve ∘ g.rowAt =
      fun e => if g.resolves e then some (g.edgeAt e) else none := by
    funext e
    exact resolve_rowAt e
  rw [htidy.mentionRows_from, List.filterMap_map, hresolve]
  generalize g.mentions = es
  induction es with
  | nil => rfl
  | cons e es ih =>
    by_cases hsrc : g.uuidAt e.src ∈ sources <;> by_cases hres : g.resolves e = true <;>
      simp [hsrc, hres, ih]

/-- The targets of the survivors that are read are those they mention. -/
theorem Graph.Tidy.mem_survTargets
    (hrows : rows.Perm (g.mentionRows fun row => row.srcUuid ∈ sources.map some))
    {p : String × String} :
    p ∈ survTargets rows ↔ ∃ e ∈ g.mentions, g.uuidAt e.src ∈ sources ∧ g.resolves e = true ∧
      g.endsOf e = p := by
  rw [survTargets, ((htidy.resolved hrows).map _).mem_iff, List.map_map, List.mem_map]
  simp only [List.mem_filter, Bool.and_eq_true, decide_eq_true_eq, and_assoc]
  rfl

/-- Edges of a tidy graph are told apart by their uuids. -/
theorem Graph.Tidy.edge_inj {e e' : Mention} (he : e ∈ g.mentions) (he' : e' ∈ g.mentions)
    (h : e.uuid = e'.uuid) : e = e' :=
  List.inj_on_of_nodup_map htidy.uuids he he' h

end

/-! ## The plan -/

section

variable {g : Graph} {merges : List EpisodicMerge}

/-- The root of a victim is the uuid of an episode that is no victim. -/
theorem Graph.Foldable.root (hfold : g.Foldable merges) {v : String} (hv : v ∈ victimsOf merges) :
    g.HasEpisode (rootOf merges v) ∧ rootOf merges v ∉ victimsOf merges := by
  obtain ⟨m, hm, rfl⟩ := mem_victimsOf.mp hv
  rw [hfold.direct.rootOf_eq hm]
  refine ⟨hfold.survivor m hm, fun hvictim => ?_⟩
  obtain ⟨m', hm', heq⟩ := mem_victimsOf.mp hvictim
  exact hfold.direct.not_victim m hm m' hm' heq.symm

/-- The edge starts at a victim, and its row resolves. -/
def Graph.taken (g : Graph) (merges : List EpisodicMerge) (e : Mention) : Bool :=
  decide (g.uuidAt e.src ∈ victimsOf merges) && g.resolves e

/-- What the plan of a fold says of the graph. -/
structure Graph.PlannedFor (g : Graph) (merges : List EpisodicMerge) (plan : RewirePlan) : Prop where
  /-- the rows are the edges of the victims -/
  edges : plan.edges.Perm ((g.mentions.filter (g.taken merges)).map g.edgeAt)
  /-- each row goes one way -/
  uuids : (plan.rewire.toDrop ++ plan.rewire.survivorDedupe ++ plan.dups ++
    plan.rewire.toCreate.map fun m => m.edge.uuid).Perm (plan.edges.map VictimEdge.uuid)
  toCreate : ∀ m ∈ plan.rewire.toCreate, m.edge ∈ plan.edges ∧
    m.survivor = rootOf merges m.edge.src

variable (htidy : g.Tidy) (hfold : g.Foldable merges) {mentRows survRows : List MentionRow}
  (hment : mentRows.Perm
    (g.mentionRows fun row => row.srcUuid ∈ (victimsOf merges).map some))

include htidy hfold hment

/-- Every row has a survivor. -/
theorem Graph.Tidy.rootOf_ne : ∀ e ∈ mentRows.filterMap MentionRow.resolve,
    rootOf merges e.src ≠ e.src := by
  intro e he heq
  rw [(htidy.resolved hment).mem_iff] at he
  obtain ⟨e₀, he₀, rfl⟩ := List.mem_map.mp he
  have hv : g.uuidAt e₀.src ∈ victimsOf merges :=
    of_decide_eq_true (Bool.and_eq_true_iff.mp (List.mem_filter.mp he₀).2).1
  exact (hfold.root hv).2 ((show rootOf merges (g.uuidAt e₀.src) = _ from heq) ▸ hv)

theorem Graph.Tidy.plannedFor : g.PlannedFor merges (planRewire merges mentRows survRows) where
  edges := htidy.resolved hment
  uuids := by
    have hunique := splitRows_perm [] (mentRows.filterMap MentionRow.resolve)
    have hclass := @classify_perm _ (rootOf merges) (survTargets survRows)
      [] fun e he => htidy.rootOf_ne hfold hment e
        ((splitRows_sublist [] (mentRows.filterMap MentionRow.resolve)).subset he)
    refine List.Perm.trans ?_ ((hclass.append_right _).trans hunique)
    simp only [planRewire, List.append_assoc]
    exact (List.perm_append_comm.append_left _).append_left _
  toCreate m hm := by
    obtain ⟨hedge, hsurvivor, -⟩ := of_mem_toCreate hm
    exact ⟨(splitRows_sublist [] _).subset hedge, hsurvivor⟩

end

/-! ## The run -/

/-- The victims that a fold can delete. -/
def Graph.cleared (g : Graph) (merges : List EpisodicMerge) : List String :=
  (victimsOf merges).filter g.clears

/-- The graph a fold leaves. -/
structure Graph.FoldedTo (g : Graph) (merges : List EpisodicMerge) (plan : RewirePlan)
    (g' : Graph) : Prop where
  nodes : g'.nodes = g.nodes.filter fun i n => !isVictim (g.cleared merges) i n
  mentions : g'.mentions = (g.mentions.filter fun e => !g.taken merges e) ++
    plan.rewire.toCreate.flatMap g.madeFor
  relations : g'.relations = g.relations.filter fun e =>
    g.stays (isVictim (g.cleared merges)) e.src && g.stays (isVictim (g.cleared merges)) e.dst
  others : g'.others = g.others.filter fun e =>
    g.stays (isVictim (g.cleared merges)) e.src && g.stays (isVictim (g.cleared merges)) e.dst

/-- Where every row resolves, all victims can be deleted. -/
theorem Graph.cleared_eq {g : Graph} {merges : List EpisodicMerge}
    (hall : ∀ e ∈ g.mentions, g.resolves e = true) : g.cleared merges = victimsOf merges :=
  List.filter_eq_self.mpr fun _ _ => List.all_eq_true.mpr fun e he =>
    decide_eq_true fun _ => hall e he

/-- The undo writer persists every row it is given. -/
def FoldArgs.Persists (args : FoldArgs) : Prop :=
  ∃ writer, args.undoWriter = some writer ∧ ∀ rows, writer rows = .ok (rows.length : ℤ)

section

variable {server : Server} (hquiet : server.Quiet) {g : Graph} {merges : List EpisodicMerge}
  {args : FoldArgs}

/-- There are no more victims than merges. -/
theorem length_victimsOf_le : (victimsOf merges).length ≤ merges.length := by
  rw [← List.length_map EpisodicMerge.victimUuid]
  refine (nodup_victimsOf.subperm fun v hv => ?_).length_le
  obtain ⟨m, hm, rfl⟩ := mem_victimsOf.mp hv
  exact List.mem_map_of_mem hm

/-- The turn that deletes what `p` picks of a batch. -/
def Deletion.of (p : String → Bool) (chunk : List String) : Deletion where
  deleted := (chunk.filter p).length
  notEmpty := chunk.length - (chunk.filter p).length

/-- What the turns count together. -/
theorem deletions_of_chunks (p : String → Bool) (chunks : List (List String)) :
    ((chunks.map (Deletion.of p)).map Deletion.deleted).sum = (chunks.flatten.filter p).length ∧
      ((chunks.map (Deletion.of p)).map Deletion.notEmpty).sum =
        chunks.flatten.length - (chunks.flatten.filter p).length ∧
      (chunks.map (Deletion.of p)).flatMap Deletion.errors = [] := by
  induction chunks with
  | nil => exact ⟨rfl, rfl, rfl⟩
  | cons c chunks ih =>
    obtain ⟨hdeleted, hnotEmpty, herrors⟩ := ih
    simp only [List.map_cons, List.sum_cons, List.flatMap_cons, hdeleted, hnotEmpty, herrors,
      List.flatten_cons, List.filter_append, List.length_append, Deletion.of, Nat.cast_add,
      List.append_nil, true_and, and_true]
    omega

/-- What the turns count when each row is created and deleted. -/
theorem turns_of_rows (rows : List Rewiring) :
    ((rows.map fun _ => ({ created := 1, rewired := 1 } : Turn)).map Turn.rewired).sum =
        rows.length ∧
      ((rows.map fun _ => ({ created := 1, rewired := 1 } : Turn)).map Turn.created).sum =
        rows.length ∧
      (rows.map fun _ => ({ created := 1, rewired := 1 } : Turn)).flatMap Turn.errors = [] := by
  induction rows with
  | nil => exact ⟨rfl, rfl, rfl⟩
  | cons m rows ih =>
    obtain ⟨hrewired, hcreated, herrors⟩ := ih
    simp only [List.map_cons, List.sum_cons, List.flatMap_cons, hrewired, hcreated, herrors,
      List.length_cons, Nat.add_comm 1, List.nil_append, and_self]

include hquiet

/-- The undo rows of all victims are written, and phase D begins. -/
theorem run_undoVictims (hvictim : ∀ m ∈ merges, m.victimUuid ≠ "" ∧ g.HasEpisode m.victimUuid)
    (hundo : args.Persists) (edges : List VictimEdge) (counters : Counters) {db : FalkorDb}
    (hdb : db.graph = g) :
    ∃ db₁, db₁.graph = g ∧ Prog.run server.handle (deleteVictims merges args edges counters) db =
      Prog.run server.handle (if args.batch = 0 then Prog.fail "range() arg 3 must not be zero"
        else do
          let turns ← Prog.forEach deleteChunk (batches args.batch (victimsOf merges))
          return { counters with
            undoRowsWritten := merges.length
            nodesDeleted := (turns.map Deletion.deleted).sum
            victimsNotEmpty := (turns.map Deletion.notEmpty).sum
            errors := counters.errors ++ turns.flatMap Deletion.errors }) db₁ := by
  obtain ⟨writer, hwriter, hall⟩ := hundo
  have hin : ∀ m ∈ merges, m.victimUuid ≠ "" ∧
      ∃ i n, db.graph.labelled .episodic i = some n ∧ n.uuid = some m.victimUuid := by
    intro m hm
    obtain ⟨hne, i, n, hn, huuid⟩ := hvictim m hm
    exact ⟨hne, i, n, hdb.symm ▸ hn, huuid⟩
  obtain ⟨rows, db₁, hbuilt, hlen, hgraph₁⟩ :=
    run_buildEpisodicUndoRows hquiet edges args.groupId hin
  have hcount := @length_victimsOf_le merges
  refine ⟨db₁, hgraph₁.trans hdb, ?_⟩
  have hattempt : Prog.run server.handle
      ((buildEpisodicUndoRows merges edges args.groupId).attempt :
        Cypher (Except String (List UndoRow))) db = (.ok (.ok rows), db₁) := by
    rw [Prog.run_attempt, hbuilt]
  have hrows : ¬ rows.length < (victimsOf merges).length := by omega
  have hwritten : ¬ (rows.length : ℤ) < (victimsOf merges).length := by omega
  rw [deleteVictims, Prog.run_bind_ok hattempt]
  simp only [Except.toOption, Option.getD_some, hwriter, hall, if_neg hrows, if_neg hwritten]
  rw [hlen]

/-- Phase D: the victims go that mention nothing any more. -/
theorem run_deleteVictims (hkeyed : g.Keyed .episodic) (htyped : g.MentionsTyped)
    (hvictim : ∀ m ∈ merges, m.victimUuid ≠ "" ∧ g.HasEpisode m.victimUuid)
    (hundo : args.Persists) (hbatch : args.batch ≠ 0) (edges : List VictimEdge)
    (counters : Counters) {db : FalkorDb} (hdb : db.graph = g) :
    ∃ db', Prog.run server.handle (deleteVictims merges args edges counters) db = (.ok
        { counters with
          nodesDeleted := ((victimsOf merges).filter g.free).length
          victimsNotEmpty := (victimsOf merges).length - ((victimsOf merges).filter g.free).length
          undoRowsWritten := merges.length }, db') ∧
      db'.graph = g.removeNodes (isVictim ((victimsOf merges).filter g.free)) := by
  obtain ⟨db₁, hgraph₁, hrun⟩ := run_undoVictims hquiet hvictim hundo edges counters hdb
  obtain ⟨db₂, hchunks, hgraph₂⟩ := run_deleteChunks hquiet hkeyed htyped nodup_victimsOf
    (fun v hv => by
      obtain ⟨m, hm, rfl⟩ := mem_victimsOf.mp hv
      exact (hvictim m hm).2)
    (flatten_batches hbatch (victimsOf merges)) hgraph₁
  refine ⟨db₂, ?_, hgraph₂⟩
  rw [hrun, if_neg hbatch, Prog.run_bind_ok hchunks]
  obtain ⟨hsum, hnotEmpty, herrors⟩ :=
    deletions_of_chunks g.free (batches args.batch (victimsOf merges))
  rw [flatten_batches hbatch] at hsum hnotEmpty
  have hturns : (fun c : List String => ({
      deleted := (c.filter g.free).length
      notEmpty := c.length - (c.filter g.free).length } : Deletion)) = Deletion.of g.free := rfl
  rw [hturns, hsum, hnotEmpty, herrors, List.append_nil]
  rfl

end

section

variable {server : Server} {g : Graph} {merges : List EpisodicMerge} {plan : RewirePlan}
  {args : FoldArgs} (htidy : g.Tidy) (hfold : g.Foldable merges) (hplan : g.PlannedFor merges plan)

include htidy hplan

omit htidy in
/-- A planned row is the row of an edge of a victim. -/
theorem Graph.PlannedFor.of_mem {e : VictimEdge} (he : e ∈ plan.edges) :
    ∃ e₀ ∈ g.mentions, g.taken merges e₀ = true ∧ g.uuidAt e₀.src ∈ victimsOf merges ∧
      g.edgeAt e₀ = e := by
  obtain ⟨e₀, he₀, rfl⟩ := List.mem_map.mp (hplan.edges.mem_iff.mp he)
  obtain ⟨he₀, htaken⟩ := List.mem_filter.mp he₀
  exact ⟨e₀, he₀, htaken, of_decide_eq_true (Bool.and_eq_true_iff.mp htaken).1, rfl⟩

/-- The uuids of the planned rows are those of the edges that are taken. -/
theorem Graph.PlannedFor.mem_uuids {e : Mention} (he : e ∈ g.mentions) :
    e.uuid ∈ plan.edges.map VictimEdge.uuid ↔ g.taken merges e = true := by
  constructor
  · intro h
    obtain ⟨row, hrow, huuid⟩ := List.mem_map.mp h
    obtain ⟨e₀, he₀, htaken, -, rfl⟩ := hplan.of_mem hrow
    obtain rfl := htidy.edge_inj he he₀ huuid.symm
    exact htaken
  · intro htaken
    refine List.mem_map.mpr ⟨g.edgeAt e, hplan.edges.mem_iff.mpr ?_, rfl⟩
    exact List.mem_map_of_mem (List.mem_filter.mpr ⟨he, htaken⟩)

theorem Graph.PlannedFor.nodup : (plan.rewire.toDrop ++ plan.rewire.survivorDedupe ++ plan.dups ++
    plan.rewire.toCreate.map fun m => m.edge.uuid).Nodup := by
  refine hplan.uuids.nodup_iff.mpr ((hplan.edges.map VictimEdge.uuid).nodup_iff.mpr ?_)
  rw [List.map_map]
  exact htidy.uuids.sublist (List.filter_sublist.map _)

include hfold

/-- A row to create starts at a victim, and its survivor and target are nodes of the graph. -/
theorem Graph.PlannedFor.madeFor {m : Rewiring} (hm : m ∈ plan.rewire.toCreate) :
    ∃ e ∈ g.mentions, g.uuidAt e.src ∈ victimsOf merges ∧ g.edgeAt e = m.edge ∧
      m.survivor ∉ victimsOf merges ∧ ∃ i n, g.labelled .episodic i = some n ∧
        n.uuid = some m.survivor ∧ g.madeFor m = [⟨i, e.dst, e.uuid,
          some (orDefault m.edge.groupId "graphiti_memory"), orNone m.edge.createdAt⟩] := by
  obtain ⟨hedge, hsurvivor⟩ := hplan.toCreate m hm
  obtain ⟨e, he, -, hv, heq⟩ := hplan.of_mem hedge
  have hsrc : m.edge.src = g.uuidAt e.src := heq ▸ rfl
  have hdst : m.edge.dst = g.uuidAt e.dst := heq ▸ rfl
  have huuid : m.edge.uuid = e.uuid := heq ▸ rfl
  obtain ⟨⟨i, n, hn, hu⟩, hnot⟩ := hfold.root hv
  rw [← hsrc, ← hsurvivor] at hu hnot
  obtain ⟨t, ht, htu⟩ := Graph.mem_withUuid.mp (htidy.dst_mem he)
  refine ⟨e, he, hv, heq, hnot, i, n, hn, hu, ?_⟩
  rw [Graph.madeFor, Graph.created_eq htidy.episodic htidy.entity hn hu ht (hdst ▸ htu), huuid]

/-- Phases B, A and C: the mentions of the victims make way for the new ones. -/
theorem run_rewire (hquiet : server.Quiet) {db : FalkorDb} (hdb : db.graph = g) :
    ∃ n db₁ db₂, Prog.run server.handle (deleteMentionsByUuid
        (plan.rewire.toDrop ++ plan.rewire.survivorDedupe ++ plan.dups)) db = (.ok n, db₁) ∧
      Prog.run server.handle (Prog.forEach rewireRow plan.rewire.toCreate) db₁ =
        (.ok (plan.rewire.toCreate.map fun _ => { created := 1, rewired := 1 }), db₂) ∧
      db₂.graph.nodes = g.nodes ∧ db₂.graph.relations = g.relations ∧
      db₂.graph.others = g.others ∧ db₂.graph.mentions =
        (g.mentions.filter fun e => !g.taken merges e) ++
          plan.rewire.toCreate.flatMap g.madeFor := by
  have hnodup := hplan.nodup htidy
  obtain ⟨n, db₁, hdrop, hgraph₁⟩ := run_deleteMentionsByUuid hquiet
    (plan.rewire.toDrop ++ plan.rewire.survivorDedupe ++ plan.dups) db
  rw [hdb] at hgraph₁
  have hmentions₁ : db₁.graph.mentions = g.mentions.filter fun e =>
      e.uuid ∉ plan.rewire.toDrop ++ plan.rewire.survivorDedupe ++ plan.dups := by
    rw [hgraph₁]
    rfl
  have hbase : (db₁.graph.mentions.map Mention.uuid).Nodup := by
    rw [hmentions₁]
    exact htidy.uuids.sublist (List.filter_sublist.map _)
  have hfrom : ∀ m ∈ plan.rewire.toCreate, ∃ e ∈ db₁.graph.mentions, e.uuid = m.edge.uuid ∧
      e.src ∈ g.withUuid .episodic m.edge.src ∧ e.dst ∈ g.withUuid .entity m.edge.dst := by
    intro m hm
    obtain ⟨e, he, -, heq, -⟩ := hplan.madeFor htidy hfold hm
    have huuid : e.uuid = m.edge.uuid := heq ▸ rfl
    refine ⟨e, ?_, huuid, heq ▸ htidy.src_mem he, heq ▸ htidy.dst_mem he⟩
    rw [hmentions₁, List.mem_filter]
    refine ⟨he, decide_eq_true fun hgone => ?_⟩
    exact List.disjoint_of_nodup_append hnodup hgone (List.mem_map.mpr ⟨m, hm, huuid.symm⟩)
  have hmade : ∀ m ∈ plan.rewire.toCreate, g.madeFor m ≠ [] := by
    intro m hm
    obtain ⟨e, -, -, -, -, i, n, -, -, hmade⟩ := hplan.madeFor htidy hfold hm
    exact hmade ▸ List.cons_ne_nil _ _
  have hne : ∀ m ∈ plan.rewire.toCreate, ∀ m' ∈ plan.rewire.toCreate,
      m.survivor ≠ m'.edge.src := by
    intro m hm m' hm' heq
    obtain ⟨-, -, -, -, hnot, -⟩ := hplan.madeFor htidy hfold hm
    obtain ⟨e, -, hv, hedge, -⟩ := hplan.madeFor htidy hfold hm'
    exact hnot (heq ▸ hedge ▸ hv)
  obtain ⟨db₂, hloop, hnodes, hrelations, hothers, hmentions⟩ :=
    run_rewireRows hquiet hbase hfrom hmade hne (by rw [hgraph₁]; rfl) rfl
  rw [hgraph₁] at hrelations hothers
  refine ⟨n, db₁, db₂, hdrop, hloop, hnodes, hrelations, hothers, ?_⟩
  rw [hmentions, hmentions₁, List.filter_filter]
  congr 1
  refine List.filter_congr fun e he => ?_
  rw [← Bool.decide_and, Bool.eq_iff_iff, decide_eq_true_eq, Bool.not_eq_true', ← Bool.not_eq_true,
    ← hplan.mem_uuids htidy he, ← hplan.uuids.mem_iff]
  simp only [List.mem_append]
  tauto

/-- The edges that are left and made run from episodes to entities, and those that start at a
victim are edges that did not resolve. -/
theorem Graph.PlannedFor.of_left {e : Mention}
    (he : e ∈ (g.mentions.filter fun e => !g.taken merges e) ++
      plan.rewire.toCreate.flatMap g.madeFor) :
    (g.labelled .episodic e.src).isSome ∧ (g.labelled .entity e.dst).isSome ∧
      (g.uuidAt e.src ∈ victimsOf merges → e ∈ g.mentions ∧ g.resolves e = false) := by
  rcases List.mem_append.mp he with he | he
  · obtain ⟨he, hnot⟩ := List.mem_filter.mp he
    obtain ⟨hsrc, hdst⟩ := htidy.ends e he
    refine ⟨hsrc, hdst, fun hv => ⟨he, ?_⟩⟩
    simpa [taken, hv] using hnot
  · obtain ⟨m, hm, he⟩ := List.mem_flatMap.mp he
    obtain ⟨e₀, he₀, -, -, hnot, i, s, hs, hu, hmade⟩ := hplan.madeFor htidy hfold hm
    obtain rfl := List.mem_singleton.mp (hmade ▸ he)
    refine ⟨by rw [hs]; rfl, (htidy.ends e₀ he₀).2, fun hv => ?_⟩
    rw [uuidAt_eq hs hu] at hv
    exact absurd hv hnot

/-- The writing half of the fold, up to phase D. -/
theorem run_untilVictims (hquiet : server.Quiet) (counters : Counters) {db : FalkorDb}
    (hdb : db.graph = g) :
    ∃ db₂, Prog.run server.handle (writeRewire merges args plan counters) db =
        Prog.run server.handle (deleteVictims merges args plan.unique
          { counters with
            mentionsMoved := plan.rewire.toCreate.length
            mentionsCreated := plan.rewire.toCreate.length }) db₂ ∧
      db₂.graph.nodes = g.nodes ∧ db₂.graph.relations = g.relations ∧
      db₂.graph.others = g.others ∧ db₂.graph.mentions =
        (g.mentions.filter fun e => !g.taken merges e) ++
          plan.rewire.toCreate.flatMap g.madeFor := by
  obtain ⟨n, db₁, db₂, hdrop, hloop, hleaves⟩ := run_rewire htidy hfold hplan hquiet hdb
  have hdrop' : Prog.run server.handle ((deleteMentionsByUuid
      (plan.rewire.toDrop ++ plan.rewire.survivorDedupe ++ plan.dups)).attempt :
        Cypher (Except String ℤ)) db = (.ok (.ok n), db₁) := by
    rw [Prog.run_attempt, hdrop]
  refine ⟨db₂, ?_, hleaves⟩
  obtain ⟨hrewired, hcreated, herrors⟩ := turns_of_rows plan.rewire.toCreate
  rw [writeRewire, Prog.run_bind_ok hdrop', Prog.run_bind_ok hloop, hrewired, hcreated, herrors]
  simp only [List.append_nil]

omit htidy hplan in
theorem Graph.Foldable.victim_of_nodes {g' : Graph} (hnodes : g'.nodes = g.nodes) :
    ∀ m ∈ merges, m.victimUuid ≠ "" ∧ g'.HasEpisode m.victimUuid := by
  intro m hm
  obtain ⟨i, n, hn, huuid⟩ := hfold.victim m hm
  exact ⟨hfold.named m hm, i, n, (Graph.labelled_congr hnodes i).trans hn, huuid⟩

/-- With batches of no size, the fold raises when it comes to the victims. -/
theorem run_writeRewire_zero (hquiet : server.Quiet) (hundo : args.Persists) (hbatch : args.batch = 0)
    (counters : Counters) {db : FalkorDb} (hdb : db.graph = g) :
    ∃ db', Prog.run server.handle (writeRewire merges args plan counters) db =
      (.error "range() arg 3 must not be zero", db') := by
  obtain ⟨db₂, hrun, hnodes, -⟩ := run_untilVictims htidy hfold hplan hquiet counters hdb
  obtain ⟨db₃, -, hraise⟩ := run_undoVictims hquiet (hfold.victim_of_nodes hnodes) hundo plan.unique
    { counters with
      mentionsMoved := plan.rewire.toCreate.length
      mentionsCreated := plan.rewire.toCreate.length } rfl
  refine ⟨db₃, ?_⟩
  rw [hrun, hraise, if_pos hbatch]
  rfl

/-- The writing half of the fold. -/
theorem run_writeRewire (hquiet : server.Quiet) (hundo : args.Persists) (hbatch : args.batch ≠ 0)
    (counters : Counters) {db : FalkorDb} (hdb : db.graph = g) :
    ∃ db', Prog.run server.handle (writeRewire merges args plan counters) db = (.ok
        { counters with
          mentionsMoved := plan.rewire.toCreate.length
          mentionsCreated := plan.rewire.toCreate.length
          nodesDeleted := (g.cleared merges).length
          victimsNotEmpty := (victimsOf merges).length - (g.cleared merges).length
          undoRowsWritten := merges.length }, db') ∧
      g.FoldedTo merges plan db'.graph := by
  obtain ⟨db₂, hrun, hnodes, hrelations, hothers, hmentions⟩ :=
    run_untilVictims htidy hfold hplan hquiet counters hdb
  have hleft : ∀ e ∈ db₂.graph.mentions, (g.labelled .episodic e.src).isSome ∧
      (g.labelled .entity e.dst).isSome ∧
        (g.uuidAt e.src ∈ victimsOf merges → e ∈ g.mentions ∧ g.resolves e = false) :=
    fun e he => hplan.of_left htidy hfold (hmentions ▸ he)
  have htyped : db₂.graph.MentionsTyped := fun e he => by
    rw [Graph.labelled_congr hnodes, Graph.labelled_congr hnodes]
    exact ⟨(hleft e he).1, (hleft e he).2.1⟩
  -- a victim is free now exactly if all its edges resolved
  have hfree : (victimsOf merges).filter db₂.graph.free = g.cleared merges := by
    refine List.filter_congr fun v hv => ?_
    have huuid : ∀ i, db₂.graph.uuidAt i = g.uuidAt i := fun i => by
      rw [Graph.uuidAt, Graph.uuidAt, hnodes]
    rw [Graph.free, Graph.clears, Bool.eq_iff_iff, List.all_eq_true, List.all_eq_true]
    simp only [huuid, decide_eq_true_eq, ne_eq]
    constructor
    · intro hnone e he hsrc
      by_contra hres
      have hnot : g.taken merges e = false := by
        rw [Graph.taken, (Bool.not_eq_true _).mp hres, Bool.and_false]
      refine hnone e ?_ hsrc
      rw [hmentions]
      exact List.mem_append_left _ (List.mem_filter.mpr ⟨he, by rw [hnot]; rfl⟩)
    · intro hall e he hsrc
      obtain ⟨hin, hres⟩ := (hleft e he).2.2 (hsrc.symm ▸ hv)
      rw [hall e hin hsrc] at hres
      cases hres
  obtain ⟨db₃, hdelete, hgraph₃⟩ := run_deleteVictims hquiet (htidy.episodic.congr hnodes) htyped
    (hfold.victim_of_nodes hnodes) hundo hbatch plan.unique
    { counters with
      mentionsMoved := plan.rewire.toCreate.length
      mentionsCreated := plan.rewire.toCreate.length } rfl
  rw [hfree] at hdelete hgraph₃
  refine ⟨db₃, hrun.trans hdelete, ?_, ?_, ?_, ?_⟩
  · rw [hgraph₃, ← hnodes]
    rfl
  · rw [hgraph₃, ← hfree, Graph.mentions_removeFree htyped, hmentions]
  · rw [hgraph₃, Graph.relations_removeNodes, Graph.stays_congr hnodes, hrelations]
  · rw [hgraph₃, Graph.others_removeNodes, Graph.stays_congr hnodes, hothers]

end

/-- The counters of the plan of a fold. -/
def plannedCounters (merges : List EpisodicMerge) (args : FoldArgs) (plan : RewirePlan)
    (errors : List String) : Counters :=
  ({ applied := args.apply
     episodicMerges := merges.length
     episodicVictims := (victimsOf merges).length } : Counters).planned plan errors

/-- The rows of a fold are read, in some order, and planned. -/
theorem run_applyEpisodicPlan {server : Server} (hquiet : server.Quiet) {g : Graph}
    {merges : List EpisodicMerge} (args : FoldArgs) (htidy : g.Tidy) (hfold : g.Foldable merges)
    (hrow : ∃ e ∈ g.mentions, g.uuidAt e.src ∈ victimsOf merges) {db : FalkorDb}
    (hdb : db.graph = g) :
    ∃ mentRows survRows db', db'.graph = g ∧
      mentRows.Perm (g.mentionRows fun row => row.srcUuid ∈ (victimsOf merges).map some) ∧
      survRows.Perm (g.mentionRows fun row => row.srcUuid ∈ (survivorsOf merges).map some) ∧
      Prog.run server.handle (applyEpisodicPlan merges args) db =
        let plan := planRewire merges mentRows survRows
        if args.apply then
          Prog.run server.handle
            (writeRewire merges args plan
              (plannedCounters merges args plan (unresolvedErrors mentRows))) db'
        else (.ok { plannedCounters merges args plan (unresolvedErrors mentRows) with
          dryRun := some ((victimsOf merges).length,
            plan.rewire.toDrop.length + plan.rewire.survivorDedupe.length,
            plan.rewire.toCreate.length) }, db') := by
  obtain ⟨e, he, hv⟩ := hrow
  obtain ⟨m, hm, -⟩ := mem_victimsOf.mp hv
  have hmerges : ¬ merges.isEmpty = true := by
    rw [List.isEmpty_iff]
    exact List.ne_nil_of_mem hm
  let read := fun (sources : List String) (db : FalkorDb) => (server.scan db.tick).scan
    (g.mentionRows fun row => row.srcUuid ∈ sources.map some)
  have hread : ∀ sources db, (read sources db).Perm
      (g.mentionRows fun row => row.srcUuid ∈ sources.map some) :=
    fun sources db => (server.scan db.tick).perm _
  let db₁ := db.after server (.mentionsFrom (victimsOf merges))
  let db₂ := db₁.after server (.mentionsFrom (survivorsOf merges))
  refine ⟨read (victimsOf merges) db, read (survivorsOf merges) db₁, db₂, hdb,
    hread .., hread .., ?_⟩
  have hrun₁ : Prog.run server.handle ((query (.mentionsFrom (victimsOf merges))).attempt :
      Cypher (Except String (List MentionRow))) db =
        (.ok (.ok (read (victimsOf merges) db)), db₁) := by
    rw [run_query_attempt hquiet]
    subst hdb
    rfl
  have hrun₂ : Prog.run server.handle ((query (.mentionsFrom (survivorsOf merges))).attempt :
      Cypher (Except String (List MentionRow))) db₁ =
        (.ok (.ok (read (survivorsOf merges) db₁)), db₂) := by
    rw [run_query_attempt hquiet]
    subst hdb
    rfl
  have hrows : ¬ (read (victimsOf merges) db).isEmpty = true := by
    rw [List.isEmpty_iff]
    have hin : g.rowAt e ∈ read (victimsOf merges) db := by
      rw [(hread ..).mem_iff, htidy.mentionRows_from]
      exact List.mem_map_of_mem (List.mem_filter.mpr ⟨he, decide_eq_true hv⟩)
    exact List.ne_nil_of_mem hin
  rw [applyEpisodicPlan, if_neg hmerges, Prog.run_bind_ok hrun₁]
  dsimp only
  rw [if_neg hrows, Prog.run_bind_ok hrun₂]
  simp only [Except.toOption, Option.getD_some, List.nil_append]
  rcases happly : args.apply with _ | _ <;>
    simp only [plannedCounters, happly] <;> rfl

end JanusGraph
