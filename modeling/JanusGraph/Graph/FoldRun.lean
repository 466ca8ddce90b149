import JanusGraph.Graph.Classify
import JanusGraph.Graph.Match
import JanusGraph.Graph.Redirect
import JanusGraph.Graph.Serve

/-!
# A fold in which every query succeeds

Each stage of `apply_episodic_plan` on a server that never raises: what it returns, and
what it makes of the graph.
-/

namespace JanusGraph

/-! ## Batches -/

theorem flatten_slices {α : Type} (l : List α) (batch n : ℕ) :
    ((List.range n).map fun i => (l.drop (i * batch)).take batch).flatten = l.take (n * batch) := by
  induction n with
  | zero => simp
  | succ n ih => simp [List.range_succ, ih, Nat.succ_mul, List.take_add]

/-- The batches are the list, cut up. -/
theorem flatten_batches {α : Type} {batch : ℕ} (hbatch : batch ≠ 0) (l : List α) :
    (batches batch l).flatten = l := by
  rw [batches, flatten_slices, List.take_of_length_le]
  have h := Nat.lt_div_mul_add (a := l.length + batch - 1) (b := batch) (by omega)
  omega

/-! ## The properties of the victims -/

/-- `props_by_uuid`, from the rows of the query. -/
def undoProps (nodes : List Node) : Table String Node :=
  nodes.foldl (fun props n =>
    if n.uuidText = "" then props else props.upsert n.uuidText fun _ => n) Table.empty

/-- Of the rows with one uuid it holds the last. -/
theorem get?_undoProps (nodes : List Node) {u : String} (hu : u ≠ "") :
    (undoProps nodes).get? u = (nodes.filter fun n => n.uuidText = u).getLast? := by
  induction nodes using List.reverseRecOn with
  | nil => rfl
  | append_singleton nodes n ih =>
    rw [undoProps] at ih ⊢
    rw [List.foldl_append, List.foldl_cons, List.foldl_nil, List.filter_append]
    by_cases hn : n.uuidText = u
    · have hlast : [n].filter (fun n => n.uuidText = u) = [n] := by simp [hn]
      rw [if_neg (by rwa [hn]), Table.get?_upsert, if_pos hn.symm, hlast, List.getLast?_concat]
    · have hrest : [n].filter (fun n => n.uuidText = u) = [] := by simp [hn]
      rw [hrest, List.append_nil, ← ih]
      split
      · rfl
      · rw [Table.get?_upsert, if_neg (Ne.symm hn)]

theorem isSome_undoProps {nodes : List Node} {u : String} (hu : u ≠ "")
    (h : ∃ n ∈ nodes, n.uuidText = u) : ((undoProps nodes).get? u).isSome := by
  obtain ⟨n, hn, huuid⟩ := h
  rw [get?_undoProps nodes hu, Option.isSome_iff_ne_none, ne_eq, List.getLast?_eq_none_iff]
  exact List.ne_nil_of_mem (List.mem_filter.mpr ⟨hn, decide_eq_true huuid⟩)

/-! ## Victims among the nodes -/

/-- The node is an episode with one of these uuids. -/
def isVictim (victims : List String) (_ : ℕ) (n : Node) : Bool :=
  n.label = .episodic ∧ n.uuid ∈ victims.map some

theorem isVictim_append (vs ws : List String) (i : ℕ) (n : Node) :
    isVictim (vs ++ ws) i n = (isVictim vs i n || isVictim ws i n) := by
  simp [isVictim, Bool.and_or_distrib_left]

theorem isVictim_of_ne {vs : List String} {i : ℕ} {n : Node} (h : n.label ≠ .episodic) :
    isVictim vs i n = false := by
  simp [isVictim, h]

/-- The uuid of a node, empty without one. -/
def Graph.uuidAt (g : Graph) (i : ℕ) : String := ((g.nodes.get? i).bind Node.uuid).getD ""

theorem Graph.uuidAt_eq {g : Graph} {label : NodeLabel} {i : ℕ} {n : Node} {u : String}
    (hi : g.labelled label i = some n) (hu : n.uuid = some u) : g.uuidAt i = u := by
  rw [uuidAt, (labelled_eq_some.mp hi).1, Option.bind_some, hu]
  rfl

/-- `MENTIONS` run from episodes to entities. -/
def Graph.MentionsTyped (g : Graph) : Prop :=
  ∀ e ∈ g.mentions, (g.labelled .episodic e.src).isSome ∧ (g.labelled .entity e.dst).isSome

instance (g : Graph) : Decidable g.MentionsTyped := by
  unfold Graph.MentionsTyped
  infer_instance

/-- No edge starts at a node with this uuid. -/
def Graph.free (g : Graph) (uuid : String) : Bool := g.mentions.all fun e => g.uuidAt e.src ≠ uuid

/-- What is emptied of a list of victims are those that no edge starts at. -/
theorem Graph.emptied_eq {g : Graph} (hkeyed : g.Keyed .episodic) (htyped : g.MentionsTyped)
    (vs : List String) {i : ℕ} {n : Node} (hn : g.nodes.get? i = some n) :
    g.emptied vs i n = isVictim (vs.filter g.free) i n := by
  rw [Bool.eq_iff_iff, emptied, isVictim, decide_eq_true_eq, decide_eq_true_eq]
  refine and_congr_right fun hlabel => ?_
  have hi : g.labelled .episodic i = some n := labelled_eq_some.mpr ⟨hn, hlabel⟩
  obtain ⟨u, hu⟩ := hkeyed.named hi
  -- an edge starts at the node exactly if it starts at its uuid
  have hstarts : ∀ e ∈ g.mentions, g.uuidAt e.src = u ↔ e.src = i := by
    intro e he
    obtain ⟨s, hs⟩ := Option.isSome_iff_exists.mp (htyped e he).1
    obtain ⟨w, hw⟩ := hkeyed.named hs
    rw [uuidAt_eq hs hw]
    constructor
    · rintro rfl
      exact hkeyed.inj hs hi (hw.trans hu.symm)
    · intro hsrc
      obtain rfl := Option.some.inj ((hsrc ▸ hs).symm.trans hi)
      exact Option.some.inj (hw.symm.trans hu)
  have hfree : (g.mentions.all fun e => e.src ≠ i) = g.free u := by
    rw [free, Bool.eq_iff_iff, List.all_eq_true, List.all_eq_true]
    refine forall₂_congr fun e he => ?_
    rw [decide_eq_true_eq, decide_eq_true_eq, ne_eq, ne_eq, hstarts e he]
  rw [hfree, hu]
  simp [List.mem_filter]

/-- Whoever an edge starts at is not free, so that no edge goes with the free victims. -/
theorem Graph.mentions_removeFree {g : Graph} (htyped : g.MentionsTyped) (vs : List String) :
    (g.removeNodes (isVictim (vs.filter g.free))).mentions = g.mentions := by
  rw [mentions_removeNodes]
  refine List.filter_eq_self.mpr fun e he => ?_
  obtain ⟨hsrc, hdst⟩ := htyped e he
  obtain ⟨s, hs⟩ := Option.isSome_iff_exists.mp hsrc
  obtain ⟨t, ht⟩ := Option.isSome_iff_exists.mp hdst
  obtain ⟨hget, -⟩ := labelled_eq_some.mp hs
  obtain ⟨hget', hlabel'⟩ := labelled_eq_some.mp ht
  rw [Bool.and_eq_true, stays, stays, hget, hget', Option.any_some, Option.any_some]
  refine ⟨?_, by rw [isVictim_of_ne (by simp [hlabel'])]; rfl⟩
  rw [Bool.not_eq_true', isVictim, decide_eq_false_iff_not]
  rintro ⟨-, hu⟩
  obtain ⟨v, hv, hu⟩ := List.mem_map.mp hu
  have hfree := List.all_eq_true.mp (List.mem_filter.mp hv).2 e he
  rw [uuidAt_eq hs hu.symm] at hfree
  simp at hfree

/-- Each uuid is one episode's. -/
theorem countP_isVictim {g : Graph} (hkeyed : g.Keyed .episodic) {vs : List String}
    (hvs : vs.Nodup)
    (hex : ∀ v ∈ vs, ∃ i n, g.labelled .episodic i = some n ∧ n.uuid = some v) :
    g.nodes.rows.countP (fun r => isVictim vs r.1 r.2) = vs.length := by
  have hrow : ∀ {r : ℕ × Node}, r ∈ g.nodes.rows.filter (fun r => isVictim vs r.1 r.2) ↔
      g.labelled .episodic r.1 = some r.2 ∧ r.2.uuid ∈ vs.map some := by
    intro r
    simp only [List.mem_filter, isVictim, Bool.decide_and, Bool.and_eq_true, decide_eq_true_eq,
      Graph.labelled_eq_some, ← Table.mem_rows, and_assoc]
  have hperm : ((g.nodes.rows.filter fun r => isVictim vs r.1 r.2).map fun r => r.2.uuid).Perm
      (vs.map some) := by
    refine (List.perm_ext_iff_of_nodup ?_ (hvs.map (Option.some_injective _))).mpr fun u => ?_
    · refine List.Nodup.map_on (fun r hr r' hr' heq => ?_)
        (List.Nodup.filter _ (List.Nodup.of_map _ g.nodes.nodup))
      obtain ⟨hn, -⟩ := hrow.mp hr
      obtain ⟨hn', -⟩ := hrow.mp hr'
      have hi := hkeyed.inj hn hn' heq
      rw [hi] at hn
      exact Prod.ext hi (Option.some.inj (hn.symm.trans hn'))
    · rw [List.mem_map]
      constructor
      · rintro ⟨r, hr, rfl⟩
        exact (hrow.mp hr).2
      · intro hu
        obtain ⟨v, hv, rfl⟩ := List.mem_map.mp hu
        obtain ⟨i, n, hn, huuid⟩ := hex v hv
        exact ⟨(i, n), hrow.mpr ⟨hn, huuid ▸ hu⟩, huuid⟩
  have hlen := hperm.length_eq
  rw [List.length_map, List.length_map] at hlen
  rw [List.countP_eq_length_filter, hlen]

/-! ## The stages -/

/-- A row that is moved leaves its list, and nothing that the rows have made goes. -/
theorem filter_moved {α β : Type} {base base' : List β} {made : α → List β} {hit : β → Bool}
    {done : List α} {a : α} (hbase : base.filter (fun e => !hit e) = base')
    (hmade : ∀ b ∈ done ++ [a], ∀ e ∈ made b, ¬ hit e) :
    (base ++ done.flatMap made ++ made a).filter (fun e => !hit e) =
      base' ++ (done ++ [a]).flatMap made := by
  have hnew : done.flatMap made ++ made a = (done ++ [a]).flatMap made := by simp
  rw [List.append_assoc, List.filter_append, hbase, hnew]
  congr 1
  refine List.filter_eq_self.mpr fun e he => ?_
  obtain ⟨b, hb, he⟩ := List.mem_flatMap.mp he
  rw [Bool.not_eq_true', ← Bool.not_eq_true]
  exact hmade b hb e he

section

variable {server : Server} (hquiet : server.Quiet)

include hquiet

/-- Phase B deletes the edges with these uuids. -/
theorem run_deleteMentionsByUuid (uuids : List String) (db : FalkorDb) :
    ∃ n db', Prog.run server.handle (deleteMentionsByUuid uuids) db = (.ok n, db') ∧
      db'.graph = db.graph.keepMentions fun e => e.uuid ∉ uuids := by
  unfold deleteMentionsByUuid
  split
  · next hempty =>
    obtain rfl := List.isEmpty_iff.mp hempty
    exact ⟨0, db, rfl, (Graph.keepMentions_of_forall (by simp)).symm⟩
  · rw [Prog.run_bind_ok (run_query hquiet _ _), Prog.run_bind_ok (run_query hquiet _ _),
      Prog.run_bind_ok (run_query hquiet _ _)]
    exact ⟨_, _, rfl, rfl⟩

/-- The edges a turn of the rewire loop creates. -/
def Graph.madeFor (g : Graph) (m : Rewiring) : List Mention :=
  g.created m.survivor m.edge.dst m.edge.uuid (orDefault m.edge.groupId "graphiti_memory")
    (orNone m.edge.createdAt)

/-- A turn of the rewire loop whose endpoints match. -/
theorem run_rewireRow (m : Rewiring) {db : FalkorDb} (hmade : db.graph.madeFor m ≠ []) :
    ∃ db', Prog.run server.handle (rewireRow m) db = (.ok { created := 1, rewired := 1 }, db') ∧
      db'.graph.nodes = db.graph.nodes ∧ db'.graph.relations = db.graph.relations ∧
      db'.graph.others = db.graph.others ∧
      db'.graph.mentions = (db.graph.mentions ++ db.graph.madeFor m).filter fun e =>
        !db.graph.matchesMention m.edge.src m.edge.dst m.edge.uuid e := by
  have hlen : (db.graph.madeFor m).length ≠ 0 := fun h => hmade (List.length_eq_zero_iff.mp h)
  rw [rewireRow, Prog.run_bind_ok (run_query_attempt hquiet _ _)]
  dsimp only
  split
  · next hzero => exact absurd hzero hlen
  · rw [Prog.run_bind_ok (run_query_attempt hquiet _ _)]
    exact ⟨_, rfl, rfl, rfl, rfl, rfl⟩

/-- The rewire loop: the rows leave the list they were in, and the new ones come last. -/
theorem run_rewireRows {g : Graph} {base : List Mention} {toCreate : List Rewiring} {db : FalkorDb}
    (hbase : (base.map Mention.uuid).Nodup)
    (hfrom : ∀ m ∈ toCreate, ∃ e ∈ base, e.uuid = m.edge.uuid ∧
      e.src ∈ g.withUuid .episodic m.edge.src ∧ e.dst ∈ g.withUuid .entity m.edge.dst)
    (hmade : ∀ m ∈ toCreate, g.madeFor m ≠ [])
    (hne : ∀ m ∈ toCreate, ∀ m' ∈ toCreate, m.survivor ≠ m'.edge.src)
    (hnodes : db.graph.nodes = g.nodes) (hmentions : db.graph.mentions = base) :
    ∃ db', Prog.run server.handle (Prog.forEach rewireRow toCreate) db =
        (.ok (toCreate.map fun _ => { created := 1, rewired := 1 }), db') ∧
      db'.graph.nodes = g.nodes ∧ db'.graph.relations = db.graph.relations ∧
      db'.graph.others = db.graph.others ∧
      db'.graph.mentions = (base.filter fun e => e.uuid ∉ toCreate.map fun m => m.edge.uuid) ++
        toCreate.flatMap g.madeFor := by
  let I : List Rewiring → FalkorDb → Prop := fun done db' =>
    db'.graph.nodes = g.nodes ∧ db'.graph.relations = db.graph.relations ∧
      db'.graph.others = db.graph.others ∧
      db'.graph.mentions = (base.filter fun e => e.uuid ∉ done.map fun m => m.edge.uuid) ++
        done.flatMap g.madeFor
  have hstart : I [] db := ⟨hnodes, rfl, rfl, by simp [hmentions]⟩
  have hturn : ∀ done m rest db', toCreate = done ++ m :: rest → I done db' → ∃ db₂,
      Prog.run server.handle (rewireRow m) db' = (.ok { created := 1, rewired := 1 }, db₂) ∧
        I (done ++ [m]) db₂ := by
    rintro done m rest db' hdone ⟨hn, hr, ho, hm⟩
    have hin : m ∈ toCreate := by simp [hdone]
    have hmadeFor : db'.graph.madeFor m = g.madeFor m := Graph.created_congr hn ..
    obtain ⟨db₂, hrun, hn₂, hr₂, ho₂, hm₂⟩ := run_rewireRow hquiet m (hmadeFor ▸ hmade m hin)
    refine ⟨db₂, hrun, hn₂.trans hn, hr₂.trans hr, ho₂.trans ho, ?_⟩
    have hmatch := Graph.matchesMention_congr hn m.edge.src m.edge.dst m.edge.uuid
    simp only [hmatch] at hm₂
    rw [hm₂, hm, hmadeFor]
    refine filter_moved ?_ fun m' hm' e he => ?_
    · obtain ⟨e₀, he₀, huuid, hsrc, hdst⟩ := hfrom m hin
      rw [List.map_append, List.map_singleton, ← huuid, ← Graph.filter_not_matchesMention hbase he₀
        (Graph.matchesMention_iff.mpr ⟨rfl, hsrc, hdst⟩), huuid]
    · -- the new rows start at survivors
      have hin' : m' ∈ toCreate := by
        rw [hdone, List.append_cons]
        exact List.mem_append_left _ hm'
      rw [Graph.matchesMention_iff]
      rintro ⟨-, hsrc, -⟩
      obtain ⟨n, hn, hu⟩ := Graph.mem_withUuid.mp hsrc
      obtain ⟨n', hn', hu'⟩ := Graph.mem_withUuid.mp (Graph.of_mem_created he).1
      obtain rfl := Option.some.inj (hn.symm.trans hn')
      exact hne m' hin' m hin (Option.some.inj (hu'.symm.trans hu))
  exact Prog.run_forEach_map hturn hstart

/-- Every victim that is there has an undo row. -/
theorem run_buildEpisodicUndoRows {merges : List EpisodicMerge} (edges : List VictimEdge)
    (groupId : String) {db : FalkorDb}
    (hin : ∀ m ∈ merges, m.victimUuid ≠ "" ∧
      ∃ i n, db.graph.labelled .episodic i = some n ∧ n.uuid = some m.victimUuid) :
    ∃ rows db', Prog.run server.handle (buildEpisodicUndoRows merges edges groupId) db =
        (.ok rows, db') ∧ rows.length = merges.length ∧ db'.graph = db.graph := by
  unfold buildEpisodicUndoRows
  split
  · next hempty =>
    rw [List.isEmpty_iff] at hempty
    exact ⟨[], db, rfl, by simp [hempty], rfl⟩
  · rw [Prog.run_bind_ok (run_query hquiet _ _)]
    refine ⟨_, _, rfl, ?_, rfl⟩
    rw [← @List.length_map _ _ merges EpisodicMerge.victimUuid]
    refine List.filterMap_length_eq_length.mpr fun v hv => ?_
    obtain ⟨m, hm, rfl⟩ := List.mem_map.mp hv
    obtain ⟨hne, i, n, hn, huuid⟩ := hin m hm
    rw [Option.isSome_map]
    refine isSome_undoProps hne ⟨n, ?_, by simp [Node.uuidText, huuid]⟩
    obtain ⟨hget, hlabel⟩ := Graph.labelled_eq_some.mp hn
    refine ((server.scan db.tick).perm _).mem_iff.mpr (List.mem_filter.mpr ⟨?_, ?_⟩)
    · exact List.mem_map.mpr ⟨(i, n), Table.mem_rows.mpr hget, rfl⟩
    · simp only [hlabel, huuid, true_and, decide_eq_true_eq, List.mem_map]
      exact ⟨_, ⟨m, hm, rfl⟩, rfl⟩

/-- A turn of the deletion loop. -/
theorem run_deleteChunk (chunk : List String) (db : FalkorDb) :
    ∃ db', Prog.run server.handle (deleteChunk chunk) db = (.ok
        { deleted := (db.graph.nodes.rows.countP fun r => db.graph.emptied chunk r.1 r.2 : ℕ)
          notEmpty := chunk.length -
            (db.graph.nodes.rows.countP fun r => db.graph.emptied chunk r.1 r.2 : ℕ) }, db') ∧
      db'.graph = db.graph.removeNodes (db.graph.emptied chunk) := by
  rw [deleteChunk, Prog.run_bind_ok (Prog.run_attempt ..), Prog.run_bind_ok (run_query hquiet _ _),
    Prog.run_bind_ok (run_query hquiet _ _)]
  exact ⟨_, rfl, rfl⟩

/-- The deletion loop: of each batch those victims go that mention nothing. -/
theorem run_deleteChunks {g : Graph} (hkeyed : g.Keyed .episodic) (htyped : g.MentionsTyped)
    {victims : List String} (hnodup : victims.Nodup)
    (hex : ∀ v ∈ victims, ∃ i n, g.labelled .episodic i = some n ∧ n.uuid = some v)
    {chunks : List (List String)} (hchunks : chunks.flatten = victims) {db : FalkorDb}
    (hdb : db.graph = g) :
    ∃ db', Prog.run server.handle (Prog.forEach deleteChunk chunks) db =
        (.ok (chunks.map fun c =>
          { deleted := (c.filter g.free).length
            notEmpty := c.length - (c.filter g.free).length }), db') ∧
      db'.graph = g.removeNodes (isVictim (victims.filter g.free)) := by
  let I : List (List String) → FalkorDb → Prop := fun done db' =>
    db'.graph = g.removeNodes (isVictim (done.flatten.filter g.free))
  have hstart : I [] db := by
    refine hdb.trans (Graph.removeNodes_of_forall ?_).symm
    simp [isVictim]
  have hturn : ∀ done c rest db', chunks = done ++ c :: rest → I done db' → ∃ db₂,
      Prog.run server.handle (deleteChunk c) db' = (.ok
        { deleted := (c.filter g.free).length
          notEmpty := c.length - (c.filter g.free).length }, db₂) ∧ I (done ++ [c]) db₂ := by
    intro done c rest db' hchunk hI
    have hgraph : db'.graph = g.removeNodes (isVictim (done.flatten.filter g.free)) := hI
    obtain ⟨db₂, hrun, hgraph₂⟩ := run_deleteChunk hquiet c db'
    have hsplit : victims = done.flatten ++ c ++ rest.flatten := by simp [← hchunks, hchunk]
    have hdone : (done.flatten ++ c).Nodup := (hsplit ▸ hnodup).of_append_left
    have hin : ∀ v ∈ c, v ∈ victims := fun v hv => by
      rw [hsplit]
      exact List.mem_append_left _ (List.mem_append_right _ hv)
    -- what is picked are the free nodes of the batch
    have hemptied : ∀ i n, db'.graph.nodes.get? i = some n →
        db'.graph.emptied c i n = isVictim (c.filter g.free) i n := by
      intro i n hn
      rw [hgraph, Graph.removeNodes, Table.get?_filter] at hn
      rw [← Graph.emptied_eq hkeyed htyped c (Option.filter_eq_some_iff.mp hn).1, Graph.emptied,
        Graph.emptied, hgraph, Graph.mentions_removeFree htyped]
    have hcount : (db'.graph.nodes.rows.countP fun r => db'.graph.emptied c r.1 r.2) =
        (c.filter g.free).length := by
      rw [List.countP_congr fun r hr => by rw [hemptied r.1 r.2 (Table.mem_rows.mp hr)]]
      refine countP_isVictim (hgraph ▸ hkeyed.removeNodes) (hdone.of_append_right.filter _)
        fun v hv => ?_
      obtain ⟨i, n, hn, huuid⟩ := hex v (hin v (List.mem_of_mem_filter hv))
      refine ⟨i, n, ?_, huuid⟩
      rw [hgraph, Graph.labelled_removeNodes, hn, Option.filter_some, if_pos]
      rw [isVictim, Bool.not_eq_true', decide_eq_false_iff_not, huuid]
      rintro ⟨-, hd⟩
      obtain ⟨w, hw, heq⟩ := List.mem_map.mp hd
      obtain rfl := Option.some.inj heq
      exact List.disjoint_of_nodup_append hdone (List.mem_of_mem_filter hw)
        (List.mem_of_mem_filter hv)
    refine ⟨db₂, by rw [hrun, hcount], ?_⟩
    change db₂.graph = g.removeNodes (isVictim ((done ++ [c]).flatten.filter g.free))
    rw [hgraph₂, Graph.removeNodes_congr hemptied, hgraph, Graph.removeNodes_removeNodes,
      List.flatten_append, List.flatten_singleton, List.filter_append]
    exact Graph.removeNodes_congr fun i n _ => (isVictim_append _ _ i n).symm
  obtain ⟨db', hrun, hgraph⟩ := Prog.run_forEach_map hturn hstart
  exact ⟨db', hrun, hchunks ▸ hgraph⟩

end

end JanusGraph
