import JanusGraph.Graph.FoldCorrect
import JanusGraph.Graph.Kept

/-!
# A fold that dies, and the next one

Whatever queries fail and wherever the process dies, a fold loses no target of a group
of byte-identical episodes, provided that its edges are told apart by their uuids. It
takes care of that for the next fold too, unless it stops between a `CREATE` and the
`DELETE` that belongs to it: then two edges have one uuid, and the next fold, which
deletes what is redundant by uuid alone, deletes both.
-/

namespace JanusGraph

/-! ## The plan of the next fold -/

/-- No two episodes have contents that differ and hash to the same digest. -/
def Graph.NoCollision (g : Graph) (sha1 : String → String) : Prop :=
  ∀ {i j n m}, g.labelled .episodic i = some n → g.labelled .episodic j = some m →
    contentKey sha1 n.content = contentKey sha1 m.content → n.content.getD "" = m.content.getD ""

/-- What is planned for episodes of the graph folds byte-identical ones. -/
theorem Graph.Keyed.respectsGroups {g : Graph} (hkeyed : g.Keyed .episodic)
    {sha1 : String → String} (hsha : g.NoCollision sha1) {episodics : List Node}
    (hin : ∀ n ∈ episodics, ∃ i, g.labelled .episodic i = some n) :
    g.RespectsGroups (planEpisodicExactDups sha1 episodics) := by
  have hfold := hkeyed.foldable sha1 hin
  have hinj : ∀ {i j n m}, g.labelled .episodic i = some n → g.labelled .episodic j = some m →
      n.uuid = m.uuid → n = m := by
    intro i j n m hi hj h
    obtain rfl := hkeyed.inj hi hj h
    exact Option.some.inj (hi.symm.trans hj)
  -- the root of an episode is one with its key
  have hroot : ∀ {i n u}, g.labelled .episodic i = some n → n.uuid = some u → ∃ j k,
      g.labelled .episodic j = some k ∧
        k.uuid = some (rootOf (planEpisodicExactDups sha1 episodics) u) ∧
        k.planKey sha1 = n.planKey sha1 := by
    intro i n u hi hu
    by_cases hv : u ∈ victimsOf (planEpisodicExactDups sha1 episodics)
    · obtain ⟨m, hm, rfl⟩ := mem_victimsOf.mp hv
      obtain ⟨v, hv, k, hk, hkey, hvu, -, hku⟩ := mem_planEpisodicExactDups hm
      obtain ⟨j, hj⟩ := hin k hk
      obtain ⟨i', hi'⟩ := hin v hv
      obtain rfl := hinj hi hi' (hu.trans hvu.symm)
      obtain ⟨w, hw⟩ := hkeyed.named hj
      refine ⟨j, k, hj, ?_, hkey.symm⟩
      rw [hfold.direct.rootOf_eq hm, ← hku, Node.uuidText, hw]
      rfl
    · exact ⟨i, n, hi, by rw [rootOf_of_not_mem hv, hu], rfl⟩
  intro i j n m u w hi hj hu hw _ heq
  obtain ⟨i', k, hk, hku, hkey⟩ := hroot hi hu
  obtain ⟨j', k', hk', hku', hkey'⟩ := hroot hj hw
  obtain rfl := hinj hk hk' (by rw [hku, hku', heq])
  obtain ⟨hname, hcontent⟩ := Prod.mk.inj (hkey.symm.trans hkey')
  exact Prod.ext hname (hsha hi hj hcontent)

/-! ## Creates and their deletes -/

/-- A `CREATE` that has made an edge. -/
def Executed.Creates : Executed → Prop
  | ⟨.createMention .., made⟩ => made ≠ (0 : ℕ)
  | _ => False

/-- A `DELETE` of one mention. -/
def Executed.Deletes (x : Executed) : Prop :=
  match x.query with
  | .deleteMention .. => True
  | _ => False

/-- Each `CREATE` that has made an edge is directly followed by its `DELETE`. -/
def Rewired (log : List Executed) : Prop :=
  ∀ pre x rest, log = pre ++ x :: rest → x.Creates → ∃ y rest', rest = y :: rest' ∧ y.Deletes

/-- What is executed next, if no `DELETE`, leaves nothing half done that was not so before. -/
theorem Rewired.of_append {log tail : List Executed} {x : Executed}
    (h : Rewired (log ++ x :: tail)) (hx : ¬ x.Deletes) : Rewired log := by
  intro pre y rest hlog hy
  obtain ⟨z, rest', hrest, hz⟩ := h pre y (rest ++ x :: tail) (by simp [hlog]) hy
  rcases rest with _ | ⟨y', rest⟩
  · obtain ⟨rfl, -⟩ := List.cons.inj hrest
    exact absurd hz hx
  · obtain ⟨rfl, -⟩ := List.cons.inj hrest
    exact ⟨y', rest, rfl, hz⟩

/-- After a `CREATE` its `DELETE` is still to come. -/
theorem not_rewired_of_creates {log : List Executed} {x : Executed} (hx : x.Creates) :
    ¬ Rewired (log ++ [x]) := by
  intro h
  obtain ⟨y, rest, hrest, -⟩ := h log x [] rfl hx
  cases hrest

/-! ## One query -/

/-- What a fold keeps of the graph it began with: its targets, and, when nothing is half
done, that uuids tell its edges apart. -/
def Graph.Kept (g : Graph) (db : FalkorDb) : Prop :=
  g.KeepsTargets db.graph ∧ (Rewired db.log → (db.graph.mentions.map Mention.uuid).Nodup)

section

variable {server : Server} {g : Graph}

/-- A query that loses no target and makes no edge, and is not the `DELETE` of one. -/
theorem Graph.Kept.after {db : FalkorDb} (hkept : g.Kept db) {q : Query}
    (hkeeps : db.graph.KeepsTargets (db.after server q).graph)
    (hsub : ((db.after server q).graph.mentions).Sublist db.graph.mentions)
    (hq : ∀ result, ¬ (Executed.mk q result).Deletes) : g.Kept (db.after server q) :=
  ⟨hkept.1.trans hkeeps, fun hrewired =>
    (hkept.2 (hrewired.of_append (hq _))).sublist (hsub.map _)⟩

/-! ## Phase D -/

/-- The queries of phase D. -/
def Query.OfPhaseD : Query → Prop
  | .episodicProperties _ | .countEmptied _ | .deleteEmptied _ => True
  | _ => False

theorem only_deleteVictims (merges : List EpisodicMerge) (args : FoldArgs)
    (edges : List VictimEdge) (counters : Counters) :
    Prog.Only Query.OfPhaseD (deleteVictims merges args edges counters) := by
  have hbuild : Prog.Only Query.OfPhaseD (buildEpisodicUndoRows merges edges args.groupId) := by
    unfold buildEpisodicUndoRows
    split
    · exact Prog.only_ret _
    · exact (only_query trivial).bind fun rows => Prog.only_ret _
  have hchunk : ∀ chunk, Prog.Only Query.OfPhaseD (deleteChunk chunk) := by
    intro chunk
    refine Prog.Only.bind (Prog.Only.attempt ((only_query trivial).bind fun before =>
      (only_query trivial).bind fun _ => Prog.only_ret _)) fun answer => ?_
    cases answer <;> exact Prog.only_ret _
  unfold deleteVictims
  refine hbuild.attempt.bind fun built => ?_
  dsimp only
  split
  · exact Prog.only_ret _
  · split
    · exact Prog.only_ret _
    · split
      · exact Prog.only_ret _
      · split
        · exact Prog.only_fail _
        · exact (Prog.Only.forEach hchunk _).bind fun turns => Prog.only_ret _

theorem along_deleteVictims (merges : List EpisodicMerge) (args : FoldArgs)
    (edges : List VictimEdge) (counters : Counters) {db : FalkorDb} (hkept : g.Kept db) :
    Prog.Along server.handle g.Kept (deleteVictims merges args edges counters) db := by
  refine (only_deleteVictims merges args edges counters).along (fun q db hq hkept => ?_) hkept
  rcases handle_cases server q db with ⟨error, h⟩ | h
  · rw [h]
    exact hkept
  · rw [h]
    cases q with
    | episodicProperties victims =>
      exact hkept.after (.of_subset rfl fun _ => id) (.refl _) fun _ => id
    | countEmptied victims =>
      exact hkept.after (.of_subset rfl fun _ => id) (.refl _) fun _ => id
    | deleteEmptied victims =>
      exact hkept.after (Graph.keepsTargets_removeNodes _ _) List.filter_sublist fun _ => id
    | _ => cases hq

/-! ## Phases A and C -/

/-- At most one edge is created where no two nodes have the same uuid. -/
theorem Graph.length_created_le (hepisodic : g.Unique .episodic) (hentity : g.Unique .entity)
    (src dst eu gid : String) (createdAt : Option String) :
    (g.created src dst eu gid createdAt).length ≤ 1 := by
  have hdst := hentity.length_withUuid_le dst
  unfold created
  rcases hsrc : g.withUuid .episodic src with _ | ⟨i, rest⟩
  · simp
  · have hlen := hepisodic.length_withUuid_le src
    rw [hsrc, List.length_cons] at hlen
    obtain rfl := List.length_eq_zero_iff.mp (by omega : rest.length = 0)
    simpa using hdst

/-- Between two turns of the rewire loop, with `rest` still to come. -/
structure Graph.Underway (g : Graph) (merges : List EpisodicMerge) (rest : List Rewiring)
    (db : FalkorDb) : Prop where
  kept : g.Kept db
  nodes : db.graph.nodes = g.nodes
  /-- the uuid of a row to come is that of its edge alone -/
  pending : ∀ m ∈ rest, ∀ e ∈ db.graph.mentions, e.uuid = m.edge.uuid → g.IsRow e m.edge
  distinct : (rest.map fun m => m.edge.uuid).Nodup
  survivor : ∀ m ∈ rest, m.edge.src ∈ victimsOf merges ∧ m.survivor = rootOf merges m.edge.src ∧
    m.survivor ≠ m.edge.src

variable {merges : List EpisodicMerge} {m : Rewiring} {rest : List Rewiring} {db : FalkorDb}

theorem Graph.Underway.tail (h : g.Underway merges (m :: rest) db) : g.Underway merges rest db where
  kept := h.kept
  nodes := h.nodes
  pending m' hm' := h.pending m' (List.mem_cons_of_mem m hm')
  distinct := (List.nodup_cons.mp h.distinct).2
  survivor m' hm' := h.survivor m' (List.mem_cons_of_mem m hm')

theorem Graph.Underway.tick (h : g.Underway merges rest db) (tick : ℕ) :
    g.Underway merges rest { db with tick := tick } :=
  ⟨h.kept, h.nodes, h.pending, h.distinct, h.survivor⟩

theorem Graph.Underway.done (h : g.Underway merges rest db) : g.Underway merges [] db :=
  ⟨h.kept, h.nodes, by simp, List.nodup_nil, by simp⟩

/-- The queries of a turn. -/
def Rewiring.create (m : Rewiring) : Query :=
  .createMention m.survivor m.edge.dst m.edge.uuid
    (orDefault m.edge.groupId "graphiti_memory") (orNone m.edge.createdAt)

def Rewiring.delete (m : Rewiring) : Query :=
  .deleteMention m.edge.src m.edge.dst m.edge.uuid

/-- After the `CREATE` of a turn. -/
theorem Graph.Underway.created (h : g.Underway merges (m :: rest) db) :
    g.Underway merges rest (db.after server m.create) where
  kept := by
    have hkeeps : db.graph.KeepsTargets (db.after server m.create).graph :=
      .of_subset rfl fun e he => List.mem_append_left _ he
    refine ⟨h.kept.1.trans hkeeps, fun hrewired => ?_⟩
    by_cases hmade : (db.graph.madeFor m).length = 0
    · -- nothing has been made
      have hmentions : (db.after server m.create).graph.mentions = db.graph.mentions := by
        have hnil : db.graph.madeFor m = [] := List.length_eq_zero_iff.mp hmade
        exact (congrArg (db.graph.mentions ++ ·) hnil).trans (List.append_nil _)
      rw [hmentions]
      exact h.kept.2 (hrewired.of_append fun hdelete => hdelete)
    · exact absurd hrewired (not_rewired_of_creates hmade)
  nodes := h.nodes
  pending m' hm' e he huuid := by
    rcases List.mem_append.mp he with he | he
    · exact h.pending m' (List.mem_cons_of_mem m hm') e he huuid
    · have heq : e.uuid = m.edge.uuid := (of_mem_created he).2.2
      exact absurd (List.mem_map.mpr ⟨m', hm', huuid.symm.trans heq⟩)
        (List.nodup_cons.mp h.distinct).1
  distinct := h.tail.distinct
  survivor := h.tail.survivor

/-- The `DELETE` of a turn matches the row of the turn. -/
theorem Graph.Underway.matches_iff (server : Server) (h : g.Underway merges rest db) {e : Mention} :
    (db.after server m.create).graph.matchesMention m.edge.src m.edge.dst m.edge.uuid e = true ↔
      g.IsRow e m.edge := by
  have hnodes : (db.after server m.create).graph.nodes = g.nodes := h.nodes
  rw [matchesMention_iff, withUuid_congr hnodes, withUuid_congr hnodes]
  exact ⟨fun ⟨huuid, hsrc, hdst⟩ => ⟨huuid.symm, hsrc, hdst⟩,
    fun his => ⟨his.uuid.symm, his.src, his.dst⟩⟩

/-- What the two queries of a turn leave. -/
theorem Graph.Underway.mem_deleted_iff (h : g.Underway merges rest db) {e : Mention} :
    e ∈ ((db.after server m.create).after server m.delete).graph.mentions ↔
      (e ∈ db.graph.mentions ∨ e ∈ db.graph.madeFor m) ∧ ¬ g.IsRow e m.edge := by
  rw [← h.matches_iff server, ← List.mem_append, Bool.not_eq_true,
    ← Bool.not_eq_true']
  exact List.mem_filter

/-- An edge that the turn has made leads from the survivor to the old target, and is not the
row of the turn. -/
theorem Graph.Underway.of_mem_madeFor (h : g.Underway merges (m :: rest) db) {e : Mention}
    (he : e ∈ db.graph.madeFor m) : e.src ∈ g.withUuid .episodic m.survivor ∧
      e.dst ∈ g.withUuid .entity m.edge.dst ∧ ¬ g.IsRow e m.edge := by
  obtain ⟨-, -, hne⟩ := h.survivor m List.mem_cons_self
  obtain ⟨hsrc, hdst, -⟩ := of_mem_created he
  rw [withUuid_congr h.nodes] at hsrc hdst
  refine ⟨hsrc, hdst, fun his => hne ?_⟩
  obtain ⟨n, hn, hu⟩ := mem_withUuid.mp hsrc
  obtain ⟨n', hn', hu'⟩ := mem_withUuid.mp his.src
  obtain rfl := Option.some.inj (hn.symm.trans hn')
  exact Option.some.inj (hu.symm.trans hu')

/-- The turn keeps the targets: the new edge stands in for the old one. -/
theorem Graph.Underway.keepsTargets_deleted (server : Server) (hentity : g.Unique .entity)
    (hgroups : g.RespectsGroups merges) (h : g.Underway merges (m :: rest) db)
    (hmade : db.graph.madeFor m ≠ []) :
    db.graph.KeepsTargets ((db.after server m.create).after server m.delete).graph := by
  obtain ⟨hv, hroot, -⟩ := h.survivor m List.mem_cons_self
  refine ⟨fun _ _ hn => hn, fun e he n t hn ht => ?_⟩
  by_cases his : g.IsRow e m.edge
  · obtain ⟨e', he'⟩ := List.exists_mem_of_ne_nil _ hmade
    obtain ⟨hsrc, hdst, hnot⟩ := h.of_mem_madeFor he'
    obtain ⟨n', hn', hu'⟩ := mem_withUuid.mp hsrc
    obtain ⟨n₀, hn₀, hu⟩ := mem_withUuid.mp his.src
    obtain ⟨t', ht', hw'⟩ := mem_withUuid.mp hdst
    obtain ⟨t₀, ht₀, hw⟩ := mem_withUuid.mp his.dst
    rw [labelled_congr h.nodes] at hn
    obtain rfl := Option.some.inj (hn.symm.trans hn₀)
    refine ⟨e', h.mem_deleted_iff.mpr ⟨.inr he', hnot⟩, n',
      (labelled_congr h.nodes _).trans hn', ?_, hentity ht' ht₀ hw' hw⟩
    refine (hgroups hn hn' hu hu' hv ?_).symm
    rw [hroot, rootOf_rootOf]
  · exact ⟨e, h.mem_deleted_iff.mpr ⟨.inl he, his⟩, n, hn, rfl, rfl⟩

/-- It leaves no uuid twice where there was none before. -/
theorem Graph.Underway.nodup_deleted (hepisodic : g.Keyed .episodic) (hentity : g.Unique .entity)
    (h : g.Underway merges (m :: rest) db)
    (hold : (db.graph.mentions.map Mention.uuid).Nodup) :
    (((db.after server m.create).after server m.delete).graph.mentions.map
      Mention.uuid).Nodup := by
  have hnew : (db.graph.madeFor m).length ≤ 1 :=
    Graph.length_created_le (hepisodic.congr h.nodes).unique (hentity.congr h.nodes) ..
  have hmentions : ((db.after server m.create).after server m.delete).graph.mentions =
      (db.graph.mentions.filter fun e => !(db.after server m.create).graph.matchesMention
        m.edge.src m.edge.dst m.edge.uuid e) ++
      (db.graph.madeFor m).filter fun e => !(db.after server m.create).graph.matchesMention
        m.edge.src m.edge.dst m.edge.uuid e := List.filter_append ..
  rw [hmentions, List.map_append]
  refine List.Nodup.append (hold.sublist (List.filter_sublist.map _)) ?_ fun u hu hu' => ?_
  · refine List.Nodup.sublist (List.filter_sublist.map _) ?_
    rcases hlist : db.graph.madeFor m with _ | ⟨e, _ | ⟨e', es⟩⟩
    · exact List.nodup_nil
    · exact List.nodup_singleton _
    · simp [hlist] at hnew
  · obtain ⟨e, he, rfl⟩ := List.mem_map.mp hu
    obtain ⟨e', he', huuid⟩ := List.mem_map.mp hu'
    obtain ⟨he, hnot⟩ := List.mem_filter.mp he
    rw [(of_mem_created (List.mem_of_mem_filter he')).2.2] at huuid
    rw [Bool.not_eq_true', ← Bool.not_eq_true, h.matches_iff server] at hnot
    exact hnot (h.pending m List.mem_cons_self e he huuid.symm)

/-- After the `DELETE` of a turn whose `CREATE` has made an edge. -/
theorem Graph.Underway.deleted (hepisodic : g.Keyed .episodic) (hentity : g.Unique .entity)
    (hgroups : g.RespectsGroups merges) (h : g.Underway merges (m :: rest) db)
    (hmade : db.graph.madeFor m ≠ []) :
    g.Underway merges rest ((db.after server m.create).after server m.delete) where
  kept := by
    have hkeeps := h.keepsTargets_deleted server hentity hgroups hmade
    refine ⟨h.kept.1.trans hkeeps, fun hrewired => ?_⟩
    have hboth : Rewired (db.log ++ [⟨m.create, (db.graph.madeFor m).length⟩] ++
        [⟨m.delete, ()⟩]) := hrewired
    rw [List.append_assoc] at hboth
    exact h.nodup_deleted hepisodic hentity (h.kept.2 (hboth.of_append fun hdelete => hdelete))
  nodes := h.nodes
  pending m' hm' e he huuid :=
    (h.created : g.Underway merges rest (db.after server m.create)).pending m' hm' e
      (List.mem_of_mem_filter he) huuid
  distinct := h.tail.distinct
  survivor := h.tail.survivor

/-- A turn of the rewire loop, wherever it stops. -/
theorem along_rewireRow (hepisodic : g.Keyed .episodic) (hentity : g.Unique .entity)
    (hgroups : g.RespectsGroups merges) (h : g.Underway merges (m :: rest) db) :
    Prog.Along server.handle (g.Underway merges rest) (rewireRow m) db := by
  rw [rewireRow]
  have hcreated : g.Underway merges rest (db.after server m.create) := h.created
  refine along_query_attempt h.tail (fun error => h.tail.tick _) ?_
  dsimp only
  split
  · exact hcreated
  · next hmade =>
    have hmade' : db.graph.madeFor m ≠ [] := fun hnil => hmade (congrArg List.length hnil)
    refine along_query_attempt hcreated (fun error => hcreated.tick _) ?_
    exact h.deleted hepisodic hentity hgroups hmade'

/-! ## The whole fold -/

/-- Phase B leaves the graph as it is, or without the edges that it drops. -/
def Graph.Dropped (g : Graph) (dropped : List String) (db : FalkorDb) : Prop :=
  db.graph = g ∨ db.graph = g.keepMentions fun e => e.uuid ∉ dropped

theorem along_deleteMentionsByUuid (dropped : List String) (hdb : db.graph = g) :
    Prog.Along server.handle (g.Dropped dropped) (deleteMentionsByUuid dropped) db := by
  have honly : Prog.Only (fun q => q = .countMentions ∨ q = .deleteMentions dropped)
      (deleteMentionsByUuid dropped) := by
    unfold deleteMentionsByUuid
    split
    · exact Prog.only_ret _
    · exact (only_query (.inl rfl)).bind fun before => (only_query (.inr rfl)).bind fun _ =>
        (only_query (.inl rfl)).bind fun after => Prog.only_ret _
  refine honly.along (fun q db hq hJ => ?_) (.inl hdb)
  rcases handle_cases server q db with ⟨error, h⟩ | h
  · rw [h]
    exact hJ
  · rw [h]
    rcases hq with rfl | rfl
    · exact hJ
    · refine .inr ?_
      have hgraph : (db.after server (.deleteMentions dropped)).graph =
          db.graph.keepMentions fun e => e.uuid ∉ dropped := rfl
      rcases hJ with h | h
      · rw [hgraph, h]
      · rw [hgraph, h]
        exact Graph.keepMentions_of_forall fun e he => (List.mem_filter.mp he).2

/-- Behind phase B, all turns of the rewire loop are still to come. -/
theorem Graph.Dropped.underway (huuids : (g.mentions.map Mention.uuid).Nodup)
    {mentRows survRows : List MentionRow}
    (hment : mentRows.Perm
      (g.mentionRows fun row => row.srcUuid ∈ (victimsOf merges).map some))
    {dropped : List String} (hJ : g.Dropped dropped db) (hkept : g.Kept db) :
    g.Underway merges (planRewire merges mentRows survRows).rewire.toCreate db := by
  have hsub : ∀ e ∈ db.graph.mentions, e ∈ g.mentions := by
    rcases hJ with h | h
    · rw [h]
      exact fun _ => id
    · rw [h]
      exact fun _ => List.mem_of_mem_filter
  have hrow : ∀ m ∈ (planRewire merges mentRows survRows).rewire.toCreate,
      m.edge ∈ mentRows.filterMap MentionRow.resolve := fun m hm =>
    (splitRows_sublist [] _).subset (of_mem_toCreate hm).1
  refine ⟨hkept, ?_, fun m hm e he huuid => ?_, ?_, fun m hm => ?_⟩
  · rcases hJ with h | h <;> rw [h]
    rfl
  · obtain ⟨-, e₀, he₀, his⟩ :=
      Graph.isRow_of_mem (fun r hr => hment.mem_iff.mp hr) (hrow m hm)
    obtain rfl := List.inj_on_of_nodup_map huuids he₀ (hsub e he) (his.uuid.symm.trans huuid.symm)
    exact his
  · have hunique := ((splitRows_perm [] _).nodup_iff.mpr
      (Graph.nodup_rows hment huuids)).of_append_left
    exact ((classify_perm_filter _ _ _ _).nodup_iff.mpr
      (hunique.sublist (List.filter_sublist.map _))).of_append_right
  · obtain ⟨-, hsurvivor, hne, -⟩ := of_mem_toCreate hm
    exact ⟨(Graph.isRow_of_mem (fun r hr => hment.mem_iff.mp hr) (hrow m hm)).1, hsurvivor, hne⟩

/-- The writing half, wherever it stops. -/
theorem along_writeRewire (hepisodic : g.Keyed .episodic) (hentity : g.Unique .entity)
    (huuids : (g.mentions.map Mention.uuid).Nodup) (hgroups : g.RespectsGroups merges)
    {mentRows survRows : List MentionRow}
    (hment : mentRows.Perm
      (g.mentionRows fun row => row.srcUuid ∈ (victimsOf merges).map some))
    (hsurv : ∀ row ∈ survRows,
      row ∈ g.mentionRows fun row => row.srcUuid ∈ (survivorsOf merges).map some)
    (args : FoldArgs) (counters : Counters) (hdb : db.graph = g) :
    Prog.Along server.handle g.Kept
      (writeRewire merges args (planRewire merges mentRows survRows) counters) db := by
  let U := droppedUuids (rootOf merges) (survTargets survRows)
    (mentRows.filterMap MentionRow.resolve)
  have hkept : ∀ db, g.Dropped U db → g.Kept db := by
    rintro db (hgraph | hgraph)
    · rw [Graph.Kept, hgraph]
      exact ⟨.of_subset rfl fun _ => id, fun _ => huuids⟩
    · rw [Graph.Kept, hgraph]
      exact ⟨Graph.keepsTargets_keepMentions hgroups hentity huuids hment hsurv,
        fun _ => huuids.sublist (List.filter_sublist.map _)⟩
  refine Prog.Along.bind (Prog.along_attempt.mpr (along_deleteMentionsByUuid U hdb)) hkept
    fun dropped db hJ => ?_
  have hloop : Prog.Along server.handle (g.Underway merges [])
      (Prog.forEach rewireRow (planRewire merges mentRows survRows).rewire.toCreate) db :=
    Prog.Along.forEach_rest (J := g.Underway merges)
      (fun m rest db h => along_rewireRow hepisodic hentity hgroups h) (fun rest db h => h.done)
      (hJ.underway huuids hment (hkept db hJ))
  exact Prog.Along.bind hloop (fun db h => h.kept) fun turns db h =>
    along_deleteVictims merges args _ _ h.kept

/-- The fold, wherever it stops. -/
theorem along_applyEpisodicPlan (hepisodic : g.Keyed .episodic) (hentity : g.Unique .entity)
    (huuids : (g.mentions.map Mention.uuid).Nodup) (hgroups : g.RespectsGroups merges)
    (args : FoldArgs) (hdb : db.graph = g) :
    Prog.Along server.handle g.Kept (applyEpisodicPlan merges args) db := by
  have hkept : ∀ db : FalkorDb, db.graph = g → g.Kept db := by
    rintro db rfl
    exact ⟨.of_subset rfl fun _ => id, fun _ => huuids⟩
  have hread : ∀ (sources : List String) (db : FalkorDb), db.graph = g →
      ((Query.mentionsFrom sources).exec
        (server.scan db.tick) db.graph).1.Perm
          (g.mentionRows fun row => row.srcUuid ∈ sources.map some) := by
    rintro sources db rfl
    exact (server.scan db.tick).perm _
  have hdb₁ : (db.after server (.mentionsFrom (victimsOf merges))).graph = g := hdb
  rw [applyEpisodicPlan]
  split
  · exact hkept db hdb
  · refine along_query_attempt (hkept db hdb) (fun error => hkept _ hdb) ?_
    have hment := hread (victimsOf merges) db hdb
    revert hment
    generalize ((Query.mentionsFrom (victimsOf merges)).exec (server.scan db.tick) db.graph).1 =
      mentRows
    intro hment
    dsimp only
    split
    · exact hkept _ hdb
    · have hrest : ∀ (survRead : Except String (List MentionRow)) (db' : FalkorDb),
          db'.graph = g →
          (∀ row ∈ survRead.toOption.getD [],
            row ∈ g.mentionRows fun row => row.srcUuid ∈ (survivorsOf merges).map some) →
          ∀ counters counters', Prog.Along server.handle g.Kept (if !args.apply then
              (return counters : Cypher Counters)
            else writeRewire merges args
              (planRewire merges mentRows (survRead.toOption.getD [])) counters') db' := by
        intro survRead db' hdb' hsurv counters counters'
        split
        · exact hkept db' hdb'
        · exact along_writeRewire hepisodic hentity huuids hgroups hment hsurv args counters' hdb'
      refine along_query_attempt (hkept _ hdb) (fun error => ?_) ?_
      · refine hrest (.error error) _ ?_ (by simp [Except.toOption]) _ _
        exact hdb
      · refine hrest (.ok _) _ ?_ (fun row hrow => ?_) _ _
        · exact hdb
        · exact (hread (survivorsOf merges) _ hdb₁).mem_iff.mp hrow

end

/-! ## Crash, and fold again -/

/-- The first fold dies after `n` queries, or comes to its end before, and the next one
plans anew. Unless the first has died between a `CREATE` and its `DELETE`, every entity
that an episode mentioned is still mentioned by a byte-identical one. -/
theorem fold_crash_safe {server server' : Server} {sha1 : String → String} {g : Graph}
    {merges : List EpisodicMerge} (gid : String) (args args' : FoldArgs)
    (hepisodic : g.Keyed .episodic) (hentity : g.Unique .entity)
    (huuids : (g.mentions.map Mention.uuid).Nodup) (hsha : g.NoCollision sha1)
    (hgroups : g.RespectsGroups merges) {n : ℕ} {db db' : FalkorDb} (hdb : db.graph = g)
    (hcrash : Rewired (Prog.crash server.handle n (applyEpisodicPlan merges args) db).log)
    (hdb' : db'.graph = (Prog.crash server.handle n (applyEpisodicPlan merges args) db).graph) :
    g.KeepsTargets (Prog.run server'.handle (refold sha1 gid args') db').2.graph := by
  obtain ⟨hkeeps, hnodup⟩ := Prog.along_iff.mp
    (along_applyEpisodicPlan hepisodic hentity huuids hgroups args hdb) n
  replace hnodup := hnodup hcrash
  rw [← hdb'] at hkeeps hnodup
  -- the nodes that are left are as they were
  have hlabelled : ∀ {label i n}, db'.graph.labelled label i = some n →
      g.labelled label i = some n := by
    intro label i n hi
    obtain ⟨hget, hlabel⟩ := Graph.labelled_eq_some.mp hi
    exact Graph.labelled_eq_some.mpr ⟨hkeeps.nodes i n hget, hlabel⟩
  have hepisodic' : db'.graph.Keyed .episodic :=
    ⟨fun hi => hepisodic.named (hlabelled hi), fun hi hj =>
      hepisodic.inj (hlabelled hi) (hlabelled hj)⟩
  have hentity' : db'.graph.Unique .entity := fun hi hj =>
    hentity (hlabelled hi) (hlabelled hj)
  have hsha' : db'.graph.NoCollision sha1 := fun hi hj => hsha (hlabelled hi) (hlabelled hj)
  have hagain : Prog.Along server'.handle (fun db => db'.graph.KeepsTargets db.graph)
      (refold sha1 gid args') db' := by
    rw [refold]
    refine along_query_attempt (.of_subset rfl fun _ => id)
      (fun error => .of_subset rfl fun _ => id) ?_
    refine (Prog.along_bind_ret some).mpr (Prog.Along.mono (fun _ h => h.1)
      (along_applyEpisodicPlan hepisodic' hentity' hnodup ?_ args' rfl))
    refine hepisodic'.respectsGroups hsha' fun n hn => ?_
    exact Graph.labelled_of_mem_episodicNodes (((server'.scan db'.tick).perm _).mem_iff.mp hn)
  exact hkeeps.trans hagain.run

theorem noCollision_id (g : Graph) : g.NoCollision id := fun _ _ h => h

theorem twins_tidy : (twins "t").Tidy :=
  Graph.Distinct.tidy ⟨by decide, by decide, by decide, by decide⟩

theorem twins_respectsGroups : (twins "t").RespectsGroups (twinMerges "t") :=
  twins_tidy.episodic.respectsGroups (noCollision_id _)
    fun _ hn => Graph.labelled_of_mem_episodicNodes hn

/-- The twins, with the process dead after the `DELETE`. -/
theorem fold_crash_safe_twins : (twins "t").KeepsTargets
    (Prog.run inOrder.handle (refold id "g" persisting)
      ⟨(Prog.crash inOrder.handle 4 (applyEpisodicPlan (twinMerges "t") persisting)
        ⟨twins "t", 0, []⟩).graph, 0, []⟩).2.graph := by
  refine fold_crash_safe "g" persisting persisting twins_tidy.episodic twins_tidy.entity.unique
    twins_tidy.uuids (noCollision_id _) twins_respectsGroups rfl ?_ rfl
  intro pre x rest hlog hx
  have hcrash : (Prog.crash inOrder.handle 4 (applyEpisodicPlan (twinMerges "t") persisting)
      ⟨twins "t", 0, []⟩).log = [⟨.mentionsFrom ["v"], [⟨"e", some "v", some "t", none, none⟩]⟩,
        ⟨.mentionsFrom ["s"], []⟩, ⟨.createMention "s" "t" "e" "graphiti_memory" none, (1 : ℕ)⟩,
        ⟨.deleteMention "v" "t" "e", ()⟩] := rfl
  rw [hcrash] at hlog
  rcases pre with _ | ⟨_, _ | ⟨_, _ | ⟨_, _ | ⟨_, pre⟩⟩⟩⟩ <;>
    simp only [List.nil_append, List.cons_append, List.cons.injEq] at hlog
  · obtain ⟨rfl, -⟩ := hlog
    exact absurd hx id
  · obtain ⟨-, rfl, -⟩ := hlog
    exact absurd hx id
  · exact ⟨_, _, hlog.2.2.2.symm, trivial⟩
  · obtain ⟨-, -, -, rfl, -⟩ := hlog
    exact absurd hx id
  · simp at hlog

/-- Dead before the `DELETE`, it leaves two edges with one uuid, and the next fold deletes
both. -/
theorem not_fold_crash_safe : (twins "t").Distinct ∧ (twins "t").NoBlank ∧
    (twins "t").NoCollision id ∧ (twins "t").RespectsGroups (twinMerges "t") ∧
    ¬ (twins "t").KeepsTargets (Prog.run inOrder.handle (refold id "g" persisting)
      ⟨(Prog.crash inOrder.handle 3 (applyEpisodicPlan (twinMerges "t") persisting)
        ⟨twins "t", 0, []⟩).graph, 0, []⟩).2.graph := by
  refine ⟨⟨by decide, by decide, by decide, by decide⟩, by unfold Graph.NoBlank; decide,
    noCollision_id _, twins_respectsGroups, fun hkeeps => ?_⟩
  have hgone : (Prog.run inOrder.handle (refold id "g" persisting)
      ⟨(Prog.crash inOrder.handle 3 (applyEpisodicPlan (twinMerges "t") persisting)
        ⟨twins "t", 0, []⟩).graph, 0, []⟩).2.graph.mentions = [] := by rfl
  obtain ⟨e, he, -⟩ := hkeeps.targets ⟨1, 2, "e", none, none⟩ List.mem_cons_self _ _ rfl rfl
  rw [hgone] at he
  cases he

end JanusGraph
