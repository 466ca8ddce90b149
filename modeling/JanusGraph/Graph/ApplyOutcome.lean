import JanusGraph.Graph.ApplyRun
import JanusGraph.Graph.Chains
import JanusGraph.Graph.FoldRun
import JanusGraph.Graph.Frame

/-!
# A merge in which every query succeeds

What each phase of `apply_plan` makes of a graph whose entities and edges their uuids
tell apart, on a server that never raises.
-/

namespace JanusGraph

variable {Score : Type}

/-- Entities and edges are told apart by their uuids, and the merges are about entities of
the graph, one after another. -/
structure Graph.Mergeable (g : Graph) (plan : DedupPlan Score) : Prop where
  named : ∀ {i n}, g.labelled .entity i = some n → n.uuid.isSome
  unique : g.Unique .entity
  mentions : (g.mentions.map Mention.uuid).Nodup
  relations : (g.relations.map fun e => e.prop "uuid").Nodup
  uuids : ∀ e ∈ g.relations, e.prop "uuid" ≠ .null
  chained : ChainedMerges plan.merges
  known : ∀ m ∈ plan.merges, g.withUuid .entity m.victimUuid ≠ [] ∧
    g.withUuid .entity m.survivorUuid ≠ []

section

variable {plan : DedupPlan Score} {g : Graph}

/-- There is the root of a victim, and it is another node. -/
theorem Graph.Mergeable.root (h : g.Mergeable plan) {v : String} (hv : v ∈ plan.victims) :
    rootIn plan.redirect v ≠ v ∧ g.withUuid .entity (rootIn plan.redirect v) ≠ [] := by
  obtain ⟨m, hm, hroot⟩ := h.chained.root_mem hv
  refine ⟨fun heq => h.chained.root_not_mem v ?_, hroot ▸ (h.known m hm).2⟩
  rwa [heq]

/-! ## Phase A -/

/-- The edges made for a row of phase A. -/
def Graph.movedTo (g : Graph) (redirect : Table String String) (row : MentionRow) : List Mention :=
  g.created (row.srcUuid.getD "") (rootIn redirect (row.dstUuid.getD "")) row.edgeUuid
    (orDefault row.groupId "graphiti_memory") (orNone row.createdAt)

/-- The `MENTIONS` edges once these rows are moved. -/
def Graph.movedMentions (g : Graph) (redirect : Table String String) (rows : List MentionRow) :
    List Mention :=
  (g.mentions.filter fun e => e.uuid ∉ rows.map MentionRow.edgeUuid) ++
    rows.flatMap (g.movedTo redirect)

theorem resolve_isSome_iff {row : MentionRow} :
    row.resolve.isSome ↔ row.srcUuid.getD "" ≠ "" ∧ row.dstUuid.getD "" ≠ "" := by
  rw [MentionRow.resolve]
  split
  · next h => simpa [imp_iff_not_or] using h
  · next h => simpa using not_or.mp h

/-- A row with both endpoints has the uuid of its source. -/
theorem exists_srcUuid {row : MentionRow} (h : row.resolve.isSome) :
    ∃ u, row.srcUuid = some u := by
  rw [← Option.isSome_iff_exists, Option.isSome_iff_ne_none]
  intro hnone
  exact (resolve_isSome_iff.mp h).1 (by rw [hnone]; rfl)

theorem run_moveMention_skip {row : MentionRow} (hskip : row.resolve.isSome = false)
    (server : Server) (redirect : Table String String) (db : FalkorDb) :
    ∃ a, Prog.run server.handle (moveMention redirect row) db = (.ok a, db) := by
  have hends : row.srcUuid.getD "" = "" ∨ row.dstUuid.getD "" = "" := by
    rw [← Bool.not_eq_true, resolve_isSome_iff] at hskip
    tauto
  rw [moveMention]
  exact ⟨_, by rw [if_pos hends]; rfl⟩

/-- A resolved row to a victim is that of an edge, which can be moved. -/
theorem Graph.Mergeable.mention (h : g.Mergeable plan) {row : MentionRow}
    (hrow : row ∈ g.mentionRows fun row => row.dstUuid ∈ plan.victims.map some)
    (hresolved : row.resolve.isSome) :
    row.dstUuid.getD "" ∈ plan.victims ∧ g.movedTo plan.redirect row ≠ [] ∧
      ∃ e ∈ g.mentions, row.edgeUuid = e.uuid ∧
        g.matchesMention (row.srcUuid.getD "") (row.dstUuid.getD "") e.uuid e = true := by
  obtain ⟨hrow, hvictim⟩ := List.mem_filter.mp hrow
  obtain ⟨e, he, hmention⟩ := List.mem_filterMap.mp hrow
  obtain ⟨⟨s, hs, hsrc⟩, ⟨t, ht, hdst⟩, huuid⟩ := of_mentionRow hmention
  obtain ⟨v, hv, hdst'⟩ := List.mem_map.mp (of_decide_eq_true hvictim)
  obtain ⟨u, hu⟩ := exists_srcUuid hresolved
  have hsource : e.src ∈ g.withUuid .episodic u := mem_withUuid.mpr ⟨s, hs, hsrc.symm.trans hu⟩
  have htarget : e.dst ∈ g.withUuid .entity v :=
    mem_withUuid.mpr ⟨t, ht, hdst.symm.trans hdst'.symm⟩
  obtain ⟨j, hj⟩ := List.exists_mem_of_ne_nil _ (h.root hv).2
  rw [movedTo, ← hdst', hu]
  refine ⟨hv, ?_, e, he, huuid, ?_⟩
  · exact List.ne_nil_of_mem
      (List.mem_flatMap.mpr ⟨e.src, hsource, List.mem_map.mpr ⟨j, hj, rfl⟩⟩)
  · exact matchesMention_iff.mpr ⟨rfl, hsource, htarget⟩

section

variable {server : Server} (hquiet : server.Quiet) {redirect : Table String String}

include hquiet

theorem run_moveMention {row : MentionRow} (hresolved : row.resolve.isSome) {db : FalkorDb}
    (hroot : rootIn redirect (row.dstUuid.getD "") ≠ row.dstUuid.getD "")
    (hmade : db.graph.movedTo redirect row ≠ []) :
    Prog.run server.handle (moveMention redirect row) db =
      (.ok { moved := 1 }, (db.after server (row.create redirect)).after server row.delete) := by
  obtain ⟨hsrc, hdst⟩ := resolve_isSome_iff.mp hresolved
  have hlen : (db.graph.movedTo redirect row).length ≠ 0 := by
    rwa [ne_eq, List.length_eq_zero_iff]
  rw [moveMention, if_neg (not_or.mpr ⟨hsrc, hdst⟩), if_neg hroot,
    Prog.run_bind_ok (run_query_attempt hquiet _ _)]
  dsimp only
  split
  · next hzero => exact absurd hzero hlen
  · rw [Prog.run_bind_ok (run_query_attempt hquiet _ _)]
    rfl

/-- Phase A. -/
theorem run_moveMentions (h : g.Mergeable plan) {rows : List MentionRow}
    (hrows : ∀ row ∈ rows, row ∈ g.mentionRows fun row => row.dstUuid ∈ plan.victims.map some)
    {db : FalkorDb} (hdb : db.graph = g) :
    ∃ as db', Prog.run server.handle (Prog.forEach (moveMention plan.redirect) rows) db =
        (.ok as, db') ∧ db'.graph.nodes = g.nodes ∧ db'.graph.relations = g.relations ∧
      db'.graph.others = g.others ∧ db'.graph.mentions =
        g.movedMentions plan.redirect (rows.filter fun row => row.resolve.isSome) := by
  let I : List MentionRow → FalkorDb → Prop := fun done db' =>
    db'.graph.nodes = g.nodes ∧ db'.graph.relations = g.relations ∧
      db'.graph.others = g.others ∧ db'.graph.mentions =
        g.movedMentions plan.redirect (done.filter fun row => row.resolve.isSome)
  have hstart : I [] db := by
    subst hdb
    exact ⟨rfl, rfl, rfl, by simp [Graph.movedMentions]⟩
  have hturn : ∀ done row rest db', rows = done ++ row :: rest → I done db' → ∃ a db₂,
      Prog.run server.handle (moveMention plan.redirect row) db' = (.ok a, db₂) ∧
        I (done ++ [row]) db₂ := by
    rintro done row rest db' hdone ⟨hn, hr, ho, hm⟩
    cases hresolved : row.resolve.isSome with
    | false =>
      obtain ⟨a, hrun⟩ := run_moveMention_skip hresolved server plan.redirect db'
      exact ⟨a, db', hrun, hn, hr, ho, by simp [hm, hresolved]⟩
    | true =>
      have hin : row ∈ rows := by simp [hdone]
      obtain ⟨hv, hmade, e, he, huuid, hmatch⟩ := h.mention (hrows row hin) hresolved
      have hmadeFor : db'.graph.movedTo plan.redirect row = g.movedTo plan.redirect row :=
        Graph.created_congr hn ..
      refine ⟨_, _, run_moveMention hquiet hresolved (h.root hv).1 (hmadeFor.symm ▸ hmade), hn, hr,
        ho, ?_⟩
      have hdone₁ : (done ++ [row]).filter (fun row => row.resolve.isSome) =
          (done.filter fun row => row.resolve.isSome) ++ [row] := by simp [hresolved]
      change (db'.graph.mentions ++ db'.graph.movedTo plan.redirect row).filter
        (fun e => !db'.graph.matchesMention _ _ _ e) = _
      simp only [Graph.matchesMention_congr hn]
      rw [hm, hmadeFor, Graph.movedMentions, Graph.movedMentions, hdone₁]
      refine filter_moved ?_ fun row' _ e' he' => ?_
      · rw [List.map_append, List.map_singleton, huuid,
          Graph.filter_not_matchesMention h.mentions he hmatch]
      · -- what has been made goes to roots
        rw [Graph.matchesMention_iff]
        rintro ⟨-, -, hdst⟩
        have hroot := Graph.withUuid_inj hdst (Graph.of_mem_created he').2.1
        exact h.chained.root_not_mem _ (hroot ▸ hv)
  exact Prog.run_forEach_done (I := fun done _ => I done)
    (fun done row rest _ => hturn done row rest) hstart

end

/-! ## Phase B -/

/-- The edges made for a row of phase B. -/
def Graph.remade (g : Graph) (py : Builtins) (redirect : Table String String) (row : RelationRow) :
    List Relation :=
  if row.newSrc redirect = row.newDst redirect then []
  else g.createdRelations (row.newSrc redirect) (row.newDst redirect)
    (recreatedProps py row (row.newSrc redirect) (row.newDst redirect))

/-- The `RELATES_TO` edges once these rows are moved. -/
def Graph.movedRelations (g : Graph) (py : Builtins) (redirect : Table String String)
    (rows : List RelationRow) : List Relation :=
  (g.relations.filter fun e => e.prop "uuid" ∉ rows.map RelationRow.edgeUuid) ++
    rows.flatMap (g.remade py redirect)

/-- The row is one of the read of phase B. -/
def RelationRow.touched (plan : DedupPlan Score) (row : RelationRow) : Bool :=
  row.srcUuid ∈ plan.victims.map some ∨ row.dstUuid ∈ plan.victims.map some

/-- The row of an edge has the uuids of its ends. -/
theorem Graph.Mergeable.ends (h : g.Mergeable plan) {e : Relation} {row : RelationRow}
    (hrow : g.relationRow e = some row) : ∃ u v, row.srcUuid = some u ∧ row.dstUuid = some v ∧
      e.src ∈ g.withUuid .entity u ∧ e.dst ∈ g.withUuid .entity v := by
  obtain ⟨⟨a, ha, hsrc⟩, ⟨b, hb, hdst⟩, -, -⟩ := of_relationRow hrow
  obtain ⟨u, hu⟩ := Option.isSome_iff_exists.mp (h.named ha)
  obtain ⟨v, hv⟩ := Option.isSome_iff_exists.mp (h.named hb)
  exact ⟨u, v, hsrc.trans hu, hdst.trans hv, mem_withUuid.mpr ⟨a, ha, hu⟩,
    mem_withUuid.mpr ⟨b, hb, hv⟩⟩

/-- A row that is read is that of an edge, and is not settled. -/
theorem Graph.Mergeable.relation (h : g.Mergeable plan) {row : RelationRow}
    (hrow : row ∈ g.relationRows (RelationRow.touched plan)) :
    ¬ row.Settled plan.redirect ∧ ∃ e ∈ g.relations, row.edgeUuid = e.prop "uuid" ∧
      g.matchesRelation row.srcUuid row.dstUuid row.edgeUuid e = true := by
  obtain ⟨hrow, htouched⟩ := List.mem_filter.mp hrow
  obtain ⟨e, he, hrelation⟩ := List.mem_filterMap.mp hrow
  obtain ⟨u, v, hsrc, hdst, hsource, htarget⟩ := h.ends hrelation
  obtain ⟨-, -, huuid, -⟩ := of_relationRow hrelation
  refine ⟨?_, e, he, huuid, matchesRelation_iff.mpr
    ⟨huuid ▸ h.uuids e he, huuid.symm, u, v, hsrc, hdst, hsource, htarget⟩⟩
  rw [RelationRow.Settled, RelationRow.newSrc, RelationRow.newDst, hsrc, hdst]
  rintro ⟨hu, hv⟩
  rw [RelationRow.touched, hsrc, hdst, decide_eq_true_eq] at htouched
  rcases htouched with hvictim | hvictim
  · exact (h.root (by simpa using hvictim)).1 hu
  · exact (h.root (by simpa using hvictim)).1 hv

section

variable {server : Server} (hquiet : server.Quiet) {redirect : Table String String}

include hquiet

theorem run_moveRelation (py : Builtins) {row : RelationRow} (hmoved : ¬ row.Settled redirect)
    (db : FalkorDb) :
    ∃ moved db', Prog.run server.handle (moveRelation py redirect row) db = (.ok moved, db') ∧
      db'.graph.nodes = db.graph.nodes ∧ db'.graph.mentions = db.graph.mentions ∧
      db'.graph.others = db.graph.others ∧
      db'.graph.relations = (db.graph.relations ++ db.graph.remade py redirect row).filter fun e =>
        !db.graph.matchesRelation row.srcUuid row.dstUuid row.edgeUuid e := by
  rw [moveRelation, if_neg (show ¬ (_ ∧ _) from hmoved)]
  by_cases hsame : row.newSrc redirect = row.newDst redirect
  · rw [if_pos hsame, Prog.run_bind_ok (run_query_attempt hquiet _ _), Graph.remade, if_pos hsame,
      List.append_nil]
    exact ⟨_, _, rfl, rfl, rfl, rfl, rfl⟩
  · rw [if_neg hsame, Prog.run_bind_ok (run_query_attempt hquiet _ _)]
    dsimp only
    rw [Prog.run_bind_ok (run_query_attempt hquiet _ _), Graph.remade, if_neg hsame]
    exact ⟨_, _, rfl, rfl, rfl, rfl, rfl⟩

/-- Phase B. -/
theorem run_moveRelations (py : Builtins) (h : g.Mergeable plan) {rows : List RelationRow}
    (hrows : ∀ row ∈ rows, row ∈ g.relationRows (RelationRow.touched plan)) (db : FalkorDb)
    (hnodes : db.graph.nodes = g.nodes) (hrelations : db.graph.relations = g.relations) :
    ∃ as db', Prog.run server.handle (Prog.forEach (moveRelation py plan.redirect) rows) db =
        (.ok as, db') ∧ db'.graph.nodes = g.nodes ∧
      db'.graph.mentions = db.graph.mentions ∧ db'.graph.others = db.graph.others ∧
      db'.graph.relations = g.movedRelations py plan.redirect rows := by
  let I : List RelationRow → FalkorDb → Prop := fun done db' =>
    db'.graph.nodes = g.nodes ∧ db'.graph.mentions = db.graph.mentions ∧
      db'.graph.others = db.graph.others ∧
        db'.graph.relations = g.movedRelations py plan.redirect done
  have hstart : I [] db :=
    ⟨hnodes, rfl, rfl, by simp [hrelations, Graph.movedRelations]⟩
  have hturn : ∀ done row rest db', rows = done ++ row :: rest → I done db' → ∃ a db₂,
      Prog.run server.handle (moveRelation py plan.redirect row) db' = (.ok a, db₂) ∧
        I (done ++ [row]) db₂ := by
    rintro done row rest db' hdone ⟨hn, hm, ho, hr⟩
    have hin : row ∈ rows := by simp [hdone]
    obtain ⟨hmoved, e, he, huuid, hmatch⟩ := h.relation (hrows row hin)
    obtain ⟨a, db₂, hrun, hn₂, hm₂, ho₂, hr₂⟩ := run_moveRelation hquiet py hmoved db'
    refine ⟨a, db₂, hrun, hn₂.trans hn, hm₂.trans hm, ho₂.trans ho, ?_⟩
    have hremade : db'.graph.remade py plan.redirect row = g.remade py plan.redirect row := by
      rw [Graph.remade, Graph.remade, Graph.createdRelations_congr hn]
    simp only [Graph.matchesRelation_congr hn] at hr₂
    rw [huuid] at hmatch hr₂
    rw [hr₂, hr, hremade, Graph.movedRelations, Graph.movedRelations]
    refine filter_moved ?_ fun row' _ e' he' => ?_
    · rw [List.map_append, List.map_singleton, huuid,
        Graph.filter_not_matchesRelation h.relations he hmatch]
    -- what has been made goes to roots
    rw [Graph.remade] at he'
    split at he'
    · cases he'
    obtain ⟨hsrc', hdst', -⟩ := Graph.of_mem_createdRelations he'
    rw [Graph.matchesRelation_iff]
    rintro ⟨-, -, u, v, hu, hv, hsrc, hdst⟩
    have htouched := (List.mem_filter.mp (hrows row hin)).2
    rw [RelationRow.touched, hu, hv, decide_eq_true_eq] at htouched
    rcases htouched with hvictim | hvictim
    · refine h.chained.root_not_mem (row'.srcUuid.getD "None") ?_
      rw [← RelationRow.newSrc, Graph.withUuid_inj hsrc' hsrc]
      simpa using hvictim
    · refine h.chained.root_not_mem (row'.dstUuid.getD "None") ?_
      rw [← RelationRow.newDst, Graph.withUuid_inj hdst' hdst]
      simpa using hvictim
  exact Prog.run_forEach_done (I := fun done _ => I done)
    (fun done row rest _ => hturn done row rest) hstart

end

/-- Each edge that is left has a uuid. -/
theorem Graph.Mergeable.uuids_moved (h : g.Mergeable plan) {py : Builtins} {rows : List RelationRow}
    (hrows : ∀ row ∈ rows, row ∈ g.relationRows (RelationRow.touched plan)) {e : Relation}
    (he : e ∈ g.movedRelations py plan.redirect rows) : e.prop "uuid" ≠ .null := by
  rcases List.mem_append.mp he with he | he
  · exact h.uuids e (List.mem_of_mem_filter he)
  · obtain ⟨row, hrow, he⟩ := List.mem_flatMap.mp he
    obtain ⟨-, e₀, he₀, huuid, -⟩ := h.relation (hrows row hrow)
    rw [remade] at he
    split at he
    · cases he
    · obtain ⟨-, -, hprops⟩ := of_mem_createdRelations he
      have hprop : e.prop "uuid" = row.edgeUuid := by
        rw [Relation.prop, hprops]
        exact prop_recreated e.src e.dst "uuid"
      rw [hprop, huuid]
      exact h.uuids e₀ he₀

/-! ## Phase C -/

theorem Graph.firstOfGroups_eq (g : Graph) (es : List Relation)
    (seen : List (Option String × Option String × Value)) :
    g.firstOfGroups es seen = firsts g.relationGroup es seen := by
  induction es generalizing seen with
  | nil => rfl
  | cons e es ih =>
    rw [firstOfGroups, firsts]
    rcases g.relationGroup e with _ | group
    · simp only [ih]
    · by_cases hseen : group ∈ seen <;> simp only [hseen, if_true, if_false, ih]

theorem Graph.duplicates_eq (g : Graph) (es : List Relation) :
    g.duplicates es = repeats id (es.filterMap g.relationGroup) := by
  rw [duplicates, repeats, List.map_id]

/-- Phase C: the first edge of each group is left. -/
theorem run_dropDuplicates {server : Server} (hquiet : server.Quiet) (db : FalkorDb)
    (huuids : ∀ e ∈ db.graph.relations, e.prop "uuid" ≠ .null) :
    ∃ dropped db', Prog.run server.handle dropDuplicates db = (.ok dropped, db') ∧
      db'.graph.nodes = db.graph.nodes ∧ db'.graph.mentions = db.graph.mentions ∧
      db'.graph.others = db.graph.others ∧ ∃ es, es.Perm db.graph.relations ∧
        db'.graph.relations = firsts db.graph.relationGroup es [] := by
  have hcount : (Query.countDuplicates.exec (server.scan db.tick) db.graph).1 =
      repeats id (db.graph.relations.filterMap db.graph.relationGroup) := by
    change db.graph.duplicates (db.graph.relations.filter fun e => e.prop "uuid" ≠ .null) = _
    rw [List.filter_eq_self.mpr fun e he => decide_eq_true (huuids e he), Graph.duplicates_eq]
  rw [dropDuplicates, Prog.run_bind_ok (run_query_attempt hquiet _ _), hcount]
  dsimp only
  split
  · next hnone =>
    refine ⟨_, _, rfl, rfl, rfl, rfl, _, .refl _, (firsts_of_nodup ?_ (by simp)).symm⟩
    rwa [repeats_eq_zero, List.map_id] at hnone
  · rw [Prog.run_bind_ok (run_query_attempt hquiet _ _)]
    exact ⟨_, _, rfl, rfl, rfl, rfl, _, (server.scan _).perm _, Graph.firstOfGroups_eq ..⟩

/-! ## Phase D -/

/-- Only the edges of a graph keep its nodes. -/
theorem Graph.detached_congr {g g' : Graph} (hmentions : g'.mentions = g.mentions)
    (hrelations : g'.relations = g.relations) (hothers : g'.others = g.others) :
    g'.detached = g.detached := by
  funext victims i n
  rw [detached, detached, hmentions, hrelations, hothers]

theorem Graph.detached_append (g : Graph) (vs ws : List String) (i : ℕ) (n : Node) :
    g.detached (vs ++ ws) i n = (g.detached vs i n || g.detached ws i n) := by
  rw [Bool.eq_iff_iff]
  simp only [detached, List.map_append, List.mem_append, decide_eq_true_eq, Bool.or_eq_true]
  tauto

/-- Phase D: the victims that no edge touches go. -/
theorem run_deleteDetachedChunks {server : Server} (hquiet : server.Quiet)
    (chunks : List (List String)) (db : FalkorDb) :
    ∃ as db', Prog.run server.handle (Prog.forEach deleteDetachedChunk chunks) db = (.ok as, db') ∧
      db'.graph = db.graph.removeNodes (db.graph.detached chunks.flatten) := by
  let I : List (List String) → FalkorDb → Prop := fun done db' =>
    db'.graph = db.graph.removeNodes (db.graph.detached done.flatten)
  have hstart : I [] db := by
    refine (Graph.removeNodes_of_forall fun i n _ => ?_).symm
    simp [Graph.detached]
  have hturn : ∀ done chunk (rest : List (List String)) db', I done db' → ∃ a db₂,
      Prog.run server.handle (deleteDetachedChunk chunk) db' = (.ok a, db₂) ∧
        I (done ++ [chunk]) db₂ := by
    rintro done chunk rest db' (hgraph : db'.graph = _)
    rw [deleteDetachedChunk, Prog.run_bind_ok (run_query_attempt hquiet _ _)]
    dsimp only
    rw [Prog.run_bind_ok (run_query_attempt hquiet _ _)]
    refine ⟨_, _, rfl, ?_⟩
    change db'.graph.removeNodes (db'.graph.detached chunk) = _
    have hsame : db'.graph.detached = db.graph.detached := by
      rw [hgraph]
      exact Graph.detached_congr (Graph.mentions_removeDetached ..)
        (Graph.relations_removeDetached ..) (Graph.others_removeDetached ..)
    rw [hsame, hgraph, Graph.removeNodes_removeNodes]
    refine Graph.removeNodes_congr fun i n _ => ?_
    rw [List.flatten_append, List.flatten_singleton, Graph.detached_append]
  exact Prog.run_forEach_done (I := fun done _ => I done)
    (fun done chunk rest _ db' _ => hturn done chunk rest db') hstart

/-! ## The phases together -/

/-- What phases A to C leave of a graph. -/
structure Graph.MovedTo (g : Graph) (py : Builtins) (plan : DedupPlan Score) (g' : Graph) :
    Prop where
  nodes : g'.nodes = g.nodes
  others : g'.others = g.others
  mentions : ∃ rows : List MentionRow,
    rows.Perm (g.mentionRows fun row => row.dstUuid ∈ plan.victims.map some) ∧
    g'.mentions = g.movedMentions plan.redirect (rows.filter fun row => row.resolve.isSome)
  relations : ∃ (rows : List RelationRow) (es : List Relation),
    rows.Perm (g.relationRows (RelationRow.touched plan)) ∧
    es.Perm (g.movedRelations py plan.redirect rows) ∧
    g'.relations = firsts g.relationGroup es []

theorem run_readRows {α : Type} {server : Server} {what : String} {read : Cypher (List α)}
    {db db' : FalkorDb} {rows : List α} (hread : Prog.run server.handle read db = (.ok rows, db')) :
    Prog.run server.handle (readRows what read) db = (.ok (rows, []), db') := by
  have hattempt : Prog.run server.handle (read.attempt : Cypher (Except String (List α))) db =
      (.ok (.ok rows), db') := by
    rw [Prog.run_attempt, hread]
  rw [readRows, Prog.run_bind_ok hattempt]
  rfl

/-- A merge in which every query succeeds; without a batch size phase D raises. -/
theorem run_applyPlan {server : Server} (hquiet : server.Quiet) (h : g.Mergeable plan)
    (hmerges : plan.merges ≠ []) (py : Builtins) (batch : ℕ) {db : FalkorDb} (hdb : db.graph = g) :
    ∃ g₃, g.MovedTo py plan g₃ ∧
      (Prog.run server.handle (applyPlan py plan true batch) db).2.graph =
        if batch = 0 then g₃ else g₃.removeNodes (g₃.detached plan.victims) := by
  let db₁ := db.after server (.mentionsTo plan.victims)
  have hgraph₁ : db₁.graph = g := hdb
  let mentRows := (server.scan db.tick).scan
    (db.graph.mentionRows fun row => row.dstUuid ∈ plan.victims.map some)
  have hment : mentRows.Perm (g.mentionRows fun row => row.dstUuid ∈ plan.victims.map some) :=
    hdb ▸ (server.scan db.tick).perm _
  obtain ⟨mentions, db₂, hphaseA, hn₂, hr₂, ho₂, hm₂⟩ :=
    run_moveMentions hquiet h (fun row hrow => hment.mem_iff.mp hrow) hgraph₁
  let db₃ := db₂.after server (.relationsTouching plan.victims)
  let relRows := (server.scan db₂.tick).scan (db₂.graph.relationRows (RelationRow.touched plan))
  have hrel : relRows.Perm (g.relationRows (RelationRow.touched plan)) := by
    have hsame : db₂.graph.relationRows (RelationRow.touched plan) =
        g.relationRows (RelationRow.touched plan) := by
      rw [Graph.relationRows, Graph.relationRows, hr₂]
      exact congrArg _ (List.filterMap_congr fun e _ => Graph.relationRow_congr hn₂ e)
    exact hsame ▸ (server.scan db₂.tick).perm _
  obtain ⟨relations, db₄, hphaseB, hn₄, hm₄, ho₄, hr₄⟩ := run_moveRelations hquiet py h
    (fun row hrow => hrel.mem_iff.mp hrow) db₃ hn₂ hr₂
  obtain ⟨dropped, db₅, hphaseC, hn₅, hm₅, ho₅, es, hes, hr₅⟩ := run_dropDuplicates hquiet db₄
    fun e he => h.uuids_moved (fun row hrow => hrel.mem_iff.mp hrow) (hr₄ ▸ he)
  refine ⟨db₅.graph, ⟨hn₅.trans hn₄, ho₅.trans (ho₄.trans ho₂), ⟨mentRows, hment, ?_⟩,
    relRows, es, hrel, hr₄ ▸ hes, ?_⟩, ?_⟩
  · exact hm₅.trans (hm₄.trans hm₂)
  · rw [hr₅]
    congr 1
    funext e
    rw [Graph.relationGroup, Graph.relationGroup, Graph.relationRow_congr hn₄]
  · have hempty : ¬ plan.merges.isEmpty = true := by rwa [List.isEmpty_iff]
    have hread₁ : Prog.run server.handle (query (.mentionsTo plan.victims)) db =
        (.ok mentRows, db₁) := run_query hquiet _ db
    have hread₂ : Prog.run server.handle (query (.relationsTouching plan.victims)) db₂ =
        (.ok relRows, db₃) := run_query hquiet _ db₂
    rw [applyPlan, if_neg hempty, if_neg (by simp)]
    dsimp only
    rw [← DedupPlan.victims, Prog.run_bind_ok (run_readRows hread₁)]
    dsimp only
    rw [Prog.run_bind_ok hphaseA, Prog.run_bind_ok (run_readRows hread₂)]
    dsimp only
    rw [Prog.run_bind_ok hphaseB, Prog.run_bind_ok hphaseC]
    split
    · rfl
    · next hbatch =>
      obtain ⟨deleted, db₆, hphaseD, hgraph₆⟩ :=
        run_deleteDetachedChunks hquiet (batches batch plan.victims) db₅
      rw [flatten_batches hbatch] at hgraph₆
      rw [Prog.run_bind_ok hphaseD]
      exact hgraph₆

end

end JanusGraph
