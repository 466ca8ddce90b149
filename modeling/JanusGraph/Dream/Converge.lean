import JanusGraph.Dream.Dedup
import JanusGraph.Graph.Again
import JanusGraph.Graph.Returns

/-!
# Phase 2 comes to rest

One run of Phase 2 that nothing disturbs takes all it can: a second run on the graph that
it leaves, with the rows in any order, plans no merge of entities and changes nothing. It
plans to fold episodes only where the first run has refused to, because no victim mentions
anything.
-/

namespace JanusGraph

/-- An entity of the group. -/
def Graph.MemberAt (g : Graph) (gid : String) (i : ℕ) : Prop :=
  ∃ n, g.labelled .entity i = some n ∧ n.groupId = some gid

/-- A graph as the pipeline writes it: nodes and edges are told apart by their uuids, and at an
entity of the group there are only `MENTIONS` from episodes and `RELATES_TO` between entities. -/
structure Graph.Orderly (g : Graph) (gid : String) : Prop where
  distinct : g.Distinct
  noBlank : g.NoBlank
  relations : (g.relations.map fun e => e.prop "uuid").Nodup
  uuids : ∀ e ∈ g.relations, e.prop "uuid" ≠ .null
  joined : ∀ e ∈ g.relations, g.MemberAt gid e.src ∨ g.MemberAt gid e.dst →
    (g.relationRow e).isSome
  others : ∀ e ∈ g.others, ¬ g.MemberAt gid e.src ∧ ¬ g.MemberAt gid e.dst

/-! ## The snapshot -/

/-- The snapshot has the entities and the episodes of the group, in any order. -/
structure Graph.Shows (g : Graph) (gid : String) (snap : DedupSnapshot) : Prop where
  entities : snap.entities.Perm ((g.inGroup .entity gid).map Node.entityRecord)
  episodics : snap.episodics.Perm (g.episodicNodes fun n => n.groupId = some gid)

section

variable {server : Server} (hquiet : server.Quiet)

include hquiet

/-- A read of the snapshot. -/
theorem read_eq {α : Type} (db : FalkorDb) (rows : Graph → List α) :
    Server.handleDedup.read server db rows =
      (.ok ((server.scan db.tick).scan (rows db.graph)), { db with tick := db.tick + 1 }) := by
  rw [Server.handleDedup.read]
  simp only [hquiet db.tick]

/-- The snapshot has what the graph has, in some order. -/
theorem run_loadDedupSnapshot (py : Builtins) (gid : String) (db : FalkorDb) :
    ∃ snap db', Prog.run server.handleDedup (loadDedupSnapshot py gid) db = (.ok (snap, ""), db') ∧
      db'.graph = db.graph ∧ db.graph.Shows gid snap := by
  have hentities : ∀ db, server.handleDedup (.entities gid) db =
      (.ok ((server.scan db.tick).scan (db.graph.inGroup .entity gid)),
        { db with tick := db.tick + 1 }) :=
    fun db => read_eq hquiet db fun g => g.inGroup .entity gid
  have hepisodics : ∀ db, server.handleDedup (.pass (.episodics gid)) db =
      (.ok ((server.scan db.tick).scan (db.graph.episodicNodes fun n => n.groupId = some gid)),
        db.after server (.episodics gid)) := by
    intro db
    rw [Server.handleDedup, Server.handle]
    simp only [hquiet db.tick]
    rfl
  have hmentions : ∀ db, server.handleDedup (.mentions gid) db =
      (.ok ((server.scan db.tick).scan (db.graph.mentionEnds gid)),
        { db with tick := db.tick + 1 }) :=
    fun db => read_eq hquiet db fun g => g.mentionEnds gid
  have hrelations : ∀ db, server.handleDedup (.relations gid) db =
      (.ok ((server.scan db.tick).scan (db.graph.relationEnds gid)),
        { db with tick := db.tick + 1 }) :=
    fun db => read_eq hquiet db fun g => g.relationEnds gid
  rw [loadDedupSnapshot, run_dedupQuery_attempt_bind, hentities, run_dedupQuery_attempt_bind,
    hepisodics, run_dedupQuery_attempt_bind, hmentions, run_dedupQuery_attempt_bind, hrelations]
  exact ⟨_, _, rfl, rfl, ((server.scan _).perm _).map _, (server.scan _).perm _⟩

omit hquiet in
/-- The passes run as they do on their own. -/
theorem run_pass {α : Type} (p : Cypher α) (db : FalkorDb) :
    Prog.run server.handleDedup p.pass db = Prog.run server.handle p db :=
  Prog.run_via _ _ p db

end

/-! ## The merge of the entities -/

theorem Graph.mem_inGroup {g : Graph} {label : NodeLabel} {gid : String} {n : Node} :
    n ∈ g.inGroup label gid ↔ ∃ i, g.labelled label i = some n ∧ n.groupId = some gid := by
  simp only [inGroup, List.mem_filter, List.mem_map, Prod.exists, decide_eq_true_eq,
    labelled_eq_some, Table.mem_rows]
  constructor
  · rintro ⟨⟨i, m, hm, rfl⟩, hlabel, hgroup⟩
    exact ⟨i, ⟨hm, hlabel⟩, hgroup⟩
  · rintro ⟨i, ⟨hn, hlabel⟩, hgroup⟩
    exact ⟨⟨i, n, hn, rfl⟩, hlabel, hgroup⟩

theorem Graph.Keyed.of_nodes {g g' : Graph} {label : NodeLabel}
    (hnodes : ∀ i n, g'.nodes.get? i = some n → g.nodes.get? i = some n)
    (hkeyed : g.Keyed label) : g'.Keyed label := by
  have hlabelled : ∀ {i n}, g'.labelled label i = some n → g.labelled label i = some n := by
    intro i n hi
    obtain ⟨hget, hlabel⟩ := labelled_eq_some.mp hi
    exact labelled_eq_some.mpr ⟨hnodes i n hget, hlabel⟩
  exact ⟨fun hi => hkeyed.named (hlabelled hi),
    fun hi hj => hkeyed.inj (hlabelled hi) (hlabelled hj)⟩

/-- The entities of a group have records with distinct uuids. -/
theorem Graph.Keyed.distinctUuids {g : Graph} (hkeyed : g.Keyed .entity) {gid : String}
    {entities : List EntityRecord}
    (hentities : entities.Perm ((g.inGroup .entity gid).map Node.entityRecord)) :
    DistinctUuids entities := by
  refine DistinctUuids.of_some (fun r hr => ?_) ?_
  · obtain ⟨n, hn, rfl⟩ := List.mem_map.mp (hentities.mem_iff.mp hr)
    obtain ⟨i, hi, -⟩ := mem_inGroup.mp hn
    obtain ⟨u, hu⟩ := hkeyed.named hi
    exact Option.isSome_iff_exists.mpr ⟨u, hu⟩
  · have hrows : (g.nodes.rows.filter fun r =>
        r.2.label = .entity ∧ r.2.groupId = some gid).Nodup :=
      (List.Nodup.of_map _ g.nodes.nodup).filter _
    have hnodup : ((g.nodes.rows.filter fun r =>
        r.2.label = .entity ∧ r.2.groupId = some gid).map fun r => r.2.uuid).Nodup := by
      refine List.Nodup.map_on (fun r hr r' hr' heq => ?_) hrows
      obtain ⟨hr, hmember⟩ := List.mem_filter.mp hr
      obtain ⟨hr', hmember'⟩ := List.mem_filter.mp hr'
      have hi := labelled_eq_some.mpr ⟨Table.mem_rows.mp hr, (of_decide_eq_true hmember).1⟩
      have hj := labelled_eq_some.mpr ⟨Table.mem_rows.mp hr', (of_decide_eq_true hmember').1⟩
      have hkey := hkeyed.inj hi hj heq
      rw [hkey] at hi
      exact Prod.ext hkey (Option.some.inj (hi.symm.trans hj))
    rw [(hentities.map EntityRecord.uuid).nodup_iff, List.map_map, inGroup, List.filter_map,
      List.map_map]
    exact hnodup

section

variable {Score : Type} [LinearOrder Score] {g : Graph} {gid : String} (h : g.Orderly gid)
  {entities : List EntityRecord}
  (hentities : entities.Perm ((g.inGroup .entity gid).map Node.entityRecord))

include h

theorem Graph.Orderly.named {label : NodeLabel} {i : ℕ} {n : Node}
    (hn : g.labelled label i = some n) : n.uuid.isSome := by
  obtain ⟨u, hu⟩ := (h.distinct.keyed label).named hn
  rw [hu]
  rfl

include hentities

/-- A record of the snapshot is that of an entity of the group. -/
theorem Graph.Orderly.entity {r : EntityRecord} (hr : r ∈ entities) :
    ∃ i n u, g.labelled .entity i = some n ∧ n.groupId = some gid ∧ n.entityRecord = r ∧
      n.uuid = some u ∧ r.uuidText = u := by
  obtain ⟨n, hn, rfl⟩ := List.mem_map.mp (hentities.mem_iff.mp hr)
  obtain ⟨i, hlabelled, hgroup⟩ := mem_inGroup.mp hn
  obtain ⟨u, hu⟩ := Option.isSome_iff_exists.mp (h.named hlabelled)
  refine ⟨i, n, u, hlabelled, hgroup, rfl, hu, ?_⟩
  change n.uuid.getD "None" = u
  rw [hu]
  rfl

theorem Graph.Orderly.distinctUuids : DistinctUuids entities :=
  (h.distinct.keyed .entity).distinctUuids hentities

variable (scoring : Scoring Score) (mentions : List MentionRecord)
  (relations : List RelationRecord) (threshold : Score)

/-- The merges that are planned can be made. -/
theorem Graph.Orderly.mergeable :
    g.Mergeable (planDedup scoring entities mentions relations threshold) where
  named := h.named
  unique := (h.distinct.keyed .entity).unique
  mentions := h.distinct.mentions
  relations := h.relations
  uuids := h.uuids
  chained := (sound_planDedup scoring threshold (h.distinctUuids hentities)).chained
  known m hm := by
    have hknown : ∀ {text}, (∃ r ∈ entities, r.uuidText = text) →
        g.withUuid .entity text ≠ [] := by
      rintro text ⟨r, hr, rfl⟩
      obtain ⟨i, n, u, hn, -, -, hu, htext⟩ := h.entity hentities hr
      rw [htext]
      exact List.ne_nil_of_mem (mem_withUuid.mpr ⟨n, hn, hu⟩)
    exact ((sound_planDedup scoring threshold (h.distinctUuids hentities)).known m hm).imp
      hknown hknown

/-- A victim is an entity of the group. -/
theorem Graph.Orderly.member_of_victimAt {i : ℕ}
    (hvictim : g.victimAt (planDedup scoring entities mentions relations threshold) i = true) :
    g.MemberAt gid i := by
  obtain ⟨v, hv, hi⟩ := victimAt_iff.mp hvictim
  obtain ⟨r, hr, rfl⟩ := known_victims (h.distinctUuids hentities) hv
  obtain ⟨j, n, u, hn, hgroup, -, hu, htext⟩ := h.entity hentities hr
  obtain ⟨m, hm, hmu⟩ := mem_withUuid.mp hi
  obtain rfl := (h.distinct.keyed .entity).inj hn hm
    (by rw [hu, hmu, htext])
  exact ⟨n, hn, hgroup⟩

/-- The merge takes away the victims and no other node, and no episode loses all it mentions. -/
theorem Graph.Orderly.run_merge {server : Server} (hquiet : server.Quiet) {db : FalkorDb}
    (hdb : db.graph = g) :
    ∃ counters db', Prog.run server.handle (applyPlan scoring.py
        (planDedup scoring entities mentions relations threshold) true 200) db =
          (.ok counters, db') ∧
      db'.graph.Tidy ∧
      (∀ i, db'.graph.nodes.get? i = (g.nodes.get? i).filter fun n =>
        !(planDedup scoring entities mentions relations threshold).isVictim n) ∧
      ∀ e ∈ g.mentions, ∃ e' ∈ db'.graph.mentions, e'.src = e.src := by
  have htidy := h.distinct.tidy
  have hable := h.mergeable hentities scoring mentions relations threshold
  have hmember : ∀ i, _ → g.MemberAt gid i := fun i =>
    h.member_of_victimAt hentities scoring mentions relations threshold
  set plan := planDedup scoring entities mentions relations threshold
  obtain ⟨counters, db', hrun⟩ := (returns_applyPlan scoring.py plan true
    (show 200 ≠ 0 by decide)).run server.handle db
  refine ⟨counters, db', hrun, ?_⟩
  by_cases hmerges : plan.merges = []
  · rw [applyPlan, if_pos (by rw [hmerges]; rfl)] at hrun
    obtain rfl : db = db' := (Prod.mk.inj hrun).2
    have hvictims : plan.victims = [] := by
      rw [DedupPlan.victims, DedupPlan.redirect, hmerges]
      rfl
    subst hdb
    refine ⟨htidy, fun i => ?_, fun e he => ⟨e, he, rfl⟩⟩
    rcases db.graph.nodes.get? i with _ | n
    · rfl
    · simp [DedupPlan.isVictim, hvictims, Option.filter_some]
  · obtain ⟨g₃, hmoved, hgraph⟩ := run_applyPlan hquiet hable hmerges scoring.py 200 hdb
    rw [hrun, if_neg (by decide)] at hgraph
    rw [show db'.graph = _ from hgraph]
    have hvictim : ∀ {i}, g.victimAt plan i = false ∨ g.MemberAt gid i := by
      intro i
      rcases hat : g.victimAt plan i with _ | _
      · exact .inl rfl
      · exact .inr (hmember i hat)
    have hmoves : ∀ e ∈ g.mentions, g.victimAt plan e.src = true ∨ g.victimAt plan e.dst = true →
        g.moves plan e = true := by
      intro e he hat
      refine (moves_iff hat).mpr ⟨_, htidy.mentionRow_eq he, ?_⟩
      rw [resolve_rowAt, if_pos (htidy.resolves h.noBlank e he)]
      rfl
    refine ⟨(hmoved.tidy hable htidy).removeDetached _, hmoved.nodes_iff.mpr
      ⟨(hmoved.mentions_free_iff hable).mpr hmoves,
        (hmoved.relations_free_iff hable).mpr fun e he hat =>
          h.joined e he (hat.imp (hmember _) (hmember _)), fun e he => ?_⟩, fun e he => ?_⟩
    · rw [hmoved.others] at he
      obtain ⟨hsrc, hdst⟩ := h.others e he
      exact ⟨hvictim.resolve_right hsrc, hvictim.resolve_right hdst⟩
    · obtain ⟨rows, hrows, hmentions⟩ := hmoved.mentions_eq hable
      rw [mentions_removeDetached, hmentions]
      rcases hmove : g.moves plan e with _ | _
      · exact ⟨e, List.mem_append_left _ (List.mem_filter.mpr ⟨he, by simp [hmove]⟩), rfl⟩
      · obtain ⟨row, u, v, hrow, -, -, -, hsrc, -, j, -, hmade⟩ := hable.of_moves hmove
        have hin : row ∈ rows := hrows.mem_iff.mpr (mem_movedRows.mpr ⟨e, he, hrow, hmove⟩)
        have he' : _ ∈ g.movedTo plan.redirect row := hmade ▸ List.mem_map_of_mem hsrc
        exact ⟨_, List.mem_append_right _ (List.mem_flatMap.mpr ⟨row, hin, he'⟩), rfl⟩

end

/-! ## The fold of the episodes -/

theorem Graph.mem_episodicNodes {g : Graph} {p : Node → Bool} {n : Node} :
    n ∈ g.episodicNodes p ↔ ∃ i, g.labelled .episodic i = some n ∧ p n = true := by
  simp only [episodicNodes, List.mem_filter, List.mem_map, Prod.exists, decide_eq_true_eq,
    labelled_eq_some, Table.mem_rows]
  constructor
  · rintro ⟨⟨i, m, hm, rfl⟩, hlabel, hp⟩
    exact ⟨i, ⟨hm, hlabel⟩, hp⟩
  · rintro ⟨i, ⟨hn, hlabel⟩, hp⟩
    exact ⟨⟨i, n, hn, rfl⟩, hlabel, hp⟩

section

variable {server : Server} (hquiet : server.Quiet) {g : Graph} {merges : List EpisodicMerge}
  (args : FoldArgs)

include hquiet

/-- Where no victim mentions anything, the fold refuses, and leaves the graph alone. -/
theorem run_refuse (hnone : ∀ e ∈ g.mentions, g.uuidAt e.src ∉ victimsOf merges)
    {db : FalkorDb} (hdb : db.graph = g) :
    ∃ counters db', Prog.run server.handle (applyEpisodicPlan merges args) db =
      (.ok counters, db') ∧ db'.graph = g := by
  have hrows : (g.mentionRows fun row => row.srcUuid ∈ (victimsOf merges).map some) = [] := by
    refine List.filter_eq_nil_iff.mpr fun row hrow => ?_
    obtain ⟨e, he, hrow⟩ := List.mem_filterMap.mp hrow
    obtain ⟨⟨s, hs, hsrc⟩, -, -⟩ := Graph.of_mentionRow hrow
    rw [decide_eq_true_eq, List.mem_map]
    rintro ⟨v, hv, huuid⟩
    exact hnone e he (Graph.uuidAt_eq hs (hsrc.symm.trans huuid.symm) ▸ hv)
  have hread : ∃ db', Prog.run server.handle ((query (.mentionsFrom (victimsOf merges))).attempt :
      Cypher (Except String (List MentionRow))) db = (.ok (.ok []), db') ∧ db'.graph = g := by
    refine ⟨db.after server (.mentionsFrom (victimsOf merges)), ?_, hdb⟩
    rw [run_query_attempt hquiet, Query.exec, hdb, hrows,
      List.perm_nil.mp ((server.scan db.tick).perm [])]
  obtain ⟨db', hread, hgraph⟩ := hread
  rw [applyEpisodicPlan]
  dsimp only
  split
  · exact ⟨_, db, rfl, hdb⟩
  · rw [Prog.run_bind_ok hread]
    exact ⟨_, db', rfl, hgraph⟩

/-- The fold takes away the victims and no other node, unless it refuses. -/
theorem run_fold (htidy : g.Tidy) (hblank : g.NoBlank) (sha1 : String → String) {episodics : List Node}
    (hin : ∀ n ∈ episodics, ∃ i, g.labelled .episodic i = some n) (happly : args.apply = true)
    (hundo : args.Persists) (hbatch : args.batch ≠ 0) {db : FalkorDb} (hdb : db.graph = g) :
    ∃ counters db', Prog.run server.handle
        (applyEpisodicPlan (planEpisodicExactDups sha1 episodics) args) db = (.ok counters, db') ∧
      (db'.graph.nodes = (g.nodes.filter fun i n =>
          !isVictim (victimsOf (planEpisodicExactDups sha1 episodics)) i n) ∨
        (∀ e ∈ g.mentions, g.uuidAt e.src ∉ victimsOf (planEpisodicExactDups sha1 episodics)) ∧
          db'.graph = g) := by
  by_cases hrow : ∃ e ∈ g.mentions,
      g.uuidAt e.src ∈ victimsOf (planEpisodicExactDups sha1 episodics)
  · have hfold := htidy.episodic.foldable sha1 hin
    obtain ⟨mentRows, survRows, db₁, hdb₁, hment, -, hrun⟩ :=
      run_applyEpisodicPlan hquiet args htidy hfold hrow hdb
    rw [if_pos happly] at hrun
    obtain ⟨db₂, hwrite, hto⟩ := run_writeRewire htidy hfold (htidy.plannedFor hfold hment) hquiet
      hundo hbatch (plannedCounters _ args _ _) hdb₁
    refine ⟨_, db₂, hrun.trans hwrite, .inl ?_⟩
    rw [hto.nodes, Graph.cleared_eq (htidy.resolves hblank)]
  · push Not at hrow
    obtain ⟨counters, db', hrun, hgraph⟩ := run_refuse hquiet args hrow hdb
    exact ⟨counters, db', hrun, .inr ⟨hrow, hgraph⟩⟩

end

/-! ## The phase -/

section

variable {Score : Type} [LinearOrder Score] (cfg : DedupSettings Score) {gid : String}

/-- The phase is its two passes, one after the other. -/
theorem run_passes {server : Server} {force : Bool} {db db₁ db₂ db' : FalkorDb}
    {snap : DedupSnapshot} {counters : ApplyCounters} {episodicCounters : Counters}
    (hsnap : Prog.run server.handleDedup (loadDedupSnapshot cfg.scoring.py gid) db =
      (.ok (snap, ""), db₁))
    (hmerge : Prog.run server.handle (applyPlan cfg.scoring.py (cfg.plan snap) force 200) db₁ =
      (.ok counters, db₂))
    (hfold : Prog.run server.handle (applyEpisodicPlan (cfg.episodicPlan snap)
      (cfg.foldArgs gid force)) db₂ = (.ok episodicCounters, db')) :
    Prog.run server.handleDedup (runPhase2Dedup cfg gid force) db =
      (.ok (cfg.report snap counters episodicCounters), db') := by
  rw [← run_pass] at hmerge hfold
  rw [runPhase2Dedup, Prog.run_bind_ok hsnap]
  dsimp only
  rw [if_neg (fun hne => hne rfl), Prog.run_bind_ok hmerge, Prog.run_bind_ok hfold]
  rfl

/-- Phase 2 finds nothing to merge in the graph, and folds nothing. -/
structure Graph.AtRest (g : Graph) (cfg : DedupSettings Score) (gid : String) : Prop where
  merges : ∀ snap, g.Shows gid snap → (cfg.plan snap).merges = []
  folds : ∀ snap, g.Shows gid snap →
    ∀ e ∈ g.mentions, g.uuidAt e.src ∉ victimsOf (cfg.episodicPlan snap)

variable {cfg}

/-- A run on a graph at rest leaves it as it is. -/
theorem Graph.AtRest.run {g : Graph} (hrest : g.AtRest cfg gid) {server : Server}
    (hquiet : server.Quiet) (force : Bool) {db : FalkorDb} (hdb : db.graph = g) :
    ∃ snap counters episodicCounters db', g.Shows gid snap ∧ db'.graph = g ∧
      Prog.run server.handleDedup (runPhase2Dedup cfg gid force) db =
        (.ok (cfg.report snap counters episodicCounters), db') := by
  obtain ⟨snap, db₁, hsnap, hgraph₁, hshows⟩ :=
    run_loadDedupSnapshot hquiet cfg.scoring.py gid db
  rw [hdb] at hgraph₁ hshows
  have hmerge : Prog.run server.handle (applyPlan cfg.scoring.py (cfg.plan snap) force 200) db₁ =
      (.ok { applied := force }, db₁) := by
    rw [applyPlan, if_pos (by rw [hrest.merges snap hshows]; rfl)]
    rfl
  obtain ⟨episodicCounters, db', hfold, hgraph'⟩ :=
    run_refuse hquiet (cfg.foldArgs gid force) (hrest.folds snap hshows) hgraph₁
  exact ⟨snap, _, episodicCounters, db', hshows, hgraph', run_passes cfg hsnap hmerge hfold⟩

/-- What is left of the entities once the victims are gone. -/
theorem Graph.Orderly.nothing_to_merge {g g' : Graph} (h : g.Orderly gid)
    {snap snap' : DedupSnapshot} (hshows : g.Shows gid snap) (hshows' : g'.Shows gid snap')
    (hkeyed : g'.Keyed .entity) (hleft : ∀ i n, g'.nodes.get? i = some n →
      g.nodes.get? i = some n ∧ (cfg.plan snap).isVictim n = false) :
    (cfg.plan snap').merges = [] := by
  have hremain : ∀ r ∈ snap'.entities, r ∈ (cfg.plan snap).remaining snap.entities := by
    intro r hr
    obtain ⟨n, hn, rfl⟩ := List.mem_map.mp (hshows'.entities.mem_iff.mp hr)
    obtain ⟨i, hi, hgroup⟩ := mem_inGroup.mp hn
    obtain ⟨hget, hlabel⟩ := labelled_eq_some.mp hi
    obtain ⟨hget, hstays⟩ := hleft i n hget
    obtain ⟨u, hu⟩ := hkeyed.named hi
    refine List.mem_filter.mpr ⟨hshows.entities.mem_iff.mpr (List.mem_map_of_mem
      (mem_inGroup.mpr ⟨i, labelled_eq_some.mpr ⟨hget, hlabel⟩, hgroup⟩)), ?_⟩
    have htext : n.entityRecord.uuidText = u := by
      change n.uuid.getD "None" = u
      rw [hu]
      rfl
    rw [DedupPlan.isVictim, decide_eq_false_iff_not] at hstays
    rw [decide_eq_true_eq, htext]
    exact fun hv => hstays ⟨hlabel, List.mem_map.mpr ⟨u, hv, hu.symm⟩⟩
  exact merges_eq_nil (hkeyed.distinctUuids hshows'.entities)
    fun a ha b hb hne hname => apart_of_remaining (h.distinctUuids hshows.entities)
      (hremain a ha) (hremain b hb) hne hname

/-- Phase 2 has no victim among the episodes that an edge comes from. -/
def Graph.NothingMentioned (g : Graph) (cfg : DedupSettings Score) (gid : String) : Prop :=
  ∀ e ∈ g.mentions, g.uuidAt e.src ∉
    victimsOf (planEpisodicExactDups cfg.sha1 (g.episodicNodes fun n => n.groupId = some gid))

/-- A run that nothing disturbs brings the graph to rest. -/
theorem Graph.Orderly.run_phase2 {g : Graph} (h : g.Orderly gid)
    (hundo : (cfg.foldArgs gid true).Persists) {server : Server} (hquiet : server.Quiet)
    {db : FalkorDb} (hdb : db.graph = g) :
    ∃ report db', Prog.run server.handleDedup (runPhase2Dedup cfg gid true) db =
        (.ok report, db') ∧ db'.graph.AtRest cfg gid ∧
      (∀ i n, db'.graph.nodes.get? i = some n → g.nodes.get? i = some n) ∧
      ((∀ snap, db'.graph.Shows gid snap → cfg.episodicPlan snap = []) ∨
        g.NothingMentioned cfg gid) := by
  obtain ⟨snap, db₁, hsnap, hgraph₁, hshows⟩ :=
    run_loadDedupSnapshot hquiet cfg.scoring.py gid db
  rw [hdb] at hgraph₁ hshows
  obtain ⟨counters, db₂, hmerge, htidy₂, hnodes₂, hsources⟩ := h.run_merge hshows.entities
    cfg.scoring snap.mentions snap.relations cfg.threshold hquiet hgraph₁
  have hleft₂ : ∀ i n, db₂.graph.nodes.get? i = some n →
      g.nodes.get? i = some n ∧ (cfg.plan snap).isVictim n = false := by
    intro i n hn
    rw [hnodes₂, Option.filter_eq_some_iff, Bool.not_eq_true'] at hn
    exact hn
  have hepisode₂ : ∀ {i n}, g.labelled .episodic i = some n →
      db₂.graph.labelled .episodic i = some n := by
    intro i n hi
    obtain ⟨hget, hlabel⟩ := labelled_eq_some.mp hi
    refine labelled_eq_some.mpr ⟨?_, hlabel⟩
    rw [hnodes₂, hget, Option.filter_some, if_pos (by simp [DedupPlan.isVictim, hlabel])]
  have hin : ∀ n ∈ snap.episodics, ∃ i, g.labelled .episodic i = some n := fun n hn =>
    labelled_of_mem_episodicNodes (hshows.episodics.mem_iff.mp hn)
  have hblank₂ : db₂.graph.NoBlank := fun r hr => h.noBlank r
    (Table.mem_rows.mpr (hleft₂ r.1 r.2 (Table.mem_rows.mp hr)).1)
  obtain ⟨episodicCounters, db', hfold, houtcome⟩ := run_fold hquiet (cfg.foldArgs gid true) htidy₂
    hblank₂ cfg.sha1 (fun n hn => (hin n hn).imp fun i hi => hepisode₂ hi) rfl hundo
    (show 200 ≠ 0 by decide) rfl
  have hnodes' : ∀ i n, db'.graph.nodes.get? i = some n → db₂.graph.nodes.get? i = some n := by
    intro i n hn
    rcases houtcome with hnodes | ⟨-, hsame⟩
    · rw [hnodes, Table.get?_filter] at hn
      exact (Option.filter_eq_some_iff.mp hn).1
    · rwa [hsame] at hn
  have hpresent : ∀ n ∈ snap.episodics, n.uuidText ≠ "" := by
    intro n hn
    obtain ⟨i, hi⟩ := hin n hn
    obtain ⟨u, hu⟩ := (h.distinct.keyed .episodic).named hi
    rw [Node.uuidText, hu, Option.getD_some]
    exact h.noBlank.uuid_ne hi hu
  have hempty : db'.graph.nodes = (db₂.graph.nodes.filter fun i n =>
      !isVictim (victimsOf (cfg.episodicPlan snap)) i n) →
      ∀ snap', db'.graph.Shows gid snap' → cfg.episodicPlan snap' = [] := by
    intro hnodes snap' hshows'
    refine planEpisodicExactDups_eq_nil hpresent fun n hn => ?_
    obtain ⟨i, hi, hgroup⟩ := mem_episodicNodes.mp (hshows'.episodics.mem_iff.mp hn)
    obtain ⟨hget, hlabel⟩ := labelled_eq_some.mp hi
    have hgone : isVictim (victimsOf (cfg.episodicPlan snap)) i n = false := by
      rw [hnodes, Table.get?_filter, Option.filter_eq_some_iff, Bool.not_eq_true'] at hget
      exact hget.2
    refine ⟨hshows.episodics.mem_iff.mpr (mem_episodicNodes.mpr ⟨i, labelled_eq_some.mpr
      ⟨(hleft₂ i n (hnodes' i n hget)).1, hlabel⟩, hgroup⟩), fun hv => ?_⟩
    obtain ⟨u, hu⟩ := htidy₂.episodic.named (labelled_eq_some.mpr ⟨hnodes' i n hget, hlabel⟩)
    rw [Node.uuidText, hu, Option.getD_some] at hv
    rw [isVictim, decide_eq_false_iff_not] at hgone
    exact hgone ⟨hlabel, List.mem_map.mpr ⟨u, hv, hu.symm⟩⟩
  refine ⟨_, db', run_passes cfg hsnap hmerge hfold,
    ⟨fun snap' hshows' => ?_, fun snap' hshows' => ?_⟩,
    fun i n hn => (hleft₂ i n (hnodes' i n hn)).1, ?_⟩
  · exact h.nothing_to_merge hshows hshows' (htidy₂.entity.of_nodes hnodes')
      fun i n hn => hleft₂ i n (hnodes' i n hn)
  · intro e he
    rcases houtcome with hnodes | ⟨hnone, hsame⟩
    · rw [hempty hnodes snap' hshows']
      exact List.not_mem_nil
    · rw [hsame] at he hshows' ⊢
      refine fun hv => hnone e he (victims_subset_of_mem_iff hpresent (fun n => ?_) hv)
      rw [hshows'.episodics.mem_iff, hshows.episodics.mem_iff, mem_episodicNodes, mem_episodicNodes]
      refine exists_congr fun i => and_congr_left fun _ => ⟨fun hi => ?_, hepisode₂⟩
      obtain ⟨hget, hlabel⟩ := labelled_eq_some.mp hi
      exact labelled_eq_some.mpr ⟨(hleft₂ i n hget).1, hlabel⟩
  · rcases houtcome with hnodes | ⟨hnone, -⟩
    · exact .inl (hempty hnodes)
    · refine .inr fun e he hv => ?_
      obtain ⟨e', he', hsrc⟩ := hsources e he
      obtain ⟨n, hn⟩ := Option.isSome_iff_exists.mp (h.distinct.ends e he).1
      have hsame : db₂.graph.uuidAt e'.src = g.uuidAt e.src := by
        rw [uuidAt, uuidAt, hsrc, (labelled_eq_some.mp hn).1,
          (labelled_eq_some.mp (hepisode₂ hn)).1]
      refine hnone e' he' (hsame ▸ victims_subset_of_mem_iff hpresent (fun n => ?_) hv)
      exact hshows.episodics.mem_iff.symm

/-- **Phase 2 comes to rest after one run.** Where nothing disturbs it and the undo rows are
written, it changes no node that stays, and whoever runs it again on the graph that it leaves
finds no entities to merge and leaves the graph as it is. Episodes are left to fold only if no
edge comes from any that the first run was to fold. -/
theorem phase2_converges {g : Graph} (h : g.Orderly gid)
    (hundo : (cfg.foldArgs gid true).Persists) {server : Server} (hquiet : server.Quiet)
    {db : FalkorDb} (hdb : db.graph = g) :
    ∃ report db', Prog.run server.handleDedup (runPhase2Dedup cfg gid true) db =
        (.ok report, db') ∧
      (∀ i n, db'.graph.nodes.get? i = some n → g.nodes.get? i = some n) ∧
      ∀ (server' : Server) (force : Bool) (db₂ : FalkorDb), server'.Quiet →
        db₂.graph = db'.graph → ∃ report' details db₃,
          Prog.run server'.handleDedup (runPhase2Dedup cfg gid force) db₂ =
            (.ok report', db₃) ∧
          db₃.graph = db'.graph ∧ report'.merges = 0 ∧ report'.details = some details ∧
          (details.episodicMerges = 0 ∨ g.NothingMentioned cfg gid) := by
  obtain ⟨report, db', hrun, hrest, hnodes, hfolds⟩ := h.run_phase2 hundo hquiet hdb
  refine ⟨report, db', hrun, hnodes, fun server' force db₂ hquiet' hdb₂ => ?_⟩
  obtain ⟨snap, counters, episodicCounters, db₃, hshows, hgraph₃, hagain⟩ :=
    hrest.run hquiet' force hdb₂
  refine ⟨_, _, db₃, hagain, hgraph₃, ?_, rfl, ?_⟩
  · exact List.length_eq_zero_iff.mpr (hrest.merges snap hshows)
  · exact hfolds.imp_left fun hnone => List.length_eq_zero_iff.mpr (hnone snap hshows)

end

/-- Scores that do not tell pairs apart, and an undo writer that persists every row. -/
def evenSettings : DedupSettings Unit where
  scoring := evenScores
  sha1 := id
  threshold := ()
  describe _ _ _ := ""
  undoWriter := some fun rows => .ok rows.length

theorem phase2_converges_twins :
    ∃ report db', Prog.run inOrder.handleDedup (runPhase2Dedup evenSettings "g" true)
        ⟨twins "t", 0, []⟩ = (.ok report, db') ∧
      ∃ report' db₃, Prog.run inOrder.handleDedup (runPhase2Dedup evenSettings "g" true) db' =
        (.ok report', db₃) ∧ db₃.graph = db'.graph ∧ report'.merges = 0 := by
  have horderly : (twins "t").Orderly "g" :=
    { distinct := ⟨by decide, by decide, by decide, by decide⟩
      noBlank := by
        unfold Graph.NoBlank
        decide
      relations := List.nodup_nil
      uuids := fun e he => absurd he List.not_mem_nil
      joined := fun e he => absurd he List.not_mem_nil
      others := fun e he => absurd he List.not_mem_nil }
  have hundo : (evenSettings.foldArgs "g" true).Persists := ⟨_, rfl, fun _ => rfl⟩
  have hquiet : inOrder.Quiet := fun _ => rfl
  obtain ⟨report, db', hrun, -, hagain⟩ := phase2_converges horderly hundo hquiet
    (rfl : (⟨twins "t", 0, []⟩ : FalkorDb).graph = twins "t")
  obtain ⟨report', -, db₃, hrun', hgraph, hmerges, -⟩ := hagain inOrder true db' hquiet rfl
  exact ⟨report, db', hrun, report', db₃, hrun', hgraph, hmerges⟩

end JanusGraph
