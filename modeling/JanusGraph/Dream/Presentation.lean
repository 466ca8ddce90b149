import JanusGraph.Dream.Labels

/-!
# The partition depends on the graph alone

Two dicts with the same nodes and links, iterated in whatever order, go through the same
rounds: what is sorted is equal, and what is not sorted is only counted.
-/

namespace JanusGraph

open Plurality Relation

variable {order order' : SetOrder} {adj adj' : Adjacency}

/-- The two dicts have the same keys and list the same neighbours. -/
structure SameGraph (adj adj' : Adjacency) : Prop where
  keys : ∀ u, u ∈ adj.keys ↔ u ∈ adj'.keys
  lists : ∀ u v, Lists adj u v ↔ Lists adj' u v

theorem sorted_eq_of_perm {α : Type} [LinearOrder α] {l l' : List α} (h : l.Perm l') :
    sorted l = sorted l' := by
  have hperm : (sorted l).Perm (sorted l') :=
    (List.perm_insertionSort _ _).trans (h.trans (List.perm_insertionSort _ _).symm)
  exact hperm.eq_of_pairwise' (List.pairwise_insertionSort _ _) (List.pairwise_insertionSort _ _)

/-- The order of a set does not show in what is sorted. -/
theorem sorted_iter (order order' : SetOrder) (adds : List String) :
    sorted (order.iter adds) = sorted (order'.iter adds) := by
  refine sorted_eq_of_perm ((List.perm_ext_iff_of_nodup (order.nodup _) (order'.nodup _)).mpr ?_)
  exact fun u => order.mem_iter.trans order'.mem_iter.symm

theorem resolveCycle_congr (order order' : SetOrder) :
    resolveCycle order = resolveCycle order' := by
  funext labels oscillating compOf
  rw [resolveCycle, resolveCycle, sorted_iter order order']

namespace SameGraph

theorem keys_perm (h : SameGraph adj adj') : adj.keys.Perm adj'.keys :=
  (List.perm_ext_iff_of_nodup adj.nodup adj'.nodup).mpr h.keys

theorem nodesOf_eq (h : SameGraph adj adj') : nodesOf adj = nodesOf adj' :=
  sorted_eq_of_perm h.keys_perm

variable (order order')

theorem neighbours_perm (h : SameGraph adj adj') (u : String) :
    (neighbours order adj u).Perm (neighbours order' adj' u) := by
  refine (List.perm_ext_iff_of_nodup (order.nodup _) (order'.nodup _)).mpr fun v => ?_
  exact mem_neighbours.trans ((h.lists u v).trans mem_neighbours.symm)

theorem traverse_eq (h : SameGraph adj adj') (fuel : ℕ) (t : Traversal) :
    traverse order adj fuel t = traverse order' adj' fuel t := by
  induction fuel generalizing t with
  | zero => rfl
  | succ fuel ih =>
    rcases hstack : t.stack with _ | ⟨node, stack⟩
    · simp only [traverse, hstack]
    · simp only [traverse, hstack]
      rw [ih, sorted_eq_of_perm (h.neighbours_perm order order' node)]

theorem connectedComponents_eq (h : SameGraph adj adj') :
    connectedComponents order adj = connectedComponents order' adj' := by
  have hlength : adj.rows.length = adj'.rows.length := by
    have hkeys := h.keys_perm.length_eq
    rwa [Table.keys, Table.keys, List.length_map, List.length_map] at hkeys
  have hturn : findComponent order adj = findComponent order' adj' := by
    funext found root
    rw [findComponent, findComponent, hlength, h.traverse_eq order order']
  rw [connectedComponents, connectedComponents, h.nodesOf_eq, hturn]

theorem pinnedNodes_eq (h : SameGraph adj adj') (minDegree : ℤ) :
    pinnedNodes order adj minDegree = pinnedNodes order' adj' minDegree := by
  rw [pinnedNodes, pinnedNodes, h.nodesOf_eq]
  refine List.filter_congr fun u _ => ?_
  rw [(h.neighbours_perm order order' u).length_eq]

theorem voters_eq (h : SameGraph adj adj') (pinned : List String) :
    voters order adj pinned = voters order' adj' pinned := by
  have helectorate : electorate order adj pinned = electorate order' adj' pinned := by
    funext u
    ext v
    rw [mem_electorate, mem_electorate, h.lists]
  funext u
  rw [voters, voters, helectorate]

/-- A round elects the same labels. -/
theorem sweep_eq (h : SameGraph adj adj') (pinned : List String) :
    sweep order adj pinned = sweep order' adj' pinned := by
  funext labels
  have hnodes : LabelsNodes adj (sweep order' adj' pinned labels) :=
    (labelsNodes_sweep labels).trans h.nodesOf_eq.symm
  refine (labelsNodes_sweep labels).ext hnodes fun u hu => ?_
  have helected := @sweep_elected order adj pinned labels _ hu
  rw [h.voters_eq order order'] at helected
  exact helected.unique (sweep_elected labels (h.nodesOf_eq ▸ hu))

theorem propagate_eq (h : SameGraph adj adj') (pinned : List String) (left : ℕ) (p : Propagation) :
    propagate order adj pinned left p = propagate order' adj' pinned left p := by
  induction left generalizing p with
  | zero => rfl
  | succ left ih =>
    rw [propagate, propagate, h.sweep_eq order order', h.nodesOf_eq]
    simp only [ih]

theorem seedLabels_eq (h : SameGraph adj adj') : seedLabels adj = seedLabels adj' := by
  apply Table.ext
  simp only [seedLabels, Table.ofKeys, h.nodesOf_eq]

theorem propagated_eq (h : SameGraph adj adj') (minDegree maxRounds : ℤ) :
    propagated order adj minDegree maxRounds = propagated order' adj' minDegree maxRounds := by
  rw [propagated, propagated, h.propagate_eq order order', h.seedLabels_eq,
    h.pinnedNodes_eq order order']

theorem finalLabels_eq (h : SameGraph adj adj') (minDegree maxRounds : ℤ) :
    finalLabels order adj minDegree maxRounds = finalLabels order' adj' minDegree maxRounds := by
  rw [finalLabels, finalLabels, h.propagated_eq order order',
    h.connectedComponents_eq order order', resolveCycle_congr order order']

end SameGraph

/-- The result of `cluster_graph` is a function of the texts and the links. -/
theorem clusterGraph_congr (sha256 : String → String) (hoccurs : ∀ u, Occurs adj u ↔ Occurs adj' u)
    (hlinked : ∀ u v, Linked adj u v ↔ Linked adj' u v) (minDegree maxRounds : ℤ) :
    clusterGraph order sha256 adj minDegree maxRounds =
      clusterGraph order' sha256 adj' minDegree maxRounds := by
  obtain ⟨hkeys, hlists⟩ := normalise_spec order adj
  obtain ⟨hkeys', hlists'⟩ := normalise_spec order' adj'
  have h : SameGraph (normalise order adj) (normalise order' adj') :=
    ⟨fun u => (hkeys u).trans ((hoccurs u).trans (hkeys' u).symm),
      fun u v => (hlists u v).trans ((hlinked u v).trans (hlists' u v).symm)⟩
  rw [clusterGraph, clusterGraph, h.nodesOf_eq, h.connectedComponents_eq order order',
    h.propagated_eq order order', h.finalLabels_eq order order',
    h.pinnedNodes_eq order order']

/-! ## Snapshots -/

/-- The relation is an edge between the two, which are both entities. -/
def SnapshotRelation.Joins (entities : List SnapshotEntity) (rel : SnapshotRelation)
    (u v : String) : Prop :=
  (pyStr rel.srcUuid ∈ entities.map (fun ent => pyStr ent.uuid) ∧
      pyStr rel.dstUuid ∈ entities.map (fun ent => pyStr ent.uuid) ∧
      pyStr rel.srcUuid ≠ pyStr rel.dstUuid) ∧
    (u = pyStr rel.srcUuid ∧ v = pyStr rel.dstUuid ∨ u = pyStr rel.dstUuid ∧ v = pyStr rel.srcUuid)

theorem buildAdjacency_spec (order : SetOrder) (entities : List SnapshotEntity)
    (relations : List SnapshotRelation) :
    (∀ u, u ∈ (buildAdjacency order entities relations).keys ↔
        u ∈ entities.map fun ent => pyStr ent.uuid) ∧
      ∀ u v, Lists (buildAdjacency order entities relations) u v ↔
        ∃ rel ∈ relations, rel.Joins entities u v := by
  set nodes := entities.map fun ent => pyStr ent.uuid with hnodes
  have hloop : AddsEdges (order.iter nodes) (fun adj l => l.foldl (fun adj rel =>
      if pyStr rel.srcUuid ∈ nodes ∧ pyStr rel.dstUuid ∈ nodes ∧
          pyStr rel.srcUuid ≠ pyStr rel.dstUuid then
        connect adj (pyStr rel.srcUuid) (pyStr rel.dstUuid)
      else adj) adj) (fun l u v => ∃ rel ∈ l, SnapshotRelation.Joins entities rel u v) relations :=
    AddsEdges.foldl fun rel _ => addsEdges_connect fun hp =>
      ⟨order.mem_iter.mpr hp.1, order.mem_iter.mpr hp.2.1⟩
  have hbuild : buildAdjacency order entities relations = relations.foldl (fun adj rel =>
      if pyStr rel.srcUuid ∈ nodes ∧ pyStr rel.dstUuid ∈ nodes ∧
          pyStr rel.srcUuid ≠ pyStr rel.dstUuid then
        connect adj (pyStr rel.srcUuid) (pyStr rel.dstUuid)
      else adj) (Table.ofKeys (order.iter nodes) (order.nodup nodes) fun _ => []) := by
    rw [buildAdjacency]
    congr 1
    funext adj rel
    by_cases hsrc : pyStr rel.srcUuid ∈ nodes <;> by_cases hdst : pyStr rel.dstUuid ∈ nodes <;>
      by_cases hne : pyStr rel.srcUuid = pyStr rel.dstUuid <;> simp [← hnodes, hsrc, hdst, hne]
  have hempty :=
    Table.keys_ofKeys (order.iter nodes) (order.nodup nodes) fun _ => ([] : List String)
  refine ⟨fun u => ?_, fun u v => ?_⟩
  · rw [hbuild, hloop.keeps _ hempty]
    exact order.mem_iter
  · rw [hbuild, hloop.lists _ hempty, or_iff_right (not_lists_ofKeys _ _ _ _)]

/-- Another description of the same snapshot. -/
inductive Redescribed : List SnapshotEntity × List SnapshotRelation →
    List SnapshotEntity × List SnapshotRelation → Prop where
  | entities {es es' : List SnapshotEntity} {rs : List SnapshotRelation} : es.Perm es' →
      Redescribed (es, rs) (es', rs)
  | relations {es : List SnapshotEntity} {rs rs' : List SnapshotRelation} : rs.Perm rs' →
      Redescribed (es, rs) (es, rs')
  | reversed {es : List SnapshotEntity} {r r' : SnapshotRelation} {rs : List SnapshotRelation} :
      r'.srcUuid = r.dstUuid → r'.dstUuid = r.srcUuid → Redescribed (es, r :: rs) (es, r' :: rs)
  | duplicated {es : List SnapshotEntity} {r : SnapshotRelation} {rs : List SnapshotRelation} :
      r ∈ rs → Redescribed (es, rs) (es, r :: rs)
  | outside {es : List SnapshotEntity} {r : SnapshotRelation} {rs : List SnapshotRelation} :
      pyStr r.srcUuid ∉ es.map (fun ent => pyStr ent.uuid) ∨
        pyStr r.dstUuid ∉ es.map (fun ent => pyStr ent.uuid) → Redescribed (es, rs) (es, r :: rs)

/-- A redescription names the same entities and joins the same ones. -/
theorem Redescribed.same {s s' : List SnapshotEntity × List SnapshotRelation}
    (h : Redescribed s s') :
    (∀ u, u ∈ s.1.map (fun ent => pyStr ent.uuid) ↔ u ∈ s'.1.map fun ent => pyStr ent.uuid) ∧
      ∀ u v, (∃ r ∈ s.2, r.Joins s.1 u v) ↔ ∃ r ∈ s'.2, r.Joins s'.1 u v := by
  cases h with
  | entities hperm =>
    have hmem := fun u => (hperm.map fun ent => pyStr ent.uuid).mem_iff (a := u)
    refine ⟨hmem, fun u v => ?_⟩
    simp only [SnapshotRelation.Joins, hmem]
  | relations hperm =>
    refine ⟨fun u => Iff.rfl, fun u v => ?_⟩
    simp only [hperm.mem_iff]
  | reversed hsrc hdst =>
    refine ⟨fun u => Iff.rfl, fun u v => ?_⟩
    simp only [List.mem_cons, exists_eq_or_imp]
    refine or_congr_left ?_
    rw [SnapshotRelation.Joins, SnapshotRelation.Joins, hsrc, hdst]
    constructor
    · rintro ⟨⟨hs, hd, hne⟩, hends⟩
      exact ⟨⟨hd, hs, hne.symm⟩, hends.symm⟩
    · rintro ⟨⟨hs, hd, hne⟩, hends⟩
      exact ⟨⟨hd, hs, hne.symm⟩, hends.symm⟩
  | duplicated hr =>
    refine ⟨fun u => Iff.rfl, fun u v => ?_⟩
    simp only [List.mem_cons, exists_eq_or_imp]
    exact ⟨.inr, fun hjoins => hjoins.elim (fun hfirst => ⟨_, hr, hfirst⟩) id⟩
  | outside hout =>
    refine ⟨fun u => Iff.rfl, fun u v => ?_⟩
    simp only [List.mem_cons, exists_eq_or_imp]
    refine ⟨.inr, fun hjoins => hjoins.resolve_left ?_⟩
    rintro ⟨⟨hs, hd, -⟩, -⟩
    exact hout.elim (fun h => h hs) fun h => h hd

/-- **The partition depends on the graph alone.** No redescription of the snapshot changes
what `plan_clustering` returns, and `cluster_graph` returns the same for any two dicts with
the same texts and links; in either case sets may be iterated in any order. -/
theorem partition_depends_on_graph (order order' : SetOrder) (sha256 : String → String) :
    (∀ (s s' : List SnapshotEntity × List SnapshotRelation) (minDegree : ℤ),
      EqvGen Redescribed s s' →
      planClustering order sha256 s.1 s.2 minDegree =
        planClustering order' sha256 s'.1 s'.2 minDegree) ∧
    ∀ (adj adj' : Adjacency) (minDegree maxRounds : ℤ),
      (∀ u, Occurs adj u ↔ Occurs adj' u) → (∀ u v, Linked adj u v ↔ Linked adj' u v) →
      clusterGraph order sha256 adj minDegree maxRounds =
        clusterGraph order' sha256 adj' minDegree maxRounds := by
  refine ⟨fun s s' minDegree hsame => ?_, fun adj adj' minDegree maxRounds hoccurs hlinked =>
    clusterGraph_congr sha256 hoccurs hlinked minDegree maxRounds⟩
  -- the two properties of a redescription are equivalences
  have hdata : (∀ u, u ∈ s.1.map (fun ent => pyStr ent.uuid) ↔
      u ∈ s'.1.map fun ent => pyStr ent.uuid) ∧
      ∀ u v, (∃ r ∈ s.2, r.Joins s.1 u v) ↔ ∃ r ∈ s'.2, r.Joins s'.1 u v := by
    induction hsame with
    | rel s s' h => exact h.same
    | refl s => exact ⟨fun u => Iff.rfl, fun u v => Iff.rfl⟩
    | symm s s' _ ih => exact ⟨fun u => (ih.1 u).symm, fun u v => (ih.2 u v).symm⟩
    | trans s s' s'' _ _ ih ih' =>
      exact ⟨fun u => (ih.1 u).trans (ih'.1 u), fun u v => (ih.2 u v).trans (ih'.2 u v)⟩
  obtain ⟨hkeys, hlists⟩ := buildAdjacency_spec order s.1 s.2
  obtain ⟨hkeys', hlists'⟩ := buildAdjacency_spec order' s'.1 s'.2
  have hkey : ∀ u, u ∈ (buildAdjacency order s.1 s.2).keys ↔
      u ∈ (buildAdjacency order' s'.1 s'.2).keys :=
    fun u => (hkeys u).trans ((hdata.1 u).trans (hkeys' u).symm)
  have hlist : ∀ u v, Lists (buildAdjacency order s.1 s.2) u v ↔
      Lists (buildAdjacency order' s'.1 s'.2) u v :=
    fun u v => (hlists u v).trans ((hdata.2 u v).trans (hlists' u v).symm)
  refine clusterGraph_congr sha256 (fun u => ?_) (fun u v => ?_) minDegree 1000
  · simp only [Occurs, hkey, hlist]
  · simp only [Linked, hlist]

/-- Two nodes whose edge is listed the other way around, and at one end only. -/
theorem partition_depends_on_graph_edge :
    planClustering .added id [⟨some "a", none, none⟩, ⟨some "b", none, none⟩]
        [⟨some "a", some "b", none, none⟩] 0 =
      planClustering .added id [⟨some "a", none, none⟩, ⟨some "b", none, none⟩]
        [⟨some "b", some "a", none, none⟩] 0 ∧
    clusterGraph .added id ⟨[("a", ["b"])], by decide⟩ 0 10 =
      clusterGraph .added id ⟨[("b", ["a"])], by decide⟩ 0 10 := by
  have hone : ∀ u v x y : String,
      Lists ⟨[(u, [v])], List.nodup_singleton u⟩ x y ↔ x = u ∧ y = v := by
    intro u v x y
    by_cases hx : u = x
    · simp [Lists, Table.get?, hx]
    · simp [Lists, Table.get?, hx, Ne.symm hx]
  refine ⟨(partition_depends_on_graph .added .added id).1 (_, _) (_, _) 0
      (.rel _ _ (.reversed rfl rfl)),
    (partition_depends_on_graph .added .added id).2 _ _ 0 10 (fun u => ?_) fun u v => ?_⟩
  · simp only [Occurs, hone, Table.keys, List.map_cons, List.map_nil, List.mem_singleton]
    simp [or_comm]
  · simp only [Linked, hone]
    tauto

end JanusGraph
