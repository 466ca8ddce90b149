import JanusGraph.Dream.Period

/-!
# Communities respect the structure of the graph

A label is the rank of some node, its root. No round and no resolution carries a label out
of the component of its root, and nobody but the root itself ever has the label of a root
that is pinned.
-/

namespace JanusGraph

open Plurality Relation

variable {order : SetOrder} {adj : Adjacency} {pinned : List String} {labels : Table String ℕ}

/-- Every label is the rank of a node in the same component; if the node or the root is
pinned, they are one. -/
def Rooted (adj : Adjacency) (pinned : List String) (labels : Table String ℕ) : Prop :=
  ∀ u ∈ nodesOf adj, ∃ w ∈ nodesOf adj, labelOf labels u = (nodesOf adj).idxOf w ∧
    Connected adj w u ∧ (w ∈ pinned ∨ u ∈ pinned → w = u)

theorem rooted_seed (adj : Adjacency) (pinned : List String) : Rooted adj pinned (seedLabels adj) :=
  fun u hu => ⟨u, hu, labelOf_ofKeys hu, .refl, fun _ => rfl⟩

/-- **Step.** A round keeps the roots. -/
theorem Rooted.sweep (h : Rooted adj pinned labels) (hadj : Undirected adj) :
    Rooted adj pinned (sweep order adj pinned labels) := by
  intro u hu
  obtain ⟨v, hv, hlabel⟩ :=
    (@sweep_elected order adj pinned labels _ hu).exists_mem (voters_nonempty u)
  rw [← hlabel]
  rcases voters_cases hv with rfl | ⟨hu', hv', hlists⟩
  · exact h v hu
  · obtain ⟨w, hw, hroot, hpath, hpin⟩ := h v (hadj.mem_nodesOf hlists).2
    refine ⟨w, hw, hroot, hpath.tail (hadj.symm u v hlists), ?_⟩
    rintro (hwp | hup)
    · rw [hpin (.inl hwp)] at hwp
      exact absurd hwp hv'
    · exact absurd hup hu'

/-- Resolution keeps them, if the oscillating nodes are nodes and not pinned. -/
theorem Rooted.resolveCycle (h : Rooted adj pinned labels) {comps : List (List String)}
    (hcomps : Components adj comps) {oscillating : List String}
    (hosc : ∀ u ∈ oscillating, u ∈ nodesOf adj ∧ u ∉ pinned) :
    Rooted adj pinned (resolveCycle order labels oscillating (some (componentOf comps))) := by
  intro u hu
  rw [labelOf_resolveCycle]
  split
  · rename_i hmem
    obtain ⟨hkeeper, hnumber⟩ := @keeper_spec order oscillating
      (some (componentOf comps)) u hmem
    set k := keeper order oscillating (some (componentOf comps)) u
    obtain ⟨hk, hkpin⟩ := hosc k hkeeper
    -- the keeper and the node are in the same component
    have hconn : Connected adj k u := by
      obtain ⟨c, hc, hkc⟩ := hcomps.covers k (mem_nodesOf.mp hk)
      obtain ⟨c', hc', huc⟩ := hcomps.covers u (mem_nodesOf.mp hu)
      obtain ⟨i, hi⟩ := componentOf_isSome hc hkc
      obtain ⟨j, hj⟩ := componentOf_isSome hc' huc
      simp only [componentNumber, hi, hj, Option.getD_some] at hnumber
      subst hnumber
      obtain ⟨d, hd, hkd⟩ := componentOf_some hi
      obtain ⟨d', hd', hud⟩ := componentOf_some hj
      obtain rfl := Option.some.inj (hd.symm.trans hd')
      exact hcomps.connected d (List.mem_of_getElem? hd) k hkd u hud
    obtain ⟨w, hw, hroot, hpath, hpin⟩ := h k hk
    refine ⟨w, hw, hroot, hpath.trans hconn, ?_⟩
    rintro (hwp | hup)
    · rw [hpin (.inl hwp)] at hwp
      exact absurd hwp hkpin
    · exact absurd hup (hosc u hmem).2
  · exact h u hu

/-- **Run.** -/
theorem rooted_labelsAt (hadj : Undirected adj) (t : ℕ) :
    Rooted adj pinned (labelsAt order adj pinned t) := by
  induction t with
  | zero => exact rooted_seed adj pinned
  | succ t ih =>
    rw [labelsAt_succ]
    exact ih.sweep hadj

/-- Oscillating nodes are nodes that are not pinned. -/
theorem mem_oscillating {minDegree maxRounds : ℤ} {u : String}
    (hu : u ∈ (propagated order adj minDegree maxRounds).oscillating) :
    u ∈ nodesOf adj ∧ u ∉ pinnedNodes order adj minDegree := by
  cases propagated_ended order adj minDegree maxRounds with
  | exhausted _ _ hnone => rw [hnone] at hu; cases hu
  | converged _ _ hnone => rw [hnone] at hu; cases hu
  | @cycle s t _ _ hosc =>
    rw [hosc, List.mem_filter, decide_eq_true_eq] at hu
    refine ⟨hu.1, fun hpinned => hu.2 ?_⟩
    rw [labelsAt_succ]
    exact sweep_static _ hu.1 (voters_of_pinned hpinned)

theorem rooted_finalLabels (hadj : Undirected adj) (minDegree maxRounds : ℤ) :
    Rooted adj (pinnedNodes order adj minDegree) (finalLabels order adj minDegree maxRounds) := by
  have hlabels := (propagated_ended order adj minDegree maxRounds).labels_eq
  have hrooted := @rooted_labelsAt order adj (pinnedNodes order adj minDegree) hadj
    (propagated order adj minDegree maxRounds).rounds
  rw [← hlabels] at hrooted
  rw [finalLabels]
  split
  · exact hrooted
  · exact hrooted.resolveCycle (connectedComponents_spec hadj) fun u hu => mem_oscillating hu

theorem labelsNodes_final (order : SetOrder) (adj : Adjacency) (minDegree maxRounds : ℤ) :
    LabelsNodes adj (finalLabels order adj minDegree maxRounds) := by
  have hlabels := (propagated_ended order adj minDegree maxRounds).labels_eq
  have hnodes : LabelsNodes adj (propagated order adj minDegree maxRounds).labels := by
    rw [hlabels]
    exact labelsNodes_at _
  rw [finalLabels]
  split
  · exact hnodes
  · refine (keys_resolveCycle fun u hu => ?_).trans hnodes
    rw [hnodes]
    exact (mem_oscillating hu).1

/-! ## What the labels tell -/

/-- Nodes with one label have one root. -/
theorem Rooted.same_root (h : Rooted adj pinned labels) {u v : String} (hu : u ∈ nodesOf adj)
    (hv : v ∈ nodesOf adj) (hlabel : labelOf labels u = labelOf labels v) :
    ∃ w, Connected adj w u ∧ Connected adj w v ∧ (w ∈ pinned ∨ u ∈ pinned → w = u) ∧
      (w ∈ pinned ∨ v ∈ pinned → w = v) := by
  obtain ⟨w, hw, hroot, hpath, hpin⟩ := h u hu
  obtain ⟨w', hw', hroot', hpath', hpin'⟩ := h v hv
  obtain rfl : w = w' := (List.idxOf_inj hw).mp (hroot.symm.trans (hlabel.trans hroot'))
  exact ⟨w, hpath, hpath', hpin, hpin'⟩

theorem Rooted.connected (h : Rooted adj pinned labels) (hadj : Undirected adj) {u v : String}
    (hu : u ∈ nodesOf adj) (hv : v ∈ nodesOf adj) (hlabel : labelOf labels u = labelOf labels v) :
    Connected adj u v := by
  obtain ⟨w, hwu, hwv, -, -⟩ := h.same_root hu hv hlabel
  exact (hadj.connected_symm hwu).trans hwv

/-- A pinned node is alone. -/
theorem Rooted.alone (h : Rooted adj pinned labels) {u v : String} (hu : u ∈ nodesOf adj)
    (hv : v ∈ nodesOf adj) (hpinned : u ∈ pinned) (hlabel : labelOf labels v = labelOf labels u) :
    v = u := by
  obtain ⟨w, -, -, hwv, hwu⟩ := h.same_root hv hu hlabel
  have hroot := hwu (.inr hpinned)
  exact (hwv (.inl (hroot ▸ hpinned))).symm.trans hroot

/-! ## Sizes -/

/-- The rows of a labelling are the nodes with their labels. -/
theorem LabelsNodes.mem_rows (h : LabelsNodes adj labels) {u : String} {label : ℕ} :
    (u, label) ∈ labels.rows ↔ u ∈ nodesOf adj ∧ labelOf labels u = label := by
  rw [Table.mem_rows]
  constructor
  · intro hget
    have hu : u ∈ nodesOf adj := by
      rw [← h, Table.mem_keys]
      exact ⟨label, hget⟩
    exact ⟨hu, by rw [labelOf, hget, Option.getD_some]⟩
  · rintro ⟨hu, rfl⟩
    exact h.get? hu

/-- The sizes of the communities. -/
def communitySizes (labels : Table String ℕ) : Table ℕ ℕ :=
  labels.rows.foldl (fun sizes item => sizes.upsert item.2 fun size => size.getD 0 + 1) Table.empty

/-- A community is not larger than the largest component. -/
theorem Rooted.size_le (h : Rooted adj pinned labels) (hadj : Undirected adj)
    (hlabels : LabelsNodes adj labels) {comps : List (List String)} (hcomps : Components adj comps)
    {label size : ℕ} (hsize : (label, size) ∈ (communitySizes labels).rows) :
    size ≤ (comps.headD []).length := by
  obtain ⟨rfl, hne⟩ := Table.mem_rows_counted.mp hsize
  rw [List.countP_eq_length_filter]
  have hmem : ∀ u, u ∈ ((labels.rows.filter fun item => item.2 = label).map Prod.fst) →
      u ∈ nodesOf adj ∧ labelOf labels u = label := by
    intro u hu
    obtain ⟨⟨u', label'⟩, hrow, rfl⟩ := List.mem_map.mp hu
    obtain ⟨hmem, heq⟩ := List.mem_filter.mp hrow
    obtain rfl : label' = label := by simpa using heq
    exact hlabels.mem_rows.mp hmem
  obtain ⟨⟨u, label'⟩, hrow, heq⟩ := List.countP_pos_iff.mp (Nat.pos_of_ne_zero hne)
  obtain rfl : label' = label := by simpa using heq
  obtain ⟨hu, hlabel⟩ := hlabels.mem_rows.mp hrow
  -- all members are in the component of one
  obtain ⟨c, hc, huc⟩ := hcomps.covers u (mem_nodesOf.mp hu)
  have hsub : ∀ v ∈ (labels.rows.filter fun item => item.2 = label').map Prod.fst, v ∈ c := by
    intro v hv
    obtain ⟨hv, hlabel'⟩ := hmem v hv
    exact hcomps.mem_of_connected hc huc (h.connected hadj hu hv (hlabel.trans hlabel'.symm))
  have hnodup : ((labels.rows.filter fun item => item.2 = label').map Prod.fst).Nodup :=
    (List.filter_sublist.map _).nodup labels.nodup
  have hle := (List.subperm_of_subset hnodup hsub).length_le
  rw [List.length_map] at hle
  exact hle.trans (hcomps.longest c hc)

theorem foldl_max_le {bound : ℕ} (l : List ℕ) (h : ∀ n ∈ l, n ≤ bound) {start : ℕ}
    (hstart : start ≤ bound) : l.foldl max start ≤ bound := by
  induction l generalizing start with
  | nil => exact hstart
  | cons n l ih =>
    exact ih (fun m hm => h m (List.mem_cons_of_mem _ hm)) (max_le hstart (h n List.mem_cons_self))

/-- There are at least as many communities as components. -/
theorem Rooted.components_le (h : Rooted adj pinned labels) (hadj : Undirected adj)
    (hlabels : LabelsNodes adj labels) {comps : List (List String)}
    (hcomps : Components adj comps) : comps.length ≤ (communitySizes labels).rows.length := by
  have hhead : ∀ c ∈ comps, c.headD "" ∈ c ∧ c.headD "" ∈ nodesOf adj := by
    intro c hc
    obtain ⟨a, as, rfl⟩ := List.exists_cons_of_ne_nil (hcomps.nonempty c hc)
    exact ⟨List.mem_cons_self, mem_nodesOf.mpr (hcomps.nodes _ hc a List.mem_cons_self)⟩
  -- one label for each component
  have hnodup : (comps.map fun c => labelOf labels (c.headD "")).Nodup := by
    refine List.pairwise_map.mpr ((List.nodup_flatten.mp hcomps.nodup).2.imp_of_mem ?_)
    intro c c' hc hc' hdisjoint heq
    have hconn := h.connected hadj (hhead c hc).2 (hhead c' hc').2 heq
    exact hdisjoint (hcomps.mem_of_connected hc (hhead c hc).1 hconn) (hhead c' hc').1
  have hsub : ∀ label ∈ comps.map fun c => labelOf labels (c.headD ""),
      label ∈ (communitySizes labels).keys := by
    intro label hlabel
    obtain ⟨c, hc, rfl⟩ := List.mem_map.mp hlabel
    have hrow := hlabels.mem_rows.mpr ⟨(hhead c hc).2, rfl⟩
    refine List.mem_map.mpr ⟨(_, _), Table.mem_rows_counted.mpr ⟨rfl, ?_⟩, rfl⟩
    exact (List.countP_pos_iff.mpr ⟨_, hrow, decide_eq_true rfl⟩).ne'
  have hle := (List.subperm_of_subset hnodup hsub).length_le
  rwa [List.length_map, Table.keys, List.length_map] at hle

/-- Connected in the normal form is connected by links. -/
theorem connected_normalise {u v : String} :
    Connected (normalise order adj) u v ↔ ReflTransGen (Linked adj) u v := by
  have hsame : Lists (normalise order adj) = Linked adj := by
    funext u v
    exact propext ((normalise_spec order adj).2 u v)
  rw [Connected, hsame]

/-- **Communities respect structure.** A pinned node is alone in its community, and a
community lies inside a component; so no community is larger than the largest component,
and there are at least as many communities as components. -/
theorem communities_respect_structure (order : SetOrder) (sha256 : String → String)
    (adj : Adjacency) (minDegree maxRounds : ℤ) :
    let graph := normalise order adj
    let labels := finalLabels order graph minDegree maxRounds
    let result := clusterGraph order sha256 adj minDegree maxRounds
    (∀ u ∈ pinnedNodes order graph minDegree, ∀ v ∈ nodesOf graph,
      labelOf labels v = labelOf labels u → v = u) ∧
    (∀ u ∈ nodesOf graph, ∀ v ∈ nodesOf graph, labelOf labels u = labelOf labels v →
      ReflTransGen (Linked adj) u v) ∧
    result.largestCommunity ≤ result.largestComponent ∧ result.oversized = false ∧
    result.components ≤ result.communities := by
  have hadj := normalise_undirected order adj
  have hcomps := @connectedComponents_spec order _ hadj
  have hrooted := @rooted_finalLabels order _ hadj minDegree maxRounds
  have hlabels := labelsNodes_final order (normalise order adj) minDegree maxRounds
  have hlargest : ((communitySizes (finalLabels order (normalise order adj) minDegree
      maxRounds)).rows.map Prod.snd).foldl max 0 ≤
      ((connectedComponents order (normalise order adj)).headD []).length := by
    refine foldl_max_le _ (fun size hsize => ?_) (Nat.zero_le _)
    obtain ⟨⟨label, size'⟩, hrow, rfl⟩ := List.mem_map.mp hsize
    exact hrooted.size_le hadj hlabels hcomps hrow
  refine ⟨fun u hu v hv hlabel => ?_, fun u hu v hv hlabel => ?_, ?_⟩
  · exact hrooted.alone (List.mem_of_mem_filter hu) hv hu hlabel
  · exact connected_normalise.mp (hrooted.connected hadj hu hv hlabel)
  · rw [clusterGraph]
    dsimp only
    split
    · exact ⟨le_rfl, rfl, le_rfl⟩
    · exact ⟨hlargest, decide_eq_false (Nat.not_lt.mpr hlargest),
        hrooted.components_le hadj hlabels hcomps⟩

end JanusGraph
