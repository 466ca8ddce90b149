import JanusGraph.Lib.Plurality
import JanusGraph.Dream.Components

/-!
# Rounds and resolution

A round elects the label of every node (`Plurality`): the voters of a node are its
neighbours that are not pinned; a node that is pinned, or has no voters, keeps its label
and so votes for itself. `_resolve_cycle` gives the oscillating nodes of a component the
label of the first of them, and touches no other.
-/

namespace JanusGraph

open Plurality

variable {order : SetOrder} {adj : Adjacency} {pinned : List String}

/-! ## Labellings -/

/-- The dict has a label for every node, in their order. -/
def LabelsNodes (adj : Adjacency) (labels : Table String ℕ) : Prop := labels.keys = nodesOf adj

theorem labelOf_ofKeys {nodes : List String} {h : nodes.Nodup} {f : String → ℕ} {u : String}
    (hu : u ∈ nodes) : labelOf (Table.ofKeys nodes h f) u = f u := by
  rw [labelOf, Table.get?_ofKeys, if_pos hu, Option.getD_some]

theorem LabelsNodes.get? {labels : Table String ℕ} (h : LabelsNodes adj labels) {u : String}
    (hu : u ∈ nodesOf adj) : labels.get? u = some (labelOf labels u) := by
  obtain ⟨label, hlabel⟩ := Table.mem_keys.mp (h ▸ hu)
  rw [labelOf, hlabel, Option.getD_some]

theorem LabelsNodes.labelOf_eq_zero {labels : Table String ℕ} (h : LabelsNodes adj labels)
    {u : String} (hu : u ∉ nodesOf adj) : labelOf labels u = 0 := by
  rw [← h, Table.mem_keys, not_exists] at hu
  rw [labelOf, Option.eq_none_iff_forall_ne_some.mpr hu, Option.getD_none]

/-- Labellings are equal if they agree on the nodes. -/
theorem LabelsNodes.ext {labels labels' : Table String ℕ} (h : LabelsNodes adj labels)
    (h' : LabelsNodes adj labels')
    (hagree : ∀ u ∈ nodesOf adj, labelOf labels u = labelOf labels' u) :
    labels = labels' := by
  refine Table.ext_get? (h.trans h'.symm) fun u hu => ?_
  rw [h] at hu
  rw [h.get? hu, h'.get? hu, hagree u hu]

theorem labelsNodes_seed (adj : Adjacency) : LabelsNodes adj (seedLabels adj) :=
  Table.keys_ofKeys _ _ _

theorem labelsNodes_sweep (labels : Table String ℕ) :
    LabelsNodes adj (sweep order adj pinned labels) :=
  Table.keys_ofKeys _ _ _

/-! ## The election -/

/-- The neighbours of a node that are not pinned. -/
def electorate (order : SetOrder) (adj : Adjacency) (pinned : List String) (u : String) :
    Finset String :=
  ((neighbours order adj u).filter fun nb => nb ∉ pinned).toFinset

/-- Whose labels decide that of a node. -/
def voters (order : SetOrder) (adj : Adjacency) (pinned : List String) (u : String) :
    Finset String :=
  if u ∈ pinned ∨ electorate order adj pinned u = ∅ then {u} else electorate order adj pinned u

theorem mem_electorate {u v : String} :
    v ∈ electorate order adj pinned u ↔ Lists adj u v ∧ v ∉ pinned := by
  simp [electorate, mem_neighbours]

/-- The tally counts the votes. -/
theorem get?_tallyOf (labels : Table String ℕ) (u : String) (label : ℕ) :
    (tallyOf order adj pinned labels u).get? label =
      if votes (electorate order adj pinned) (labelOf labels) u label = 0 then none
      else some (votes (electorate order adj pinned) (labelOf labels) u label) := by
  have hcount : votes (electorate order adj pinned) (labelOf labels) u label =
      (neighbours order adj u).countP fun nb => nb ∉ pinned ∧ labelOf labels nb = label := by
    have hset : (electorate order adj pinned u).filter (fun v => labelOf labels v = label) =
        ((neighbours order adj u).filter fun nb =>
          nb ∉ pinned ∧ labelOf labels nb = label).toFinset := by
      ext nb
      simp [electorate, and_assoc]
    have hnodup : (neighbours order adj u).Nodup := order.nodup _
    rw [votes, hset, List.toFinset_card_of_nodup (hnodup.filter _), List.countP_eq_length_filter]
  have htally : tallyOf order adj pinned labels u =
      ((neighbours order adj u).filter fun nb => nb ∉ pinned).foldl (fun tally nb =>
        tally.upsert (labelOf labels nb) fun count => count.getD 0 + 1) Table.empty := by
    rw [tallyOf, List.foldl_filter]
    congr 1
    funext tally nb
    by_cases hnb : nb ∈ pinned <;> simp [hnb]
  rw [hcount, htally, Table.get?_counted, List.countP_filter, Table.get?_empty, Option.getD_none,
    Nat.zero_add]
  simp only [Bool.decide_and, Bool.and_comm]

/-- **One round, one node.** The label after the round is the one that is elected. -/
theorem sweep_elected (labels : Table String ℕ) {u : String} (hu : u ∈ nodesOf adj) :
    Elected (voters order adj pinned) (labelOf labels) u
      (labelOf (sweep order adj pinned labels) u) := by
  rw [sweep, labelOf_ofKeys hu]
  by_cases hpinned : u ∈ pinned
  · rw [if_pos hpinned]
    exact elected_singleton (by rw [voters, if_pos (.inl hpinned)])
  rw [if_neg hpinned]
  rcases hmin : (tallyOf order adj pinned labels u).rows.argmin tallyKey with _ | ⟨label, count⟩
  · -- nobody votes
    rw [List.argmin_eq_none] at hmin
    have hempty : electorate order adj pinned u = ∅ := by
      by_contra hne
      obtain ⟨v, hv⟩ := Finset.nonempty_iff_ne_empty.mpr hne
      have hpos : 0 < votes (electorate order adj pinned) (labelOf labels) u (labelOf labels v) :=
        votes_pos_iff.mpr ⟨v, hv, rfl⟩
      have hget := @get?_tallyOf order adj pinned labels u
        (labelOf labels v)
      rw [if_neg hpos.ne', ← Table.mem_rows, hmin] at hget
      exact List.not_mem_nil hget
    exact elected_singleton (by rw [voters, if_pos (.inr hempty)])
  · have hrow : (label, count) ∈ (tallyOf order adj pinned labels u).rows := List.argmin_mem hmin
    have hcount := Table.mem_rows.mp hrow
    rw [get?_tallyOf] at hcount
    split at hcount
    · cases hcount
    rename_i hvotes
    obtain rfl := Option.some.inj hcount
    have hvoters : voters order adj pinned u = electorate order adj pinned u := by
      rw [voters, if_neg]
      rintro (h | h)
      · exact hpinned h
      · refine hvotes ?_
        rw [votes, h]
        rfl
    -- the key of `min` orders the labels like the election
    change Elected _ _ _ label
    intro label' hne
    rw [votes, votes, hvoters, ← votes, ← votes]
    rcases Nat.eq_zero_or_pos (votes (electorate order adj pinned) (labelOf labels) u label') with
      hzero | hpos
    · rw [hzero]
      exact .inl (Nat.pos_of_ne_zero hvotes)
    · have hrow' : (label', votes (electorate order adj pinned) (labelOf labels) u label') ∈
          (tallyOf order adj pinned labels u).rows := by
        rw [Table.mem_rows, get?_tallyOf, if_neg hpos.ne']
      have hle := List.le_of_mem_argmin hrow' hmin
      rw [tallyKey, tallyKey, Prod.Lex.toLex_le_toLex] at hle
      dsimp only at hle ⊢
      omega

/-- A node that votes for itself only keeps its label. -/
theorem sweep_static (labels : Table String ℕ) {u : String} (hu : u ∈ nodesOf adj)
    (hself : voters order adj pinned u = {u}) :
    labelOf (sweep order adj pinned labels) u = labelOf labels u :=
  (sweep_elected labels hu).unique (elected_singleton hself)

theorem voters_of_pinned {u : String} (hu : u ∈ pinned) : voters order adj pinned u = {u} :=
  if_pos (.inl hu)

/-- A voter of a node is the node itself, or a neighbour, and neither is pinned. -/
theorem voters_cases {u v : String} (h : v ∈ voters order adj pinned u) :
    v = u ∨ u ∉ pinned ∧ v ∉ pinned ∧ Lists adj u v := by
  rw [voters] at h
  split at h
  · exact .inl (Finset.mem_singleton.mp h)
  · rename_i hmoves
    obtain ⟨hlists, hv⟩ := mem_electorate.mp h
    exact .inr ⟨fun hu => hmoves (.inl hu), hv, hlists⟩

theorem voters_nonempty (u : String) : (voters order adj pinned u).Nonempty := by
  rw [voters]
  split
  · exact Finset.singleton_nonempty u
  · rename_i h
    exact Finset.nonempty_iff_ne_empty.mpr fun hempty => h (.inr hempty)

/-- Votes go both ways. -/
theorem Undirected.voters_symmetric (hadj : Undirected adj) :
    Symmetric (nodesOf adj).toFinset (voters order adj pinned) := by
  refine ⟨fun u hu v hv => ?_⟩
  by_cases hstatic : u ∈ pinned ∨ electorate order adj pinned u = ∅
  · have hself : voters order adj pinned u = {u} := if_pos hstatic
    rw [hself, Finset.mem_singleton] at hv
    subst hv
    exact ⟨hu, by rw [hself]; exact Finset.mem_singleton_self v⟩
  · have hmem : v ∈ electorate order adj pinned u := by
      rwa [voters, if_neg hstatic] at hv
    obtain ⟨hlists, hv'⟩ := mem_electorate.mp hmem
    have hback : u ∈ electorate order adj pinned v :=
      mem_electorate.mpr ⟨hadj.symm u v hlists, fun hu' => hstatic (.inl hu')⟩
    refine ⟨List.mem_toFinset.mpr (hadj.mem_nodesOf hlists).2, ?_⟩
    rw [voters, if_neg]
    · exact hback
    · rintro (h | h)
      · exact hv' h
      · rw [h] at hback
        cases hback

/-- Who votes for a node is a node. -/
theorem Undirected.mem_of_mem_voters (hadj : Undirected adj) {u v : String} (hu : u ∈ nodesOf adj)
    (hv : v ∈ voters order adj pinned u) : v ∈ nodesOf adj :=
  List.mem_toFinset.mp (hadj.voters_symmetric.mem u (List.mem_toFinset.mpr hu) v hv).1

/-! ## Resolution -/

theorem labelOf_upsertAll (label : ℕ) (nodes : List String) (labels : Table String ℕ) (u : String) :
    labelOf (nodes.foldl (fun labels node => labels.upsert node fun _ => label) labels) u =
      if u ∈ nodes then label else labelOf labels u := by
  induction nodes generalizing labels with
  | nil => rfl
  | cons node nodes ih =>
    rw [List.foldl_cons, ih]
    by_cases hmem : u ∈ nodes
    · rw [if_pos hmem, if_pos (List.mem_cons_of_mem _ hmem)]
    · rw [if_neg hmem, labelOf, Table.get?_upsert]
      by_cases hnode : u = node
      · rw [if_pos hnode, if_pos (by simp [hnode]), Option.getD_some]
      · rw [if_neg hnode, if_neg (by simp [hnode, hmem]), labelOf]

theorem keys_upsertAll (label : ℕ) (nodes : List String) (labels : Table String ℕ)
    (h : ∀ u ∈ nodes, u ∈ labels.keys) :
    (nodes.foldl (fun labels node => labels.upsert node fun _ => label) labels).keys =
      labels.keys := by
  induction nodes generalizing labels with
  | nil => rfl
  | cons node nodes ih =>
    have hkeys := Table.keys_upsert (h node List.mem_cons_self) fun _ => label
    rw [List.foldl_cons, ih, hkeys]
    intro u hu
    rw [hkeys]
    exact h u (List.mem_cons_of_mem _ hu)

/-- The loop over disjoint groups: each takes the label its first node had before. -/
theorem labelOf_resolveGroups {number : String → ℕ} (groups : List (ℕ × List String))
    (hnodup : (groups.map Prod.fst).Nodup) (hgroup : ∀ g ∈ groups, ∀ u ∈ g.2, number u = g.1)
    (hne : ∀ g ∈ groups, g.2 ≠ []) (labels : Table String ℕ) :
    (∀ g ∈ groups, ∀ u ∈ g.2,
      labelOf (groups.foldl (fun labels group =>
        let keeperLabel := labelOf labels (group.2.headD "")
        group.2.foldl (fun labels node => labels.upsert node fun _ => keeperLabel) labels)
        labels) u = labelOf labels (g.2.headD "")) ∧
      ∀ u, (∀ g ∈ groups, u ∉ g.2) →
        labelOf (groups.foldl (fun labels group =>
          let keeperLabel := labelOf labels (group.2.headD "")
          group.2.foldl (fun labels node => labels.upsert node fun _ => keeperLabel) labels)
          labels) u = labelOf labels u := by
  induction groups generalizing labels with
  | nil => exact ⟨nofun, fun u _ => rfl⟩
  | cons g groups ih =>
    rw [List.map_cons, List.nodup_cons] at hnodup
    have hlater : ∀ g' ∈ groups, ∀ u ∈ g'.2, u ∉ g.2 := by
      intro g' hg' u hu hu'
      refine hnodup.1 (List.mem_map.mpr ⟨g', hg', ?_⟩)
      rw [← hgroup g' (List.mem_cons_of_mem _ hg') u hu, hgroup g List.mem_cons_self u hu']
    have hhead : ∀ g' ∈ groups, g'.2.headD "" ∉ g.2 := by
      intro g' hg'
      refine hlater g' hg' _ ?_
      obtain ⟨a, as, heq⟩ := List.exists_cons_of_ne_nil (hne g' (List.mem_cons_of_mem _ hg'))
      rw [heq]
      exact List.mem_cons_self
    obtain ⟨hin, hout⟩ := ih hnodup.2 (fun g' hg' => hgroup g' (List.mem_cons_of_mem _ hg'))
      (fun g' hg' => hne g' (List.mem_cons_of_mem _ hg'))
      (g.2.foldl (fun l node => l.upsert node fun _ => labelOf labels (g.2.headD "")) labels)
    refine ⟨fun g' hg' u hu => ?_, fun u hu => ?_⟩
    · rcases List.mem_cons.mp hg' with rfl | hg'
      · rw [List.foldl_cons, hout u fun g'' hg'' hu'' => hlater g'' hg'' u hu'' hu,
          labelOf_upsertAll, if_pos hu]
      · rw [List.foldl_cons, hin g' hg' u hu, labelOf_upsertAll, if_neg (hhead g' hg')]
    · rw [List.foldl_cons, hout u fun g' hg' => hu g' (List.mem_cons_of_mem _ hg'),
        labelOf_upsertAll, if_neg (hu g List.mem_cons_self)]

/-- The oscillating node whose label a component keeps. -/
def keeper (order : SetOrder) (oscillating : List String) (compOf : Option (Table String ℕ))
    (u : String) : String :=
  ((sorted (order.iter oscillating)).filter fun v =>
    componentNumber compOf v = componentNumber compOf u).headD ""

variable {labels : Table String ℕ} {oscillating : List String} {compOf : Option (Table String ℕ)}

theorem mem_sorted_iter {u : String} : u ∈ sorted (order.iter oscillating) ↔ u ∈ oscillating :=
  (List.perm_insertionSort _ _).mem_iff.trans order.mem_iter

/-- The keeper oscillates, and has the number of the node. -/
theorem keeper_spec {u : String} (hu : u ∈ oscillating) :
    keeper order oscillating compOf u ∈ oscillating ∧
      componentNumber compOf (keeper order oscillating compOf u) = componentNumber compOf u := by
  have hmem : u ∈ (sorted (order.iter oscillating)).filter fun v =>
      componentNumber compOf v = componentNumber compOf u := by
    simp [mem_sorted_iter, hu]
  obtain ⟨a, as, heq⟩ := List.exists_cons_of_ne_nil (List.ne_nil_of_mem hmem)
  have hhead : keeper order oscillating compOf u = a := by rw [keeper, heq, List.headD_cons]
  have ha : a ∈ (sorted (order.iter oscillating)).filter fun v =>
      componentNumber compOf v = componentNumber compOf u := by
    rw [heq]
    exact List.mem_cons_self
  rw [List.mem_filter, mem_sorted_iter, decide_eq_true_eq] at ha
  rw [hhead]
  exact ha

/-- **Resolution.** Oscillating nodes take the label of their keeper, the others keep theirs. -/
theorem labelOf_resolveCycle (u : String) :
    labelOf (resolveCycle order labels oscillating compOf) u =
      if u ∈ oscillating then labelOf labels (keeper order oscillating compOf u)
      else labelOf labels u := by
  rw [resolveCycle]
  set groups := (sorted (order.iter oscillating)).foldl (fun groups node =>
    groups.upsert (componentNumber compOf node) fun group => group.getD [] ++ [node])
    (Table.empty : Table ℕ (List String)) with hgroups
  have hrow : ∀ number group, (number, group) ∈ groups.rows ↔
      group = ((sorted (order.iter oscillating)).filter fun v =>
        componentNumber compOf v = number) ∧ group ≠ [] := fun number group => Table.mem_rows_grouped
  obtain ⟨hin, hout⟩ := @labelOf_resolveGroups (componentNumber compOf) groups.rows
    groups.nodup (by
      rintro ⟨number, group⟩ hg u hu
      obtain ⟨rfl, -⟩ := (hrow number group).mp hg
      simpa using (List.mem_filter.mp hu).2)
    (fun g hg => ((hrow g.1 g.2).mp hg).2) labels
  by_cases hu : u ∈ oscillating
  · rw [if_pos hu]
    have hmem : u ∈ (sorted (order.iter oscillating)).filter fun v =>
        componentNumber compOf v = componentNumber compOf u := by
      simp [mem_sorted_iter, hu]
    exact hin _ ((hrow (componentNumber compOf u) _).mpr ⟨rfl, List.ne_nil_of_mem hmem⟩) u hmem
  · rw [if_neg hu]
    refine hout u ?_
    rintro ⟨number, group⟩ hg hmem
    obtain ⟨rfl, -⟩ := (hrow number group).mp hg
    exact hu (mem_sorted_iter.mp (List.mem_filter.mp hmem).1)

/-- Resolution labels the same nodes. -/
theorem keys_resolveCycle (h : ∀ u ∈ oscillating, u ∈ labels.keys) :
    (resolveCycle order labels oscillating compOf).keys = labels.keys := by
  have hloop : ∀ (groups : List (ℕ × List String)) (labels : Table String ℕ),
      (∀ g ∈ groups, ∀ u ∈ g.2, u ∈ labels.keys) →
      (groups.foldl (fun labels group =>
        let keeperLabel := labelOf labels (group.2.headD "")
        group.2.foldl (fun labels node => labels.upsert node fun _ => keeperLabel) labels)
        labels).keys = labels.keys := by
    intro groups
    induction groups with
    | nil => exact fun labels _ => rfl
    | cons g groups ih =>
      intro labels h
      have hkeys :=
        keys_upsertAll (labelOf labels (g.2.headD "")) g.2 labels (h g List.mem_cons_self)
      rw [List.foldl_cons, ih _ fun g' hg' u hu => ?_]
      · exact hkeys
      · dsimp only
        rw [hkeys]
        exact h g' (List.mem_cons_of_mem _ hg') u hu
  refine hloop _ labels ?_
  rintro ⟨number, group⟩ hg u hu
  obtain ⟨rfl, -⟩ := Table.mem_rows_grouped.mp hg
  exact h u (mem_sorted_iter.mp (List.mem_filter.mp hu).1)

end JanusGraph
