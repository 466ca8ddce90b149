import JanusGraph.Dream.Communities

/-!
# When a resolved cycle is a fixed point

`_resolve_cycle` gives every oscillating node of a component the label of the first one,
and its documentation says that the partition stops moving then. A node next to the
oscillating ones has more votes for that label than it had in either labelling of the
cycle, and may follow them; and an oscillating node may prefer a label of neighbours that
do not oscillate.
-/

namespace JanusGraph

open Plurality

variable {order : SetOrder} {adj : Adjacency}

/-- What `_resolve_cycle` is called on. -/
structure Cycle : Type where
  order : SetOrder
  adj : Adjacency
  pinned : List String
  labels : Table String ℕ
  oscillating : List String

/-- A label with `n` votes wins against another with `n'`. -/
def Ahead (n label n' label' : ℕ) : Prop := n' < n ∨ n' = n ∧ label < label'

namespace Cycle

variable (c : Cycle)

/-- The neighbours of `u` that have the label, and do not oscillate. -/
def stableVotes (u : String) (label : ℕ) : ℕ :=
  ((electorate c.order c.adj c.pinned u).filter fun v =>
    v ∉ c.oscillating ∧ labelOf c.labels v = label).card

/-- The neighbours of `u` that oscillate. -/
def movingVotes (u : String) : ℕ :=
  ((electorate c.order c.adj c.pinned u).filter fun v => v ∈ c.oscillating).card

/-- The label that the oscillating nodes in the component of `u` are given. -/
def keptLabel (u : String) : ℕ :=
  labelOf c.labels (keeper c.order c.oscillating
    (some (componentOf (connectedComponents c.order c.adj))) u)

/-- The votes for the label that is kept, with those of the oscillating neighbours. -/
def keptVotes (u : String) : ℕ := c.stableVotes u (c.keptLabel u) + c.movingVotes u

/-- The label that is kept is what every oscillating node prefers, and what no other node
with an oscillating neighbour is drawn to: such a node has it already, or prefers its own. -/
structure Settled : Prop where
  moving : ∀ u ∈ c.oscillating, ∀ label, label ≠ c.keptLabel u →
    Ahead (c.keptVotes u) (c.keptLabel u) (c.stableVotes u label) label
  stable : ∀ u ∈ nodesOf c.adj, u ∉ c.oscillating → u ∉ c.pinned → 0 < c.movingVotes u →
    labelOf c.labels u ≠ c.keptLabel u →
    Ahead (c.stableVotes u (labelOf c.labels u)) (labelOf c.labels u) (c.keptVotes u)
        (c.keptLabel u) ∧
      ∀ label, label ≠ labelOf c.labels u → label ≠ c.keptLabel u →
        Ahead (c.stableVotes u (labelOf c.labels u)) (labelOf c.labels u)
          (c.stableVotes u label) label

/-- The labels after `_resolve_cycle`. -/
def resolved : Table String ℕ :=
  resolveCycle c.order c.labels c.oscillating
    (some (componentOf (connectedComponents c.order c.adj)))

end Cycle

/-! ## The component numbers -/

/-- Connected nodes have the same number. -/
theorem Components.componentNumber_eq {comps : List (List String)} (h : Components adj comps)
    {u v : String} (hu : u ∈ adj.keys) (huv : Connected adj u v) :
    componentNumber (some (componentOf comps)) u =
      componentNumber (some (componentOf comps)) v := by
  obtain ⟨c, hc, huc⟩ := h.covers u hu
  obtain ⟨i, hi⟩ := componentOf_isSome hc huc
  obtain ⟨d, hd, hud⟩ := componentOf_some hi
  have hvd := h.mem_of_connected (List.mem_of_getElem? hd) hud huv
  obtain ⟨j, hj⟩ := componentOf_isSome (List.mem_of_getElem? hd) hvd
  obtain ⟨d', hd', hvd'⟩ := componentOf_some hj
  -- a node is in one component only
  obtain rfl : i = j := by
    obtain ⟨hilt, rfl⟩ := List.getElem?_eq_some_iff.mp hd
    obtain ⟨hjlt, rfl⟩ := List.getElem?_eq_some_iff.mp hd'
    have hdisjoint := List.pairwise_iff_getElem.mp (List.nodup_flatten.mp h.nodup).2
    rcases Nat.lt_trichotomy i j with hlt | heq | hlt
    · exact absurd hvd' (hdisjoint i j hilt hjlt hlt hvd)
    · exact heq
    · exact absurd hvd (hdisjoint j i hjlt hilt hlt hvd')
  rw [componentNumber, componentNumber, hi, hj]

namespace Cycle

variable {c : Cycle}

/-- Neighbours have the same keeper. -/
theorem keptLabel_eq (hadj : Undirected c.adj) {u v : String} (huv : Lists c.adj u v) :
    c.keptLabel v = c.keptLabel u := by
  have hnumber := (@connectedComponents_spec c.order _ hadj).componentNumber_eq
    huv.mem_keys (.single huv)
  rw [keptLabel, keptLabel, keeper, keeper, hnumber]

theorem labelOf_resolved (u : String) :
    labelOf c.resolved u = if u ∈ c.oscillating then c.keptLabel u else labelOf c.labels u :=
  labelOf_resolveCycle u

/-! ## Votes -/

/-- The votes of the neighbours that do not oscillate, and of those that do. -/
theorem votes_split (labels : Table String ℕ) (u : String) (label : ℕ) :
    votes (electorate c.order c.adj c.pinned) (labelOf labels) u label =
      ((electorate c.order c.adj c.pinned u).filter fun v =>
        v ∉ c.oscillating ∧ labelOf labels v = label).card +
      ((electorate c.order c.adj c.pinned u).filter fun v =>
        v ∈ c.oscillating ∧ labelOf labels v = label).card := by
  have hsplit := Finset.card_filter_add_card_filter_not
    (s := (electorate c.order c.adj c.pinned u).filter fun v => labelOf labels v = label)
    (fun v => v ∉ c.oscillating)
  simp only [Finset.filter_filter, not_not, and_comm (a := labelOf labels _ = label)] at hsplit
  exact hsplit.symm

/-- After the resolution the oscillating neighbours vote for the label that is kept. -/
theorem votes_resolved (hadj : Undirected c.adj) (u : String) (label : ℕ) :
    votes (electorate c.order c.adj c.pinned) (labelOf c.resolved) u label =
      c.stableVotes u label + if label = c.keptLabel u then c.movingVotes u else 0 := by
  have hvote : ∀ v ∈ electorate c.order c.adj c.pinned u, labelOf c.resolved v =
      if v ∈ c.oscillating then c.keptLabel u else labelOf c.labels v := by
    intro v hv
    rw [labelOf_resolved, keptLabel_eq hadj (mem_electorate.mp hv).1]
  rw [votes_split]
  congr 1
  · refine congrArg Finset.card (Finset.filter_congr fun v hv => and_congr_right fun hstable => ?_)
    rw [hvote v hv, if_neg hstable]
  · split
    · rename_i hkept
      refine congrArg Finset.card (Finset.filter_congr fun v hv => ?_)
      rw [hvote v hv, and_iff_left_iff_imp]
      intro hosc
      rw [if_pos hosc, hkept]
    · rename_i hother
      rw [Finset.card_eq_zero, Finset.filter_eq_empty_iff]
      rintro v hv ⟨hosc, hlabel⟩
      rw [hvote v hv, if_pos hosc] at hlabel
      exact hother hlabel.symm

/-- Before it, a label has the votes of stable neighbours and of some that oscillate. -/
theorem votes_bounds (u : String) (label : ℕ) :
    c.stableVotes u label ≤ votes (electorate c.order c.adj c.pinned) (labelOf c.labels) u label ∧
      votes (electorate c.order c.adj c.pinned) (labelOf c.labels) u label ≤
        c.stableVotes u label + c.movingVotes u := by
  rw [votes_split]
  refine ⟨Nat.le_add_right _ _, Nat.add_le_add_left (Finset.card_le_card ?_) _⟩
  exact Finset.monotone_filter_right _ fun v _ h => h.1

theorem movingVotes_pos {u v : String} (hlists : Lists c.adj u v) (hv : v ∉ c.pinned)
    (hosc : v ∈ c.oscillating) : 0 < c.movingVotes u := by
  rw [movingVotes, Finset.card_pos, Finset.filter_nonempty_iff]
  exact ⟨v, mem_electorate.mpr ⟨hlists, hv⟩, hosc⟩

/-! ## Fixed points -/

/-- What is known of a cycle that has been detected. -/
structure Detected (c : Cycle) : Prop where
  undirected : Undirected c.adj
  /-- the next labelling is the one before, which differs at the oscillating nodes -/
  oscillates : ∀ u, u ∈ c.oscillating ↔ u ∈ nodesOf c.adj ∧
    labelOf (sweep c.order c.adj c.pinned c.labels) u ≠ labelOf c.labels u

namespace Detected

variable (h : c.Detected)

include h

/-- A node that votes for itself only does not oscillate. -/
theorem not_oscillating_of_static {u : String}
    (hself : voters c.order c.adj c.pinned u = {u}) : u ∉ c.oscillating := by
  intro hosc
  obtain ⟨hu, hmoved⟩ := (h.oscillates u).mp hosc
  exact hmoved (sweep_static _ hu hself)

/-- A node that does not oscillate has the label that was elected. -/
theorem elected_stable {u : String} (hu : u ∈ nodesOf c.adj) (hstable : u ∉ c.oscillating) :
    Elected (voters c.order c.adj c.pinned) (labelOf c.labels) u (labelOf c.labels u) := by
  have helected := @sweep_elected c.order c.adj c.pinned c.labels u hu
  have hsame : labelOf (sweep c.order c.adj c.pinned c.labels) u = labelOf c.labels u := by
    by_contra hmoved
    exact hstable ((h.oscillates u).mpr ⟨hu, hmoved⟩)
  rwa [hsame] at helected

/-- The kept label at a node, after the resolution. -/
theorem elected_kept_iff (u : String) :
    Elected (electorate c.order c.adj c.pinned) (labelOf c.resolved) u (c.keptLabel u) ↔
      ∀ label, label ≠ c.keptLabel u →
        Ahead (c.keptVotes u) (c.keptLabel u) (c.stableVotes u label) label := by
  refine forall₂_congr fun label hne => ?_
  rw [votes_resolved h.undirected, votes_resolved h.undirected, if_neg hne, if_pos rfl,
    Nat.add_zero]
  exact Iff.rfl

/-- Another label at a node, after the resolution. -/
theorem elected_other_iff {u : String} {own : ℕ} (hown : own ≠ c.keptLabel u) :
    Elected (electorate c.order c.adj c.pinned) (labelOf c.resolved) u own ↔
      Ahead (c.stableVotes u own) own (c.keptVotes u) (c.keptLabel u) ∧
        ∀ label, label ≠ own → label ≠ c.keptLabel u →
          Ahead (c.stableVotes u own) own (c.stableVotes u label) label := by
  have hvotes : ∀ label, label ≠ c.keptLabel u →
      votes (electorate c.order c.adj c.pinned) (labelOf c.resolved) u label =
        c.stableVotes u label := by
    intro label hne
    rw [votes_resolved h.undirected, if_neg hne, Nat.add_zero]
  have hkept : votes (electorate c.order c.adj c.pinned) (labelOf c.resolved) u (c.keptLabel u) =
      c.keptVotes u := by
    rw [votes_resolved h.undirected, if_pos rfl, keptVotes]
  constructor
  · intro helected
    refine ⟨?_, fun label hne hnot => ?_⟩
    · have hlt := helected _ (Ne.symm hown)
      rwa [hkept, hvotes own hown] at hlt
    · have hlt := helected label hne
      rwa [hvotes label hnot, hvotes own hown] at hlt
  · rintro ⟨hahead, hall⟩ label hne
    rw [hvotes own hown]
    by_cases hlabel : label = c.keptLabel u
    · rw [hlabel, hkept]
      exact hahead
    · rw [hvotes label hlabel]
      exact hall label hne hlabel

/-- **Exactly.** The labels after the resolution are a fixed point if and only if the cycle
is settled. -/
theorem fixed_iff_settled :
    (∀ u ∈ nodesOf c.adj, labelOf (sweep c.order c.adj c.pinned c.resolved) u =
      labelOf c.resolved u) ↔ c.Settled := by
  have hfixed : ∀ u ∈ nodesOf c.adj, (labelOf (sweep c.order c.adj c.pinned c.resolved) u =
      labelOf c.resolved u ↔ Elected (voters c.order c.adj c.pinned) (labelOf c.resolved) u
        (labelOf c.resolved u)) := by
    intro u hu
    have helected := @sweep_elected c.order c.adj c.pinned c.resolved u hu
    exact ⟨fun heq => by rwa [heq] at helected, fun helected' => helected.unique helected'⟩
  have hmoves : ∀ u, ¬ voters c.order c.adj c.pinned u = {u} →
      voters c.order c.adj c.pinned u = electorate c.order c.adj c.pinned u := by
    intro u hself
    rw [voters, if_neg]
    exact fun hstatic => hself (if_pos hstatic)
  rw [forall₂_congr hfixed]
  constructor
  · intro hall
    refine ⟨fun u hosc => ?_, fun u hu hosc hpin hpos hlabel => ?_⟩
    · have helected := hall u ((h.oscillates u).mp hosc).1
      rw [labelOf_resolved, if_pos hosc,
        elected_congr_neighbours (hmoves u fun hself => h.not_oscillating_of_static hself hosc),
        h.elected_kept_iff] at helected
      exact helected
    · have hvoters : voters c.order c.adj c.pinned u = electorate c.order c.adj c.pinned u := by
        rw [voters, if_neg]
        rintro (hp | hempty)
        · exact hpin hp
        · rw [movingVotes, hempty] at hpos
          exact absurd hpos (by simp)
      have helected := hall u hu
      rw [labelOf_resolved, if_neg hosc, elected_congr_neighbours hvoters,
        h.elected_other_iff hlabel] at helected
      exact helected
  · intro hsettled u hu
    by_cases hself : voters c.order c.adj c.pinned u = {u}
    · exact elected_singleton hself
    have hvoters := hmoves u hself
    rw [labelOf_resolved]
    split
    · rename_i hosc
      rw [elected_congr_neighbours hvoters, h.elected_kept_iff]
      exact hsettled.moving u hosc
    rename_i hosc
    have hbefore := h.elected_stable hu hosc
    rw [elected_congr_neighbours hvoters] at hbefore ⊢
    rcases Nat.eq_zero_or_pos (c.movingVotes u) with hzero | hpos
    · -- nothing changes around the node
      refine (elected_congr fun v hv => ?_).mp hbefore
      rw [labelOf_resolved, if_neg]
      intro hv'
      have hpos := movingVotes_pos (mem_electorate.mp hv).1 (mem_electorate.mp hv).2 hv'
      omega
    by_cases hlabel : labelOf c.labels u = c.keptLabel u
    · -- the label it has gains votes only
      rw [hlabel] at hbefore ⊢
      rw [h.elected_kept_iff]
      intro label hne
      have hlt := hbefore label hne
      have hlow := (votes_bounds (c := c) u label).1
      have hhigh := (votes_bounds (c := c) u (c.keptLabel u)).2
      rw [Ahead, keptVotes]
      omega
    · rw [h.elected_other_iff hlabel]
      refine hsettled.stable u hu hosc (fun hpin => hself (voters_of_pinned hpin)) hpos hlabel

end Detected

end Cycle

/-! ## `cluster_graph` -/

/-- The cycle `cluster_graph` detects. -/
def cycleOf (order : SetOrder) (adj : Adjacency) (minDegree maxRounds : ℤ) : Cycle where
  order
  adj
  pinned := pinnedNodes order adj minDegree
  labels := (propagated order adj minDegree maxRounds).labels
  oscillating := (propagated order adj minDegree maxRounds).oscillating

/-- Where a cycle is detected the next labelling is the one before, and some node
oscillates. -/
theorem cycleOf_detected (hadj : Undirected adj) {minDegree maxRounds : ℤ}
    (hcycle : (propagated order adj minDegree maxRounds).cycle = true) :
    (cycleOf order adj minDegree maxRounds).Detected ∧
      (propagated order adj minDegree maxRounds).oscillating ≠ [] := by
  cases propagated_ended order adj minDegree maxRounds with
  | exhausted _ hnone => rw [hnone] at hcycle; cases hcycle
  | converged _ hnone => rw [hnone] at hcycle; cases hcycle
  | @cycle s t _ _ hosc _ hlabels hst hback hmoved =>
    obtain ⟨-, -, hnext, -⟩ := hadj.cycle_cases hst hback hmoved
    refine ⟨⟨hadj, fun u => ?_⟩, fun hnone => hmoved ?_⟩
    · rw [cycleOf, hlabels, hosc, ← labelsAt_succ, hnext, List.mem_filter, decide_eq_true_eq]
      exact and_congr_right fun _ => ne_comm
    · refine (labelsNodes_at (t + 1)).ext (labelsNodes_at t) fun u hu => ?_
      by_contra hne
      have hmem : u ∈ (propagated order adj minDegree maxRounds).oscillating := by
        rw [hosc, List.mem_filter, decide_eq_true_eq]
        exact ⟨hu, hne⟩
      rw [hnone] at hmem
      cases hmem

/-- **A resolved cycle is a fixed point, exactly when** it is settled: when one more round
on the labels `cluster_graph` ends with changes no label. -/
theorem resolution_fixed_iff (order : SetOrder) (adj : Adjacency) (minDegree maxRounds : ℤ)
    (hcycle : (propagated order (normalise order adj) minDegree maxRounds).cycle = true) :
    (∀ u ∈ nodesOf (normalise order adj),
      labelOf (sweep order (normalise order adj) (pinnedNodes order (normalise order adj) minDegree)
        (finalLabels order (normalise order adj) minDegree maxRounds)) u =
      labelOf (finalLabels order (normalise order adj) minDegree maxRounds) u) ↔
    (cycleOf order (normalise order adj) minDegree maxRounds).Settled := by
  obtain ⟨hdetected, hosc⟩ := cycleOf_detected (normalise_undirected order adj) hcycle
  rw [← hdetected.fixed_iff_settled, finalLabels, if_neg hosc]
  exact Iff.rfl

/-- Two nodes that exchange their labels. -/
def edgeDict : Adjacency := ⟨[("a", ["b"])], by decide⟩

/-- Two nodes with a common neighbour, and one more at each. -/
def bullDict : Adjacency :=
  ⟨[("a", ["b", "c", "e"]), ("b", ["c", "d"])], by decide⟩

theorem resolution_fixed_iff_edge :
    (∀ u ∈ nodesOf (normalise .added edgeDict),
      labelOf (sweep .added (normalise .added edgeDict)
        (pinnedNodes .added (normalise .added edgeDict) 0)
        (finalLabels .added (normalise .added edgeDict) 0 1000)) u =
      labelOf (finalLabels .added (normalise .added edgeDict) 0 1000) u) ↔
    (cycleOf .added (normalise .added edgeDict) 0 1000).Settled :=
  resolution_fixed_iff .added edgeDict 0 1000 (by decide +kernel)

/-- The node both neighbours of which oscillate follows them after the resolution. -/
theorem not_resolution_fixed :
    (propagated .added (normalise .added bullDict) 0 1000).cycle = true ∧
    ¬ ∀ u ∈ nodesOf (normalise .added bullDict),
      labelOf (sweep .added (normalise .added bullDict)
        (pinnedNodes .added (normalise .added bullDict) 0)
        (finalLabels .added (normalise .added bullDict) 0 1000)) u =
      labelOf (finalLabels .added (normalise .added bullDict) 0 1000) u := by
  decide +kernel

end JanusGraph
