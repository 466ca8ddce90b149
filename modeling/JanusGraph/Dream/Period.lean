import Mathlib.Data.Fintype.Pigeonhole
import JanusGraph.Dream.Labels

/-!
# The period of label propagation

`cluster_graph` looks for its nodes that oscillate in two successive labellings only. That
is enough because a labelling that comes back is the one of two rounds earlier: rounds are
plurality dynamics on a symmetric graph (`Plurality.Run`).
-/

namespace JanusGraph

open Plurality

variable (order : SetOrder) (adj : Adjacency) (pinned : List String)

/-- The labels after `t` rounds. -/
def labelsAt (t : ℕ) : Table String ℕ := (sweep order adj pinned)^[t] (seedLabels adj)

variable {order adj pinned}

theorem labelsAt_succ (t : ℕ) :
    labelsAt order adj pinned (t + 1) = sweep order adj pinned (labelsAt order adj pinned t) :=
  Function.iterate_succ_apply' _ _ _

theorem iterate_labelsAt (n t : ℕ) :
    (sweep order adj pinned)^[n] (labelsAt order adj pinned t) =
      labelsAt order adj pinned (t + n) := by
  rw [labelsAt, labelsAt, Nat.add_comm, Function.iterate_add_apply]

/-- What comes after equal labellings is equal. -/
theorem labelsAt_add {s t : ℕ} (h : labelsAt order adj pinned s = labelsAt order adj pinned t)
    (n : ℕ) : labelsAt order adj pinned (s + n) = labelsAt order adj pinned (t + n) := by
  rw [← iterate_labelsAt, ← iterate_labelsAt, h]

theorem labelsNodes_at (t : ℕ) : LabelsNodes adj (labelsAt order adj pinned t) := by
  cases t with
  | zero => exact labelsNodes_seed adj
  | succ t =>
    rw [labelsAt_succ]
    exact labelsNodes_sweep _

/-- Labels are ranks. -/
theorem labelsAt_lt (hadj : Undirected adj) (t : ℕ) {u : String} (hu : u ∈ nodesOf adj) :
    labelOf (labelsAt order adj pinned t) u < (nodesOf adj).length := by
  induction t generalizing u with
  | zero =>
    rw [labelsAt, Function.iterate_zero_apply, seedLabels, labelOf_ofKeys hu]
    exact List.idxOf_lt_length_of_mem hu
  | succ t ih =>
    rw [labelsAt_succ]
    obtain ⟨v, hv, hlabel⟩ :=
      (@sweep_elected order adj pinned _ _ hu).exists_mem (voters_nonempty u)
    rw [← hlabel]
    exact ih (hadj.mem_of_mem_voters hu hv)

theorem Undirected.run (hadj : Undirected adj) :
    Run (nodesOf adj).toFinset (voters order adj pinned) (nodesOf adj).length
      fun t => labelOf (labelsAt order adj pinned t) where
  symmetric := hadj.voters_symmetric
  nonempty := fun u _ => voters_nonempty u
  bounded := fun t _ hu => labelsAt_lt hadj t (List.mem_toFinset.mp hu)
  elected := fun t u hu => by
    rw [labelsAt_succ]
    exact sweep_elected _ (List.mem_toFinset.mp hu)

/-- **Period two.** -/
theorem Undirected.two_back (hadj : Undirected adj) {s t : ℕ} (hst : s ≤ t)
    (h : labelsAt order adj pinned (t + 2) = labelsAt order adj pinned s) :
    labelsAt order adj pinned (t + 2) = labelsAt order adj pinned t := by
  refine ((labelsNodes_at t).ext (labelsNodes_at (t + 2)) fun u hu => ?_).symm
  refine hadj.run.two_back hst (fun v _ => ?_) (fun v _ => ?_) u (List.mem_toFinset.mpr hu)
  · exact congrArg (labelOf · v) h.symm
  · exact congrArg (labelOf · v) (labelsAt_add h.symm 1)

/-- Rounds come back. -/
theorem Undirected.exists_back (hadj : Undirected adj) :
    ∃ s t, s < t ∧ labelsAt order adj pinned s = labelsAt order adj pinned t := by
  let f : ℕ → {u // u ∈ nodesOf adj} → Fin (nodesOf adj).length := fun t u =>
    ⟨labelOf (labelsAt order adj pinned t) u, labelsAt_lt hadj t u.2⟩
  obtain ⟨s, t, hne, heq⟩ := Finite.exists_ne_map_eq_of_infinite f
  have hsame : labelsAt order adj pinned s = labelsAt order adj pinned t := by
    refine (labelsNodes_at s).ext (labelsNodes_at t) fun u hu => ?_
    exact congrArg Fin.val (congrFun heq ⟨u, hu⟩)
  rcases Nat.lt_or_gt_of_ne hne with hlt | hlt
  · exact ⟨s, t, hlt, hsame⟩
  · exact ⟨t, s, hlt, hsame.symm⟩

/-! ## How the rounds end -/

/-- What is left when at most `limit` rounds have been made. -/
inductive RoundsEnd (order : SetOrder) (adj : Adjacency) (pinned : List String) (limit : ℕ)
    (p : Propagation) : Prop where
  | exhausted : p.converged = false → p.cycle = false → p.oscillating = [] → p.rounds = limit →
      p.labels = labelsAt order adj pinned limit →
      (∀ s t, s < t → t ≤ limit → labelsAt order adj pinned s ≠ labelsAt order adj pinned t) →
      RoundsEnd order adj pinned limit p
  | converged {t : ℕ} : p.converged = true → p.cycle = false → p.oscillating = [] →
      p.rounds = t + 1 → p.labels = labelsAt order adj pinned (t + 1) →
      labelsAt order adj pinned (t + 1) = labelsAt order adj pinned t →
      RoundsEnd order adj pinned limit p
  | cycle {s t : ℕ} : p.converged = false → p.cycle = true →
      p.oscillating = (nodesOf adj).filter (fun u =>
        labelOf (labelsAt order adj pinned (t + 1)) u ≠ labelOf (labelsAt order adj pinned t) u) →
      p.rounds = t + 1 → p.labels = labelsAt order adj pinned (t + 1) → s ≤ t →
      labelsAt order adj pinned (t + 1) = labelsAt order adj pinned s →
      labelsAt order adj pinned (t + 1) ≠ labelsAt order adj pinned t →
      RoundsEnd order adj pinned limit p

/-- The head of a round: all labellings so far are in `seen`, and different. -/
structure Propagation.Head (order : SetOrder) (adj : Adjacency) (pinned : List String) (t : ℕ)
    (p : Propagation) : Prop where
  rounds : p.rounds = t
  labels : p.labels = labelsAt order adj pinned t
  seen : ∀ labels, labels ∈ p.seen ↔ ∃ s ≤ t, labels = labelsAt order adj pinned s
  distinct : ∀ s s', s < s' → s' ≤ t → labelsAt order adj pinned s ≠ labelsAt order adj pinned s'
  oscillating : p.oscillating = []
  cycle : p.cycle = false
  converged : p.converged = false

theorem propagate_ended {left t : ℕ} {p : Propagation} (h : p.Head order adj pinned t) :
    RoundsEnd order adj pinned (t + left) (propagate order adj pinned left p) := by
  induction left generalizing t p with
  | zero =>
    exact .exhausted h.converged h.cycle h.oscillating h.rounds h.labels h.distinct
  | succ left ih =>
    have hnext : sweep order adj pinned p.labels = labelsAt order adj pinned (t + 1) := by
      rw [labelsAt_succ, h.labels]
    rw [propagate]
    simp only [hnext]
    split
    · rename_i hsame
      rw [h.labels] at hsame
      refine .converged rfl h.cycle h.oscillating (congrArg (· + 1) h.rounds) ?_ hsame
      exact h.labels.trans hsame.symm
    rename_i hmoved
    rw [h.labels] at hmoved
    split
    · rename_i hseen
      obtain ⟨s, hs, hback⟩ := (h.seen _).mp hseen
      refine .cycle h.converged rfl ?_ (congrArg (· + 1) h.rounds) rfl hs hback hmoved
      rw [h.labels]
    · rename_i hnew
      have hhead : Propagation.Head order adj pinned (t + 1)
          { p with
            labels := labelsAt order adj pinned (t + 1)
            seen := labelsAt order adj pinned (t + 1) :: p.seen
            rounds := p.rounds + 1 } := by
        refine ⟨congrArg (· + 1) h.rounds, rfl, fun labels => ?_, ?_, h.oscillating, h.cycle,
          h.converged⟩
        · rw [List.mem_cons, h.seen]
          constructor
          · rintro (rfl | ⟨s, hs, rfl⟩)
            · exact ⟨t + 1, le_rfl, rfl⟩
            · exact ⟨s, by omega, rfl⟩
          · rintro ⟨s, hs, rfl⟩
            rcases Nat.lt_or_ge t s with hlt | hle
            · obtain rfl : s = t + 1 := by omega
              exact .inl rfl
            · exact .inr ⟨s, hle, rfl⟩
        · intro s s' hlt hle
          rcases Nat.lt_or_ge t s' with hlast | hold
          · obtain rfl : s' = t + 1 := by omega
            exact fun heq => hnew ((h.seen _).mpr ⟨s, by omega, heq.symm⟩)
          · exact h.distinct s s' hlt hold
      rw [show t + (left + 1) = t + 1 + left by omega]
      exact ih hhead

/-- **Run.** How `cluster_graph`'s rounds end. -/
theorem propagated_ended (order : SetOrder) (adj : Adjacency) (minDegree maxRounds : ℤ) :
    RoundsEnd order adj (pinnedNodes order adj minDegree) maxRounds.toNat
      (propagated order adj minDegree maxRounds) := by
  have hhead : Propagation.Head order adj (pinnedNodes order adj minDegree) 0
      { labels := seedLabels adj, seen := [seedLabels adj] } := by
    refine ⟨rfl, rfl, fun labels => ?_, fun s s' _ _ => by omega, rfl, rfl, rfl⟩
    rw [List.mem_singleton]
    exact ⟨fun h => ⟨0, le_rfl, h⟩, fun ⟨s, hs, h⟩ => by rwa [Nat.le_zero.mp hs] at h⟩
  rw [← Nat.zero_add maxRounds.toNat]
  exact propagate_ended hhead

theorem RoundsEnd.labels_eq {limit : ℕ} {p : Propagation} (h : RoundsEnd order adj pinned limit p) :
    p.labels = labelsAt order adj pinned p.rounds := by
  cases h with
  | exhausted _ _ _ hrounds hlabels => rw [hlabels, hrounds]
  | converged _ _ _ hrounds hlabels => rw [hlabels, hrounds]
  | cycle _ _ _ hrounds hlabels => rw [hlabels, hrounds]

/-- A cycle alternates between the last two labellings. -/
theorem Undirected.cycle_cases (hadj : Undirected adj) {s t : ℕ} (hst : s ≤ t)
    (hback : labelsAt order adj pinned (t + 1) = labelsAt order adj pinned s)
    (hmoved : labelsAt order adj pinned (t + 1) ≠ labelsAt order adj pinned t) :
    1 ≤ t ∧ labelsAt order adj pinned (t + 1) = labelsAt order adj pinned (t - 1) ∧
      labelsAt order adj pinned (t + 2) = labelsAt order adj pinned t ∧
      ∀ n, labelsAt order adj pinned (t + 1 + n) = labelsAt order adj pinned (t + 1) ∨
        labelsAt order adj pinned (t + 1 + n) = labelsAt order adj pinned t := by
  have hlt : s < t := by
    refine lt_of_le_of_ne hst ?_
    rintro rfl
    exact hmoved hback
  obtain ⟨t, rfl⟩ : ∃ t', t = t' + 1 := ⟨t - 1, by omega⟩
  have htwo : labelsAt order adj pinned (t + 2) = labelsAt order adj pinned t :=
    hadj.two_back (by omega) hback
  have hnext : labelsAt order adj pinned (t + 3) = labelsAt order adj pinned (t + 1) :=
    labelsAt_add htwo 1
  refine ⟨by omega, htwo, hnext, fun n => ?_⟩
  induction n with
  | zero => exact .inl rfl
  | succ n ih =>
    rcases ih with ih | ih
    · exact .inr ((labelsAt_add ih 1).trans hnext)
    · exact .inl (labelsAt_add ih 1)

/-- **The period of label propagation.** A labelling that equals an earlier one, but not
the last, is that of two rounds before. So the oscillating nodes are those whose label
would ever change again, and enough rounds end in a fixed point or a cycle. -/
theorem propagation_period (order : SetOrder) (adj : Adjacency) (minDegree : ℤ) :
    let graph := normalise order adj
    let pinned := pinnedNodes order graph minDegree
    let x := labelsAt order graph pinned
    (∀ s t, s ≤ t → x (t + 1) = x s → x (t + 1) ≠ x t → 1 ≤ t ∧ x (t + 1) = x (t - 1)) ∧
    (∀ maxRounds, (propagated order graph minDegree maxRounds).labels =
      x (propagated order graph minDegree maxRounds).rounds) ∧
    (∀ maxRounds, (propagated order graph minDegree maxRounds).cycle = true →
      ∀ u, u ∈ (propagated order graph minDegree maxRounds).oscillating ↔
        ∃ n, labelOf ((sweep order graph pinned)^[n]
            (propagated order graph minDegree maxRounds).labels) u ≠
          labelOf (propagated order graph minDegree maxRounds).labels u) ∧
    ∃ enough, ∀ maxRounds, enough ≤ maxRounds →
      (propagated order graph minDegree maxRounds).converged = true ∨
        (propagated order graph minDegree maxRounds).cycle = true := by
  have hadj := normalise_undirected order adj
  refine ⟨fun s t hst hback hmoved => ?_, fun maxRounds => ?_, fun maxRounds hcycle u => ?_, ?_⟩
  · obtain ⟨ht, htwo, -, -⟩ := hadj.cycle_cases hst hback hmoved
    exact ⟨ht, htwo⟩
  · exact (propagated_ended order _ minDegree maxRounds).labels_eq
  · cases propagated_ended order (normalise order adj) minDegree maxRounds with
    | exhausted _ hnone => rw [hnone] at hcycle; cases hcycle
    | converged _ hnone => rw [hnone] at hcycle; cases hcycle
    | @cycle s t _ _ hosc _ hlabels hst hback hmoved =>
      obtain ⟨-, -, hnext, hcases⟩ := hadj.cycle_cases hst hback hmoved
      have hiter : ∀ n, (sweep order (normalise order adj)
          (pinnedNodes order (normalise order adj) minDegree))^[n]
          (propagated order (normalise order adj) minDegree maxRounds).labels =
          labelsAt order (normalise order adj)
            (pinnedNodes order (normalise order adj) minDegree) (t + 1 + n) := by
        intro n
        rw [hlabels, iterate_labelsAt]
      simp only [hiter]
      rw [hosc, hlabels, List.mem_filter, decide_eq_true_eq]
      constructor
      · rintro ⟨-, hne⟩
        exact ⟨1, fun heq => hne (heq.symm.trans (congrArg (labelOf · u) hnext))⟩
      · rintro ⟨n, hne⟩
        rcases hcases n with h | h
        · rw [h] at hne
          exact absurd rfl hne
        · rw [h] at hne
          refine ⟨?_, Ne.symm hne⟩
          by_contra hu
          rw [(labelsNodes_at t).labelOf_eq_zero hu,
            (labelsNodes_at (t + 1)).labelOf_eq_zero hu] at hne
          exact hne rfl
  · obtain ⟨s, t, hlt, hsame⟩ := @Undirected.exists_back order _
      (pinnedNodes order (normalise order adj) minDegree) hadj
    refine ⟨t, fun maxRounds henough => ?_⟩
    cases propagated_ended order (normalise order adj) minDegree maxRounds with
    | exhausted _ _ _ _ _ hdistinct => exact absurd hsame (hdistinct s t hlt (by omega))
    | converged hconverged => exact .inl hconverged
    | cycle _ hcycle => exact .inr hcycle

end JanusGraph
