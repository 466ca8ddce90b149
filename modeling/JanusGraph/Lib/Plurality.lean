import Mathlib.Algebra.Order.BigOperators.Ring.Finset
import Mathlib.Algebra.Order.Ring.Int
import Mathlib.Order.Monotone.Basic
import Mathlib.Tactic.Ring

/-!
# Plurality dynamics

In every round each voter takes the label most of its neighbours have, the smallest one on a
tie. On a symmetric graph two successive labellings have an energy that does not depend on
their order, and no round lowers it: a labelling that comes back is the one of two rounds
earlier.
-/

open Finset

/-! ## Runs with a symmetric energy -/

/-- A run in which going on never has less energy than going back, and only as much if the
two are the same. -/
structure Ascent {σ : Type} (E : σ → σ → ℤ) (Same : σ → σ → Prop) (x : ℕ → σ) : Prop where
  symm : ∀ a b, E a b = E b a
  le : ∀ t, E (x (t + 1)) (x t) ≤ E (x (t + 1)) (x (t + 2))
  same : ∀ t, E (x (t + 1)) (x t) = E (x (t + 1)) (x (t + 2)) → Same (x t) (x (t + 2))

namespace Ascent

variable {σ : Type} {E : σ → σ → ℤ} {Same : σ → σ → Prop} {x : ℕ → σ}

theorem energy_le (h : Ascent E Same x) {s t : ℕ} (hst : s ≤ t) :
    E (x s) (x (s + 1)) ≤ E (x t) (x (t + 1)) :=
  monotone_nat_of_le_succ (f := fun t => E (x t) (x (t + 1)))
    (fun t => (h.symm _ _).trans_le (h.le t)) hst

/-- **Period two.** If the energy comes back, the state is that of two rounds earlier. -/
theorem two_back (h : Ascent E Same x) {s t : ℕ} (hst : s ≤ t)
    (hback : E (x s) (x (s + 1)) = E (x (t + 2)) (x (t + 3))) : Same (x t) (x (t + 2)) := by
  have hlow : E (x s) (x (s + 1)) ≤ E (x t) (x (t + 1)) := h.energy_le hst
  have hhigh : E (x (t + 1)) (x (t + 2)) ≤ E (x (t + 2)) (x (t + 3)) := h.energy_le (by omega)
  refine h.same t (le_antisymm (h.le t) ?_)
  rw [h.symm (x (t + 1)) (x t)]
  omega

end Ascent

/-! ## Votes -/

namespace Plurality

variable {V : Type} (Γ : V → Finset V)

/-- How many neighbours of `u` have the label. -/
def votes (x : V → ℕ) (u : V) (label : ℕ) : ℕ := #{v ∈ Γ u | x v = label}

/-- The label beats every other one at `u`. -/
def Elected (x : V → ℕ) (u : V) (label : ℕ) : Prop :=
  ∀ label', label' ≠ label → votes Γ x u label' < votes Γ x u label ∨
    votes Γ x u label' = votes Γ x u label ∧ label < label'

variable {Γ} {x y : V → ℕ} {u : V} {label label' : ℕ}

theorem Elected.unique (h : Elected Γ x u label) (h' : Elected Γ x u label') : label = label' := by
  by_contra hne
  have hlt := h label' (Ne.symm hne)
  have hlt' := h' label hne
  omega

/-- Only the labels of the neighbours count. -/
theorem votes_congr (h : ∀ v ∈ Γ u, x v = y v) (label : ℕ) :
    votes Γ x u label = votes Γ y u label := by
  rw [votes, votes]
  exact congrArg card (filter_congr fun v hv => by rw [h v hv])

theorem elected_congr (h : ∀ v ∈ Γ u, x v = y v) :
    Elected Γ x u label ↔ Elected Γ y u label := by
  simp only [Elected, votes_congr h]

/-- Only the neighbours of the node itself count. -/
theorem elected_congr_neighbours {Γ' : V → Finset V} (h : Γ u = Γ' u) :
    Elected Γ x u label ↔ Elected Γ' x u label := by
  simp only [Elected, votes, h]

theorem votes_pos_iff : 0 < votes Γ x u label ↔ ∃ v ∈ Γ u, x v = label := by
  rw [votes, card_pos, filter_nonempty_iff]

/-- Somebody has the label that wins. -/
theorem Elected.exists_mem (h : Elected Γ x u label) (hne : (Γ u).Nonempty) :
    ∃ v ∈ Γ u, x v = label := by
  obtain ⟨v, hv⟩ := hne
  rcases eq_or_ne (x v) label with heq | hother
  · exact ⟨v, hv, heq⟩
  · have hpos : 0 < votes Γ x u (x v) := votes_pos_iff.mpr ⟨v, hv, rfl⟩
    refine votes_pos_iff.mp ?_
    rcases h _ hother with hlt | ⟨heq, -⟩
    · exact hpos.trans hlt
    · exact hpos.trans_eq heq

/-- A voter with one neighbour takes its label. -/
theorem elected_singleton {v : V} (h : Γ u = {v}) : Elected Γ x u (x v) := by
  intro label' hne
  left
  have hnone : votes Γ x u label' = 0 := by
    rw [votes, h, card_eq_zero, filter_singleton, if_neg (Ne.symm hne)]
  rw [hnone]
  exact votes_pos_iff.mpr ⟨v, by rw [h]; exact mem_singleton_self v, rfl⟩

/-! ## The energy of two labellings -/

variable (Γ) in
/-- Votes of `x` for the labels of `y`, each worth more than all labels, less the labels. -/
def energy (nodes : Finset V) (bound : ℕ) (x y : V → ℕ) : ℤ :=
  ∑ u ∈ nodes, ((bound : ℤ) * votes Γ x u (y u) - y u - x u)

/-- A symmetric graph over the nodes. -/
structure Symmetric (nodes : Finset V) (Γ : V → Finset V) : Prop where
  mem : ∀ u ∈ nodes, ∀ v ∈ Γ u, v ∈ nodes ∧ u ∈ Γ v

variable {nodes : Finset V} {bound : ℕ}

theorem Symmetric.sum_votes_comm (h : Symmetric nodes Γ) (x y : V → ℕ) :
    ∑ u ∈ nodes, votes Γ x u (y u) = ∑ u ∈ nodes, votes Γ y u (x u) := by
  simp only [votes, card_filter]
  rw [@sum_comm' _ _ _ _ _ _ nodes Γ]
  · exact sum_congr rfl fun v _ => sum_congr rfl fun u _ => if_congr eq_comm rfl rfl
  · intro u v
    constructor
    · rintro ⟨hu, hv⟩
      exact ⟨(h.mem u hu v hv).2, (h.mem u hu v hv).1⟩
    · rintro ⟨hu, hv⟩
      exact ⟨(h.mem v hv u hu).1, (h.mem v hv u hu).2⟩

theorem Symmetric.energy_comm (h : Symmetric nodes Γ) (x y : V → ℕ) :
    energy Γ nodes bound x y = energy Γ nodes bound y x := by
  have hvotes : ∑ u ∈ nodes, (votes Γ x u (y u) : ℤ) = ∑ u ∈ nodes, (votes Γ y u (x u) : ℤ) := by
    rw [← Nat.cast_sum, ← Nat.cast_sum, h.sum_votes_comm x y]
  simp only [energy, sum_sub_distrib, ← mul_sum, hvotes]
  ring

/-- No other label contributes as much as the one that is elected. -/
theorem Elected.score_lt (h : Elected Γ x u label) (hne : (Γ u).Nonempty)
    (hbound : ∀ v ∈ Γ u, x v < bound) (hother : label' ≠ label) :
    (bound : ℤ) * votes Γ x u label' - label' < (bound : ℤ) * votes Γ x u label - label := by
  obtain ⟨v, hv, rfl⟩ := h.exists_mem hne
  have hlabel := hbound v hv
  rcases h label' hother with hlt | ⟨heq, hlt⟩
  · have hstep : (votes Γ x u label' : ℤ) + 1 ≤ votes Γ x u (x v) := by exact_mod_cast hlt
    have hmul := mul_le_mul_of_nonneg_left hstep (Int.natCast_nonneg bound)
    rw [mul_add, mul_one] at hmul
    omega
  · rw [heq]
    omega

/-- What is elected everywhere has more energy than anything else. -/
theorem energy_lt {z : V → ℕ} (hne : ∀ u ∈ nodes, (Γ u).Nonempty)
    (hbound : ∀ u ∈ nodes, ∀ v ∈ Γ u, x v < bound) (helected : ∀ u ∈ nodes, Elected Γ x u (z u))
    (hother : ∃ u ∈ nodes, y u ≠ z u) :
    energy Γ nodes bound x y < energy Γ nodes bound x z := by
  obtain ⟨u, hu, hyz⟩ := hother
  refine sum_lt_sum (fun v hv => ?_) ⟨u, hu, ?_⟩
  · rcases eq_or_ne (y v) (z v) with heq | hneq
    · rw [heq]
    · have hscore := (helected v hv).score_lt (hne v hv) (hbound v hv) hneq
      omega
  · have hscore := (helected u hu).score_lt (hne u hu) (hbound u hu) hyz
    omega

/-! ## Runs -/

/-- A run of the dynamics: every node takes the label that is elected. -/
structure Run (nodes : Finset V) (Γ : V → Finset V) (bound : ℕ) (x : ℕ → V → ℕ) : Prop where
  symmetric : Symmetric nodes Γ
  nonempty : ∀ u ∈ nodes, (Γ u).Nonempty
  bounded : ∀ t, ∀ u ∈ nodes, x t u < bound
  elected : ∀ t, ∀ u ∈ nodes, Elected Γ (x t) u (x (t + 1) u)

variable {x : ℕ → V → ℕ}

theorem Run.ascent (h : Run nodes Γ bound x) :
    Ascent (energy Γ nodes bound) (fun a b => ∀ u ∈ nodes, a u = b u) x := by
  have hlt : ∀ t, (∃ u ∈ nodes, x t u ≠ x (t + 2) u) →
      energy Γ nodes bound (x (t + 1)) (x t) < energy Γ nodes bound (x (t + 1)) (x (t + 2)) :=
    fun t => energy_lt h.nonempty
      (fun u hu v hv => h.bounded _ v (h.symmetric.mem u hu v hv).1) (h.elected (t + 1))
  refine ⟨h.symmetric.energy_comm, fun t => ?_, fun t heq => ?_⟩
  · by_cases hother : ∃ u ∈ nodes, x t u ≠ x (t + 2) u
    · exact (hlt t hother).le
    · push Not at hother
      exact (sum_congr rfl fun u hu => by rw [hother u hu]).le
  · by_contra hother
    push Not at hother
    exact (hlt t hother).ne heq

/-- **Period two.** A labelling that was met before the last round is that of two rounds
earlier. -/
theorem Run.two_back (h : Run nodes Γ bound x) {s t : ℕ} (hst : s ≤ t)
    (hback : ∀ u ∈ nodes, x s u = x (t + 2) u)
    (hback' : ∀ u ∈ nodes, x (s + 1) u = x (t + 3) u) : ∀ u ∈ nodes, x t u = x (t + 2) u := by
  refine h.ascent.two_back hst (sum_congr rfl fun u hu => ?_)
  rw [hback u hu, hback' u hu,
    votes_congr fun v hv => hback v (h.symmetric.mem u hu v hv).1]

end Plurality
