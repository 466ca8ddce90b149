import Mathlib.Data.List.Sort

/-!
# Rotation

Items carry a stamp, and each step of a run picks a list of the eligible ones, the smallest
stamps first. `Rotation` is what makes that fair: a pick stamps its item later than whatever it
left behind, stamps never go down, and an item that waits keeps its own. Then an item that has
waited since another one was picked is picked before that one is picked again
(`Rotation.fair`).
-/

/-- `x` stands before `y` in the list. -/
def List.StandsBefore {ι : Type} (l : List ι) (x y : ι) : Prop :=
  ∃ before after, l = before ++ y :: after ∧ x ∈ before

/-- A run of `n` steps rotates: step `k` finds the items of `eligible k` under their
`stamp k`, and picks `picked k` of them in this order. -/
structure Rotation {ι : Type} (eligible : ℕ → ι → Prop) (stamp : ℕ → ι → ℕ)
    (picked : ℕ → List ι) (n : ℕ) : Prop where
  /-- a smaller stamp is picked first -/
  ordered : ∀ k < n, ∀ a r, a ∈ picked k → eligible k r → stamp k r < stamp k a →
    (picked k).StandsBefore r a
  /-- a pick stamps its item later than what it leaves -/
  restamps : ∀ k < n, ∀ a r, a ∈ picked k → eligible k r → r ∉ picked k →
    stamp k r < stamp (k + 1) a
  /-- stamps do not go down -/
  grows : ∀ k < n, ∀ a, stamp k a ≤ stamp (k + 1) a
  /-- an item that waits keeps its stamp -/
  keeps : ∀ k < n, ∀ r, eligible k r → eligible (k + 1) r → r ∉ picked k →
    stamp (k + 1) r = stamp k r

namespace Rotation

variable {ι : Type} {eligible : ℕ → ι → Prop} {stamp : ℕ → ι → ℕ} {picked : ℕ → List ι} {n : ℕ}

theorem stamp_mono (h : Rotation eligible stamp picked n) (a : ι) {i j : ℕ} (hij : i ≤ j)
    (hj : j ≤ n) : stamp i a ≤ stamp j a := by
  induction j, hij using Nat.le_induction with
  | base => exact le_rfl
  | succ j hij ih => exact (ih (by omega)).trans (h.grows j (by omega) a)

/-- An item that waits from `i` to `j` has the same stamp at both ends. -/
theorem stamp_eq_of_waits (h : Rotation eligible stamp picked n) {r : ι} {i j : ℕ} (hij : i ≤ j)
    (hj : j ≤ n) (helig : ∀ k, i ≤ k → k ≤ j → eligible k r)
    (hwaits : ∀ k, i ≤ k → k < j → r ∉ picked k) : stamp j r = stamp i r := by
  induction j, hij using Nat.le_induction with
  | base => rfl
  | succ j hij ih =>
    have hrest := ih (by omega) (fun k hik hkj => helig k hik (by omega))
      fun k hik hkj => hwaits k hik (by omega)
    rw [h.keeps j (by omega) r (helig j hij (by omega)) (helig (j + 1) (by omega) le_rfl)
      (hwaits j hij (by omega)), hrest]

/-- **A rotation is fair.** What has been eligible since `a` was picked is picked before `a`
is picked again. -/
theorem fair (h : Rotation eligible stamp picked n) {i j : ℕ} (hij : i < j) (hj : j < n) {a r : ι}
    (hi : a ∈ picked i) (ha : a ∈ picked j) (helig : ∀ k, i ≤ k → k ≤ j → eligible k r) :
    (∃ k, i ≤ k ∧ k < j ∧ r ∈ picked k) ∨ (picked j).StandsBefore r a := by
  by_cases hwaits : ∃ k, i ≤ k ∧ k < j ∧ r ∈ picked k
  · exact .inl hwaits
  · right
    push Not at hwaits
    have hleft := h.restamps i (by omega) a r hi (helig i le_rfl hij.le) (hwaits i le_rfl hij)
    have hlater := h.stamp_mono a (show i + 1 ≤ j by omega) hj.le
    have hsame := h.stamp_eq_of_waits hij.le hj.le helig hwaits
    exact h.ordered j hj a r ha (helig j hij.le le_rfl) (by omega)

end Rotation
