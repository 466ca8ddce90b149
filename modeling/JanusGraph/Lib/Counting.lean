import Mathlib.Algebra.GroupWithZero.Nat
import Mathlib.Algebra.Ring.Int.Defs
import Mathlib.Data.List.Count
import Mathlib.Data.List.Nodup

/-!
# Counting by predicates

The items of a list are counted under each of several keys, and an item can have
many keys or none. The counts add up to the number of items that have a key at all
exactly when none has two.
-/

variable {α κ : Type}

namespace List

/-- One more item counts once under each of its keys. -/
theorem sum_map_countP_cons (p : κ → α → Bool) (ks : List κ) (a : α) (l : List α) :
    (ks.map fun k => (a :: l).countP (p k)).sum =
      (ks.map fun k => l.countP (p k)).sum + ks.countP fun k => p k a := by
  induction ks with
  | nil => rfl
  | cons k ks ih =>
    rw [map_cons, sum_cons, ih, map_cons, sum_cons, countP_cons, countP_cons]
    omega

/-- With distinct keys, an item counts once at most if it has one key at most. -/
theorem countP_le_one_iff {p : κ → Bool} {ks : List κ} (hks : ks.Nodup) :
    ks.countP p ≤ 1 ↔ ∀ k ∈ ks, ∀ k' ∈ ks, p k = true → p k' = true → k = k' := by
  induction ks with
  | nil => simp
  | cons k₀ ks ih =>
    obtain ⟨hnot, hks⟩ := nodup_cons.mp hks
    rw [countP_cons]
    by_cases hk₀ : p k₀ = true
    · rw [if_pos hk₀]
      constructor
      · intro hle
        have hzero : ∀ k ∈ ks, ¬ p k = true := countP_eq_zero.mp (by omega)
        intro k hk k' hk' hpk hpk'
        rcases mem_cons.mp hk with rfl | hk
        · rcases mem_cons.mp hk' with rfl | hk'
          · rfl
          · exact absurd hpk' (hzero k' hk')
        · exact absurd hpk (hzero k hk)
      · intro hone
        have hzero : ks.countP p = 0 := countP_eq_zero.mpr fun k hk hpk =>
          hnot (hone k (mem_cons_of_mem _ hk) k₀ mem_cons_self hpk hk₀ ▸ hk)
        omega
    · rw [if_neg hk₀, Nat.add_zero, ih hks]
      constructor
      · intro hone k hk k' hk' hpk hpk'
        rcases mem_cons.mp hk with rfl | hk
        · exact absurd hpk hk₀
        · rcases mem_cons.mp hk' with rfl | hk'
          · exact absurd hpk' hk₀
          · exact hone k hk k' hk' hpk hpk'
      · exact fun hone k hk k' hk' => hone k (mem_cons_of_mem _ hk) k' (mem_cons_of_mem _ hk')

/-- An item with a key counts at least once. -/
theorem countP_any_le_sum (p : κ → α → Bool) (ks : List κ) (l : List α) :
    l.countP (fun a => ks.any fun k => p k a) ≤ (ks.map fun k => l.countP (p k)).sum := by
  induction l with
  | nil => simp
  | cons a l ih =>
    rw [sum_map_countP_cons, countP_cons]
    split
    · rename_i hany
      obtain ⟨k, hk, hpk⟩ := any_eq_true.mp hany
      have hpos : 0 < ks.countP fun k => p k a := countP_pos_iff.mpr ⟨k, hk, hpk⟩
      omega
    · omega

/-- The counts add up exactly when no item has two keys. -/
theorem countP_any_eq_sum_iff {p : κ → α → Bool} {ks : List κ} (hks : ks.Nodup) (l : List α) :
    l.countP (fun a => ks.any fun k => p k a) = (ks.map fun k => l.countP (p k)).sum ↔
      ∀ a ∈ l, ∀ k ∈ ks, ∀ k' ∈ ks, p k a = true → p k' a = true → k = k' := by
  induction l with
  | nil => simp
  | cons a l ih =>
    have hle := countP_any_le_sum p ks l
    rw [sum_map_countP_cons, countP_cons, forall_mem_cons, ← countP_le_one_iff hks, ← ih]
    by_cases hany : ks.any (fun k => p k a) = true
    · obtain ⟨k, hk, hpk⟩ := any_eq_true.mp hany
      have hpos : 0 < ks.countP fun k => p k a := countP_pos_iff.mpr ⟨k, hk, hpk⟩
      rw [if_pos hany]
      omega
    · have hzero : ks.countP (fun k => p k a) = 0 :=
        countP_eq_zero.mpr fun k hk hpk => hany (any_eq_true.mpr ⟨k, hk, hpk⟩)
      rw [if_neg hany]
      omega

end List
