import Mathlib.Data.List.Dedup
import Mathlib.Data.List.DropRight

/-!
# The most recent elements

`recent n l` are the last `n` distinct elements of `l`, in the order in which they were last
met. A bounded container that moves what it meets to its end, and drops its first element when it
is too long, has them as its contents (`recent_concat`, `tail_eq_rtake`). An element is among
them exactly if fewer than `n` others were met after it (`mem_recent_iff`).
-/

namespace Recency

variable {α : Type*} [DecidableEq α]

/-- The last `n` distinct elements, the one met longest ago first. -/
def recent (n : ℕ) (l : List α) : List α := l.dedup.rtake n

section

omit [DecidableEq α]

variable {n : ℕ} {l : List α}

theorem rtake_of_length_le (h : l.length ≤ n) : l.rtake n = l := by
  rw [List.rtake, Nat.sub_eq_zero_of_le h, List.drop_zero]

theorem length_rtake (n : ℕ) (l : List α) : (l.rtake n).length = min n l.length := by
  rw [List.rtake, List.length_drop]
  omega

theorem rtake_append_of_le_length (l₁ : List α) {l₂ : List α} (h : n ≤ l₂.length) :
    (l₁ ++ l₂).rtake n = l₂.rtake n := by
  have hdrop : l₁.length + l₂.length - n = l₁.length + (l₂.length - n) := by omega
  rw [List.rtake, List.rtake, List.length_append, hdrop, List.drop_append]
  simp

/-- Dropping the first element of a list that is too long by one leaves its end. -/
theorem tail_eq_rtake (h : l.length = n + 1) : l.tail = l.rtake n := by
  rw [List.rtake, h, Nat.add_sub_cancel_left, List.drop_one]

end

variable {n : ℕ} {l : List α} {a : α}

theorem nodup_recent (n : ℕ) (l : List α) : (recent n l).Nodup :=
  (List.nodup_dedup l).sublist (List.drop_sublist _ _)

theorem length_recent_le (n : ℕ) (l : List α) : (recent n l).length ≤ n := by
  rw [recent, length_rtake]
  exact Nat.min_le_left _ _

@[simp] theorem recent_nil (n : ℕ) : recent n ([] : List α) = [] := by
  rw [recent, List.dedup_nil, List.rtake_nil]

/-- The element met last comes last. -/
theorem dedup_concat (l : List α) (a : α) :
    (l ++ [a]).dedup = l.dedup.filter (· ≠ a) ++ [a] := by
  induction l with
  | nil => rfl
  | cons b l ih =>
    rw [List.cons_append]
    by_cases hb : b ∈ l
    · rw [List.dedup_cons_of_mem (List.mem_append_left _ hb), List.dedup_cons_of_mem hb, ih]
    · rw [List.dedup_cons_of_notMem hb]
      by_cases hba : b = a
      · subst hba
        rw [List.dedup_cons_of_mem (List.mem_append_right _ List.mem_cons_self), ih]
        simp
      · have hnew : b ∉ l ++ [a] := by simp [hb, hba]
        rw [List.dedup_cons_of_notMem hnew, ih]
        simp [hba]

/-- Removing one element makes a list without duplicates shorter by one at most. -/
theorem length_le_of_filter_ne {l : List α} (h : l.Nodup) (a : α) :
    l.length ≤ (l.filter (· ≠ a)).length + 1 := by
  have herase : l.filter (· ≠ a) = l.erase a := by
    rw [h.erase_eq_filter]
    exact List.filter_congr fun b _ => by by_cases hb : b = a <;> simp [hb]
  have hle := List.le_length_erase (a := a) (l := l)
  rw [herase]
  omega

/-- **Step.** What is met comes last, and the one met longest ago may have to go. -/
theorem recent_concat (n : ℕ) (l : List α) (a : α) :
    recent n (l ++ [a]) = ((recent n l).filter (· ≠ a) ++ [a]).rtake n := by
  rw [recent, dedup_concat]
  rcases Nat.le_total l.dedup.length n with hle | hle
  · rw [recent, rtake_of_length_le hle]
  · have hlength : (recent n l).length = n := by
      rw [recent, length_rtake, Nat.min_eq_left hle]
    have hsplit : l.dedup.take (l.dedup.length - n) ++ recent n l = l.dedup :=
      List.take_append_drop _ _
    have hlong := length_le_of_filter_ne (nodup_recent n l) a
    conv_lhs => rw [← hsplit, List.filter_append, List.append_assoc]
    refine rtake_append_of_le_length _ ?_
    rw [List.length_append, List.length_singleton]
    omega

/-- Meeting one of them again moves it to the end. -/
theorem recent_concat_of_mem (h : a ∈ recent n l) :
    recent n (l ++ [a]) = (recent n l).filter (· ≠ a) ++ [a] := by
  rw [recent_concat, rtake_of_length_le]
  have hlt : ((recent n l).filter (· ≠ a)).length < (recent n l).length :=
    List.length_filter_lt_length_iff_exists.mpr ⟨a, h, by simp⟩
  have hle := length_recent_le n l
  rw [List.length_append, List.length_singleton]
  omega

/-- An element that was met is recent exactly if fewer than `n` others were met after the last
time. -/
theorem mem_recent_append_cons (before : List α) {after : List α} (h : a ∉ after) :
    a ∈ recent n (before ++ a :: after) ↔ after.dedup.length < n := by
  obtain ⟨others, -, hothers⟩ := List.sublist_suffix_of_union before (a :: after).dedup
  rw [recent, List.dedup_append, ← hothers, List.dedup_cons_of_notMem h]
  constructor
  · intro hmem
    by_contra hlong
    have hend : (others ++ a :: after.dedup).rtake n = after.dedup.rtake n := by
      rw [List.append_cons]
      exact rtake_append_of_le_length _ (Nat.le_of_not_lt hlong)
    rw [hend] at hmem
    exact h (List.mem_dedup.mp (List.mem_of_mem_drop hmem))
  · intro hlt
    have hbefore : (others ++ a :: after.dedup).length - n ≤ others.length := by
      rw [List.length_append, List.length_cons]
      omega
    rw [List.rtake, List.drop_append_of_le_length hbefore]
    exact List.mem_append_right _ List.mem_cons_self

theorem mem_of_mem_recent (h : a ∈ recent n l) : a ∈ l :=
  List.mem_dedup.mp (List.mem_of_mem_drop h)

/-- **What is recent.** -/
theorem mem_recent_iff : a ∈ recent n l ↔
    ∃ before after, l = before ++ a :: after ∧ a ∉ after ∧ after.dedup.length < n := by
  constructor
  · intro h
    -- the first place in the reversed list is the last one
    have hmem : a ∈ l.reverse := List.mem_reverse.mpr (mem_of_mem_recent h)
    obtain ⟨after, before, hrev, hafter⟩ := List.eq_append_cons_of_mem hmem
    have hl : l = before.reverse ++ a :: after.reverse := by
      rw [← List.reverse_reverse l, hrev]
      simp
    have hafter' : a ∉ after.reverse := mt List.mem_reverse.mp hafter
    rw [hl, mem_recent_append_cons _ hafter'] at h
    exact ⟨_, _, hl, hafter', h⟩
  · rintro ⟨before, after, rfl, hafter, hlt⟩
    exact (mem_recent_append_cons before hafter).mpr hlt

end Recency
