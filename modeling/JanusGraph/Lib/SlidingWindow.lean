import Mathlib.Algebra.Order.Group.Defs
import Mathlib.Data.List.TakeWhile
import Mathlib.Order.Basic

/-!
# A sliding window

A limiter that keeps the times at which it admitted something. When the window moves on, the
times that have left it are dropped from the front, and another one is admitted if fewer than the
limit are left. `Keeps` relates what is kept to all that was ever admitted. From it follow the
law of the window, for every window wherever it begins (`Keeps.few`), and that a refusal has its
reason in the window (`Keeps.full`).
-/

namespace SlidingWindow

variable {T : Type} [AddCommGroup T] [LinearOrder T]

/-- What is left of the times when the window ends at `now`. -/
def kept (window now : T) (times : List T) : List T := times.dropWhile fun t => t < now - window

/-- The times in the window that begins at `a`. -/
def within (window a t : T) : Bool := a ≤ t ∧ t ≤ a + window

/-- At the time `now`, `past` are all the times of the admissions and `times` those that are
kept. -/
structure Keeps (limit : ℕ) (window now : T) (past times : List T) : Prop where
  sorted : past.Pairwise (· ≤ ·)
  reached : ∀ t ∈ past, t ≤ now
  split : ∃ gone, past = gone ++ times ∧ ∀ t ∈ gone, t < now - window
  few : ∀ a, past.countP (within window a) ≤ limit

theorem keeps_nil (limit : ℕ) (window now : T) : Keeps limit window now [] [] :=
  ⟨List.Pairwise.nil, nofun, ⟨[], rfl, nofun⟩, fun _ => Nat.zero_le _⟩

variable {limit : ℕ} {window now now' : T} {past times : List T}

/-- The window moves on. -/
theorem Keeps.kept (h : Keeps limit window now past times) :
    Keeps limit window now past (kept window now times) := by
  obtain ⟨gone, hsplit, hgone⟩ := h.split
  refine ⟨h.sorted, h.reached, ⟨gone ++ times.takeWhile fun t => t < now - window, ?_, ?_⟩, h.few⟩
  · rw [SlidingWindow.kept, List.append_assoc, List.takeWhile_append_dropWhile]
    exact hsplit
  · intro t ht
    rcases List.mem_append.mp ht with ht | ht
    · exact hgone t ht
    · have hlt := List.mem_takeWhile_imp ht
      exact of_decide_eq_true hlt

/-- What is left after the window has moved on is in it. -/
theorem Keeps.mem_kept (h : Keeps limit window now past times) {t : T}
    (ht : t ∈ SlidingWindow.kept window now times) : now - window ≤ t ∧ t ≤ now := by
  obtain ⟨gone, hsplit, -⟩ := h.kept.split
  have hsuffix : SlidingWindow.kept window now times <:+ past := ⟨gone, hsplit.symm⟩
  refine ⟨?_, h.reached t (hsuffix.mem ht)⟩
  -- the first time that is left has not left the window, and the others are not earlier
  have hsorted := h.sorted.sublist hsuffix.sublist
  rcases hkept : SlidingWindow.kept window now times with _ | ⟨first, rest⟩
  · rw [hkept] at ht
    cases ht
  · have hfirst : now - window ≤ first := by
      have hhead := List.head?_dropWhile_not (fun t : T => decide (t < now - window)) times
      rw [← SlidingWindow.kept, hkept] at hhead
      simpa using hhead
    rw [hkept] at ht hsorted
    rcases List.mem_cons.mp ht with rfl | ht
    · exact hfirst
    · exact hfirst.trans ((List.pairwise_cons.mp hsorted).1 t ht)

/-- **A refusal.** -/
theorem Keeps.full (h : Keeps limit window now past times)
    (hfull : limit ≤ (SlidingWindow.kept window now times).length) :
    limit ≤ past.countP (within window (now - window)) := by
  obtain ⟨gone, hsplit, -⟩ := h.kept.split
  have hall : (SlidingWindow.kept window now times).countP (within window (now - window)) =
      (SlidingWindow.kept window now times).length := by
    refine List.countP_eq_length.mpr fun t ht => decide_eq_true ?_
    rw [sub_add_cancel]
    exact h.mem_kept ht
  rw [hsplit, List.countP_append, hall]
  exact hfull.trans (Nat.le_add_left _ _)

variable [IsOrderedAddMonoid T]

/-- Time passes. -/
theorem Keeps.later (h : Keeps limit window now past times) (hle : now ≤ now') :
    Keeps limit window now' past times := by
  obtain ⟨gone, hsplit, hgone⟩ := h.split
  exact ⟨h.sorted, fun t ht => (h.reached t ht).trans hle,
    ⟨gone, hsplit, fun t ht => (hgone t ht).trans_le (sub_le_sub_right hle window)⟩, h.few⟩

/-- **Another admission.** -/
theorem Keeps.admitted (h : Keeps limit window now past times)
    (hroom : (SlidingWindow.kept window now times).length < limit) :
    Keeps limit window now (past ++ [now]) (SlidingWindow.kept window now times ++ [now]) := by
  obtain ⟨gone, hsplit, hgone⟩ := h.kept.split
  refine ⟨?_, ?_, ⟨gone, by rw [hsplit, List.append_assoc], hgone⟩, fun a => ?_⟩
  · refine List.pairwise_append.mpr ⟨h.sorted, List.pairwise_singleton _ _, fun t ht u hu => ?_⟩
    rw [List.mem_singleton.mp hu]
    exact h.reached t ht
  · intro t ht
    rcases List.mem_append.mp ht with ht | ht
    · exact h.reached t ht
    · exact (List.mem_singleton.mp ht).le
  · rw [List.countP_append, List.countP_singleton]
    split
    · next hwithin =>
      -- what has been dropped is not in a window that reaches `now`
      obtain ⟨-, hend⟩ := of_decide_eq_true hwithin
      have hbegin : now - window ≤ a := sub_le_iff_le_add.mpr hend
      have hnone : gone.countP (within window a) = 0 := by
        refine List.countP_eq_zero.mpr fun t ht hin => ?_
        exact absurd (hbegin.trans (of_decide_eq_true hin).1) (not_le.mpr (hgone t ht))
      rw [hsplit, List.countP_append, hnone, Nat.zero_add]
      exact (Nat.succ_le_succ List.countP_le_length).trans hroom
    · exact h.few a

end SlidingWindow
