import Mathlib.Logic.Function.Basic
import Mathlib.Data.List.Basic
import Mathlib.Data.List.Induction

/-!
# Files with a write-ahead log

The content of a database is that of its file, page by page, under the frames of its log,
oldest first: the latest frame of a page counts. Nothing ties a log to the file beside it.
-/

namespace Wal

variable {P : Type}

/-- Lay frames over pages. -/
def overlay (frames : List (ℕ × P)) (pages : ℕ → Option P) : ℕ → Option P :=
  frames.foldl (fun pages frame => Function.update pages frame.1 (some frame.2)) pages

/-- The page of the latest frame. -/
def latest (frames : List (ℕ × P)) (n : ℕ) : Option P :=
  (frames.reverse.find? fun frame => frame.1 = n).map Prod.snd

@[simp] theorem overlay_nil (pages : ℕ → Option P) : overlay [] pages = pages := rfl

theorem overlay_concat (frames : List (ℕ × P)) (frame : ℕ × P) (pages : ℕ → Option P) :
    overlay (frames ++ [frame]) pages =
      Function.update (overlay frames pages) frame.1 (some frame.2) := by
  simp [overlay]

/-- What a page reads as. -/
theorem overlay_apply (frames : List (ℕ × P)) (pages : ℕ → Option P) (n : ℕ) :
    overlay frames pages n = (latest frames n).or (pages n) := by
  induction frames using List.reverseRecOn with
  | nil => simp [latest]
  | append_singleton frames frame ih =>
    rw [overlay_concat]
    by_cases hn : n = frame.1
    · simp [latest, hn]
    · simp [latest, Function.update_of_ne hn, Ne.symm hn, ih]

/-- A log does not show exactly if its latest frames agree with the file. -/
theorem overlay_eq_self_iff {frames : List (ℕ × P)} {pages : ℕ → Option P} :
    overlay frames pages = pages ↔ ∀ n p, latest frames n = some p → pages n = some p := by
  constructor
  · intro h n p hp
    rw [← h, overlay_apply, hp]
    rfl
  · intro h
    funext n
    rw [overlay_apply]
    cases hp : latest frames n with
    | none => rfl
    | some p => simp [h n p hp]

end Wal
