import JanusGraph.Search.Rerank
import Mathlib.Tactic.Linarith

/-!
# What a ranking puts first

`_mmr_rerank` over exact rational scores. The penalty of a row grows with its distance and with
the gap between its score and the best one, and the gap is never zero, so a row that is no
further than another and no less similar, and not equal on both accounts, has the smaller key.
Hence no row is placed behind a row that it dominates, nor dropped for one. Where float
arithmetic does not round, the ranking of `Rerank` is this one.

* **Keys that follow dominance.** Each of the three comparisons has a key that is smaller for the
  row that dominates: `diversityKey_lt`, `mmrKey_lt`, and the score itself for pure relevance,
  which takes no notice of the distance.
* **Sorting by such a key.** `undominated_take` is about any first part of the rows sorted by it:
  no row of it stands behind one that it dominates, and none was left out for such a row.
* **The constant.** `ranked_of_pos` is stated for any positive number in the place of `0.2`. With
  0 a best row costs nothing at any distance, and could stand behind a row that it dominates.

`ranked_mmrRerank` carries the statement over to the facts, under the assumption that their
numbers are finite and nothing is rounded.
-/

namespace JanusGraph

/-- What the ranking reads off a row. -/
structure RowScores (Row : Type) : Type where
  hopDistance : Row → ℕ
  cosine : Row → Option ℚ

namespace RowScores

variable {Row : Type} (s : RowScores Row)

/-- `float(r.cosine or 0.0)` -/
def score (r : Row) : ℚ := (s.cosine r).getD 0

/-- `max_cos` -/
def maxCosine (rows : List Row) : ℚ := (rows.map s.score).max?.getD 0

/-- `diversity_penalty`, for the number `fifth` that is added to the gap -/
def diversityPenalty (fifth lam maxCos : ℚ) (r : Row) : ℚ :=
  (1 - lam) * 2 * s.hopDistance r * (maxCos - s.score r + fifth)

/-- `_key` -/
def mmrKey (fifth lam maxCos : ℚ) (r : Row) : ℚ :=
  -(s.score r - s.diversityPenalty fifth lam maxCos r)

/-- `_mmr_rerank` -/
def mmrRerank (fifth : ℚ) (rows : List Row) (lam : ℚ) (topK : ℤ) : List Row :=
  if rows.isEmpty then []
  else if lam ≤ 0 then sortedBy (fun r => toLex (s.hopDistance r, -s.score r)) rows
  else if 1 ≤ lam then sortedBy (fun r => -s.score r) rows
  else pySlice (sortedBy (s.mmrKey fifth lam (s.maxCosine rows)) rows) topK

/-- At least as similar and at most as far, and one of the two strictly. -/
structure Dominates (a b : Row) : Prop where
  cosine : s.score b ≤ s.score a
  hopDistance : s.hopDistance a ≤ s.hopDistance b
  strict : s.score b < s.score a ∨ s.hopDistance a < s.hopDistance b

/-- The rows are some of the given ones, each as often as it is given at most, and none is
behind a row that it dominates or is left out for one. -/
def Undominated (rows kept : List Row) : Prop :=
  ∃ dropped, (kept ++ dropped).Perm rows ∧ kept.Pairwise (fun a b => ¬ s.Dominates b a) ∧
    ∀ a ∈ kept, ∀ b ∈ dropped, ¬ s.Dominates b a

/-- The rows in the order of their scores, and where these are equal in their own order. -/
structure ByScore (rows kept : List Row) : Prop where
  perm : kept.Perm rows
  sorted : kept.Pairwise fun a b => s.score b ≤ s.score a
  stable : ∀ c, kept.filter (fun r => s.score r = c) = rows.filter fun r => s.score r = c

/-- What a ranking has to be. -/
structure Ranked (lam : ℚ) (rows kept : List Row) : Prop where
  mixed : 0 ≤ lam → lam < 1 → s.Undominated rows kept
  relevance : 1 ≤ lam → s.ByScore rows kept

variable {s}

/-- The gap to the best score is not negative. -/
theorem score_le_maxCosine {rows : List Row} {r : Row} (hr : r ∈ rows) :
    s.score r ≤ s.maxCosine rows := by
  have hmem : s.score r ∈ rows.map s.score := List.mem_map_of_mem hr
  cases hmax : (rows.map s.score).max? with
  | none =>
    rw [List.max?_eq_none_iff] at hmax
    rw [hmax] at hmem
    cases hmem
  | some c =>
    rw [maxCosine, hmax]
    exact (List.max?_eq_some_iff.mp hmax).2 _ hmem

/-- **The key of pure diversity** is smaller for the row that dominates: distance first, then
the score. -/
theorem diversityKey_lt {a b : Row} (h : s.Dominates a b) :
    toLex (s.hopDistance a, -s.score a) < toLex (s.hopDistance b, -s.score b) := by
  rw [Prod.Lex.toLex_lt_toLex]
  rcases h.hopDistance.lt_or_eq with hlt | heq
  · exact .inl hlt
  · have hscore := h.strict.resolve_right heq.not_lt
    exact .inr ⟨heq, neg_lt_neg hscore⟩

section

variable {fifth lam maxCos : ℚ} {a b : Row} (hfifth : 0 < fifth) (hlam : lam < 1)
  (ha : s.score a ≤ maxCos)

include hfifth hlam ha

/-- A gap that is no smaller costs no less at a distance that is no shorter. -/
theorem diversityPenalty_le (h : s.Dominates a b) :
    s.diversityPenalty fifth lam maxCos a ≤ s.diversityPenalty fifth lam maxCos b := by
  have hscore := h.cosine
  have hhop : (s.hopDistance a : ℚ) ≤ s.hopDistance b := Nat.cast_le.mpr h.hopDistance
  have hscale : 0 ≤ (1 - lam) * 2 := by linarith
  have hgap : 0 ≤ maxCos - s.score a + fifth := by linarith
  unfold diversityPenalty
  gcongr

/-- It costs more at a longer distance, since no gap is zero. -/
theorem diversityPenalty_lt (h : s.Dominates a b) (hhop : s.hopDistance a < s.hopDistance b) :
    s.diversityPenalty fifth lam maxCos a < s.diversityPenalty fifth lam maxCos b := by
  have hscore := h.cosine
  have hcast : (s.hopDistance a : ℚ) < s.hopDistance b := Nat.cast_lt.mpr hhop
  have hscale : 0 < (1 - lam) * 2 := by linarith
  have hgap : 0 < maxCos - s.score a + fifth := by linarith
  unfold diversityPenalty
  calc (1 - lam) * 2 * s.hopDistance a * (maxCos - s.score a + fifth)
      < (1 - lam) * 2 * s.hopDistance b * (maxCos - s.score a + fifth) := by gcongr
    _ ≤ (1 - lam) * 2 * s.hopDistance b * (maxCos - s.score b + fifth) := by gcongr

/-- **The mixed key** is smaller for the row that dominates. At the same distance the score
decides; at a longer one the penalty does, since the gap it is multiplied with is positive.
-/
theorem mmrKey_lt (h : s.Dominates a b) :
    s.mmrKey fifth lam maxCos a < s.mmrKey fifth lam maxCos b := by
  have hscore := h.cosine
  have hle := diversityPenalty_le hfifth hlam ha h
  unfold mmrKey
  rcases h.strict with hlt | hlt
  · linarith
  · have := diversityPenalty_lt hfifth hlam ha h hlt
    linarith

end

/-- **Sorting by a key that follows dominance.** Any first part of the rows sorted by it is
undominated: a row that is dominated has the larger key, and stands behind. -/
theorem undominated_take {β : Type} [LinearOrder β] {key : Row → β} {rows : List Row}
    (hkey : ∀ a ∈ rows, ∀ b ∈ rows, s.Dominates a b → key a < key b) (n : ℕ) :
    s.Undominated rows ((sortedBy key rows).take n) := by
  have hsorted := sortedBy_not_beaten key rows hkey
  rw [← List.take_append_drop n (sortedBy key rows), List.pairwise_append] at hsorted
  refine ⟨(sortedBy key rows).drop n, ?_, hsorted.1, hsorted.2.2⟩
  rw [List.take_append_drop]
  exact sortedBy_perm key rows

/-- **Dominance.** The ranking puts no row behind one that it dominates, and drops none for
such a row; pure relevance goes by the score alone. -/
theorem ranked_of_pos {fifth : ℚ} (hfifth : 0 < fifth) (rows : List Row) (lam : ℚ) (topK : ℤ) :
    s.Ranked lam rows (s.mmrRerank fifth rows lam topK) := by
  unfold mmrRerank
  split_ifs with hrows hfar hnear
  · rw [List.isEmpty_iff.mp hrows]
    exact ⟨fun _ _ => ⟨[], .refl _, .nil, nofun⟩, fun _ => ⟨.refl _, .nil, fun _ => rfl⟩⟩
  · refine ⟨fun _ _ => ?_, fun h => absurd h (by linarith)⟩
    rw [← List.take_length (l := sortedBy _ rows)]
    exact undominated_take (fun a _ b _ => diversityKey_lt) _
  · refine ⟨fun _ h => absurd h hnear.not_gt, fun _ => ⟨sortedBy_perm _ rows, ?_, fun c => ?_⟩⟩
    · exact (pairwise_sortedBy _ rows).imp neg_le_neg_iff.mp
    · simpa only [neg_inj] using filter_sortedBy (fun r => -s.score r) rows (-c)
  · refine ⟨fun _ hlam => ?_, fun h => absurd h hnear⟩
    exact undominated_take (fun a ha b _ => mmrKey_lt hfifth hlam (score_le_maxCosine ha)) _

/-- **The ranking of the code**, which adds a fifth to the gap. For every list of rows, every
`lam` and every `top_k`, whatever order the rows come in. -/
theorem mmrRerank_ranked (rows : List Row) (lam : ℚ) (topK : ℤ) :
    s.Ranked lam rows (s.mmrRerank (1 / 5) rows lam topK) :=
  ranked_of_pos (by norm_num) rows lam topK

end RowScores

/-! ## Floats that do not round -/

/-- The numbers of a fact. -/
def factScores : RowScores FactRow := ⟨FactRow.hopDistance, fun r => r.cosine.bind PyFloat.rat⟩

/-- The number that `0.2` stands for. -/
def fifthRat : ℚ := 3602879701896397 * 2 ^ (-54 : ℤ)

/-- The cosine of the fact is missing or finite. -/
def FactRow.Finite (r : FactRow) : Prop := ∀ c, r.cosine = some c → ∃ a, c.rat = some a

/-- The score of such a fact is a rational number, zero if it is missing. -/
theorem FactRow.Finite.rat_score {r : FactRow} (h : r.Finite) :
    r.score.rat = some (factScores.score r) := by
  have hscore : factScores.score r = (r.cosine.bind PyFloat.rat).getD 0 := rfl
  have hzero : (PyFloat.ofInt 0).rat = some 0 := (PyFloat.rat_ofInt 0).trans (by rw [Int.cast_zero])
  rw [hscore, FactRow.score]
  cases hc : r.cosine with
  | none => exact hzero
  | some c =>
    obtain ⟨a, ha⟩ := h c hc
    rw [Option.bind_some, ha, Option.getD_some]
    by_cases ha0 : a = 0
    · simp only [PyFloat.isZero_of_rat ha, ha0, decide_true, if_true, hzero]
    · simp only [PyFloat.isZero_of_rat ha, ha0, decide_false, Bool.false_eq_true, if_false, ha]

section

variable {arith : FloatArith} {rows : List FactRow}

theorem rat_maxCosine (hfinite : ∀ r ∈ rows, r.Finite) :
    (maxCosine rows).rat = some (factScores.maxCosine rows) := by
  cases rows with
  | nil => exact (PyFloat.rat_ofInt 0).trans (by rw [Int.cast_zero]; rfl)
  | cons r rows =>
    rw [List.forall_mem_cons] at hfinite
    exact PyFloat.rat_max (fun r hr => (hfinite.2 r hr).rat_score) hfinite.1.rat_score

theorem rat_mmrKey (harith : arith.Exact) {lam maxCos : PyFloat} {a m : ℚ} {r : FactRow}
    (hr : r.Finite) (hlam : lam.rat = some a) (hmax : maxCos.rat = some m) :
    (mmrKey arith lam maxCos r).rat = some (factScores.mmrKey fifthRat a m r) := by
  have hfifth : fifth.rat = some fifthRat := by
    rw [fifth, PyFloat.rat, fifthRat, Int.cast_ofNat]
  have hscale := harith.mul (harith.sub (PyFloat.rat_ofInt 1) hlam) (PyFloat.rat_ofInt 2)
  have hhop := harith.mul hscale (PyFloat.rat_ofInt r.hopDistance)
  have hgap := harith.add (harith.sub hmax hr.rat_score) hfifth
  have hkey := PyFloat.rat_neg (harith.sub hr.rat_score (harith.mul hhop hgap))
  rw [Int.cast_one, Int.cast_ofNat, Int.cast_natCast] at hkey
  exact hkey

/-- **Without rounding** the ranking of the facts is the one above. The arithmetic is that of
the floats, done exactly. -/
theorem mmrRerank_eq (harith : arith.Exact) (sorter : Sorter FactRow)
    (hfinite : ∀ r ∈ rows, r.Finite) {lam : PyFloat} {a : ℚ} (hlam : lam.rat = some a)
    (topK : ℤ) :
    mmrRerank arith sorter rows lam topK = factScores.mmrRerank fifthRat rows a topK := by
  have hneg (r : FactRow) (hr : r ∈ rows) : r.score.neg.rat = some (-factScores.score r) :=
    PyFloat.rat_neg (hfinite r hr).rat_score
  have hlow : lam.le (.ofInt 0) = decide (a ≤ 0) := by
    rw [PyFloat.le_of_rat hlam (PyFloat.rat_ofInt 0), Int.cast_zero]
  have hhigh : (PyFloat.ofInt 1).le lam = decide (1 ≤ a) := by
    rw [PyFloat.le_of_rat (PyFloat.rat_ofInt 1) hlam, Int.cast_one]
  have hfar : sorter.sort nearerThan rows =
      sortedBy (fun r => toLex (factScores.hopDistance r, -factScores.score r)) rows := by
    refine sorter.stable (orders_key _ rows fun x hx y hy => ?_)
    rw [nearerThan, PyFloat.lt_of_rat (hneg x hx) (hneg y hy), Bool.eq_iff_iff]
    simp only [Bool.or_eq_true, Bool.and_eq_true, decide_eq_true_eq, Prod.Lex.toLex_lt_toLex]
    rfl
  have hnear : sorter.sort moreRelevantThan rows =
      sortedBy (fun r => -factScores.score r) rows :=
    sorter.stable (orders_key _ rows fun x hx y hy => PyFloat.lt_of_rat (hneg x hx) (hneg y hy))
  have hkey : sorter.sort (fun x y =>
        (mmrKey arith lam (maxCosine rows) x).lt (mmrKey arith lam (maxCosine rows) y)) rows =
      sortedBy (factScores.mmrKey fifthRat a (factScores.maxCosine rows)) rows := by
    have hrat (r : FactRow) (hr : r ∈ rows) :=
      rat_mmrKey harith (hfinite r hr) hlam (rat_maxCosine hfinite)
    exact sorter.stable (orders_key _ rows fun x hx y hy =>
      PyFloat.lt_of_rat (hrat x hx) (hrat y hy))
  simp only [mmrRerank, RowScores.mmrRerank, hlow, hhigh, hfar, hnear, hkey, decide_eq_true_eq,
    List.isEmpty_iff]

/-- So the ranking of the facts follows dominance as long as nothing is rounded. -/
theorem ranked_mmrRerank (harith : arith.Exact) (sorter : Sorter FactRow)
    (hfinite : ∀ r ∈ rows, r.Finite) {lam : PyFloat} {a : ℚ} (hlam : lam.rat = some a)
    (topK : ℤ) : factScores.Ranked a rows (mmrRerank arith sorter rows lam topK) := by
  rw [mmrRerank_eq harith sorter hfinite hlam]
  exact RowScores.ranked_of_pos (by norm_num [fifthRat]) rows a topK

/-- There is such an arithmetic. -/
example (sorter : Sorter FactRow) (hfinite : ∀ r ∈ rows, r.Finite) {lam : PyFloat} {a : ℚ}
    (hlam : lam.rat = some a) (topK : ℤ) :
    factScores.Ranked a rows (mmrRerank .aligned sorter rows lam topK) :=
  ranked_mmrRerank FloatArith.exact_aligned sorter hfinite hlam topK

end

end JanusGraph
