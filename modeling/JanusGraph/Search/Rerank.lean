import JanusGraph.Lib.Sorting
import JanusGraph.Search.Embedding
import JanusGraph.Search.Traversal
import Mathlib.Data.Prod.Lex

/-!
# Scores and ranking

`_attach_cosine` and `_mmr_rerank` of `daemon/search_engine.py`, with `_cosine`.

The ranking takes one of three comparisons (`ranksBefore`): pure diversity goes by distance and
then by score, pure relevance by score alone, and anything between by a mixed key. The numbers
are Python's floats, with what is rounded and with `nan`, so that a comparison need not be an
order of the rows; `sorted` is a parameter (`Sorter`), which is only known to rearrange them where
it is none.
-/

namespace JanusGraph

/-- `l[:n]` -/
def pySlice {α : Type} (l : List α) (n : ℤ) : List α :=
  l.take (if 0 ≤ n then n.toNat else l.length - (-n).toNat)

theorem pySlice_of_nonneg {α : Type} (l : List α) {n : ℤ} (h : 0 ≤ n) :
    pySlice l n = l.take n.toNat := by
  rw [pySlice, if_pos h]

/-! ## Scores -/

variable (arith : FloatArith)

/-- The loop of `_cosine` over pairs of entries: `dot`, `na` and `nb` -/
def cosineSums : PyFloat × PyFloat × PyFloat → List (Value × Value) →
    Option (PyFloat × PyFloat × PyFloat)
  | sums, [] => some sums
  | (dot, na, nb), (x, y) :: entries => do
    let dot ← arith.addMul dot x y
    let na ← arith.addMul na x x
    let nb ← arith.addMul nb y y
    cosineSums (dot, na, nb) entries

/-- `_cosine` -/
def cosine (a b : List Value) : Option PyFloat :=
  if a = [] ∨ b = [] ∨ a.length ≠ b.length then some (.ofInt 0)
  else do
    let (dot, na, nb) ← cosineSums arith (.ofInt 0, .ofInt 0, .ofInt 0) (a.zip b)
    if na.isZero || nb.isZero then some (.ofInt 0)
    else do
      let sqrtA ← arith.sqrt na
      let sqrtB ← arith.sqrt nb
      arith.div dot (arith.mul sqrtA sqrtB)

/-- The rows with the similarity of their vectors to that of the query. -/
def scoreRows (queryVec : List Value) : List (FactRow × List Value) → Option (List FactRow)
  | [] => some []
  | (row, vector) :: rows => do
    let score ← cosine arith queryVec vector
    let scored ← scoreRows queryVec rows
    pure ({ row with cosine := some score } :: scored)

/-- The rows that are embedded: `rows` behind the trim to `embed_max_facts`. The other rows
stay in the list, without a score. -/
def trimmed {α : Type} (settings : SearchSettings) (rows : List α) : List α :=
  if settings.embedMaxFacts ≠ 0 ∧ rows.length > settings.embedMaxFacts then
    pySlice rows settings.embedMaxFacts
  else rows

theorem mem_of_mem_trimmed {α : Type} {settings : SearchSettings} {rows : List α} {r : α}
    (h : r ∈ trimmed settings rows) : r ∈ rows := by
  rw [trimmed] at h
  split_ifs at h
  · exact List.mem_of_mem_take h
  · exact h

/-- `query`, or the first fact instead; `none` if it is no text, which the client does not
take. -/
def queryText (rows : List FactRow) (query : Value) : Option String :=
  if query.truthy then
    match query with
    | .str s => some s
    | _ => none
  else some ((rows.head?.map FactRow.fact).getD "")

variable {maxSize : ℤ}

/-- What the embedder makes of the rows: one result for each of the trimmed ones, and one for
the query. -/
def embedRows (settings : SearchSettings) (client : EmbeddingClient maxSize)
    (rows : List FactRow) (query : Value) : Option (List EmbeddingResult) := do
  let query ← queryText rows query
  (client.embed ((trimmed settings rows).map FactRow.fact ++ [query])).1

/-- `_attach_cosine`, given the results of the embedder: the rows afterwards, and how many of
them were embedded. The result of the query is the last one. -/
def attachCosine (settings : SearchSettings) (rows : List FactRow)
    (embeds : List EmbeddingResult) : Option (List FactRow × ℕ) :=
  let scored := trimmed settings rows
  if embeds = [] ∨ embeds.any (·.embedding = none) then some (rows, scored.length)
  else do
    let vectors := embeds.filterMap EmbeddingResult.embedding
    let withScores ← scoreRows arith (vectors.getLast?.getD []) (scored.zip vectors)
    pure (withScores ++ rows.drop scored.length, scored.length)

/-! ## Ranking -/

/-- `float(r.cosine or 0.0)` -/
def FactRow.score (r : FactRow) : PyFloat :=
  match r.cosine with
  | some c => if c.isZero then .ofInt 0 else c
  | none => .ofInt 0

/-- The key of pure diversity, `(r.hop_distance, -float(r.cosine or 0.0))`, compared -/
def nearerThan (a b : FactRow) : Bool :=
  a.hopDistance < b.hopDistance ||
    a.hopDistance = b.hopDistance && a.score.neg.lt b.score.neg

/-- The key of pure relevance, `-float(r.cosine or 0.0)`, compared -/
def moreRelevantThan (a b : FactRow) : Bool := a.score.neg.lt b.score.neg

/-- `0.2` -/
def fifth : PyFloat := .finite 3602879701896397 (-54)

/-- `_key` -/
def mmrKey (lam maxCos : PyFloat) (r : FactRow) : PyFloat :=
  let cosine := r.score
  let gap := arith.add (arith.sub maxCos cosine) fifth
  let diversityPenalty :=
    arith.mul (arith.mul (arith.mul (arith.sub (.ofInt 1) lam) (.ofInt 2))
      (.ofInt r.hopDistance)) gap
  (arith.sub cosine diversityPenalty).neg

/-- `max_cos` -/
def maxCosine : List FactRow → PyFloat
  | [] => .ofInt 0
  | r :: rows => PyFloat.max r.score (rows.map FactRow.score)

/-- The comparison by which the rows are sorted. -/
def ranksBefore (lam : PyFloat) (rows : List FactRow) : FactRow → FactRow → Bool :=
  if lam.le (.ofInt 0) then nearerThan
  else if (PyFloat.ofInt 1).le lam then moreRelevantThan
  else fun a b => (mmrKey arith lam (maxCosine rows) a).lt (mmrKey arith lam (maxCosine rows) b)

/-- `_mmr_rerank`. Only the mixed ranking is cut off at `top_k`; the other two return all
rows. -/
def mmrRerank (sorter : Sorter FactRow) (rows : List FactRow) (lam : PyFloat) (topK : ℤ) :
    List FactRow :=
  if rows = [] then []
  else if lam.le (.ofInt 0) then sorter.sort nearerThan rows
  else if (PyFloat.ofInt 1).le lam then sorter.sort moreRelevantThan rows
  else
    let maxCos := maxCosine rows
    pySlice (sorter.sort (fun a b => (mmrKey arith lam maxCos a).lt (mmrKey arith lam maxCos b))
      rows) topK

theorem sort_nil (sorter : Sorter FactRow) (lt : FactRow → FactRow → Bool) :
    sorter.sort lt [] = [] :=
  List.perm_nil.mp (sorter.perm lt [])

/-- The first `n` of the ranking, whichever way it is made: the cut inside of it makes no
difference to them. -/
theorem pySlice_mmrRerank (sorter : Sorter FactRow) (rows : List FactRow) (lam : PyFloat) {n : ℤ}
    (h : 0 ≤ n) :
    pySlice (mmrRerank arith sorter rows lam n) n =
      (sorter.sort (ranksBefore arith lam rows) rows).take n.toNat := by
  rw [pySlice_of_nonneg _ h, mmrRerank, ranksBefore]
  split_ifs with hrows hfar hnear
  · rw [hrows, sort_nil]
  · rw [hrows, sort_nil]
  · rw [hrows, sort_nil]
  · rfl
  · rfl
  · rw [pySlice_of_nonneg _ h, List.take_take, Nat.min_self]

end JanusGraph
