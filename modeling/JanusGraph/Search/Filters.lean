import JanusGraph.Cache.Lru
import JanusGraph.Search.Engine

/-!
# What the filters of a search let through

A request can name edge types, and the traversal is meant to leave out invalidated
relationships. The threshold and the limit are kept; the other two filters do nothing: the types
are read and never used, and the query's own test on `invalid_at` always holds. So what the
server answers can be returned, whatever its type and date, and whether it is depends on the
embedder: there is always one that scores a single row and no other.

* **Kept.** What comes out has passed the threshold and is a first part of the ranking, so that
  both numbers of the request hold of it, whatever the scores are (`sound_respond_iff`).
* **Not kept.** Whether a row was asked for is a property of its relationship
  (`BfsRow.Asked`), and the fact of a row has it if the row has (`asked_of_ofRow`). Nothing on
  the way asks for it.
* **Why there is no excuse.** Scores do not come from the graph. For every fact that is embedded
  there is an endpoint of the embedder that puts this one over the threshold and all others
  below it (`favouring`, `scoredFacts_replying`). With that one a row that was not asked for is
  in the results, unless there is no room for any (`asked_of_sound`).

The rows that are embedded are the first ones with a fact, up to the trim of the settings
(`trimmed_filterMap`). Rows behind the trim have no score, and are never returned.
-/

namespace JanusGraph

open SearchEngine

/-- **What a filter would let through.** The fact is of a type that was asked for, if any
was, and its relationship is valid. The date is read off the relationship itself, since the
fact does not keep it. -/
def FactRow.Asked (req : SearchRequest) (r : FactRow) : Prop :=
  (req.edgeTypes ≠ [] → r.edgeType ∈ req.edgeTypes) ∧ r.origin.invalidAt = .null

/-- The relationship of the row is of a type that was asked for, if any was, and valid. -/
def BfsRow.Asked (req : SearchRequest) (row : BfsRow) : Prop :=
  (req.edgeTypes ≠ [] →
      (if row.edgeType ≠ "" then row.edgeType else "RELATES_TO") ∈ req.edgeTypes) ∧
    row.origin.invalidAt = .null

/-- The row has a text that is not blank. -/
def BfsRow.hasFact (row : BfsRow) : Bool :=
  match row.edgeFact with
  | .str edgeFact => strip edgeFact ≠ "" && firstLine edgeFact ≠ ""
  | _ => false

/-- **Every filter of the request is kept**: types, dates, threshold and limit. -/
structure SearchResponse.Sound (req : SearchRequest) (response : SearchResponse) : Prop where
  asked : ∀ r ∈ response.results, r.Asked req
  minCosine : ∀ r ∈ response.results, ∃ c, r.cosine = some c ∧ req.minCosine.le c = true
  limit : (response.results.length : ℤ) ≤ req.limit

/-- The engine with another client of the embedder. -/
def SearchEngine.withClient {maxSize : ℤ} (engine : SearchEngine maxSize)
    (client : EmbeddingClient maxSize) : SearchEngine maxSize := { engine with client }

/-- The request has a query that is no text, which the client of the embedder does not take. -/
def NoText (query : Value) : Prop := query.truthy = true ∧ query.isStr = false

variable {maxSize : ℤ} {engine : SearchEngine maxSize} {payload : Value} {req : SearchRequest}
  {rows factRows : List FactRow} {n : ℕ}

/-! ## What is returned -/

theorem results_respond (engine : SearchEngine maxSize) (factRows : List FactRow) (n : ℕ)
    (h : 0 ≤ req.limit) (sorter : Sorter FactRow) :
    (engine.respond sorter req factRows n).results =
      (sorter.sort (ranksBefore engine.arith req.mmrLambda (factRows.filter (passes req)))
        (factRows.filter (passes req))).take req.limit.toNat :=
  pySlice_mmrRerank engine.arith sorter _ req.mmrLambda h

/-- **The two filters that work.** The threshold is kept by the filter, and the limit by the
slice, so that a response is sound exactly if its facts were asked for. -/
theorem sound_respond_iff (h : 0 ≤ req.limit) (sorter : Sorter FactRow) :
    (engine.respond sorter req factRows n).Sound req ↔
      ∀ r ∈ (engine.respond sorter req factRows n).results, r.Asked req := by
  refine ⟨fun hsound => hsound.asked, fun hasked => ⟨hasked, fun r hr => ?_, ?_⟩⟩
  · rw [results_respond engine factRows n h] at hr
    have hpasses := (List.mem_filter.mp (sorter.mem_sort.mp (List.mem_of_mem_take hr))).2
    cases hc : r.cosine with
    | none => simp [passes, hc] at hpasses
    | some c =>
      simp only [passes, hc, Option.any_some, Bool.and_eq_true] at hpasses
      exact ⟨c, rfl, hpasses.2⟩
  · rw [results_respond engine factRows n h]
    have := List.length_take_le req.limit.toNat (sorter.sort (ranksBefore engine.arith
      req.mmrLambda (factRows.filter (passes req))) (factRows.filter (passes req)))
    omega

/-- For one outcome of the embedder. The response is sound, whatever `sorted` does with keys that
do not order the facts, exactly when the ceiling of the limit is not negative and each fact over
the threshold that was not asked for has as many as the limit allows ahead of it. -/
theorem sound_iff_outranked (hreq : validateRequest engine.settings payload = .ok req)
    (hrows : engine.bfsFacts req = .ok rows)
    (hscored : engine.scoredFacts rows (queryOf payload) = .ok (factRows, n)) :
    (∀ sorter response, engine.search sorter payload = .ok response → response.Sound req) ↔
      0 ≤ engine.settings.maxLimit ∧
        ∀ before r after, factRows.filter (passes req) = before ++ r :: after →
          ¬ r.Asked req → req.limit = 0 ∨
            (∃ le, Orders le (ranksBefore engine.arith req.mmrLambda (before ++ r :: after))
              (before ++ r :: after)) ∧
            req.limit ≤ ahead (ranksBefore engine.arith req.mmrLambda (before ++ r :: after))
              before r after := by
  obtain ⟨-, -, -, m, hm, hlimit⟩ := validateRequest_ok hreq
  have hsearch : (∀ sorter response, engine.search sorter payload = .ok response →
      response.Sound req) ↔
      ∀ sorter, (engine.respond sorter req factRows n).Sound req := by
    simp only [search_eq hreq hrows hscored, Except.ok.injEq, forall_eq']
  rw [hsearch]
  by_cases hceiling : 0 ≤ engine.settings.maxLimit
  · have h : 0 ≤ req.limit := by omega
    simp only [sound_respond_iff h, results_respond engine factRows n h, Sorter.forall_take_iff,
      hceiling, true_and]
    refine forall₃_congr fun before r after => forall₂_congr fun hsplit _ => ?_
    rw [hsplit]
    exact or_congr (by omega) (and_congr_right fun _ => by omega)
  · refine iff_of_false (fun hall => ?_) fun hcond => hceiling hcond.1
    have := (hall default).limit
    omega

/-! ## The rows of an answer -/

variable {answered : List BfsRow} {py : Builtins}

/-- The fact of a row was asked for if the row was. -/
theorem asked_of_ofRow {row : BfsRow} {r : FactRow} (h : FactRow.ofRow py row = some r) :
    r.Asked req ↔ row.Asked req := by
  obtain ⟨-, -, horigin, htype⟩ := FactRow.ofRow_eq_some py h
  rw [FactRow.Asked, BfsRow.Asked, horigin, htype]

/-- A row that has a fact gives it. -/
theorem exists_ofRow {row : BfsRow} (h : row.hasFact = true) :
    ∃ r, FactRow.ofRow py row = some r := by
  unfold BfsRow.hasFact at h
  split at h
  · next edgeFact hfact =>
    simp only [Bool.and_eq_true, decide_eq_true_eq] at h
    rw [FactRow.ofRow, hfact]
    dsimp only
    rw [if_neg h.1, if_neg h.2]
    exact ⟨_, rfl⟩
  · cases h

theorem ofRow_eq_none {row : BfsRow} (h : row.hasFact = false) : FactRow.ofRow py row = none := by
  unfold BfsRow.hasFact at h
  unfold FactRow.ofRow
  split
  · next edgeFact hfact =>
    rw [hfact] at h
    dsimp only at h
    split_ifs with hblank hline
    · rfl
    · rfl
    · simp [hblank, hline] at h
  · rfl

theorem filterMap_ofRow (answered : List BfsRow) :
    answered.filterMap (FactRow.ofRow py) =
      (answered.filter BfsRow.hasFact).filterMap (FactRow.ofRow py) := by
  rw [List.filterMap_filter]
  refine List.filterMap_congr fun row _ => ?_
  cases hfact : row.hasFact with
  | true => rw [if_pos rfl]
  | false => rw [if_neg Bool.false_ne_true, ofRow_eq_none hfact]

/-- Where every row has a fact, the facts of a first part are the first facts. -/
theorem filterMap_take {l : List BfsRow} (h : ∀ row ∈ l, row.hasFact = true) (k : ℕ) :
    (l.take k).filterMap (FactRow.ofRow py) = (l.filterMap (FactRow.ofRow py)).take k := by
  induction l generalizing k with
  | nil => simp
  | cons row l ih =>
    rw [List.forall_mem_cons] at h
    obtain ⟨r, hr⟩ : ∃ r, FactRow.ofRow py row = some r := exists_ofRow h.1
    cases k with
    | zero => rfl
    | succ k =>
      rw [List.take_succ_cons, List.filterMap_cons_some hr, List.filterMap_cons_some hr,
        List.take_succ_cons, ih h.2]

theorem length_filterMap {l : List BfsRow} (h : ∀ row ∈ l, row.hasFact = true) :
    (l.filterMap (FactRow.ofRow py)).length = l.length := by
  induction l with
  | nil => rfl
  | cons row l ih =>
    rw [List.forall_mem_cons] at h
    obtain ⟨r, hr⟩ : ∃ r, FactRow.ofRow py row = some r := exists_ofRow h.1
    rw [List.filterMap_cons_some hr, List.length_cons, List.length_cons, ih h.2]

/-- **What is embedded.** The facts that are embedded are those of the rows that have one, up
to the trim. -/
theorem trimmed_filterMap (settings : SearchSettings) (answered : List BfsRow) :
    trimmed settings (answered.filterMap (FactRow.ofRow py)) =
      (trimmed settings (answered.filter BfsRow.hasFact)).filterMap (FactRow.ofRow py) := by
  have hfacts : ∀ row ∈ answered.filter BfsRow.hasFact, row.hasFact = true := fun row hrow =>
    List.of_mem_filter hrow
  rw [filterMap_ofRow, trimmed, trimmed, length_filterMap hfacts]
  split
  · rw [pySlice, pySlice, length_filterMap hfacts, filterMap_take hfacts]
  · rfl

/-! ## An embedder that scores one row -/

/-- A vector with one entry. -/
def unitVector (x : ℤ) : List Value := [.float (.ofInt x)]

/-- The cosine of two such vectors. -/
theorem cosine_unitVector {arith : FloatArith} (h : arith.Unital) {x : ℤ} (hx : x.natAbs = 1) :
    cosine arith (unitVector 1) (unitVector x) = some (.ofInt x) := by
  have hdot := h.addMul 1 x rfl hx
  have hsquare := h.addMul x x hx hx
  have hone := h.addMul 1 1 rfl rfl
  have hxx : x * x = 1 := by rcases Int.natAbs_eq_iff.mp hx with rfl | rfl <;> rfl
  rw [one_mul] at hdot hone
  rw [hxx] at hsquare
  have hzero : (PyFloat.ofInt 1).isZero = false := by decide +kernel
  simp only [cosine, unitVector, List.cons_ne_nil, List.length_singleton, ne_eq,
    not_true_eq_false, or_self, if_false, List.zip_cons_cons, List.zip_nil_left, cosineSums, hdot,
    hone, hsquare, Option.bind_eq_bind, Option.bind_some, hzero, Bool.or_self, Bool.false_eq_true,
    h.sqrt, h.mul, h.div x hx]

/-- A client with an empty cache, whose endpoint answers any batch with these vectors. -/
def EmbeddingClient.replying (maxSize : ℤ) (vectors : List (List Value)) :
    EmbeddingClient maxSize where
  cache := .empty maxSize
  cacheKey := some
  post _ := .json (.dict [("data", .list (vectors.map fun v => .dict [("embedding", .list v)]))])

/-- The loop over the misses takes the vectors in their order. -/
theorem fill_vectors {vectors : List (List Value)} {texts : List String}
    (hlength : vectors.length = texts.length) (before : List Value) (cache : LruCache maxSize) :
    (fill some (.list (before ++ vectors.map fun v => .dict [("embedding", .list v)]))
        before.length (texts.map fun text => (text, none)) cache).1.map
          (List.map EmbeddingResult.embedding) = some (vectors.map some) := by
  induction texts generalizing vectors before cache with
  | nil =>
    rw [List.length_eq_zero_iff.mp hlength]
    rfl
  | cons text texts ih =>
    cases vectors with
    | nil => cases hlength
    | cons v vectors =>
      have hat : vectorAt (.list (before ++ (v :: vectors).map fun v =>
          .dict [("embedding", .list v)])) before.length = some (some v) := by
        simp [vectorAt]
      have hrest := ih (Nat.succ.inj hlength) (before ++ [.dict [("embedding", .list v)]])
        (cache.set text v)
      rw [List.length_append, List.length_singleton, List.append_assoc] at hrest
      simp only [List.map_cons] at hat hrest ⊢
      rw [fill.eq_def]
      simp only [hat]
      obtain ⟨embeds, hembeds, hvectors⟩ := Option.map_eq_some_iff.mp hrest
      rw [List.singleton_append] at hembeds
      rw [hembeds, ← hvectors]
      rfl

/-- An empty cache misses every text. -/
theorem lookups_empty (texts : List String) :
    lookups some texts (.empty maxSize) =
      (some (texts.map fun text => (text, none)), .empty maxSize) := by
  induction texts with
  | nil => rfl
  | cons text texts ih =>
    have hget : (LruCache.empty maxSize).get text = (none, .empty maxSize) := rfl
    simp only [lookups, hget, ih, Option.map_some, List.map_cons]

/-- The client gives each text its vector. -/
theorem embed_replying {vectors : List (List Value)} {texts : List String}
    (hlength : vectors.length = texts.length) (hne : texts ≠ []) :
    ∃ embeds, ((EmbeddingClient.replying maxSize vectors).embed texts).1 = some embeds ∧
      embeds.map EmbeddingResult.embedding = vectors.map some := by
  have hmisses :
      missTexts (texts.map fun text => (text, (none : Option (List Value)))) = texts := by
    rw [missTexts, List.filter_eq_self.mpr, List.map_map]
    · exact List.map_id _
    · simp
  have hraw : (Value.list (vectors.map fun v => .dict [("embedding", .list v)])).truthy = true := by
    cases vectors with
    | nil => exact absurd (List.length_eq_zero_iff.mp hlength.symm) hne
    | cons v vectors => rfl
  rw [EmbeddingClient.embed, EmbeddingClient.replying]
  dsimp only
  rw [lookups_empty]
  dsimp only
  rw [hmisses, if_neg hne]
  simp only [List.lookup_cons_self, Option.getD_some, hraw, if_true]
  exact Option.map_eq_some_iff.mp (fill_vectors hlength [] (.empty maxSize))

/-- With a vector for every text, the rows are scored by them. -/
theorem attachCosine_of_vectors {arith : FloatArith} {settings : SearchSettings}
    {embeds : List EmbeddingResult} {vectors : List (List Value)}
    (h : embeds.map EmbeddingResult.embedding = vectors.map some) (hne : vectors ≠ []) :
    attachCosine arith settings rows embeds =
      (scoreRows arith (vectors.getLast?.getD []) ((trimmed settings rows).zip vectors)).map
        fun scored => (scored ++ rows.drop (trimmed settings rows).length,
          (trimmed settings rows).length) := by
  have hvectors : embeds.filterMap EmbeddingResult.embedding = vectors := calc
    embeds.filterMap EmbeddingResult.embedding
      = (embeds.map EmbeddingResult.embedding).filterMap id := by
        rw [List.filterMap_map, Function.id_comp]
    _ = (vectors.map some).filterMap id := by rw [h]
    _ = vectors.filterMap some := List.filterMap_map
    _ = vectors := List.filterMap_some
  have hembeds : embeds ≠ [] := by
    rintro rfl
    exact hne (List.map_eq_nil_iff.mp h.symm)
  have hgiven : embeds.any (·.embedding = none) = false := by
    refine List.any_eq_false.mpr fun e he => ?_
    have hmem : e.embedding ∈ vectors.map some := h ▸ List.mem_map_of_mem he
    obtain ⟨v, -, hv⟩ := List.mem_map.mp hmem
    simp [← hv]
  simp only [attachCosine, hembeds, hgiven, Bool.false_eq_true, or_self, if_false, hvectors]
  cases scoreRows arith (vectors.getLast?.getD []) ((trimmed settings rows).zip vectors) <;> rfl

/-- The row with the score. -/
def FactRow.scoredAs (r : FactRow) (x : ℤ) : FactRow := { r with cosine := some (.ofInt x) }

/-- Against the vector of the query, the rows get the entries of their vectors. -/
theorem scoreRows_units {arith : FloatArith} (h : arith.Unital) (rows : List FactRow)
    {signs : List ℤ} (hsigns : ∀ x ∈ signs, x.natAbs = 1) :
    scoreRows arith (unitVector 1) (rows.zip (signs.map unitVector)) =
      some (rows.zipWith FactRow.scoredAs signs) := by
  induction rows generalizing signs with
  | nil => rfl
  | cons r rows ih =>
    cases signs with
    | nil => rfl
    | cons x signs =>
      rw [List.forall_mem_cons] at hsigns
      rw [List.map_cons, List.zip_cons_cons, scoreRows, cosine_unitVector h hsigns.1,
        ih hsigns.2]
      rfl

/-- A query that is a text, or none, can be embedded. -/
theorem exists_queryText {query : Value} (h : ¬ NoText query) :
    ∃ q, queryText rows query = some q := by
  unfold queryText
  split_ifs with htruthy
  · cases query with
    | str q => exact ⟨q, rfl⟩
    | _ => exact absurd ⟨htruthy, rfl⟩ h
  · exact ⟨_, rfl⟩

/-- **Any scores can come.** For every list of scores from `1` and `-1` there is an endpoint
of the embedder that makes the search come to these: it answers the texts and the query with
vectors of one entry. -/
theorem scoredFacts_replying (harith : engine.arith.Unital) {query : Value}
    (hquery : ¬ NoText query) (hne : rows ≠ []) (signs : List ℤ)
    (hsigns : ∀ x ∈ signs, x.natAbs = 1)
    (hlength : signs.length = (trimmed engine.settings rows).length) :
    (engine.withClient (.replying maxSize (signs.map unitVector ++ [unitVector 1]))).scoredFacts
        rows query =
      .ok ((trimmed engine.settings rows).zipWith FactRow.scoredAs signs ++
        rows.drop (trimmed engine.settings rows).length,
        (trimmed engine.settings rows).length) := by
  obtain ⟨q, hq⟩ : ∃ q, queryText rows query = some q := exists_queryText hquery
  obtain ⟨embeds, hembed, hvectors⟩ : ∃ embeds,
      embedRows engine.settings (.replying maxSize (signs.map unitVector ++ [unitVector 1])) rows
        query = some embeds ∧
      embeds.map EmbeddingResult.embedding =
        (signs.map unitVector ++ [unitVector 1]).map some := by
    rw [embedRows, hq]
    exact embed_replying (by simp [hlength]) (by simp)
  have hzip : (trimmed engine.settings rows).zip (signs.map unitVector ++ [unitVector 1]) =
      (trimmed engine.settings rows).zip (signs.map unitVector) := by
    rw [← List.append_nil (trimmed engine.settings rows), List.zip_append (by simp [hlength]),
      List.zip_nil_left, List.append_nil, List.append_nil]
  rw [SearchEngine.withClient, SearchEngine.scoredFacts, if_neg hne]
  dsimp only
  rw [hembed]
  dsimp only
  rw [attachCosine_of_vectors hvectors (by simp), List.getLast?_concat, Option.getD_some, hzip,
    scoreRows_units harith _ hsigns]
  rfl

/-- **The embedder that is feared.** The facts around one of the rows get the worst score,
and that one the best. -/
def favouring (before after : List FactRow) : List ℤ :=
  before.map (fun _ => -1) ++ 1 :: after.map fun _ => -1

theorem natAbs_of_mem_favouring {before after : List FactRow} :
    ∀ x ∈ favouring before after, x.natAbs = 1 := by
  intro x hx
  simp only [favouring, List.mem_append, List.mem_cons, List.mem_map] at hx
  rcases hx with ⟨-, -, rfl⟩ | rfl | ⟨-, -, rfl⟩ <;> rfl

theorem zipWith_favouring (before : List FactRow) (r : FactRow) (after : List FactRow) :
    (before ++ r :: after).zipWith FactRow.scoredAs (favouring before after) =
      before.map (·.scoredAs (-1)) ++ r.scoredAs 1 :: after.map (·.scoredAs (-1)) := by
  have hsame : ∀ l : List FactRow, l.zipWith FactRow.scoredAs (l.map fun _ => -1) =
      l.map (·.scoredAs (-1)) := fun l => by
    rw [List.zipWith_map_right, List.zipWith_self]
  rw [favouring, List.zipWith_append (List.length_map _).symm, List.zipWith_cons_cons, hsame,
    hsame]

/-- A threshold from zero to one lets the best score through, and not the worst. -/
theorem passes_scoredAs_one (hunit : req.minCosine.inUnit = true) {r : FactRow}
    (h : r.invalidAt = none) : passes req (r.scoredAs 1) = true := by
  rw [PyFloat.inUnit, Bool.and_eq_true] at hunit
  simp [passes, FactRow.scoredAs, h, hunit.2]

theorem not_passes_scoredAs (hunit : req.minCosine.inUnit = true) (r : FactRow) :
    passes req (r.scoredAs (-1)) = false := by
  rw [PyFloat.inUnit, Bool.and_eq_true] at hunit
  have hle : req.minCosine.le (.ofInt (-1)) = false :=
    PyFloat.le_eq_false_of_le hunit.1 (by decide +kernel)
  simp [passes, FactRow.scoredAs, hle]

/-- Only the favoured row is over the threshold. -/
theorem filter_favouring (hunit : req.minCosine.inUnit = true)
    (hfresh : ∀ r ∈ rows, r.cosine = none ∧ r.invalidAt = none)
    (before : List FactRow) {r : FactRow} (hr : r ∈ rows) (after : List FactRow) (k : ℕ) :
    ((before ++ r :: after).zipWith FactRow.scoredAs (favouring before after) ++
      rows.drop k).filter (passes req) = [r.scoredAs 1] := by
  have hworst : ∀ l : List FactRow, (l.map (·.scoredAs (-1))).filter (passes req) = [] := by
    intro l
    refine List.filter_eq_nil_iff.mpr fun x hx => ?_
    obtain ⟨r, -, rfl⟩ := List.mem_map.mp hx
    simp [not_passes_scoredAs hunit]
  have hrest : (rows.drop k).filter (passes req) = [] := by
    refine List.filter_eq_nil_iff.mpr fun x hx => ?_
    simp [passes, (hfresh x (List.mem_of_mem_drop hx)).1]
  rw [zipWith_favouring, List.filter_append, List.filter_append, List.filter_cons,
    if_pos (passes_scoredAs_one hunit (hfresh r hr).2), hworst, hworst, hrest]
  rfl

/-! ## Whatever the embedder does -/

theorem of_mem_scoreRows {arith : FloatArith} {queryVec : List Value}
    {pairs : List (FactRow × List Value)} {scored : List FactRow}
    (h : scoreRows arith queryVec pairs = some scored) {r : FactRow} (hr : r ∈ scored) :
    ∃ p ∈ pairs, ∃ c, r = { p.1 with cosine := c } := by
  induction pairs generalizing scored with
  | nil =>
    cases h
    cases hr
  | cons p pairs ih =>
    obtain ⟨score, -, h⟩ := Option.bind_eq_some_iff.mp h
    obtain ⟨rest, hrest, h⟩ := Option.bind_eq_some_iff.mp h
    cases h
    rcases List.mem_cons.mp hr with rfl | hr
    · exact ⟨p, List.mem_cons_self, _, rfl⟩
    · obtain ⟨p', hp', hr⟩ := ih hrest hr
      exact ⟨p', List.mem_cons_of_mem p hp', hr⟩

/-- What is over the threshold was embedded. -/
theorem of_passes (hfresh : ∀ r ∈ rows, r.cosine = none) {query : Value}
    (hscored : engine.scoredFacts rows query = .ok (factRows, n)) {r : FactRow}
    (hr : r ∈ factRows) (hpasses : passes req r = true) :
    ∃ r' ∈ trimmed engine.settings rows, r.Asked req ↔ r'.Asked req := by
  have hraw : r ∉ rows := fun hmem => by simp [passes, hfresh r hmem] at hpasses
  unfold SearchEngine.scoredFacts at hscored
  split_ifs at hscored with hnil
  · cases hscored
    cases hr
  · split at hscored
    · cases hscored
    · next embeds _ =>
      split at hscored
      · cases hscored
      · next scored hattach =>
        cases hscored
        unfold attachCosine at hattach
        dsimp only at hattach
        split_ifs at hattach with hmissing
        · cases hattach
          exact absurd hr hraw
        · obtain ⟨withScores, hwith, h⟩ := Option.bind_eq_some_iff.mp hattach
          cases h
          rcases List.mem_append.mp hr with hr | hr
          · obtain ⟨⟨r', v⟩, hp, c, rfl⟩ := of_mem_scoreRows hwith hr
            exact ⟨r', (List.of_mem_zip hp).1, Iff.rfl⟩
          · exact absurd (List.mem_of_mem_drop hr) hraw

/-- A query that is no text ends the search, when there is a fact: the client of the embedder
encodes its texts. -/
theorem scoredFacts_of_noText {query : Value} (h : NoText query) (hne : rows ≠ []) :
    engine.scoredFacts rows query = .error .raised := by
  have hquery : queryText rows query = none := by
    unfold queryText
    rw [if_pos h.1]
    cases query with
    | str q => cases h.2
    | _ => rfl
  rw [SearchEngine.scoredFacts, if_neg hne, embedRows, hquery]
  rfl

/-! ## All embedders -/

/-- There are facts exactly if a row has one. -/
theorem filterMap_ofRow_ne_nil :
    answered.filterMap (FactRow.ofRow py) ≠ [] ↔ ∃ row ∈ answered, row.hasFact = true := by
  rw [filterMap_ofRow, ← List.length_pos_iff, length_filterMap fun _ h => List.of_mem_filter h,
    List.length_pos_iff_exists_mem]
  simp only [List.mem_filter]

/-- Unless the query ends the search, there is an embedder with which it returns. -/
theorem exists_scoredFacts (harith : engine.arith.Unital) {query : Value}
    (h : ¬ (rows ≠ [] ∧ NoText query)) :
    ∃ (client : EmbeddingClient maxSize) (factRows : List FactRow) (n : ℕ),
      (engine.withClient client).scoredFacts rows query = .ok (factRows, n) := by
  by_cases hne : rows = []
  · exact ⟨engine.client, [], 0, if_pos hne⟩
  · refine ⟨_, _, _, scoredFacts_replying harith (fun hquery => h ⟨hne, hquery⟩) hne
      ((trimmed engine.settings rows).map fun _ => 1) ?_ (List.length_map _)⟩
    intro x hx
    obtain ⟨-, -, rfl⟩ := List.mem_map.mp hx
    rfl

/-- **One fact at a time.** If every embedder leaves the response sound, so does the one that
favours a given fact, and that one was asked for or there is no room for it. -/
theorem asked_of_sound (harith : engine.arith.Unital)
    (hreq : validateRequest engine.settings payload = .ok req)
    (hrows : engine.bfsFacts req = .ok rows) (hquery : ¬ NoText (queryOf payload))
    (hall : ∀ client sorter response,
      (engine.withClient client).search sorter payload = .ok response → response.Sound req)
    {r : FactRow} (hr : r ∈ trimmed engine.settings rows) : req.limit ≤ 0 ∨ r.Asked req := by
  obtain ⟨before, after, hsplit⟩ := List.append_of_mem hr
  have hfresh : ∀ r ∈ rows, r.cosine = none ∧ r.invalidAt = none := fun r hr =>
    of_mem_bfsFacts hrows hr
  have hmem : r ∈ rows := mem_of_mem_trimmed hr
  have hscored := scoredFacts_replying harith hquery (List.ne_nil_of_mem hmem)
    (favouring before after) natAbs_of_mem_favouring (by simp [hsplit, favouring])
  have hunit : req.minCosine.inUnit = true := (validateRequest_ok hreq).2.2.1
  have hfilter := filter_favouring hunit hfresh before hmem after
    (trimmed engine.settings rows).length
  rw [hsplit] at hscored hfilter
  have hvalid : ∀ client, validateRequest (engine.withClient client).settings payload = .ok req :=
    fun _ => hreq
  have hrows' : ∀ client, (engine.withClient client).bfsFacts req = .ok rows := fun _ => hrows
  have houtranked :=
    ((sound_iff_outranked (hvalid _) (hrows' _) hscored).mp (hall _)).2 [] _ [] hfilter
  by_contra hneither
  obtain ⟨hroom, hasked⟩ := not_or.mp hneither
  rcases houtranked hasked with hlimit | ⟨-, hlimit⟩
  · exact hroom hlimit.le
  · exact hroom (hlimit.trans (by simp [ahead]))

/-- With the rows of the server's answer, in three cases: there is a fact, but the query is no
text and ends the search; the ceiling of the limit is zero; or it is positive and every
relationship that is embedded was asked for. -/
theorem sound_iff_of_answered (harith : engine.arith.Unital)
    (hreq : validateRequest engine.settings payload = .ok req)
    (hanswer : engine.Answered req answered) :
    (∀ client sorter response, (engine.withClient client).search sorter payload = .ok response →
        response.Sound req) ↔
      ((∃ row ∈ answered, row.hasFact = true) ∧ NoText (queryOf payload)) ∨
        0 ≤ engine.settings.maxLimit ∧ (engine.settings.maxLimit = 0 ∨
          ∀ row ∈ trimmed engine.settings (answered.filter BfsRow.hasFact), row.Asked req) := by
  obtain ⟨-, -, -, m, hm, hlimit⟩ := validateRequest_ok hreq
  have hvalid : ∀ client, validateRequest (engine.withClient client).settings payload = .ok req :=
    fun _ => hreq
  have hrows : ∀ client, (engine.withClient client).bfsFacts req =
      .ok (answered.filterMap (FactRow.ofRow engine.py)) := fun _ => hanswer.bfsFacts
  have hfresh : ∀ r ∈ answered.filterMap (FactRow.ofRow engine.py), r.cosine = none := fun r hr =>
    (of_mem_bfsFacts (hrows engine.client) hr).1
  have htrimmed : trimmed engine.settings (answered.filterMap (FactRow.ofRow engine.py)) =
    (trimmed engine.settings (answered.filter BfsRow.hasFact)).filterMap _ :=
      trimmed_filterMap engine.settings answered
  rw [← filterMap_ofRow_ne_nil]
  constructor
  · intro hall
    by_cases hends : answered.filterMap (FactRow.ofRow engine.py) ≠ [] ∧ NoText (queryOf payload)
    · exact .inl hends
    · obtain ⟨client, factRows, n, hscored⟩ := exists_scoredFacts harith hends
      have hceiling : 0 ≤ engine.settings.maxLimit :=
        ((sound_iff_outranked (hvalid client) (hrows client) hscored).mp (hall client)).1
      refine .inr ⟨hceiling, or_iff_not_imp_left.mpr fun hzero row hrow => ?_⟩
      obtain ⟨r, hr⟩ : ∃ r, FactRow.ofRow engine.py row = some r :=
        exists_ofRow (List.of_mem_filter (mem_of_mem_trimmed hrow))
      have hmem : r ∈ trimmed engine.settings (answered.filterMap (FactRow.ofRow engine.py)) :=
        htrimmed ▸ List.mem_filterMap.mpr ⟨row, hrow, hr⟩
      have hquery : ¬ NoText (queryOf payload) := fun h =>
        hends ⟨List.ne_nil_of_mem (mem_of_mem_trimmed hmem), h⟩
      rcases asked_of_sound harith hreq hanswer.bfsFacts hquery hall hmem with hroom | hasked
      · omega
      · exact (asked_of_ofRow hr).mp hasked
  · rintro (⟨hne, hquery⟩ | ⟨hceiling, hasked⟩) client
    · intro sorter response hresponse
      simp only [SearchEngine.search, hvalid client, hrows client,
        scoredFacts_of_noText hquery hne, bind, Except.bind, reduceCtorEq] at hresponse
    · cases hscored : (engine.withClient client).scoredFacts
        (answered.filterMap (FactRow.ofRow engine.py)) (queryOf payload) with
      | error e =>
        intro sorter response hresponse
        simp only [SearchEngine.search, hvalid client, hrows client, hscored, bind, Except.bind,
          reduceCtorEq] at hresponse
      | ok scored =>
        refine (sound_iff_outranked (hvalid client) (hrows client) hscored).mpr
          ⟨hceiling, fun before r after hsplit hnot => ?_⟩
        have hr : r ∈ scored.1.filter (passes req) := hsplit ▸ by simp
        obtain ⟨hmem, hpasses⟩ := List.mem_filter.mp hr
        obtain ⟨r', hr', hiff⟩ := of_passes hfresh hscored hmem hpasses
        obtain ⟨row, hrow, hrow'⟩ := List.mem_filterMap.mp (htrimmed ▸ hr')
        rcases hasked with hzero | hall
        · exact .inl (by omega)
        · exact absurd (hiff.mpr ((asked_of_ofRow hrow').mpr (hall row hrow))) hnot

/-- **What a search lets through.** Its responses are sound, whatever the embedder answers,
exactly if every relationship that is embedded was asked for, apart from searches that cannot
return a fact. For nothing after the validation reads the types, and no test sees the date: a
row that was not asked for only takes an embedder that likes it best. -/
theorem search_sound_iff (harith : engine.arith.Unital)
    (hreq : validateRequest engine.settings payload = .ok req) :
    (∀ client sorter response, (engine.withClient client).search sorter payload = .ok response →
        response.Sound req) ↔
      ∀ answered, engine.Answered req answered →
        ((∃ row ∈ answered, row.hasFact = true) ∧ NoText (queryOf payload)) ∨
          0 ≤ engine.settings.maxLimit ∧ (engine.settings.maxLimit = 0 ∨
            ∀ row ∈ trimmed engine.settings (answered.filter BfsRow.hasFact), row.Asked req) := by
  constructor
  · exact fun hall answered hanswer => (sound_iff_of_answered harith hreq hanswer).mp hall
  · intro hall client sorter response hresponse
    have hsearch := hresponse
    obtain ⟨req', hreq', hresponse⟩ := Except.of_bind_eq_ok hresponse
    obtain rfl := Except.ok.inj (hreq.symm.trans hreq')
    obtain ⟨rows, hrows, -⟩ := Except.of_bind_eq_ok hresponse
    obtain ⟨answered, hanswer⟩ : ∃ answered, engine.Answered req answered := of_bfsFacts hrows
    exact (sound_iff_of_answered harith hreq hanswer).mpr (hall answered hanswer) client sorter
      response hsearch

/-- An endpoint that sends the same vector for every text. -/
def sameVector (texts : List String) : HttpReply :=
  .json (.dict [("data", .list (texts.map fun _ =>
    .dict [("embedding", .list (unitVector 1))]))])

/-- The only row of the sample is invalidated and of another type than the one asked for, so
there is an embedder that brings it into the results. -/
theorem search_sound_iff_sample :
    ¬ ∀ client sorter response, ((sampleEngine sameVector).withClient client).search sorter
      samplePayload = .ok response → response.Sound sampleRequest := by
  rw [search_sound_iff FloatArith.unital_whole validateRequest_sample]
  intro hall
  obtain ⟨-, hquery⟩ | ⟨-, hceiling | hasked⟩ := hall [sampleRow] (answered_sample sameVector)
  · cases hquery.1
  · cases hceiling
  · have hvalid := (hasked sampleRow (by decide +kernel)).2
    cases hvalid

/-- The fact of the sample, with the similarity of equal vectors. -/
def scoredSample : FactRow := sampleFact.scoredAs 1

theorem scoredFacts_sample : (sampleEngine sameVector).scoredFacts [sampleFact]
    (queryOf samplePayload) = .ok ([scoredSample], 1) := by
  decide +kernel

theorem filter_sample : [scoredSample].filter (passes sampleRequest) = [scoredSample] := by
  decide +kernel

/-- The only relationship of a graph is invalidated and of another type than the one that was
asked for, and its fact is returned. -/
theorem not_search_sound :
    ¬ ∀ (maxSize : ℤ) (engine : SearchEngine maxSize) (payload : Value) (req : SearchRequest),
      validateRequest engine.settings payload = .ok req →
        ∀ sorter response, engine.search sorter payload = .ok response → response.Sound req := by
  intro h
  have hsound := h _ _ _ _ validateRequest_sample default _
    (search_eq validateRequest_sample (bfsFacts_sample sameVector) scoredFacts_sample default)
  have hsingle : ∀ lt, (default : Sorter FactRow).sort lt [scoredSample] = [scoredSample] :=
    fun lt => List.perm_singleton.mp (Sorter.perm default lt _)
  have hresults := results_respond (sampleEngine sameVector) [scoredSample] 1
    (show 0 ≤ sampleRequest.limit by decide) default
  rw [filter_sample, hsingle] at hresults
  have hvalid := (hsound.asked scoredSample (hresults ▸ List.mem_singleton_self _)).2
  cases hvalid

end JanusGraph
