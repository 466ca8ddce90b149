import JanusGraph.Search.Rerank

/-!
# The graph search

`SearchEngine.search` of `daemon/search_engine.py`: validation, traversal, scores, filter and
ranking in one.

`search` goes through six steps, and any of the first four can end it: the request is invalid,
the traversal fails or finds nothing, the embedder raises. What is left once they are through is
a function of the scored facts (`respond`), so that a statement about what a search returns has
two parts: which facts it comes to (`bfsFacts`, `scoredFacts`), and what `respond` makes of them
(`search_eq`).

The server and the endpoint of the embedder are parameters of the engine. `Answered` says of the
server that it has answered the traversal, with rows in an order that the query asks for.
-/

namespace JanusGraph

/-- `SearchEngine`, with what it talks to. -/
structure SearchEngine (maxSize : ℤ) : Type where
  settings : SearchSettings
  falkor : Falkor
  client : EmbeddingClient maxSize
  arith : FloatArith
  py : Builtins
  /-- how long the search takes -/
  elapsedMs : ℤ

/-- `SearchResponse` -/
structure SearchResponse : Type where
  results : List FactRow
  count : ℕ
  elapsedMs : ℤ
  degraded : Bool
  warnings : List String
  deriving DecidableEq

namespace SearchEngine

variable {maxSize : ℤ} (engine : SearchEngine maxSize)

/-- Steps 1 to 3 of `search`: the traversal, with an error of its own for a seed that does
not exist. -/
def bfsFacts (req : SearchRequest) : Except SearchError (List FactRow) :=
  if !engine.falkor.connected then
    .error (.backend "FALKOR_DOWN" "FalkorDB unreachable — check daemon logs for circuit state")
  else do
    let existing ← engine.falkor.probeSeedExistence req.seeds
    if existing = [] then
      .error (.backend "SEED_NOT_FOUND" "no seed_entities exist in the KG")
    else engine.falkor.cypherBfs engine.py engine.settings req

/-- `payload.get("query")` -/
def queryOf : Value → Value
  | .dict payload => (payload.lookup "query").getD .null
  | _ => .null

/-- Step 4 of `search`: `fact_rows` afterwards, and `embedded_count` -/
def scoredFacts (rows : List FactRow) (query : Value) : Except SearchError (List FactRow × ℕ) :=
  if rows = [] then .ok ([], 0)
  else match embedRows engine.settings engine.client rows query with
    | none => .error .raised
    | some embeds =>
      match attachCosine engine.arith engine.settings rows embeds with
      | none => .error .raised
      | some scored => .ok scored

/-- Step 5 of `search`. A fact without a score does not pass, whatever the threshold is. -/
def passes (req : SearchRequest) (r : FactRow) : Bool :=
  r.invalidAt = none && r.cosine.any req.minCosine.le

/-- Steps 5 and 6 of `search` -/
def respond (sorter : Sorter FactRow) (req : SearchRequest) (factRows : List FactRow)
    (embeddedCount : ℕ) : SearchResponse :=
  let filtered := factRows.filter (passes req)
  let ranked := mmrRerank engine.arith sorter filtered req.mmrLambda req.limit
  { results := pySlice ranked req.limit
    count := (pySlice ranked req.limit).length
    elapsedMs := engine.elapsedMs
    degraded := (factRows.take embeddedCount).any (·.cosine = none)
    warnings :=
      (if factRows.length ≥ engine.settings.maxFactsPerQuery then
        ["fact_count_capped: results may be truncated"] else []) ++
      if embeddedCount < factRows.length then
        ["fact_count_capped: scored " ++ toString embeddedCount ++ " of " ++
          toString factRows.length ++ " facts (embed_max_facts)"]
      else [] }

/-- `SearchEngine.search` -/
def search (sorter : Sorter FactRow) (payload : Value) : Except SearchError SearchResponse := do
  let req ← validateRequest engine.settings payload
  let rows ← engine.bfsFacts req
  let (factRows, embeddedCount) ← engine.scoredFacts rows (queryOf payload)
  pure (engine.respond sorter req factRows embeddedCount)

variable {engine}

/-- **A search that comes through its first four steps returns**, with the response to the
facts it has scored. -/
theorem search_eq {payload : Value} {req : SearchRequest} {rows factRows : List FactRow} {n : ℕ}
    (hreq : validateRequest engine.settings payload = .ok req)
    (hrows : engine.bfsFacts req = .ok rows)
    (hscored : engine.scoredFacts rows (queryOf payload) = .ok (factRows, n))
    (sorter : Sorter FactRow) :
    engine.search sorter payload = .ok (engine.respond sorter req factRows n) := by
  simp only [search, hreq, hrows, hscored, bind, Except.bind, pure, Except.pure]

/-- The server answers the traversal of the request with these rows. -/
structure Answered (engine : SearchEngine maxSize) (req : SearchRequest)
    (rows : List BfsRow) : Prop where
  connected : engine.falkor.connected = true
  seeds : ∃ existing, engine.falkor.probeSeedExistence req.seeds = .ok existing ∧ existing ≠ []
  answer : ∃ answer, engine.falkor.bfs (engine.falkor.seedsRead req.seeds req.maxHops
    engine.settings.maxFactsPerQuery) req.maxHops engine.settings.maxFactsPerQuery =
      .answered answer ∧ answer.rows = rows

/-- **The facts of a search.** With a server and a seed that exists, they are those of the
traversal, in the order of the answer. -/
theorem Answered.bfsFacts {req : SearchRequest} {answered : List BfsRow}
    (h : engine.Answered req answered) :
    engine.bfsFacts req = .ok (answered.filterMap (FactRow.ofRow engine.py)) := by
  obtain ⟨existing, hprobe, hexisting⟩ := h.seeds
  obtain ⟨answer, hanswer, rfl⟩ := h.answer
  simp only [SearchEngine.bfsFacts, h.connected, hprobe, bind, Except.bind, if_neg hexisting,
    Bool.not_true, Bool.false_eq_true, if_false, Falkor.cypherBfs, hanswer]

/-- Conversely, where there are facts, the server has answered with rows that they come from.
-/
theorem of_bfsFacts {req : SearchRequest} {rows : List FactRow}
    (h : engine.bfsFacts req = .ok rows) : ∃ answered, engine.Answered req answered := by
  unfold bfsFacts at h
  split at h
  · cases h
  · next hconnected =>
    obtain ⟨existing, hprobe, h⟩ := Except.of_bind_eq_ok h
    split at h
    · cases h
    · next hexisting =>
      unfold Falkor.cypherBfs at h
      split at h
      · next answer hanswer =>
        exact ⟨answer.rows, by simpa using hconnected, ⟨existing, hprobe, hexisting⟩, answer,
          hanswer, rfl⟩
      · cases h
      · cases h

/-- The facts of the traversal have no score and no date of invalidity yet. -/
theorem of_mem_bfsFacts {req : SearchRequest} {rows : List FactRow}
    (h : engine.bfsFacts req = .ok rows) {r : FactRow} (hr : r ∈ rows) :
    r.cosine = none ∧ r.invalidAt = none := by
  obtain ⟨answered, hanswer⟩ := of_bfsFacts h
  obtain rfl := Except.ok.inj (hanswer.bfsFacts.symm.trans h)
  obtain ⟨row, -, hrow⟩ := List.mem_filterMap.mp hr
  obtain ⟨hcosine, hvalid, -, -⟩ := FactRow.ofRow_eq_some _ hrow
  exact ⟨hcosine, hvalid⟩

/-! ## A search that runs -/

/-- A relationship that was invalidated. -/
def sampleRel : BfsRel where
  id := 1
  source := ⟨1, .str "Lisbon", .null⟩
  target := ⟨2, .str "Porto", .null⟩
  type := "MENTIONS"
  fact := .str "friends"
  invalidAt := .str "2026-01-01"

/-- The graph of its two nodes. -/
def sampleGraph : BfsGraph where
  nodes := [sampleRel.source, sampleRel.target]
  rels := [sampleRel]
  nodup_nodes := by decide
  nodup_rels := by decide
  source_mem := by decide
  target_mem := by decide

/-- An engine over that graph, with nothing in the cache of its client. -/
def sampleEngine (post : List String → HttpReply) : SearchEngine 10000 where
  settings := .defaults
  falkor := .answering sampleGraph
  client := { cache := ⟨[], by decide, by decide⟩, cacheKey := some, post }
  arith := .whole
  py := default
  elapsedMs := 1

/-- One seed, an edge type that the graph does not have, and the ranking by relevance. -/
def samplePayload : Value :=
  .dict [("seed_entities", .list [.str "Lisbon"]), ("edge_types", .list [.str "CALLS"]),
    ("mmr_lambda", .int 1)]

/-- What the payload asks for. -/
def sampleRequest : SearchRequest where
  seeds := ["Lisbon"]
  maxHops := 2
  minCosine := .finite 1 (-1)
  mmrLambda := .ofInt 1
  limit := 10
  edgeTypes := ["CALLS"]
  includeEpisodes := false

/-- The fact of the relationship. -/
def sampleFact : FactRow where
  fact := "friends"
  sourceEntity := .str "Lisbon"
  targetEntity := "Porto"
  edgeType := "MENTIONS"
  hopDistance := 1
  path := [.str "Lisbon"]
  cosine := none
  invalidAt := none
  origin := sampleRel

theorem validateRequest_sample :
    validateRequest .defaults samplePayload = .ok sampleRequest := by
  decide +kernel

/-- The row of the answer it comes from. -/
def sampleRow : BfsRow :=
  bfsRow sampleRel.source [(sampleRel, sampleRel.target)] 0 sampleRel sampleRel.target

theorem answered_sample (post : List String → HttpReply) :
    (sampleEngine post).Answered sampleRequest [sampleRow] where
  connected := rfl
  seeds := by
    have hexists : (Falkor.answering sampleGraph).probeSeedExistence sampleRequest.seeds =
        .ok ["Lisbon"] := by
      decide +kernel
    exact ⟨["Lisbon"], hexists, List.cons_ne_nil _ _⟩
  answer := by
    have hrows : bfsRows sampleGraph (sampleRequest.seeds.map fun seed =>
        substituted sampleRequest.maxHops SearchSettings.defaults.maxFactsPerQuery (codes seed))
          sampleRequest.maxHops = [sampleRow] := by
      decide +kernel
    obtain ⟨answer, hanswer, hall⟩ := Falkor.bfs_answering sampleGraph sampleRequest.seeds
      sampleRequest.maxHops (show 0 ≤ SearchSettings.defaults.maxFactsPerQuery by decide)
    rw [hrows, List.mergeSort_singleton, List.take_of_length_le (by decide)] at hall
    exact ⟨answer, hanswer, hall⟩

theorem bfsFacts_sample (post : List String → HttpReply) :
    (sampleEngine post).bfsFacts sampleRequest = .ok [sampleFact] := by
  have hfact : [sampleRow].filterMap (FactRow.ofRow default) = [sampleFact] := by
    decide +kernel
  exact (answered_sample post).bfsFacts.trans (congrArg _ hfact)

end SearchEngine

end JanusGraph
