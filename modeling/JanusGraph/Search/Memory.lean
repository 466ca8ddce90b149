import JanusGraph.Lib.Float
import JanusGraph.Lib.Table
import JanusGraph.Search.Rerank

/-!
# The search of the memory

`search_memory` and `_apply_cosine_gate` of `engine/search_memory.py`. The search itself is one of
graphiti, of which `Graphiti` says what it answers. Its edges and their scores come as two lists,
the gate drops edges of the one and not of the other, and what is shown is that every row still
has the score of its edge.

* **Scores.** They are looked up by uuid. Where the edges have different uuids, the score that is
  found is the one at the same place of the other list (`get?_zip_addScore`,
  `SearchResults.scored_eq`).
* **The gate.** If it can score, it is a filter (`keepEdges_eq`) followed by a slice; without a
  vector of the query, or without embeddings, it is the slice alone. In each case it drops edges
  and moves none (`applyCosineGate_sublist`).
* **The reply.** A part of the edges, in their order, each with its own score
  (`results_memoryReply`).

An exception of the search becomes a reply of its own kind (`MemoryFailure`), of which nothing is
shown but that it is one.
-/

namespace JanusGraph

/-- An exception. -/
structure Raised : Type where
  type : String
  text : String
  /-- `isinstance(e, (TypeError, ValueError))` -/
  typeOrValue : Bool
  deriving DecidableEq

/-- What is read of an edge; an attribute can be missing. -/
structure EntityEdge : Type where
  /-- `uuid`, if it is a string -/
  uuid : Option String
  fact : Option Value
  name : Option Value
  /-- `str(edge.valid_at)` -/
  validAt : Option String
  /-- `str(edge.invalid_at)` -/
  invalidAt : Option String
  /-- `str(edge)` -/
  text : String
  deriving DecidableEq

/-- `edge_reranker_scores` of what the search returns -/
inductive RawScores : Type where
  | missing
  /-- a list or a tuple -/
  | list (scores : List PyFloat)
  | other

/-- What `graphiti_search` returns -/
inductive SearchResults : Type where
  /-- the edges only -/
  | bare (edges : List EntityEdge)
  | full (edges : Option (List EntityEdge)) (scores : RawScores)

/-- `getattr(search_results, "edges", search_results) or []` -/
def SearchResults.edges : SearchResults → List EntityEdge
  | bare edges => edges
  | full edges _ => edges.getD []

/-- `raw_scores`, as far as there are any -/
def SearchResults.scores : SearchResults → List PyFloat
  | full _ (.list scores) => scores
  | _ => []

/-- The settings that are read. -/
structure MemorySettings : Type where
  groupId : String
  /-- the name of the reranker that is used -/
  reranker : String
  /-- `search.cosine_gate_min`, of the environment or else of the configuration -/
  cosineGateMin : Option PyFloat
  /-- `resolve_cosine_gate_overfetch(cfg)` -/
  cosineGateOverfetch : ℤ

/-- `_validated` -/
def validated : Option PyFloat → Option PyFloat
  | none => none
  | some v => if v = .nan || v.lt (.ofInt (-1)) || (PyFloat.ofInt 1).lt v then none else some v

/-- `resolve_cosine_gate_min` -/
def resolveCosineGateMin (cfg : MemorySettings) : Option PyFloat := validated cfg.cosineGateMin

/-- An instance of graphiti during one search. -/
structure Graphiti : Type where
  /-- `embedder.create`, the first and the second time -/
  create : Bool → String → Except Raised (Option (List PyFloat))
  /-- `graphiti_search`, of the query, the limit and the vector -/
  search : String → ℤ → Option (List PyFloat) → Except Raised SearchResults
  /-- `get_embeddings_for_edges` -/
  embeddings : List EntityEdge → Except Raised (Table String (List PyFloat))
  /-- `normalize_l2` -/
  normalizeL2 : List PyFloat → Except Raised (List PyFloat)
  /-- `float(v @ w)` -/
  dot : List PyFloat → List PyFloat → Except Raised PyFloat

/-- `query.replace(chr(10), " ")` -/
def oneLine (query : String) : String :=
  .ofList (query.toList.map fun c => if c = '\n' then ' ' else c)

/-! ## The gate -/

namespace Graphiti

variable (g : Graphiti)

/-- The cosine of an edge; one without an embedding cannot be scored. -/
def cosine (embeddings : Table String (List PyFloat)) (q : List PyFloat) (edge : EntityEdge) :
    Except Raised (Option PyFloat) :=
  match edge.uuid.bind embeddings.get? with
  | none | some [] => .ok none
  | some vec =>
    match g.normalizeL2 vec >>= g.dot q with
    | .ok cos => .ok (some cos)
    | .error e => if e.typeOrValue then .ok none else .error e

/-- The loop of `_apply_cosine_gate` -/
def keepEdges (embeddings : Table String (List PyFloat)) (q : List PyFloat) (gateMin : PyFloat) :
    List EntityEdge → Except Raised (List EntityEdge)
  | [] => .ok []
  | edge :: edges => do
    let cos ← g.cosine embeddings q edge
    let kept ← keepEdges embeddings q gateMin edges
    pure (if cos.any gateMin.le then edge :: kept else kept)

/-- `query_vector` of `_apply_cosine_gate` -/
def gateVector (query : String) : Option (List PyFloat) → Except Raised (Option (List PyFloat))
  | some v => .ok (some v)
  | none => g.create true (oneLine query)

/-- `_apply_cosine_gate` -/
def applyCosineGate (edges : List EntityEdge) (query : String) (gateMin : PyFloat) (limit : ℤ)
    (queryVector : Option (List PyFloat)) : Except Raised (List EntityEdge) :=
  match edges with
  | [] => .ok []
  | _ :: _ => do
    let vector ← g.gateVector query queryVector
    match vector with
    | none | some [] => pure (pySlice edges limit)
    | some v =>
      match g.embeddings edges with
      | .error _ => pure (pySlice edges limit)
      | .ok embeddings => do
        let q ← g.normalizeL2 v
        let kept ← g.keepEdges embeddings q gateMin edges
        pure (pySlice kept limit)

end Graphiti

/-! ## The rows -/

/-- One pair of an edge and a score. -/
def addScore (byUuid : Table String PyFloat) (p : EntityEdge × PyFloat) : Table String PyFloat :=
  match p.1.uuid with
  | some uuid => byUuid.upsert uuid fun _ => p.2
  | none => byUuid

/-- `scores_by_uuid` -/
def scoresByUuid (edges : List EntityEdge) (scores : List PyFloat) : Table String PyFloat :=
  (edges.zip scores).foldl addScore .empty

/-- One of the `results`. -/
structure MemoryRow : Type where
  fact : Value
  name : Value
  validAt : String
  invalidAt : String
  edgeUuid : Option String
  rerankerScore : Option PyFloat
  deriving DecidableEq

/-- The row of an edge with a score. -/
def MemoryRow.of (p : EntityEdge × Option PyFloat) : MemoryRow where
  fact := p.1.fact.getD (.str p.1.text)
  name := p.1.name.getD (.str "")
  validAt := p.1.validAt.getD ""
  invalidAt := p.1.invalidAt.getD ""
  edgeUuid := p.1.uuid
  rerankerScore := p.2

/-- `diagnostics` -/
structure MemoryDiagnostics : Type where
  reranker : String
  scoreSemantics : String
  scoresAvailable : Bool
  scoresDroppedByGate : ℕ
  edgeCandidates : ℕ
  edgeReturned : ℕ
  deriving DecidableEq

/-- What `search_memory` returns where it succeeds. -/
structure MemoryReply : Type where
  groupId : String
  query : String
  count : ℕ
  results : List MemoryRow
  diagnostics : MemoryDiagnostics
  deriving DecidableEq

/-- What it returns where something raised. -/
structure MemoryFailure : Type where
  code : String
  error : String
  errorType : String
  groupId : String
  query : String
  deriving DecidableEq

/-- `code` of an exception, with `str.lower` -/
def errorCode (lower : String → String) (e : Raised) : String :=
  let contains (s token : String) : Bool := codes token <:+: codes s
  if ["falkor", "redis", "disconnect", "connection refused", "broken pipe",
        "reset by peer"].any (contains (lower e.text)) ||
      ["ConnectionError", "ConnectionRefusedError", "BrokenPipeError",
        "RedisConnectionError"].any (contains e.type) then
    "FALKOR_DISCONNECTED"
  else if contains (lower e.text) "timeout" || e.type = "TimeoutError" then "BACKEND_TIMEOUT"
  else "INTERNAL_ERROR"

/-- `fetch_limit` -/
def fetchLimit (cfg : MemorySettings) (limit : ℤ) : ℤ :=
  if (resolveCosineGateMin cfg).isSome then max 1 (limit * cfg.cosineGateOverfetch) else limit

/-- `query_vector` -/
def queryVector (cfg : MemorySettings) (g : Graphiti) (query : String) :
    Except Raised (Option (List PyFloat)) :=
  if (resolveCosineGateMin cfg).isSome then g.create false (oneLine query) else .ok none

/-- The edges that are returned. -/
def returnedEdges (cfg : MemorySettings) (g : Graphiti) (query : String) (limit : ℤ)
    (vector : Option (List PyFloat)) (edges : List EntityEdge) :
    Except Raised (List EntityEdge) :=
  match resolveCosineGateMin cfg with
  | none => .ok edges
  | some gateMin => g.applyCosineGate edges query gateMin limit vector

/-- The reply with these edges. -/
def memoryReply (cfg : MemorySettings) (query : String) (found : SearchResults)
    (returned : List EntityEdge) : MemoryReply :=
  let byUuid := scoresByUuid found.edges found.scores
  { groupId := cfg.groupId
    query
    count := returned.length
    results := returned.map fun edge => .of (edge, edge.uuid.bind byUuid.get?)
    diagnostics :=
      { reranker := cfg.reranker
        scoreSemantics := if cfg.reranker = "rrf" then "rrf_reciprocal_rank" else cfg.reranker
        scoresAvailable := byUuid.keys ≠ []
        scoresDroppedByGate := found.edges.length - returned.length
        edgeCandidates := found.edges.length
        edgeReturned := returned.length } }

/-- The body of `search_memory`; the instance is the caller's, or is made here. -/
def searchMemoryBody (cfg : MemorySettings) (graphiti : Except Raised Graphiti) (query : String)
    (limit : ℤ) : Except Raised MemoryReply := do
  let g ← graphiti
  let vector ← queryVector cfg g query
  let found ← g.search query (fetchLimit cfg limit) vector
  let returned ← returnedEdges cfg g query limit vector found.edges
  pure (memoryReply cfg query found returned)

/-- `search_memory` -/
def searchMemory (lower : String → String) (cfg : MemorySettings)
    (graphiti : Except Raised Graphiti) (query : String) (limit : ℤ) :
    Except MemoryFailure MemoryReply :=
  match searchMemoryBody cfg graphiti query limit with
  | .ok reply => .ok reply
  | .error e => .error ⟨errorCode lower e, e.text, e.type, cfg.groupId, query⟩

/-! ## The scores -/

/-- The edges of a search, each with the score at its place. -/
def SearchResults.scored (found : SearchResults) : List (EntityEdge × Option PyFloat) :=
  found.edges.mapIdx fun i edge => (edge, found.scores[i]?)

/-- A score is stored under the uuid of its edge. -/
theorem get?_addScore (byUuid : Table String PyFloat) (p : EntityEdge × PyFloat) (uuid : String) :
    (addScore byUuid p).get? uuid =
      if p.1.uuid = some uuid then some p.2 else byUuid.get? uuid := by
  rw [addScore]
  cases p.1.uuid with
  | none => rfl
  | some other =>
    simp only [Table.get?_upsert, Option.some.injEq, @eq_comm _ uuid other]

/-- Later pairs do not touch the score of another uuid. -/
theorem get?_foldl_addScore {pairs : List (EntityEdge × PyFloat)} {uuid : String}
    (h : ∀ p ∈ pairs, p.1.uuid ≠ some uuid) (byUuid : Table String PyFloat) :
    (pairs.foldl addScore byUuid).get? uuid = byUuid.get? uuid := by
  induction pairs generalizing byUuid with
  | nil => rfl
  | cons p pairs ih =>
    obtain ⟨hp, hpairs⟩ := List.forall_mem_cons.mp h
    rw [List.foldl_cons, ih hpairs, get?_addScore, if_neg hp]

/-- **The dictionary of scores.** If no uuid is there twice, the edge at a place has the
score at that place. -/
theorem get?_zip_addScore {edges : List EntityEdge} (hnodup : (edges.map EntityEdge.uuid).Nodup)
    (scores : List PyFloat) {i : ℕ} (hi : i < edges.length) {uuid : String}
    (huuid : edges[i].uuid = some uuid) {byUuid : Table String PyFloat}
    (hnew : byUuid.get? uuid = none) :
    ((edges.zip scores).foldl addScore byUuid).get? uuid = scores[i]? := by
  induction edges generalizing scores i byUuid with
  | nil => exact absurd hi (Nat.not_lt_zero i)
  | cons edge edges ih =>
    obtain ⟨hedge, hedges⟩ := List.nodup_cons.mp hnodup
    rcases scores with _ | ⟨score, scores⟩
    · simpa using hnew
    · rw [List.zip_cons_cons, List.foldl_cons]
      cases i with
      | zero =>
        -- no later edge has this uuid
        rw [List.getElem_cons_zero] at huuid
        rw [get?_foldl_addScore, get?_addScore, if_pos huuid, List.getElem?_cons_zero]
        rintro ⟨later, _⟩ hlater hsame
        have hmem := List.mem_map_of_mem (f := EntityEdge.uuid) (List.of_mem_zip hlater).1
        rw [hsame, ← huuid] at hmem
        exact hedge hmem
      | succ i =>
        rw [List.getElem_cons_succ] at huuid
        have hi' : i < edges.length := Nat.lt_of_succ_lt_succ hi
        have hother : edge.uuid ≠ some uuid := by
          intro hsame
          rw [← huuid] at hsame
          exact hedge (hsame ▸ List.mem_map_of_mem (List.getElem_mem hi'))
        rw [List.getElem?_cons_succ]
        refine ih hedges scores hi' huuid ?_
        rw [get?_addScore, if_neg hother]
        exact hnew

/-- **The lookup is the zip.** Looked up by their uuids, the scores are those of the places.
-/
theorem SearchResults.scored_eq {found : SearchResults}
    (hnodup : (found.edges.map EntityEdge.uuid).Nodup)
    (huuid : ∀ edge ∈ found.edges, edge.uuid.isSome) :
    found.scored = found.edges.map fun edge =>
      (edge, edge.uuid.bind (scoresByUuid found.edges found.scores).get?) := by
  refine List.ext_getElem (by simp [scored]) fun i hi hi' => ?_
  rw [List.length_map] at hi'
  obtain ⟨uuid, hsome⟩ := Option.isSome_iff_exists.mp (huuid _ (List.getElem_mem hi'))
  have hget := get?_zip_addScore hnodup found.scores hi' hsome (Table.get?_empty uuid)
  simp only [scored, List.getElem_mapIdx, List.getElem_map, hsome, Option.bind_some, scoresByUuid,
    hget]

/-! ## What passes the gate -/

theorem pySlice_sublist {α : Type} (l : List α) (n : ℤ) : (pySlice l n).Sublist l :=
  List.take_sublist _ l

theorem length_pySlice_le {α : Type} (l : List α) {n : ℤ} (h : 0 ≤ n) :
    ((pySlice l n).length : ℤ) ≤ n := by
  have hle := List.length_take_le n.toNat l
  rw [pySlice_of_nonneg l h]
  omega

namespace Graphiti

variable {g : Graphiti} {embeddings : Table String (List PyFloat)} {q : List PyFloat}
  {gateMin : PyFloat}

/-- The cosine of the edge is known and not below the floor. -/
def atFloor (g : Graphiti) (embeddings : Table String (List PyFloat)) (q : List PyFloat)
    (gateMin : PyFloat) (edge : EntityEdge) : Bool :=
  match g.cosine embeddings q edge with
  | .ok (some cos) => gateMin.le cos
  | _ => false

theorem atFloor_of_cosine {edge : EntityEdge} {cos : Option PyFloat}
    (h : g.cosine embeddings q edge = .ok cos) :
    g.atFloor embeddings q gateMin edge = cos.any gateMin.le := by
  rw [atFloor, h]
  cases cos <;> rfl

/-- The loop is a filter. -/
theorem eq_filter_of_keepEdges {edges kept : List EntityEdge}
    (h : g.keepEdges embeddings q gateMin edges = .ok kept) :
    kept = edges.filter (g.atFloor embeddings q gateMin) := by
  induction edges generalizing kept with
  | nil => exact (Except.ok.inj h).symm
  | cons edge edges ih =>
    obtain ⟨cos, hcos, h⟩ := Except.of_bind_eq_ok h
    obtain ⟨rest, hrest, h⟩ := Except.of_bind_eq_ok h
    obtain rfl := Except.ok.inj h
    rw [List.filter_cons, atFloor_of_cosine hcos, ih hrest]

/-- **The loop of the gate** is a filter, once the edges can be scored. -/
theorem keepEdges_eq {edges : List EntityEdge}
    (h : ∀ edge ∈ edges, ∃ cos, g.cosine embeddings q edge = .ok cos) :
    g.keepEdges embeddings q gateMin edges =
      .ok (edges.filter (g.atFloor embeddings q gateMin)) := by
  induction edges with
  | nil => rfl
  | cons edge edges ih =>
    obtain ⟨⟨cos, hcos⟩, hedges⟩ := List.forall_mem_cons.mp h
    rw [keepEdges, hcos, ih hedges, List.filter_cons, atFloor_of_cosine hcos]
    rfl

/-- **The gate drops edges**, moves none, and returns no more than it may. It is so in each
of its branches, the ones that give up included. -/
theorem applyCosineGate_sublist {edges returned : List EntityEdge} {query : String} {limit : ℤ}
    (hlimit : 0 ≤ limit) {vector : Option (List PyFloat)}
    (h : g.applyCosineGate edges query gateMin limit vector = .ok returned) :
    returned.Sublist edges ∧ (returned.length : ℤ) ≤ limit := by
  rcases edges with _ | ⟨edge, edges⟩
  · obtain rfl := Except.ok.inj h
    exact ⟨List.Sublist.slnil, hlimit⟩
  · obtain ⟨v, -, h⟩ := Except.of_bind_eq_ok h
    have hungated : (pySlice (edge :: edges) limit).Sublist (edge :: edges) ∧
        ((pySlice (edge :: edges) limit).length : ℤ) ≤ limit :=
      ⟨pySlice_sublist _ limit, length_pySlice_le _ hlimit⟩
    split at h
    · obtain rfl := Except.ok.inj h
      exact hungated
    · obtain rfl := Except.ok.inj h
      exact hungated
    · split at h
      · obtain rfl := Except.ok.inj h
        exact hungated
      · obtain ⟨q, -, h⟩ := Except.of_bind_eq_ok h
        obtain ⟨kept, hkept, h⟩ := Except.of_bind_eq_ok h
        obtain rfl := Except.ok.inj h
        refine ⟨(pySlice_sublist kept limit).trans ?_, length_pySlice_le kept hlimit⟩
        rw [eq_filter_of_keepEdges hkept]
        exact List.filter_sublist

/-- The gate has the vector of the query, normalised, and the embeddings of the edges. -/
structure Loads (g : Graphiti) (query : String) (vector : Option (List PyFloat))
    (edges : List EntityEdge) (embeddings : Table String (List PyFloat)) (q : List PyFloat) :
    Prop where
  vector : ∃ v, g.gateVector query vector = .ok (some v) ∧ v ≠ [] ∧ g.normalizeL2 v = .ok q
  embeddings : g.embeddings edges = .ok embeddings

/-- With all of that the gate is the loop. -/
theorem Loads.applyCosineGate_eq {edges : List EntityEdge} {query : String}
    {vector : Option (List PyFloat)} (h : g.Loads query vector edges embeddings q) (limit : ℤ) :
    g.applyCosineGate edges query gateMin limit vector =
      g.keepEdges embeddings q gateMin edges >>= fun kept => pure (pySlice kept limit) := by
  obtain ⟨v, hvector, hv, hq⟩ := h.vector
  rcases edges with _ | ⟨edge, edges⟩
  · simp [applyCosineGate, keepEdges, pySlice, bind, Except.bind, pure, Except.pure]
  · obtain ⟨x, xs, rfl⟩ := List.exists_cons_of_ne_nil hv
    simp only [applyCosineGate, hvector, h.embeddings, hq, bind, Except.bind]

end Graphiti

/-! ## A search -/

variable {lower : String → String} {cfg : MemorySettings} {g : Graphiti} {query : String}
  {limit : ℤ} {vector : Option (List PyFloat)} {found : SearchResults}

/-- From the edges on. -/
theorem searchMemory_eq (hvector : queryVector cfg g query = .ok vector)
    (hfound : g.search query (fetchLimit cfg limit) vector = .ok found) {reply : MemoryReply} :
    searchMemory lower cfg (.ok g) query limit = .ok reply ↔
      ∃ returned, returnedEdges cfg g query limit vector found.edges = .ok returned ∧
        memoryReply cfg query found returned = reply := by
  rw [searchMemory, searchMemoryBody]
  simp only [bind, Except.bind, hvector, hfound]
  cases returnedEdges cfg g query limit vector found.edges with
  | error e => simp
  | ok returned => simp [pure, Except.pure]

/-- So are the edges that are returned some of those that were found, in their order. -/
theorem returnedEdges_sublist (hlimit : 0 ≤ limit) {edges returned : List EntityEdge}
    (hasked : (edges.length : ℤ) ≤ fetchLimit cfg limit)
    (h : returnedEdges cfg g query limit vector edges = .ok returned) :
    returned.Sublist edges ∧ (returned.length : ℤ) ≤ limit := by
  rw [returnedEdges] at h
  rw [fetchLimit] at hasked
  split at h
  · next hnone =>
    obtain rfl := Except.ok.inj h
    rw [hnone] at hasked
    exact ⟨List.Sublist.refl _, hasked⟩
  · exact Graphiti.applyCosineGate_sublist hlimit h

/-- **The rows.** The edges as they come, with the scores looked up, are edges with their own
scores. -/
theorem results_memoryReply (hnodup : (found.edges.map EntityEdge.uuid).Nodup)
    (huuid : ∀ edge ∈ found.edges, edge.uuid.isSome) {returned : List EntityEdge}
    (h : returned.Sublist found.edges) :
    ∃ kept : List (EntityEdge × Option PyFloat), kept.Sublist found.scored ∧
      kept.map Prod.fst = returned ∧
      (memoryReply cfg query found returned).results = kept.map MemoryRow.of := by
  let scored (edge : EntityEdge) : EntityEdge × Option PyFloat :=
    (edge, edge.uuid.bind (scoresByUuid found.edges found.scores).get?)
  refine ⟨returned.map scored, ?_, ?_, ?_⟩
  · rw [SearchResults.scored_eq hnodup huuid]
    exact h.map scored
  · rw [List.map_map]
    exact List.map_id _
  · rw [List.map_map]
    rfl

/-- The rows of the edges that pass the gate. -/
theorem results_filter (hnodup : (found.edges.map EntityEdge.uuid).Nodup)
    (huuid : ∀ edge ∈ found.edges, edge.uuid.isSome) (p : EntityEdge → Bool) (n : ℕ) :
    (memoryReply cfg query found ((found.edges.filter p).take n)).results =
      ((found.scored.filter fun scored => p scored.1).take n).map MemoryRow.of := by
  rw [SearchResults.scored_eq hnodup huuid, List.filter_map, ← List.map_take, List.map_map]
  rfl

/-- **The rows of a search.** They are edges of the search below, in its order, each with the
score that came with it, and not more than asked for. With a gate that can score they are the
first of those that pass it. The gate drops edges and not their scores, so that places no
longer match after it; but the scores are looked up by uuid. -/
theorem searchMemory_aligned (lower : String → String) (hlimit : 1 ≤ limit)
    (hvector : queryVector cfg g query = .ok vector)
    (hfound : g.search query (fetchLimit cfg limit) vector = .ok found)
    (huuid : ∀ edge ∈ found.edges, edge.uuid.isSome)
    (hnodup : (found.edges.map EntityEdge.uuid).Nodup)
    (hasked : (found.edges.length : ℤ) ≤ fetchLimit cfg limit) :
    (∀ reply, searchMemory lower cfg (.ok g) query limit = .ok reply →
      ∃ kept : List (EntityEdge × Option PyFloat), kept.Sublist found.scored ∧
        reply.results = kept.map MemoryRow.of ∧ (reply.results.length : ℤ) ≤ limit) ∧
    (∀ gateMin embeddings q, resolveCosineGateMin cfg = some gateMin →
      g.Loads query vector found.edges embeddings q →
      (∀ reply, searchMemory lower cfg (.ok g) query limit = .ok reply →
        reply.results = ((found.scored.filter fun scored =>
          g.atFloor embeddings q gateMin scored.1).take limit.toNat).map MemoryRow.of) ∧
      ((∀ edge ∈ found.edges, ∃ cos, g.cosine embeddings q edge = .ok cos) →
        ∃ reply, searchMemory lower cfg (.ok g) query limit = .ok reply)) ∧
    (resolveCosineGateMin cfg = none →
      ∃ reply, searchMemory lower cfg (.ok g) query limit = .ok reply) := by
  have hpos : 0 ≤ limit := Int.le_of_lt hlimit
  refine ⟨fun reply hreply => ?_, fun gateMin embeddings q hgate hloads => ⟨fun reply hreply => ?_,
    fun hscored => ?_⟩, fun hnone => ?_⟩
  · obtain ⟨returned, hreturned, rfl⟩ := (searchMemory_eq hvector hfound).mp hreply
    obtain ⟨hsublist, hlength⟩ := returnedEdges_sublist hpos hasked hreturned
    obtain ⟨kept, hkept, -, hresults⟩ := results_memoryReply hnodup huuid hsublist
    refine ⟨kept, hkept, hresults, ?_⟩
    rw [memoryReply, List.length_map]
    exact hlength
  · obtain ⟨returned, hreturned, rfl⟩ := (searchMemory_eq hvector hfound).mp hreply
    rw [returnedEdges, hgate] at hreturned
    simp only [hloads.applyCosineGate_eq] at hreturned
    obtain ⟨kept, hkept, hreturned⟩ := Except.of_bind_eq_ok hreturned
    obtain rfl := Except.ok.inj hreturned
    rw [pySlice_of_nonneg _ hpos, Graphiti.eq_filter_of_keepEdges hkept]
    exact results_filter hnodup huuid _ _
  · have hreturned : returnedEdges cfg g query limit vector found.edges =
        .ok (pySlice (found.edges.filter (g.atFloor embeddings q gateMin)) limit) := by
      rw [returnedEdges, hgate]
      simp only [hloads.applyCosineGate_eq, Graphiti.keepEdges_eq hscored]
      rfl
    exact ⟨_, (searchMemory_eq hvector hfound).mpr ⟨_, hreturned, rfl⟩⟩
  · have hreturned : returnedEdges cfg g query limit vector found.edges = .ok found.edges := by
      rw [returnedEdges, hnone]
    exact ⟨_, (searchMemory_eq hvector hfound).mpr ⟨_, hreturned, rfl⟩⟩

/-- An edge with this uuid. -/
def sampleEdge (uuid : String) : EntityEdge :=
  ⟨some uuid, some (.str "friends"), none, none, none, "EntityEdge"⟩

/-- Two edges with their scores, only the second of which has an embedding. -/
def sampleGraphiti : Graphiti where
  create _ _ := .ok (some [.ofInt 1])
  search _ _ _ :=
    .ok (.full (some [sampleEdge "a", sampleEdge "b"]) (.list [.ofInt 2, .ofInt 1]))
  embeddings _ := .ok (Table.empty.put "b" [.ofInt 1])
  normalizeL2 v := .ok v
  dot _ _ := .ok (.ofInt 1)

/-- A floor of `0`, and twice as many edges as asked for. -/
def sampleGate : MemorySettings := ⟨"default", "rrf", some (.ofInt 0), 2⟩

theorem searchMemory_aligned_second :
    ∃ reply, searchMemory id sampleGate (.ok sampleGraphiti) "friends" 1 = .ok reply ∧
      reply.results = [.of (sampleEdge "b", some (.ofInt 1))] := by
  have hgate : resolveCosineGateMin sampleGate = some (.ofInt 0) := by decide +kernel
  have hvector : queryVector sampleGate sampleGraphiti "friends" = .ok (some [.ofInt 1]) := by
    rw [queryVector, hgate]
    rfl
  have hlimit : fetchLimit sampleGate 1 = 2 := by
    rw [fetchLimit, hgate]
    rfl
  have hloads : sampleGraphiti.Loads "friends" (some [.ofInt 1]) [sampleEdge "a", sampleEdge "b"]
      (Table.empty.put "b" [.ofInt 1]) [.ofInt 1] :=
    ⟨⟨[.ofInt 1], rfl, List.cons_ne_nil _ _, rfl⟩, rfl⟩
  have haligned := searchMemory_aligned id le_rfl hvector rfl (by decide) (by decide)
    (le_of_le_of_eq (by decide) hlimit.symm)
  obtain ⟨hrows, hreplies⟩ := haligned.2.1 (.ofInt 0) _ _ hgate hloads
  obtain ⟨reply, hreply⟩ := hreplies (List.forall_mem_cons.mpr
    ⟨⟨none, rfl⟩, List.forall_mem_singleton.mpr ⟨some (.ofInt 1), rfl⟩⟩)
  exact ⟨reply, hreply, (hrows reply hreply).trans (by decide +kernel)⟩

end JanusGraph
