import JanusGraph.Search.Engine

/-!
# A search without the embedder

When vectors are missing, no fact gets a score. The client of the embedder says that the search
then returns the facts of the traversal as they are, and `_mmr_rerank` would keep them; but the
threshold before it drops every fact without a score, and nothing catches what the client
raises. So there is no outage after which the facts are returned.

Both steps are about single facts. A fact that comes from the traversal has no score, and after
an outage it still has none (`scoredFacts_of_failure`); the threshold asks for one, however low
it is (`filter_passes_eq_nil`). Which settings there are does not matter for either.
-/

namespace JanusGraph

open SearchEngine

/-- The response is marked, and has the facts of the traversal as far as the limit allows, at
least one. -/
structure SearchResponse.FallsBack (req : SearchRequest) (rows : List FactRow)
    (response : SearchResponse) : Prop where
  degraded : response.degraded = true
  results : response.results = rows.take req.limit.toNat
  nonempty : response.results ≠ []

/-- **An outage.** The embedder fails: its client raises, or leaves a text without a vector.
-/
def SearchEngine.EmbedderFails {maxSize : ℤ} (engine : SearchEngine maxSize)
    (rows : List FactRow) (query : Value) : Prop :=
  ∀ embeds, embedRows engine.settings engine.client rows query = some embeds →
    ∃ e ∈ embeds, e.embedding = none

variable {maxSize : ℤ} {engine : SearchEngine maxSize} {payload : Value} {req : SearchRequest}
  {rows : List FactRow}

/-- **After an outage** the rows stay as they are, unless the client raises. One text without
a vector is enough: the scores of all rows depend on the vector of the query and are attached
together. -/
theorem scoredFacts_of_failure {query : Value} (hne : rows ≠ [])
    (hfail : engine.EmbedderFails rows query) :
    engine.scoredFacts rows query = .error .raised ∨
      engine.scoredFacts rows query = .ok (rows, (trimmed engine.settings rows).length) := by
  rw [scoredFacts, if_neg hne]
  cases hembed : embedRows engine.settings engine.client rows query with
  | none => exact .inl rfl
  | some embeds =>
    have hmissing : embeds.any (·.embedding = none) = true := by simpa using hfail embeds hembed
    simp only [attachCosine, hmissing, or_true, if_true]

/-- Facts without a score do not pass the threshold. -/
theorem filter_passes_eq_nil (hrows : engine.bfsFacts req = .ok rows) :
    rows.filter (passes req) = [] := by
  refine List.filter_eq_nil_iff.mpr fun r hr => ?_
  obtain ⟨hcosine, -⟩ := of_mem_bfsFacts hrows hr
  simp [passes, hcosine]

/-- **A search that returns after an outage has no results.** -/
theorem results_of_failure (hreq : validateRequest engine.settings payload = .ok req)
    (hrows : engine.bfsFacts req = .ok rows) (hne : rows ≠ [])
    (hfail : engine.EmbedderFails rows (queryOf payload)) {sorter : Sorter FactRow}
    {response : SearchResponse} (h : engine.search sorter payload = .ok response) :
    response.results = [] := by
  rcases scoredFacts_of_failure hne hfail with hscored | hscored
  · simp only [SearchEngine.search, hreq, hrows, hscored, bind, Except.bind, reduceCtorEq] at h
  · rw [search_eq hreq hrows hscored sorter] at h
    cases h
    simp only [respond, filter_passes_eq_nil hrows, mmrRerank, if_true]
    exact List.take_nil

/-- **An outage of the embedder erases the facts**, always: the filter on `r.cosine is not None`
drops every fact before the ranking that would have kept it, and an exception of the client ends
the search. No setting and no request changes that. -/
theorem outage_erases (hreq : validateRequest engine.settings payload = .ok req)
    (hrows : engine.bfsFacts req = .ok rows) (hne : rows ≠ [])
    (hfail : engine.EmbedderFails rows (queryOf payload)) (sorter : Sorter FactRow) :
    ¬ ∃ response, engine.search sorter payload = .ok response ∧ response.FallsBack req rows := by
  rintro ⟨response, hresponse, hback⟩
  exact hback.nonempty (results_of_failure hreq hrows hne hfail hresponse)

/-- An endpoint that cannot be reached. -/
def unreachable (_ : List String) : HttpReply := .transport "Cannot connect to host"

theorem embedderFails_sample :
    (sampleEngine unreachable).EmbedderFails [sampleFact] (queryOf samplePayload) := by
  have hembed : embedRows (sampleEngine unreachable).settings (sampleEngine unreachable).client
      [sampleFact] (queryOf samplePayload) =
        some [⟨"friends", none, some "Cannot connect to host"⟩,
          ⟨"friends", none, some "Cannot connect to host"⟩] := by
    decide +kernel
  intro embeds h
  obtain rfl := Option.some.inj (hembed.symm.trans h)
  exact ⟨_, List.mem_cons_self, rfl⟩

/-- The sample has room for ten facts, has found one, and returns none. -/
theorem outage_erases_sample :
    ¬ ∃ response, (sampleEngine unreachable).search default samplePayload = .ok response ∧
      response.FallsBack sampleRequest [sampleFact] :=
  outage_erases validateRequest_sample (bfsFacts_sample unreachable) (List.cons_ne_nil _ _)
    embedderFails_sample default

/-- The endpoint is down, the traversal has found a fact, and the response is empty. -/
theorem not_outage_falls_back :
    ¬ ∀ (maxSize : ℤ) (engine : SearchEngine maxSize) (payload : Value) (req : SearchRequest)
      (rows : List FactRow), validateRequest engine.settings payload = .ok req →
        engine.bfsFacts req = .ok rows → rows ≠ [] →
          engine.EmbedderFails rows (queryOf payload) → ∀ sorter, ∃ response,
            engine.search sorter payload = .ok response ∧ response.FallsBack req rows := by
  intro h
  obtain ⟨response, hresponse, hback⟩ := h _ (sampleEngine unreachable) _ _ _
    validateRequest_sample (bfsFacts_sample unreachable) (List.cons_ne_nil _ _)
    embedderFails_sample default
  exact hback.nonempty (results_of_failure validateRequest_sample (bfsFacts_sample unreachable)
    (List.cons_ne_nil _ _) embedderFails_sample hresponse)

end JanusGraph
