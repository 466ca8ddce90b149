import JanusGraph.Lib.Float

/-!
# Requests of the graph search

`SearchEngine.validate_request` of `daemon/search_engine.py`: which payloads are valid, and what
is filled in.

The parts of a payload are read one by one (`validSeeds`, `validHops`, `validMinCosine`,
`validLimit`, `validEdgeTypes`), each with its own default and its own error. `validateRequest_ok`
collects what a valid request is like. One part is not checked at all: a `mmr_lambda` out of its
range becomes the default (`filledLambda`). And one check comes too early: the limit is compared
with 1 before the ceiling of the settings is applied.
-/

theorem Except.of_bind_eq_ok {ε α β : Type} {x : Except ε α} {f : α → Except ε β} {b : β}
    (h : x >>= f = .ok b) : ∃ a, x = .ok a ∧ f a = .ok b := by
  cases x with
  | error => cases h
  | ok a => exact ⟨a, rfl, h⟩

namespace JanusGraph

/-- `DaemonSearchGraphSettings`, as far as a search reads them -/
structure SearchSettings : Type where
  maxFactsPerQuery : ℤ
  embedMaxFacts : ℤ
  embedCacheSize : ℤ
  traversalTimeoutSec : PyFloat
  defaultMinCosine : PyFloat
  defaultMmrLambda : PyFloat
  defaultLimit : ℤ
  maxLimit : ℤ
  deriving DecidableEq

/-- The defaults of `DaemonSearchGraphSettings` -/
def SearchSettings.defaults : SearchSettings where
  maxFactsPerQuery := 5000
  embedMaxFacts := 200
  embedCacheSize := 10000
  traversalTimeoutSec := .ofInt 2
  defaultMinCosine := .finite 1 (-1)
  defaultMmrLambda := .finite 3152519739159347 (-52)
  defaultLimit := 10
  maxLimit := 50

/-- What `search` raises. -/
inductive SearchError : Type where
  /-- `SearchValidationError` -/
  | validation (code message : String)
  /-- `SearchBackendError` -/
  | backend (code message : String)
  /-- any other exception -/
  | raised
  deriving DecidableEq

/-- What `validate_request` returns -/
structure SearchRequest : Type where
  seeds : List String
  maxHops : ℤ
  minCosine : PyFloat
  mmrLambda : PyFloat
  limit : ℤ
  edgeTypes : List String
  includeEpisodes : Bool
  deriving DecidableEq

/-- The texts of a list, if nothing else is in it. -/
def textsOf : List Value → Option (List String)
  | [] => some []
  | .str s :: vs => (textsOf vs).map (s :: ·)
  | _ :: _ => none

/-- `seed_entities` -/
def validSeeds (payload : List (String × Value)) : Except SearchError (List String) :=
  match payload.lookup "seed_entities" with
  | some (.list (v :: vs)) =>
    match textsOf (v :: vs) with
    | some seeds =>
      if seeds.all (strip · ≠ "") then
        if seeds.length > 5 then
          .error (.validation "INVALID_SEED" "seed_entities supports at most 5 entries")
        else .ok seeds
      else .error (.validation "INVALID_SEED" "seed_entities entries must be non-empty strings")
    | none => .error (.validation "INVALID_SEED" "seed_entities entries must be non-empty strings")
  | _ => .error (.validation "INVALID_SEED" "seed_entities must be a non-empty list")

/-- `max_hops` -/
def validHops (payload : List (String × Value)) : Except SearchError ℤ :=
  match (payload.lookup "max_hops").getD (.int 2) with
  | .int n =>
    if n < 1 ∨ n > 3 then .error (.validation "INVALID_HOPS" "max_hops must be int in [1, 3]")
    else .ok n
  | _ => .error (.validation "INVALID_HOPS" "max_hops must be int in [1, 3]")

variable (settings : SearchSettings)

/-- `min_cosine` -/
def validMinCosine (payload : List (String × Value)) : Except SearchError PyFloat :=
  match ((payload.lookup "min_cosine").getD (.float settings.defaultMinCosine)).number with
  | some x =>
    if x.inUnit then .ok x
    else .error (.validation "MIN_COSINE_OUT_OF_RANGE" "min_cosine must be a float in [0.0, 1.0]")
  | none =>
    .error (.validation "MIN_COSINE_OUT_OF_RANGE" "min_cosine must be a float in [0.0, 1.0]")

/-- `mmr_lambda`: what is out of range is the default, and that is not checked. -/
def filledLambda (payload : List (String × Value)) : PyFloat :=
  match ((payload.lookup "mmr_lambda").getD (.float settings.defaultMmrLambda)).number with
  | some x => if x.inUnit then x else settings.defaultMmrLambda
  | none => settings.defaultMmrLambda

/-- `limit` -/
def validLimit (payload : List (String × Value)) : Except SearchError ℤ :=
  match (payload.lookup "limit").getD (.int settings.defaultLimit) with
  | .int n =>
    if n < 1 then .error (.validation "INVALID_LIMIT" "limit must be a positive int")
    else .ok (min n settings.maxLimit)
  | _ => .error (.validation "INVALID_LIMIT" "limit must be a positive int")

/-- `edge_types` -/
def validEdgeTypes (payload : List (String × Value)) : Except SearchError (List String) :=
  let given := (payload.lookup "edge_types").getD (.list [])
  match if given.truthy then given else .list [] with
  | .list vs =>
    match textsOf vs with
    | some edgeTypes => .ok edgeTypes
    | none => .error (.validation "INVALID_EDGE_TYPES" "edge_types must be a list of strings")
  | _ => .error (.validation "INVALID_EDGE_TYPES" "edge_types must be a list of strings")

/-- `SearchEngine.validate_request` -/
def validateRequest : Value → Except SearchError SearchRequest
  | .dict payload => do
    let seeds ← validSeeds payload
    let maxHops ← validHops payload
    let minCosine ← validMinCosine settings payload
    let limit ← validLimit settings payload
    let edgeTypes ← validEdgeTypes payload
    pure {
      seeds, maxHops, minCosine, limit, edgeTypes
      mmrLambda := filledLambda settings payload
      includeEpisodes := ((payload.lookup "include_episodes").getD (.bool false)).truthy }
  | _ => .error (.validation "INVALID_BODY" "payload must be a JSON object")

/-! ## Valid requests -/

variable {settings}

/-- The check is for all values or for none. -/
theorem length_textsOf {vs : List Value} {ss : List String} (h : textsOf vs = some ss) :
    ss.length = vs.length := by
  induction vs generalizing ss with
  | nil =>
    cases h
    rfl
  | cons v vs ih =>
    cases v with
    | str s =>
      obtain ⟨ss', hss', rfl⟩ := Option.map_eq_some_iff.mp h
      exact congrArg (· + 1) (ih hss')
    | null | bool _ | int _ | float _ | list _ | dict _ | collection _ _ => cases h

/-- There is a seed, and no more than five of them. -/
theorem validSeeds_ok {payload : List (String × Value)} {seeds : List String}
    (h : validSeeds payload = .ok seeds) : seeds ≠ [] ∧ seeds.length ≤ 5 := by
  unfold validSeeds at h
  split at h
  · split at h
    · next hseeds =>
      split_ifs at h with hblank hmany
      cases h
      have hlength := length_textsOf hseeds
      refine ⟨?_, by omega⟩
      rintro rfl
      cases hlength
    · cases h
  · cases h

/-- The hops are one, two or three. -/
theorem validHops_ok {payload : List (String × Value)} {n : ℤ} (h : validHops payload = .ok n) :
    1 ≤ n ∧ n ≤ 3 := by
  unfold validHops at h
  split at h
  · split_ifs at h
    cases h
    omega
  · cases h

/-- The threshold is a number from zero to one. -/
theorem validMinCosine_ok {payload : List (String × Value)} {x : PyFloat}
    (h : validMinCosine settings payload = .ok x) : x.inUnit = true := by
  unfold validMinCosine at h
  split at h
  · split_ifs at h with hunit
    cases h
    exact hunit
  · cases h

/-- The limit of a request is positive before the ceiling is applied, and the smaller of the
two afterwards. -/
theorem validLimit_ok {payload : List (String × Value)} {n : ℤ}
    (h : validLimit settings payload = .ok n) : ∃ m, 1 ≤ m ∧ n = min m settings.maxLimit := by
  unfold validLimit at h
  split at h
  · split_ifs at h
    cases h
    exact ⟨_, by omega, rfl⟩
  · cases h

/-- **What a valid request is like.** Only the ceiling of the settings can take its limit
below one. -/
theorem validateRequest_ok {payload : Value} {req : SearchRequest}
    (h : validateRequest settings payload = .ok req) :
    (req.seeds ≠ [] ∧ req.seeds.length ≤ 5) ∧ (1 ≤ req.maxHops ∧ req.maxHops ≤ 3) ∧
      req.minCosine.inUnit = true ∧ ∃ m, 1 ≤ m ∧ req.limit = min m settings.maxLimit := by
  cases payload with
  | dict payload =>
    obtain ⟨seeds, hseeds, h⟩ := Except.of_bind_eq_ok h
    obtain ⟨maxHops, hhops, h⟩ := Except.of_bind_eq_ok h
    obtain ⟨minCosine, hcosine, h⟩ := Except.of_bind_eq_ok h
    obtain ⟨limit, hlimit, h⟩ := Except.of_bind_eq_ok h
    obtain ⟨edgeTypes, -, h⟩ := Except.of_bind_eq_ok h
    cases h
    exact ⟨validSeeds_ok hseeds, validHops_ok hhops, validMinCosine_ok hcosine,
      validLimit_ok hlimit⟩
  | null | bool _ | int _ | float _ | str _ | list _ | collection _ _ => cases h

/-- The defaults pass the checks. -/
example : validateRequest .defaults (.dict [("seed_entities", .list [.str "Lisbon"])]) =
    .ok {
      seeds := ["Lisbon"], maxHops := 2, minCosine := .finite 1 (-1)
      mmrLambda := .finite 3152519739159347 (-52), limit := 10, edgeTypes := []
      includeEpisodes := false } := by
  decide +kernel

end JanusGraph
