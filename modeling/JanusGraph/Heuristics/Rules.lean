import JanusGraph.Lib.Python

/-!
# The repair rules

`heuristics/rules`: each rule turns the value that failed a schema into a payload
of that schema. `ExtractedEntitiesRule` serves two schemas, which differ in the
output key, the container keys and the normaliser (`EntitySchema`);
`ExtractedEdgesRule` and `NodeResolutionsRule` move a list under the schema's key
and share one body (`rewrap`).

A `return {default_key: []}` of the source is its `done([])`.
-/

namespace JanusGraph

variable (py : Builtins)

/-- `{**payload["properties"], **rest}`, when `properties` is a dict. -/
def unwrapProperties (payload : List (String × Value)) : List (String × Value) :=
  match payload.lookup "properties" with
  | some (.dict inner) => mergeDicts inner (payload.filter fun e => e.1 ≠ "properties")
  | _ => payload

/-! ## Entities and summaries -/

/-- `_coerce_indices` -/
def coerceIndices : Value → Except PyError (List ℤ)
  | .list vs => do
    let out := (← vs.mapM py.tryInt).reduceOption
    return if out.isEmpty then [0] else out
  | .bool _ => return [0]
  | .int n => return [n]
  | .float x => return [← py.int (.float x)]
  | v => do
    match ← py.tryInt v with
    | some n => return [n]
    | none => return [0]

/-- `entity_type_id` as `_normalize_extracted_entity` leaves it. -/
def coerceTypeId (out : List (String × Value)) : Except PyError (List (String × Value)) :=
  match out.lookup "entity_type_id" with
  | none | some .null | some (.bool _) => return setItem out "entity_type_id" (.int 0)
  | some (.int _) => return out
  | some v => return setItem out "entity_type_id" (.int ((← py.tryInt v).getD 0))

/-- `if not out.get(key): out[key] = default` -/
def defaultItem (out : List (String × Value)) (key : String) (default : Value) :
    List (String × Value) :=
  if ((out.lookup key).getD .null).truthy then out else setItem out key default

/-- `_normalize_extracted_entity` -/
def normalizeExtractedEntity : Value → Except PyError Value
  | .dict entity => do
    let out ← coerceTypeId py entity
    let indices ← coerceIndices py ((out.lookup "episode_indices").getD (.list [.int 0]))
    let out := setItem out "episode_indices" (.list (indices.map .int))
    return .dict (defaultItem out "name" (.str "<unnamed>"))
  | entity =>
    return .dict [("name", .str (py.str entity)), ("entity_type_id", .int 0),
      ("episode_indices", .list [.int 0])]

/-- `_normalize_summarized_entity` -/
def normalizeSummarizedEntity : Value → Value
  | .dict entity =>
    .dict (defaultItem (defaultItem entity "name" (.str "<unnamed>")) "summary" (.str ""))
  | .null => .dict [("name", .str "<unnamed>"), ("summary", .str "")]
  | entity => .dict [("name", .str "<unnamed>"), ("summary", .str (py.str entity))]

/-- What `ExtractedEntitiesRule` reads off the schema's name. -/
structure EntitySchema : Type where
  /-- `default_key` -/
  key : String
  /-- the keys of `_find_container` -/
  listKeys : List String
  normalize : Value → Except PyError Value

/-- `ExtractedEntities` -/
def extractedEntities : EntitySchema where
  key := "extracted_entities"
  listKeys := ["extracted_entities", "entities", "node_list", "extracted", "items"]
  normalize := normalizeExtractedEntity py

/-- `SummarizedEntities` -/
def summarizedEntities : EntitySchema where
  key := "summaries"
  listKeys := ["summaries", "summarized_entities", "summary_list", "items"]
  normalize v := return normalizeSummarizedEntity py v

/-- The one of the two that `repair` picks by `schema_name`. -/
def entitySchema (schemaName : String) : EntitySchema :=
  if schemaName = "SummarizedEntities" then summarizedEntities py else extractedEntities py

/-- `_CLASS_NAME_KEYS` -/
def classNameKeys : List String :=
  ["SummarizedEntity", "ExtractedEntity", "SummarizedEntities", "ExtractedEntities"]

/-- `_SINGLE_ENTITY_MARKERS` -/
def singleEntityMarkers : List String := ["name", "summary", "entity_type", "entity_type_id"]

/-- `_find_container` -/
def findContainer (payload : List (String × Value)) (keys : List String) : Option (List Value) :=
  keys.findSome? fun srcKey =>
    match payload.lookup srcKey with
    | some (.list vs) => some vs
    | some (.dict d) => some [.dict d]
    | some (.collection _ vs) => some vs
    | _ => none

/-- The class-name wrappers of step 6. -/
def findClassName (payload : List (String × Value)) : Option (List Value) :=
  classNameKeys.findSome? fun clsKey =>
    match payload.lookup clsKey with
    | some (.list vs) => some vs
    | some (.dict d) => some [.dict d]
    | some (.str s) => some [.str s]
    | some (.collection _ vs) => some vs
    | _ => none

/-- Steps 4 to 8: what `repair` hands to `done` for a dict. -/
def EntitySchema.itemsOfDict (s : EntitySchema) (payload : List (String × Value)) : List Value :=
  let payload := unwrapProperties payload
  match findContainer payload s.listKeys with
  | some items => items
  | none =>
    match findClassName payload with
    | some items => items
    | none => if singleEntityMarkers.any (hasKey payload) then [.dict payload] else []

/-- Steps 2 to 8. -/
def EntitySchema.itemsOfParsed (s : EntitySchema) : Value → List Value
  | .list vs => vs
  | .dict payload => s.itemsOfDict payload
  | _ => []

/-- What `repair` hands to `done`. -/
def EntitySchema.itemsOf (s : EntitySchema) : Value → List Value
  | .str payload =>
    let stripped := strip payload
    if stripped.startsWith "\x7b" || stripped.startsWith "[" then
      match py.loads stripped with
      | some parsed => s.itemsOfParsed parsed
      | none => []
    else []
  | payload => s.itemsOfParsed payload

/-- `ExtractedEntitiesRule.repair` -/
def EntitySchema.repair (s : EntitySchema) (payload : Value) : Except PyError Value := do
  return .dict [(s.key, .list (← (s.itemsOf py payload).mapM s.normalize))]

/-! ## Edges and node resolutions -/

/-- The body `ExtractedEdgesRule.repair` and `NodeResolutionsRule.repair` share;
`single` recognises a bare item. -/
def rewrap (key : String) (aliases : List String) (single : List (String × Value) → Bool) :
    Value → Value
  | .list items => .dict [(key, .list items)]
  | .dict payload =>
    let payload := unwrapProperties payload
    match payload.lookup key with
    | some val => .dict [(key, .list val.listOr)]
    | none =>
      match aliases.find? (hasKey payload) with
      | some srcKey =>
        .dict (mergeDicts [(key, .list ((payload.lookup srcKey).getD .null).listOr)]
          (payload.filter fun e => e.1 ≠ srcKey))
      | none => .dict [(key, .list (if single payload then [.dict payload] else []))]
  | _ => .dict [(key, .list [])]

/-- `ExtractedEdgesRule.repair` -/
def repairExtractedEdges : Value → Value :=
  rewrap "edges" ["facts", "fact_triples", "edges_list", "relations"] fun _ => false

/-- `NodeResolutionsRule.repair` -/
def repairNodeResolutions : Value → Value :=
  rewrap "entity_resolutions" ["resolutions", "dedupe_results", "nodes", "node_resolutions"]
    fun payload => hasKey payload "id" && hasKey payload "name"

/-! ## Edge duplicates -/

/-- The words `_sanitize_int_list` reads as an empty list. -/
def emptyWords : List String := ["none", "null", "empty", "[]", "n/a", "no", "false"]

/-- `_sanitize_int_list`; a boolean is an `int` and stays one. -/
def sanitizeIntList : Value → Except PyError (List Value)
  | .null => return []
  | .bool b => return [.bool b]
  | .int n => return [.int n]
  | .list vs | .collection .tuple vs | .collection .set vs => do
    let res ← (vs.filter fun | .null => false | _ => true).mapM py.tryInt
    return res.reduceOption.map .int
  | .float x => return [.int (← py.int (.float x))]
  | .str val =>
    let clean := stripWhere (fun c => "[]()\x7b\x7d\x22\x27 ".toList.contains c) val
    if clean.isEmpty || emptyWords.contains clean.toLower then return []
    else
      let parts := (clean.replace ";" ",").splitOn "," |>.map strip |>.filter (· ≠ "")
      return (parts.filterMap py.parseInt).map .int
  | .dict _ | .collection .frozenset _ => return []

/-- The value of the first key present, `None` without one. -/
def firstOf (payload : List (String × Value)) (keys : List String) : Value :=
  (keys.findSome? fun k => payload.lookup k).getD .null

/-- `EdgeDuplicateRule.repair` -/
def repairEdgeDuplicate : Value → Except PyError Value
  | .dict payload => do
    let payload := unwrapProperties payload
    let dups ← sanitizeIntList py (firstOf payload ["duplicate_facts", "duplicate_indices",
      "duplicates", "dup_idx", "duplicate_fact_ids", "duplicate_ids"])
    let contras ← sanitizeIntList py (firstOf payload ["contradicted_facts",
      "contradicted_indices", "contradictions", "contra_idx", "contradicted_fact_ids",
      "contradicted_ids"])
    return .dict [("duplicate_facts", .list dups), ("contradicted_facts", .list contras)]
  | _ => return .dict [("duplicate_facts", .list []), ("contradicted_facts", .list [])]

/-! ## The registry -/

/-- A `HeuristicRule`; `canRepair` goes by the schema's name alone. -/
structure Rule : Type where
  name : String
  targetSchemaNames : List String
  priority : ℕ
  /-- `repair(schema_name, payload)` -/
  repair : String → Value → Except PyError Value

/-- `EdgeDuplicateRule` -/
def edgeDuplicateRule : Rule where
  name := "edge_duplicate"
  targetSchemaNames := ["EdgeDuplicate"]
  priority := 10
  repair _ := repairEdgeDuplicate py

/-- `ExtractedEdgesRule` -/
def extractedEdgesRule : Rule where
  name := "extracted_edges"
  targetSchemaNames := ["ExtractedEdges"]
  priority := 20
  repair _ payload := return repairExtractedEdges payload

/-- `ExtractedEntitiesRule` -/
def extractedEntitiesRule : Rule where
  name := "extracted_entities"
  targetSchemaNames := ["ExtractedEntities", "SummarizedEntities"]
  priority := 30
  repair schemaName := (entitySchema py schemaName).repair py

/-- `NodeResolutionsRule` -/
def nodeResolutionsRule : Rule where
  name := "node_resolutions"
  targetSchemaNames := ["NodeResolutions", "EntityResolutions"]
  priority := 40
  repair _ payload := return repairNodeResolutions payload

/-- `_register_default_rules` -/
def defaultRules : List Rule :=
  [edgeDuplicateRule py, extractedEdgesRule, extractedEntitiesRule py, nodeResolutionsRule]

/-- `HeuristicRegistry`: the rule names `active_rules` leaves on, all of them for `None`. -/
structure HeuristicRegistry : Type where
  activeRules : Option (List String)

/-- `name in self._active_rule_names` -/
def HeuristicRegistry.isActive (registry : HeuristicRegistry) (name : String) : Bool :=
  match registry.activeRules with
  | none => true
  | some names => names.contains name

/-- `get_rules` -/
def HeuristicRegistry.getRules (registry : HeuristicRegistry) : List Rule :=
  ((defaultRules py).filter fun rule => registry.isActive rule.name).mergeSort
    fun a b => a.priority ≤ b.priority

/-- `find_rule` -/
def HeuristicRegistry.findRule (registry : HeuristicRegistry) (schemaName : String) :
    Option Rule :=
  (registry.getRules py).find? fun rule => rule.targetSchemaNames.contains schemaName

/-- The default rules are registered in the order of their priorities. -/
theorem HeuristicRegistry.getRules_eq (registry : HeuristicRegistry) :
    registry.getRules py = (defaultRules py).filter fun rule => registry.isActive rule.name := by
  refine List.mergeSort_of_pairwise (List.Pairwise.filter _ ?_)
  simp [defaultRules, edgeDuplicateRule, extractedEdgesRule, extractedEntitiesRule,
    nodeResolutionsRule]

end JanusGraph
