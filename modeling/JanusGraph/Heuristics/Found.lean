import JanusGraph.Heuristics.Typed

/-!
# Which data a repair finds

`ExtractedEntitiesRule.repair` takes the first value it can take: a list, another container or
an object under a list key, then one under a class name, then the object itself. So an empty
container under an earlier key hides the items under a later one. Nothing tells a schema from data: an echo of
the schema of the very model, whose `properties` name the list key, becomes an entity.
-/

namespace JanusGraph

variable (py : Builtins)

/-! ## Schemas -/

/-- What the value of a JSON-Schema keyword is made of. -/
inductive Keyword : Type where
  /-- a schema -/
  | schema
  /-- a list of schemas -/
  | schemas
  /-- an object of schemas -/
  | named
  /-- the name of a type, or a list of them -/
  | type
  /-- an annotation or a bound -/
  | other
  deriving DecidableEq

/-- The keywords of JSON Schema. -/
def keyword (key : String) : Option Keyword :=
  if ["items", "additionalItems", "contains", "additionalProperties", "propertyNames", "not", "if",
      "then", "else", "unevaluatedItems", "unevaluatedProperties", "contentSchema"].contains key
    then some .schema
  else if ["allOf", "anyOf", "oneOf", "prefixItems"].contains key then some .schemas
  else if ["properties", "patternProperties", "dependentSchemas", "$defs",
      "definitions"].contains key then some .named
  else if key = "type" then some .type
  else if ["$schema", "$id", "$ref", "$comment", "$anchor", "$dynamicRef", "$dynamicAnchor",
      "$vocabulary", "title", "description", "default", "deprecated", "readOnly", "writeOnly",
      "examples", "const", "enum", "multipleOf", "maximum", "exclusiveMaximum", "minimum",
      "exclusiveMinimum", "maxLength", "minLength", "pattern", "maxItems", "minItems",
      "uniqueItems", "maxContains", "minContains", "maxProperties", "minProperties", "required",
      "dependentRequired", "format", "contentEncoding", "contentMediaType",
      "discriminator"].contains key then some .other
  else none

/-- The name of a JSON type. -/
def isTypeName : Value → Bool
  | .str name =>
    ["object", "array", "string", "integer", "number", "boolean", "null"].contains name
  | _ => false

mutual

/-- A JSON schema: every field is a keyword with a value that it takes. -/
def isSchema : Value → Bool
  | .bool _ => true
  | .dict d => isSchemaDict d
  | .null | .int _ | .float _ | .str _ | .list _ | .collection _ _ => false

/-- Each field, by its keyword. -/
def isSchemaDict : List (String × Value) → Bool
  | [] => true
  | (key, v) :: d =>
    (match keyword key with
      | some .schema => isSchema v
      | some .schemas =>
        match v with
        | .list vs => areSchemas vs
        | _ => false
      | some .named =>
        match v with
        | .dict d => areNamedSchemas d
        | _ => false
      | some .type => isTypeName v || v.listOr.any isTypeName
      | some .other => true
      | none => false) && isSchemaDict d

def areSchemas : List Value → Bool
  | [] => true
  | v :: vs => isSchema v && areSchemas vs

def areNamedSchemas : List (String × Value) → Bool
  | [] => true
  | (_, v) :: d => isSchema v && areNamedSchemas d

end

/-! ## Data -/

/-- An object that is no schema, or a text. -/
def IsEntityItem : Value → Prop
  | .dict d => isSchema (.dict d) = false
  | .str text => text ≠ ""
  | _ => False

/-- An entity item, or a list or another container that holds one. -/
def HoldsItem : Value → Prop
  | .list vs | .collection _ vs => ∃ v ∈ vs, IsEntityItem v
  | v => IsEntityItem v

/-- The fields inside a `properties` wrapper. -/
def wrapped (payload : List (String × Value)) : List (String × Value) :=
  match payload.lookup "properties" with
  | some (.dict inner) => inner
  | _ => []

/-- The payload holds an entity item under a recognised key, by itself or in the wrapper. -/
def EntitySchema.Carries (s : EntitySchema) (payload : List (String × Value)) : Prop :=
  ∃ k ∈ s.listKeys ++ classNameKeys, ∃ v,
    (payload.lookup k = some v ∨ (wrapped payload).lookup k = some v) ∧ HoldsItem v

/-- A payload with an entity item is repaired to some, and the echo of a schema to none. -/
structure FindsData (tooLong : String → Bool) (schemaName : String) (payload : Value) : Prop where
  data : ∀ d, parsedPayload py payload = some (.dict d) → (entitySchema py schemaName).Carries d →
    ∃ items, items ≠ [] ∧ (entitySchema py schemaName).repairText py tooLong payload =
      .ok (.dict [((entitySchema py schemaName).key, .list items)])
  echo : ∀ v, parsedPayload py payload = some v → isSchema v →
    (entitySchema py schemaName).repairText py tooLong payload =
      .ok (.dict [((entitySchema py schemaName).key, .list [])])

/-! ## When it is found -/

/-- There is a value to take, the first one is no empty container, and `ExtractedEntities` can
convert its items. -/
def EntitySchema.Reached (s : EntitySchema) (payload : List (String × Value)) : Prop :=
  ∃ v, (s.candidates (unwrapProperties payload)).head? = some v ∧ elements v ≠ [] ∧
    (s.key = "extracted_entities" → ∀ entity, .dict entity ∈ elements v → EntityFinite entity)

/-- The echo of a schema holds no object under a recognised key, and no field of an entity. -/
structure EntitySchema.Bare (s : EntitySchema) (payload : List (String × Value)) : Prop where
  keys : ∀ k ∈ s.listKeys ++ classNameKeys, ∀ d,
    (unwrapProperties payload).lookup k ≠ some (.dict d)
  markers : ∀ k ∈ singleEntityMarkers, hasKey (unwrapProperties payload) k = false

/-- When a repair finds data and only data. -/
structure DataReached (tooLong : String → Bool) (schemaName : String) (payload : Value) :
    Prop where
  data : ∀ d, parsedPayload py payload = some (.dict d) → (entitySchema py schemaName).Carries d →
    Readable tooLong payload ∧ (entitySchema py schemaName).Reached d
  echo : ∀ v, parsedPayload py payload = some v → isSchema v →
    Readable tooLong payload ∧ ∀ d, v = .dict d → (entitySchema py schemaName).Bare d

variable {py}

/-! ## Schemas hold schemas -/

/-- The values a schema takes for its keywords. -/
theorem isSchemaDict_mem {d : List (String × Value)} {k : String} {v : Value}
    (hd : isSchemaDict d) (hmem : (k, v) ∈ d) :
    keyword k ≠ none ∧ (keyword k = some .schema → isSchema v) ∧
      (keyword k = some .named → ∃ inner, v = .dict inner ∧ areNamedSchemas inner) := by
  induction d with
  | nil => cases hmem
  | cons e d ih =>
    unfold isSchemaDict at hd
    rw [Bool.and_eq_true] at hd
    rcases List.mem_cons.mp hmem with rfl | hmem
    · refine ⟨fun hnone => ?_, fun hschema => ?_, fun hnamed => ?_⟩
      · rw [hnone] at hd
        exact absurd hd.1 Bool.false_ne_true
      · rw [hschema] at hd
        exact hd.1
      · rw [hnamed] at hd
        cases v with
        | dict inner => exact ⟨inner, rfl, hd.1⟩
        | _ => exact absurd hd.1 Bool.false_ne_true
    · exact ih hd.2 hmem

theorem areNamedSchemas_mem {d : List (String × Value)} {k : String} {v : Value}
    (hd : areNamedSchemas d) (hmem : (k, v) ∈ d) : isSchema v := by
  induction d with
  | nil => cases hmem
  | cons e d ih =>
    rw [areNamedSchemas, Bool.and_eq_true] at hd
    rcases List.mem_cons.mp hmem with rfl | hmem
    · exact hd.1
    · exact ih hd.2 hmem

theorem mem_of_lookup {d : List (String × Value)} {k : String} {v : Value}
    (h : d.lookup k = some v) : (k, v) ∈ d := by
  obtain ⟨l₁, l₂, rfl, -⟩ := List.lookup_eq_some_iff.mp h
  exact List.mem_append_right l₁ List.mem_cons_self

theorem mem_setItem {d : List (String × Value)} {k : String} {v : Value} {e : String × Value}
    (h : e ∈ setItem d k v) : e ∈ d ∨ e = (k, v) := by
  unfold setItem at h
  split at h
  · obtain ⟨e', he', rfl⟩ := List.mem_map.mp h
    by_cases hk : e'.1 = k
    · exact .inr (if_pos hk)
    · exact .inl (by rwa [if_neg hk])
  · rcases List.mem_append.mp h with h | h
    · exact .inl h
    · exact .inr (List.mem_singleton.mp h)

theorem mem_mergeDicts {d e : List (String × Value)} {x : String × Value}
    (h : x ∈ mergeDicts d e) : x ∈ d ∨ x ∈ e := by
  unfold mergeDicts at h
  induction e generalizing d with
  | nil => exact .inl h
  | cons y e ih =>
    rcases ih h with h | h
    · refine (mem_setItem h).imp_right fun hx => ?_
      rw [hx]
      exact List.mem_cons_self
    · exact .inr (List.mem_cons_of_mem y h)

/-- Unwrapping makes no fields up. -/
theorem mem_unwrapProperties {payload : List (String × Value)} {e : String × Value}
    (h : e ∈ unwrapProperties payload) : e ∈ payload ∨ e ∈ wrapped payload := by
  have hcases : unwrapProperties payload = payload ∨ unwrapProperties payload =
      mergeDicts (wrapped payload) (payload.filter fun e => e.1 ≠ "properties") := by
    cases hlookup : payload.lookup "properties" with
    | none => exact .inl (by simp only [unwrapProperties, hlookup])
    | some v =>
      cases v with
      | dict inner => exact .inr (by simp only [unwrapProperties, wrapped, hlookup])
      | _ => exact .inl (by simp only [unwrapProperties, hlookup])
  rcases hcases with heq | heq
  · exact .inl (heq ▸ h)
  · rw [heq] at h
    exact (mem_mergeDicts h).symm.imp_left List.mem_of_mem_filter

/-- The properties of a schema are schemas. -/
theorem isSchema_of_wrapped {d : List (String × Value)} {k : String} {v : Value}
    (hd : isSchemaDict d) (hmem : (k, v) ∈ wrapped d) : isSchema v := by
  unfold wrapped at hmem
  split at hmem
  next inner hlookup =>
    obtain ⟨-, -, hnamed⟩ := isSchemaDict_mem hd (mem_of_lookup hlookup)
    obtain ⟨inner, hinner, hschemas⟩ := hnamed (by decide)
    cases hinner
    exact areNamedSchemas_mem hschemas hmem
  next => cases hmem

/-- Of the recognised keys the keywords take a schema. -/
theorem keyword_recognised {schemaName k : String}
    (hk : k ∈ (entitySchema py schemaName).listKeys ++ classNameKeys) :
    keyword k = none ∨ keyword k = some .schema := by
  have hsummaries : ∀ k ∈ (summarizedEntities noBuiltins).listKeys ++ classNameKeys,
      keyword k = none ∨ keyword k = some .schema := by decide
  have hentities : ∀ k ∈ (extractedEntities noBuiltins).listKeys ++ classNameKeys,
      keyword k = none ∨ keyword k = some .schema := by decide
  unfold entitySchema at hk
  split at hk
  · exact hsummaries k hk
  · exact hentities k hk

/-- What a schema holds under a recognised key is a schema. -/
theorem isSchema_of_lookup {schemaName k : String} {d : List (String × Value)} {v : Value}
    (hd : isSchemaDict d) (hk : k ∈ (entitySchema py schemaName).listKeys ++ classNameKeys)
    (hv : (unwrapProperties d).lookup k = some v) : isSchema v := by
  rcases mem_unwrapProperties (mem_of_lookup hv) with hmem | hmem
  · obtain ⟨hnone, hschema, -⟩ := isSchemaDict_mem hd hmem
    exact hschema ((keyword_recognised hk).resolve_left hnone)
  · exact isSchema_of_wrapped hd hmem

/-! ## What a repair returns -/

/-- Every candidate of a schema is an object. -/
theorem EntitySchema.dict_of_mem_candidates {schemaName : String} {d : List (String × Value)}
    (hd : isSchemaDict d) {v : Value}
    (hv : v ∈ (entitySchema py schemaName).candidates (unwrapProperties d)) :
    ∃ e, v = .dict e := by
  have hkey (p : Value → Bool) {k : String}
      (hk : k ∈ (entitySchema py schemaName).listKeys ++ classNameKeys)
      (hp : ∀ w, p w → isContainer w || w.isStr)
      (hw : ((unwrapProperties d).lookup k).filter p = some v) : ∃ e, v = .dict e := by
    obtain ⟨hlookup, hpv⟩ := Option.filter_eq_some_iff.mp hw
    have hschema := isSchema_of_lookup hd hk hlookup
    have hkind := hp v hpv
    cases v with
    | dict e => exact ⟨e, rfl⟩
    | bool b => exact absurd hkind Bool.false_ne_true
    | _ => exact absurd hschema Bool.false_ne_true
  rw [EntitySchema.candidates, List.mem_append, List.mem_append] at hv
  rcases hv with hv | hv | hv
  · obtain ⟨k, hk, hw⟩ := List.mem_filterMap.mp hv
    exact hkey isContainer (List.mem_append_left _ hk) (fun w hw => by rw [hw]; rfl) hw
  · obtain ⟨k, hk, hw⟩ := List.mem_filterMap.mp hv
    exact hkey _ (List.mem_append_right _ hk) (fun _ => id) hw
  · split at hv
    · exact ⟨_, List.mem_singleton.mp hv⟩
    · cases hv

/-- A schema has no candidate exactly if it is bare. -/
theorem EntitySchema.candidates_eq_nil_iff {schemaName : String} {d : List (String × Value)}
    (hd : isSchemaDict d) :
    (entitySchema py schemaName).candidates (unwrapProperties d) = [] ↔
      (entitySchema py schemaName).Bare d := by
  have hfilter {p : Value → Bool} (hp : ∀ e, p (.dict e)) (hbool : ∀ b, p (.bool b) = false)
      {k : String} (hk : k ∈ (entitySchema py schemaName).listKeys ++ classNameKeys) :
      ((unwrapProperties d).lookup k).filter p = none ↔
        ∀ e, (unwrapProperties d).lookup k ≠ some (.dict e) := by
    cases hlookup : (unwrapProperties d).lookup k with
    | none => simp
    | some v =>
      have hschema := isSchema_of_lookup hd hk hlookup
      cases v with
      | dict e => simp [hp]
      | bool b => simp [hbool]
      | _ => exact absurd hschema Bool.false_ne_true
  rw [EntitySchema.candidates, List.append_eq_nil_iff, List.append_eq_nil_iff,
    List.filterMap_eq_nil_iff, List.filterMap_eq_nil_iff]
  constructor
  · rintro ⟨hlist, hclass, hmarkers⟩
    constructor
    · intro k hk
      rcases List.mem_append.mp hk with h | h
      · exact (hfilter (fun _ => rfl) (fun _ => rfl) hk).mp (hlist k h)
      · exact (hfilter (fun _ => rfl) (fun _ => rfl) hk).mp (hclass k h)
    · intro k hk
      by_contra hkey
      rw [if_pos (List.any_eq_true.mpr ⟨k, hk, Bool.of_not_eq_false hkey⟩)] at hmarkers
      cases hmarkers
  · intro h
    refine ⟨fun k hk => ?_, fun k hk => ?_, if_neg ?_⟩
    · have hmem := List.mem_append_left classNameKeys hk
      exact (hfilter (fun _ => rfl) (fun _ => rfl) hmem).mpr (h.keys k hmem)
    · have hmem := List.mem_append_right (entitySchema py schemaName).listKeys hk
      exact (hfilter (fun _ => rfl) (fun _ => rfl) hmem).mpr (h.keys k hmem)
    · rw [List.any_eq_true]
      rintro ⟨k, hk, hkey⟩
      rw [h.markers k hk] at hkey
      cases hkey

/-- An `ExtractedEntities` item can fail its normalisation, a summary cannot. -/
theorem EntitySchema.normalize_ok_iff {schemaName : String} {xs : List Value} :
    (∃ items, xs.mapM (entitySchema py schemaName).normalize = .ok items) ↔
      ((entitySchema py schemaName).key = "extracted_entities" →
        ∀ entity, .dict entity ∈ xs → EntityFinite entity) := by
  unfold entitySchema
  split
  · exact iff_of_true (mapM_ok_of_forall fun _ _ => ⟨_, rfl⟩) fun hkey =>
      absurd hkey (by simp [summarizedEntities])
  · rw [show (extractedEntities py).key = "extracted_entities" from rfl, forall_prop_of_true rfl]
    constructor
    · rintro ⟨items, hitems⟩ entity hentity
      obtain ⟨item, -, hitem⟩ := (exists_of_mapM_ok hitems).1 _ hentity
      have hok : ∃ item, normalizeExtractedEntity py (.dict entity) = .ok item := ⟨item, hitem⟩
      exact (normalizeExtractedEntity_ok_iff py).mp hok entity rfl
    · intro h
      refine mapM_ok_of_forall fun x hx =>
        (normalizeExtractedEntity_ok_iff py).mpr ?_
      rintro entity rfl
      exact h entity hx

theorem EntitySchema.repair_ok_iff {s : EntitySchema} {payload : Value} {items : List Value} :
    s.repair py payload = .ok (.dict [(s.key, .list items)]) ↔
      (s.itemsOf py payload).mapM s.normalize = .ok items := by
  cases hmap : (s.itemsOf py payload).mapM s.normalize with
  | ok vs => simp [EntitySchema.repair_ok hmap]
  | error e => simp [EntitySchema.repair_error hmap]

/-- An object is repaired to some items exactly if it is reached. -/
theorem EntitySchema.repair_some_iff {schemaName : String} {payload : Value}
    {d : List (String × Value)} (hparsed : parsedPayload py payload = some (.dict d)) :
    (∃ items, items ≠ [] ∧ (entitySchema py schemaName).repair py payload =
        .ok (.dict [((entitySchema py schemaName).key, .list items)])) ↔
      (entitySchema py schemaName).Reached d := by
  simp only [EntitySchema.repair_ok_iff, EntitySchema.itemsOf_eq, hparsed, Option.map_some,
    Option.getD_some, EntitySchema.itemsOfParsed, EntitySchema.itemsOfDict_eq,
    EntitySchema.Reached, ← EntitySchema.normalize_ok_iff]
  cases ((entitySchema py schemaName).candidates (unwrapProperties d)).head? with
  | none =>
    refine iff_of_false ?_ (by simp)
    rintro ⟨items, hne, hitems⟩
    exact hne (Except.ok.inj hitems).symm
  | some v =>
    simp only [Option.map_some, Option.getD_some, Option.some.injEq, exists_eq_left']
    constructor
    · rintro ⟨items, hne, hitems⟩
      refine ⟨fun hv => hne ?_, items, hitems⟩
      rw [hv] at hitems
      exact (Except.ok.inj hitems).symm
    · rintro ⟨hv, items, hitems⟩
      refine ⟨items, ?_, hitems⟩
      rintro rfl
      exact hv (List.forall₂_nil_right_iff.mp (mapM_eq_ok.mp hitems))

/-- A schema is repaired to nothing exactly if it is bare. -/
theorem EntitySchema.repair_none_iff {schemaName : String} {payload v : Value}
    (hparsed : parsedPayload py payload = some v) (hschema : isSchema v) :
    (entitySchema py schemaName).repair py payload =
        .ok (.dict [((entitySchema py schemaName).key, .list [])]) ↔
      ∀ d, v = .dict d → (entitySchema py schemaName).Bare d := by
  have hnil : (entitySchema py schemaName).repair py payload =
        .ok (.dict [((entitySchema py schemaName).key, .list [])]) ↔
      (entitySchema py schemaName).itemsOfParsed v = [] := by
    rw [EntitySchema.repair_ok_iff, EntitySchema.itemsOf_eq, hparsed, Option.map_some,
      Option.getD_some]
    exact mapM_eq_ok.trans List.forall₂_nil_right_iff
  rw [hnil]
  cases v with
  | dict d =>
    have hd : isSchemaDict d := hschema
    rw [EntitySchema.itemsOfParsed, EntitySchema.itemsOfDict_eq]
    simp only [Value.dict.injEq, forall_eq', ← EntitySchema.candidates_eq_nil_iff hd]
    cases hhead : (entitySchema py schemaName).candidates (unwrapProperties d) with
    | nil => exact iff_of_true rfl rfl
    | cons w ws =>
      -- the first candidate is an object, so it is taken as an item
      obtain ⟨e, rfl⟩ := EntitySchema.dict_of_mem_candidates hd
        (hhead ▸ List.mem_cons_self : w ∈ _)
      exact iff_of_false (List.cons_ne_nil _ _) (List.cons_ne_nil _ _)
  | bool b => exact iff_of_true rfl (by rintro d ⟨⟩)
  | _ => exact absurd hschema Bool.false_ne_true

/-- The rule finds data and only data exactly if what carries data is reached, and what
echoes a schema is bare. -/
theorem findsData_iff {tooLong : String → Bool} {schemaName : String} {payload : Value} :
    FindsData py tooLong schemaName payload ↔ DataReached py tooLong schemaName payload := by
  have herror (hread : ¬ Readable tooLong payload) (items : List Value) :
      (entitySchema py schemaName).repairText py tooLong payload ≠
        .ok (.dict [((entitySchema py schemaName).key, .list items)]) := by
    rw [EntitySchema.repairText_of_not_readable py _ hread]
    exact nofun
  constructor
  · intro h
    refine ⟨fun d hparsed hcarries => ?_, fun v hparsed hschema => ?_⟩
    · obtain ⟨items, hne, hitems⟩ := h.data d hparsed hcarries
      have hread : Readable tooLong payload := by_contra fun hn => herror hn items hitems
      rw [EntitySchema.repairText_of_readable py _ hread] at hitems
      exact ⟨hread, (EntitySchema.repair_some_iff hparsed).mp ⟨items, hne, hitems⟩⟩
    · have hnone := h.echo v hparsed hschema
      have hread : Readable tooLong payload := by_contra fun hn => herror hn [] hnone
      rw [EntitySchema.repairText_of_readable py _ hread] at hnone
      exact ⟨hread, (EntitySchema.repair_none_iff hparsed hschema).mp hnone⟩
  · intro h
    refine ⟨fun d hparsed hcarries => ?_, fun v hparsed hschema => ?_⟩
    · obtain ⟨hread, hreached⟩ := h.data d hparsed hcarries
      rw [EntitySchema.repairText_of_readable py _ hread]
      exact (EntitySchema.repair_some_iff hparsed).mpr hreached
    · obtain ⟨hread, hbare⟩ := h.echo v hparsed hschema
      rw [EntitySchema.repairText_of_readable py _ hread]
      exact (EntitySchema.repair_none_iff hparsed hschema).mpr hbare

/-- The schema of `ExtractedEntities`. -/
def entitiesSchema : List (String × Value) :=
  [("$defs", .dict [("ExtractedEntity", .dict [
      ("properties", .dict [
        ("name", .dict [("title", .str "Name"), ("type", .str "string")]),
        ("entity_type_id", .dict [("title", .str "Entity Type Id"), ("type", .str "integer")]),
        ("episode_indices", .dict [("items", .dict [("type", .str "integer")]),
          ("title", .str "Episode Indices"), ("type", .str "array")])]),
      ("required", .list [.str "name", .str "entity_type_id"]),
      ("title", .str "ExtractedEntity"), ("type", .str "object")])]),
    ("properties", .dict [("extracted_entities", .dict [
      ("items", .dict [("$ref", .str "#/$defs/ExtractedEntity")]),
      ("title", .str "Extracted Entities"), ("type", .str "array")])]),
    ("required", .list [.str "extracted_entities"]), ("title", .str "ExtractedEntities"),
    ("type", .str "object")]

/-- An entity is made of the schema's own words. -/
theorem not_findsData :
    ¬ ∀ (py : Builtins) (tooLong : String → Bool) (schemaName : String) (payload : Value),
      FindsData py tooLong schemaName payload := by
  intro h
  have hnone := (h noBuiltins (fun _ => false) "ExtractedEntities" (.dict entitiesSchema)).echo
    (.dict entitiesSchema) rfl (by decide)
  have hfabricated : ∃ item, (entitySchema noBuiltins "ExtractedEntities").repairText noBuiltins
      (fun _ => false) (.dict entitiesSchema) =
        .ok (.dict [("extracted_entities", .list [item])]) := ⟨_, by rfl⟩
  obtain ⟨item, hitem⟩ := hfabricated
  rw [hitem] at hnone
  cases hnone

/-- An empty set under the first key hides the entity under another, as an empty list does. -/
example : (extractedEntities noBuiltins).itemsOfDict
    [("extracted_entities", .collection .set []), ("entities", .list [untyped "Bob"])] = [] := by
  rfl

/-- The item of a set under a class name is kept. -/
example : (summarizedEntities noBuiltins).itemsOfDict
    [("SummarizedEntity", .collection .set [.str "one item"])] = [.str "one item"] := by rfl

end JanusGraph
