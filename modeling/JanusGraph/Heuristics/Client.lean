import JanusGraph.Heuristics.Rules
import Mathlib.Data.List.Forall2

/-!
# The repairing client

`SchemaRepairingLLMClient.generate_response` works from the first validation
error alone. The response models are pydantic classes of another package, so the
fields of an item are a parameter; of the errors only `errors()[0]["input"]` is
read: the sub-value of the wrong type, or the enclosing object when a required
field is missing.
-/

namespace JanusGraph

variable (py : Builtins)

/-! ## Response models -/

/-- A field of a pydantic model. -/
structure ModelField : Type where
  name : String
  required : Bool
  /-- the first sub-value of the wrong type, `none` for a value of the field's type -/
  offending : Value → Option Value

/-- `errors()[0]["input"]` of an object; `none` when it validates. -/
def offendingObject (fields : List ModelField) : Value → Option Value
  | .dict d => fields.findSome? fun f =>
    match d.lookup f.name with
    | some v => f.offending v
    | none => if f.required then some (.dict d) else none
  | v => some v

/-- `errors()[0]["input"]` of a list of objects. -/
def offendingList (fields : List ModelField) : Value → Option Value
  | .list vs => vs.findSome? (offendingObject fields)
  | v => some v

/-- A `response_model`: its `__name__` and fields. -/
structure ResponseModel : Type where
  name : String
  fields : List ModelField

/-- `model_validate` -/
def ResponseModel.offending (model : ResponseModel) : Value → Option Value :=
  offendingObject model.fields

/-! ## The client -/

/-- What `generate_response` raises. -/
inductive Failure : Type where
  /-- a `ValidationError` with its first input -/
  | validationError : Value → Failure
  /-- an exception out of a rule -/
  | python : PyError → Failure

/-- `generate_response`, from the inner client's response on. -/
def generateResponse (registry : HeuristicRegistry) (responseModel : Option ResponseModel)
    (response : Value) : Except Failure Value :=
  match responseModel with
  | none => .ok response
  | some model =>
    match model.offending response with
    | none => .ok response
    | some rawInput =>
      match registry.findRule py model.name with
      | none => .error (.validationError rawInput)
      | some rule =>
        match rule.repair model.name rawInput with
        | .error e => .error (.python e)
        | .ok repaired =>
          -- the repaired payload has to parse
          match model.offending repaired with
          | none => .ok repaired
          | some v => .error (.validationError v)

/-! ## The schemas that carry a list -/

/-- The schemas whose payload is one list of objects. -/
inductive ListSchema : Type where
  | extractedEntities | summarizedEntities | extractedEdges
  deriving DecidableEq

namespace ListSchema

/-- `__name__` -/
def name : ListSchema → String
  | extractedEntities => "ExtractedEntities"
  | summarizedEntities => "SummarizedEntities"
  | extractedEdges => "ExtractedEdges"

/-- The schema's own key. -/
def key : ListSchema → String
  | extractedEntities => "extracted_entities"
  | summarizedEntities => "summaries"
  | extractedEdges => "edges"

/-- The model, for the fields of an item. -/
def model (s : ListSchema) (item : List ModelField) : ResponseModel :=
  ⟨s.name, [⟨s.key, true, offendingList item⟩]⟩

/-- The rule that serves the schema. -/
def rule : ListSchema → Rule
  | extractedEntities => extractedEntitiesRule py
  | summarizedEntities => extractedEntitiesRule py
  | extractedEdges => extractedEdgesRule

/-- What the rule does to one item; edges stay as they are. -/
def normalize : ListSchema → Value → Except PyError Value
  | extractedEntities => normalizeExtractedEntity py
  | summarizedEntities => fun v => .ok (normalizeSummarizedEntity py v)
  | extractedEdges => fun v => .ok v

/-- The edges `ExtractedEdgesRule` finds in a value. -/
def edgesOf : Value → List Value
  | .list edges => edges
  | .dict payload =>
    (firstOf (unwrapProperties payload)
      ["edges", "facts", "fact_triples", "edges_list", "relations"]).listOr
  | _ => []

/-- The items the rule finds in a value. -/
def itemsOf : ListSchema → Value → List Value
  | extractedEntities => (JanusGraph.extractedEntities py).itemsOf py
  | summarizedEntities => (JanusGraph.summarizedEntities py).itemsOf py
  | extractedEdges => edgesOf

end ListSchema

/-- The rule of a list schema is found exactly when it is active. -/
theorem findRule_list (registry : HeuristicRegistry) (s : ListSchema) :
    registry.findRule py s.name =
      if registry.isActive (s.rule py).name then some (s.rule py) else none := by
  rw [HeuristicRegistry.findRule, HeuristicRegistry.getRules_eq, List.find?_filter]
  cases s <;>
    simp [defaultRules, ListSchema.name, ListSchema.rule, edgeDuplicateRule, extractedEdgesRule,
      extractedEntitiesRule, nodeResolutionsRule, List.find?_cons] <;>
    split <;> simp_all

/-- Setting another key leaves a key alone. -/
theorem lookup_setItem_ne {d : List (String × Value)} {k k' : String} {v : Value} (h : k ≠ k') :
    (setItem d k' v).lookup k = d.lookup k := by
  have hk : (k == k') = false := by simpa using h
  unfold setItem
  split
  · clear * - hk h
    induction d with
    | nil => rfl
    | cons e d ih =>
      obtain ⟨a, b⟩ := e
      by_cases ha : a = k'
      · simp [List.lookup_cons, ha, hk, ih]
      · simp [List.lookup_cons, ha, ih]
  · simp [List.lookup_append, List.lookup_cons, hk]

/-- Keys the second dict does not hold are the first one's. -/
theorem lookup_mergeDicts {d e : List (String × Value)} {k : String} (h : ∀ x ∈ e, x.1 ≠ k) :
    (mergeDicts d e).lookup k = d.lookup k := by
  unfold mergeDicts
  induction e generalizing d with
  | nil => rfl
  | cons x e ih =>
    rw [List.foldl_cons, ih fun y hy => h y (List.mem_cons_of_mem x hy)]
    exact lookup_setItem_ne (h x List.mem_cons_self).symm

/-! ## What a repair returns -/

/-- The list under a key of a payload. -/
def itemsUnder (key : String) : Value → List Value
  | .dict d => ((d.lookup key).getD .null).listOr
  | _ => []

/-- Looking for the first key with a value is looking for the first key present. -/
theorem findSome?_lookup (payload : List (String × Value)) (keys : List String) :
    (keys.findSome? fun k => payload.lookup k) =
      (keys.find? (hasKey payload)).bind fun k => payload.lookup k := by
  induction keys with
  | nil => rfl
  | cons k keys ih =>
    rw [List.findSome?_cons, List.find?_cons, ih]
    cases h : payload.lookup k <;> simp [hasKey, h]

/-- The edges rule returns the edges it finds under the schema's key. -/
theorem repairExtractedEdges_eq (v : Value) :
    ∃ d, repairExtractedEdges v = .dict d ∧
      d.lookup "edges" = some (.list (ListSchema.edgesOf v)) := by
  cases v with
  | dict payload =>
    simp only [repairExtractedEdges, rewrap, ListSchema.edgesOf, firstOf]
    generalize unwrapProperties payload = payload
    rw [List.findSome?_cons]
    cases hl : payload.lookup "edges" with
    | some val => exact ⟨_, rfl, by simp⟩
    | none =>
      have hne : ∀ x ∈ payload, x.1 ≠ "edges" := fun x hx =>
        Ne.symm (bne_iff_ne.mp (List.lookup_eq_none_iff.mp hl x hx))
      simp only [findSome?_lookup]
      cases hf : ["facts", "fact_triples", "edges_list", "relations"].find? (hasKey payload) with
      | none => exact ⟨_, rfl, by simp [Value.listOr]⟩
      | some srcKey =>
        refine ⟨_, rfl, ?_⟩
        rw [lookup_mergeDicts fun x hx => hne x (List.mem_of_mem_filter hx)]
        simp
  | _ => exact ⟨_, rfl, by simp [ListSchema.edgesOf]⟩

variable {py} {registry : HeuristicRegistry} {s : ListSchema} {item : List ModelField}

/-- A list is mapped without an error item by item. -/
theorem mapM_eq_ok {α β ε : Type} {f : α → Except ε β} {xs : List α} {ys : List β} :
    xs.mapM f = .ok ys ↔ List.Forall₂ (fun x y => f x = .ok y) xs ys := by
  induction xs generalizing ys with
  | nil => simp [pure, Except.pure, eq_comm]
  | cons x xs ih =>
    rw [List.mapM_cons, List.forall₂_cons_left_iff]
    cases hx : f x with
    | error e => simp [bind, Except.bind]
    | ok y =>
      cases hxs : xs.mapM f with
      | error e => simp [bind, Except.bind, ← ih, hxs]
      | ok ys' => simp [bind, Except.bind, pure, Except.pure, ← ih, hxs, eq_comm]

theorem exists_of_mapM_ok {α β ε : Type} {f : α → Except ε β} {xs : List α} {ys : List β}
    (h : xs.mapM f = .ok ys) :
    (∀ x ∈ xs, ∃ y ∈ ys, f x = .ok y) ∧ ∀ y ∈ ys, ∃ x ∈ xs, f x = .ok y := by
  have h₂ := mapM_eq_ok.mp h
  clear h
  induction h₂ with
  | nil => simp
  | cons hxy _ ih =>
    simp only [List.mem_cons, forall_eq_or_imp, exists_eq_or_imp]
    exact ⟨⟨.inl hxy, fun x hx => .inr (ih.1 x hx)⟩, .inl hxy, fun y hy => .inr (ih.2 y hy)⟩

theorem mapM_ok_of_forall {α β ε : Type} {f : α → Except ε β} {xs : List α}
    (h : ∀ x ∈ xs, ∃ y, f x = .ok y) : ∃ ys, xs.mapM f = .ok ys := by
  induction xs with
  | nil => exact ⟨[], rfl⟩
  | cons x xs ih =>
    obtain ⟨y, hy⟩ := h x List.mem_cons_self
    obtain ⟨ys, hys⟩ := ih fun x' hx' => h x' (List.mem_cons_of_mem x hx')
    exact ⟨y :: ys, mapM_eq_ok.mpr (.cons hy (mapM_eq_ok.mp hys))⟩

theorem EntitySchema.repair_ok {s : EntitySchema} {v : Value} {os : List Value}
    (h : (s.itemsOf py v).mapM s.normalize = .ok os) :
    s.repair py v = .ok (.dict [(s.key, .list os)]) := by
  rw [EntitySchema.repair, h]
  rfl

theorem EntitySchema.repair_error {s : EntitySchema} {v : Value} {e : PyError}
    (h : (s.itemsOf py v).mapM s.normalize = .error e) : s.repair py v = .error e := by
  rw [EntitySchema.repair, h]
  rfl

/-- Edges are not normalised. -/
theorem mapM_normalize_edges (vs : List Value) :
    vs.mapM (ListSchema.normalize py .extractedEdges) = .ok vs :=
  mapM_eq_ok.mpr (List.forall₂_same.mpr fun _ _ => rfl)

/-- The repair of a list schema normalises the items it finds, and puts them under
the schema's key. -/
theorem repair_ok {v : Value} {os : List Value}
    (h : (s.itemsOf py v).mapM (s.normalize py) = .ok os) :
    ∃ d, (s.rule py).repair s.name v = .ok (.dict d) ∧ d.lookup s.key = some (.list os) := by
  cases s with
  | extractedEntities =>
    exact ⟨_, EntitySchema.repair_ok (s := extractedEntities py) h, by rfl⟩
  | summarizedEntities =>
    exact ⟨_, EntitySchema.repair_ok (s := summarizedEntities py) h, by rfl⟩
  | extractedEdges =>
    obtain rfl : ListSchema.edgesOf v = os :=
      Except.ok.inj ((mapM_normalize_edges _).symm.trans h)
    obtain ⟨d, hd, hk⟩ := repairExtractedEdges_eq v
    exact ⟨d, congrArg Except.ok hd, hk⟩

/-- A repair that cannot normalise an item raises. -/
theorem repair_error {v : Value} {e : PyError}
    (h : (s.itemsOf py v).mapM (s.normalize py) = .error e) :
    (s.rule py).repair s.name v = .error e := by
  cases s with
  | extractedEntities => exact EntitySchema.repair_error (s := extractedEntities py) h
  | summarizedEntities => exact EntitySchema.repair_error (s := summarizedEntities py) h
  | extractedEdges => exact absurd ((mapM_normalize_edges _).symm.trans h) (by simp)

/-- An object validates against a list schema as far as its list does. -/
theorem model_offending {d : List (String × Value)} {vs : List Value}
    (h : d.lookup s.key = some (.list vs)) :
    (s.model item).offending (.dict d) = vs.findSome? (offendingObject item) := by
  simp [ListSchema.model, ResponseModel.offending, offendingObject, h, offendingList]

/-! ## What a repair keeps -/

/-- Every item is in the payload, as it was or normalised. -/
def KeepsItems (py : Builtins) (s : ListSchema) (payload : Value) (items : List Value) : Prop :=
  ∀ e ∈ items, ∃ o ∈ itemsUnder s.key payload, o = e ∨ s.normalize py e = .ok o

/-- Whatever payload the client returns for the response keeps every item. -/
def RepairKeeps (py : Builtins) (registry : HeuristicRegistry) (s : ListSchema)
    (item : List ModelField) (response : Value) (items : List Value) : Prop :=
  ∀ payload, generateResponse py registry (some (s.model item)) response = .ok payload →
    KeepsItems py s payload items

/-- The normaliser makes an item of the value that validates. -/
def Mendable (py : Builtins) (s : ListSchema) (item : List ModelField) (x : Value) : Prop :=
  ∃ o, s.normalize py x = .ok o ∧ offendingObject item o = none

/-- The value stands for the item: normalised, it is the item or the item normalised. -/
def StandsFor (py : Builtins) (s : ListSchema) (x e : Value) : Prop :=
  s.normalize py x = .ok e ∨ s.normalize py x = s.normalize py e

/-- When a repair loses nothing: the response validates, or the rule is off, or what
the rule reads in the first offending input cannot be mended, or it stands for all the
items of the list. Edges, which are not normalised, never come to the last. -/
def Spared (py : Builtins) (registry : HeuristicRegistry) (s : ListSchema)
    (item : List ModelField) (items : List Value) : Prop :=
  ∀ rawInput, items.findSome? (offendingObject item) = some rawInput →
    registry.isActive (s.rule py).name →
      (∃ x ∈ s.itemsOf py rawInput, ¬ Mendable py s item x) ∨
        s ≠ .extractedEdges ∧ ∀ e ∈ items, ∃ x ∈ s.itemsOf py rawInput, StandsFor py s x e

section

variable {entries : List (String × Value)} {items : List Value} {rawInput : Value}

/-- A response that fails comes back as the normalised items found in its first
offending input, when these validate. -/
theorem generateResponse_ok_iff (hitems : entries.lookup s.key = some (.list items))
    (hraw : items.findSome? (offendingObject item) = some rawInput)
    (hon : registry.isActive (s.rule py).name) {os : List Value} :
    (∃ payload, generateResponse py registry (some (s.model item)) (.dict entries) = .ok payload ∧
        itemsUnder s.key payload = os) ↔
      (s.itemsOf py rawInput).mapM (s.normalize py) = .ok os ∧
        os.findSome? (offendingObject item) = none := by
  have hname : (s.model item).name = s.name := rfl
  have hrule : registry.findRule py s.name = some (s.rule py) :=
    (findRule_list py registry s).trans (if_pos hon)
  simp only [generateResponse, model_offending hitems, hraw, hrule, hname]
  cases hos : (s.itemsOf py rawInput).mapM (s.normalize py) with
  | error e => simp [repair_error hos]
  | ok os' =>
    obtain ⟨d, hd, hk⟩ := repair_ok hos
    simp only [hd, model_offending hk]
    cases hv : os'.findSome? (offendingObject item) with
    | some v =>
      simp only [reduceCtorEq, false_and, exists_false, Except.ok.injEq, false_iff, not_and]
      rintro rfl
      simp [hv]
    | none =>
      simp only [Except.ok.injEq, exists_eq_left', itemsUnder, hk, Option.getD_some, Value.listOr]
      exact ⟨fun h => ⟨h, h ▸ hv⟩, And.left⟩

/-- The repair keeps exactly the lists that are spared. -/
theorem repairKeeps_iff (hitems : entries.lookup s.key = some (.list items)) :
    RepairKeeps py registry s item (.dict entries) items ↔ Spared py registry s item items := by
  cases hraw : items.findSome? (offendingObject item) with
  | none =>
    refine iff_of_true ?_ fun _ h => absurd (hraw.symm.trans h) (by simp)
    intro payload hpay e he
    obtain rfl : Value.dict entries = payload := by
      simpa [generateResponse, model_offending hitems, hraw] using hpay
    exact ⟨e, by simpa [itemsUnder, hitems, Value.listOr] using he, .inl rfl⟩
  | some rawInput =>
    by_cases hon : registry.isActive (s.rule py).name
    · constructor
      · intro hkeep raw hraw' _
        obtain rfl : rawInput = raw := Option.some.inj (hraw.symm.trans hraw')
        by_cases hmend : ∀ x ∈ s.itemsOf py rawInput, Mendable py s item x
        · right
          obtain ⟨os, hos⟩ := mapM_ok_of_forall fun x hx => (hmend x hx).imp fun _ => And.left
          obtain ⟨-, hback⟩ := exists_of_mapM_ok hos
          have hvalid : ∀ o ∈ os, offendingObject item o = none := by
            intro o ho
            obtain ⟨x, hx, hxo⟩ := hback o ho
            obtain ⟨o', hxo', hv⟩ := hmend x hx
            exact Except.ok.inj (hxo.symm.trans hxo') ▸ hv
          obtain ⟨payload, hpay, rfl⟩ := (generateResponse_ok_iff hitems hraw hon).mpr
            ⟨hos, List.findSome?_eq_none_iff.mpr hvalid⟩
          have hkept := hkeep payload hpay
          constructor
          · -- the first faulty edge would have to validate
            rintro rfl
            obtain ⟨f, hf, hbad⟩ := List.exists_of_findSome?_eq_some hraw
            obtain ⟨o, ho, hfo⟩ := hkept f hf
            obtain rfl : o = f := hfo.elim id fun h => (Except.ok.inj h).symm
            exact absurd ((hvalid o ho).symm.trans hbad) (by simp)
          · intro e he
            obtain ⟨o, ho, heo⟩ := hkept e he
            obtain ⟨x, hx, hxo⟩ := hback o ho
            rcases heo with rfl | h
            · exact ⟨x, hx, .inl hxo⟩
            · exact ⟨x, hx, .inr (hxo.trans h.symm)⟩
        · exact .inl (by simpa using hmend)
      · intro hspared payload hpay e he
        obtain ⟨hos, hvalid⟩ := (generateResponse_ok_iff hitems hraw hon).mp ⟨payload, hpay, rfl⟩
        obtain ⟨hfwd, -⟩ := exists_of_mapM_ok hos
        rw [List.findSome?_eq_none_iff] at hvalid
        rcases hspared rawInput hraw hon with ⟨x, hx, hbad⟩ | ⟨-, hcover⟩
        · obtain ⟨o, ho, hxo⟩ := hfwd x hx
          exact absurd ⟨o, hxo, hvalid o ho⟩ hbad
        · obtain ⟨x, hx, hxe⟩ := hcover e he
          obtain ⟨o, ho, hxo⟩ := hfwd x hx
          refine ⟨o, ho, hxe.imp (fun h => ?_) fun h => ?_⟩
          · exact Except.ok.inj (hxo.symm.trans h)
          · exact h.symm.trans hxo
    · refine iff_of_true (fun payload hpay => ?_) fun _ _ h => absurd h hon
      have hrule : registry.findRule py (s.model item).name = none :=
        (findRule_list py registry s).trans (if_neg hon)
      simp [generateResponse, model_offending hitems, hraw, hrule] at hpay

end

/-! ## An entity that goes missing -/

/-- A required field of one type, with the test for it. -/
def scalarField (name : String) (accepts : Value → Bool) : ModelField :=
  ⟨name, true, fun v => if accepts v then none else some v⟩

/-- The fields of `ExtractedEntity`. -/
def entityFields : List ModelField :=
  [scalarField "name" Value.isStr, scalarField "entity_type_id" Value.isInt,
    ⟨"episode_indices", false, fun | .list vs => vs.find? (!·.isInt) | v => some v⟩]

/-- Built-ins that parse nothing. -/
def noBuiltins : Builtins := ⟨fun _ => none, fun _ => "", fun _ => none⟩

/-- An entity without its type. -/
def untyped (name : String) : Value := .dict [("name", .str name)]

/-- An entity of type 0. -/
def typed (name : String) : Value := .dict [("name", .str name), ("entity_type_id", .int 0)]

/-- Either of them, normalised. -/
def normalized (name : String) : Value :=
  .dict [("name", .str name), ("entity_type_id", .int 0), ("episode_indices", .list [.int 0])]

/-- A list of one entity that lacks its type is repaired. -/
theorem repairKeeps_one :
    RepairKeeps noBuiltins ⟨none⟩ .extractedEntities entityFields
      (.dict [("extracted_entities", .list [untyped "Bob"])]) [untyped "Bob"] := by
  refine (repairKeeps_iff (by rfl)).mpr fun rawInput hraw _ => .inr ⟨by decide, ?_⟩
  obtain rfl : untyped "Bob" = rawInput := Option.some.inj hraw
  intro e he
  obtain rfl := List.mem_singleton.mp he
  exact ⟨untyped "Bob", List.mem_singleton.mpr rfl, .inr rfl⟩

/-- A repair loses items: of two entities, the one without a type stays alone. -/
theorem not_repairKeeps :
    ¬ ∀ (py : Builtins) (registry : HeuristicRegistry) (s : ListSchema) (item : List ModelField)
        (entries : List (String × Value)) (items : List Value),
      entries.lookup s.key = some (.list items) →
        RepairKeeps py registry s item (.dict entries) items := by
  intro h
  have hitems : [("extracted_entities", Value.list [typed "Alice", untyped "Bob"])].lookup
      ListSchema.extractedEntities.key = some (.list [typed "Alice", untyped "Bob"]) := by rfl
  have hgen : ∃ payload, generateResponse noBuiltins ⟨none⟩
      (some (ListSchema.extractedEntities.model entityFields))
        (.dict [("extracted_entities", .list [typed "Alice", untyped "Bob"])]) = .ok payload ∧
      itemsUnder ListSchema.extractedEntities.key payload = [normalized "Bob"] :=
    (generateResponse_ok_iff hitems (by rfl) (by rfl)).mpr ⟨by rfl, by rfl⟩
  obtain ⟨payload, hpay, hos⟩ := hgen
  obtain ⟨o, ho, ha⟩ := h noBuiltins ⟨none⟩ .extractedEntities entityFields _ _ hitems payload
    hpay (typed "Alice") List.mem_cons_self
  rw [hos, List.mem_singleton] at ho
  subst ho
  rcases ha with ha | ha
  · simp [typed, normalized] at ha
  · have hn : ListSchema.normalize noBuiltins .extractedEntities (typed "Alice") =
        .ok (normalized "Alice") := by rfl
    simp [normalized] at hn ha
    simp [hn] at ha

end JanusGraph
