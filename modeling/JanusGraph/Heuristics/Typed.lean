import JanusGraph.Heuristics.Taken

/-!
# What a repair returns

The types of what `ExtractedEntitiesRule.repair` and `EdgeDuplicateRule.repair` return, and
what they raise. The conversions handle `TypeError` and `ValueError`, and convert a bare
float of an index field outside of that; so an infinity raises `OverflowError` wherever it is
converted, and a NaN raises `ValueError` where it stands for a list of indices. A name is kept
whenever it is truthy, and of what `json.loads` raises only a `JSONDecodeError` is handled.
-/

namespace JanusGraph

variable (py : Builtins)

/-! ## Types -/

/-- The types of an item of `ExtractedEntities`. -/
structure EntityTyped (entity : List (String × Value)) : Prop where
  name : ∃ text, entity.lookup "name" = some (.str text)
  typeId : ∃ n, entity.lookup "entity_type_id" = some (.int n)
  indices : ∃ ns : List ℤ, entity.lookup "episode_indices" = some (.list (ns.map .int))

/-- The types of an item of `SummarizedEntities`. -/
structure SummaryTyped (entity : List (String × Value)) : Prop where
  name : ∃ text, entity.lookup "name" = some (.str text)
  summary : ∃ text, entity.lookup "summary" = some (.str text)

/-- The repairs return, and what they return has the types of its schema. -/
structure RepairsTyped (tooLong : String → Bool) (payload : Value) : Prop where
  entities : ∃ items : List (List (String × Value)),
    (extractedEntities py).repairText py tooLong payload =
      .ok (.dict [("extracted_entities", .list (items.map .dict))]) ∧
    ∀ entity ∈ items, EntityTyped entity
  summaries : ∃ items : List (List (String × Value)),
    (summarizedEntities py).repairText py tooLong payload =
      .ok (.dict [("summaries", .list (items.map .dict))]) ∧
    ∀ entity ∈ items, SummaryTyped entity
  duplicates : ∃ dups contras, repairEdgeDuplicate py payload =
      .ok (.dict [("duplicate_facts", .list dups), ("contradicted_facts", .list contras)]) ∧
    ∀ v ∈ dups ++ contras, v.isIntInstance

/-! ## What can be converted -/

/-- Indices without an infinity, and no NaN alone. -/
def IndicesFinite : Value → Prop
  | .list vs => ∀ v ∈ vs, v.isInf = false
  | .float (.finite _ _) => True
  | .float _ => False
  | _ => True

/-- An entity whose numbers can be converted. -/
structure EntityFinite (entity : List (String × Value)) : Prop where
  typeId : ((entity.lookup "entity_type_id").getD .null).isInf = false
  indices : IndicesFinite ((entity.lookup "episode_indices").getD .null)

/-- A field that is a text, or is replaced by one. -/
def TextOrFalsy (key : String) (entity : List (String × Value)) : Prop :=
  ((entity.lookup key).getD .null).truthy → ((entity.lookup key).getD .null).isStr

/-- `_sanitize_int_list` reads a set and a tuple as it reads a list. -/
def asList : Value → Value
  | .collection .set vs | .collection .tuple vs => .list vs
  | v => v

/-- The value under the first key of each index field can be converted. -/
def EdgeIndicesFinite : Value → Prop
  | .dict payload =>
    IndicesFinite (asList (firstOf (unwrapProperties payload) ["duplicate_facts",
      "duplicate_indices", "duplicates", "dup_idx", "duplicate_fact_ids", "duplicate_ids"])) ∧
    IndicesFinite (asList (firstOf (unwrapProperties payload) ["contradicted_facts",
      "contradicted_indices", "contradictions", "contra_idx", "contradicted_fact_ids",
      "contradicted_ids"]))
  | _ => True

theorem tryInt_cases (v : Value) : py.tryInt v = .error .overflowError ∧ v.isInf = true ∨
    (∃ n, py.tryInt v = .ok n) ∧ v.isInf = false := by
  rcases v with _ | b | n | x | s | vs | d | ⟨kind, vs⟩
  · exact .inr ⟨⟨none, rfl⟩, rfl⟩
  · exact .inr ⟨⟨_, rfl⟩, rfl⟩
  · exact .inr ⟨⟨_, rfl⟩, rfl⟩
  · rcases x with ⟨m, e⟩ | neg | _
    · exact .inr ⟨⟨_, rfl⟩, rfl⟩
    · exact .inl ⟨rfl, rfl⟩
    · exact .inr ⟨⟨none, rfl⟩, rfl⟩
  · refine .inr ⟨?_, rfl⟩
    rw [Builtins.tryInt, Builtins.int]
    cases py.parseInt s with
    | none => exact ⟨none, rfl⟩
    | some n => exact ⟨some n, rfl⟩
  · exact .inr ⟨⟨none, rfl⟩, rfl⟩
  · exact .inr ⟨⟨none, rfl⟩, rfl⟩
  · exact .inr ⟨⟨none, rfl⟩, rfl⟩

/-- A list is converted exactly if it holds no infinity. -/
theorem mapM_tryInt_ok_iff {vs : List Value} :
    (∃ ns, vs.mapM py.tryInt = .ok ns) ↔ ∀ v ∈ vs, v.isInf = false := by
  refine ⟨fun ⟨ns, hns⟩ v hv => ?_, fun h => mapM_ok_of_forall fun v hv => ?_⟩
  · obtain ⟨n, -, hn⟩ := (exists_of_mapM_ok hns).1 v hv
    rcases tryInt_cases py v with ⟨herror, -⟩ | ⟨-, hfinite⟩
    · rw [herror] at hn
      cases hn
    · exact hfinite
  · rcases tryInt_cases py v with ⟨-, hinf⟩ | ⟨hok, -⟩
    · rw [h v hv] at hinf
      cases hinf
    · exact hok

theorem coerceIndices_ok_iff {v : Value} :
    (∃ ns, coerceIndices py v = .ok ns) ↔ IndicesFinite v := by
  rcases v with _ | b | n | x | s | vs | d | ⟨kind, vs⟩
  · exact iff_of_true ⟨_, rfl⟩ trivial
  · exact iff_of_true ⟨_, rfl⟩ trivial
  · exact iff_of_true ⟨_, rfl⟩ trivial
  · rcases x with ⟨m, e⟩ | neg | _
    · exact iff_of_true ⟨_, rfl⟩ trivial
    · exact iff_of_false (by rintro ⟨ns, ⟨⟩⟩) id
    · exact iff_of_false (by rintro ⟨ns, ⟨⟩⟩) id
  · refine iff_of_true ?_ trivial
    rcases tryInt_cases py (.str s) with ⟨-, hinf⟩ | ⟨⟨n, hn⟩, -⟩
    · cases hinf
    · change ∃ ns, (py.tryInt (.str s)).bind _ = .ok ns
      rw [hn]
      cases n <;> exact ⟨_, rfl⟩
  · have hlist : coerceIndices py (.list vs) = (vs.mapM py.tryInt).map fun ns =>
        if ns.reduceOption.isEmpty then [0] else ns.reduceOption := rfl
    rw [IndicesFinite, ← mapM_tryInt_ok_iff py, hlist]
    cases vs.mapM py.tryInt with
    | ok ns => exact iff_of_true ⟨_, rfl⟩ ⟨ns, rfl⟩
    | error e => exact iff_of_false (by rintro ⟨ns, ⟨⟩⟩) (by rintro ⟨ns, ⟨⟩⟩)
  · exact iff_of_true ⟨_, rfl⟩ trivial
  · exact iff_of_true ⟨_, rfl⟩ trivial

/-! ## One item -/

theorem lookup_setItem_self (d : List (String × Value)) (k : String) (v : Value) :
    (setItem d k v).lookup k = some v := by
  unfold setItem
  split
  · rename_i hkey
    induction d with
    | nil => simp [hasKey] at hkey
    | cons e d ih =>
      obtain ⟨a, b⟩ := e
      by_cases ha : a = k
      · simp [ha]
      · have hne : (k == a) = false := by simpa using Ne.symm ha
        rw [List.map_cons, if_neg ha, List.lookup_cons, hne]
        exact ih (by simpa [hasKey, List.lookup_cons, hne] using hkey)
  · rename_i hkey
    have hnone : d.lookup k = none := Option.not_isSome_iff_eq_none.mp hkey
    simp [List.lookup_append, hnone]

theorem lookup_defaultItem_ne {d : List (String × Value)} {k k' : String} {v : Value}
    (h : k ≠ k') : (defaultItem d k' v).lookup k = d.lookup k := by
  unfold defaultItem
  split
  · rfl
  · exact lookup_setItem_ne h

/-- A text as the default makes a field a text unless it holds something else. -/
theorem defaultItem_str_iff {d : List (String × Value)} {k t : String} :
    (∃ text, (defaultItem d k (.str t)).lookup k = some (.str text)) ↔ TextOrFalsy k d := by
  unfold defaultItem TextOrFalsy
  split
  · rename_i htruthy
    rw [forall_prop_of_true htruthy]
    cases d.lookup k with
    | none => simp [Value.isStr]
    | some v => cases v <;> simp [Value.isStr]
  · rename_i hfalsy
    exact iff_of_true ⟨t, lookup_setItem_self d k _⟩ fun h => absurd h hfalsy

/-- The type is converted unless it is an infinity, and nothing else changes. -/
theorem coerceTypeId_cases (entity : List (String × Value)) :
    (((entity.lookup "entity_type_id").getD .null).isInf = true ∧
        coerceTypeId py entity = .error .overflowError) ∨
      ((entity.lookup "entity_type_id").getD .null).isInf = false ∧
        ∃ out n, coerceTypeId py entity = .ok out ∧ out.lookup "entity_type_id" = some (.int n) ∧
          ∀ k, k ≠ "entity_type_id" → out.lookup k = entity.lookup k := by
  have hset (n : ℤ) : (setItem entity "entity_type_id" (.int n)).lookup "entity_type_id" =
        some (.int n) ∧
      ∀ k, k ≠ "entity_type_id" → (setItem entity "entity_type_id" (.int n)).lookup k =
        entity.lookup k :=
    ⟨lookup_setItem_self _ _ _, fun k hk => lookup_setItem_ne hk⟩
  unfold coerceTypeId
  split
  next h => exact .inr ⟨by rw [h]; rfl, _, _, rfl, hset 0⟩
  next h => exact .inr ⟨by rw [h]; rfl, _, _, rfl, hset 0⟩
  next h => exact .inr ⟨by rw [h]; rfl, _, _, rfl, hset 0⟩
  next n h => exact .inr ⟨by rw [h]; rfl, _, n, rfl, h, fun _ _ => rfl⟩
  next v _ _ _ h =>
    rw [h, Option.getD_some]
    rcases tryInt_cases py v with ⟨herror, hinf⟩ | ⟨⟨n, hok⟩, hfinite⟩
    · exact .inl ⟨hinf, by rw [herror]; rfl⟩
    · exact .inr ⟨hfinite, _, _, by rw [hok]; rfl, hset (n.getD 0)⟩

/-- A missing list of indices is as finite as its default. -/
theorem indicesFinite_getD (o : Option Value) :
    IndicesFinite (o.getD (.list [.int 0])) ↔ IndicesFinite (o.getD .null) := by
  cases o with
  | none => simp [IndicesFinite, Value.isInf]
  | some v => rfl

/-- An entity whose numbers can be converted is normalised, and has the right types exactly
if its name is no truthy value of another type. -/
theorem normalizeExtractedEntity_cases (entity : List (String × Value)) :
    (¬ EntityFinite entity ∧ ∃ e, normalizeExtractedEntity py (.dict entity) = .error e) ∨
      EntityFinite entity ∧ ∃ out, normalizeExtractedEntity py (.dict entity) = .ok (.dict out) ∧
        (EntityTyped out ↔ TextOrFalsy "name" entity) := by
  rcases coerceTypeId_cases py entity with
    ⟨hinf, herror⟩ | ⟨hfinite, out, n, hok, htype, hother⟩
  · refine .inl ⟨fun h => ?_, .overflowError, ?_⟩
    · rw [h.typeId] at hinf
      cases hinf
    · rw [normalizeExtractedEntity, herror]
      rfl
  · have hindices := hother "episode_indices" (by decide)
    have hname := hother "name" (by decide)
    have hnorm : normalizeExtractedEntity py (.dict entity) =
        (coerceIndices py ((out.lookup "episode_indices").getD (.list [.int 0]))).map fun ns =>
          .dict (defaultItem (setItem out "episode_indices" (.list (ns.map .int))) "name"
            (.str "<unnamed>")) := by
      rw [normalizeExtractedEntity, hok]
      rfl
    cases hcoerce : coerceIndices py ((out.lookup "episode_indices").getD (.list [.int 0])) with
    | error e =>
      refine .inl ⟨fun h => ?_, e, by rw [hnorm, hcoerce]; rfl⟩
      obtain ⟨ns, hns⟩ := (coerceIndices_ok_iff py).mpr
        ((indicesFinite_getD _).mpr (hindices ▸ h.indices))
      rw [hcoerce] at hns
      cases hns
    | ok ns =>
      refine .inr ⟨⟨hfinite, ?_⟩, _, by rw [hnorm, hcoerce]; rfl, ?_⟩
      · exact hindices ▸ (indicesFinite_getD _).mp ((coerceIndices_ok_iff py).mp ⟨ns, hcoerce⟩)
      · have htext : TextOrFalsy "name" (setItem out "episode_indices" (.list (ns.map .int))) ↔
            TextOrFalsy "name" entity := by
          rw [TextOrFalsy, TextOrFalsy, lookup_setItem_ne (by decide), hname]
        rw [← htext]
        refine ⟨fun h => defaultItem_str_iff.mp h.name, fun h => ⟨defaultItem_str_iff.mpr h, ?_, ?_⟩⟩
        · exact ⟨n, by
            rw [lookup_defaultItem_ne (by decide), lookup_setItem_ne (by decide), htype]⟩
        · exact ⟨ns, by rw [lookup_defaultItem_ne (by decide), lookup_setItem_self]⟩

/-- Only a dict can be in the way of its normalisation, by its numbers. -/
theorem normalizeExtractedEntity_ok_iff {x : Value} :
    (∃ y, normalizeExtractedEntity py x = .ok y) ↔
      ∀ entity, x = .dict entity → EntityFinite entity := by
  cases x with
  | dict entity =>
    simp only [Value.dict.injEq, forall_eq']
    rcases normalizeExtractedEntity_cases py entity with
      ⟨hbad, e, herror⟩ | ⟨hfinite, out, hok, -⟩
    · exact iff_of_false (fun ⟨_, h⟩ => by rw [herror] at h; cases h) hbad
    · exact iff_of_true ⟨_, hok⟩ hfinite
  | _ => exact iff_of_true ⟨_, rfl⟩ nofun

/-- An entity is normalised to its types exactly if its numbers can be converted and its
name is no truthy value of another type. -/
theorem normalizeExtractedEntity_typed_iff {x : Value} :
    (∃ e, normalizeExtractedEntity py x = .ok (.dict e) ∧ EntityTyped e) ↔
      ∀ entity, x = .dict entity → EntityFinite entity ∧ TextOrFalsy "name" entity := by
  cases x with
  | dict entity =>
    simp only [Value.dict.injEq, forall_eq']
    rcases normalizeExtractedEntity_cases py entity with
      ⟨hbad, e, herror⟩ | ⟨hfinite, out, hok, hname⟩
    · exact iff_of_false (fun ⟨_, h, _⟩ => by rw [herror] at h; cases h) fun h => hbad h.1
    · simp only [hok, Except.ok.injEq, Value.dict.injEq, exists_eq_left', hname, hfinite, true_and]
  | _ => exact iff_of_true ⟨_, rfl, ⟨_, rfl⟩, ⟨0, rfl⟩, ⟨[0], rfl⟩⟩ nofun

/-- A summary is normalised to its types exactly if neither of its fields is a truthy value
of another type. -/
theorem normalizeSummarizedEntity_typed_iff {x : Value} :
    (∃ e, normalizeSummarizedEntity py x = .dict e ∧ SummaryTyped e) ↔
      ∀ entity, x = .dict entity → TextOrFalsy "name" entity ∧ TextOrFalsy "summary" entity := by
  cases x with
  | dict entity =>
    have hsummary : TextOrFalsy "summary" (defaultItem entity "name" (.str "<unnamed>")) ↔
        TextOrFalsy "summary" entity := by
      rw [TextOrFalsy, TextOrFalsy, lookup_defaultItem_ne (by decide)]
    have hname (d : List (String × Value)) :
        (defaultItem d "summary" (.str "")).lookup "name" = d.lookup "name" :=
      lookup_defaultItem_ne (by decide)
    simp only [normalizeSummarizedEntity, Value.dict.injEq, exists_eq_left', forall_eq']
    rw [← hsummary, ← defaultItem_str_iff (t := "<unnamed>"), ← defaultItem_str_iff (t := ""),
      ← hname]
    exact ⟨fun h => ⟨h.name, h.summary⟩, fun h => ⟨h.1, h.2⟩⟩
  | _ => exact iff_of_true ⟨_, rfl, ⟨_, rfl⟩, ⟨_, rfl⟩⟩ nofun

/-! ## Index fields -/

/-- A list is converted item by item, those that are `None` left out. -/
theorem sanitizeIntList_list (vs : List Value) :
    ∃ us : List Value, ((∀ v ∈ us, v.isInf = false) ↔ ∀ v ∈ vs, v.isInf = false) ∧
      sanitizeIntList py (.list vs) =
        (us.mapM py.tryInt).map fun ns => ns.reduceOption.map .int := by
  refine ⟨vs.filter (· ≠ .null), ⟨fun h v hv => ?_, fun h v hv => ?_⟩, ?_⟩
  · cases v with
    | null => rfl
    | _ => exact h _ (List.mem_filter.mpr ⟨hv, by simp⟩)
  · exact h v (List.mem_of_mem_filter hv)
  · change ((vs.filter _).mapM py.tryInt).map (fun ns => ns.reduceOption.map Value.int) = _
    rw [List.filter_congr (q := (· ≠ .null)) fun v _ => by cases v <;> simp]

/-- Of the other containers a frozenset alone is not read. -/
theorem asList_eq_collection {v : Value} {kind : Collection} {vs : List Value}
    (h : asList v = .collection kind vs) : kind = .frozenset := by
  cases v with
  | collection kind vs =>
    cases kind with
    | frozenset =>
      cases h
      rfl
    | _ => cases h
  | _ => cases h

theorem sanitizeIntList_asList (v : Value) :
    sanitizeIntList py (asList v) = sanitizeIntList py v := by
  cases v with
  | collection kind vs => cases kind <;> rfl
  | _ => rfl

theorem sanitizeIntList_ok_iff {v : Value} :
    (∃ ns, sanitizeIntList py v = .ok ns) ↔ IndicesFinite (asList v) := by
  rw [← sanitizeIntList_asList]
  generalize hw : asList v = w
  rcases w with _ | b | n | x | s | vs | d | ⟨kind, vs⟩
  · exact iff_of_true ⟨_, rfl⟩ trivial
  · exact iff_of_true ⟨_, rfl⟩ trivial
  · exact iff_of_true ⟨_, rfl⟩ trivial
  · rcases x with ⟨m, e⟩ | neg | _
    · exact iff_of_true ⟨_, rfl⟩ trivial
    · exact iff_of_false nofun id
    · exact iff_of_false nofun id
  · refine iff_of_true ?_ trivial
    rw [sanitizeIntList]
    split
    · exact ⟨_, rfl⟩
    · exact ⟨_, rfl⟩
  · obtain ⟨us, hus, hlist⟩ := sanitizeIntList_list py vs
    rw [IndicesFinite, ← hus, ← mapM_tryInt_ok_iff py, hlist]
    cases us.mapM py.tryInt with
    | ok ns => exact iff_of_true ⟨_, rfl⟩ ⟨ns, rfl⟩
    | error e => exact iff_of_false nofun nofun
  · exact iff_of_true ⟨_, rfl⟩ trivial
  · obtain rfl := asList_eq_collection hw
    exact iff_of_true ⟨_, rfl⟩ trivial

/-- Every index that is returned is an `int`. -/
theorem isIntInstance_of_sanitizeIntList {v : Value} {ns : List Value}
    (h : sanitizeIntList py v = .ok ns) : ∀ n ∈ ns, n.isIntInstance := by
  have hmap (is : List ℤ) : ∀ n ∈ is.map Value.int, n.isIntInstance := by
    rintro _ hn
    obtain ⟨i, -, rfl⟩ := List.mem_map.mp hn
    rfl
  rw [← sanitizeIntList_asList] at h
  generalize hw : asList v = w at h
  rcases w with _ | b | n | x | s | vs | d | ⟨kind, vs⟩
  · obtain rfl := Except.ok.inj h
    exact nofun
  · obtain rfl := Except.ok.inj h
    rintro _ hn
    rw [List.mem_singleton.mp hn, Value.isIntInstance]
  · obtain rfl := Except.ok.inj h
    exact hmap [n]
  · rcases x with ⟨m, e⟩ | neg | _
    · obtain rfl := Except.ok.inj h
      exact hmap [_]
    · cases h
    · cases h
  · rw [sanitizeIntList] at h
    split at h
    · obtain rfl := Except.ok.inj h
      exact nofun
    · obtain rfl := Except.ok.inj h
      exact hmap _
  · obtain ⟨us, -, hlist⟩ := sanitizeIntList_list py vs
    rw [hlist] at h
    cases hmapM : us.mapM py.tryInt with
    | ok is =>
      rw [hmapM] at h
      obtain rfl := Except.ok.inj h
      exact hmap _
    | error e =>
      rw [hmapM] at h
      cases h
  · obtain rfl := Except.ok.inj h
    exact nofun
  · obtain rfl := asList_eq_collection hw
    obtain rfl := Except.ok.inj h
    exact nofun

/-- The rule returns the two fields exactly if both can be converted. -/
theorem repairEdgeDuplicate_ok_iff {payload : Value} :
    (∃ dups contras, repairEdgeDuplicate py payload =
        .ok (.dict [("duplicate_facts", .list dups), ("contradicted_facts", .list contras)]) ∧
      ∀ v ∈ dups ++ contras, v.isIntInstance) ↔ EdgeIndicesFinite payload := by
  cases payload with
  | dict payload =>
    rw [EdgeIndicesFinite, ← sanitizeIntList_ok_iff py, ← sanitizeIntList_ok_iff py]
    simp only [repairEdgeDuplicate]
    generalize firstOf (unwrapProperties payload) ["duplicate_facts", "duplicate_indices",
      "duplicates", "dup_idx", "duplicate_fact_ids", "duplicate_ids"] = dupVal
    generalize firstOf (unwrapProperties payload) ["contradicted_facts", "contradicted_indices",
      "contradictions", "contra_idx", "contradicted_fact_ids", "contradicted_ids"] = contraVal
    cases hdups : sanitizeIntList py dupVal with
    | error e =>
      exact iff_of_false (by rintro ⟨dups, contras, ⟨⟩, -⟩) (by rintro ⟨⟨dups, ⟨⟩⟩, -⟩)
    | ok dups =>
      cases hcontras : sanitizeIntList py contraVal with
      | error e =>
        exact iff_of_false (by rintro ⟨dups, contras, ⟨⟩, -⟩) (by rintro ⟨-, contras, ⟨⟩⟩)
      | ok contras =>
        refine iff_of_true ⟨dups, contras, rfl, fun v hv => ?_⟩ ⟨⟨dups, rfl⟩, contras, rfl⟩
        rcases List.mem_append.mp hv with hv | hv
        · exact isIntInstance_of_sanitizeIntList py hdups v hv
        · exact isIntInstance_of_sanitizeIntList py hcontras v hv
  | _ => exact iff_of_true ⟨[], [], rfl, by rintro v ⟨⟩⟩ trivial

/-! ## Whole payloads -/

/-- Items are normalised to dicts of a kind exactly if each of them is. -/
theorem mapM_dict_iff {f : Value → Except PyError Value} {P : List (String × Value) → Prop}
    {xs : List Value} :
    (∃ items : List (List (String × Value)),
        xs.mapM f = .ok (items.map .dict) ∧ ∀ entity ∈ items, P entity) ↔
      ∀ x ∈ xs, ∃ entity, f x = .ok (.dict entity) ∧ P entity := by
  simp only [mapM_eq_ok]
  constructor
  · rintro ⟨items, hitems, hP⟩
    rw [List.forall₂_map_right_iff] at hitems
    induction hitems with
    | nil => exact nofun
    | cons hx _ ih =>
      rw [List.forall_mem_cons] at hP ⊢
      exact ⟨⟨_, hx, hP.1⟩, ih hP.2⟩
  · intro h
    induction xs with
    | nil => exact ⟨[], .nil, nofun⟩
    | cons x xs ih =>
      rw [List.forall_mem_cons] at h
      obtain ⟨entity, hentity, hP⟩ := h.1
      obtain ⟨items, hitems, hPs⟩ := ih h.2
      exact ⟨entity :: items, .cons hentity hitems, List.forall_mem_cons.mpr ⟨hP, hPs⟩⟩

/-- A repair returns dicts of a kind exactly if it can read the payload and each item it
finds is normalised to one. -/
theorem EntitySchema.repairText_iff (s : EntitySchema) (tooLong : String → Bool) (payload : Value)
    (P : List (String × Value) → Prop) :
    (∃ items : List (List (String × Value)), s.repairText py tooLong payload =
        .ok (.dict [(s.key, .list (items.map .dict))]) ∧ ∀ entity ∈ items, P entity) ↔
      Readable tooLong payload ∧
        ∀ x ∈ s.itemsOf py payload, ∃ entity, s.normalize x = .ok (.dict entity) ∧ P entity := by
  by_cases hread : Readable tooLong payload
  · rw [← mapM_dict_iff, s.repairText_of_readable py hread]
    cases hmap : (s.itemsOf py payload).mapM s.normalize with
    | ok vs => simp [EntitySchema.repair_ok hmap, hread]
    | error e => simp [EntitySchema.repair_error hmap]
  · simp [s.repairText_of_not_readable py hread, hread]

/-- The payload is read, and no number and no field of an item that is taken is in the way of
the types. -/
structure Convertible (py : Builtins) (tooLong : String → Bool) (payload : Value) : Prop where
  readable : Readable tooLong payload
  entities : ∀ entity, (extractedEntities py).Takes py payload (.dict entity) →
    EntityFinite entity ∧ TextOrFalsy "name" entity
  summaries : ∀ entity, (summarizedEntities py).Takes py payload (.dict entity) →
    TextOrFalsy "name" entity ∧ TextOrFalsy "summary" entity
  indices : EdgeIndicesFinite payload

/-- The repairs return values of the right types exactly if the payload is convertible. -/
theorem repairsTyped_iff {tooLong : String → Bool} {payload : Value} :
    RepairsTyped py tooLong payload ↔ Convertible py tooLong payload := by
  have hentities := (extractedEntities py).repairText_iff py tooLong payload EntityTyped
  have hsummaries := (summarizedEntities py).repairText_iff py tooLong payload SummaryTyped
  have hentity (x : Value) := normalizeExtractedEntity_typed_iff py (x := x)
  have hsummary (x : Value) := normalizeSummarizedEntity_typed_iff py (x := x)
  constructor
  · intro h
    obtain ⟨hread, hes⟩ := hentities.mp h.entities
    obtain ⟨-, hss⟩ := hsummaries.mp h.summaries
    refine ⟨hread, fun entity he => ?_, fun entity hs => ?_,
      (repairEdgeDuplicate_ok_iff py).mp h.duplicates⟩
    · exact (hentity _).mp (hes _ ((EntitySchema.mem_itemsOf_iff py _ _ _).mpr he)) entity rfl
    obtain ⟨e, he, htyped⟩ := hss _ ((EntitySchema.mem_itemsOf_iff py _ _ _).mpr hs)
    exact (hsummary _).mp ⟨e, Except.ok.inj he, htyped⟩ entity rfl
  · intro h
    refine ⟨hentities.mpr ⟨h.readable, fun x hx => (hentity x).mpr ?_⟩,
      hsummaries.mpr ⟨h.readable, fun x hx => ?_⟩, (repairEdgeDuplicate_ok_iff py).mpr h.indices⟩
    · rintro entity rfl
      exact h.entities entity ((EntitySchema.mem_itemsOf_iff py _ _ _).mp hx)
    · obtain ⟨e, he, htyped⟩ := (hsummary x).mpr (by
        rintro entity rfl
        exact h.summaries entity ((EntitySchema.mem_itemsOf_iff py _ _ _).mp hx))
      exact ⟨e, congrArg Except.ok he, htyped⟩

/-- An entity of type `Infinity`. -/
def infiniteType : Value :=
  .dict [("entities", .list [.dict [("name", .str "A"),
    ("entity_type_id", .float (.inf false))]])]

/-- A repair raises: the type of an entity is an infinity. -/
theorem not_repairsTyped :
    ¬ ∀ (py : Builtins) (tooLong : String → Bool) (payload : Value),
      RepairsTyped py tooLong payload := by
  intro h
  obtain ⟨items, hitems, -⟩ := (h noBuiltins (fun _ => false) infiniteType).entities
  have hraises : (extractedEntities noBuiltins).repairText noBuiltins (fun _ => false)
      infiniteType = .error .overflowError := by rfl
  rw [hraises] at hitems
  cases hitems

end JanusGraph
