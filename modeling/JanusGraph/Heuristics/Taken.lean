import JanusGraph.Heuristics.Client

/-!
# What a repair takes

`ExtractedEntitiesRule.repair` reads a text, and takes the items of a list. Of an object it
takes the first value that it can: a list, another container or an object under a list key,
then one under a class name, then the object itself.
-/

namespace JanusGraph

variable (py : Builtins)

/-! ## Raw text -/

/-- The text looks like an object or a list, so that `repair` reads it. -/
def isRead (text : String) : Bool :=
  (strip text).startsWith "\x7b" || (strip text).startsWith "["

/-- `ExtractedEntitiesRule.repair`, given for which texts `json.loads` raises a `ValueError`
that is no `JSONDecodeError`: those with an integer of more digits than the interpreter
converts. -/
def EntitySchema.repairText (s : EntitySchema) (tooLong : String → Bool) :
    Value → Except PyError Value
  | .str text =>
    if isRead text && tooLong (strip text) then .error .valueError else s.repair py (.str text)
  | payload => s.repair py payload

/-- `json.loads` can read the text, if it is a text. -/
def Readable (tooLong : String → Bool) : Value → Prop
  | .str text => (isRead text && tooLong (strip text)) = false
  | _ => True

theorem EntitySchema.repairText_of_readable (s : EntitySchema) {tooLong : String → Bool}
    {payload : Value} (h : Readable tooLong payload) :
    s.repairText py tooLong payload = s.repair py payload := by
  cases payload with
  | str text =>
    rw [repairText, if_neg]
    rw [show (isRead text && tooLong (strip text)) = false from h]
    exact Bool.false_ne_true
  | _ => rfl

theorem EntitySchema.repairText_of_not_readable (s : EntitySchema) {tooLong : String → Bool}
    {payload : Value} (h : ¬ Readable tooLong payload) :
    s.repairText py tooLong payload = .error .valueError := by
  cases payload with
  | str text =>
    rw [Readable, Bool.not_eq_false] at h
    rw [repairText, if_pos h]
  | _ => exact absurd trivial h

/-- The payload, read if it is a text. -/
def parsedPayload : Value → Option Value
  | .str text => if isRead text then py.loads (strip text) else none
  | payload => some payload

/-! ## Candidates -/

/-- The values a list key can hold. -/
def isContainer : Value → Bool
  | .list _ | .dict _ | .collection _ _ => true
  | _ => false

/-- The values the rule can take, in its order: those under the list keys, those under the
class names, and the object itself if it has the field of an entity. -/
def EntitySchema.candidates (s : EntitySchema) (payload : List (String × Value)) : List Value :=
  (s.listKeys.filterMap fun k => (payload.lookup k).filter isContainer) ++
    ((classNameKeys.filterMap fun k => (payload.lookup k).filter fun v =>
        isContainer v || v.isStr) ++
      if singleEntityMarkers.any (hasKey payload) then [.dict payload] else [])

/-- The items a value stands for. -/
def elements : Value → List Value
  | .list vs | .collection _ vs => vs
  | v => [v]

/-- The rule takes the item: from a list, or from the first value of an object that it can
take. -/
def EntitySchema.Takes (s : EntitySchema) (payload x : Value) : Prop :=
  (∃ vs, parsedPayload py payload = some (.list vs) ∧ x ∈ vs) ∨
    ∃ d v, parsedPayload py payload = some (.dict d) ∧
      (s.candidates (unwrapProperties d)).head? = some v ∧ x ∈ elements v

theorem findContainer_eq (payload : List (String × Value)) (keys : List String) :
    findContainer payload keys =
      (keys.filterMap fun k => (payload.lookup k).filter isContainer).head?.map elements := by
  rw [List.head?_filterMap, findContainer]
  induction keys with
  | nil => rfl
  | cons k keys ih =>
    rw [List.findSome?_cons, List.findSome?_cons, ih]
    rcases payload.lookup k with _ | _ | _ | _ | _ | _ | _ | _ | _ <;> rfl

theorem findClassName_eq (payload : List (String × Value)) :
    findClassName payload =
      (classNameKeys.filterMap fun k => (payload.lookup k).filter fun v =>
        isContainer v || v.isStr).head?.map elements := by
  rw [List.head?_filterMap, findClassName]
  induction classNameKeys with
  | nil => rfl
  | cons k keys ih =>
    rw [List.findSome?_cons, List.findSome?_cons, ih]
    rcases payload.lookup k with _ | _ | _ | _ | _ | _ | _ | _ | _ <;> rfl

/-- The rule takes the first candidate. -/
theorem EntitySchema.itemsOfDict_eq (s : EntitySchema) (payload : List (String × Value)) :
    s.itemsOfDict payload =
      ((s.candidates (unwrapProperties payload)).head?.map elements).getD [] := by
  rw [EntitySchema.itemsOfDict, EntitySchema.candidates, List.head?_append, List.head?_append]
  simp only [findContainer_eq, findClassName_eq]
  generalize (s.listKeys.filterMap _).head? = a
  generalize (classNameKeys.filterMap _).head? = b
  cases a with
  | some v => rfl
  | none =>
    cases b with
    | some v => rfl
    | none =>
      simp only [Option.map_none, Option.none_or]
      split <;> rfl

/-- A text that is not read, or not parsed, has no items. -/
theorem EntitySchema.itemsOf_eq (s : EntitySchema) (payload : Value) :
    s.itemsOf py payload = ((parsedPayload py payload).map s.itemsOfParsed).getD [] := by
  cases payload with
  | str text =>
    rw [EntitySchema.itemsOf, parsedPayload]
    change (if isRead text then _ else _) = _
    by_cases hread : isRead text
    · rw [if_pos hread, if_pos hread]
      cases py.loads (strip text) <;> rfl
    · rw [if_neg hread, if_neg hread]
      rfl
  | _ => rfl

/-- The items are those that the rule takes. -/
theorem EntitySchema.mem_itemsOf_iff (s : EntitySchema) (payload x : Value) :
    x ∈ s.itemsOf py payload ↔ s.Takes py payload x := by
  rw [EntitySchema.itemsOf_eq, EntitySchema.Takes]
  rcases parsedPayload py payload with _ | v
  · simp
  · cases v with
    | list vs => simp [EntitySchema.itemsOfParsed]
    | dict d =>
      simp only [Option.map_some, Option.getD_some, EntitySchema.itemsOfParsed,
        EntitySchema.itemsOfDict_eq]
      cases hhead : (s.candidates (unwrapProperties d)).head? <;> simp [hhead]
    | _ => simp [EntitySchema.itemsOfParsed]

end JanusGraph
