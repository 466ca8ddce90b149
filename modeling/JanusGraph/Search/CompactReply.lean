import JanusGraph.Lib.Python

/-!
# Compact replies

`_parse_falkor_rows` of `daemon/search_engine.py`, and the format that its docstring describes:
a cell is a pair of a type code and a value, and so is an element of a list, however deep. The
function unwraps the cells and leaves what is inside a list as it came, so that the rows come
out as they were sent unless one of them has a list that is not empty.

`CellValue` are the values of a table, lists of any depth included, and `CellValue.compact` is how
they are sent. What the function makes of a row are the payloads of its cells
(`parseFalkorRows_compactReply`), and a payload is the value itself exactly if it has no cell
inside (`CellValue.payload_eq_raw_iff`). The other direction needs that a cell is larger than the
value in it (`CellValue.sizeOf_raw_lt`), so that no list of cells can be the list it stands for.
-/

namespace JanusGraph

/-! ## The function -/

/-- `_unwrap` -/
def unwrapCell (cell : Value) : Value :=
  match cell with
  | .list [code, value] => if code.isIntInstance then value else cell
  | _ => cell

/-- `_parse_falkor_rows` -/
def parseFalkorRows (result : Value) : List (List Value) :=
  match result with
  | .list (_ :: given :: _) =>
    match if given.truthy then given else .list [] with
    | .list rawRows => rawRows.map fun row =>
      match row with
      | .list cells => cells.map unwrapCell
      | row => [unwrapCell row]
    | _ => []
  | _ => []

/-- `list(v)` -/
def pyList : Value → Option (List Value)
  | .list vs => some vs
  | .str s => some (s.toList.map fun c => .str (String.singleton c))
  | .dict d => some (d.map fun item => .str item.1)
  | _ => none

/-- `path` of the `FactRow` that `_cypher_bfs` makes of a row, if it gets that far -/
def factPath (row : List Value) : Option (List Value) :=
  match row.take 6 with
  | [_, _, pathNodes, _, _, _] => if pathNodes.truthy then pyList pathNodes else some []
  | _ => none

/-! ## The format -/

/-- A value of a result table. -/
inductive CellValue : Type where
  | null : CellValue
  | str : String → CellValue
  | int : ℤ → CellValue
  | float : PyFloat → CellValue
  | list : List CellValue → CellValue

mutual

/-- The value in Python. -/
def CellValue.raw : CellValue → Value
  | .null => .null
  | .str s => .str s
  | .int n => .int n
  | .float x => .float x
  | .list vs => .list (CellValue.rawList vs)

/-- The elements of a list in Python. -/
def CellValue.rawList : List CellValue → List Value
  | [] => []
  | v :: vs => v.raw :: CellValue.rawList vs

end

mutual

/-- The cell that a value is sent as. The docstring has two codes for null, `5` and `0`. -/
def CellValue.compact (nullCode : ℤ) : CellValue → Value
  | .null => .list [.int nullCode, .null]
  | .str s => .list [.int 2, .str s]
  | .int n => .list [.int 3, .int n]
  | .float x => .list [.int 4, .float x]
  | .list vs => .list [.int 6, .list (CellValue.compactList nullCode vs)]

/-- The elements of a list, each sent as a cell. -/
def CellValue.compactList (nullCode : ℤ) : List CellValue → List Value
  | [] => []
  | v :: vs => v.compact nullCode :: CellValue.compactList nullCode vs

end

/-- `[headers, rows, stats]` -/
def compactReply (nullCode : ℤ) (headers stats : Value) (table : List (List CellValue)) : Value :=
  .list [headers, .list (table.map fun row => .list (row.map (CellValue.compact nullCode))), stats]

/-- The rows of a table in Python. -/
def rawRows (table : List (List CellValue)) : List (List Value) :=
  table.map fun row => row.map CellValue.raw

/-- The value is not a list with something in it. -/
def CellValue.Flat : CellValue → Prop
  | .list (_ :: _) => False
  | _ => True

/-! ## What comes out -/

/-- The value in the pair. -/
def CellValue.payload (nullCode : ℤ) : CellValue → Value
  | .list vs => .list (CellValue.compactList nullCode vs)
  | v => v.raw

/-- Unwrapping takes one layer off. -/
theorem unwrapCell_compact (nullCode : ℤ) (v : CellValue) :
    unwrapCell (v.compact nullCode) = v.payload nullCode := by
  cases v <;> rfl

/-- **What the function makes of a reply.** The rows come out with their payloads: one layer
is taken off each cell, and none off what is inside. -/
theorem parseFalkorRows_compactReply (nullCode : ℤ) (headers stats : Value)
    (table : List (List CellValue)) :
    parseFalkorRows (compactReply nullCode headers stats table) =
      table.map fun row => row.map (CellValue.payload nullCode) := by
  have hrows : (if (Value.list (table.map fun row => .list (row.map (CellValue.compact nullCode)))).truthy
      then Value.list (table.map fun row => .list (row.map (CellValue.compact nullCode)))
      else .list []) = .list (table.map fun row => .list (row.map (CellValue.compact nullCode))) := by
    cases table <;> rfl
  rw [compactReply, parseFalkorRows, hrows]
  simp only [List.map_map]
  refine List.map_congr_left fun row _ => ?_
  simp only [Function.comp_apply, List.map_map]
  exact List.map_congr_left fun v _ => unwrapCell_compact nullCode v

mutual

/-- A cell is larger than the value in it. -/
theorem CellValue.sizeOf_raw_lt (nullCode : ℤ) :
    ∀ v : CellValue, sizeOf v.raw < sizeOf (v.compact nullCode)
  | .null => by simp [CellValue.raw, CellValue.compact]
  | .str s => by simp [CellValue.raw, CellValue.compact]; omega
  | .int n => by simp [CellValue.raw, CellValue.compact]; omega
  | .float x => by simp [CellValue.raw, CellValue.compact]; omega
  | .list vs => by
    have hle := CellValue.sizeOf_rawList_le nullCode vs
    simp only [CellValue.raw, CellValue.compact, Value.list.sizeOf_spec, List.cons.sizeOf_spec]
    omega

/-- So is a list of cells at least as large as the list of their values. -/
theorem CellValue.sizeOf_rawList_le (nullCode : ℤ) :
    ∀ vs : List CellValue,
      sizeOf (CellValue.rawList vs) ≤ sizeOf (CellValue.compactList nullCode vs)
  | [] => le_rfl
  | v :: vs => by
    have hv := CellValue.sizeOf_raw_lt nullCode v
    have hvs := CellValue.sizeOf_rawList_le nullCode vs
    simp only [CellValue.rawList, CellValue.compactList, List.cons.sizeOf_spec]
    omega

end

/-- **One cell.** Its payload is its value exactly if there is no cell inside. -/
theorem CellValue.payload_eq_raw_iff (nullCode : ℤ) (v : CellValue) :
    v.payload nullCode = v.raw ↔ v.Flat := by
  rcases v with _ | s | n | x | (_ | ⟨v, vs⟩)
  case list.cons =>
    refine iff_of_false (fun h => ?_) id
    -- the first element is still a pair, and a pair is larger than what is in it
    have hfirst := (List.cons.inj (Value.list.inj h)).1
    have hlt := v.sizeOf_raw_lt nullCode
    rw [hfirst] at hlt
    exact absurd hlt (lt_irrefl _)
  all_goals exact iff_of_true rfl trivial

/-- A row of the traversal, with the names of its path. -/
def pathRow (edgeType hop : CellValue) (names : List String) (edgeFact seed target : CellValue) :
    List CellValue :=
  [edgeType, hop, .list (names.map .str), edgeFact, seed, target]

/-- The names of a path are cells inside a list, and stay wrapped. -/
theorem factPath_pathRow (nullCode : ℤ) (edgeType hop : CellValue) (names : List String)
    (edgeFact seed target : CellValue) :
    factPath ((pathRow edgeType hop names edgeFact seed target).map (CellValue.payload nullCode)) =
      some (names.map fun name => .list [.int 2, .str name]) := by
  have hlist : ∀ names : List String, CellValue.compactList nullCode (names.map .str) =
      names.map fun name => .list [.int 2, .str name] := by
    intro names
    induction names with
    | nil => rfl
    | cons name names ih => exact congrArg (_ :: ·) ih
  rcases names with _ | ⟨name, names⟩
  · rfl
  · have hpath := hlist (name :: names)
    exact congrArg some hpath

/-- **Decoding undoes the encoding exactly when** no value of the table is a list with
something in it. A row of the traversal has its path as the list of the names only if the
path is empty. One layer of pairs is taken off each cell, and the elements of a list are
cells again. -/
theorem parseFalkorRows_iff (nullCode : ℤ) (headers stats : Value) :
    (∀ table, parseFalkorRows (compactReply nullCode headers stats table) = rawRows table ↔
      ∀ row ∈ table, ∀ v ∈ row, CellValue.Flat v) ∧
    ∀ edgeType hop names edgeFact seed target,
      (parseFalkorRows (compactReply nullCode headers stats
          [pathRow edgeType hop names edgeFact seed target])).map factPath =
        [some (names.map .str)] ↔ names = [] := by
  refine ⟨fun table => ?_, fun edgeType hop names edgeFact seed target => ?_⟩
  · rw [parseFalkorRows_compactReply, rawRows, List.map_inj_left]
    refine forall₂_congr fun row _ => ?_
    rw [List.map_inj_left]
    exact forall₂_congr fun v _ => v.payload_eq_raw_iff nullCode
  · rw [parseFalkorRows_compactReply, List.map_singleton, List.map_singleton, factPath_pathRow]
    rcases names with _ | ⟨name, names⟩
    · simp
    · simp

/-- The path of the relationship between two nodes. -/
theorem not_parseFalkorRows :
    ¬ ∀ (nullCode : ℤ) (headers stats : Value) (table : List (List CellValue)),
      parseFalkorRows (compactReply nullCode headers stats table) = rawRows table := by
  intro h
  have hpath := h 5 (.list []) (.list []) [[.list [.str "a", .str "b"]]]
  exact absurd hpath (by decide)

end JanusGraph
