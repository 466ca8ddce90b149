import JanusGraph.Search.Cypher
import JanusGraph.Search.Request

/-!
# The traversal of the graph search

The meaning of `_CYPHER_BFS` over a graph, and `SearchEngine._cypher_bfs` of
`daemon/search_engine.py`, which makes a fact of each row. A row keeps the relationship that it
is about, and so does the fact; nothing in the code reads it.

* **The graph.** `BfsGraph` holds what the query reads: names and summaries of nodes, and of a
  relationship its ends, type, text and date. A path has no relationship twice, but it may
  come back to a node (`bfsPaths`).
* **The query.** A path gives one row for each of its relationships, at the distance of its place
  (`bfsRowsOfPath`). The server sorts the rows as far as the query says and cuts them off; rows
  that it does not tell apart come in any order (`BfsAnswer`).
* **The loop.** A row becomes a fact if the first line of its text is not blank
  (`FactRow.ofRow`). A fact has neither a score nor a date of invalidity, whatever its
  relationship says (`FactRow.ofRow_eq_some`).
* **The server.** `Falkor` is a server during one search, with its errors and delays; the
  seeds it looks for are those it reads from the query (`Falkor.seedsRead`).
-/

namespace JanusGraph

/-! ## The graph -/

/-- A node, with the properties that the query reads. -/
structure BfsNode : Type where
  id : ℕ
  name : Value
  summary : Value
  deriving DecidableEq

/-- A relationship, with the properties that the query reads. -/
structure BfsRel : Type where
  id : ℕ
  source : BfsNode
  target : BfsNode
  type : String
  fact : Value
  invalidAt : Value
  deriving DecidableEq

/-- A property graph. -/
structure BfsGraph : Type where
  nodes : List BfsNode
  rels : List BfsRel
  nodup_nodes : (nodes.map BfsNode.id).Nodup
  nodup_rels : (rels.map BfsRel.id).Nodup
  source_mem : ∀ r ∈ rels, r.source ∈ nodes
  target_mem : ∀ r ∈ rels, r.target ∈ nodes

/-- The other end, seen from a node. -/
def BfsRel.other (r : BfsRel) (v : BfsNode) : Option BfsNode :=
  if r.source.id = v.id then some r.target
  else if r.target.id = v.id then some r.source
  else none

/-- `MATCH path = (s)-[*1..n]-(neighbor)`: the relationships of each path with the nodes they
lead to. No path has a relationship twice, and relationships are followed in either
direction. -/
def bfsPaths (rels : List BfsRel) : ℕ → BfsNode → List ℕ → List (List (BfsRel × BfsNode))
  | 0, _, _ => []
  | n + 1, v, used => rels.flatMap fun r =>
    if r.id ∈ used then []
    else match r.other v with
      | none => []
      | some w => [(r, w)] :: (bfsPaths rels n w (r.id :: used)).map ((r, w) :: ·)

/-! ## The rows -/

/-- A row of the answer, and `r` of the query. -/
structure BfsRow : Type where
  edgeType : String
  hopDistance : ℕ
  pathNodes : List Value
  edgeFact : Value
  seedInPath : Value
  targetInPath : Value
  origin : BfsRel
  deriving DecidableEq

/-- The value is neither missing nor the empty text. -/
def isGiven (v : Value) : Bool := v ≠ .null && v ≠ .str ""

/-- `edge_fact` -/
def edgeFact (r : BfsRel) (next : BfsNode) : Value :=
  if isGiven r.fact then r.fact else if isGiven next.summary then next.summary else .null

/-- `WHERE ALL(rel IN relationships(path) WHERE rel.invalid_at IS NULL OR true)` -/
def bfsWhere (path : List (BfsRel × BfsNode)) : Bool :=
  path.all fun step => step.1.invalidAt = .null || true

/-- The row of place `i` of a path from `s`. -/
def bfsRow (s : BfsNode) (path : List (BfsRel × BfsNode)) (i : ℕ) (r : BfsRel) (next : BfsNode) :
    BfsRow where
  edgeType := r.type
  hopDistance := path.length
  pathNodes := (s.name :: path.map fun step => step.2.name).take (i + 1)
  edgeFact := edgeFact r next
  seedInPath := s.name
  targetInPath := next.name
  origin := r

/-- `UNWIND range(0, size(rels) - 1) AS i`, with the rows that have a fact. -/
def bfsRowsOfPath (s : BfsNode) (path : List (BfsRel × BfsNode)) : List BfsRow :=
  (path.zipIdx.map fun step => bfsRow s path step.2 step.1.1 step.1.2).filter fun row =>
    row.edgeFact ≠ .null

/-- `(s {name: seed_name})` -/
def BfsNode.Named (seed : List ℕ) (n : BfsNode) : Bool :=
  match n.name with
  | .str t => codes t = seed
  | _ => false

/-- The rows of all paths from the seeds, in no order yet. -/
def bfsRows (g : BfsGraph) (seeds : List (List ℕ)) (maxHops : ℤ) : List BfsRow :=
  seeds.flatMap fun seed => (g.nodes.filter (BfsNode.Named seed)).flatMap fun s =>
    ((bfsPaths g.rels maxHops.toNat s []).filter bfsWhere).flatMap (bfsRowsOfPath s)

/-- `hop_distance ASC, edge_fact ASC`, for an order of the values -/
def BfsRow.upTo (order : Value → Value → Bool) (a b : BfsRow) : Prop :=
  a.hopDistance < b.hopDistance ∨
    a.hopDistance = b.hopDistance ∧ order a.edgeFact b.edgeFact = true

/-- An answer: the rows in an order that the query asks for, up to its limit. Rows that it
does not tell apart come in any order, so that what is cut off at the limit may differ from
one answer to the next. -/
structure BfsAnswer (order : Value → Value → Bool) (g : BfsGraph) (seeds : List (List ℕ))
    (maxHops cap : ℤ) : Type where
  rows : List BfsRow
  all : List BfsRow
  perm : all.Perm (bfsRows g seeds maxHops)
  ordered : all.Pairwise (BfsRow.upTo order)
  limited : rows = all.take cap.toNat
  cap_nonneg : 0 ≤ cap

/-! ## The facts -/

/-- `FactRow`, and the relationship that the fact comes from -/
structure FactRow : Type where
  fact : String
  sourceEntity : Value
  targetEntity : String
  edgeType : String
  hopDistance : ℕ
  path : List Value
  cosine : Option PyFloat
  invalidAt : Option String
  origin : BfsRel
  deriving DecidableEq

/-- The characters that end a line for `str.splitlines` -/
def isLineBreak (c : Char) : Bool :=
  let n := c.toNat
  (10 ≤ n && n ≤ 13) || (28 ≤ n && n ≤ 30) || n = 133 || n = 8232 || n = 8233

/-- `str.splitlines`, behind the part `line` of a line -/
def splitLines : List Char → List Char → List String
  | line, [] => if line = [] then [] else [String.ofList line]
  | line, '\r' :: '\n' :: t => String.ofList line :: splitLines [] t
  | line, c :: t =>
    if isLineBreak c then String.ofList line :: splitLines [] t else splitLines (line ++ [c]) t

/-- `first_line` -/
def firstLine (s : String) : String :=
  (((splitLines [] s.toList).map strip).find? (· ≠ "")).getD ""

variable (py : Builtins)

/-- One turn of the loop of `_cypher_bfs`, on the row as the query means it. What
`_parse_falkor_rows` makes of the reply (`parseFalkorRows`) differs in `path_nodes`, whose
elements it leaves as the pairs they came as: `path`, and `source_entity` where the seed has no
name, then hold such pairs. The search reads neither. -/
def FactRow.ofRow (row : BfsRow) : Option FactRow :=
  match row.edgeFact with
  | .str edgeFact =>
    if strip edgeFact = "" then none
    else if firstLine edgeFact = "" then none
    else some {
      fact := firstLine edgeFact
      sourceEntity :=
        if row.seedInPath.truthy then .str (py.text row.seedInPath)
        else row.pathNodes.head?.getD (.str "")
      targetEntity := if row.targetInPath.truthy then py.text row.targetInPath else ""
      edgeType := if row.edgeType ≠ "" then row.edgeType else "RELATES_TO"
      hopDistance := row.hopDistance
      path := row.pathNodes
      cosine := none
      invalidAt := none
      origin := row.origin }
  | _ => none

/-- **What a fact does not keep.** It is a single row of the answer: unscored, and valid
whatever its relationship says. -/
theorem FactRow.ofRow_eq_some {row : BfsRow} {r : FactRow} (h : FactRow.ofRow py row = some r) :
    r.cosine = none ∧ r.invalidAt = none ∧ r.origin = row.origin ∧
      r.edgeType = if row.edgeType ≠ "" then row.edgeType else "RELATES_TO" := by
  unfold FactRow.ofRow at h
  split at h
  · next edgeFact _ =>
    by_cases hblank : strip edgeFact = ""
    · rw [if_pos hblank] at h
      cases h
    by_cases hline : firstLine edgeFact = ""
    · rw [if_neg hblank, if_pos hline] at h
      cases h
    rw [if_neg hblank, if_neg hline] at h
    cases h
    exact ⟨rfl, rfl, rfl, rfl⟩
  · cases h

/-! ## The server -/

/-- What becomes of the traversal. -/
inductive BfsOutcome (order : Value → Value → Bool) (g : BfsGraph) (seeds : List (List ℕ))
    (maxHops cap : ℤ) : Type where
  | answered (answer : BfsAnswer order g seeds maxHops cap)
  | timeout
  /-- an exception, with its text -/
  | raised (text : String)

/-- A FalkorDB server and how it behaves during one search. -/
structure Falkor : Type where
  escapes : Escapes
  /-- the order of values -/
  order : Value → Value → Bool
  graph : BfsGraph
  connected : Bool
  /-- the exception of the existence probe of a seed -/
  probeError : String → Option String
  bfs : ∀ seeds maxHops cap, BfsOutcome order graph seeds maxHops cap
  /-- `str.lower`, for the texts of exceptions -/
  lower : String → String

variable (falkor : Falkor)

/-- `_classify_cypher_error` -/
def Falkor.classifyCypherError (exc : String) : SearchError :=
  if ["invalid input", "syntax error", "errormessage", "expected", "parse"].any fun marker =>
      codes marker <:+: codes (falkor.lower exc) then
    .backend "INVALID_CYPHER"
      ("generated Cypher query was rejected by FalkorDB (not an outage): " ++ exc)
  else .backend "FALKOR_DOWN" ("cypher failed: " ++ exc)

/-- `SearchEngine._probe_seed_existence` -/
def Falkor.probeSeedExistence : List String → Except SearchError (List String)
  | [] => .ok []
  | name :: seeds =>
    match falkor.probeError name with
    | some exc => .error (falkor.classifyCypherError exc)
    | none => do
      let existing ← Falkor.probeSeedExistence seeds
      pure (if falkor.graph.nodes.any (BfsNode.Named (codes name)) then name :: existing
        else existing)

/-- The seeds as the server reads them from the query. They are the seeds of the request
unless one of these has a marker of the template. -/
def Falkor.seedsRead (seeds : List String) (maxHops cap : ℤ) : List (List ℕ) :=
  ((readBfs falkor.escapes (bfsQuery (seeds.map codes) maxHops cap)).map Prod.fst).getD []

theorem Falkor.seedsRead_eq (seeds : List String) (maxHops cap : ℤ) :
    falkor.seedsRead seeds maxHops cap =
      seeds.map fun seed => substituted maxHops cap (codes seed) := by
  rw [seedsRead, readBfs_bfsQuery, Option.map_some, Option.getD_some, List.map_map]
  rfl

/-- `SearchEngine._cypher_bfs`, under its timeout -/
def Falkor.cypherBfs (settings : SearchSettings) (req : SearchRequest) :
    Except SearchError (List FactRow) :=
  match falkor.bfs (falkor.seedsRead req.seeds req.maxHops settings.maxFactsPerQuery) req.maxHops
    settings.maxFactsPerQuery with
  | .answered answer => .ok (answer.rows.filterMap (FactRow.ofRow py))
  | .timeout =>
    .error (.backend "TRAVERSAL_TIMEOUT"
      ("BFS exceeded " ++ py.str (.float settings.traversalTimeoutSec) ++ "s budget"))
  | .raised exc => .error (falkor.classifyCypherError exc)

/-! ## A server -/

/-- An order of values: texts by their letters, and before everything else. -/
def textOrder : Value → Value → Bool
  | .str s, .str t => s ≤ t
  | .str _, _ => true
  | _, .str _ => false
  | _, _ => true

theorem textOrder_trans {u v w : Value} (huv : textOrder u v = true) (hvw : textOrder v w = true) :
    textOrder u w = true := by
  cases u with
  | str s =>
    cases v with
    | str t =>
      cases w with
      | str r =>
        simp only [textOrder, decide_eq_true_eq] at huv hvw ⊢
        exact String.le_trans huv hvw
      | _ => rfl
    | _ =>
      cases w with
      | str r => cases hvw
      | _ => rfl
  | _ =>
    cases v with
    | str t => cases huv
    | _ =>
      cases w with
      | str r => cases hvw
      | _ => rfl

theorem textOrder_total (v w : Value) : textOrder v w = true ∨ textOrder w v = true := by
  cases v with
  | str s =>
    cases w with
    | str t =>
      simp only [textOrder, decide_eq_true_eq]
      exact String.le_total s t
    | _ => exact .inl rfl
  | _ =>
    cases w with
    | str t => exact .inr rfl
    | _ => exact .inl rfl

instance (order : Value → Value → Bool) (a b : BfsRow) : Decidable (a.upTo order b) :=
  inferInstanceAs (Decidable (_ ∨ _))

/-- The answer in the order of the texts. -/
def BfsAnswer.byText (g : BfsGraph) (seeds : List (List ℕ)) (maxHops : ℤ) {cap : ℤ}
    (h : 0 ≤ cap) : BfsAnswer textOrder g seeds maxHops cap where
  rows := ((bfsRows g seeds maxHops).mergeSort fun a b => a.upTo textOrder b).take cap.toNat
  all := (bfsRows g seeds maxHops).mergeSort fun a b => a.upTo textOrder b
  perm := List.mergeSort_perm _ _
  ordered := by
    refine (List.pairwise_mergeSort ?_ ?_ _).imp fun hab => of_decide_eq_true hab
    · intro a b c hab hbc
      simp only [decide_eq_true_eq] at hab hbc ⊢
      rcases hab with hab | ⟨hab, hab'⟩
      · left
        rcases hbc with hbc | ⟨hbc, -⟩ <;> omega
      · rcases hbc with hbc | ⟨hbc, hbc'⟩
        · left
          omega
        · exact .inr ⟨hab.trans hbc, textOrder_trans hab' hbc'⟩
    · intro a b
      simp only [Bool.or_eq_true, decide_eq_true_eq]
      rcases lt_trichotomy a.hopDistance b.hopDistance with hlt | heq | hgt
      · exact .inl (.inl hlt)
      · exact (textOrder_total a.edgeFact b.edgeFact).imp (fun h => .inr ⟨heq, h⟩)
          fun h => .inr ⟨heq.symm, h⟩
      · exact .inr (.inl hgt)
  limited := rfl
  cap_nonneg := h

/-- A server that answers every query, if its limit is one. -/
def Falkor.answering (g : BfsGraph) : Falkor where
  escapes := ⟨id, rfl, rfl⟩
  order := textOrder
  graph := g
  connected := true
  probeError _ := none
  bfs seeds maxHops cap :=
    if h : 0 ≤ cap then .answered (.byText g seeds maxHops h)
    else .raised "LIMIT operates only on non-negative integers"
  lower := String.toLower

theorem Falkor.bfs_answering (g : BfsGraph) (seeds : List String) (maxHops : ℤ) {cap : ℤ}
    (h : 0 ≤ cap) :
    ∃ answer, (Falkor.answering g).bfs ((Falkor.answering g).seedsRead seeds maxHops cap) maxHops
        cap = .answered answer ∧
      answer.rows = ((bfsRows g (seeds.map fun seed => substituted maxHops cap (codes seed))
        maxHops).mergeSort fun a b => a.upTo textOrder b).take cap.toNat := by
  refine ⟨.byText g _ maxHops h, dif_pos h, ?_⟩
  rw [← Falkor.seedsRead_eq (Falkor.answering g)]
  rfl

end JanusGraph
