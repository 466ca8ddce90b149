import JanusGraph.Lib.Python
import JanusGraph.Lib.Replace

/-!
# The query text of the graph search

`SearchEngine._cypher_bfs` of `daemon/search_engine.py` writes the seeds into its query as
quoted literals, and then fills in two more markers, over the whole text. A text is its list of
code points (`codes`), so that a seed can be any Python string, lone surrogates included.

* **Escapes.** A letter of a seed becomes one letter or two (`escapeLetter`), and is read back as
  itself (`readLiterals_escape`). Which other escapes Cypher has does not matter: the two that are
  used are those of `Escapes`.
* **Markers.** The markers `{max_hops}` and `{cap}` are filled in after the seeds. A replacement
  goes through the text part by part (`replaceAll_query`): the template is left as it should be,
  and so is a seed, unless it has the marker itself (`substituted_eq_iff`). No marker reaches
  from a seed into what is around it, since there is no quote in a marker.
* **The query.** `bfsQuery_eq` is the text that is sent, `readBfs_bfsQuery` what it denotes.

`Dedup.escapeCypherString` of `pipeline/dedup.py` is the same function on texts; the second half
of the module is about one literal, whatever stands behind it.
-/

namespace JanusGraph

/-- Lines, one after another. -/
def text (lines : List String) : List ℕ := lines.flatMap codes

/-- The letters of a literal, which need not be decoded from its bytes. -/
theorem codes_eq {s : String} {l : List Char} (h : s = String.ofList l) :
    codes s = l.map Char.toNat := by
  rw [h, codes, String.toList_ofList]

/-! ## The text that is sent -/

/-- `_CYPHER_BFS` up to the marker `{seed_literals}` -/
def bfsHead : List String := ["\n", "UNWIND ["]

/-- `_CYPHER_BFS` after it, up to the marker `{max_hops}` -/
def bfsMatch : List String :=
  ["]", " AS seed_name\n",
    "MATCH (s ", "{name: seed_name})\n",
    "MATCH path = (s)-[*1.."]

/-- `_CYPHER_BFS` after it, up to the marker `{cap}` -/
def bfsFilter : List String :=
  ["]-(neighbor)\n",
    "WHERE ALL(rel IN relationships(path) ", "WHERE rel.invalid_at IS NULL OR true)\n",
    "WITH relationships(path) AS rels, ", "nodes(path) AS ns, length(path) AS hop_count\n",
    "UNWIND range(0, size(rels) - 1) AS i\n",
    "WITH ns, hop_count, i, rels[i] AS r\n",
    "WITH ns, hop_count, i, r,\n",
    "  CASE WHEN r.fact IS NOT NULL ", "AND r.fact <> '' THEN r.fact\n",
    "       WHEN ns[i + 1].summary IS NOT NULL ", "AND ns[i + 1].summary <> '' ",
    "THEN ns[i + 1].summary\n",
    "       ELSE null END AS edge_fact\n",
    "WHERE edge_fact IS NOT NULL\n",
    "RETURN\n",
    "  type(r) AS edge_type,\n",
    "  hop_count AS hop_distance,\n",
    "  [n IN ns | n.name][0..i + 1] AS path_nodes,\n",
    "  edge_fact,\n",
    "  [n IN ns | n.name][0] AS seed_in_path,\n",
    "  ns[i + 1].name AS target_in_path\n",
    "ORDER BY hop_distance ASC, edge_fact ASC\n",
    "LIMIT "]

/-- `_CYPHER_BFS` -/
def cypherBfs : List ℕ :=
  text (bfsHead ++ ["{seed_literals}"] ++ bfsMatch ++ ["{max_hops}"] ++ bfsFilter ++ ["{cap}"] ++
    ["\n"])

/-- `_escape_cypher_string`: the backslash first, then the quote. -/
def escapeCypherString (value : List ℕ) : List ℕ :=
  replaceAll (codes "'") (codes "\\'") (replaceAll (codes "\\") (codes "\\\\") value)

/-- `seed_literals` -/
def seedLiterals (seeds : List (List ℕ)) : List ℕ :=
  (codes ", ").intercalate (seeds.map fun name => codes "'" ++ escapeCypherString name ++ codes "'")

/-- `cypher` of `_cypher_bfs` -/
def bfsQuery (seeds : List (List ℕ)) (maxHops cap : ℤ) : List ℕ :=
  replaceAll (codes "{cap}") (codes (toString cap)) <|
    replaceAll (codes "{max_hops}") (codes (toString maxHops)) <|
      replaceAll (codes "{seed_literals}") (seedLiterals seeds) cypherBfs

/-! ## What the text denotes -/

/-- What a backslash and a letter denote inside a literal: at least these two denote the letter. -/
structure Escapes : Type where
  denotes : ℕ → ℕ
  backslash : denotes 92 = 92
  quote : denotes 39 = 39

/-- Where the reader of a list of literals is. -/
inductive Reader : Type where
  /-- before a literal -/
  | start (done : List (List ℕ))
  /-- in a literal, after `part` of it -/
  | inside (done : List (List ℕ)) (part : List ℕ)
  /-- after a backslash in a literal -/
  | escaped (done : List (List ℕ)) (part : List ℕ)
  /-- after a literal -/
  | after (done : List (List ℕ))

/-- The literals of a list up to its closing bracket, and the text after it. A backslash
takes the next letter with it, so that a quote behind it does not end the literal. -/
def readLiterals (esc : Escapes) : Reader → List ℕ → Option (List (List ℕ) × List ℕ)
  | _, [] => none
  | .start done, c :: t =>
    if c = 32 then readLiterals esc (.start done) t
    else if c = 39 then readLiterals esc (.inside done []) t
    else if c = 93 ∧ done = [] then some ([], t)
    else none
  | .inside done part, c :: t =>
    if c = 39 then readLiterals esc (.after (done ++ [part])) t
    else if c = 92 then readLiterals esc (.escaped done part) t
    else readLiterals esc (.inside done (part ++ [c])) t
  | .escaped done part, c :: t => readLiterals esc (.inside done (part ++ [esc.denotes c])) t
  | .after done, c :: t =>
    if c = 32 then readLiterals esc (.after done) t
    else if c = 44 then readLiterals esc (.start done) t
    else if c = 93 then some (done, t)
    else none

/-- The seeds that a query unwinds, and the text after their list. -/
def readBfs (esc : Escapes) (query : List ℕ) : Option (List (List ℕ) × List ℕ) :=
  if text bfsHead <+: query then
    readLiterals esc (.start []) (query.drop (text bfsHead).length)
  else none

/-- The template after the list, with `max_hops` and `cap` in their places. -/
def bfsRest (maxHops cap : ℤ) : List ℕ :=
  text bfsMatch.tail ++ codes (toString maxHops) ++ text bfsFilter ++ codes (toString cap) ++
    codes "\n"

/-- **The query says what was asked.** It denotes the seeds, and is the template around them.
-/
def BfsFaithful (esc : Escapes) (seeds : List (List ℕ)) (maxHops cap : ℤ) : Prop :=
  readBfs esc (bfsQuery seeds maxHops cap) = some (seeds, bfsRest maxHops cap)

/-! ## Numbers and escapes -/

/-- A number is written with digits and a sign. -/
theorem mem_codes_toString {n : ℤ} {c : ℕ} (h : c ∈ codes (toString n)) :
    c = 45 ∨ 48 ≤ c ∧ c ≤ 57 := by
  have hdigits : ∀ (k : ℕ) (d : Char), d ∈ (Nat.repr k).toList → 48 ≤ d.toNat ∧ d.toNat ≤ 57 := by
    intro k d hd
    have hdigit : d.isDigit = true :=
      Nat.isDigit_of_mem_toDigits (b := 10) (n := k) (by decide) (by decide) (by simpa [Nat.repr] using hd)
    simp only [Char.isDigit, Bool.and_eq_true, decide_eq_true_eq, UInt32.le_iff_toNat_le] at hdigit
    exact hdigit
  obtain ⟨d, hd, rfl⟩ := List.mem_map.mp h
  rcases n with k | k
  · exact .inr (hdigits k d hd)
  · have hneg : toString (Int.negSucc k) = "-" ++ Nat.repr (k + 1) := rfl
    rw [hneg, String.toList_append, List.mem_append] at hd
    rcases hd with hd | hd
    · left
      obtain rfl : d = '-' := by simpa using hd
      rfl
    · exact .inr (hdigits _ d hd)

/-- A number has no brace. -/
theorem brace_not_mem_toString (n : ℤ) : 123 ∉ codes (toString n) := by
  intro h
  have := mem_codes_toString h
  omega

/-- What `_escape_cypher_string` makes of a letter. -/
def escapeLetter (c : ℕ) : List ℕ :=
  if c = 92 then [92, 92] else if c = 39 then [92, 39] else [c]

/-- The two replacements act letter by letter: the second one meets no quote that the first
has made. -/
theorem escapeCypherString_eq (s : List ℕ) : escapeCypherString s = s.flatMap escapeLetter := by
  have hbackslash : codes "\\" = [92] := by decide
  have hquote : codes "'" = [39] := by decide
  have hbackslashes : codes "\\\\" = [92, 92] := by decide
  have hescaped : codes "\\'" = [92, 39] := by decide
  rw [escapeCypherString, hbackslash, hquote, hbackslashes, hescaped, replaceAll_singleton,
    replaceAll_singleton, List.flatMap_assoc]
  refine congrArg (s.flatMap ·) (funext fun c => ?_)
  by_cases hc : c = 92
  · simp [escapeLetter, hc]
  · by_cases hc' : c = 39 <;> simp [escapeLetter, hc, hc']

/-- A marker without a backslash or a quote is left alone by the escapes. -/
theorem leavesAlone_escapeLetter {m : List ℕ} (hbackslash : 92 ∉ m) (hquote : 39 ∉ m) :
    LeavesAlone escapeLetter m where
  keeps c hc := by
    rw [escapeLetter, if_neg (by rintro rfl; exact hbackslash hc),
      if_neg (by rintro rfl; exact hquote hc)]
  ne_nil c := by
    rw [escapeLetter]
    split
    · exact List.cons_ne_nil _ _
    · split <;> exact List.cons_ne_nil _ _
  avoids c hc d hd := by
    rw [escapeLetter] at hd
    split at hd
    · rcases List.mem_pair.mp hd with rfl | rfl <;> exact hbackslash
    · split at hd
      · rcases List.mem_pair.mp hd with rfl | rfl
        · exact hbackslash
        · exact hquote
      · rw [List.mem_singleton.mp hd]
        exact hc

/-- A number has nothing to escape. -/
theorem flatMap_escapeLetter_toString (n : ℤ) :
    (codes (toString n)).flatMap escapeLetter = codes (toString n) := by
  have hkeep : ∀ l : List ℕ, (∀ c ∈ l, c = 45 ∨ 48 ≤ c ∧ c ≤ 57) → l.flatMap escapeLetter = l := by
    intro l hl
    induction l with
    | nil => rfl
    | cons c l ih =>
      have hc := hl c List.mem_cons_self
      rw [List.flatMap_cons, ih fun d hd => hl d (List.mem_cons_of_mem _ hd), escapeLetter,
        if_neg (by omega), if_neg (by omega)]
      rfl
  exact hkeep _ fun _ hc => mem_codes_toString hc

/-! ## The literals -/

theorem seedLiterals_singleton (s : List ℕ) :
    seedLiterals [s] = 39 :: (s.flatMap escapeLetter ++ [39]) := by
  have hquote : codes "'" = [39] := by decide
  rw [seedLiterals, List.map_singleton, List.intercalate_singleton, escapeCypherString_eq, hquote,
    List.append_assoc]
  rfl

theorem seedLiterals_cons_cons (s s' : List ℕ) (seeds : List (List ℕ)) :
    seedLiterals (s :: s' :: seeds) =
      39 :: (s.flatMap escapeLetter ++ 39 :: 44 :: 32 :: seedLiterals (s' :: seeds)) := by
  have hquote : codes "'" = [39] := by decide
  have hcomma : codes ", " = [44, 32] := by decide
  rw [seedLiterals, List.map_cons, List.map_cons, List.intercalate_cons_cons, seedLiterals,
    List.map_cons, escapeCypherString_eq, hquote, hcomma]
  simp

/-- **One letter.** A literal is read back as the text that was escaped, letter by letter. -/
theorem readLiterals_escape (esc : Escapes) (done : List (List ℕ)) (part s t : List ℕ) :
    readLiterals esc (.inside done part) (s.flatMap escapeLetter ++ 39 :: t) =
      readLiterals esc (.after (done ++ [part ++ s])) t := by
  induction s generalizing part with
  | nil => rw [List.flatMap_nil, List.nil_append, List.append_nil, readLiterals, if_pos rfl]
  | cons c s ih =>
    have hrest := ih (part ++ [c])
    rw [List.append_assoc, List.singleton_append] at hrest
    rw [List.flatMap_cons, escapeLetter]
    by_cases hbackslash : c = 92
    · subst hbackslash
      rw [if_pos rfl, ← hrest]
      simp [readLiterals, esc.backslash]
    · by_cases hquote : c = 39
      · subst hquote
        rw [if_neg hbackslash, if_pos rfl, ← hrest]
        simp [readLiterals, esc.quote]
      · rw [if_neg hbackslash, if_neg hquote, ← hrest]
        simp [readLiterals, hbackslash, hquote]

/-- **One list.** The list of literals is read back as the seeds, whatever they contain. -/
theorem readLiterals_seedLiterals (esc : Escapes) (done seeds : List (List ℕ)) (t : List ℕ)
    (h : done = [] ∨ seeds ≠ []) :
    readLiterals esc (.start done) (seedLiterals seeds ++ 93 :: t) = some (done ++ seeds, t) := by
  induction seeds generalizing done with
  | nil =>
    obtain rfl : done = [] := h.resolve_right fun hne => hne rfl
    have hnil : seedLiterals [] = [] := rfl
    rw [hnil, List.nil_append, readLiterals]
    simp
  | cons s seeds ih =>
    rcases seeds with _ | ⟨s', seeds⟩
    · rw [seedLiterals_singleton, List.cons_append, readLiterals, if_neg (by decide), if_pos rfl,
        List.append_assoc, List.singleton_append, readLiterals_escape, readLiterals]
      simp
    · have hrest := ih (done ++ [s]) (.inr (List.cons_ne_nil _ _))
      rw [List.append_assoc, List.singleton_append] at hrest
      rw [seedLiterals_cons_cons, List.cons_append, readLiterals, if_neg (by decide), if_pos rfl,
        List.append_assoc, List.cons_append, readLiterals_escape, ← hrest]
      simp [readLiterals]

/-- **One replacement** acts on the list of literals seed by seed, if neither side of it has
a letter of the list itself. -/
theorem replaceAll_seedLiterals {m r : List ℕ} (hm : m ≠ [])
    (hletters : ∀ c ∈ [92, 39, 44, 32], c ∉ m) (hr : r.flatMap escapeLetter = r)
    (seeds : List (List ℕ)) :
    replaceAll m r (seedLiterals seeds) = seedLiterals (seeds.map (replaceAll m r)) := by
  have hleaves : LeavesAlone escapeLetter m :=
    leavesAlone_escapeLetter (hletters 92 (by simp)) (hletters 39 (by simp))
  have hquote : 39 ∉ m := hletters 39 (by simp)
  have hbarrier : ∀ {q : ℕ} (_ : q ∉ m) (t : List ℕ),
      replaceAll m r (q :: t) = q :: replaceAll m r t := fun hq t => by
    simpa using replaceAll_append_cons (r := r) hm hq [] t
  induction seeds with
  | nil => rfl
  | cons s seeds ih =>
    rcases seeds with _ | ⟨s', seeds⟩
    · rw [List.map_singleton, seedLiterals_singleton, seedLiterals_singleton, hbarrier hquote,
        replaceAll_append_cons hm hquote, replaceAll_flatMap hm hleaves hr, replaceAll_nil]
    · rw [List.map_cons] at ih
      rw [List.map_cons, List.map_cons, seedLiterals_cons_cons, seedLiterals_cons_cons, hbarrier hquote,
        replaceAll_append_cons hm hquote, replaceAll_flatMap hm hleaves hr,
        hbarrier (hletters 44 (by simp)), hbarrier (hletters 32 (by simp)), ih]

/-! ## The template -/

/-- The template after the list of literals, with two texts in the places of the markers. -/
def bfsTail (hops cap : List ℕ) : List ℕ :=
  text bfsMatch.tail ++ hops ++ text bfsFilter ++ cap ++ codes "\n"

/-- The marker `{seed_literals}` -/
def seedMarker : List ℕ := codes "{seed_literals}"

/-- The marker `{max_hops}` -/
def hopsMarker : List ℕ := codes "{max_hops}"

/-- The marker `{cap}` -/
def capMarker : List ℕ := codes "{cap}"

theorem seedMarker_eq : seedMarker =
    123 :: 115 :: [101, 101, 100, 95, 108, 105, 116, 101, 114, 97, 108, 115, 125] := by
  decide

theorem hopsMarker_eq : hopsMarker = 123 :: 109 :: [97, 120, 95, 104, 111, 112, 115, 125] := by
  decide

theorem capMarker_eq : capMarker = 123 :: 99 :: [97, 112, 125] := by decide

/-- The braces of the template: those of the markers, and one before a name. -/
theorem bfsMatch_tail_eq : text bfsMatch.tail = text [" AS seed_name\n", "MATCH (s "] ++
    123 :: 110 :: text ["ame: seed_name\x7d)\n", "MATCH path = (s)-[*1.."] := by
  decide +kernel

/-- There is no brace in the filter of the template, -/
theorem brace_not_mem_bfsFilter : 123 ∉ text bfsFilter := by
  simp only [bfsFilter, text, List.flatMap_cons, List.flatMap_nil, List.append_nil,
    List.mem_append, not_or]
  and_intros
  all_goals
    rw [codes_eq rfl]
    decide

/-- or in its head. -/
theorem brace_not_mem_bfsHead : 123 ∉ text bfsHead := by decide

theorem bfsTail_eq (hops cap : List ℕ) :
    93 :: bfsTail hops cap = (93 :: text [" AS seed_name\n", "MATCH (s "]) ++ 123 :: 110 ::
      (text ["ame: seed_name\x7d)\n", "MATCH path = (s)-[*1.."] ++
        (hops ++ (text bfsFilter ++ (cap ++ [10])))) := by
  have hline : codes "\n" = [10] := by decide
  rw [bfsTail, bfsMatch_tail_eq, hline]
  simp only [List.append_assoc, List.cons_append]

/-- What every marker passes over up to the place of `max_hops`. -/
theorem replaceAll_bfsTail {y : ℕ} {m r : List ℕ} (hy : y ≠ 110) (hops cap : List ℕ) :
    replaceAll (123 :: y :: m) r (93 :: bfsTail hops cap) =
      (93 :: text [" AS seed_name\n", "MATCH (s "]) ++ 123 :: 110 ::
        (text ["ame: seed_name\x7d)\n", "MATCH path = (s)-[*1.."] ++
          replaceAll (123 :: y :: m) r (hops ++ (text bfsFilter ++ (cap ++ [10])))) := by
  have hbefore : 123 ∉ 93 :: text [" AS seed_name\n", "MATCH (s "] := by decide +kernel
  have hafter : 123 ∉ 110 :: text ["ame: seed_name\x7d)\n", "MATCH path = (s)-[*1.."] := by
    decide +kernel
  rw [bfsTail_eq, replaceAll_append_of_second_ne hbefore hy.symm]
  have hpass := replaceAll_append_of_head_not_mem (m := y :: m) (r := r) hafter
    (hops ++ (text bfsFilter ++ (cap ++ [10])))
  rw [List.cons_append] at hpass
  rw [hpass]
  rfl

/-- Behind the filter there is only the marker `{cap}`. -/
theorem replaceAll_bfsFilter {y : ℕ} {m r : List ℕ} (hy : y ≠ 99) :
    replaceAll (123 :: y :: m) r (text bfsFilter ++ (capMarker ++ [10])) =
      text bfsFilter ++ (capMarker ++ [10]) := by
  have hcap : text bfsFilter ++ (capMarker ++ [10]) =
      text bfsFilter ++ 123 :: 99 :: [97, 112, 125, 10] := by rw [capMarker_eq]; rfl
  rw [hcap, replaceAll_append_of_second_ne brace_not_mem_bfsFilter hy.symm,
    replaceAll_of_head_not_mem (by decide)]

theorem replaceAll_seedMarker (r : List ℕ) :
    replaceAll seedMarker r (93 :: bfsTail hopsMarker capMarker) =
      93 :: bfsTail hopsMarker capMarker := by
  have hhops : replaceAll seedMarker r (hopsMarker ++ (text bfsFilter ++ (capMarker ++ [10]))) =
      hopsMarker ++ (text bfsFilter ++ (capMarker ++ [10])) := by
    have hletters : 123 ∉ 109 :: [97, 120, 95, 104, 111, 112, 115, 125] := by decide
    have hpass := replaceAll_append_of_head_not_mem
      (m := 115 :: [101, 101, 100, 95, 108, 105, 116, 101, 114, 97, 108, 115, 125]) (r := r)
      hletters (text bfsFilter ++ (capMarker ++ [10]))
    rw [replaceAll_bfsFilter (by decide)] at hpass
    rw [seedMarker_eq, hopsMarker_eq, List.cons_append]
    refine (replaceAll_append_of_second_ne (a := []) (by decide) (by decide) _).trans ?_
    exact congrArg (123 :: ·) hpass
  rw [seedMarker_eq] at hhops ⊢
  rw [replaceAll_bfsTail (by decide), hhops, ← bfsTail_eq]

theorem replaceAll_hopsMarker (r : List ℕ) :
    replaceAll hopsMarker r (93 :: bfsTail hopsMarker capMarker) = 93 :: bfsTail r capMarker := by
  have hhops : replaceAll hopsMarker r (hopsMarker ++ (text bfsFilter ++ (capMarker ++ [10]))) =
      r ++ (text bfsFilter ++ (capMarker ++ [10])) := by
    rw [replaceAll_append (by rw [hopsMarker_eq]; exact List.cons_ne_nil _ _), hopsMarker_eq,
      replaceAll_bfsFilter (by decide)]
  rw [hopsMarker_eq] at hhops
  have htail := replaceAll_bfsTail (y := 109) (m := [97, 120, 95, 104, 111, 112, 115, 125])
    (r := r) (by decide) hopsMarker capMarker
  rw [← hopsMarker_eq] at hhops htail
  rw [htail, hhops, ← bfsTail_eq]

theorem replaceAll_capMarker {hops : List ℕ} (hhops : 123 ∉ hops) (r : List ℕ) :
    replaceAll capMarker r (93 :: bfsTail hops capMarker) = 93 :: bfsTail hops r := by
  have hfilter : 123 ∉ hops ++ text bfsFilter := by
    rw [List.mem_append, not_or]
    exact ⟨hhops, brace_not_mem_bfsFilter⟩
  have hcap : replaceAll capMarker r (hops ++ (text bfsFilter ++ (capMarker ++ [10]))) =
      hops ++ (text bfsFilter ++ (r ++ [10])) := by
    rw [← List.append_assoc, capMarker_eq, replaceAll_append_of_head_not_mem hfilter,
      replaceAll_append (List.cons_ne_nil _ _), replaceAll_of_head_not_mem (by decide),
      List.append_assoc]
  rw [capMarker_eq] at hcap ⊢
  rw [replaceAll_bfsTail (by decide), hcap, ← bfsTail_eq]

/-! ## The query -/

/-- What the two later replacements make of a seed. -/
def substituted (maxHops cap : ℤ) (seed : List ℕ) : List ℕ :=
  replaceAll capMarker (codes (toString cap)) (replaceAll hopsMarker (codes (toString maxHops)) seed)

/-- **One marker** acts on a query part by part: it passes over the head, and neither it nor
the closing bracket reaches into the other. -/
theorem replaceAll_query {y : ℕ} {m r : List ℕ} (hm : ∀ c ∈ [92, 39, 44, 32, 93], c ∉ 123 :: y :: m)
    (hr : r.flatMap escapeLetter = r) (seeds : List (List ℕ)) (t : List ℕ) :
    replaceAll (123 :: y :: m) r (text bfsHead ++ (seedLiterals seeds ++ 93 :: t)) =
      text bfsHead ++ (seedLiterals (seeds.map (replaceAll (123 :: y :: m) r)) ++
        replaceAll (123 :: y :: m) r (93 :: t)) := by
  have hbracket : 93 ∉ 123 :: y :: m := hm 93 (by simp)
  have hlast : replaceAll (123 :: y :: m) r (93 :: t) = 93 :: replaceAll (123 :: y :: m) r t := by
    simpa using replaceAll_append_cons (r := r) (List.cons_ne_nil 123 (y :: m)) hbracket [] t
  rw [replaceAll_append_of_head_not_mem brace_not_mem_bfsHead,
    replaceAll_append_cons (List.cons_ne_nil _ _) hbracket,
    replaceAll_seedLiterals (List.cons_ne_nil _ _) (fun c hc => hm c (by simp at hc ⊢; tauto)) hr,
    hlast]

/-- The template, with its markers. -/
theorem cypherBfs_eq :
    cypherBfs = text bfsHead ++ (seedMarker ++ 93 :: bfsTail hopsMarker capMarker) := by
  have hmatch : text bfsMatch = codes "]" ++ text bfsMatch.tail := by
    rw [bfsMatch, text, List.flatMap_cons]
    rfl
  have hbracket : codes "]" = [93] := by decide
  have hline : ∀ s, text [s] = codes s := fun s => by rw [text, List.flatMap_singleton]
  have happend : ∀ ls ls', text (ls ++ ls') = text ls ++ text ls' := fun ls ls' => by
    rw [text, List.flatMap_append, text, text]
  rw [cypherBfs, bfsTail, seedMarker, hopsMarker, capMarker]
  rw [happend, happend, happend, happend, happend, happend, hline, hline, hline, hline, hmatch,
    hbracket]
  simp only [List.append_assoc, List.cons_append, List.nil_append]

/-- **The query** is the template around the literals of the seeds as the later replacements
leave them. -/
theorem bfsQuery_eq (seeds : List (List ℕ)) (maxHops cap : ℤ) :
    bfsQuery seeds maxHops cap = text bfsHead ++
      (seedLiterals (seeds.map (substituted maxHops cap)) ++ 93 :: bfsRest maxHops cap) := by
  have hseeds : replaceAll seedMarker (seedLiterals seeds) cypherBfs =
      text bfsHead ++ (seedLiterals seeds ++ 93 :: bfsTail hopsMarker capMarker) := by
    rw [cypherBfs_eq]
    have hpass := replaceAll_seedMarker (seedLiterals seeds)
    rw [seedMarker_eq] at hpass ⊢
    rw [replaceAll_append_of_head_not_mem brace_not_mem_bfsHead,
      replaceAll_append (List.cons_ne_nil _ _), hpass]
  have hhops := replaceAll_query (y := 109) (m := [97, 120, 95, 104, 111, 112, 115, 125])
    (by decide) (flatMap_escapeLetter_toString maxHops) seeds (bfsTail hopsMarker capMarker)
  rw [← hopsMarker_eq, replaceAll_hopsMarker] at hhops
  have hcap := replaceAll_query (y := 99) (m := [97, 112, 125])
    (by decide) (flatMap_escapeLetter_toString cap)
    (seeds.map (replaceAll hopsMarker (codes (toString maxHops))))
    (bfsTail (codes (toString maxHops)) capMarker)
  rw [← capMarker_eq, replaceAll_capMarker (brace_not_mem_toString maxHops), List.map_map] at hcap
  change replaceAll capMarker _ (replaceAll hopsMarker _ (replaceAll seedMarker _ cypherBfs)) = _
  rw [hseeds, hhops, hcap]
  rfl

/-- The query is read back as the seeds that it was left with. -/
theorem readBfs_bfsQuery (esc : Escapes) (seeds : List (List ℕ)) (maxHops cap : ℤ) :
    readBfs esc (bfsQuery seeds maxHops cap) =
      some (seeds.map (substituted maxHops cap), bfsRest maxHops cap) := by
  rw [bfsQuery_eq, readBfs, if_pos (List.prefix_append _ _), List.drop_left,
    readLiterals_seedLiterals esc [] _ _ (.inl rfl), List.nil_append]

/-- **When nothing is replaced.** A seed stays as it is exactly if it has neither marker.
Each replacement takes a brace away, and no number brings one back. -/
theorem substituted_eq_iff {maxHops cap : ℤ} {seed : List ℕ} :
    substituted maxHops cap seed = seed ↔ ¬ hopsMarker <:+: seed ∧ ¬ capMarker <:+: seed := by
  have hhops : 123 ∈ hopsMarker := by rw [hopsMarker_eq]; exact List.mem_cons_self
  have hcap : 123 ∈ capMarker := by rw [capMarker_eq]; exact List.mem_cons_self
  obtain ⟨hle, hlt⟩ := count_replaceAll hhops (brace_not_mem_toString maxHops) seed
  obtain ⟨hle', hlt'⟩ := count_replaceAll hcap (brace_not_mem_toString cap)
    (replaceAll hopsMarker (codes (toString maxHops)) seed)
  rw [substituted]
  constructor
  · intro h
    have hsame := congrArg (List.count 123) h
    have hfree : ¬ hopsMarker <:+: seed := fun hin => by
      have := hlt hin
      omega
    refine ⟨hfree, fun hin => ?_⟩
    rw [replaceAll_of_not_occurs hfree] at hlt' hsame
    have := hlt' hin
    omega
  · rintro ⟨hfree, hfree'⟩
    rw [replaceAll_of_not_occurs hfree, replaceAll_of_not_occurs hfree']

/-- **Seeds are quoted faithfully, exactly when** none of them has a marker of the template. The
query is always the template around a list of literals; the literals denote the seeds in order
if and only if no seed contains `{max_hops}` or `{cap}`. -/
theorem bfs_faithful_iff (esc : Escapes) (seeds : List (List ℕ)) (maxHops cap : ℤ) :
    BfsFaithful esc seeds maxHops cap ↔
      ∀ seed ∈ seeds, ¬ codes "{max_hops}" <:+: seed ∧ ¬ codes "{cap}" <:+: seed := by
  rw [BfsFaithful, readBfs_bfsQuery, Option.some.injEq, Prod.mk.injEq, and_iff_left rfl]
  have hid : seeds.map (substituted maxHops cap) = seeds ↔
      ∀ seed ∈ seeds, substituted maxHops cap seed = seed := by
    conv_lhs => rhs; rw [← List.map_id seeds]
    exact List.map_inj_left
  rw [hid]
  exact forall₂_congr fun seed _ => substituted_eq_iff

/-- A seed that is one of the markers. -/
theorem not_bfs_faithful : ¬ BfsFaithful ⟨id, rfl, rfl⟩ [codes "{cap}"] 2 500 := by
  intro h
  rw [BfsFaithful, readBfs_bfsQuery] at h
  have hseeds := (Prod.mk.inj (Option.some.inj h)).1
  exact absurd hseeds (by decide)

/-! ## One literal -/

/-- `escape_cypher_string` of `pipeline/dedup.py`, where the value may be missing -/
def Dedup.escapeCypherString (value : Option (List ℕ)) : List ℕ :=
  let out := replaceAll (codes "\\") (codes "\\\\") (value.getD [])
  replaceAll (codes "'") (codes "\\'") out

/-- A literal after its opening quote, or after a backslash in it: what is left of it, and the
text behind its closing quote. -/
def readBody (esc : Escapes) : Bool → List ℕ → Option (List ℕ × List ℕ)
  | _, [] => none
  | true, c :: t => (readBody esc false t).map fun r => (esc.denotes c :: r.1, r.2)
  | false, c :: t =>
    if c = 39 then some ([], t)
    else if c = 92 then readBody esc true t
    else (readBody esc false t).map fun r => (c :: r.1, r.2)

/-- A literal, and the text behind it. -/
def readLiteral (esc : Escapes) : List ℕ → Option (List ℕ × List ℕ)
  | [] => none
  | c :: t => if c = 39 then readBody esc false t else none

/-- A letter is read back from its escape. -/
theorem readBody_escapeLetter (esc : Escapes) (c : ℕ) (t : List ℕ) :
    readBody esc false (escapeLetter c ++ t) =
      (readBody esc false t).map fun r => (c :: r.1, r.2) := by
  rw [escapeLetter]
  by_cases hbackslash : c = 92
  · subst hbackslash
    simp [readBody, esc.backslash]
  · by_cases hquote : c = 39
    · subst hquote
      simp [readBody, esc.quote]
    · simp [readBody, hbackslash, hquote]

/-- **One text** is read back from its escapes, up to the quote behind them. -/
theorem readBody_flatMap_escapeLetter (esc : Escapes) (s t : List ℕ) :
    readBody esc false (s.flatMap escapeLetter ++ 39 :: t) = some (s, t) := by
  induction s with
  | nil => rw [List.flatMap_nil, List.nil_append, readBody, if_pos rfl]
  | cons c s ih =>
    rw [List.flatMap_cons, List.append_assoc, readBody_escapeLetter, ih, Option.map_some]

/-- **Escaping is exact.** A quoted text is read as that text, and reading stops at its closing
quote, whatever follows; the two modules escape alike. -/
theorem escapeCypherString_exact (esc : Escapes) (s t : List ℕ) :
    readLiteral esc (codes "'" ++ escapeCypherString s ++ codes "'" ++ t) = some (s, t) ∧
      Dedup.escapeCypherString (some s) = escapeCypherString s := by
  refine ⟨?_, rfl⟩
  have hquote : codes "'" = [39] := by decide
  rw [hquote, escapeCypherString_eq, List.append_assoc, List.append_assoc, List.singleton_append,
    List.singleton_append, readLiteral, if_pos rfl, readBody_flatMap_escapeLetter]

end JanusGraph
