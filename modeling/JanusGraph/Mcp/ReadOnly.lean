import JanusGraph.Lib.Python
import Mathlib.Data.List.Forall2

/-!
# The gate of the query tool

`is_read_only_cypher` of `mcp/server.py` looks for the blocked clauses in the raw text of a
query. What the query says is its stream of tokens: white space and comments of any kind
separate them, keywords have any case, and nothing inside a literal is one. A keyword is found
by the pattern wherever it is a token; `LOAD CSV` is two tokens, and the pattern has exactly one
space between them.
-/

namespace JanusGraph

/-- What is known of characters: those that `\w` matches, those of which the words of Cypher are
made (keywords, names and numbers), and those that are white space there. -/
structure CharClasses : Type where
  /-- `\w` -/
  word : ℕ → Bool
  /-- a character of a word -/
  part : ℕ → Bool
  space : ℕ → Bool
  /-- a letter, `ſ` included, is matched -/
  letter : ∀ c, 65 ≤ c ∧ c ≤ 90 ∨ 97 ≤ c ∧ c ≤ 122 ∨ c = 383 → word c = true
  /-- what `\w` matches does not end a word -/
  part_of_word : ∀ c, word c = true → part c = true
  /-- a line break, a space, a quote of any kind and a slash end a word -/
  delimiter : ∀ c ∈ [10, 13, 32, 34, 39, 47, 96], part c = false

/-! ## The pattern -/

/-- `BLOCKED_CYPHER_KEYWORDS` -/
def blockedCypherKeywords : List String :=
  ["CREATE", "DELETE", "SET", "DROP", "REMOVE", "MERGE", "DETACH", "FOREACH", "CALL", "LOAD CSV"]

/-- Whether `re.IGNORECASE` lets the character `k` of a keyword match `c`. Besides the two cases
of a letter, an `S` matches `ſ`; no keyword has an `I` or a `K`, which have other forms, too. -/
def sameIgnoringCase (k c : ℕ) : Bool :=
  c = k || (65 ≤ k && k ≤ 90 && c = k + 32) || (k = 83 && c = 383)

/-- The keyword at the start of the text: what is left behind it. -/
def matchKeyword : List ℕ → List ℕ → Option (List ℕ)
  | [], t => some t
  | _ :: _, [] => none
  | k :: kw, c :: t => if sameIgnoringCase k c then matchKeyword kw t else none

section

variable (cls : CharClasses)

/-- `\b`, between two characters or at an end of the text -/
def boundary (before after : Option ℕ) : Bool := before.any cls.word != after.any cls.word

/-- `\bKW\b` at one place of the text; `prev` is the character before it. -/
def matchesAt (kw : List ℕ) (prev : Option ℕ) (t : List ℕ) : Bool :=
  match matchKeyword kw t with
  | none => false
  | some rest =>
    boundary cls prev t.head? &&
      boundary cls (t.take (t.length - rest.length)).getLast? rest.head?

/-- `re.search(rf"\bKW\b", query, re.IGNORECASE)`, from the place behind `prev` on -/
def search (kw : List ℕ) : Option ℕ → List ℕ → Bool
  | prev, [] => matchesAt cls kw prev []
  | prev, c :: t => matchesAt cls kw prev (c :: t) || search kw (some c) t

/-- `is_read_only_cypher` -/
def isReadOnlyCypher (query : List ℕ) : Bool × Option String :=
  match blockedCypherKeywords.find? fun kw => search cls (codes kw) none query with
  | some kw => (false, some kw)
  | none => (true, none)

/-- What becomes of a query. -/
inductive QueryFate : Type where
  | rejected (error : String) (blockedKeyword : Option String)
  /-- sent to FalkorDB -/
  | sent (query : List ℕ)
  deriving DecidableEq

/-- The gate of `cypher_query` -/
def cypherQuery (query : List ℕ) : QueryFate :=
  match isReadOnlyCypher cls query with
  | (false, blockedKw) =>
    .rejected ("Mutating Cypher operations are forbidden in read-only mode (found '" ++
      blockedKw.getD "None" ++ "')") blockedKw
  | (true, _) => .sent query

/-! ## The token stream -/

/-- A token. -/
inductive Token : Type where
  /-- a keyword or a name -/
  | name (w : List ℕ)
  /-- a quoted literal or name -/
  | quoted
  | symbol (c : ℕ)
  deriving DecidableEq

/-- Where the lexer is. -/
inductive LexState : Type where
  | between
  | name (w : List ℕ)
  /-- inside the quotes `q` -/
  | quoted (q : ℕ)
  /-- after a backslash inside the quotes `q` -/
  | escaped (q : ℕ)
  /-- after a slash -/
  | slash
  | lineComment
  | blockComment
  /-- after a star inside a comment -/
  | star

/-- A character between two tokens. -/
def LexState.openAt (c : ℕ) : List Token × LexState :=
  if cls.part c then ([], .name [c])
  else if c = 34 ∨ c = 39 ∨ c = 96 then ([], .quoted c)
  else if c = 47 then ([], .slash)
  else if cls.space c then ([], .between)
  else ([.symbol c], .between)

/-- The next character. -/
def LexState.step : LexState → ℕ → List Token × LexState
  | .between, c => openAt cls c
  | .name w, c =>
    if cls.part c then ([], .name (w ++ [c]))
    else (.name w :: (openAt cls c).1, (openAt cls c).2)
  | .quoted q, c =>
    if c = q then ([.quoted], .between)
    -- a backslash escapes, but not between back quotes
    else if c = 92 ∧ q ≠ 96 then ([], .escaped q)
    else ([], .quoted q)
  | .escaped q, _ => ([], .quoted q)
  | .slash, c =>
    if c = 47 then ([], .lineComment)
    else if c = 42 then ([], .blockComment)
    else (.symbol 47 :: (openAt cls c).1, (openAt cls c).2)
  | .lineComment, c => if c = 10 ∨ c = 13 then ([], .between) else ([], .lineComment)
  | .blockComment, c => if c = 42 then ([], .star) else ([], .blockComment)
  | .star, c =>
    if c = 47 then ([], .between) else if c = 42 then ([], .star) else ([], .blockComment)

/-- The end of the text. -/
def LexState.flush : LexState → List Token
  | .name w => [.name w]
  | .quoted _ | .escaped _ => [.quoted]
  | .slash => [.symbol 47]
  | _ => []

/-- The tokens of the rest of a text. -/
def lexFrom : LexState → List ℕ → List Token
  | s, [] => s.flush
  | s, c :: t => (s.step cls c).1 ++ lexFrom (s.step cls c).2 t

/-- The token stream of a query. -/
def tokens (query : List ℕ) : List Token := lexFrom cls .between query

end

/-- The blocked clauses, word by word. -/
def blockedClauses : List (List String) :=
  [["CREATE"], ["DELETE"], ["SET"], ["DROP"], ["REMOVE"], ["MERGE"], ["DETACH"], ["FOREACH"],
    ["CALL"], ["LOAD", "CSV"]]

example : blockedClauses.map " ".intercalate = blockedCypherKeywords := by decide

/-- The upper case of an ASCII letter. -/
def asciiUpper (c : ℕ) : ℕ := if 97 ≤ c ∧ c ≤ 122 then c - 32 else c

/-- The token is the keyword, in any case. -/
def Token.IsKeyword (kw : String) (tok : Token) : Prop :=
  ∃ w, tok = .name w ∧ w.map asciiUpper = codes kw

/-- The words of a clause are tokens, one right after the other. -/
def HasClause (clause : List String) (toks : List Token) : Prop :=
  ∃ before found after, toks = before ++ found ++ after ∧
    List.Forall₂ Token.IsKeyword clause found

/-- The keyword stands in the raw text, with no `\w` before or after it, wherever that is. -/
def StandsAlone (cls : CharClasses) (kw : String) (query : List ℕ) : Prop :=
  ∃ before w after, query = before ++ w ++ after ∧
    List.Forall₂ (fun k c => sameIgnoringCase k c = true) (codes kw) w ∧
    before.getLast?.any cls.word = false ∧ after.head?.any cls.word = false

/-! ## What the pattern finds -/

theorem matchKeyword_eq_some {kw t rest : List ℕ} :
    matchKeyword kw t = some rest ↔
      ∃ w, t = w ++ rest ∧ List.Forall₂ (fun k c => sameIgnoringCase k c = true) kw w := by
  induction kw generalizing t with
  | nil =>
    simp only [matchKeyword, Option.some.injEq, List.forall₂_nil_left_iff, exists_eq_right,
      List.nil_append]
  | cons k kw ih =>
    cases t with
    | nil =>
      refine iff_of_false (by simp [matchKeyword]) ?_
      rintro ⟨w, happ, hw⟩
      obtain ⟨rfl, -⟩ := List.nil_eq_append_iff.mp happ
      exact nomatch hw
    | cons c t =>
      simp only [matchKeyword, Option.ite_none_right_eq_some, ih]
      constructor
      · rintro ⟨hc, w, rfl, hw⟩
        exact ⟨c :: w, rfl, .cons hc hw⟩
      · rintro ⟨_, happ, _ | ⟨hc, hw⟩⟩
        obtain ⟨rfl, rfl⟩ := List.cons.inj happ
        exact ⟨hc, _, rfl, hw⟩

section

variable (cls : CharClasses)

/-- What a capital letter of a keyword matches is matched by `\w`. -/
theorem word_of_sameIgnoringCase {k c : ℕ} (hk : 65 ≤ k ∧ k ≤ 90)
    (h : sameIgnoringCase k c = true) : cls.word c = true := by
  apply cls.letter
  simp only [sameIgnoringCase, Bool.or_eq_true, Bool.and_eq_true, decide_eq_true_eq] at h
  omega

/-- The keyword begins and ends with a capital letter. -/
def Lettered (kw : List ℕ) : Prop :=
  (∃ k ∈ kw.head?, 65 ≤ k ∧ k ≤ 90) ∧ ∃ k ∈ kw.getLast?, 65 ≤ k ∧ k ≤ 90

variable {kw w : List ℕ}

theorem Lettered.head_word (hkw : Lettered kw)
    (hw : List.Forall₂ (fun k c => sameIgnoringCase k c = true) kw w) (rest : List ℕ) :
    (w ++ rest).head?.any cls.word = true := by
  obtain ⟨⟨k, hk, hletter⟩, -⟩ := hkw
  cases hw with
  | nil => simp at hk
  | cons hc _ =>
    obtain rfl : _ = k := by simpa using hk
    simpa using word_of_sameIgnoringCase cls hletter hc

theorem Lettered.last_word (hkw : Lettered kw)
    (hw : List.Forall₂ (fun k c => sameIgnoringCase k c = true) kw w) :
    w.getLast?.any cls.word = true := by
  obtain ⟨-, k, hk, hletter⟩ := hkw
  -- read backwards, the last letters come first
  have hrev := List.forall₂_reverse_iff.mpr hw
  rw [← List.head?_reverse] at hk ⊢
  cases hrev' : kw.reverse with
  | nil => simp [hrev'] at hk
  | cons k' kw' =>
    rw [hrev'] at hrev hk
    obtain rfl : k' = k := by simpa using hk
    obtain ⟨c, w', hc, -, hw'⟩ := List.forall₂_cons_left_iff.mp hrev
    simpa [hw'] using word_of_sameIgnoringCase cls hletter hc

/-- At the letters of a keyword, a boundary is where no `\w` goes on. -/
theorem Lettered.matchesAt_iff (hkw : Lettered kw) (prev : Option ℕ) (t : List ℕ) :
    matchesAt cls kw prev t = true ↔ prev.any cls.word = false ∧
      ∃ w rest, t = w ++ rest ∧ List.Forall₂ (fun k c => sameIgnoringCase k c = true) kw w ∧
        rest.head?.any cls.word = false := by
  constructor
  · intro h
    unfold matchesAt at h
    split at h
    · cases h
    · next rest hrest =>
      obtain ⟨w, rfl, hw⟩ := matchKeyword_eq_some.mp hrest
      simp only [boundary, hkw.head_word cls hw rest, List.length_append, Nat.add_sub_cancel,
        List.take_left, hkw.last_word cls hw, Bool.and_eq_true, bne_iff_ne, ne_eq,
        Bool.not_eq_true, Bool.true_eq] at h
      exact ⟨h.1, w, rest, rfl, hw, h.2⟩
  · rintro ⟨hprev, w, rest, rfl, hw, hrest⟩
    have hhead := hkw.head_word cls hw rest
    have hlast := hkw.last_word cls hw
    simp only [matchesAt, matchKeyword_eq_some.mpr ⟨w, rfl, hw⟩, boundary, hprev, hrest, hhead,
      List.length_append, Nat.add_sub_cancel, List.take_left, hlast]
    rfl

/-- The search tries every place of the text. -/
theorem search_iff (prev : Option ℕ) (t : List ℕ) :
    search cls kw prev t = true ↔
      ∃ before rest, t = before ++ rest ∧
        matchesAt cls kw (before.getLast?.or prev) rest = true := by
  induction t generalizing prev with
  | nil =>
    simp only [search, List.nil_eq_append_iff]
    exact ⟨fun h => ⟨[], [], ⟨rfl, rfl⟩, h⟩, fun ⟨_, _, ⟨rfl, rfl⟩, h⟩ => h⟩
  | cons c t ih =>
    simp only [search, Bool.or_eq_true, ih]
    constructor
    · rintro (h | ⟨before, rest, rfl, h⟩)
      · exact ⟨[], c :: t, rfl, h⟩
      · refine ⟨c :: before, rest, rfl, ?_⟩
        cases hb : before.getLast? <;> simpa [List.getLast?_cons, hb] using h
    · rintro ⟨before, rest, happ, h⟩
      cases before with
      | nil =>
        obtain rfl : c :: t = rest := happ
        exact .inl h
      | cons c' before =>
        obtain ⟨rfl, rfl⟩ := List.cons.inj happ
        refine .inr ⟨before, rest, rfl, ?_⟩
        cases hb : before.getLast? <;> simpa [List.getLast?_cons, hb] using h

/-- The pattern finds a keyword exactly where it stands alone in the text. -/
theorem search_eq_true_iff {kw : String} (hkw : Lettered (codes kw)) (query : List ℕ) :
    search cls (codes kw) none query = true ↔ StandsAlone cls kw query := by
  simp only [search_iff, hkw.matchesAt_iff, Option.or_none, StandsAlone]
  constructor
  · rintro ⟨before, _, rfl, hbefore, w, after, rfl, hw, hafter⟩
    exact ⟨before, w, after, (List.append_assoc ..).symm, hw, hbefore, hafter⟩
  · rintro ⟨before, w, after, rfl, hw, hbefore, hafter⟩
    exact ⟨before, w ++ after, List.append_assoc .., hbefore, w, after, rfl, hw, hafter⟩

instance (kw : List ℕ) : Decidable (Lettered kw) :=
  inferInstanceAs (Decidable ((∃ k ∈ kw.head?, 65 ≤ k ∧ k ≤ 90) ∧ _))

theorem lettered_of_blocked : ∀ kw ∈ blockedCypherKeywords, Lettered (codes kw) := by decide

/-- A query is turned away exactly when a blocked keyword stands somewhere in its text. -/
theorem cypherQuery_rejected_iff (query : List ℕ) :
    (∃ error kw, cypherQuery cls query = .rejected error kw) ↔
      ∃ kw ∈ blockedCypherKeywords, StandsAlone cls kw query := by
  have hfind : (∃ error kw, cypherQuery cls query = .rejected error kw) ↔
      ∃ kw ∈ blockedCypherKeywords, search cls (codes kw) none query = true := by
    unfold cypherQuery isReadOnlyCypher
    cases h : blockedCypherKeywords.find? fun kw => search cls (codes kw) none query with
    | none =>
      rw [List.find?_eq_none] at h
      refine iff_of_false (by simp) ?_
      rintro ⟨kw, hkw, hfound⟩
      exact h kw hkw hfound
    | some kw =>
      have hfound := List.find?_some h
      exact iff_of_true ⟨_, _, rfl⟩ ⟨kw, List.mem_of_find?_eq_some h, hfound⟩
  rw [hfind]
  exact exists_congr fun kw => and_congr_right fun hkw =>
    search_eq_true_iff cls (lettered_of_blocked kw hkw) query

/-! ## Where a token stands -/

/-- The character before a place ends a word, or there is none. -/
def WordEnds (before : List ℕ) : Prop := before.getLast?.any cls.part = false

/-- What the lexer's state says of the text that it has read. -/
def LexState.Reads (p : List ℕ) : LexState → Prop
  | .name w => ∃ before, p = before ++ w ∧ WordEnds cls before
  | .between | .slash => WordEnds cls p
  | .quoted q | .escaped q => q = 34 ∨ q = 39 ∨ q = 96
  | .lineComment | .blockComment | .star => True

variable {cls}

/-- A word begins where the last one has ended. -/
theorem LexState.Reads.openAt {p : List ℕ} {c : ℕ} (h : cls.part c = true → WordEnds cls p) :
    (LexState.openAt cls c).2.Reads cls (p ++ [c]) := by
  unfold LexState.openAt
  split
  · next hc => exact ⟨p, rfl, h hc⟩
  · next hc =>
    have hends : WordEnds cls (p ++ [c]) := by simpa [WordEnds] using hc
    split_ifs with hquote
    · exact hquote
    · exact hends
    · exact hends
    · exact hends

theorem LexState.name_notMem_openAt (w : List ℕ) (c : ℕ) :
    .name w ∉ (LexState.openAt cls c).1 := by
  unfold LexState.openAt
  split_ifs <;> simp

theorem WordEnds.of_delimiter (p : List ℕ) {c : ℕ} (h : c ∈ [10, 13, 32, 34, 39, 47, 96]) :
    WordEnds cls (p ++ [c]) := by simpa [WordEnds] using cls.delimiter c h

/-- One character more. -/
theorem LexState.Reads.step {p : List ℕ} {s : LexState} (h : s.Reads cls p) (c : ℕ) :
    (s.step cls c).2.Reads cls (p ++ [c]) := by
  cases s with
  | between => exact .openAt fun _ => h
  | name w =>
    obtain ⟨before, rfl, hbefore⟩ := h
    rw [LexState.step]
    split
    · exact ⟨before, List.append_assoc .., hbefore⟩
    · next hc => exact .openAt fun hpart => absurd hpart hc
  | quoted q =>
    rw [LexState.step]
    split_ifs with hq hback
    · refine .of_delimiter p ?_
      obtain rfl | rfl | rfl : c = 34 ∨ c = 39 ∨ c = 96 := hq ▸ h <;> decide
    · exact h
    · exact h
  | escaped q => exact h
  | slash =>
    rw [LexState.step]
    split_ifs
    · trivial
    · trivial
    · exact .openAt fun _ => h
  | lineComment =>
    rw [LexState.step]
    split_ifs with hline
    · refine .of_delimiter p ?_
      obtain rfl | rfl := hline <;> decide
    · trivial
  | blockComment =>
    rw [LexState.step]
    split_ifs <;> trivial
  | star =>
    rw [LexState.step]
    split_ifs with hslash
    · exact .of_delimiter p (by subst hslash; decide)
    · trivial
    · trivial

/-- A word is written down by the first character that is not its own. -/
theorem LexState.name_mem_step {s : LexState} {c : ℕ} {w : List ℕ}
    (h : .name w ∈ (s.step cls c).1) : s = .name w ∧ cls.part c = false := by
  cases s with
  | between => exact absurd h (name_notMem_openAt w c)
  | name w' =>
    rw [LexState.step] at h
    split at h
    · cases h
    · next hc =>
      obtain heq | h := List.mem_cons.mp h
      · exact ⟨by rw [Token.name.inj heq], by simpa using hc⟩
      · exact absurd h (name_notMem_openAt w c)
  | slash =>
    rw [LexState.step] at h
    split_ifs at h
    · cases h
    · cases h
    · obtain heq | h := List.mem_cons.mp h
      · cases heq
      · exact absurd h (name_notMem_openAt w c)
  | escaped _ => cases h
  | quoted _ | lineComment | blockComment | star =>
    simp only [LexState.step] at h
    split_ifs at h <;> simp at h

/-- Every word token stands in the text, and neither neighbour is of the word's characters. -/
theorem name_mem_lexFrom {w t : List ℕ} :
    ∀ {p : List ℕ} {s : LexState}, s.Reads cls p → .name w ∈ lexFrom cls s t →
      ∃ before after, p ++ t = before ++ w ++ after ∧ WordEnds cls before ∧
        after.head?.any cls.part = false := by
  induction t with
  | nil =>
    intro p s hs h
    cases s with
    | name w' =>
      obtain ⟨before, rfl, hbefore⟩ := hs
      obtain rfl : w = w' := by simpa [lexFrom, LexState.flush] using h
      exact ⟨before, [], rfl, hbefore, rfl⟩
    | between | quoted _ | escaped _ | slash | lineComment | blockComment | star =>
      simp [lexFrom, LexState.flush] at h
  | cons c t ih =>
    intro p s hs h
    obtain h | h := List.mem_append.mp h
    · obtain ⟨rfl, hc⟩ := LexState.name_mem_step h
      obtain ⟨before, rfl, hbefore⟩ := hs
      exact ⟨before, c :: t, rfl, hbefore, by simpa using hc⟩
    · have h := ih (hs.step c) h
      rwa [List.append_assoc] at h

/-- Only a letter has another upper case. -/
theorem sameIgnoringCase_asciiUpper (c : ℕ) : sameIgnoringCase (asciiUpper c) c = true := by
  unfold asciiUpper
  split
  · simp only [sameIgnoringCase, Bool.or_eq_true, Bool.and_eq_true, decide_eq_true_eq]
    omega
  · simp [sameIgnoringCase]

theorem not_word_of_not_part {o : Option ℕ} (h : o.any cls.part = false) :
    o.any cls.word = false := by
  cases o with
  | none => rfl
  | some c =>
    cases hc : cls.word c with
    | false => simpa using hc
    | true =>
      rw [Option.any_some, cls.part_of_word c hc] at h
      cases h

/-- A clause of one word stands in the text, wherever it is a token. -/
theorem standsAlone_of_hasClause {kw : String} {query : List ℕ}
    (h : HasClause [kw] (tokens cls query)) : StandsAlone cls kw query := by
  obtain ⟨before, found, after, htokens, hfound⟩ := h
  obtain ⟨_, _, ⟨w, rfl, hw⟩, hnil, rfl⟩ := List.forall₂_cons_left_iff.mp hfound
  obtain rfl := List.forall₂_nil_left_iff.mp hnil
  have hmem : .name w ∈ lexFrom cls .between query := by
    rw [← tokens, htokens]
    simp
  have hstart : LexState.between.Reads cls [] := rfl
  obtain ⟨front, back, hquery, hfront, hback⟩ := name_mem_lexFrom hstart hmem
  refine ⟨front, w, back, hquery, ?_, not_word_of_not_part hfront, not_word_of_not_part hback⟩
  rw [← hw, List.forall₂_map_left_iff, List.forall₂_same]
  exact fun c _ => sameIgnoringCase_asciiUpper c

variable (cls)

/-! ## The gate -/

/-- The clause of two words is the only one that the gate can miss. It is turned away as well
exactly when some blocked keyword stands in the raw text, literals and comments included; and
`LOAD CSV` does so only with one space between its words. -/
theorem read_only_gate_iff (query : List ℕ) :
    ((∃ clause ∈ blockedClauses, HasClause clause (tokens cls query)) →
        ∃ error kw, cypherQuery cls query = .rejected error kw) ↔
      (HasClause ["LOAD", "CSV"] (tokens cls query) →
        ∃ kw ∈ blockedCypherKeywords, StandsAlone cls kw query) := by
  rw [cypherQuery_rejected_iff]
  constructor
  · exact fun h hload => h ⟨_, by decide, hload⟩
  · rintro h ⟨clause, hclause, hhas⟩
    have hcases : clause = ["LOAD", "CSV"] ∨ ∃ kw ∈ blockedCypherKeywords, clause = [kw] := by
      clear h hhas
      revert clause
      decide
    obtain rfl | ⟨kw, hkw, rfl⟩ := hcases
    · exact h hhas
    · exact ⟨kw, hkw, standsAlone_of_hasClause hhas⟩

end

/-- The classes of the ASCII characters, and of `ſ`. -/
def asciiClasses : CharClasses where
  word c := 48 ≤ c && c ≤ 57 || 65 ≤ c && c ≤ 90 || c = 95 || 97 ≤ c && c ≤ 122 || c = 383
  part c := 48 ≤ c && c ≤ 57 || 65 ≤ c && c ≤ 90 || c = 95 || 97 ≤ c && c ≤ 122 || c = 383
  space c := 9 ≤ c && c ≤ 13 || 28 ≤ c && c ≤ 32
  letter c h := by
    simp only [Bool.or_eq_true, Bool.and_eq_true, decide_eq_true_eq]
    omega
  part_of_word _ h := h
  delimiter := by decide

/-- A second space between `LOAD` and `CSV`, and the query is sent. -/
theorem not_read_only_gate :
    ¬ ∀ (cls : CharClasses) (query : List ℕ),
      (∃ clause ∈ blockedClauses, HasClause clause (tokens cls query)) →
        ∃ error kw, cypherQuery cls query = .rejected error kw := by
  intro h
  obtain ⟨error, kw, hrejected⟩ := h asciiClasses (codes "LOAD  CSV FROM 'a' AS r RETURN r")
    ⟨["LOAD", "CSV"], by decide, [], [.name (codes "LOAD"), .name (codes "CSV")],
      (tokens asciiClasses (codes "LOAD  CSV FROM 'a' AS r RETURN r")).drop 2, by decide +kernel,
      .cons ⟨_, rfl, by decide⟩ (.cons ⟨_, rfl, by decide⟩ .nil)⟩
  have hsent : cypherQuery asciiClasses (codes "LOAD  CSV FROM 'a' AS r RETURN r") =
      .sent (codes "LOAD  CSV FROM 'a' AS r RETURN r") := by decide +kernel
  rw [hsent] at hrejected
  cases hrejected

end JanusGraph
