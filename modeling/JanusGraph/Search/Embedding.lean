import JanusGraph.Lib.Python
import Mathlib.Data.List.Nodup

/-!
# The embedding client

`EmbeddingClient` of `daemon/embedding_client.py` over the cache of `cache/lru.py`: vectors that
are known come from the cache, the others from one request. What goes wrong with the request
becomes a result without a vector, text by text. Two things that go wrong do not: a text that
has no UTF-8 makes the look-up raise, and an error whose body cannot be decoded raises as it is
read.

A `String` stands for a Python text, which may hold half of a surrogate pair where a `String`
cannot; `_cache_key` is a parameter, and such texts are among those it has no key for.

`embed` looks its texts up one by one (`lookups`), and each hit moves an entry of the cache to
its end; so the cache that a call leaves depends on the order of the texts even if nothing is
sent. The misses are sent in one request, and `fill` goes through them in the order in which they
were sent. A result without a vector takes the place of every text that the reply says nothing
of, and there is one result for each text, in their order (`EmbeddingClient.map_text_embed`).
-/

namespace JanusGraph

/-! ## The cache -/

/-- `LRUCacheBackend`: the least recently used entry first -/
structure LruCache (maxSize : ℤ) : Type where
  entries : List (String × List Value)
  nodup : (entries.map Prod.fst).Nodup
  bounded : entries.length ≤ maxSize.toNat

namespace LruCache

variable {maxSize : ℤ}

/-- `cache[key] = value`, at the end, where the most recently used entry is. -/
def moved (entries : List (String × List Value)) (key : String) (value : List Value) :
    List (String × List Value) :=
  entries.filter (·.1 ≠ key) ++ [(key, value)]

/-- No key is there twice. -/
theorem nodup_moved {entries : List (String × List Value)} (h : (entries.map Prod.fst).Nodup)
    (key : String) (value : List Value) : ((moved entries key value).map Prod.fst).Nodup := by
  have hrest : ((entries.filter (·.1 ≠ key)).map Prod.fst).Nodup :=
    h.sublist (List.filter_sublist.map _)
  rw [moved, List.map_append, List.map_singleton, List.nodup_append]
  refine ⟨hrest, List.nodup_singleton _, ?_⟩
  rintro _ hother _ hkey rfl
  obtain rfl := List.mem_singleton.mp hkey
  simp at hother

/-- It takes one place at most. -/
theorem length_moved_le (entries : List (String × List Value)) (key : String)
    (value : List Value) : (moved entries key value).length ≤ entries.length + 1 := by
  rw [moved, List.length_append, List.length_singleton]
  exact Nat.succ_le_succ (List.length_filter_le _ _)

/-- An entry that is moved to the end leaves its old place. -/
theorem length_moved_le_of_mem {entries : List (String × List Value)} {key : String}
    (h : key ∈ entries.map Prod.fst) (value : List Value) :
    (moved entries key value).length ≤ entries.length := by
  obtain ⟨entry, hentry, rfl⟩ := List.mem_map.mp h
  have hlt : (entries.filter (·.1 ≠ entry.1)).length < entries.length :=
    List.length_filter_lt_length_iff_exists.mpr ⟨entry, hentry, by simp⟩
  rw [moved, List.length_append, List.length_singleton]
  exact hlt

/-- `LRUCacheBackend.get` -/
def get (cache : LruCache maxSize) (key : String) : Option (List Value) × LruCache maxSize :=
  match h : cache.entries.lookup key with
  | none => (none, cache)
  | some value =>
    (some value, {
      entries := moved cache.entries key value
      nodup := nodup_moved cache.nodup key value
      bounded := by
        have hmem : key ∈ cache.entries.map Prod.fst := by
          obtain ⟨before, after, hentries, -⟩ := List.lookup_eq_some_iff.mp h
          simp [hentries]
        exact (length_moved_le_of_mem hmem value).trans cache.bounded })

/-- `LRUCacheBackend.set` -/
def set (cache : LruCache maxSize) (key : String) (value : List Value) : LruCache maxSize :=
  if h : (moved cache.entries key value).length > maxSize then {
    entries := (moved cache.entries key value).tail
    nodup := (nodup_moved cache.nodup key value).sublist ((List.tail_sublist _).map _)
    bounded := by
      have hle := length_moved_le cache.entries key value
      have hcache := cache.bounded
      rw [List.length_tail]
      omega }
  else {
    entries := moved cache.entries key value
    nodup := nodup_moved cache.nodup key value
    bounded := by omega }

end LruCache

/-! ## The client -/

/-- What becomes of a request to the endpoint. -/
inductive HttpReply : Type where
  /-- a status of 400 or more; without a body if `resp.text()` raises `UnicodeDecodeError` -/
  | status (code : ℕ) (body : Option String)
  /-- `ClientError` or `TimeoutError`, with its text -/
  | transport (error : String)
  | json (data : Value)
  /-- any other exception -/
  | raised

/-- `EmbeddingResult` -/
structure EmbeddingResult : Type where
  text : String
  embedding : Option (List Value)
  error : Option String
  deriving DecidableEq

/-- `EmbeddingClient`, and the endpoint that it talks to -/
structure EmbeddingClient (maxSize : ℤ) : Type where
  cache : LruCache maxSize
  /-- `_cache_key`: the SHA-256 of the UTF-8 of the text; `none` is `UnicodeEncodeError` -/
  cacheKey : String → Option String
  post : List String → HttpReply

variable {maxSize : ℤ}

/-- The cache lookups, one for each text; `none` is an exception. -/
def lookups (cacheKey : String → Option String) :
    List String → LruCache maxSize →
      Option (List (String × Option (List Value))) × LruCache maxSize
  | [], cache => (some [], cache)
  | text :: texts, cache =>
    match cacheKey text with
    | none => (none, cache)
    | some key =>
      let found := cache.get key
      let rest := lookups cacheKey texts found.2
      (rest.1.map ((text, found.1) :: ·), rest.2)

/-- `miss_texts` -/
def missTexts (found : List (String × Option (List Value))) : List String :=
  (found.filter (·.2 = none)).map Prod.fst

/-- The results when nothing is added to the cached ones. -/
def cachedOnly (error : String) (found : List (String × Option (List Value))) :
    List EmbeddingResult :=
  found.map fun entry =>
    { text := entry.1, embedding := entry.2, error := if entry.2 = none then some error else none }

/-- `embeddings_raw[pos]` and its vector; `none` is an exception. -/
def vectorAt (raw : Value) (pos : ℕ) : Option (Option (List Value)) :=
  match raw with
  | .list vs =>
    match vs[pos]? with
    | some (.dict d) =>
      match d.lookup "embedding" with
      | some (.list vector) => some (some vector)
      | _ => some none
    | _ => some none
  | .str _ => some none
  | .dict d => if pos < d.length then none else some none
  | _ => none

/-- The loop over the misses; `pos` counts them. -/
def fill (cacheKey : String → Option String) (raw : Value) :
    ℕ → List (String × Option (List Value)) → LruCache maxSize →
      Option (List EmbeddingResult) × LruCache maxSize
  | _, [], cache => (some [], cache)
  | pos, (text, some vector) :: found, cache =>
    let rest := fill cacheKey raw pos found cache
    (rest.1.map (⟨text, some vector, none⟩ :: ·), rest.2)
  | pos, (text, none) :: found, cache =>
    match vectorAt raw pos with
    | none => (none, cache)
    | some (some vector) =>
      match cacheKey text with
      | none => (none, cache)
      | some key =>
        let rest := fill cacheKey raw (pos + 1) found (cache.set key vector)
        (rest.1.map (⟨text, some vector, none⟩ :: ·), rest.2)
    | some none =>
      let rest := fill cacheKey raw (pos + 1) found cache
      (rest.1.map (⟨text, none, some "missing_embedding_in_response"⟩ :: ·), rest.2)

/-- `EmbeddingClient.embed`, and the cache after it; without results it has raised. A call
whose texts are all cached sends nothing. -/
def EmbeddingClient.embed (client : EmbeddingClient maxSize) (texts : List String) :
    Option (List EmbeddingResult) × LruCache maxSize :=
  match lookups client.cacheKey texts client.cache with
  | (none, cache) => (none, cache)
  | (some found, cache) =>
    if missTexts found = [] then (some (cachedOnly "not_cached" found), cache)
    else match client.post (missTexts found) with
      | .status code (some body) =>
        let error := "http_" ++ toString code ++ ": " ++ String.ofList (body.toList.take 200)
        (some (cachedOnly error found), cache)
      | .status _ none => (none, cache)
      | .transport error => (some (cachedOnly error found), cache)
      | .json (.dict data) =>
        let given := (data.lookup "data").getD .null
        fill client.cacheKey (if given.truthy then given else .list []) 0 found cache
      | .json _ => (none, cache)
      | .raised => (none, cache)

/-! ## One result for each text -/

/-- The lookups are made for the texts in their order. -/
theorem map_fst_lookups {cacheKey : String → Option String} {texts : List String}
    {cache : LruCache maxSize} {found : List (String × Option (List Value))}
    (h : (lookups cacheKey texts cache).1 = some found) : found.map Prod.fst = texts := by
  induction texts generalizing cache found with
  | nil =>
    cases h
    rfl
  | cons text texts ih =>
    rw [lookups] at h
    split at h
    · cases h
    · obtain ⟨rest, hrest, rfl⟩ := Option.map_eq_some_iff.mp h
      exact congrArg (text :: ·) (ih hrest)

/-- So are the results that are made of them, -/
theorem map_text_cachedOnly (error : String) (found : List (String × Option (List Value))) :
    (cachedOnly error found).map EmbeddingResult.text = found.map Prod.fst := by
  rw [cachedOnly, List.map_map]
  rfl

/-- and those that are made of them and a reply. -/
theorem map_text_fill {cacheKey : String → Option String} {raw : Value}
    {found : List (String × Option (List Value))} {pos : ℕ} {cache : LruCache maxSize}
    {results : List EmbeddingResult} (h : (fill cacheKey raw pos found cache).1 = some results) :
    results.map EmbeddingResult.text = found.map Prod.fst := by
  induction found generalizing pos cache results with
  | nil =>
    cases h
    rfl
  | cons entry found ih =>
    obtain ⟨text, _ | vector⟩ := entry
    · rw [fill] at h
      split at h
      · cases h
      · split at h
        · cases h
        · obtain ⟨rest, hrest, rfl⟩ := Option.map_eq_some_iff.mp h
          exact congrArg (text :: ·) (ih hrest)
      · obtain ⟨rest, hrest, rfl⟩ := Option.map_eq_some_iff.mp h
        exact congrArg (text :: ·) (ih hrest)
    · obtain ⟨rest, hrest, rfl⟩ := Option.map_eq_some_iff.mp h
      exact congrArg (text :: ·) (ih hrest)

/-- **There is one result for each text, in their order**, whatever comes from the cache,
from the reply or from nowhere. -/
theorem EmbeddingClient.map_text_embed {client : EmbeddingClient maxSize} {texts : List String}
    {results : List EmbeddingResult} (h : (client.embed texts).1 = some results) :
    results.map EmbeddingResult.text = texts := by
  unfold EmbeddingClient.embed at h
  split at h
  · cases h
  next found cache hfound =>
    have htexts : found.map Prod.fst = texts := map_fst_lookups (congrArg Prod.fst hfound)
    have hcached : ∀ error, (cachedOnly error found).map EmbeddingResult.text = texts :=
      fun error => (map_text_cachedOnly error found).trans htexts
    split_ifs at h
    · cases h
      exact hcached _
    · split at h
      · cases h
        exact hcached _
      · cases h
      · cases h
        exact hcached _
      · exact (map_text_fill h).trans htexts
      · cases h
      · cases h

end JanusGraph
