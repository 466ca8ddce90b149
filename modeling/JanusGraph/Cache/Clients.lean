import JanusGraph.Cache.Contents
import JanusGraph.Cache.EmbedCache
import JanusGraph.Search.Provenance

/-!
# The caches of the embedders

`EmbeddingClient` and `EmbedCache` keep their vectors in an `LRUCacheBackend`, by its `get` and
`set` only: a lookup for each text, then a `set` for each vector that came. So what their cache
holds after any run is what `LRUCacheBackend` holds after these calls.
-/

namespace JanusGraph

open LruCacheBackend

variable {maxSize : ℤ}

namespace LruCache

/-- The cache, without what it carries. -/
def backend (cache : LruCache maxSize) : LruCacheBackend (List Value) :=
  ⟨maxSize, cache.entries, cache.nodup⟩

@[simp] theorem backend_empty : (empty maxSize).backend = new maxSize := rfl

theorem find?_eq_lookup (entries : List (String × List Value)) (key : String) :
    (entries.find? fun entry => entry.1 = key).map Prod.snd = entries.lookup key := by
  induction entries with
  | nil => rfl
  | cons entry entries ih =>
    obtain ⟨other, value⟩ := entry
    by_cases hkey : other = key
    · simp [hkey]
    · have hne : (key == other) = false := beq_eq_false_iff_ne.mpr (Ne.symm hkey)
      simpa [hkey, List.lookup_cons, hne] using ih

theorem get?_backend (cache : LruCache maxSize) (key : String) :
    cache.backend.cache.get? key = cache.entries.lookup key :=
  find?_eq_lookup cache.entries key

/-- An entry that is moved to the end is put there. -/
theorem put_backend (cache : LruCache maxSize) (key : String) (value : List Value) :
    cache.backend.cache.put key value = ⟨moved cache.entries key value,
      nodup_moved cache.nodup key value⟩ := rfl

theorem backend_get (cache : LruCache maxSize) (key : String) :
    cache.backend.get key = ((cache.get key).1, (cache.get key).2.backend) := by
  have hget := cache.get?_backend key
  rw [get]
  split
  · next hlookup =>
    rw [hlookup] at hget
    refine get_of_not_mem fun hmem => ?_
    obtain ⟨value, hvalue⟩ := Table.mem_keys.mp hmem
    rw [hget] at hvalue
    cases hvalue
  · next value hlookup =>
    rw [hlookup] at hget
    exact get_of_get? hget

theorem backend_set (cache : LruCache maxSize) (key : String) (value : List Value) :
    cache.backend.set key value = (cache.set key value).backend := by
  have hcache := cache.backend.cache_set key value
  rw [put_backend] at hcache
  rw [LruCache.set]
  split
  · next hlong => exact congrArg (LruCacheBackend.mk maxSize) (hcache.trans (if_pos hlong))
  · next hlong => exact congrArg (LruCacheBackend.mk maxSize) (hcache.trans (if_neg hlong))

end LruCache

theorem LruCacheBackend.run_append {V : Type} (b : LruCacheBackend V)
    (calls more : List (CacheCall V)) : b.run (calls ++ more) = (b.run calls).run more :=
  List.foldl_append

/-- A lookup for each of the texts, up to one without a key. -/
def getCalls (cacheKey : String → Option String) : List String → List (CacheCall (List Value))
  | [] => []
  | text :: texts =>
    match cacheKey text with
    | none => []
    | some key => .get key :: getCalls cacheKey texts

/-- A `set` for each of the keys with their vectors. -/
def setCalls (stored : List (String × List Value)) : List (CacheCall (List Value)) :=
  stored.map fun entry => .set entry.1 entry.2

theorem backend_lookups (cacheKey : String → Option String) (texts : List String)
    (cache : LruCache maxSize) :
    (lookups cacheKey texts cache).2.backend = cache.backend.run (getCalls cacheKey texts) := by
  induction texts generalizing cache with
  | nil => rfl
  | cons text texts ih =>
    rw [lookups, getCalls]
    rcases cacheKey text with _ | key
    · rfl
    · have hget := congrArg Prod.snd (cache.backend_get key)
      dsimp only
      rw [run, List.foldl_cons, step, hget]
      exact ih _

/-! ## The embedding client -/

/-- The keys of the misses for which there is a vector in the reply, up to where the loop
raises. -/
def received (cacheKey : String → Option String) (raw : Value) :
    ℕ → List (String × Option (List Value)) → List (String × List Value)
  | _, [] => []
  | pos, (_, some _) :: found => received cacheKey raw pos found
  | pos, (text, none) :: found =>
    match vectorAt raw pos with
    | none => []
    | some (some vector) =>
      match cacheKey text with
      | none => []
      | some key => (key, vector) :: received cacheKey raw (pos + 1) found
    | some none => received cacheKey raw (pos + 1) found

theorem backend_fill (cacheKey : String → Option String) (raw : Value) (pos : ℕ)
    (found : List (String × Option (List Value))) (cache : LruCache maxSize) :
    (fill cacheKey raw pos found cache).2.backend =
      cache.backend.run (setCalls (received cacheKey raw pos found)) := by
  induction found generalizing pos cache with
  | nil => rfl
  | cons entry found ih =>
    obtain ⟨text, _ | vector⟩ := entry
    · rcases hvector : vectorAt raw pos with _ | _ | vector
      · simp only [fill, received, hvector]
        rfl
      · simp only [fill, received, hvector]
        exact ih _ _
      · rcases hkey : cacheKey text with _ | key
        · simp only [fill, received, hvector, hkey]
          rfl
        · simp only [fill, received, hvector, hkey]
          rw [setCalls, List.map_cons, run, List.foldl_cons, step, LruCache.backend_set]
          exact ih _ _
    · exact ih _ _

/-- What a call of `embed` asks of the cache. -/
def EmbedCall.cacheCalls (cacheKey : String → Option String) (cache : LruCache maxSize)
    (c : EmbedCall) : List (CacheCall (List Value)) :=
  getCalls cacheKey c.texts ++ setCalls
    (match (lookups cacheKey c.texts cache).1, c.reply with
      | some found, .json (.dict data) =>
        let given := (data.lookup "data").getD .null
        received cacheKey (if given.truthy then given else .list []) 0 found
      | _, _ => [])

/-- Without a miss there is nothing to store. -/
theorem received_of_no_miss {cacheKey : String → Option String}
    {found : List (String × Option (List Value))} (h : missTexts found = []) (raw : Value)
    (pos : ℕ) : received cacheKey raw pos found = [] := by
  induction found with
  | nil => rfl
  | cons entry found ih =>
    obtain ⟨text, _ | vector⟩ := entry
    · simp [missTexts] at h
    · exact ih (by simpa [missTexts] using h)

theorem backend_embedCall (cacheKey : String → Option String) (cache : LruCache maxSize)
    (c : EmbedCall) :
    (embedCall cacheKey maxSize cache c).2.backend =
      cache.backend.run (c.cacheCalls cacheKey cache) := by
  have hlookups := backend_lookups cacheKey c.texts cache
  rw [EmbedCall.cacheCalls, run_append, ← hlookups, embedCall, EmbeddingClient.embed]
  rcases lookups cacheKey c.texts cache with ⟨_ | found, looked⟩
  · rfl
  dsimp only
  split
  · next hmiss =>
    split
    · next hsome hreply =>
      obtain rfl := Option.some.inj hsome
      rw [received_of_no_miss hmiss]
      rfl
    · rfl
  · rcases c.reply with ⟨code, _ | body⟩ | error | data | _
    · rfl
    · rfl
    · rfl
    · cases data with
      | dict data => exact backend_fill cacheKey _ 0 _ _
      | _ => rfl
    · rfl

/-- What a run of calls of `embed` asks of the cache. -/
def cacheCallsOf (cacheKey : String → Option String) :
    LruCache maxSize → List EmbedCall → List (CacheCall (List Value))
  | _, [] => []
  | cache, c :: calls =>
    c.cacheCalls cacheKey cache ++ cacheCallsOf cacheKey (embedCall cacheKey maxSize cache c).2 calls

/-- **The cache of the embedding client** is an `LRUCacheBackend` of which the calls of `embed`
ask what they ask. -/
theorem backend_cacheAfter (cacheKey : String → Option String) (maxSize : ℤ)
    (calls : List EmbedCall) :
    (cacheAfter cacheKey maxSize calls).backend =
      (new maxSize).run (cacheCallsOf cacheKey (.empty maxSize) calls) := by
  have hrun : ∀ cache : LruCache maxSize,
      (calls.foldl (fun cache c => (embedCall cacheKey maxSize cache c).2) cache).backend =
        cache.backend.run (cacheCallsOf cacheKey cache calls) := by
    induction calls with
    | nil => exact fun _ => rfl
    | cons c calls ih =>
      intro cache
      rw [List.foldl_cons, ih, cacheCallsOf, run_append, backend_embedCall]
  exact hrun (.empty maxSize)

/-- So it holds the vectors of the texts that were found or stored last. -/
theorem cacheAfter_holds (cacheKey : String → Option String) (maxSize : ℤ)
    (calls : List EmbedCall) :
    (cacheAfter cacheKey maxSize calls).backend.Holds maxSize
      ((new maxSize).uses (cacheCallsOf cacheKey (.empty maxSize) calls))
      (cacheCallsOf cacheKey (.empty maxSize) calls) := by
  rw [backend_cacheAfter]
  exact (holds_new maxSize).run _

/-! ## The embedding cache -/

theorem backend_fillBatch (sha256 : String → String)
    (found : List (String × Option (List Value))) (fetched : List (List Value))
    (backend : LruCache maxSize) :
    (fillBatch sha256 found fetched backend).2.backend =
      backend.backend.run (setCalls (((missTexts found).map sha256).zip fetched)) := by
  induction found generalizing fetched backend with
  | nil => rfl
  | cons entry found ih =>
    obtain ⟨text, _ | vector⟩ := entry
    · have hmiss : missTexts ((text, none) :: found) = text :: missTexts found := by
        simp [missTexts]
      rw [hmiss]
      cases fetched with
      | nil =>
        have hrest := ih [] backend
        rw [List.zip_nil_right] at hrest ⊢
        exact hrest
      | cons emb fetched =>
        rw [fillBatch, List.map_cons, List.zip_cons_cons, setCalls, List.map_cons, run,
          List.foldl_cons, step, LruCache.backend_set]
        exact ih _ _
    · have hmiss : missTexts ((text, some vector) :: found) = missTexts found := by
        simp [missTexts]
      rw [hmiss]
      exact ih _ _

namespace EmbedCache

/-- A lookup for each of the texts. -/
def lookupCalls (sha256 : String → String) (texts : List String) :
    List (CacheCall (List Value)) :=
  getCalls (fun text => some (sha256 text)) texts

theorem backend_cachedTexts (sha256 : String → String) (texts : List String)
    (cache : LruCache maxSize) :
    (cachedTexts sha256 texts cache).2.backend =
      cache.backend.run (lookupCalls sha256 texts) := by
  have hlookups := backend_lookups (fun text => some (sha256 text)) texts cache
  rwa [lookups_sha256] at hlookups

/-- What a call asks of the cache. -/
def cacheCalls (c : EmbedCache maxSize) : EmbedderCall → List (CacheCall (List Value))
  | .create input =>
    match getSingleText input with
    | some text =>
      lookupCalls c.sha256 [text] ++ setCalls
        (if (c.backend.get (c.sha256 text)).1 = none then
          ((c.create input).1.map fun vector => (c.sha256 text, vector)).toList
        else [])
    | none => []
  | .createBatch texts =>
    let missed := missTexts (cachedTexts c.sha256 texts c.backend).1
    lookupCalls c.sha256 texts ++
      setCalls ((missed.map c.sha256).zip ((fetch c.inner missed).getD []))
  | .embed text =>
    lookupCalls c.sha256 [text] ++ setCalls
      (if (c.backend.get (c.sha256 text)).1 = none then
        ((c.embed text).1.map fun vector => (c.sha256 text, vector)).toList
      else [])

variable (c : EmbedCache maxSize)

theorem backend_create (input : EmbedInput) :
    (c.create input).2.backend = c.backend.backend.run (c.cacheCalls (.create input)) := by
  rcases hsingle : getSingleText input with _ | text
  · simp only [create, cacheCalls, hsingle]
    rfl
  · have hget := backend_cachedTexts c.sha256 [text] c.backend
    simp only [cacheCalls, hsingle]
    rw [run_append, ← hget]
    rcases hfound : (c.backend.get (c.sha256 text)).1 with _ | cached
    · rcases hcreate : c.inner.create with _ | create
      · rcases hembed : c.inner.embed with _ | embed
        · simp only [EmbedCache.create, hsingle, hfound, hcreate, hembed]
          rfl
        · simp only [EmbedCache.create, hsingle, hfound, hcreate, hembed]
          exact (LruCache.backend_set _ _ _).symm
      · simp only [EmbedCache.create, hsingle, hfound, hcreate]
        exact (LruCache.backend_set _ _ _).symm
    · simp only [EmbedCache.create, hsingle, hfound]
      rfl

theorem backend_embed (text : String) :
    (c.embed text).2.backend = c.backend.backend.run (c.cacheCalls (.embed text)) := by
  have hget := backend_cachedTexts c.sha256 [text] c.backend
  simp only [cacheCalls]
  rw [run_append, ← hget]
  rcases hfound : (c.backend.get (c.sha256 text)).1 with _ | cached
  · rcases hembed : c.inner.embed with _ | embed
    · rcases hcreate : c.inner.create with _ | create
      · simp only [EmbedCache.embed, hfound, hcreate, hembed]
        rfl
      · simp only [EmbedCache.embed, hfound, hcreate, hembed]
        exact (LruCache.backend_set _ _ _).symm
    · simp only [EmbedCache.embed, hfound, hembed]
      exact (LruCache.backend_set _ _ _).symm
  · simp only [EmbedCache.embed, hfound]
    rfl

theorem backend_createBatch (texts : List String) :
    (c.createBatch texts).2.backend = c.backend.backend.run (c.cacheCalls (.createBatch texts)) := by
  have hlooked := backend_cachedTexts c.sha256 texts c.backend
  rw [cacheCalls, run_append, ← hlooked, createBatch]
  split
  · next hempty =>
    subst hempty
    rfl
  · dsimp only
    split
    · next hmiss =>
      rw [hmiss]
      rfl
    · split
      · next hfetch =>
        rw [hfetch, Option.getD_none, List.zip_nil_right]
        rfl
      · next fetched hfetch =>
        rw [hfetch, Option.getD_some]
        exact backend_fillBatch _ _ _ _

theorem backend_reply (call : EmbedderCall) :
    (c.reply call).2.backend.backend = c.backend.backend.run (c.cacheCalls call) := by
  cases call with
  | create input => exact c.backend_create input
  | createBatch texts => exact c.backend_createBatch texts
  | embed text => exact c.backend_embed text

/-- What a run of calls asks of the cache. -/
def cacheCallsOf : EmbedCache maxSize → List EmbedderCall → List (CacheCall (List Value))
  | _, [] => []
  | c, call :: calls => c.cacheCalls call ++ cacheCallsOf (c.reply call).2 calls

/-- **The cache of `EmbedCache`**, the same. -/
theorem backend_replies (calls : List EmbedderCall) :
    (calls.foldl (fun c call => (c.reply call).2) c).backend.backend =
      c.backend.backend.run (c.cacheCallsOf calls) := by
  induction calls generalizing c with
  | nil => rfl
  | cons call calls ih => rw [List.foldl_cons, ih, cacheCallsOf, run_append, backend_reply]

/-- A new one holds, after any calls, the vectors of the texts that were found or stored last. -/
theorem holds_replies (inner : InnerEmbedder) (sha256 : String → String) (maxSize : ℤ)
    (calls : List EmbedderCall) :
    (calls.foldl (fun c call => (c.reply call).2) ⟨inner, .empty maxSize, sha256⟩ :
        EmbedCache maxSize).backend.backend.Holds maxSize
      ((new maxSize).uses (cacheCallsOf ⟨inner, .empty maxSize, sha256⟩ calls))
      (cacheCallsOf ⟨inner, .empty maxSize, sha256⟩ calls) := by
  rw [backend_replies]
  exact (holds_new maxSize).run _

end EmbedCache

end JanusGraph
