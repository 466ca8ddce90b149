import JanusGraph.Cache.Lru
import Mathlib.Data.List.Induction

/-!
# Where an embedding comes from

A run of `EmbeddingClient.embed` calls on one cache, each with its own outcome of the request.
The misses of a call are sent as one batch and merged back by their position in it; what is
cached on the way may already be evicted when the call returns. What holds throughout is where
the vectors come from: an entry of the cache, and a vector in a result, was returned by the
endpoint at the position of its text in the batch of some call. That there is a result does not:
a text without UTF-8 has no key, and the body of an error is read as text, so that a call can
raise although failures are to become results.

* **One call.** The loop over the misses carries two invariants at once, of what it returns and
  of what it stores (`fill_spec`): both were found before, or stand in the reply at the position
  of their text. Repeated texts of a call are sent as often as they are repeated.
* **All calls.** A vector in the cache was returned in some call before, for a text with its key
  (`all_cacheAfter`). Evictions only take entries away.
* **The exceptions.** A call returns exactly if it can make the keys of its texts and read the
  error, if there is one (`embedCall_ne_none_iff`).

A vector is kept under the key of its text (`Keyed`). Two texts with one key would share a
vector, which `KeepsTogether` has to except.
-/

namespace JanusGraph

/-- A call of `embed`, and what becomes of the request it sends. -/
structure EmbedCall : Type where
  texts : List String
  reply : HttpReply

/-- The outcomes that a call has to deal with: an error, or an object in which `data` is absent
or a list, of anything. -/
def HttpReply.Expected : HttpReply → Prop
  | .status _ _ | .transport _ => True
  | .json (.dict data) =>
    data.lookup "data" = none ∨ ∃ items, data.lookup "data" = some (.list items)
  | .json _ | .raised => False

/-- It is no error with a body that cannot be decoded. -/
def HttpReply.Decodes (reply : HttpReply) : Prop := ∀ code, reply ≠ .status code none

section

variable (cacheKey : String → Option String) (maxSize : ℤ)

/-- One call, on a cache. -/
def embedCall (cache : LruCache maxSize) (c : EmbedCall) :
    Option (List EmbeddingResult) × LruCache maxSize :=
  EmbeddingClient.embed ⟨cache, cacheKey, fun _ => c.reply⟩ c.texts

/-- The cache after a run of calls on a new client. -/
def cacheAfter (calls : List EmbedCall) : LruCache maxSize :=
  calls.foldl (fun cache c => (embedCall cacheKey maxSize cache c).2) (.empty maxSize)

/-- The batch that a call sends after a run. -/
def sentBatch (calls : List EmbedCall) (c : EmbedCall) : List String :=
  ((lookups cacheKey c.texts (cacheAfter cacheKey maxSize calls)).1.map missTexts).getD []

variable {maxSize} in
/-- The cache lacks a text of the call. -/
def EmbedCall.Misses (cache : LruCache maxSize) (c : EmbedCall) : Prop :=
  ∃ text ∈ c.texts, (cacheKey text).bind (cache.entries.lookup ·) = none

end

/-- The reply to a batch has the vector at the position of the text. -/
def ReturnedFor (batch : List String) (reply : HttpReply) (text : String)
    (vector : List Value) : Prop :=
  ∃ (data : List (String × Value)) (items : List Value) (pos : ℕ) (item : List (String × Value)),
    reply = .json (.dict data) ∧ data.lookup "data" = some (.list items) ∧
    batch[pos]? = some text ∧ items[pos]? = some (.dict item) ∧
    item.lookup "embedding" = some (.list vector)

section

variable (cacheKey : String → Option String) (maxSize : ℤ) (calls : List EmbedCall)

/-- In one of the calls the endpoint returned the vector at the position of the text. -/
def ReturnedBy (text : String) (vector : List Value) : Prop :=
  ∃ before c after, calls = before ++ c :: after ∧
    ReturnedFor (sentBatch cacheKey maxSize before c) c.reply text vector

/-- The vector was returned for a text with the key. -/
def Keyed (key : String) (vector : List Value) : Prop :=
  ∃ text, cacheKey text = some key ∧ ReturnedBy cacheKey maxSize calls text vector

/-- A further call keeps text and vector together: it returns one result for each text in their
order, a vector in a result was returned for a text with the same key, which is the text itself
unless two texts of the run collide under SHA-256, and so was every vector that is cached. -/
structure KeepsTogether (c : EmbedCall) : Prop where
  returns : ∃ results, (embedCall cacheKey maxSize (cacheAfter cacheKey maxSize calls) c).1 =
    some results ∧ results.map EmbeddingResult.text = c.texts
  vectors : ∀ results, (embedCall cacheKey maxSize (cacheAfter cacheKey maxSize calls) c).1 =
    some results → ∀ r ∈ results, ∀ vector, r.embedding = some vector →
      (∃ key, cacheKey r.text = some key ∧ Keyed cacheKey maxSize (calls ++ [c]) key vector) ∧
      ((∀ c' ∈ calls ++ [c], ∀ text ∈ c'.texts, cacheKey text = cacheKey r.text → text = r.text) →
        ReturnedBy cacheKey maxSize (calls ++ [c]) r.text vector)
  cached : ∀ key vector, (key, vector) ∈ (cacheAfter cacheKey maxSize (calls ++ [c])).entries →
    Keyed cacheKey maxSize (calls ++ [c]) key vector

end

variable {cacheKey : String → Option String} {maxSize : ℤ} {calls : List EmbedCall} {c : EmbedCall}

/-- A further call takes no origin away. -/
theorem Keyed.snoc {key : String} {vector : List Value}
    (h : Keyed cacheKey maxSize calls key vector) (c : EmbedCall) :
    Keyed cacheKey maxSize (calls ++ [c]) key vector := by
  obtain ⟨text, hkey, before, c', after, rfl, hreturned⟩ := h
  exact ⟨text, hkey, before, c', after ++ [c], by simp, hreturned⟩

/-! ## One loop over the misses -/

/-- A vector is read from a list, at its position. -/
theorem eq_list_of_vectorAt {raw : Value} {pos : ℕ} {vector : List Value}
    (h : vectorAt raw pos = some (some vector)) :
    ∃ items item, raw = .list items ∧ items[pos]? = some (.dict item) ∧
      item.lookup "embedding" = some (.list vector) := by
  unfold vectorAt at h
  split at h
  · next items =>
    split at h
    · next item hitem =>
      split at h
      · next vector' hvector =>
        obtain rfl := Option.some.inj (Option.some.inj h)
        exact ⟨items, item, rfl, hitem, hvector⟩
      · cases h
    · cases h
  · cases h
  · split at h <;> cases h
  · cases h

/-- A list can be read at any position; what is no vector there becomes a result without one.
-/
theorem vectorAt_list_ne_none (items : List Value) (pos : ℕ) :
    vectorAt (.list items) pos ≠ none := by
  unfold vectorAt
  dsimp only
  split
  · split <;> simp
  · simp

/-- A reply that is a list of anything gives a result, if every text has a key. -/
theorem fill_list_ne_none (items : List Value) {pos : ℕ}
    {found : List (String × Option (List Value))} {cache : LruCache maxSize}
    (hkeys : ∀ entry ∈ found, cacheKey entry.1 ≠ none) :
    (fill cacheKey (.list items) pos found cache).1 ≠ none := by
  induction found generalizing pos cache with
  | nil => nofun
  | cons entry found ih =>
    rw [List.forall_mem_cons] at hkeys
    obtain ⟨text, _ | vector⟩ := entry
    · rw [fill]
      split
      · next hnone => exact absurd hnone (vectorAt_list_ne_none items pos)
      · split
        · next hkey => exact absurd hkey hkeys.1
        · exact mt Option.map_eq_none_iff.mp (ih hkeys.2)
      · exact mt Option.map_eq_none_iff.mp (ih hkeys.2)
    · exact mt Option.map_eq_none_iff.mp (ih hkeys.2)

/-- The fact holds of the vector under the key of the text. -/
def UnderKey (cacheKey : String → Option String) (P : String → List Value → Prop) (text : String)
    (vector : List Value) : Prop :=
  ∃ key, cacheKey text = some key ∧ P key vector

/-- **The invariant of the loop.** `pos` is how much of the batch has been met. What the loop
stores and what it returns was found, or is at the position of its text. Both are shown at
once, as what is returned for a text is what is stored under its key. -/
theorem fill_spec {P : String → List Value → Prop} {raw : Value} {batch : List String}
    (hP : ∀ pos text key vector, batch[pos]? = some text → cacheKey text = some key →
      vectorAt raw pos = some (some vector) → P key vector)
    {found : List (String × Option (List Value))} {pos : ℕ} {cache : LruCache maxSize}
    (hpos : batch.drop pos = missTexts found) (hcache : cache.All P)
    (hfound : ∀ text vector, (text, some vector) ∈ found → UnderKey cacheKey P text vector) :
    (fill cacheKey raw pos found cache).2.All P ∧
      ∀ results, (fill cacheKey raw pos found cache).1 = some results →
        ∀ r ∈ results, ∀ vector, r.embedding = some vector →
          UnderKey cacheKey P r.text vector := by
  induction found generalizing pos cache with
  | nil =>
    refine ⟨hcache, fun results h => ?_⟩
    obtain rfl := Option.some.inj h
    rintro r ⟨⟩
  | cons entry found ih =>
    have hfound' : ∀ text vector, (text, some vector) ∈ found →
        UnderKey cacheKey P text vector :=
      fun text vector hmem => hfound text vector (List.mem_cons_of_mem _ hmem)
    -- a result in front of those of the rest
    have hcons : ∀ {rest : Option (List EmbeddingResult) × LruCache maxSize} {text : String}
        {embedding : Option (List Value)} {error : Option String},
        (∀ results, rest.1 = some results → ∀ r ∈ results, ∀ vector, r.embedding = some vector →
          UnderKey cacheKey P r.text vector) →
        (∀ vector, embedding = some vector → UnderKey cacheKey P text vector) →
        ∀ results, rest.1.map (⟨text, embedding, error⟩ :: ·) = some results →
          ∀ r ∈ results, ∀ vector, r.embedding = some vector →
            UnderKey cacheKey P r.text vector := by
      intro rest text embedding error hrest hfirst results h r hr vector hvector
      obtain ⟨results, hresults, rfl⟩ := Option.map_eq_some_iff.mp h
      rcases List.mem_cons.mp hr with rfl | hr
      · exact hfirst vector hvector
      · exact hrest results hresults r hr vector hvector
    obtain ⟨text, _ | vector⟩ := entry
    · have hmiss : missTexts ((text, none) :: found) = text :: missTexts found := by
        simp [missTexts]
      rw [hmiss] at hpos
      have hat : batch[pos]? = some text := by
        rw [← List.head?_drop, hpos, List.head?_cons]
      have hnext : batch.drop (pos + 1) = missTexts found := by
        rw [← List.tail_drop, hpos, List.tail_cons]
      rw [fill]
      rcases hvector : vectorAt raw pos with _ | _ | vector
      · exact ⟨hcache, by rintro results ⟨⟩⟩
      · obtain ⟨hcache', hresults⟩ := ih hnext hcache hfound'
        exact ⟨hcache', hcons hresults (by rintro vector ⟨⟩)⟩
      · dsimp only
        rcases hkey : cacheKey text with _ | key
        · exact ⟨hcache, by rintro results ⟨⟩⟩
        · have hgiven := hP pos text key vector hat hkey hvector
          obtain ⟨hcache', hresults⟩ := ih hnext (hcache.set hgiven) hfound'
          refine ⟨hcache', hcons hresults fun vector' heq => ?_⟩
          obtain rfl := Option.some.inj heq
          exact ⟨key, hkey, hgiven⟩
    · have hmiss : missTexts ((text, some vector) :: found) = missTexts found := by
        simp [missTexts]
      rw [hmiss] at hpos
      obtain ⟨hcache', hresults⟩ := ih hpos hcache hfound'
      refine ⟨hcache', hcons hresults fun vector' heq => ?_⟩
      obtain rfl := Option.some.inj heq
      exact hfound text vector List.mem_cons_self

/-- What is returned without a request was found in the cache. -/
theorem embedding_cachedOnly {P : String → List Value → Prop} {error : String}
    {found : List (String × Option (List Value))}
    (hfound : ∀ text vector, (text, some vector) ∈ found → UnderKey cacheKey P text vector) :
    ∀ r ∈ cachedOnly error found, ∀ vector, r.embedding = some vector →
      UnderKey cacheKey P r.text vector := by
  intro r hr vector hvector
  obtain ⟨⟨text, embedding⟩, hentry, rfl⟩ := List.mem_map.mp hr
  exact hfound text vector (hvector ▸ hentry)

/-! ## One call -/

/-- What a position of `data` gives is in the reply. -/
theorem returnedFor_of_vectorAt {batch : List String} {data : List (String × Value)} {pos : ℕ}
    {text : String} {vector : List Value} (hat : batch[pos]? = some text)
    (h : vectorAt (if ((data.lookup "data").getD .null).truthy then
      (data.lookup "data").getD .null else .list []) pos = some (some vector)) :
    ReturnedFor batch (.json (.dict data)) text vector := by
  obtain ⟨items, item, hraw, hitem, hvector⟩ := eq_list_of_vectorAt h
  refine ⟨data, items, pos, item, rfl, ?_, hat, hitem, hvector⟩
  split at hraw
  · rcases hdata : data.lookup "data" with _ | given
    · rw [hdata] at hraw
      cases hraw
    · rw [hdata] at hraw
      exact congrArg some hraw
  · cases hraw
    cases hitem

/-- **Step.** Where the vectors come from, for one more call. -/
theorem embedCall_spec
    (h : (cacheAfter cacheKey maxSize calls).All (Keyed cacheKey maxSize calls)) (c : EmbedCall) :
    (embedCall cacheKey maxSize (cacheAfter cacheKey maxSize calls) c).2.All
        (Keyed cacheKey maxSize (calls ++ [c])) ∧
      ∀ results, (embedCall cacheKey maxSize (cacheAfter cacheKey maxSize calls) c).1 =
        some results → ∀ r ∈ results, ∀ vector, r.embedding = some vector →
          UnderKey cacheKey (Keyed cacheKey maxSize (calls ++ [c])) r.text vector := by
  have hbefore := h.mono fun _ _ hk => hk.snoc c
  have hcache : (lookups cacheKey c.texts (cacheAfter cacheKey maxSize calls)).2.All
      (Keyed cacheKey maxSize (calls ++ [c])) := all_lookups cacheKey c.texts hbefore
  unfold embedCall EmbeddingClient.embed
  split
  next cache hlookups =>
    rw [hlookups] at hcache
    exact ⟨hcache, nofun⟩
  next found cache hlookups =>
    have hfound : ∀ text vector, (text, some vector) ∈ found →
        UnderKey cacheKey (Keyed cacheKey maxSize (calls ++ [c])) text vector := fun text vector =>
      lookups_found hbefore (congrArg Prod.fst hlookups)
    have hbatch : sentBatch cacheKey maxSize calls c = missTexts found := by
      rw [sentBatch, hlookups, Option.map_some, Option.getD_some]
    rw [hlookups] at hcache
    have hcached : ∀ error results, some (cachedOnly error found) = some results →
        ∀ r ∈ results, ∀ vector, r.embedding = some vector →
          UnderKey cacheKey (Keyed cacheKey maxSize (calls ++ [c])) r.text vector := by
      intro error results hresults
      obtain rfl := Option.some.inj hresults
      exact embedding_cachedOnly hfound
    split_ifs
    · exact ⟨hcache, hcached _⟩
    · rcases hreply : c.reply with ⟨code, _ | body⟩ | error | data | _
      · exact ⟨hcache, nofun⟩
      · exact ⟨hcache, hcached _⟩
      · exact ⟨hcache, hcached _⟩
      · cases data with
        | dict data =>
          have hstart : (missTexts found).drop 0 = missTexts found := List.drop_zero
          refine fill_spec (fun pos text key vector hat hkey hvector => ?_) hstart hcache hfound
          refine ⟨text, hkey, calls, c, [], by simp, ?_⟩
          rw [hbatch, hreply]
          exact returnedFor_of_vectorAt hat hvector
        | _ => exact ⟨hcache, nofun⟩
      · exact ⟨hcache, nofun⟩

/-- Where `data` is absent or a list, the loop reads from a list. -/
theorem raw_eq_list {data : List (String × Value)} (h : (HttpReply.json (.dict data)).Expected) :
    ∃ items, (if ((data.lookup "data").getD .null).truthy then (data.lookup "data").getD .null
      else .list []) = .list items := by
  rcases h with hdata | ⟨items, hdata⟩
  · exact ⟨[], by simp [hdata, Value.truthy]⟩
  · rw [hdata, Option.getD_some]
    split
    · exact ⟨items, rfl⟩
    · exact ⟨[], rfl⟩

/-- **When a call returns**: exactly if each of its texts has a key, and the error that comes
when the cache lacks one has a body that can be decoded. All other failures of the request
have a handler. -/
theorem embedCall_ne_none_iff (cache : LruCache maxSize) (h : c.reply.Expected) :
    (embedCall cacheKey maxSize cache c).1 ≠ none ↔
      (∀ text ∈ c.texts, cacheKey text ≠ none) ∧ (c.Misses cacheKey cache → c.reply.Decodes) := by
  by_cases hkeys : ∀ text ∈ c.texts, cacheKey text ≠ none
  · rw [and_iff_right hkeys]
    have hfound := lookups_eq_some hkeys cache
    unfold embedCall EmbeddingClient.embed
    split
    next cache' hlookups =>
      rw [hlookups] at hfound
      cases hfound
    next found cache' hlookups =>
      rw [hlookups] at hfound
      obtain rfl := Option.some.inj hfound
      have hmisses : missTexts (c.texts.map fun text =>
          (text, (cacheKey text).bind (cache.entries.lookup ·))) = [] ↔
            ¬ c.Misses cacheKey cache := by
        simp [missTexts, EmbedCall.Misses, List.filter_eq_nil_iff]
      split_ifs with hnone
      · exact iff_of_true nofun fun hmiss => absurd hmiss (hmisses.mp hnone)
      · have hmiss : c.Misses cacheKey cache := not_not.mp (mt hmisses.mpr hnone)
        rw [forall_prop_of_true hmiss]
        rcases hreply : c.reply with ⟨code, _ | body⟩ | error | data | _
        · exact iff_of_false (fun hne => hne rfl) fun hdecodes => hdecodes code rfl
        · exact iff_of_true nofun nofun
        · exact iff_of_true nofun nofun
        · rw [hreply] at h
          cases data with
          | dict data =>
            obtain ⟨items, hitems⟩ := raw_eq_list h
            refine iff_of_true ?_ nofun
            dsimp only
            rw [hitems]
            refine fill_list_ne_none items fun entry hentry => ?_
            obtain ⟨text, htext, rfl⟩ := List.mem_map.mp hentry
            exact hkeys text htext
          | _ => exact h.elim
        · rw [hreply] at h
          exact h.elim
  · refine iff_of_false (fun hne => hne ?_) fun hcond => hkeys hcond.1
    push Not at hkeys
    obtain ⟨text, htext, hkey⟩ := hkeys
    have hnone := lookups_eq_none htext hkey cache
    unfold embedCall EmbeddingClient.embed
    split
    · rfl
    next found cache' hlookups =>
      rw [hlookups] at hnone
      cases hnone

/-! ## Runs -/

/-- The cache after one more call. -/
theorem cacheAfter_snoc (calls : List EmbedCall) (c : EmbedCall) :
    cacheAfter cacheKey maxSize (calls ++ [c]) =
      (embedCall cacheKey maxSize (cacheAfter cacheKey maxSize calls) c).2 := by
  rw [cacheAfter, List.foldl_append]
  rfl

/-- **Run.** Every entry of the cache was returned for a text with its key. -/
theorem all_cacheAfter (calls : List EmbedCall) :
    (cacheAfter cacheKey maxSize calls).All (Keyed cacheKey maxSize calls) := by
  induction calls using List.reverseRecOn with
  | nil => exact LruCache.all_empty
  | append_singleton calls c ih =>
    rw [cacheAfter_snoc]
    exact (embedCall_spec ih c).1

/-- A vector was returned for a text of a call. -/
theorem ReturnedBy.mem_texts {text : String} {vector : List Value}
    (h : ReturnedBy cacheKey maxSize calls text vector) : ∃ c ∈ calls, text ∈ c.texts := by
  obtain ⟨before, c, after, rfl, data, items, pos, item, -, -, hpos, -⟩ := h
  refine ⟨c, by simp, ?_⟩
  have hmem := List.mem_of_getElem? hpos
  rw [sentBatch] at hmem
  cases hfound : (lookups cacheKey c.texts (cacheAfter cacheKey maxSize before)).1 with
  | none =>
    rw [hfound] at hmem
    cases hmem
  | some found =>
    rw [hfound, Option.map_some, Option.getD_some, missTexts] at hmem
    rw [← map_fst_lookups hfound]
    exact (List.filter_sublist.map Prod.fst).subset hmem

/-- **Text and vector stay together**, after any run of calls on a new client: what a call
returns and what it caches always does, so all that can go wrong is that it returns nothing. It
returns exactly if each of its texts has UTF-8, and the error that comes when the cache lacks
one has a body that can be decoded: neither `_cache_key` nor `resp.text()` is guarded. -/
theorem embed_keeps_together_iff (hexpected : c.reply.Expected) :
    KeepsTogether cacheKey maxSize calls c ↔
      (∀ text ∈ c.texts, cacheKey text ≠ none) ∧
        (c.Misses cacheKey (cacheAfter cacheKey maxSize calls) → c.reply.Decodes) := by
  rw [← embedCall_ne_none_iff _ hexpected]
  obtain ⟨hcached, hresults⟩ := embedCall_spec (all_cacheAfter calls) c
  constructor
  · intro h hnone
    obtain ⟨results, hsome, -⟩ := h.returns
    rw [hnone] at hsome
    cases hsome
  · intro hne
    obtain ⟨results, hsome⟩ := Option.ne_none_iff_exists'.mp hne
    refine ⟨⟨results, hsome, EmbeddingClient.map_text_embed hsome⟩,
      fun results h r hr vector hvector => ?_, ?_⟩
    · obtain ⟨key, hkey, hkeyed⟩ := hresults results h r hr vector hvector
      refine ⟨⟨key, hkey, hkeyed⟩, fun hdistinct => ?_⟩
      obtain ⟨text, htextKey, hreturned⟩ := hkeyed
      obtain ⟨c', hc', htext⟩ := hreturned.mem_texts
      exact hdistinct c' hc' text htext (htextKey.trans hkey.symm) ▸ hreturned
    · rw [cacheAfter_snoc]
      exact hcached

/-- Two texts, and a reply with a vector for the first. -/
theorem embed_keeps_together_iff_half : KeepsTogether some 1 []
    ⟨["a", "b"], .json (.dict [("data", .list [.dict [("embedding", .list [.int 1])]])])⟩ := by
  refine (embed_keeps_together_iff ?_).mpr ⟨fun _ _ => nofun, fun _ => nofun⟩
  exact Or.inr ⟨_, rfl⟩

/-- The endpoint answers with an error whose body is no text, and the call raises. -/
theorem not_embed_keeps_together :
    ¬ ∀ (cacheKey : String → Option String) (maxSize : ℤ) (calls : List EmbedCall) (c : EmbedCall),
      c.reply.Expected → KeepsTogether cacheKey maxSize calls c := by
  intro h
  obtain ⟨results, hresults, -⟩ := (h some 1 [] ⟨["a"], .status 500 none⟩ trivial).returns
  have hraises : (embedCall some 1 (cacheAfter some 1 []) ⟨["a"], .status 500 none⟩).1 = none := by
    rfl
  rw [hraises] at hresults
  cases hresults

end JanusGraph
