import JanusGraph.Cache.Lru

/-!
# The embedding cache

`EmbedCache` of `cache/embed_cache.py`: an embedder in front of another one, which remembers the
vectors of single texts by the SHA-256 of the text. It may be smaller than a batch, so that what
a call stores is evicted before the call returns.
-/

namespace JanusGraph

/-- The argument of `create`. -/
inductive EmbedInput : Type where
  | str (text : String)
  | list (items : List Value)
  /-- an iterable that is neither, by what it yields -/
  | iterable (items : List Value)

/-- The embedder inside: the methods that it has. -/
structure InnerEmbedder : Type where
  create : Option (EmbedInput → List Value)
  createBatch : Option (List String → List (List Value))
  embed : Option (String → List Value)

/-- `EmbedCache` -/
structure EmbedCache (maxSize : ℤ) : Type where
  inner : InnerEmbedder
  backend : LruCache maxSize
  /-- `sha256(text).hexdigest()` -/
  sha256 : String → String

/-- `_get_single_text` -/
def getSingleText : EmbedInput → Option String
  | .str text => some text
  | .list [.str text] => some text
  | _ => none

/-- The loop over the texts: what the cache has for each. -/
def cachedTexts {maxSize : ℤ} (sha256 : String → String) :
    List String → LruCache maxSize → List (String × Option (List Value)) × LruCache maxSize
  | [], backend => ([], backend)
  | text :: texts, backend =>
    let found := backend.get (sha256 text)
    let rest := cachedTexts sha256 texts found.2
    ((text, found.1) :: rest.1, rest.2)

/-- The loop over the misses and the vectors that were fetched for them; a text without a vector
is left without one. -/
def fillBatch {maxSize : ℤ} (sha256 : String → String) :
    List (String × Option (List Value)) → List (List Value) → LruCache maxSize →
      List (Option (List Value)) × LruCache maxSize
  | [], _, backend => ([], backend)
  | (_, some cached) :: found, fetched, backend =>
    let rest := fillBatch sha256 found fetched backend
    (some cached :: rest.1, rest.2)
  | (_, none) :: found, [], backend =>
    let rest := fillBatch sha256 found [] backend
    (none :: rest.1, rest.2)
  | (text, none) :: found, emb :: fetched, backend =>
    let rest := fillBatch sha256 found fetched (backend.set (sha256 text) emb)
    (some emb :: rest.1, rest.2)

namespace EmbedCache

variable {maxSize : ℤ}

/-- `create`, and the cache after it; without a vector it has raised. -/
def create (c : EmbedCache maxSize) (input : EmbedInput) :
    Option (List Value) × LruCache maxSize :=
  match getSingleText input with
  | some text =>
    let found := c.backend.get (c.sha256 text)
    match found.1 with
    | some cached => (some cached, found.2)
    | none =>
      match c.inner.create, c.inner.embed with
      | some create, _ => (some (create input), found.2.set (c.sha256 text) (create input))
      | none, some embed => (some (embed text), found.2.set (c.sha256 text) (embed text))
      | none, none => (none, found.2)
  | none => (c.inner.create.map fun create => create input, c.backend)

/-- `fetched_embeddings` -/
def fetch (inner : InnerEmbedder) (missTexts : List String) : Option (List (List Value)) :=
  match inner.createBatch, inner.create, inner.embed with
  | some createBatch, _, _ => some (createBatch missTexts)
  | none, some create, _ => some (missTexts.map fun t => create (.str t))
  | none, none, some embed => some (missTexts.map embed)
  | none, none, none => none

/-- `create_batch` -/
def createBatch (c : EmbedCache maxSize) (texts : List String) :
    Option (List (List Value)) × LruCache maxSize :=
  if texts = [] then (some [], c.backend)
  else
    let found := cachedTexts c.sha256 texts c.backend
    if missTexts found.1 = [] then (some (found.1.filterMap Prod.snd), found.2)
    else match fetch c.inner (missTexts found.1) with
      | none => (none, found.2)
      | some fetched =>
        let filled := fillBatch c.sha256 found.1 fetched found.2
        (some filled.1.reduceOption, filled.2)

/-- `embed` -/
def embed (c : EmbedCache maxSize) (text : String) : Option (List Value) × LruCache maxSize :=
  let found := c.backend.get (c.sha256 text)
  match found.1 with
  | some cached => (some cached, found.2)
  | none =>
    match c.inner.embed, c.inner.create with
    | some embed, _ => (some (embed text), found.2.set (c.sha256 text) (embed text))
    | none, some create =>
      (some (create (.str text)), found.2.set (c.sha256 text) (create (.str text)))
    | none, none => (none, found.2)

end EmbedCache

/-! ## Runs -/

/-- A call of an embedder. -/
inductive EmbedderCall : Type where
  | create (input : EmbedInput)
  | createBatch (texts : List String)
  | embed (text : String)

/-- What a call returns. -/
inductive EmbedderReply : Type where
  | vector (v : List Value)
  | vectors (vs : List (List Value))
  /-- `AttributeError` -/
  | raised
  deriving DecidableEq

def EmbedderReply.ofVector (v : Option (List Value)) : EmbedderReply := v.elim .raised .vector

def EmbedderReply.ofVectors (vs : Option (List (List Value))) : EmbedderReply :=
  vs.elim .raised .vectors

/-- A call of the embedder inside. -/
def InnerEmbedder.reply (inner : InnerEmbedder) : EmbedderCall → EmbedderReply
  | .create input => .ofVector (inner.create.map fun create => create input)
  | .createBatch texts => .ofVectors (inner.createBatch.map fun createBatch => createBatch texts)
  | .embed text => .ofVector (inner.embed.map fun embed => embed text)

/-- A call of the cache, and the cache after it. -/
def EmbedCache.reply {maxSize : ℤ} (c : EmbedCache maxSize) :
    EmbedderCall → EmbedderReply × EmbedCache maxSize
  | .create input =>
    let r := c.create input
    (.ofVector r.1, { c with backend := r.2 })
  | .createBatch texts =>
    let r := c.createBatch texts
    (.ofVectors r.1, { c with backend := r.2 })
  | .embed text =>
    let r := c.embed text
    (.ofVector r.1, { c with backend := r.2 })

/-- The replies to a run of calls. -/
def EmbedCache.replies {maxSize : ℤ} : List EmbedderCall → EmbedCache maxSize → List EmbedderReply
  | [], _ => []
  | call :: calls, c => (c.reply call).1 :: replies calls (c.reply call).2

/-- The methods of the embedder agree on each text: they give its vector, `create` also for the
list of that text alone, and `create_batch` gives one for each text. -/
structure InnerEmbedder.Agrees (inner : InnerEmbedder) (vec : String → List Value) : Prop where
  create : ∃ create, inner.create = some create ∧ (∀ text, create (.str text) = vec text) ∧
    ∀ text, create (.list [.str text]) = vec text
  createBatch : inner.createBatch = some fun texts => texts.map vec
  embed : inner.embed = some vec

/-! ## Transparency -/

variable {maxSize : ℤ} {sha256 : String → String} {vec : String → List Value}

/-- What is stored under the key of a text is its vector. -/
def Remembers (sha256 : String → String) (vec : String → List Value) (key : String)
    (vector : List Value) : Prop :=
  ∀ text, sha256 text = key → vector = vec text

theorem remembers_vec (hsha : Function.Injective sha256) (text : String) :
    Remembers sha256 vec (sha256 text) (vec text) := fun _ htext => congrArg vec (hsha htext).symm

/-- A text is found with its vector or not at all. -/
def Recalls (vec : String → List Value) (found : List (String × Option (List Value))) : Prop :=
  ∀ text vector, (text, some vector) ∈ found → vector = vec text

/-- They are the lookups of a client for which every text has a key. -/
theorem lookups_sha256 (sha256 : String → String) (texts : List String)
    (cache : LruCache maxSize) : lookups (fun text => some (sha256 text)) texts cache =
      (some (cachedTexts sha256 texts cache).1, (cachedTexts sha256 texts cache).2) := by
  induction texts generalizing cache with
  | nil => rfl
  | cons text texts ih =>
    rw [lookups, cachedTexts]
    dsimp only
    rw [ih]
    rfl

theorem map_fst_cachedTexts (sha256 : String → String) (texts : List String)
    (cache : LruCache maxSize) : (cachedTexts sha256 texts cache).1.map Prod.fst = texts :=
  map_fst_lookups (congrArg Prod.fst (lookups_sha256 sha256 texts cache))

theorem all_cachedTexts {P : String → List Value → Prop} {cache : LruCache maxSize}
    (sha256 : String → String) (texts : List String) (h : cache.All P) :
    (cachedTexts sha256 texts cache).2.All P := by
  have hlooked := all_lookups (fun text => some (sha256 text)) texts h
  rwa [lookups_sha256] at hlooked

theorem recalls_cachedTexts (texts : List String) {cache : LruCache maxSize}
    (h : cache.All (Remembers sha256 vec)) : Recalls vec (cachedTexts sha256 texts cache).1 := by
  intro text vector hmem
  obtain ⟨key, hkey, hvector⟩ :=
    lookups_found h (congrArg Prod.fst (lookups_sha256 sha256 texts cache)) hmem
  exact hvector text (Option.some.inj hkey)

/-- Without misses, the vectors found are those of the texts. -/
theorem filterMap_snd_of_recalls {found : List (String × Option (List Value))}
    (h : Recalls vec found) (hmiss : missTexts found = []) :
    found.filterMap Prod.snd = (found.map Prod.fst).map vec := by
  induction found with
  | nil => rfl
  | cons entry found ih =>
    obtain ⟨text, _ | vector⟩ := entry
    · simp [missTexts] at hmiss
    · have hrest := ih (fun t v hmem => h t v (List.mem_cons_of_mem _ hmem))
        (by simpa [missTexts] using hmiss)
      have hhead : vector = vec text := h text vector List.mem_cons_self
      exact List.cons_eq_cons.mpr ⟨hhead, hrest⟩

theorem reduceOption_map_some {α β : Type} (f : α → β) (l : List α) :
    (l.map fun a => some (f a)).reduceOption = l.map f := by
  induction l with
  | nil => rfl
  | cons a l ih => rw [List.map_cons, List.reduceOption_cons_of_some, ih, List.map_cons]

/-- The loop over the misses: every text gets its vector, whatever is evicted on the way. -/
theorem fillBatch_spec (hsha : Function.Injective sha256)
    {found : List (String × Option (List Value))} {backend : LruCache maxSize}
    (h : Recalls vec found) (hbackend : backend.All (Remembers sha256 vec)) :
    (fillBatch sha256 found ((missTexts found).map vec) backend).1 =
        found.map (fun entry => some (vec entry.1)) ∧
      (fillBatch sha256 found ((missTexts found).map vec) backend).2.All
        (Remembers sha256 vec) := by
  induction found generalizing backend with
  | nil => exact ⟨rfl, hbackend⟩
  | cons entry found ih =>
    have htail : Recalls vec found := fun t v hmem => h t v (List.mem_cons_of_mem _ hmem)
    obtain ⟨text, _ | vector⟩ := entry
    · have hmiss : missTexts ((text, none) :: found) = text :: missTexts found := by
        simp [missTexts]
      obtain ⟨hresults, hbackend'⟩ := ih htail (hbackend.set (remembers_vec hsha text))
      rw [hmiss, List.map_cons, fillBatch]
      exact ⟨congrArg (some (vec text) :: ·) hresults, hbackend'⟩
    · have hmiss : missTexts ((text, some vector) :: found) = missTexts found := by
        simp [missTexts]
      obtain ⟨hresults, hbackend'⟩ := ih htail hbackend
      rw [hmiss, fillBatch, h text vector List.mem_cons_self]
      exact ⟨congrArg (some (vec text) :: ·) hresults, hbackend'⟩

namespace EmbedCache

variable {c : EmbedCache maxSize}

theorem createBatch_spec (hsha : Function.Injective c.sha256) (hinner : c.inner.Agrees vec)
    (h : c.backend.All (Remembers c.sha256 vec)) (texts : List String) :
    (c.createBatch texts).1 = some (texts.map vec) ∧
      (c.createBatch texts).2.All (Remembers c.sha256 vec) := by
  rw [createBatch]
  split_ifs with hempty
  · subst hempty
    exact ⟨rfl, h⟩
  · have hrecalls := recalls_cachedTexts texts h
    have hlooked := all_cachedTexts c.sha256 texts h
    have htexts := map_fst_cachedTexts c.sha256 texts c.backend
    dsimp only
    split_ifs with hmiss
    · rw [filterMap_snd_of_recalls hrecalls hmiss, htexts]
      exact ⟨rfl, hlooked⟩
    · obtain ⟨hresults, hbackend⟩ := fillBatch_spec hsha hrecalls hlooked
      have hfetch : fetch c.inner (missTexts (cachedTexts c.sha256 texts c.backend).1) =
          some ((missTexts (cachedTexts c.sha256 texts c.backend).1).map vec) := by
        rw [fetch, hinner.createBatch]
      rw [hfetch]
      dsimp only
      rw [hresults]
      refine ⟨congrArg some ?_, hbackend⟩
      conv_rhs => rw [← htexts, List.map_map]
      rw [reduceOption_map_some]
      rfl

/-- The lookup of a single text: its vector, or a miss. -/
theorem get_spec (h : c.backend.All (Remembers c.sha256 vec)) (text : String) :
    (c.backend.get (c.sha256 text)).1 = none ∨
      (c.backend.get (c.sha256 text)).1 = some (vec text) := by
  rcases hget : (c.backend.get (c.sha256 text)).1 with _ | vector
  · exact .inl rfl
  · exact .inr (congrArg some (h.of_get hget text rfl))

theorem embed_spec (hsha : Function.Injective c.sha256) (hinner : c.inner.Agrees vec)
    (h : c.backend.All (Remembers c.sha256 vec)) (text : String) :
    (c.embed text).1 = some (vec text) ∧ (c.embed text).2.All (Remembers c.sha256 vec) := by
  have hlooked := h.get (c.sha256 text)
  rcases get_spec h text with hget | hget
  · simp only [embed, hget, hinner.embed]
    exact ⟨trivial, hlooked.set (remembers_vec hsha text)⟩
  · simp only [embed, hget]
    exact ⟨trivial, hlooked⟩

/-- What `create` gives for a single text, in either form. -/
theorem create_of_getSingleText {create : EmbedInput → List Value}
    (hstr : ∀ text, create (.str text) = vec text)
    (hlist : ∀ text, create (.list [.str text]) = vec text) {input : EmbedInput} {text : String}
    (h : getSingleText input = some text) : create input = vec text := by
  unfold getSingleText at h
  split at h
  · obtain rfl := Option.some.inj h
    exact hstr _
  · obtain rfl := Option.some.inj h
    exact hlist _
  · cases h

theorem create_spec (hsha : Function.Injective c.sha256) (hinner : c.inner.Agrees vec)
    (h : c.backend.All (Remembers c.sha256 vec)) (input : EmbedInput) :
    (c.create input).1 = c.inner.create.map (fun create => create input) ∧
      (c.create input).2.All (Remembers c.sha256 vec) := by
  obtain ⟨create, hcreate, hstr, hlist⟩ := hinner.create
  rcases hsingle : getSingleText input with _ | text
  · simp only [EmbedCache.create, hsingle]
    exact ⟨trivial, h⟩
  · have hvec := create_of_getSingleText hstr hlist hsingle
    have hlooked := h.get (c.sha256 text)
    rcases get_spec h text with hget | hget
    · simp only [EmbedCache.create, hsingle, hget, hcreate, Option.map_some, hvec]
      exact ⟨trivial, hlooked.set (remembers_vec hsha text)⟩
    · simp only [EmbedCache.create, hsingle, hget, hcreate, Option.map_some, hvec]
      exact ⟨trivial, hlooked⟩

/-- **Step.** A call is answered as inside, and what is stored stays right. -/
theorem reply_spec (hsha : Function.Injective c.sha256) (hinner : c.inner.Agrees vec)
    (h : c.backend.All (Remembers c.sha256 vec)) (call : EmbedderCall) :
    (c.reply call).1 = c.inner.reply call ∧
      (c.reply call).2.backend.All (Remembers c.sha256 vec) := by
  cases call with
  | create input =>
    obtain ⟨hreply, hbackend⟩ := create_spec hsha hinner h input
    exact ⟨congrArg EmbedderReply.ofVector hreply, hbackend⟩
  | createBatch texts =>
    obtain ⟨hreply, hbackend⟩ := createBatch_spec hsha hinner h texts
    refine ⟨?_, hbackend⟩
    rw [reply, InnerEmbedder.reply, hinner.createBatch, hreply]
    rfl
  | embed text =>
    obtain ⟨hreply, hbackend⟩ := embed_spec hsha hinner h text
    refine ⟨?_, hbackend⟩
    rw [reply, InnerEmbedder.reply, hinner.embed, hreply]
    rfl

end EmbedCache

/-- **Run.** -/
theorem EmbedCache.replies_spec (inner : InnerEmbedder) (sha256 : String → String)
    (hsha : Function.Injective sha256) (hinner : inner.Agrees vec) (calls : List EmbedderCall) :
    ∀ backend : LruCache maxSize, backend.All (Remembers sha256 vec) →
      EmbedCache.replies calls ⟨inner, backend, sha256⟩ = calls.map inner.reply := by
  induction calls with
  | nil => exact fun _ _ => rfl
  | cons call calls ih =>
    intro backend h
    obtain ⟨hreply, hbackend⟩ :=
      EmbedCache.reply_spec (c := ⟨inner, backend, sha256⟩) hsha hinner h call
    have hnext : (EmbedCache.reply ⟨inner, backend, sha256⟩ call).2 =
        ⟨inner, (EmbedCache.reply ⟨inner, backend, sha256⟩ call).2.backend, sha256⟩ := by
      cases call <;> rfl
    rw [EmbedCache.replies, List.map_cons, hreply, hnext, ih _ hbackend]

end JanusGraph
