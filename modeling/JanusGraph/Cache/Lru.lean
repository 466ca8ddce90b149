import JanusGraph.Search.Embedding

/-!
# What a bounded cache may hold

`LRUCacheBackend` forgets entries and reorders them, but it never makes one up: what a key is
found with was set under that key. So a fact about every entry (`LruCache.All`) survives any
lookup, and it survives a `set` of which it holds.
-/

namespace JanusGraph

namespace LruCache

variable {maxSize : ℤ}

/-- A new cache. -/
def empty (maxSize : ℤ) : LruCache maxSize where
  entries := []
  nodup := List.nodup_nil
  bounded := Nat.zero_le _

/-- The fact holds of every entry. -/
def All (P : String → List Value → Prop) (cache : LruCache maxSize) : Prop :=
  ∀ key value, (key, value) ∈ cache.entries → P key value

variable {P Q : String → List Value → Prop} {cache : LruCache maxSize} {key : String}
  {value : List Value}

theorem all_empty : (empty maxSize).All P := fun _ _ h => absurd h List.not_mem_nil

theorem All.mono (h : cache.All P) (hPQ : ∀ key value, P key value → Q key value) :
    cache.All Q := fun key value hmem => hPQ key value (h key value hmem)

theorem get_fst (cache : LruCache maxSize) (key : String) :
    (cache.get key).1 = cache.entries.lookup key := by
  rw [get]
  split
  · next hlookup => exact hlookup.symm
  · next value hlookup => exact hlookup.symm

theorem mem_of_lookup (h : cache.entries.lookup key = some value) :
    (key, value) ∈ cache.entries := by
  obtain ⟨before, after, hentries, -⟩ := List.lookup_eq_some_iff.mp h
  simp [hentries]

/-- A hit is an entry. -/
theorem mem_of_get (h : (cache.get key).1 = some value) : (key, value) ∈ cache.entries :=
  mem_of_lookup (cache.get_fst key ▸ h)

theorem mem_moved {entries : List (String × List Value)} {entry : String × List Value}
    (h : entry ∈ moved entries key value) : entry = (key, value) ∨ entry ∈ entries := by
  rcases List.mem_append.mp h with h | h
  · exact .inr (List.mem_of_mem_filter h)
  · exact .inl (List.mem_singleton.mp h)

/-- A lookup adds no entry. -/
theorem mem_get {entry : String × List Value} (h : entry ∈ (cache.get key).2.entries) :
    entry ∈ cache.entries := by
  rw [get] at h
  split at h
  · exact h
  · next found hlookup =>
    rcases mem_moved h with rfl | h
    · exact mem_of_lookup hlookup
    · exact h

/-- `set` adds the entry, and no other. -/
theorem mem_set {entry : String × List Value} (h : entry ∈ (cache.set key value).entries) :
    entry = (key, value) ∨ entry ∈ cache.entries := by
  rw [set] at h
  split at h
  · exact mem_moved (List.mem_of_mem_tail h)
  · exact mem_moved h

theorem All.get (h : cache.All P) (key : String) : (cache.get key).2.All P :=
  fun k v hmem => h k v (mem_get hmem)

theorem All.of_get (h : cache.All P) (hget : (cache.get key).1 = some value) : P key value :=
  h key value (mem_of_get hget)

theorem All.set (h : cache.All P) (hP : P key value) : (cache.set key value).All P := by
  intro k v hmem
  rcases mem_set hmem with heq | hmem
  · obtain ⟨rfl, rfl⟩ := Prod.mk.inj heq
    exact hP
  · exact h k v hmem

/-- A lookup finds the same under every key afterwards. -/
theorem lookup_get (cache : LruCache maxSize) (key other : String) :
    (cache.get key).2.entries.lookup other = cache.entries.lookup other := by
  rw [get]
  split
  · rfl
  · next found hlookup =>
    dsimp only [moved]
    rw [List.lookup_append]
    by_cases hother : other = key
    · have hgone : (cache.entries.filter (·.1 ≠ key)).lookup key = none := by
        rw [List.lookup_eq_none_iff]
        intro entry hentry
        have hne : entry.1 ≠ key := by simpa using List.of_mem_filter hentry
        simpa using Ne.symm hne
      rw [hother, hgone, hlookup]
      simp
    · have hlast : List.lookup other [(key, found)] = none := by simp [hother]
      rw [hlast, Option.or_none]
      induction cache.entries with
      | nil => rfl
      | cons entry entries ih =>
        by_cases hentry : entry.1 = key
        · have hne : (other == entry.1) = false := by simpa [hentry] using hother
          rw [List.filter_cons_of_neg (by simpa using hentry), List.lookup_cons, hne]
          exact ih
        · rw [List.filter_cons_of_pos (by simpa using hentry), List.lookup_cons, List.lookup_cons, ih]

end LruCache

/-! ## The loop of lookups -/

variable {maxSize : ℤ} {P : String → List Value → Prop} {cacheKey : String → Option String}

/-- The lookups of a batch leave the entries as they are. -/
theorem all_lookups (cacheKey : String → Option String) (texts : List String)
    {cache : LruCache maxSize} (h : cache.All P) : (lookups cacheKey texts cache).2.All P := by
  induction texts generalizing cache with
  | nil => exact h
  | cons text texts ih =>
    rw [lookups]
    split
    · exact h
    · exact ih (h.get _)

/-- A text without a key is looked up in vain. -/
theorem lookups_eq_none {texts : List String} {text : String} (htext : text ∈ texts)
    (hkey : cacheKey text = none) (cache : LruCache maxSize) :
    (lookups cacheKey texts cache).1 = none := by
  induction texts generalizing cache with
  | nil => cases htext
  | cons first texts ih =>
    rw [lookups]
    split
    · rfl
    · next key hfirst =>
      rcases List.mem_cons.mp htext with rfl | htext
      · rw [hkey] at hfirst
        cases hfirst
      · exact Option.map_eq_none_iff.mpr (ih htext _)

/-- Where every text has a key, what is found is what the cache has at the start. -/
theorem lookups_eq_some {texts : List String} (hkeys : ∀ text ∈ texts, cacheKey text ≠ none)
    (cache : LruCache maxSize) :
    (lookups cacheKey texts cache).1 =
      some (texts.map fun text => (text, (cacheKey text).bind (cache.entries.lookup ·))) := by
  induction texts generalizing cache with
  | nil => rfl
  | cons first texts ih =>
    rw [List.forall_mem_cons] at hkeys
    obtain ⟨key, hkey⟩ := Option.ne_none_iff_exists'.mp hkeys.1
    have hrest := ih hkeys.2 (cache.get key).2
    simp only [LruCache.lookup_get] at hrest
    simp only [lookups, hkey, hrest, Option.map_some, List.map_cons, Option.bind_some,
      LruCache.get_fst]

/-- What a batch finds was in the cache, under the key of the text. -/
theorem lookups_found {texts : List String} {cache : LruCache maxSize}
    {found : List (String × Option (List Value))} (h : cache.All P)
    (hfound : (lookups cacheKey texts cache).1 = some found) {text : String}
    {vector : List Value} (hmem : (text, some vector) ∈ found) :
    ∃ key, cacheKey text = some key ∧ P key vector := by
  by_cases hkeys : ∀ text ∈ texts, cacheKey text ≠ none
  · rw [lookups_eq_some hkeys] at hfound
    obtain rfl := Option.some.inj hfound
    obtain ⟨text', -, heq⟩ := List.mem_map.mp hmem
    obtain ⟨rfl, hlookup⟩ := Prod.mk.inj heq
    obtain ⟨key, hkey, hlookup⟩ := Option.bind_eq_some_iff.mp hlookup
    exact ⟨key, hkey, h key vector (LruCache.mem_of_lookup hlookup)⟩
  · push Not at hkeys
    obtain ⟨text', htext', hnone⟩ := hkeys
    rw [lookups_eq_none htext' hnone] at hfound
    cases hfound

end JanusGraph
