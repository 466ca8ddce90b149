import JanusGraph.Lib.Recency
import JanusGraph.Lib.Table

/-!
# What a bounded cache holds

`LRUCacheBackend` of `cache/lru.py`, for values of any kind. Its `OrderedDict` is a table whose
order is that of the last use: a hit and a `set` move a key to the end, and the first one goes
when there are too many. What the cache holds after a run of calls is then `Recency.recent`, of
the keys that the calls used.
-/

namespace JanusGraph

open Recency

/-- `LRUCacheBackend` -/
structure LruCacheBackend (V : Type) : Type where
  maxSize : ℤ
  /-- `_cache` -/
  cache : Table String V

/-- A call of the cache. -/
inductive CacheCall (V : Type) : Type where
  | get (key : String)
  | set (key : String) (value : V)

namespace LruCacheBackend

variable {V : Type}

/-- A new cache. -/
def new (maxSize : ℤ) : LruCacheBackend V := ⟨maxSize, .empty⟩

/-- `get` -/
def get (b : LruCacheBackend V) (key : String) : Option V × LruCacheBackend V :=
  if key ∈ b.cache.keys then
    let moved := b.cache.moveToEnd key
    (moved.get? key, { b with cache := moved })
  else (none, b)

/-- `set` -/
def set (b : LruCacheBackend V) (key : String) (value : V) : LruCacheBackend V :=
  let moved := if key ∈ b.cache.keys then b.cache.moveToEnd key else b.cache
  let stored := moved.upsert key fun _ => value
  { b with cache := if stored.rows.length > b.maxSize then stored.popFirst else stored }

/-- `size` -/
def size (b : LruCacheBackend V) : ℕ := b.cache.rows.length

/-! ## Runs -/

/-- The cache after a call. -/
def step (b : LruCacheBackend V) : CacheCall V → LruCacheBackend V
  | .get key => (b.get key).2
  | .set key value => b.set key value

/-- The key that a call sets or successfully reads. -/
def used (b : LruCacheBackend V) : CacheCall V → Option String
  | .get key => if (b.get key).1.isSome then some key else none
  | .set key _ => some key

/-- The keys that a run of calls sets or successfully reads, one after the other. -/
def uses : LruCacheBackend V → List (CacheCall V) → List String
  | _, [] => []
  | b, call :: calls => (b.used call).toList ++ uses (b.step call) calls

/-- The cache after a run of calls. -/
def run (b : LruCacheBackend V) (calls : List (CacheCall V)) : LruCacheBackend V :=
  calls.foldl step b

end LruCacheBackend

/-- The value of the last `set` of the key. -/
def lastSet {V : Type} (calls : List (CacheCall V)) (key : String) : Option V :=
  calls.reverse.findSome? fun
    | .set k value => if k = key then some value else none
    | .get _ => none

/-! ## The calls -/

namespace LruCacheBackend

variable {V : Type} {b : LruCacheBackend V} {key : String} {value : V}

/-- A hit moves the entry to the end. -/
theorem get_of_get? (h : b.cache.get? key = some value) :
    b.get key = (some value, { b with cache := b.cache.put key value }) := by
  have hmem : key ∈ b.cache.keys := Table.mem_keys.mpr ⟨value, h⟩
  have hmoved : b.cache.moveToEnd key = b.cache.put key value := by rw [Table.moveToEnd, h]
  rw [get, if_pos hmem]
  dsimp only
  rw [hmoved, Table.get?_put_self]

/-- A miss changes nothing. -/
theorem get_of_not_mem (h : key ∉ b.cache.keys) : b.get key = (none, b) := by
  rw [get, if_neg h]

/-- A `set` puts the entry at the end, and the first one goes if there are too many. -/
theorem cache_set (b : LruCacheBackend V) (key : String) (value : V) :
    (b.set key value).cache =
      if (b.cache.put key value).rows.length > b.maxSize then (b.cache.put key value).popFirst
      else b.cache.put key value := by
  have hstored : ((if key ∈ b.cache.keys then b.cache.moveToEnd key else b.cache).upsert key
      fun _ => value) = b.cache.put key value := by
    split_ifs with hmem
    · exact Table.upsert_moveToEnd hmem value
    · exact Table.upsert_of_not_mem_keys hmem value
  rw [set]
  dsimp only
  rw [hstored]

/-! ## What is held -/

theorem lastSet_get (calls : List (CacheCall V)) (key other : String) :
    lastSet (calls ++ [.get other]) key = lastSet calls key := by
  simp [lastSet]

theorem lastSet_set (calls : List (CacheCall V)) (key other : String) (value : V) :
    lastSet (calls ++ [.set other value]) key =
      if other = key then some value else lastSet calls key := by
  rw [lastSet, List.reverse_append, List.reverse_singleton, List.singleton_append,
    List.findSome?_cons]
  by_cases hkey : other = key
  · simp [hkey]
  · simp [hkey, lastSet]

/-- The invariant: after the calls, of which `used` are the keys, the cache has the most recent
of them, each with the value that it was last set to. -/
structure Holds (maxSize : ℤ) (b : LruCacheBackend V) (used : List String)
    (calls : List (CacheCall V)) : Prop where
  bound : b.maxSize = maxSize
  keys : b.cache.keys = recent maxSize.toNat used
  values : ∀ key value, b.cache.get? key = some value → lastSet calls key = some value

theorem holds_new (maxSize : ℤ) : (new maxSize : LruCacheBackend V).Holds maxSize [] [] where
  bound := rfl
  keys := (recent_nil _).symm
  values key value h := by
    rw [new, Table.get?_empty] at h
    cases h

variable {maxSize : ℤ} {usedKeys : List String} {calls : List (CacheCall V)}

/-- **A hit** makes its key the last one. -/
theorem Holds.get (h : b.Holds maxSize usedKeys calls) (hget : b.cache.get? key = some value) :
    (b.get key).2.Holds maxSize (usedKeys ++ [key]) (calls ++ [.get key]) := by
  rw [get_of_get? hget]
  refine ⟨h.bound, ?_, fun k v hv => ?_⟩
  · have hmem : key ∈ recent maxSize.toNat usedKeys := h.keys ▸ Table.mem_keys.mpr ⟨value, hget⟩
    rw [Table.keys_put, h.keys, recent_concat_of_mem hmem]
  · rw [lastSet_get]
    refine h.values k v ?_
    rw [Table.get?_put] at hv
    split at hv
    · next hk => rw [hk, hget, hv]
    · exact hv

/-- Without its first entry, if it has too many, a table has the last ones. -/
theorem keys_trimmed {t : Table String V} (hpos : t.keys ≠ [])
    (hlength : t.keys.length ≤ maxSize.toNat + 1) :
    (if t.rows.length > maxSize then t.popFirst else t).keys = t.keys.rtake maxSize.toNat := by
  have hpos' := List.length_pos_iff.mpr hpos
  rw [← t.length_keys]
  split_ifs with hlong
  · rw [Table.keys_popFirst]
    exact tail_eq_rtake (by omega)
  · rw [rtake_of_length_le (by omega)]

theorem get?_popFirst {t : Table String V} (h : t.popFirst.get? key = some value) :
    t.get? key = some value :=
  Table.mem_rows.mp (List.mem_of_mem_tail (Table.mem_rows.mpr h))

/-- **A `set`** makes its key the last one, and the first one may have to go. -/
theorem Holds.set (h : b.Holds maxSize usedKeys calls) (key : String) (value : V) :
    (b.set key value).Holds maxSize (usedKeys ++ [key]) (calls ++ [.set key value]) := by
  have hkeys : (b.cache.put key value).keys =
      (recent maxSize.toNat usedKeys).filter (· ≠ key) ++ [key] := by
    rw [Table.keys_put, h.keys]
  refine ⟨h.bound, ?_, fun k v hv => ?_⟩
  · have hlength : (b.cache.put key value).keys.length ≤ maxSize.toNat + 1 := by
      have hrest := List.length_filter_le (· ≠ key) (recent maxSize.toNat usedKeys)
      have hrecent := length_recent_le maxSize.toNat usedKeys
      rw [hkeys, List.length_append, List.length_singleton]
      omega
    rw [cache_set, h.bound, keys_trimmed (by simp [hkeys]) hlength, hkeys, recent_concat]
  · have hput : (b.cache.put key value).get? k = some v := by
      rw [cache_set] at hv
      split at hv
      · exact get?_popFirst hv
      · exact hv
    rw [lastSet_set]
    rw [Table.get?_put] at hput
    split at hput
    · next hk => rwa [if_pos hk.symm]
    · next hk =>
      rw [if_neg (Ne.symm hk)]
      exact h.values k v hput

/-- **Step.** -/
theorem Holds.step (h : b.Holds maxSize usedKeys calls) (call : CacheCall V) :
    (b.step call).Holds maxSize (usedKeys ++ (b.used call).toList) (calls ++ [call]) := by
  cases call with
  | get key =>
    by_cases hmem : key ∈ b.cache.keys
    · obtain ⟨value, hget⟩ := Table.mem_keys.mp hmem
      have hused : b.used (.get key) = some key := by
        rw [used, get_of_get? hget]
        rfl
      rw [hused]
      exact h.get hget
    · have hused : b.used (.get key) = none := by
        rw [used, get_of_not_mem hmem]
        rfl
      rw [hused, LruCacheBackend.step, get_of_not_mem hmem]
      refine ⟨h.bound, ?_, fun k v hv => ?_⟩
      · rw [Option.toList_none, List.append_nil, h.keys]
      · rw [lastSet_get]
        exact h.values k v hv
  | set key value => exact h.set key value

/-- **Run.** -/
theorem Holds.run (h : b.Holds maxSize usedKeys calls) (more : List (CacheCall V)) :
    (b.run more).Holds maxSize (usedKeys ++ b.uses more) (calls ++ more) := by
  induction more generalizing b usedKeys calls with
  | nil =>
    rw [uses, List.append_nil, List.append_nil]
    exact h
  | cons call more ih =>
    have hrest := ih (h.step call)
    rw [List.append_assoc, List.append_assoc] at hrest
    exact hrest

end LruCacheBackend

open LruCacheBackend

variable {V : Type}

/-- **What the cache holds.** After any run of calls on a new cache, its keys are the most
recently set or successfully read ones, as many as it may hold or all of them, each with the
value of its last `set`. -/
theorem lruCacheBackend_contents (maxSize : ℕ) (calls : List (CacheCall V)) :
    ((new maxSize).run calls).cache.keys = recent maxSize ((new maxSize).uses calls) ∧
      (∀ key ∈ ((new maxSize).run calls).cache.keys,
        ((new maxSize).run calls).cache.get? key = lastSet calls key) ∧
      ((new maxSize).run calls).size ≤ maxSize := by
  have h := (holds_new (V := V) maxSize).run calls
  have hkeys : ((new maxSize).run calls).cache.keys =
      recent maxSize ((new maxSize).uses calls) := h.keys
  refine ⟨hkeys, fun key hkey => ?_, ?_⟩
  · obtain ⟨value, hvalue⟩ := Table.mem_keys.mp hkey
    rw [hvalue]
    exact (h.values key value hvalue).symm
  · rw [size, ← Table.length_keys, hkeys]
    exact length_recent_le _ _

/-- A hit saves the entry from being the one that goes. -/
example : ((new 2).run [.set "a" 1, .set "b" 2, .get "a", .set "c" 3]).cache.rows =
    [("a", 1), ("c", 3)] := by decide

/-- **When a lookup hits.** The key was set or successfully read, and since the last time fewer
other keys were than the cache may hold. -/
theorem isSome_get_run_iff (maxSize : ℕ) (calls : List (CacheCall V)) (key : String) :
    (((new maxSize).run calls).get key).1.isSome ↔
      ∃ before after, (new maxSize).uses calls = before ++ key :: after ∧ key ∉ after ∧
        after.dedup.length < maxSize := by
  have hkeys : ((new maxSize).run calls).cache.keys =
      recent maxSize ((new maxSize).uses calls) := ((holds_new (V := V) maxSize).run calls).keys
  rw [← mem_recent_iff, ← hkeys]
  by_cases hmem : key ∈ ((new maxSize).run calls).cache.keys
  · obtain ⟨value, hget⟩ := Table.mem_keys.mp hmem
    rw [get_of_get? hget]
    exact iff_of_true rfl hmem
  · rw [get_of_not_mem hmem]
    exact iff_of_false Bool.false_ne_true hmem

end JanusGraph
