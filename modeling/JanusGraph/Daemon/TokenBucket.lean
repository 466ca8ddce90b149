import JanusGraph.Lib.SlidingWindow
import JanusGraph.Lib.Table
import Mathlib.Data.List.Induction
import Mathlib.Algebra.Order.Ring.Rat

/-!
# The rate limiter

`_TokenBucket` of `daemon/http_search_memory_handler.py`: a sliding window for each key, and a
bound on the number of keys, above which the key that came first is forgotten together with its
hits. Each window is one of `SlidingWindow`; what is added here is how forgetting a key starts
its window anew, and that the two containers stay in step.
-/

namespace JanusGraph

open SlidingWindow

/-- `_TokenBucket` -/
structure TokenBucket : Type where
  maxRequests : ℕ
  windowSec : ℚ
  /-- `_hits`, each with its deque, oldest first -/
  hits : Table String (List ℚ)
  /-- `_keys_in_order` -/
  keysInOrder : List String

/-- `_MAX_KEYS` -/
def maxKeys : ℕ := 10000

/-- `append` of a deque that is bounded -/
def appendBounded (maxLen : ℕ) (times : List ℚ) (now : ℚ) : List ℚ :=
  (times ++ [now]).drop ((times ++ [now]).length - maxLen)

namespace TokenBucket

/-- A new limiter. -/
def new (maxRequests : ℕ) (windowSec : ℚ) : TokenBucket := ⟨maxRequests, windowSec, .empty, []⟩

/-- `_evict_oldest` -/
def evictOldest (b : TokenBucket) : TokenBucket :=
  match b.keysInOrder with
  | [] => b
  | oldest :: keys => { b with keysInOrder := keys, hits := b.hits.erase oldest }

/-- There is no room for a new key. -/
def crowded (b : TokenBucket) (key : String) : Bool :=
  key ∉ b.hits.keys ∧ maxKeys ≤ b.hits.keys.length

/-- The first lines of `consume`. -/
def makeRoom (b : TokenBucket) (key : String) : TokenBucket :=
  if b.crowded key then b.evictOldest else b

/-- The rest of `consume`. -/
def record (b : TokenBucket) (key : String) (now : ℚ) : Bool × TokenBucket :=
  let keysInOrder := if key ∈ b.keysInOrder then b.keysInOrder else b.keysInOrder ++ [key]
  let bucket := kept b.windowSec now ((b.hits.get? key).getD [])
  if b.maxRequests ≤ bucket.length then
    (false, { b with keysInOrder, hits := b.hits.upsert key fun _ => bucket })
  else
    (true,
      { b with
        keysInOrder
        hits := b.hits.upsert key fun _ => appendBounded b.maxRequests bucket now })

/-- `consume` -/
def consume (b : TokenBucket) (key : String) (now : ℚ) : Bool × TokenBucket :=
  (b.makeRoom key).record key now

/-- The key that `consume` evicts. -/
def evicts (b : TokenBucket) (key : String) : Option String :=
  if b.crowded key then b.keysInOrder.head? else none

end TokenBucket

/-! ## Runs -/

/-- A request, and what became of it. -/
structure Served : Type where
  key : String
  now : ℚ
  allowed : Bool
  /-- the key that was evicted for it -/
  evicted : Option String

/-- One request. -/
def serve (run : List Served × TokenBucket) (request : String × ℚ) : List Served × TokenBucket :=
  let answer := run.2.consume request.1 request.2
  (run.1 ++ [⟨request.1, request.2, answer.1, run.2.evicts request.1⟩], answer.2)

/-- A run of requests on a new limiter. -/
def serveAll (maxRequests : ℕ) (windowSec : ℚ) (requests : List (String × ℚ)) :
    List Served × TokenBucket :=
  requests.foldl serve ([], .new maxRequests windowSec)

/-- The request was one of the key, and allowed. -/
def Served.admits (key : String) (e : Served) : Bool := e.key = key ∧ e.allowed

/-- The times of the key's allowed requests since it was last evicted, with one more request. -/
def since.next (key : String) (times : List ℚ) (e : Served) : List ℚ :=
  let times := if e.evicted = some key then [] else times
  if e.admits key then times ++ [e.now] else times

/-- The times of the key's allowed requests since it was last evicted. -/
def since (key : String) (log : List Served) : List ℚ := log.foldl (since.next key) []

theorem since_snoc (key : String) (log : List Served) (e : Served) :
    since key (log ++ [e]) = since.next key (since key log) e := by
  rw [since, List.foldl_append]
  rfl

/-- While the key is not evicted, its allowed requests are added. -/
theorem since_append (key : String) (log : List Served) {middle : List Served}
    (h : ∀ e ∈ middle, e.evicted ≠ some key) :
    since key (log ++ middle) =
      since key log ++ (middle.filter (Served.admits key)).map Served.now := by
  induction middle using List.reverseRecOn with
  | nil => simp
  | append_singleton middle e ih =>
    have hrest := ih fun e' he' => h e' (List.mem_append_left _ he')
    have he := h e (List.mem_append_right _ (List.mem_singleton_self e))
    rw [← List.append_assoc, since_snoc, hrest, since.next, if_neg he, List.filter_append,
      List.map_append, ← List.append_assoc]
    by_cases hadmits : e.admits key = true
    · simp [hadmits]
    · simp [hadmits]

/-- What counts since the last eviction is part of what was ever allowed. -/
theorem sublist_since (key : String) (log : List Served) :
    (since key log).Sublist ((log.filter (Served.admits key)).map Served.now) := by
  induction log using List.reverseRecOn with
  | nil => exact List.Sublist.slnil
  | append_singleton log e ih =>
    have htimes : (if e.evicted = some key then [] else since key log).Sublist
        ((log.filter (Served.admits key)).map Served.now) := by
      split
      · exact List.nil_sublist _
      · exact ih
    rw [since_snoc, since.next, List.filter_append, List.map_append]
    by_cases hadmits : e.admits key = true
    · simpa [hadmits] using htimes.append_right [e.now]
    · simpa [hadmits] using htimes

/-! ## The invariant -/

/-- The two containers have the same keys, not too many; and each deque is what is kept of the
times in `past`. -/
structure TokenBucket.Tracks (b : TokenBucket) (past : String → List ℚ) (now : ℚ) : Prop where
  keys : b.keysInOrder.Perm b.hits.keys
  bounded : b.keysInOrder.length ≤ maxKeys
  window : ∀ key, Keeps b.maxRequests b.windowSec now (past key) ((b.hits.get? key).getD [])

namespace TokenBucket

variable {b : TokenBucket} {past : String → List ℚ} {now : ℚ}

theorem Tracks.evictOldest (h : b.Tracks past now) :
    b.evictOldest.Tracks
      (fun key => if b.keysInOrder.head? = some key then [] else past key) now := by
  rw [TokenBucket.evictOldest]
  split
  · next hnil => simpa [hnil] using h
  · next oldest keys hcons =>
    have hnodup : (oldest :: keys).Nodup := hcons ▸ h.keys.nodup_iff.mpr b.hits.nodup
    refine ⟨?_, ?_, fun key => ?_⟩
    · have hfilter : (oldest :: keys).filter (· ≠ oldest) = keys := by
        rw [List.filter_cons_of_neg (by simp)]
        refine List.filter_eq_self.mpr fun k hk => decide_eq_true ?_
        rintro rfl
        exact (List.nodup_cons.mp hnodup).1 hk
      rw [Table.keys_erase, ← hfilter, ← hcons]
      exact h.keys.filter _
    · have hle := h.bounded
      rw [hcons, List.length_cons] at hle
      exact Nat.le_of_succ_le hle
    · rw [hcons, List.head?_cons, Table.get?_erase]
      by_cases hkey : oldest = key
      · simpa [hkey] using keeps_nil b.maxRequests b.windowSec now
      · simpa [hkey, Ne.symm hkey] using h.window key

/-- A bounded deque that has room loses nothing. -/
theorem appendBounded_eq {maxLen : ℕ} {times : List ℚ} (h : times.length < maxLen) (now : ℚ) :
    appendBounded maxLen times now = times ++ [now] := by
  have hroom : (times ++ [now]).length - maxLen = 0 := by
    rw [List.length_append, List.length_singleton]
    omega
  rw [appendBounded, hroom, List.drop_zero]

theorem Tracks.makeRoom (h : b.Tracks past now) (key : String) :
    (b.makeRoom key).Tracks (fun k => if b.evicts key = some k then [] else past k) now ∧
      (key ∈ (b.makeRoom key).hits.keys ∨ (b.makeRoom key).keysInOrder.length < maxKeys) := by
  have hlength := h.keys.length_eq
  rw [TokenBucket.makeRoom, evicts]
  by_cases hcrowded : b.crowded key = true
  · simp only [if_pos hcrowded]
    refine ⟨h.evictOldest, .inr ?_⟩
    obtain ⟨-, hfull⟩ := of_decide_eq_true hcrowded
    rw [← hlength] at hfull
    have hbounded := h.bounded
    rcases hkeys : b.keysInOrder with _ | ⟨oldest, keys⟩
    · rw [hkeys] at hfull
      exact absurd hfull (by decide)
    · rw [hkeys, List.length_cons] at hbounded
      simpa only [TokenBucket.evictOldest, hkeys] using Nat.lt_of_succ_le hbounded
  · simp only [if_neg hcrowded]
    refine ⟨by simpa using h, ?_⟩
    have hroom : ¬ (key ∉ b.hits.keys ∧ maxKeys ≤ b.hits.keys.length) := fun hc =>
      hcrowded (decide_eq_true hc)
    rw [hlength]
    by_cases hkey : key ∈ b.hits.keys
    · exact .inl hkey
    · exact .inr (not_le.mp fun hle => hroom ⟨hkey, hle⟩)

/-- A deque is written, the key's own or a new one. -/
theorem Tracks.store (h : b.Tracks past now) {key : String}
    (hroom : key ∈ b.hits.keys ∨ b.keysInOrder.length < maxKeys) {admitted times : List ℚ}
    (hkeeps : Keeps b.maxRequests b.windowSec now admitted times) :
    Tracks { b with
        keysInOrder := if key ∈ b.keysInOrder then b.keysInOrder else b.keysInOrder ++ [key]
        hits := b.hits.upsert key fun _ => times }
      (fun k => if k = key then admitted else past k) now := by
  have hmem : key ∈ b.keysInOrder ↔ key ∈ b.hits.keys := h.keys.mem_iff
  have hwindow : ∀ k, Keeps b.maxRequests b.windowSec now (if k = key then admitted else past k)
      (((b.hits.upsert key fun _ => times).get? k).getD []) := by
    intro k
    rw [Table.get?_upsert]
    by_cases hk : k = key
    · simpa [hk] using hkeeps
    · simpa [hk] using h.window k
  by_cases hkey : key ∈ b.hits.keys
  · refine ⟨?_, ?_, hwindow⟩
    · simpa only [if_pos (hmem.mpr hkey), Table.keys_upsert hkey] using h.keys
    · simpa only [if_pos (hmem.mpr hkey)] using h.bounded
  · refine ⟨?_, ?_, hwindow⟩
    · simpa only [if_neg (mt hmem.mp hkey), Table.keys_upsert_new hkey] using
        h.keys.append_right [key]
    · simpa only [if_neg (mt hmem.mp hkey), List.length_append, List.length_singleton] using
        Nat.succ_le_of_lt (hroom.resolve_left hkey)

/-- The answer, and the window after it. -/
theorem Tracks.record (h : b.Tracks past now) {key : String}
    (hroom : key ∈ b.hits.keys ∨ b.keysInOrder.length < maxKeys) :
    (b.record key now).2.Tracks
        (fun k => if k = key ∧ (b.record key now).1 = true then past k ++ [now] else past k) now ∧
      ((b.record key now).1 = false →
        b.maxRequests ≤ (past key).countP (within b.windowSec (now - b.windowSec))) := by
  have hkeeps := h.window key
  rw [TokenBucket.record]
  split
  · next hfull =>
    refine ⟨?_, fun _ => hkeeps.full hfull⟩
    have hstored := h.store hroom hkeeps.kept
    have hpast : (fun k => if k = key then past key else past k) =
        fun k => if k = key ∧ false = true then past k ++ [now] else past k := by
      funext k
      by_cases hk : k = key <;> simp [hk]
    rwa [hpast] at hstored
  · next hfew =>
    refine ⟨?_, by rintro ⟨⟩⟩
    have hless := not_le.mp hfew
    have hstored := h.store hroom (hkeeps.admitted hless)
    have hpast : (fun k => if k = key then past key ++ [now] else past k) =
        fun k => if k = key ∧ true = true then past k ++ [now] else past k := by
      funext k
      by_cases hk : k = key <;> simp [hk]
    rwa [hpast, ← appendBounded_eq hless] at hstored

@[simp] theorem maxRequests_makeRoom (b : TokenBucket) (key : String) :
    (b.makeRoom key).maxRequests = b.maxRequests := by
  rw [makeRoom]
  split
  · rw [evictOldest]
    split <;> rfl
  · rfl

@[simp] theorem windowSec_makeRoom (b : TokenBucket) (key : String) :
    (b.makeRoom key).windowSec = b.windowSec := by
  rw [makeRoom]
  split
  · rw [evictOldest]
    split <;> rfl
  · rfl

theorem settings_record (b : TokenBucket) (key : String) (now : ℚ) :
    (b.record key now).2.maxRequests = b.maxRequests ∧
      (b.record key now).2.windowSec = b.windowSec := by
  rw [record]
  split <;> exact ⟨rfl, rfl⟩

/-- **Step.** -/
theorem Tracks.consume (h : b.Tracks past now) (key : String) :
    (b.consume key now).2.Tracks
        (fun k => since.next k (past k) ⟨key, now, (b.consume key now).1, b.evicts key⟩) now ∧
      ((b.consume key now).1 = false →
        b.maxRequests ≤ (past key).countP (within b.windowSec (now - b.windowSec))) := by
  obtain ⟨hmade, hroom⟩ := h.makeRoom key
  obtain ⟨htracks, hdenied⟩ := hmade.record hroom
  rw [maxRequests_makeRoom, windowSec_makeRoom] at hdenied
  refine ⟨?_, fun hanswer => (hdenied hanswer).trans ?_⟩
  · have hpast : (fun k => since.next k (past k) ⟨key, now, (b.consume key now).1, b.evicts key⟩) =
        fun k => if k = key ∧ ((b.makeRoom key).record key now).1 = true then
          (if b.evicts key = some k then [] else past k) ++ [now]
        else if b.evicts key = some k then [] else past k := by
      funext k
      simp only [since.next, Served.admits, TokenBucket.consume, decide_eq_true_eq,
        @eq_comm _ key k]
    rw [hpast]
    exact htracks
  · split
    · exact Nat.zero_le _
    · exact le_rfl

theorem Tracks.later (h : b.Tracks past now) {now' : ℚ} (hle : now ≤ now') : b.Tracks past now' :=
  ⟨h.keys, h.bounded, fun key => (h.window key).later hle⟩

theorem tracks_new (maxRequests : ℕ) (windowSec now : ℚ) :
    (new maxRequests windowSec).Tracks (fun _ => []) now :=
  ⟨List.Perm.refl _, Nat.zero_le _, fun _ => keeps_nil _ _ _⟩

end TokenBucket

/-! ## The law of the window -/

/-- Requests in the order of their times. -/
def InOrder (requests : List (String × ℚ)) : Prop := (requests.map Prod.snd).Pairwise (· ≤ ·)

theorem serveAll_snoc (maxRequests : ℕ) (windowSec : ℚ) (requests : List (String × ℚ))
    (request : String × ℚ) :
    serveAll maxRequests windowSec (requests ++ [request]) =
      serve (serveAll maxRequests windowSec requests) request := by
  rw [serveAll, List.foldl_append]
  rfl

/-- The settings stay. -/
theorem settings_serveAll (maxRequests : ℕ) (windowSec : ℚ) (requests : List (String × ℚ)) :
    (serveAll maxRequests windowSec requests).2.maxRequests = maxRequests ∧
      (serveAll maxRequests windowSec requests).2.windowSec = windowSec := by
  induction requests using List.reverseRecOn with
  | nil => exact ⟨rfl, rfl⟩
  | append_singleton requests request ih =>
    rw [serveAll_snoc, serve, TokenBucket.consume]
    obtain ⟨hmax, hwindow⟩ := TokenBucket.settings_record
      ((serveAll maxRequests windowSec requests).2.makeRoom request.1) request.1 request.2
    rw [hmax, hwindow, TokenBucket.maxRequests_makeRoom, TokenBucket.windowSec_makeRoom]
    exact ih

/-- **Run.** At any time that is not before a request, the limiter keeps track of its log. -/
theorem tracks_serveAll (maxRequests : ℕ) (windowSec : ℚ) {requests : List (String × ℚ)}
    (horder : InOrder requests) {now : ℚ} (hnow : ∀ r ∈ requests, r.2 ≤ now) :
    (serveAll maxRequests windowSec requests).2.Tracks
      (fun key => since key (serveAll maxRequests windowSec requests).1) now := by
  induction requests using List.reverseRecOn generalizing now with
  | nil => exact TokenBucket.tracks_new maxRequests windowSec now
  | append_singleton requests request ih =>
    rw [InOrder, List.map_append, List.pairwise_append] at horder
    have hbefore : ∀ r ∈ requests, r.2 ≤ request.2 := fun r hr =>
      horder.2.2 r.2 (List.mem_map_of_mem hr) request.2 (List.mem_singleton_self _)
    obtain ⟨htracks, -⟩ := (ih horder.1 hbefore).consume request.1
    rw [serveAll_snoc]
    refine TokenBucket.Tracks.later ?_ (hnow request (List.mem_append_right _ (by simp)))
    have hpast : (fun key =>
          since key (serve (serveAll maxRequests windowSec requests) request).1) =
        fun key => since.next key (since key (serveAll maxRequests windowSec requests).1)
          ⟨request.1, request.2, ((serveAll maxRequests windowSec requests).2.consume request.1
            request.2).1, (serveAll maxRequests windowSec requests).2.evicts request.1⟩ := by
      funext key
      rw [serve, since_snoc]
    rw [hpast]
    exact htracks

/-- The log at an earlier time is that of the requests until then. -/
theorem exists_of_log_eq {maxRequests : ℕ} {windowSec : ℚ} {requests : List (String × ℚ)}
    {before after : List Served}
    (h : (serveAll maxRequests windowSec requests).1 = before ++ after) :
    ∃ earlier later, requests = earlier ++ later ∧
      (serveAll maxRequests windowSec earlier).1 = before := by
  induction requests using List.reverseRecOn generalizing after with
  | nil =>
    obtain ⟨hbefore, -⟩ := List.append_eq_nil_iff.mp h.symm
    exact ⟨[], [], rfl, hbefore.symm⟩
  | append_singleton requests request ih =>
    rcases List.eq_nil_or_concat after with rfl | ⟨after, last, rfl⟩
    · exact ⟨requests ++ [request], [], by simp, by rw [h, List.append_nil]⟩
    · rw [serveAll_snoc, serve, List.concat_eq_append, ← List.append_assoc] at h
      obtain ⟨earlier, later, hsplit, hlog⟩ := ih (List.append_inj_left' h rfl)
      exact ⟨earlier, later ++ [request], by rw [hsplit, List.append_assoc], hlog⟩

theorem InOrder.of_append {earlier later : List (String × ℚ)} (h : InOrder (earlier ++ later)) :
    InOrder earlier := by
  rw [InOrder, List.map_append] at h
  exact (List.pairwise_append.mp h).1

/-- In order, there is a time that no request is after. -/
theorem InOrder.exists_le : ∀ requests : List (String × ℚ), ∃ now, ∀ r ∈ requests, r.2 ≤ now
  | [] => ⟨0, nofun⟩
  | r :: requests => by
    obtain ⟨now, hnow⟩ := InOrder.exists_le requests
    refine ⟨max r.2 now, List.forall_mem_cons.mpr ⟨le_max_left _ _, fun r' hr' => ?_⟩⟩
    exact (hnow r' hr').trans (le_max_right _ _)

/-- What is counted in a log is counted in its times. -/
theorem countP_log (key : String) (inWindow : ℚ → Bool) (log : List Served) :
    log.countP (fun e => e.admits key ∧ inWindow e.now) =
      ((log.filter (Served.admits key)).map Served.now).countP inWindow := by
  rw [List.countP_map, List.countP_filter]
  refine List.countP_congr fun e _ => ?_
  simp [and_comm]

/-- Between two evictions of a key. -/
theorem few_of_not_evicted {maxRequests : ℕ} {windowSec : ℚ} {requests : List (String × ℚ)}
    (horder : InOrder requests) {key : String} {before middle after : List Served}
    (hlog : (serveAll maxRequests windowSec requests).1 = before ++ middle ++ after)
    (hstays : ∀ e ∈ middle, e.evicted ≠ some key) (a : ℚ) :
    middle.countP (fun e => e.admits key ∧ within windowSec a e.now) ≤ maxRequests := by
  obtain ⟨earlier, later, rfl, hearlier⟩ := exists_of_log_eq hlog
  obtain ⟨now, hnow⟩ := InOrder.exists_le earlier
  have hfew := ((tracks_serveAll maxRequests windowSec horder.of_append hnow).window key).few a
  obtain ⟨hmax, hwindow⟩ := settings_serveAll maxRequests windowSec earlier
  rw [hmax, hwindow, hearlier, since_append key before hstays, List.countP_append] at hfew
  rw [countP_log]
  exact (Nat.le_add_left _ _).trans hfew

/-- A request that was refused. -/
theorem full_of_refused {maxRequests : ℕ} {windowSec : ℚ} {requests : List (String × ℚ)}
    (horder : InOrder requests) {before after : List Served} {e : Served}
    (hlog : (serveAll maxRequests windowSec requests).1 = before ++ e :: after)
    (hrefused : e.allowed = false) :
    maxRequests ≤
      before.countP (fun x => x.admits e.key ∧ within windowSec (e.now - windowSec) x.now) := by
  rw [List.append_cons] at hlog
  obtain ⟨requests', later, rfl, hrequests'⟩ := exists_of_log_eq hlog
  rcases List.eq_nil_or_concat requests' with rfl | ⟨earlier, request, rfl⟩
  · exact absurd hrequests'.symm (List.concat_ne_nil _ _)
  · rw [List.concat_eq_append] at horder hrequests'
    rw [serveAll_snoc, serve] at hrequests'
    obtain ⟨rfl, he⟩ := List.append_inj' hrequests' rfl
    obtain rfl := List.singleton_inj.mp he
    have hinOrder := horder.of_append
    rw [InOrder, List.map_append, List.pairwise_append] at hinOrder
    have hbefore : ∀ r ∈ earlier, r.2 ≤ request.2 := fun r hr =>
      hinOrder.2.2 r.2 (List.mem_map_of_mem hr) request.2 (List.mem_singleton_self _)
    obtain ⟨-, hfull⟩ :=
      (tracks_serveAll maxRequests windowSec hinOrder.1 hbefore).consume request.1
    obtain ⟨hmax, hwindow⟩ := settings_serveAll maxRequests windowSec earlier
    rw [hmax, hwindow] at hfull
    rw [countP_log]
    exact (hfull hrefused).trans ((sublist_since request.1 _).countP_le)

/-- **The limiter.** In any run: while a key is not evicted, no window holds more allowed requests
of it than the maximum; a refused request has that many in the window before it; and the two
containers always have the same keys, not more than the bound. -/
theorem tokenBucket_limits (maxRequests : ℕ) (windowSec : ℚ) {requests : List (String × ℚ)}
    (horder : InOrder requests) :
    (∀ key before middle after,
      (serveAll maxRequests windowSec requests).1 = before ++ middle ++ after →
      (∀ e ∈ middle, e.evicted ≠ some key) →
      ∀ a, middle.countP (fun e => e.admits key ∧ within windowSec a e.now) ≤ maxRequests) ∧
    (∀ before e after, (serveAll maxRequests windowSec requests).1 = before ++ e :: after →
      e.allowed = false →
      maxRequests ≤
        before.countP (fun x => x.admits e.key ∧ within windowSec (e.now - windowSec) x.now)) ∧
    ∀ earlier later, requests = earlier ++ later →
      (serveAll maxRequests windowSec earlier).2.keysInOrder.Perm
          (serveAll maxRequests windowSec earlier).2.hits.keys ∧
        (serveAll maxRequests windowSec earlier).2.hits.keys.length ≤ maxKeys := by
  refine ⟨fun key before middle after hlog hstays a => few_of_not_evicted horder hlog hstays a,
    fun before e after hlog hrefused => full_of_refused horder hlog hrefused,
    fun earlier later hsplit => ?_⟩
  subst hsplit
  obtain ⟨now, hnow⟩ := InOrder.exists_le earlier
  have htracks := tracks_serveAll maxRequests windowSec horder.of_append hnow
  exact ⟨htracks.keys, htracks.keys.length_eq ▸ htracks.bounded⟩

theorem tokenBucket_limits_second :
    (∀ e ∈ (serveAll 1 60 [("a", 0), ("a", 1)]).1, e.evicted ≠ some "a") ∧
      (serveAll 1 60 [("a", 0), ("a", 1)]).1.countP
        (fun e => e.admits "a" ∧ within 60 0 e.now) ≤ 1 := by
  have hstays : ∀ e ∈ (serveAll 1 60 [("a", 0), ("a", 1)]).1, e.evicted ≠ some "a" := by
    decide +kernel
  have horder : InOrder [("a", 0), ("a", 1)] := by simp [InOrder]
  refine ⟨hstays, ?_⟩
  exact (tokenBucket_limits 1 60 horder).1 "a" [] _ [] (by rw [List.nil_append, List.append_nil])
    hstays 0

end JanusGraph
