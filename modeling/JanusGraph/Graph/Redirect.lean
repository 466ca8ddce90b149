import JanusGraph.Graph.Fold

/-!
# Redirects and their roots

What `redirect` and `_root_map` hold for a list of merges. A root is its own root,
also where the merges form a cycle; without chains the root of a victim is the
survivor it was planned for.
-/

namespace JanusGraph

/-- A redirect is one of the pairs it was built from. -/
theorem of_get?_redirects {α : Type} {victim survivor : α → String} {l : List α} {v s : String}
    (h : (l.foldl (fun redirect m => redirect.upsert (victim m) fun _ => survivor m)
      (Table.empty : Table String String)).get? v = some s) :
    ∃ m ∈ l, victim m = v ∧ survivor m = s := by
  induction l using List.reverseRecOn with
  | nil => cases h
  | append_singleton l m ih =>
    rw [List.foldl_append, List.foldl_cons, List.foldl_nil, Table.get?_upsert] at h
    split at h
    · next hv => exact ⟨m, by simp, hv.symm, Option.some.inj h⟩
    · obtain ⟨m', hm', hends⟩ := ih h
      exact ⟨m', List.mem_append_left _ hm', hends⟩

theorem isSome_redirects {α : Type} {victim survivor : α → String} {l : List α} {v : String} :
    ((l.foldl (fun redirect m => redirect.upsert (victim m) fun _ => survivor m)
      (Table.empty : Table String String)).get? v).isSome ↔ ∃ m ∈ l, victim m = v := by
  constructor
  · intro h
    obtain ⟨s, hs⟩ := Option.isSome_iff_exists.mp h
    obtain ⟨m, hm, hv, -⟩ := of_get?_redirects hs
    exact ⟨m, hm, hv⟩
  · rintro ⟨m, hm, rfl⟩
    induction l using List.reverseRecOn with
    | nil => cases hm
    | append_singleton l m' ih =>
      rw [List.foldl_append, List.foldl_cons, List.foldl_nil, Table.get?_upsert]
      split
      · rfl
      · next hne =>
        rcases List.mem_append.mp hm with hm | hm
        · exact ih hm
        · exact absurd (List.mem_singleton.mp hm ▸ rfl) hne

variable {merges : List EpisodicMerge}

/-- A redirect is one of the merges. -/
theorem of_get?_redirectOf {v s : String} (h : (redirectOf merges).get? v = some s) :
    ∃ m ∈ merges, m.victimUuid = v ∧ m.survivorUuid = s :=
  of_get?_redirects h

theorem isSome_redirectOf {v : String} :
    ((redirectOf merges).get? v).isSome ↔ ∃ m ∈ merges, m.victimUuid = v :=
  isSome_redirects

theorem mem_victimsOf {v : String} : v ∈ victimsOf merges ↔ ∃ m ∈ merges, m.victimUuid = v := by
  rw [← isSome_redirectOf, Option.isSome_iff_exists]
  simp only [victimsOf, List.mem_map, Prod.exists, ← Table.mem_rows]
  exact ⟨fun ⟨k, s, h, hk⟩ => ⟨s, hk ▸ h⟩, fun ⟨s, h⟩ => ⟨v, s, h, rfl⟩⟩

theorem nodup_victimsOf : (victimsOf merges).Nodup := (redirectOf merges).nodup

/-! ## Roots -/

/-- `root.get(uuid, uuid)`, for the roots of a table of redirects -/
def rootIn (redirect : Table String String) (uuid : String) : String :=
  ((rootMap redirect).get? uuid).getD uuid

section

variable {redirect : Table String String}

/-- What is not redirected stays. -/
theorem rootIn_of_none {uuid : String} (h : redirect.get? uuid = none) :
    rootIn redirect uuid = uuid := by
  rw [rootIn, rootMap, Table.get?_map, h]
  rfl

theorem rootIn_of_some {uuid next : String} (h : redirect.get? uuid = some next) :
    rootIn redirect uuid = chase redirect.get? (redirect.rows.length + 1) [] uuid := by
  rw [rootIn, rootMap, Table.get?_map, h]
  rfl

/-- The keys bound the chase. -/
theorem redirect_keys (redirect : Table String String) :
    (∀ uuid, redirect.get? uuid ≠ none → uuid ∈ (redirect.rows.map Prod.fst).toFinset) ∧
      (redirect.rows.map Prod.fst).toFinset.card < redirect.rows.length + 1 := by
  refine ⟨fun uuid huuid => ?_, ?_⟩
  · obtain ⟨next, hnext⟩ := Option.ne_none_iff_exists'.mp huuid
    rw [List.mem_toFinset]
    exact List.mem_map.mpr ⟨(uuid, next), Table.mem_rows.mpr hnext, rfl⟩
  · rw [List.toFinset_card_of_nodup redirect.nodup, List.length_map]
    omega

/-- Where every redirect climbs, no root is redirected. -/
theorem get?_rootIn {rank : String → ℕ}
    (hrank : ∀ v s, redirect.get? v = some s → rank v < rank s) (uuid : String) :
    redirect.get? (rootIn redirect uuid) = none := by
  rcases hv : redirect.get? uuid with _ | next
  · rwa [rootIn_of_none hv]
  · rw [rootIn_of_some hv]
    exact chase_ends hrank (redirect_keys redirect).1 (redirect_keys redirect).2 uuid

/-- What holds of a uuid and is kept by the redirects holds of its root. -/
theorem rootIn_induct {P : String → Prop} (hstep : ∀ v s, redirect.get? v = some s → P v → P s)
    {uuid : String} (h : P uuid) : P (rootIn redirect uuid) := by
  rcases hv : redirect.get? uuid with _ | next
  · rwa [rootIn_of_none hv]
  · rw [rootIn_of_some hv]
    exact chase_induct hstep h

/-- A root is its own root. -/
theorem rootIn_rootIn (redirect : Table String String) (uuid : String) :
    rootIn redirect (rootIn redirect uuid) = rootIn redirect uuid := by
  rcases hr : redirect.get? (rootIn redirect uuid) with _ | next
  · exact rootIn_of_none hr
  · rcases hv : redirect.get? uuid with _ | next'
    · rw [rootIn_of_none hv, rootIn_of_none hv]
    · rw [rootIn_of_some hr, rootIn_of_some hv]
      exact chase_chase (redirect_keys redirect).1 (redirect_keys redirect).2 uuid

end

/-- Who is no victim stays. -/
theorem rootOf_of_not_mem {uuid : String} (h : uuid ∉ victimsOf merges) :
    rootOf merges uuid = uuid := by
  rw [mem_victimsOf, ← isSome_redirectOf, Option.not_isSome_iff_eq_none] at h
  exact rootIn_of_none h

theorem rootOf_of_mem {v : String} (h : v ∈ victimsOf merges) :
    rootOf merges v =
      chase (redirectOf merges).get? ((redirectOf merges).rows.length + 1) [] v := by
  rw [mem_victimsOf, ← isSome_redirectOf] at h
  obtain ⟨s, hs⟩ := Option.isSome_iff_exists.mp h
  exact rootIn_of_some hs

/-- A root is its own root. -/
theorem rootOf_rootOf (uuid : String) :
    rootOf merges (rootOf merges uuid) = rootOf merges uuid :=
  rootIn_rootIn (redirectOf merges) uuid

theorem mem_survivorsOf {s : String} :
    s ∈ survivorsOf merges ↔ ∃ v ∈ victimsOf merges, rootOf merges v = s := by
  have hvalue : ∀ v ∈ victimsOf merges, (rootMap (redirectOf merges)).get? v =
      some (rootOf merges v) := by
    intro v hv
    rw [mem_victimsOf, ← isSome_redirectOf] at hv
    obtain ⟨s, hs⟩ := Option.isSome_iff_exists.mp hv
    rw [rootOf, rootMap, Table.get?_map, hs]
    rfl
  rw [survivorsOf, (List.perm_insertionSort _ _).mem_iff, List.mem_dedup]
  constructor
  · intro h
    obtain ⟨⟨v, s⟩, hmem, rfl⟩ := List.mem_map.mp h
    have hget := Table.mem_rows.mp hmem
    have hv : v ∈ victimsOf merges := by
      rw [rootMap, Table.get?_map] at hget
      obtain ⟨s', hs', -⟩ := Option.map_eq_some_iff.mp hget
      rw [mem_victimsOf, ← isSome_redirectOf, hs']
      rfl
    exact ⟨v, hv, Option.some.inj ((hvalue v hv).symm.trans hget)⟩
  · rintro ⟨v, hv, rfl⟩
    exact List.mem_map.mpr ⟨(v, _), Table.mem_rows.mpr (hvalue v hv), rfl⟩

/-- Without chains the root of a victim is its survivor. -/
theorem Direct.rootOf_eq (hdirect : Direct merges) {m : EpisodicMerge} (hm : m ∈ merges) :
    rootOf merges m.victimUuid = m.survivorUuid := by
  have hvictim : m.victimUuid ∈ victimsOf merges := mem_victimsOf.mpr ⟨m, hm, rfl⟩
  have hnext : (redirectOf merges).get? m.victimUuid = some m.survivorUuid := by
    obtain ⟨s, hs⟩ := Option.isSome_iff_exists.mp (isSome_redirectOf.mpr ⟨m, hm, rfl⟩)
    obtain ⟨m', hm', hv, rfl⟩ := of_get?_redirectOf hs
    rw [hs, hdirect.survivor_eq m hm m' hm' hv.symm]
  have hend : (redirectOf merges).get? m.survivorUuid = none := by
    rw [← Option.not_isSome_iff_eq_none, isSome_redirectOf]
    rintro ⟨m', hm', heq⟩
    exact hdirect.not_victim m hm m' hm' heq.symm
  rw [rootOf_of_mem hvictim]
  refine chase_of_walk (.step hnext (.here _)) (List.nodup_singleton _) (by simp) ?_
    (.inr (.inr hend))
  -- the redirect has a row
  have hrow := List.length_pos_of_mem (Table.mem_rows.mpr hnext)
  simp only [List.length_cons, List.length_nil]
  omega

end JanusGraph
