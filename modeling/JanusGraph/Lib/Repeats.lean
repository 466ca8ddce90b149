import Mathlib.Algebra.BigOperators.Group.Finset.Basic
import Mathlib.Data.Finset.Card
import Mathlib.Data.List.Dedup

/-!
# Repeats

How many elements of a list repeat the key of another one: the list's length, less the
number of its keys. Repeats can be counted in the parts of a list that share no key.
-/

variable {α β K : Type} [DecidableEq K]

/-- How many elements there are beyond the first of each key. -/
def repeats (f : α → K) (l : List α) : ℕ := l.length - (l.map f).dedup.length

/-- A repeat or a key, that is what an element is. -/
theorem repeats_add_card (f : α → K) (l : List α) :
    repeats f l + (l.map f).toFinset.card = l.length := by
  have hle := (List.dedup_sublist (l.map f)).length_le
  rw [List.length_map] at hle
  rw [repeats, List.card_toFinset, Nat.sub_add_cancel hle]

theorem repeats_map (f : β → K) (g : α → β) (l : List α) :
    repeats f (l.map g) = repeats (f ∘ g) l := by
  rw [repeats, repeats, List.map_map, List.length_map]

theorem repeats_perm {f : α → K} {l l' : List α} (h : l.Perm l') : repeats f l = repeats f l' := by
  have hcard := repeats_add_card f l
  have hcard' := repeats_add_card f l'
  rw [List.toFinset_eq_of_perm _ _ (h.map f), h.length_eq] at hcard
  omega

theorem repeats_eq_zero {f : α → K} {l : List α} : repeats f l = 0 ↔ (l.map f).Nodup := by
  rw [← List.dedup_eq_self, repeats]
  refine ⟨?_, ?_⟩
  · intro h
    refine (List.dedup_sublist _).eq_of_length_le ?_
    rw [List.length_map]
    omega
  · intro h
    rw [h, List.length_map, Nat.sub_self]

theorem repeats_cons (f : α → K) (a : α) (l : List α) :
    repeats f (a :: l) = repeats f l + if f a ∈ l.map f then 1 else 0 := by
  have hcard := repeats_add_card f l
  have hcard' := repeats_add_card f (a :: l)
  rw [List.map_cons, List.toFinset_cons, List.length_cons] at hcard'
  split
  · next hin =>
    rw [Finset.insert_eq_of_mem (List.mem_toFinset.mpr hin)] at hcard'
    omega
  · next hnot =>
    rw [Finset.card_insert_of_notMem (by rwa [List.mem_toFinset])] at hcard'
    omega

/-- Keys that tell the same elements apart. -/
theorem repeats_eq_of_iff {K' : Type} [DecidableEq K'] {f : α → K} {f' : α → K'} {l : List α}
    (h : ∀ a ∈ l, ∀ b ∈ l, f a = f b ↔ f' a = f' b) : repeats f l = repeats f' l := by
  induction l with
  | nil => rfl
  | cons a l ih =>
    have hin : f a ∈ l.map f ↔ f' a ∈ l.map f' := by
      simp only [List.mem_map]
      refine exists_congr fun b => and_congr_right fun hb => ?_
      exact h b (List.mem_cons_of_mem a hb) a List.mem_cons_self
    rw [repeats_cons, repeats_cons,
      ih fun b hb c hc => h b (List.mem_cons_of_mem a hb) c (List.mem_cons_of_mem a hc)]
    simp only [hin]

/-- The repeats of two parts that share no key. -/
theorem repeats_filter_add {f : α → K} {l : List α} {p : α → Bool}
    (hp : ∀ a ∈ l, ∀ b ∈ l, f a = f b → p a = p b) :
    repeats f (l.filter p) + repeats f (l.filter fun a => !p a) = repeats f l := by
  have hkeys : (l.map f).toFinset =
      ((l.filter p).map f).toFinset ∪ ((l.filter fun a => !p a).map f).toFinset := by
    ext k
    simp only [List.mem_toFinset, List.mem_map, List.mem_filter, Finset.mem_union]
    refine ⟨?_, ?_⟩
    · rintro ⟨a, ha, rfl⟩
      cases hpa : p a
      · exact .inr ⟨a, ⟨ha, by simp [hpa]⟩, rfl⟩
      · exact .inl ⟨a, ⟨ha, hpa⟩, rfl⟩
    · rintro (⟨a, ⟨ha, -⟩, rfl⟩ | ⟨a, ⟨ha, -⟩, rfl⟩) <;> exact ⟨a, ha, rfl⟩
  have hdisjoint : Disjoint ((l.filter p).map f).toFinset
      ((l.filter fun a => !p a).map f).toFinset := by
    rw [Finset.disjoint_left]
    intro k hk hk'
    obtain ⟨a, ha, rfl⟩ := List.mem_map.mp (List.mem_toFinset.mp hk)
    obtain ⟨b, hb, heq⟩ := List.mem_map.mp (List.mem_toFinset.mp hk')
    obtain ⟨ha, hpa⟩ := List.mem_filter.mp ha
    obtain ⟨hb, hpb⟩ := List.mem_filter.mp hb
    rw [hp b hb a ha heq, hpa] at hpb
    cases hpb
  have hcard := repeats_add_card f l
  have hcard₁ := repeats_add_card f (l.filter p)
  have hcard₂ := repeats_add_card f (l.filter fun a => !p a)
  have hlen := List.length_eq_length_filter_add (l := l) p
  rw [hkeys, Finset.card_union_of_disjoint hdisjoint] at hcard
  omega

/-- The repeats, key by key. -/
theorem repeats_eq_sum (f : α → K) (l : List α) :
    repeats f l = ∑ k ∈ (l.map f).toFinset, ((l.map f).count k - 1) := by
  have hsum : ∑ k ∈ (l.map f).toFinset, ((l.map f).count k - 1) + (l.map f).toFinset.card =
      l.length := by
    rw [Finset.card_eq_sum_ones, ← Finset.sum_add_distrib, ← List.length_map f,
      ← List.sum_toFinset_count_eq_length]
    refine Finset.sum_congr rfl fun k hk => ?_
    have hpos := List.count_pos_iff.mpr (List.mem_toFinset.mp hk)
    omega
  have hcard := repeats_add_card f l
  omega

/-- A key that another one determines has no more values. -/
theorem card_keys_le {K' : Type} [DecidableEq K'] {f : α → K} {f' : α → K'} {l : List α}
    (key : K' → K) (h : ∀ a ∈ l, f a = key (f' a)) :
    (l.map f).toFinset.card ≤ (l.map f').toFinset.card := by
  have himage : (l.map f).toFinset = (l.map f').toFinset.image key := by
    ext k
    simp only [List.mem_toFinset, List.mem_map, Finset.mem_image, exists_exists_and_eq_and]
    exact exists_congr fun a => and_congr_right fun ha => by rw [h a ha]
  rw [himage]
  exact Finset.card_image_le

omit [DecidableEq K] in
/-- The elements that have a key, and those that have none. -/
theorem length_filterMap_add (key : α → Option K) (l : List α) :
    (l.filterMap key).length + (l.filter fun a => (key a).isNone).length = l.length := by
  induction l with
  | nil => rfl
  | cons a l ih =>
    rcases hkey : key a with _ | k
    · rw [List.filterMap_cons_none hkey, List.filter_cons_of_pos (by simp [hkey]),
        List.length_cons, List.length_cons, ← ih]
      omega
    · rw [List.filterMap_cons_some hkey, List.filter_cons_of_neg (by simp [hkey]),
        List.length_cons, List.length_cons, ← ih]
      omega

/-! ## The first of each key -/

/-- The first element of each key that has not been seen, and those that have none. -/
def firsts (key : α → Option K) : List α → List K → List α
  | [], _ => []
  | a :: l, seen =>
    match key a with
    | none => a :: firsts key l seen
    | some k => if k ∈ seen then firsts key l seen else a :: firsts key l (k :: seen)

section

variable {key : α → Option K}

theorem firsts_sublist (key : α → Option K) (l : List α) (seen : List K) :
    (firsts key l seen).Sublist l := by
  induction l generalizing seen with
  | nil => exact List.Sublist.refl _
  | cons a l ih =>
    rw [firsts]
    split
    · exact (ih seen).cons_cons a
    · split
      · exact (ih seen).cons a
      · exact (ih _).cons_cons a

/-- Each key comes once, and none is lost. -/
theorem firsts_keys (key : α → Option K) (l : List α) (seen : List K) :
    ((firsts key l seen).filterMap key).Nodup ∧
      ∀ k, k ∈ (firsts key l seen).filterMap key ↔ k ∈ l.filterMap key ∧ k ∉ seen := by
  induction l generalizing seen with
  | nil => exact ⟨List.nodup_nil, fun k => by simp [firsts]⟩
  | cons a l ih =>
    rw [firsts]
    split
    · next hkey =>
      rw [List.filterMap_cons_none hkey, List.filterMap_cons_none hkey]
      exact ih seen
    · next k hkey =>
      rw [List.filterMap_cons_some hkey]
      split
      · next hseen =>
        refine ⟨(ih seen).1, fun k' => ((ih seen).2 k').trans ?_⟩
        rw [List.mem_cons]
        refine ⟨?_, ?_⟩
        · exact fun h => ⟨.inr h.1, h.2⟩
        · rintro ⟨rfl | h, hnot⟩
          · exact absurd hseen hnot
          · exact ⟨h, hnot⟩
      · next hnew =>
        obtain ⟨hnodup, hmem⟩ := ih (k :: seen)
        rw [List.filterMap_cons_some hkey, List.nodup_cons]
        refine ⟨⟨fun h => ((hmem k).mp h).2 List.mem_cons_self, hnodup⟩, fun k' => ?_⟩
        rw [List.mem_cons, List.mem_cons, hmem, List.mem_cons, not_or]
        refine ⟨?_, ?_⟩
        · rintro (rfl | ⟨h, -, hnot⟩)
          · exact ⟨.inl rfl, hnew⟩
          · exact ⟨.inr h, hnot⟩
        · rintro ⟨h | h, hnot⟩
          · exact .inl h
          · by_cases heq : k' = k
            · exact .inl heq
            · exact .inr ⟨h, heq, hnot⟩

/-- Only the keys of the list count as seen. -/
theorem firsts_congr {l : List α} {seen seen' : List K}
    (h : ∀ k ∈ l.filterMap key, k ∈ seen ↔ k ∈ seen') :
    firsts key l seen = firsts key l seen' := by
  induction l generalizing seen seen' with
  | nil => rfl
  | cons a l ih =>
    rw [firsts, firsts]
    split
    · next hkey => rw [ih fun k hk => h k (by rwa [List.filterMap_cons_none hkey])]
    · next k hkey =>
      rw [List.filterMap_cons_some hkey] at h
      have hrest : ∀ k ∈ l.filterMap key, k ∈ seen ↔ k ∈ seen' := fun k hk =>
        h k (List.mem_cons_of_mem _ hk)
      simp only [h k List.mem_cons_self]
      split
      · exact ih hrest
      · exact congrArg (List.cons a) (ih fun k' hk' => by simp only [List.mem_cons, hrest k' hk'])

/-- Which elements come first among those of some keys does not depend on the others. -/
theorem filter_firsts {l : List α} {p : α → Bool}
    (hp : ∀ a ∈ l, ∀ b ∈ l, ∀ k, key a = some k → key b = some k → p a = p b) (seen : List K) :
    (firsts key l seen).filter p = firsts key (l.filter p) seen := by
  induction l generalizing seen with
  | nil => rfl
  | cons a l ih =>
    have hrest := fun seen => ih (fun b hb c hc =>
      hp b (List.mem_cons_of_mem a hb) c (List.mem_cons_of_mem a hc)) seen
    rw [firsts]
    cases hpa : p a with
    | true =>
      rw [List.filter_cons_of_pos hpa, firsts]
      split
      · rw [List.filter_cons_of_pos hpa, hrest]
      · split
        · exact hrest seen
        · rw [List.filter_cons_of_pos hpa, hrest]
    | false =>
      have hnot : ¬ p a = true := by simp [hpa]
      rw [List.filter_cons_of_neg hnot]
      split
      · rw [List.filter_cons_of_neg hnot, hrest]
      · next k hkey =>
        split
        · exact hrest seen
        · rw [List.filter_cons_of_neg hnot, hrest]
          -- the key is none of those that are left
          refine firsts_congr fun k' hk' => ?_
          obtain ⟨b, hb, hkey'⟩ := List.mem_filterMap.mp hk'
          obtain ⟨hb, hpb⟩ := List.mem_filter.mp hb
          rw [List.mem_cons, or_iff_right]
          rintro rfl
          rw [hp b (List.mem_cons_of_mem a hb) a List.mem_cons_self k' hkey' hkey, hpa] at hpb
          cases hpb

theorem firsts_of_nodup {l : List α} {seen : List K} (hnodup : (l.filterMap key).Nodup)
    (hseen : ∀ k ∈ l.filterMap key, k ∉ seen) : firsts key l seen = l := by
  induction l generalizing seen with
  | nil => rfl
  | cons a l ih =>
    rw [firsts]
    split
    · next hkey =>
      rw [List.filterMap_cons_none hkey] at hnodup hseen
      rw [ih hnodup hseen]
    · next k hkey =>
      rw [List.filterMap_cons_some hkey] at hnodup hseen
      obtain ⟨hnot, hnodup⟩ := List.nodup_cons.mp hnodup
      rw [if_neg (hseen k List.mem_cons_self), ih hnodup]
      intro k' hk' hin
      rcases List.mem_cons.mp hin with rfl | hin
      · exact hnot hk'
      · exact hseen k' (List.mem_cons_of_mem k hk') hin

theorem mem_firsts_of_none {l : List α} {a : α} (ha : a ∈ l) (hkey : key a = none)
    {seen : List K} : a ∈ firsts key l seen := by
  induction l generalizing seen with
  | nil => cases ha
  | cons b l ih =>
    rw [firsts]
    rcases List.mem_cons.mp ha with rfl | ha
    · rw [hkey]
      exact List.mem_cons_self
    · split
      · exact List.mem_cons_of_mem b (ih ha)
      · split
        · exact ih ha
        · exact List.mem_cons_of_mem b (ih ha)

/-- What does not come first repeats a key. -/
theorem length_firsts_add (key : α → Option K) (l : List α) :
    (firsts key l []).length + repeats id (l.filterMap key) = l.length := by
  obtain ⟨hnodup, hmem⟩ := firsts_keys key l []
  have hnone : (firsts key l []).filter (fun a => (key a).isNone) =
      l.filter fun a => (key a).isNone := by
    have hempty : (l.filter fun a => (key a).isNone).filterMap key = [] := by
      rw [List.filterMap_eq_nil_iff]
      intro a ha
      exact Option.isNone_iff_eq_none.mp (List.mem_filter.mp ha).2
    rw [filter_firsts fun a _ b _ k hka hkb => by rw [hka, hkb], firsts_of_nodup]
    · rw [hempty]
      exact List.nodup_nil
    · rw [hempty]
      simp
  have hkeys : ((l.filterMap key).map id).toFinset =
      ((firsts key l []).filterMap key).toFinset := by
    ext k
    rw [List.map_id, List.mem_toFinset, List.mem_toFinset, hmem]
    simp
  have hrepeats := repeats_add_card id (l.filterMap key)
  rw [hkeys, List.toFinset_card_of_nodup hnodup] at hrepeats
  have hlen := length_filterMap_add key l
  have hlen' := length_filterMap_add key (firsts key l [])
  rw [hnone] at hlen'
  omega

end
