import JanusGraph.Graph.Apply
import JanusGraph.Lib.Repeats

/-!
# What a plan says

A plan of `plan_dedup` for entities that their uuids tell apart: its merges name these
entities, and follow one another without a cycle, so that no root is a victim. What it
counts as collisions are the repeats among the edges of the groups it touches.
-/

namespace JanusGraph

/-! ## Collisions -/

section

variable {E K : Type} [DecidableEq K] {edges : List E} {key : E → K} {touched : E → Bool}

/-- The edge has the key of one that is touched. -/
def inTouched (edges : List E) (key : E → K) (touched : E → Bool) (e : E) : Bool :=
  edges.any fun e' => key e' = key e ∧ touched e'

/-- What the edges of one key contribute to the collisions. -/
def share (edges : List E) (key : E → K) (touched : E → Bool) (k : K) : ℕ :=
  if (edges.filter fun e => key e = k).any touched then
    (edges.filter fun e => key e = k).length - 1
  else 0

/-- The collisions, key by key. -/
theorem collisions_eq_sum (edges : List E) (key : E → K) (touched : E → Bool) :
    collisions edges key touched = ∑ k ∈ (edges.map key).toFinset, share edges key touched k := by
  rw [collisions]
  rw [List.map_congr_left (g := fun row => share edges key touched row.1)]
  · rw [← Function.comp_def (share edges key touched), ← List.map_map,
      ← List.sum_toFinset (share edges key touched) (Table.nodup _)]
    refine Finset.sum_congr (Finset.ext fun k => ?_) fun _ _ => rfl
    simp only [List.mem_toFinset, List.mem_map, Prod.exists, Table.mem_rows_grouped]
    refine ⟨?_, ?_⟩
    · rintro ⟨k, group, ⟨rfl, hne⟩, rfl⟩
      obtain ⟨e, he⟩ := List.exists_mem_of_ne_nil _ hne
      exact ⟨e, List.mem_of_mem_filter he, of_decide_eq_true (List.mem_filter.mp he).2⟩
    · rintro ⟨e, he, rfl⟩
      exact ⟨_, _, ⟨rfl, List.ne_nil_of_mem (List.mem_filter.mpr ⟨he, decide_eq_true rfl⟩)⟩, rfl⟩
  · rintro ⟨k, group⟩ hrow
    obtain ⟨rfl, hne⟩ := Table.mem_rows_grouped.mp hrow
    change (if (edges.filter fun e => key e = k).length < 2 then 0
      else if (edges.filter fun e => key e = k).any touched then
        (edges.filter fun e => key e = k).length - 1 else 0) = share edges key touched k
    rw [share]
    split <;> split <;> omega

/-- Collisions are repeats among the edges of the touched groups. -/
theorem collisions_eq (edges : List E) (key : E → K) (touched : E → Bool) :
    collisions edges key touched = repeats key (edges.filter (inTouched edges key touched)) := by
  have hcount : ∀ (l : List E) k, (l.map key).count k = (l.filter fun e => key e = k).length := by
    intro l k
    rw [List.count, List.countP_map, List.countP_eq_length_filter]
    refine congrArg List.length (List.filter_congr fun e _ => ?_)
    rw [Function.comp_apply, Bool.beq_eq_decide_eq]
  have hin : ∀ e, inTouched edges key touched e =
      (edges.filter fun e' => key e' = key e).any touched := by
    intro e
    simp [inTouched, List.any_filter]
  rw [collisions_eq_sum, repeats_eq_sum]
  refine (Finset.sum_congr rfl fun k hk => ?_).trans (Finset.sum_subset (fun k hk => ?_)
    fun k hk hnot => ?_) |>.symm
  · obtain ⟨e, he, rfl⟩ := List.mem_map.mp (List.mem_toFinset.mp hk)
    obtain ⟨he, htouched⟩ := List.mem_filter.mp he
    rw [share, ← hin, htouched, if_pos rfl, hcount, List.filter_filter]
    congr 2
    refine List.filter_congr fun e' _ => ?_
    by_cases hkey : key e' = key e
    · rw [hin, hkey, ← hin, htouched, Bool.and_true]
    · simp [hkey]
  · obtain ⟨e, he, rfl⟩ := List.mem_map.mp (List.mem_toFinset.mp hk)
    exact List.mem_toFinset.mpr (List.mem_map_of_mem (List.mem_of_mem_filter he))
  · refine if_neg fun htouches => hnot ?_
    obtain ⟨e, hgroup, -⟩ := List.any_eq_true.mp htouches
    obtain ⟨he, hkey⟩ := List.mem_filter.mp hgroup
    obtain rfl := of_decide_eq_true hkey
    exact List.mem_toFinset.mpr (List.mem_map_of_mem
      (List.mem_filter.mpr ⟨he, (hin e).trans htouches⟩))

theorem collisions_perm {edges' : List E} (h : edges.Perm edges') :
    collisions edges key touched = collisions edges' key touched := by
  have hin : inTouched edges key touched = inTouched edges' key touched := by
    funext e
    rw [Bool.eq_iff_iff, inTouched, inTouched, List.any_eq_true, List.any_eq_true]
    simp only [h.mem_iff]
  rw [collisions_eq, collisions_eq, hin]
  exact repeats_perm (h.filter _)

theorem collisions_map {F : Type} (f : F → E) (l : List F) :
    collisions (l.map f) key touched = collisions l (key ∘ f) (touched ∘ f) := by
  rw [collisions_eq, collisions_eq, List.filter_map, repeats_map]
  congr 1
  refine List.filter_congr fun a _ => ?_
  rw [Function.comp_apply, inTouched, inTouched, List.any_map]
  rfl

/-- There are none exactly when an edge that is touched has its key for itself. -/
theorem collisions_eq_zero : collisions edges key touched = 0 ↔
    edges.Pairwise fun a b => key a = key b → touched a = false ∧ touched b = false := by
  rw [collisions_eq, repeats_eq_zero, List.Nodup, List.pairwise_map, List.pairwise_filter]
  have hin : ∀ {e e' : E}, e ∈ edges → touched e = true → key e = key e' →
      inTouched edges key touched e' = true := fun he htouched hkey =>
    List.any_eq_true.mpr ⟨_, he, decide_eq_true ⟨hkey, htouched⟩⟩
  refine ⟨?_, ?_⟩
  · intro h
    refine h.imp_of_mem fun {a b} ha hb hab hkey => ?_
    refine ⟨?_, ?_⟩
    · by_contra htouched
      rw [Bool.not_eq_false] at htouched
      exact hab (hin ha htouched rfl) (hin ha htouched hkey) hkey
    · by_contra htouched
      rw [Bool.not_eq_false] at htouched
      exact hab (hin hb htouched hkey.symm) (hin hb htouched rfl) hkey
  · intro h
    have hsymm : Std.Symm fun a b : E => key a = key b → touched a = false ∧ touched b = false :=
      ⟨fun _ _ hab hkey => (hab hkey.symm).symm⟩
    refine h.imp_of_mem fun {a b} ha hb hab htouched _ hkey => ?_
    obtain ⟨e, he, hboth⟩ := List.any_eq_true.mp htouched
    obtain ⟨hkey', htouched'⟩ := of_decide_eq_true hboth
    have hne : e ≠ a := by
      rintro rfl
      exact absurd (hab hkey).1 (by simp [htouched'])
    exact absurd (h.forall he ha hne hkey').1 (by simp [htouched'])

end

/-! ## Merges -/

variable {Score : Type}

/-- Merges that follow one another: nothing is merged into itself, and no victim comes
back. -/
structure ChainedMerges (merges : List (Merge Score)) : Prop where
  apart : ∀ m ∈ merges, m.survivorUuid ≠ m.victimUuid
  order : merges.Pairwise fun m m' =>
    m'.survivorUuid ≠ m.victimUuid ∧ m'.victimUuid ≠ m.victimUuid

theorem ChainedMerges.concat {merges : List (Merge Score)} {m : Merge Score}
    (h : ChainedMerges merges) (hne : m.survivorUuid ≠ m.victimUuid)
    (hnew : ∀ m' ∈ merges, m.survivorUuid ≠ m'.victimUuid ∧ m.victimUuid ≠ m'.victimUuid) :
    ChainedMerges (merges ++ [m]) where
  apart m' hm' := by
    rcases List.mem_append.mp hm' with hm' | hm'
    · exact h.apart m' hm'
    · obtain rfl := List.mem_singleton.mp hm'
      exact hne
  order := by
    refine List.pairwise_append.mpr
      ⟨h.order, List.pairwise_singleton _ _, fun m' hm' m'' hm'' => ?_⟩
    obtain rfl := List.mem_singleton.mp hm''
    exact hnew m' hm'

section

variable {plan : DedupPlan Score}

theorem mem_victims {v : String} : v ∈ plan.victims ↔ ∃ m ∈ plan.merges, m.victimUuid = v := by
  rw [← @isSome_redirects _ _ Merge.survivorUuid, Option.isSome_iff_exists]
  simp only [DedupPlan.victims, List.mem_map, Prod.exists, ← Table.mem_rows]
  exact ⟨fun ⟨k, s, h, hk⟩ => ⟨s, hk ▸ h⟩, fun ⟨s, h⟩ => ⟨v, s, h, rfl⟩⟩

theorem get?_redirect_eq_none {v : String} :
    plan.redirect.get? v = none ↔ v ∉ plan.victims := by
  rw [mem_victims, ← @isSome_redirects _ _ Merge.survivorUuid,
    Option.not_isSome_iff_eq_none]
  rfl

/-- Along a chain the merges come one after another. -/
theorem ChainedMerges.climb (h : ChainedMerges plan.merges) (v s : String)
    (hv : plan.redirect.get? v = some s) :
    plan.merges.findIdx (fun m => m.victimUuid = v) <
      plan.merges.findIdx fun m => m.victimUuid = s := by
  obtain ⟨m, hm, rfl, rfl⟩ := of_get?_redirects hv
  obtain ⟨i, hi, rfl⟩ := List.mem_iff_getElem.mp hm
  have horder := List.pairwise_iff_getElem.mp h.order
  have hself : plan.merges.findIdx (fun m => m.victimUuid = plan.merges[i].victimUuid) = i := by
    refine (List.findIdx_eq hi).mpr ⟨decide_eq_true rfl, fun j hji => decide_eq_false ?_⟩
    exact (horder j i _ hi hji).2.symm
  rw [hself]
  refine List.lt_findIdx_of_not hi fun j hji => ?_
  rw [decide_eq_true_eq]
  rcases hji.lt_or_eq with hlt | rfl
  · exact (horder j i _ hi hlt).1.symm
  · exact (h.apart _ hm).symm

/-- No root is a victim. -/
theorem ChainedMerges.root_not_mem (h : ChainedMerges plan.merges) (uuid : String) :
    rootIn plan.redirect uuid ∉ plan.victims := by
  rw [← get?_redirect_eq_none]
  exact get?_rootIn h.climb uuid

/-- The root of a victim is a survivor. -/
theorem ChainedMerges.root_mem (h : ChainedMerges plan.merges) {v : String}
    (hv : v ∈ plan.victims) :
    ∃ m ∈ plan.merges, m.survivorUuid = rootIn plan.redirect v := by
  have hroot : rootIn plan.redirect v = v ∨
      ∃ m ∈ plan.merges, m.survivorUuid = rootIn plan.redirect v := by
    refine rootIn_induct (P := fun u => u = v ∨ ∃ m ∈ plan.merges, m.survivorUuid = u)
      (fun w s hs _ => ?_) (.inl rfl)
    obtain ⟨m, hm, -, rfl⟩ := of_get?_redirects hs
    exact .inr ⟨m, hm, rfl⟩
  refine hroot.resolve_left fun heq => h.root_not_mem v ?_
  rwa [heq]

theorem rootIn_of_not_mem {uuid : String} (h : uuid ∉ plan.victims) :
    rootIn plan.redirect uuid = uuid :=
  rootIn_of_none (get?_redirect_eq_none.mpr h)

end

/-! ## The planner -/

variable {scoring : Scoring Score} {entities pending : List EntityRecord} {c : Clustering Score}

/-- What the planner has done so far, with the entities it may still merge. -/
structure Clustering.Sound (entities pending : List EntityRecord) (c : Clustering Score) :
    Prop where
  victims : c.victims = c.plan.redirect
  chained : ChainedMerges c.plan.merges
  /-- the merges name entities -/
  known : ∀ m ∈ c.plan.merges, (∃ n ∈ entities, n.uuidText = m.victimUuid) ∧
    ∃ n ∈ entities, n.uuidText = m.survivorUuid
  pending : ∀ n ∈ pending, ∀ m ∈ c.plan.merges, n.uuidText ≠ m.victimUuid

/-- Only the merges and what is pending count. -/
theorem Clustering.Sound.of_merges (h : c.Sound entities pending) {c' : Clustering Score}
    {pending' : List EntityRecord} (hvictims : c'.victims = c.victims)
    (hmerges : c'.plan.merges = c.plan.merges) (hpending : ∀ n ∈ pending', n ∈ pending) :
    c'.Sound entities pending' where
  victims := by rw [hvictims, h.victims, DedupPlan.redirect, DedupPlan.redirect, hmerges]
  chained := hmerges ▸ h.chained
  known := hmerges ▸ h.known
  pending n hn := hmerges ▸ h.pending n (hpending n hn)

theorem mem_of_mem_pairsOf {α : Type} {l : List α} {p : α × α} (h : p ∈ pairsOf l) :
    p.1 ∈ l ∧ p.2 ∈ l := by
  induction l with
  | nil => cases h
  | cons a l ih =>
    rcases List.mem_append.mp h with h | h
    · obtain ⟨b, hb, rfl⟩ := List.mem_map.mp h
      exact ⟨List.mem_cons_self, List.mem_cons_of_mem a hb⟩
    · exact (ih h).imp (List.mem_cons_of_mem a) (List.mem_cons_of_mem a)

theorem pickSurvivor_cases (a b : EntityRecord) :
    pickSurvivor a b = (a, b) ∨ pickSurvivor a b = (b, a) := by
  unfold pickSurvivor
  split
  · exact .inl rfl
  · exact .inr rfl

/-- One merge: the loser is done with. -/
theorem Clustering.Sound.merge {remaining rest : List EntityRecord}
    (h : c.Sound entities (remaining ++ rest)) (hin : ∀ n ∈ remaining, n ∈ entities)
    (hapart : ∀ n ∈ remaining, ∀ n' ∈ rest, n'.uuidText ≠ n.uuidText)
    {keeper loser : EntityRecord} (hkeeper : keeper ∈ remaining) (hloser : loser ∈ remaining)
    (hne : keeper.uuidText ≠ loser.uuidText) {c' : Clustering Score} {m : Merge Score}
    (hvictims : c'.victims = c.victims.upsert loser.uuidText fun _ => keeper.uuidText)
    (hmerges : c'.plan.merges = c.plan.merges ++ [m]) (hvictim : m.victimUuid = loser.uuidText)
    (hsurvivor : m.survivorUuid = keeper.uuidText) :
    c'.Sound entities ((remaining.filter fun n => n.uuidText ≠ loser.uuidText) ++ rest) where
  victims := by
    rw [hvictims, h.victims, DedupPlan.redirect, DedupPlan.redirect, hmerges, List.foldl_append,
      List.foldl_cons, List.foldl_nil, hvictim, hsurvivor]
  chained := by
    rw [hmerges]
    refine h.chained.concat ?_ fun m' hm' => ?_
    · rwa [hvictim, hsurvivor]
    · rw [hvictim, hsurvivor]
      exact ⟨h.pending keeper (List.mem_append_left _ hkeeper) m' hm',
        h.pending loser (List.mem_append_left _ hloser) m' hm'⟩
  known m' hm' := by
    rw [hmerges] at hm'
    rcases List.mem_append.mp hm' with hm' | hm'
    · exact h.known m' hm'
    · obtain rfl := List.mem_singleton.mp hm'
      exact ⟨⟨loser, hin loser hloser, hvictim.symm⟩, keeper, hin keeper hkeeper, hsurvivor.symm⟩
  pending n hn m' hm' := by
    rw [hmerges] at hm'
    rcases List.mem_append.mp hm' with hm' | hm'
    · refine h.pending n ?_ m' hm'
      rcases List.mem_append.mp hn with hn | hn
      · exact List.mem_append_left _ (List.mem_of_mem_filter hn)
      · exact List.mem_append_right _ hn
    · obtain rfl := List.mem_singleton.mp hm'
      rw [hvictim]
      rcases List.mem_append.mp hn with hn | hn
      · exact of_decide_eq_true (List.mem_filter.mp hn).2
      · exact hapart loser hloser n hn

variable [LinearOrder Score]

/-- The best pair is one of the pairs. -/
theorem best_mem {threshold : Score} {pairs : List (EntityRecord × EntityRecord)}
    {seen : Score × Best Score} {score : Score} {pair : EntityRecord × EntityRecord}
    (h : (pairs.foldl (scorePair scoring threshold) seen).2 = some (score, pair)) :
    pair ∈ pairs ∨ seen.2 = some (score, pair) := by
  induction pairs generalizing seen with
  | nil => exact .inr h
  | cons p pairs ih =>
    rcases ih h with hin | hbest
    · exact .inl (List.mem_cons_of_mem p hin)
    · unfold scorePair at hbest
      dsimp only at hbest
      split at hbest
      · cases hbest
        exact .inl List.mem_cons_self
      · exact .inr hbest

/-- One cluster; `rest` are the entities of the clusters to come. -/
theorem sound_mergeCluster {name : String} {fuel : ℕ} {remaining rest : List EntityRecord}
    (h : c.Sound entities (remaining ++ rest)) (hin : ∀ n ∈ remaining, n ∈ entities)
    (hapart : ∀ n ∈ remaining, ∀ n' ∈ rest, n'.uuidText ≠ n.uuidText) :
    (mergeCluster scoring name fuel remaining c).Sound entities rest := by
  have hrest : ∀ n ∈ rest, n ∈ remaining ++ rest := fun n hn => List.mem_append_right _ hn
  induction fuel generalizing remaining c with
  | zero => exact h.of_merges rfl rfl hrest
  | succ fuel ih =>
    rw [mergeCluster]
    split
    · exact h.of_merges rfl rfl hrest
    · dsimp only
      split
      · exact h.of_merges rfl rfl hrest
      · next score a b hbest =>
        have hpair := mem_of_mem_pairsOf ((best_mem hbest).resolve_right nofun)
        have hpick : (pickSurvivor a b).1 ∈ remaining ∧ (pickSurvivor a b).2 ∈ remaining := by
          rcases pickSurvivor_cases a b with h | h <;> rw [h]
          · exact hpair
          · exact hpair.symm
        split
        · exact h.of_merges rfl rfl hrest
        · next hne =>
          have hleft : ∀ n ∈ remaining.filter fun n => n.uuidText ≠ (pickSurvivor a b).2.uuidText,
              n ∈ remaining := fun n hn => List.mem_of_mem_filter hn
          exact ih (h.merge hin hapart hpick.1 hpick.2 hne rfl rfl rfl rfl)
            (fun n hn => hin n (hleft n hn)) (fun n hn => hapart n (hleft n hn))
            fun n hn => List.mem_append_right _ hn

/-- The clusters, one after another. -/
theorem sound_mergeClusters (scoring : Scoring Score) (threshold : Score)
    (hinj : ∀ n ∈ entities, ∀ n' ∈ entities, n.uuidText = n'.uuidText → n = n') :
    (mergeClusters scoring threshold entities).Sound entities [] := by
  have hgroup : ∀ {name group}, (name, group) ∈ (byName entities).rows →
      group = entities.filter fun n => n.name.getD "" = name := fun hrow =>
    (Table.mem_rows_grouped.mp hrow).1
  have hloop : ∀ (rows : List (String × List EntityRecord)) (c : Clustering Score),
      (∀ row ∈ rows, row ∈ (byName entities).rows) → (rows.map Prod.fst).Nodup →
      c.Sound entities (rows.flatMap Prod.snd) →
      (rows.foldl (fun c group =>
        if group.2.length < 2 then c
        else mergeCluster scoring group.1 group.2.length group.2
          { c with plan := { c.plan with
              clustersScanned := c.plan.clustersScanned + 1
              duplicateNameNodes := c.plan.duplicateNameNodes + group.2.length } }) c).Sound
        entities [] := by
    intro rows
    induction rows with
    | nil => exact fun _ _ _ h => h
    | cons row rows ih =>
      intro c hrows hnodup h
      obtain ⟨hnot, hnodup⟩ := List.nodup_cons.mp hnodup
      rw [List.foldl_cons]
      refine ih _ (fun r hr => hrows r (List.mem_cons_of_mem row hr)) hnodup ?_
      split
      · exact h.of_merges rfl rfl fun n hn => List.mem_append_right _ hn
      · have hrow := hgroup (hrows row List.mem_cons_self)
        refine sound_mergeCluster (h.of_merges rfl rfl fun _ => id) (fun n hn => ?_)
          fun n hn n' hn' heq => ?_
        · rw [hrow] at hn
          exact List.mem_of_mem_filter hn
        · -- an entity of two clusters would have two names
          obtain ⟨row', hrow', hn'⟩ := List.mem_flatMap.mp hn'
          rw [hrow] at hn
          rw [hgroup (hrows row' (List.mem_cons_of_mem row hrow'))] at hn'
          obtain ⟨hin, hname⟩ := List.mem_filter.mp hn
          obtain ⟨hin', hname'⟩ := List.mem_filter.mp hn'
          obtain rfl := hinj n' hin' n hin heq
          refine hnot (List.mem_map.mpr ⟨row', hrow', ?_⟩)
          rw [← of_decide_eq_true hname, ← of_decide_eq_true hname']
  exact hloop _ _ (fun _ => id) (Table.nodup _)
    ⟨rfl, ⟨by simp, List.Pairwise.nil⟩, by simp, by simp⟩

end JanusGraph
