import JanusGraph.Graph.PlanCorrect

/-!
# Plans and the order of the rows

FalkorDB returns the entities in no promised order. `_pick_survivor` breaks its ties by the
uuid, but the scan over the pairs keeps the first of the best, so where several pairs tie the
order of the rows decides which of them folds. It has no effect exactly where the entities of
each name settle in one way (`Guide.Settles`).
-/

namespace JanusGraph

open Folding

variable {Score : Type} [LinearOrder Score] {scoring : Scoring Score}

/-- The same victims, with the same roots. -/
structure SamePlan (plan plan' : DedupPlan Score) : Prop where
  victims : ∀ v, v ∈ plan.victims ↔ v ∈ plan'.victims
  roots : ∀ v ∈ plan.victims, rootIn plan.redirect v = rootIn plan'.redirect v

/-- The plans of all orders of the entities are the same. -/
def OrderFree (scoring : Scoring Score) (mentions : List MentionRecord)
    (relations : List RelationRecord) (threshold : Score) (entities : List EntityRecord) : Prop :=
  ∀ entities', entities.Perm entities' →
    SamePlan (planDedup scoring entities mentions relations threshold)
      (planDedup scoring entities' mentions relations threshold)

variable {entities : List EntityRecord} {mentions : List MentionRecord}
  {relations : List RelationRecord} {threshold : Score}

/-- An entity stays exactly if it is its own root. -/
theorem stays_iff (h : DistinctUuids entities) {n : EntityRecord} (hn : n ∈ entities) :
    (summaryGuide scoring).Stays threshold (clusterOf entities n.cluster) n ↔
      root ((summaryGuide scoring).run threshold (clusterOf entities n.cluster)) n = n := by
  refine ⟨Guide.root_of_stays, fun heq => ?_⟩
  have hstays := (Guide.root_run (summaryGuide scoring) threshold (h.nodup_cluster n.cluster)
    (mem_clusterOf_self hn)).2.1
  rwa [heq] at hstays

/-- The plans of two orders agree exactly if each entity has one root. -/
theorem samePlan_iff (h : DistinctUuids entities) {entities' : List EntityRecord}
    (hperm : entities.Perm entities') :
    SamePlan (planDedup scoring entities mentions relations threshold)
        (planDedup scoring entities' mentions relations threshold) ↔
      ∀ n ∈ entities,
        root ((summaryGuide scoring).run threshold (clusterOf entities' n.cluster)) n =
          root ((summaryGuide scoring).run threshold (clusterOf entities n.cluster)) n := by
  have h' := h.perm hperm
  have hvictim : ∀ n ∈ entities,
      (n.uuidText ∈ (planDedup scoring entities mentions relations threshold).victims ↔
        root ((summaryGuide scoring).run threshold (clusterOf entities n.cluster)) n ≠ n) ∧
      (n.uuidText ∈ (planDedup scoring entities' mentions relations threshold).victims ↔
        root ((summaryGuide scoring).run threshold (clusterOf entities' n.cluster)) n ≠ n) := by
    intro n hn
    have hn' := hperm.mem_iff.mp hn
    rw [mem_victims_planDedup h hn, mem_victims_planDedup h' hn', stays_iff h hn, stays_iff h' hn']
    exact ⟨Iff.rfl, Iff.rfl⟩
  constructor
  · rintro ⟨hvictims, hroots⟩ n hn
    obtain ⟨hone, htwo⟩ := hvictim n hn
    by_cases hv : n.uuidText ∈ (planDedup scoring entities mentions relations threshold).victims
    · have heq := hroots _ hv
      rw [rootIn_planDedup h hn, rootIn_planDedup h' (hperm.mem_iff.mp hn)] at heq
      obtain ⟨hin, -⟩ := Guide.root_run (summaryGuide scoring) threshold
        (h.nodup_cluster n.cluster) (mem_clusterOf_self hn)
      obtain ⟨hin', -⟩ := Guide.root_run (summaryGuide scoring) threshold
        (h'.nodup_cluster n.cluster) (mem_clusterOf_self (hperm.mem_iff.mp hn))
      exact (List.inj_on_of_nodup_map h.text (List.mem_of_mem_filter hin)
        (hperm.mem_iff.mpr (List.mem_of_mem_filter hin')) heq).symm
    · have hv' := hv
      rw [hone, not_not] at hv
      rw [hvictims, htwo, not_not] at hv'
      rw [hv, hv']
  · intro hroots
    have hsame : ∀ n ∈ entities,
        (n.uuidText ∈ (planDedup scoring entities mentions relations threshold).victims ↔
          n.uuidText ∈ (planDedup scoring entities' mentions relations threshold).victims) := by
      intro n hn
      rw [(hvictim n hn).1, (hvictim n hn).2, hroots n hn]
    refine ⟨fun v => ⟨fun hv => ?_, fun hv => ?_⟩, fun v hv => ?_⟩
    · obtain ⟨n, hn, rfl⟩ := known_victims h hv
      exact (hsame n hn).mp hv
    · obtain ⟨n, hn, rfl⟩ := known_victims h' hv
      exact (hsame n (hperm.mem_iff.mpr hn)).mpr hv
    · obtain ⟨n, hn, rfl⟩ := known_victims h hv
      rw [rootIn_planDedup h hn, rootIn_planDedup h' (hperm.mem_iff.mp hn), hroots n hn]

/-- **When the order of the rows does not matter.** From a threshold on, the plans are the same
for all orders of the entities, if and only if those of each name settle in one way. -/
theorem orderFree_iff (h : DistinctUuids entities) :
    (∀ t, threshold ≤ t → OrderFree scoring mentions relations t entities) ↔
      ∀ name, (summaryGuide scoring).Settles threshold (clusterOf entities name) := by
  have hrank : ∀ name, ∀ a ∈ clusterOf entities name, ∀ b ∈ clusterOf entities name,
      (summaryGuide scoring).rank a = (summaryGuide scoring).rank b → a = b := by
    intro name a ha b hb heq
    refine List.inj_on_of_nodup_map h.key (List.mem_of_mem_filter ha) (List.mem_of_mem_filter hb) ?_
    exact congrArg (fun r : ℕᵒᵈ ×ₗ String ×ₗ String => (ofLex (ofLex r).2).2) heq
  simp only [← Guide.order_irrelevant_iff (h.nodup_cluster _) (hrank _), OrderFree]
  constructor
  · intro hfree name t ht l hl n hn
    -- the others are listed behind the entities of this name
    let entities' := l ++ entities.filter fun n => !decide (n.cluster = name)
    have hperm : entities.Perm entities' :=
      (List.filter_append_perm _ entities).symm.trans (hl.append_right _)
    have hcluster : clusterOf entities' name = l := by
      rw [clusterOf, List.filter_append, List.filter_eq_self.mpr, List.filter_eq_nil_iff.mpr,
        List.append_nil]
      · intro n hn
        simpa using (List.mem_filter.mp hn).2
      · exact fun n hn => (List.mem_filter.mp (hl.mem_iff.mpr hn)).2
    obtain ⟨hn', hname⟩ := List.mem_filter.mp hn
    obtain rfl : n.cluster = name := of_decide_eq_true hname
    have hroot := (samePlan_iff h hperm).mp (hfree t ht entities' hperm) n hn'
    rwa [hcluster] at hroot
  · intro hroots t ht entities' hperm
    refine (samePlan_iff h hperm).mpr fun n hn => ?_
    exact hroots n.cluster t ht _ (hperm.filter _) n (mem_clusterOf_self hn)

/-- In three entities of one name the second ties with both others. -/
def tiedEntities : List EntityRecord :=
  [⟨some "a", some "n", some "x z", some "t"⟩, ⟨some "b", some "n", some "x y", some "t"⟩,
    ⟨some "c", some "n", some "w y", some "t"⟩]

theorem orderFree_iff_tied :
    (∀ t, 3 / 10 ≤ t → OrderFree exactScoring [] [] t tiedEntities) ↔
      ∀ name, (summaryGuide exactScoring).Settles (3 / 10) (clusterOf tiedEntities name) :=
  orderFree_iff (DistinctUuids.of_some (by decide) (by decide))

/-- The order of the rows decides whether the third is a victim. -/
theorem not_orderFree : DistinctUuids tiedEntities ∧
    ¬ OrderFree exactScoring [] [] (3 / 10) tiedEntities := by
  refine ⟨DistinctUuids.of_some (by decide) (by decide), fun hfree => ?_⟩
  have hsame := (hfree tiedEntities.reverse (List.reverse_perm _).symm).victims "c"
  have hone : (planDedup exactScoring tiedEntities [] [] (3 / 10)).victims = ["b"] := by
    decide +kernel
  have htwo : (planDedup exactScoring tiedEntities.reverse [] [] (3 / 10)).victims = ["c", "b"] := by
    decide +kernel
  rw [hone, htwo] at hsame
  exact absurd (hsame.mpr (by simp)) (by simp)

end JanusGraph
