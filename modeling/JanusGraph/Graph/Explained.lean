import JanusGraph.Graph.PlanCorrect

/-!
# The explained zero

`mergeable_clusters` and `max_observed_similarity` of a plan. Every scan of a name looks at
pairs of entities of the name, so the highest similarity is that of all pairs. But each scan
that finds a pair counts, so a name counts as often as it folds.
-/

namespace JanusGraph

open Folding

variable {Score : Type} [LinearOrder Score] (scoring : Scoring Score)

/-- Some two of the entities have alike summaries. -/
def HasAlikePair (threshold : Score) (l : List EntityRecord) : Prop :=
  ∃ a ∈ l, ∃ b ∈ l, a ≠ b ∧ threshold ≤ similarity scoring a b

instance (threshold : Score) (l : List EntityRecord) :
    Decidable (HasAlikePair scoring threshold l) := by
  unfold HasAlikePair
  infer_instance

/-- The names of the entities. -/
def namesOf (entities : List EntityRecord) : List String :=
  (entities.map EntityRecord.cluster).dedup

/-- What the two numbers are to say. -/
structure DedupPlan.Explained (plan : DedupPlan Score) (entities : List EntityRecord)
    (threshold : Score) : Prop where
  /-- the names that have a pair at or above the threshold -/
  mergeable : plan.mergeableClusters =
    (namesOf entities).countP fun name => HasAlikePair scoring threshold (clusterOf entities name)
  /-- the highest similarity of two entities of one name, and `0.0` if there are none -/
  bound : ∀ a ∈ entities, ∀ b ∈ entities, a ≠ b → a.cluster = b.cluster →
    similarity scoring a b ≤ plan.maxObservedSimilarity
  observed : (∃ a ∈ entities, ∃ b ∈ entities, a ≠ b ∧ a.cluster = b.cluster ∧
      similarity scoring a b = plan.maxObservedSimilarity) ∨
    plan.maxObservedSimilarity = scoring.zero ∧
      ∀ a ∈ entities, ∀ b ∈ entities, a ≠ b → a.cluster ≠ b.cluster

/-- Of the pairs in the order of the two loops, the first with the highest similarity. -/
def FirstBest (threshold : Score) (l : List EntityRecord) (p : EntityRecord × EntityRecord) :
    Prop :=
  ∃ before after, pairsOf l = before ++ p :: after ∧ threshold ≤ pairSimilarity scoring p ∧
    (∀ q ∈ before, pairSimilarity scoring q < pairSimilarity scoring p) ∧
    ∀ q ∈ after, pairSimilarity scoring q ≤ pairSimilarity scoring p

variable {scoring} {threshold : Score} {entities : List EntityRecord}

theorem firstBest_iff {l : List EntityRecord} {p : EntityRecord × EntityRecord} :
    FirstBest scoring threshold l p ↔ (summaryGuide scoring).pick threshold l = some p := by
  have hscore : (fun p : EntityRecord × EntityRecord => (summaryGuide scoring).score p.1 p.2) =
      pairSimilarity scoring := rfl
  rw [FirstBest, pairsOf_eq, Guide.pick, hscore]
  constructor
  · rintro ⟨before, after, hpairs, hreach, hbefore, hafter⟩
    rw [hpairs]
    exact firstBest_append_cons hreach hbefore hafter
  · exact of_firstBest

/-! ## The clusters -/

omit [LinearOrder Score] in
/-- A sum counts what is not zero exactly when nothing exceeds one. -/
theorem sum_eq_countP_iff (l : List ℕ) : l.sum = l.countP (· ≠ 0) ↔ ∀ n ∈ l, n ≤ 1 := by
  have hle : ∀ l : List ℕ, l.countP (· ≠ 0) ≤ l.sum := by
    intro l
    induction l with
    | nil => exact le_rfl
    | cons n l ih =>
      rw [List.countP_cons, List.sum_cons]
      split_ifs with hn
      · have hpos : n ≠ 0 := of_decide_eq_true hn
        omega
      · omega
  induction l with
  | nil => simp
  | cons n l ih =>
    have hle := hle l
    rw [List.countP_cons, List.sum_cons, List.forall_mem_cons]
    refine Iff.trans ?_ (and_congr_right fun _ => ih)
    split_ifs with hn
    · have hpos : n ≠ 0 := of_decide_eq_true hn
      omega
    · have hzero : n = 0 := by simpa using hn
      omega

/-- The names, as the loop groups the entities by them. -/
theorem map_byName_perm {β : Type} (f : List EntityRecord → β) :
    ((byName entities).rows.map fun row => f row.2).Perm
      ((namesOf entities).map fun name => f (clusterOf entities name)) := by
  have hrows : (byName entities).rows.map (fun row => f row.2) =
      ((byName entities).rows.map Prod.fst).map fun name => f (clusterOf entities name) := by
    rw [List.map_map]
    refine List.map_congr_left fun row hrow => ?_
    rw [(mem_byName.mp hrow).1]
    rfl
  rw [hrows]
  refine ((List.perm_ext_iff_of_nodup (byName entities).nodup (List.nodup_dedup _)).mpr
    fun name => ?_).map _
  rw [List.mem_dedup, List.mem_map, List.mem_map]
  constructor
  · rintro ⟨row, hrow, rfl⟩
    obtain ⟨hgroup, hne⟩ := mem_byName.mp hrow
    obtain ⟨n, hn⟩ := List.exists_mem_of_ne_nil _ hne
    rw [hgroup] at hn
    obtain ⟨hn, hname⟩ := List.mem_filter.mp hn
    exact ⟨n, hn, of_decide_eq_true hname⟩
  · rintro ⟨n, hn, rfl⟩
    exact ⟨_, mem_byName.mpr ⟨rfl, List.ne_nil_of_mem (mem_clusterOf_self hn)⟩, rfl⟩

variable {mentions : List MentionRecord} {relations : List RelationRecord}

/-- The count is right exactly when no name folds twice. -/
theorem mergeable_iff (h : DistinctUuids entities) :
    (planDedup scoring entities mentions relations threshold).mergeableClusters =
        (namesOf entities).countP (fun name =>
          HasAlikePair scoring threshold (clusterOf entities name)) ↔
      ∀ name, ((summaryGuide scoring).run threshold (clusterOf entities name)).length ≤ 1 := by
  let folds : List EntityRecord → ℕ := fun l => ((summaryGuide scoring).run threshold l).length
  have hcount : (planDedup scoring entities mentions relations threshold).mergeableClusters =
      ((namesOf entities).map fun name => folds (clusterOf entities name)).sum := by
    have hplanned := (planned_mergeClusters scoring threshold h.text).mergeable
    rw [← (map_byName_perm folds).sum_eq]
    change (mergeClusters scoring threshold entities).plan.mergeableClusters = _
    rw [hplanned, List.length_flatMap]
    exact Nat.zero_add _
  have hfolds : ∀ name, folds (clusterOf entities name) ≠ 0 ↔
      HasAlikePair scoring threshold (clusterOf entities name) := by
    intro name
    rw [ne_eq, List.length_eq_zero_iff, Guide.run_eq_nil (h.nodup_cluster name), HasAlikePair]
    push Not
    rfl
  have hnames : (namesOf entities).countP (fun name =>
        HasAlikePair scoring threshold (clusterOf entities name)) =
      ((namesOf entities).map fun name => folds (clusterOf entities name)).countP (· ≠ 0) := by
    rw [List.countP_map]
    exact List.countP_congr fun name _ => by simp [hfolds]
  rw [hcount, hnames, sum_eq_countP_iff, List.forall_mem_map]
  refine ⟨fun hall name => ?_, fun hall name _ => hall name⟩
  by_cases hname : name ∈ namesOf entities
  · exact hall name hname
  · -- a name without entities folds nothing
    have hnil : clusterOf entities name = [] := by
      refine List.filter_eq_nil_iff.mpr fun n hn heq => hname ?_
      exact List.mem_dedup.mpr (List.mem_map.mpr ⟨n, hn, of_decide_eq_true heq⟩)
    rw [hnil]
    exact Nat.zero_le 1

/-! ## The highest similarity -/

/-- `0.0` is the least score. -/
structure Scoring.Nonneg (scoring : Scoring Score) : Prop where
  div : ∀ m n, scoring.zero ≤ scoring.div m n
  one : scoring.zero ≤ scoring.one

theorem Scoring.Nonneg.similarity (h : scoring.Nonneg) (a b : EntityRecord) :
    scoring.zero ≤ similarity scoring a b := by
  rw [JanusGraph.similarity, jaccard]
  split_ifs
  · exact h.one
  · exact h.one
  · exact h.div _ _

theorem foldl_max_cases (seen : Score) (scores : List Score) :
    scores.foldl max seen = seen ∨ scores.foldl max seen ∈ scores := by
  induction scores generalizing seen with
  | nil => exact .inl rfl
  | cons s scores ih =>
    rw [List.foldl_cons, List.mem_cons]
    rcases ih (max seen s) with heq | hin
    · rw [heq]
      exact (max_choice seen s).imp_right .inl
    · exact .inr (.inr hin)

/-- The similarities of all pairs of one name. -/
def scoresOf (scoring : Scoring Score) (entities : List EntityRecord) : List Score :=
  (byName entities).rows.flatMap fun row => (pairs row.2).map (pairSimilarity scoring)

theorem maxObserved_eq (h : DistinctUuids entities) :
    (planDedup scoring entities mentions relations threshold).maxObservedSimilarity =
      (scoresOf scoring entities).foldl max scoring.zero := by
  have hobserved := (planned_mergeClusters scoring threshold h.text).observed
  change (mergeClusters scoring threshold entities).plan.maxObservedSimilarity = _
  rw [hobserved, scoresOf]
  suffices hrows : ∀ (rows : List (String × List EntityRecord)) (seen : Score),
      rows.foldl (fun seen row => highest scoring seen row.2) seen =
        (rows.flatMap fun row => (pairs row.2).map (pairSimilarity scoring)).foldl max seen from
    hrows _ _
  intro rows
  induction rows with
  | nil => exact fun _ => rfl
  | cons row rows ih =>
    intro seen
    rw [List.foldl_cons, ih, List.flatMap_cons, List.foldl_append]
    rfl

omit [LinearOrder Score] in
theorem mem_scoresOf (h : DistinctUuids entities) {score : Score} :
    score ∈ scoresOf scoring entities ↔
      ∃ a ∈ entities, ∃ b ∈ entities, a ≠ b ∧ a.cluster = b.cluster ∧
        similarity scoring a b = score := by
  simp only [scoresOf, List.mem_flatMap, List.mem_map]
  constructor
  · rintro ⟨row, hrow, ⟨a, b⟩, hp, rfl⟩
    rw [(mem_byName.mp hrow).1] at hp
    obtain ⟨ha, hb⟩ := mem_of_mem_pairs hp
    obtain ⟨ha, hname⟩ := List.mem_filter.mp ha
    obtain ⟨hb, hname'⟩ := List.mem_filter.mp hb
    exact ⟨a, ha, b, hb, ne_of_mem_pairs (h.nodup_cluster _) hp,
      (of_decide_eq_true hname).trans (of_decide_eq_true hname').symm, rfl⟩
  · rintro ⟨a, ha, b, hb, hne, hname, rfl⟩
    have hrow : (a.cluster, clusterOf entities a.cluster) ∈ (byName entities).rows :=
      mem_byName.mpr ⟨rfl, List.ne_nil_of_mem (mem_clusterOf_self ha)⟩
    rcases mem_pairs_or (mem_clusterOf_self ha) (hname ▸ mem_clusterOf_self hb) hne with hp | hp
    · exact ⟨_, hrow, (a, b), hp, rfl⟩
    · exact ⟨_, hrow, (b, a), hp, similarity_comm scoring b a⟩

/-- **When the zero is explained.** Both numbers are right if and only if, in each name, the
entity that the first of the best pairs drops is in all pairs at or above the threshold. -/
theorem plan_explained_iff (h : DistinctUuids entities) (hzero : scoring.Nonneg) :
    (planDedup scoring entities mentions relations threshold).Explained scoring entities
        threshold ↔
      ∀ name a b, FirstBest scoring threshold (clusterOf entities name) (a, b) →
        ∀ c ∈ clusterOf entities name, ∀ d ∈ clusterOf entities name, c ≠ d →
          threshold ≤ similarity scoring c d →
            (pickSurvivor a b).2 = c ∨ (pickSurvivor a b).2 = d := by
  have hexplained : (planDedup scoring entities mentions relations threshold).Explained scoring
      entities threshold ↔
      ∀ name, ((summaryGuide scoring).run threshold (clusterOf entities name)).length ≤ 1 := by
    refine ⟨fun hexplained => (mergeable_iff h).mp hexplained.mergeable,
      fun hone => ⟨(mergeable_iff h).mpr hone, fun a ha b hb hne hname => ?_, ?_⟩⟩
    · rw [maxObserved_eq h]
      exact le_foldl_max.2 _ ((mem_scoresOf h).mpr ⟨a, ha, b, hb, hne, hname, rfl⟩)
    · rw [maxObserved_eq h]
      by_cases hnone : scoresOf scoring entities = []
      · refine .inr ⟨by rw [hnone, List.foldl_nil], fun a ha b hb hne hname => ?_⟩
        have hin : similarity scoring a b ∈ scoresOf scoring entities :=
          (mem_scoresOf h).mpr ⟨a, ha, b, hb, hne, hname, rfl⟩
        rw [hnone] at hin
        cases hin
      · refine .inl ((mem_scoresOf h).mp ?_)
        rcases foldl_max_cases scoring.zero (scoresOf scoring entities) with heq | hin
        · -- all scores are `0.0`
          obtain ⟨score, hscore⟩ := List.exists_mem_of_ne_nil _ hnone
          have hle : score ≤ (scoresOf scoring entities).foldl max scoring.zero :=
            le_foldl_max.2 _ hscore
          obtain ⟨a, -, b, -, -, -, rfl⟩ := (mem_scoresOf h).mp hscore
          rw [heq] at hle ⊢
          exact (hle.antisymm (hzero.similarity a b)) ▸ hscore
        · exact hin
  refine hexplained.trans (forall_congr' fun name => ?_)
  rw [Guide.length_run_le_one (h.nodup_cluster name), Prod.forall]
  refine forall_congr' fun a => forall_congr' fun b => ?_
  rw [firstBest_iff, pickSurvivor_eq (a, b)]
  rfl

/-- Entities of one name with one summary. -/
def alikeEntities (uuids : List String) : List EntityRecord :=
  uuids.map fun uuid => ⟨some uuid, some "n", some "x", some "t"⟩

theorem exactScoring_nonneg : exactScoring.Nonneg :=
  ⟨fun m n => div_nonneg (Nat.cast_nonneg m) (Nat.cast_nonneg n), zero_le_one⟩

theorem plan_explained_iff_twoAlike :
    (planDedup exactScoring (alikeEntities ["a", "b"]) [] [] (4 / 5)).Explained exactScoring
        (alikeEntities ["a", "b"]) (4 / 5) ↔
      ∀ name a b, FirstBest exactScoring (4 / 5) (clusterOf (alikeEntities ["a", "b"]) name) (a, b) →
        ∀ c ∈ clusterOf (alikeEntities ["a", "b"]) name,
          ∀ d ∈ clusterOf (alikeEntities ["a", "b"]) name, c ≠ d →
            4 / 5 ≤ similarity exactScoring c d →
              (pickSurvivor a b).2 = c ∨ (pickSurvivor a b).2 = d :=
  plan_explained_iff (DistinctUuids.of_some (by decide) (by decide)) exactScoring_nonneg

/-- One name of three alike entities counts as two. -/
theorem not_explained : DistinctUuids (alikeEntities ["a", "b", "c"]) ∧
    ¬ (planDedup exactScoring (alikeEntities ["a", "b", "c"]) [] [] (4 / 5)).Explained exactScoring
      (alikeEntities ["a", "b", "c"]) (4 / 5) := by
  refine ⟨DistinctUuids.of_some (by decide) (by decide), fun hexplained => ?_⟩
  have htwo : (planDedup exactScoring (alikeEntities ["a", "b", "c"]) [] []
      (4 / 5)).mergeableClusters = 2 := by decide +kernel
  have hone : (namesOf (alikeEntities ["a", "b", "c"])).length = 1 := by decide
  have hle := List.countP_le_length (l := namesOf (alikeEntities ["a", "b", "c"]))
    (p := fun name => HasAlikePair exactScoring (4 / 5)
      (clusterOf (alikeEntities ["a", "b", "c"]) name))
  rw [← hexplained.mergeable, htwo, hone] at hle
  exact absurd hle (by decide)

end JanusGraph
