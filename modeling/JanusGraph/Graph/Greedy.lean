import JanusGraph.Graph.Chains
import JanusGraph.Lib.Folding
import Mathlib.Algebra.Order.Field.Rat
import Mathlib.Data.Prod.Lex
import Mathlib.Data.Rat.Cast.Defs
import Mathlib.Data.String.Basic

/-!
# The merges of a plan

The loop of `plan_dedup` over one name folds the entities by the best pair (`Folding`): their
score is the Jaccard similarity of the summaries, and they rank as `_pick_survivor` orders
them. So a plan is the folds of all names, one after another.
-/

namespace JanusGraph

open Folding

variable {Score : Type} (scoring : Scoring Score)

/-! ## What guides the merges -/

/-- `jaccard` of the summaries of two entities -/
def similarity (a b : EntityRecord) : Score :=
  jaccard scoring (tokenize scoring a.summary) (tokenize scoring b.summary)

/-- The key of `_pick_survivor`. -/
def EntityRecord.rank (n : EntityRecord) : ℕᵒᵈ ×ₗ String ×ₗ String :=
  toLex (OrderDual.toDual n.summaryLen, toLex (n.createdAt.getD "", n.uuid.getD ""))

theorem EntityRecord.before_iff {a b : EntityRecord} : a.before b ↔ a.rank ≤ b.rank := by
  rw [rank, rank, Prod.Lex.toLex_le_toLex, Prod.Lex.toLex_le_toLex, before]
  simp only [OrderDual.toDual_lt_toDual, EmbeddingLike.apply_eq_iff_eq]

/-- What guides the merges of a name. -/
def summaryGuide : Guide EntityRecord Score (ℕᵒᵈ ×ₗ String ×ₗ String) where
  score := similarity scoring
  symm a b := by
    simp only [similarity, jaccard, Finset.inter_comm, Finset.union_comm, and_comm]
  rank := EntityRecord.rank

theorem summaryGuide_score : (summaryGuide scoring).score = similarity scoring := by
  rw [summaryGuide]

theorem similarity_comm (a b : EntityRecord) : similarity scoring a b = similarity scoring b a := by
  rw [← summaryGuide_score]
  exact (summaryGuide scoring).symm a b

theorem pairsOf_eq {α : Type} (l : List α) : pairsOf l = pairs l := by
  induction l with
  | nil => rfl
  | cons a l ih => rw [pairsOf, pairs, ih]

/-- The similarity of a pair. -/
def pairSimilarity (p : EntityRecord × EntityRecord) : Score := similarity scoring p.1 p.2

/-- The record of a fold. -/
def mergeOf (name : String) (f : EntityRecord × EntityRecord) : Merge Score where
  name
  survivorUuid := f.2.uuidText
  victimUuid := f.1.uuidText
  similarity := scoring.round4 (pairSimilarity scoring f)
  survivorSummaryLen := f.2.summaryLen
  victimSummaryLen := f.1.summaryLen

/-- What a fold adds to the plan. -/
def Clustering.fold (name : String) (c : Clustering Score) (f : EntityRecord × EntityRecord) :
    Clustering Score where
  victims := c.victims.upsert f.1.uuidText fun _ => f.2.uuidText
  plan := { c.plan with
    mergeableClusters := c.plan.mergeableClusters + 1
    merges := c.plan.merges ++ [mergeOf scoring name f] }

/-- The plan with another highest similarity. -/
def Clustering.observe (c : Clustering Score) (seen : Score) : Clustering Score :=
  { c with plan := { c.plan with maxObservedSimilarity := seen } }

theorem observe_observe (c : Clustering Score) (seen seen' : Score) :
    (c.observe seen).observe seen' = c.observe seen' := rfl

theorem observe_foldl (name : String) (c : Clustering Score) (seen : Score)
    (folds : List (EntityRecord × EntityRecord)) :
    folds.foldl (Clustering.fold scoring name) (c.observe seen) =
      (folds.foldl (Clustering.fold scoring name) c).observe seen := by
  induction folds generalizing c with
  | nil => rfl
  | cons f folds ih => exact ih (c.fold scoring name f)

section

variable [LinearOrder Score]

/-- The highest of the similarities of the pairs, and of what has been seen before. -/
def highest (seen : Score) (l : List EntityRecord) : Score :=
  ((pairs l).map (pairSimilarity scoring)).foldl max seen

variable {scoring}

theorem foldl_max_of_le {seen : Score} {scores : List Score} (h : ∀ s ∈ scores, s ≤ seen) :
    scores.foldl max seen = seen := by
  induction scores with
  | nil => rfl
  | cons s scores ih =>
    rw [List.foldl_cons, max_eq_left (h s List.mem_cons_self)]
    exact ih fun s' hs' => h s' (List.mem_cons_of_mem s hs')

theorem le_foldl_max {seen : Score} {scores : List Score} :
    seen ≤ scores.foldl max seen ∧ ∀ s ∈ scores, s ≤ scores.foldl max seen := by
  induction scores generalizing seen with
  | nil => exact ⟨le_rfl, nofun⟩
  | cons s scores ih =>
    obtain ⟨hseen, hscores⟩ := @ih (max seen s)
    refine ⟨(le_max_left _ _).trans hseen, fun s' hs' => ?_⟩
    rcases List.mem_cons.mp hs' with rfl | hs'
    · exact (le_max_right _ _).trans hseen
    · exact hscores s' hs'

/-- Fewer entities show nothing higher. -/
theorem highest_sublist (seen : Score) {l l' : List EntityRecord} (h : l'.Sublist l) :
    highest scoring (highest scoring seen l) l' = highest scoring seen l := by
  refine foldl_max_of_le fun s hs => ?_
  obtain ⟨⟨a, b⟩, hp, rfl⟩ := List.mem_map.mp hs
  exact le_foldl_max.2 _ (List.mem_map_of_mem (mem_pairs.mpr ((mem_pairs.mp hp).trans h)))

variable (scoring) in
/-- The scan over the pairs: the highest similarity, and the first of the best pairs. -/
theorem foldl_scorePair (threshold seen : Score) (best : Option (EntityRecord × EntityRecord))
    (ps : List (EntityRecord × EntityRecord)) :
    ps.foldl (scorePair scoring threshold)
        (seen, best.map fun p => (pairSimilarity scoring p, p)) =
      ((ps.map (pairSimilarity scoring)).foldl max seen,
        (ps.foldl (better (pairSimilarity scoring) threshold) best).map
          fun p => (pairSimilarity scoring p, p)) := by
  induction ps generalizing seen best with
  | nil => rfl
  | cons p ps ih =>
    have hturn : scorePair scoring threshold
          (seen, best.map fun p => (pairSimilarity scoring p, p)) p =
        (max seen (pairSimilarity scoring p),
          (better (pairSimilarity scoring) threshold best p).map
            fun p => (pairSimilarity scoring p, p)) := by
      refine Prod.ext (max_def_lt _ _).symm ?_
      have hall : (best.map fun p => (pairSimilarity scoring p, p)).all
            (fun b => b.1 < pairSimilarity scoring p) =
          best.all fun b => pairSimilarity scoring b < pairSimilarity scoring p := by
        cases best <;> rfl
      change (if threshold ≤ pairSimilarity scoring p ∧ Option.all
          (fun b : Score × EntityRecord × EntityRecord => b.1 < pairSimilarity scoring p) _ then
        some (pairSimilarity scoring p, p) else _) = _
      rw [hall, better]
      split_ifs <;> rfl
    rw [List.foldl_cons, List.map_cons, List.foldl_cons, List.foldl_cons, hturn, ih]

omit [LinearOrder Score] in
theorem pickSurvivor_eq (p : EntityRecord × EntityRecord) :
    pickSurvivor p.1 p.2 = ((summaryGuide scoring).fold p).swap := by
  have hbefore : p.1.before p.2 ↔
      (summaryGuide scoring).rank p.1 ≤ (summaryGuide scoring).rank p.2 := EntityRecord.before_iff
  rw [pickSurvivor, Guide.fold]
  by_cases h : p.1.before p.2
  · rw [if_pos h, if_pos (hbefore.mp h)]
    rfl
  · rw [if_neg h, if_neg fun hle => h (hbefore.mpr hle)]
    rfl

/-- The scan over the entities that are left finds what the guide picks. -/
theorem scan_eq (threshold seen : Score) (remaining : List EntityRecord) :
    (pairsOf remaining).foldl (scorePair scoring threshold) (seen, none) =
      (highest scoring seen remaining, ((summaryGuide scoring).pick threshold remaining).map
        fun p => (pairSimilarity scoring p, p)) := by
  have hscan := foldl_scorePair scoring threshold seen none (pairs remaining)
  rw [Option.map_none, ← pairsOf_eq] at hscan
  rw [hscan, pairsOf_eq]
  rfl

/-- A turn of the loop that finds no pair only notes the highest similarity. -/
theorem mergeCluster_of_none (name : String) {fuel : ℕ} {remaining : List EntityRecord}
    (htwo : ¬ remaining.length ≤ 1) (c : Clustering Score)
    (hpick : (summaryGuide scoring).pick c.plan.threshold remaining = none) :
    mergeCluster scoring name (fuel + 1) remaining c =
      c.observe (highest scoring c.plan.maxObservedSimilarity remaining) := by
  rw [mergeCluster, if_neg htwo]
  dsimp only
  rw [scan_eq, hpick]
  rfl

/-- A turn that finds one folds it. -/
theorem mergeCluster_of_pick (name : String) {fuel : ℕ} {remaining : List EntityRecord}
    (hnodup : (remaining.map EntityRecord.uuidText).Nodup) (htwo : ¬ remaining.length ≤ 1)
    (c : Clustering Score) {p : EntityRecord × EntityRecord}
    (hpick : (summaryGuide scoring).pick c.plan.threshold remaining = some p) :
    mergeCluster scoring name (fuel + 1) remaining c =
      mergeCluster scoring name fuel (remaining.filter (· ≠ ((summaryGuide scoring).fold p).1))
        ((c.fold scoring name ((summaryGuide scoring).fold p)).observe
          (highest scoring c.plan.maxObservedSimilarity remaining)) := by
  rw [mergeCluster, if_neg htwo]
  dsimp only
  rw [scan_eq, hpick]
  change (if (pickSurvivor p.1 p.2).1.uuidText = (pickSurvivor p.1 p.2).2.uuidText then _
    else mergeCluster scoring name fuel
      (remaining.filter fun n => n.uuidText ≠ (pickSurvivor p.1 p.2).2.uuidText) _) = _
  have hchooses := Guide.chooses (List.Nodup.of_map _ hnodup) hpick
  have hinj := List.inj_on_of_nodup_map hnodup
  have hsimilarity : pairSimilarity scoring p =
      pairSimilarity scoring ((summaryGuide scoring).fold p) := by
    rcases (summaryGuide scoring).fold_cases p with ⟨heq, -⟩ | ⟨heq, -⟩
    · rw [heq]
      exact similarity_comm scoring p.1 p.2
    · rw [heq]
  rw [pickSurvivor_eq]
  set f := (summaryGuide scoring).fold p
  have hne : f.swap.1.uuidText ≠ f.swap.2.uuidText :=
    fun heq => hchooses.ne (hinj hchooses.keeper hchooses.victim heq)
  have hrest : (remaining.filter fun n => n.uuidText ≠ f.swap.2.uuidText) =
      remaining.filter (· ≠ f.1) := by
    refine List.filter_congr fun n hn => ?_
    rw [decide_eq_decide]
    exact not_congr ⟨fun heq => hinj hn hchooses.victim heq, fun heq => heq ▸ rfl⟩
  rw [if_neg hne, hrest, hsimilarity]
  rfl

/-- **The loop of one name** folds its entities. -/
theorem mergeCluster_eq (name : String) {fuel : ℕ} {remaining : List EntityRecord}
    (hnodup : (remaining.map EntityRecord.uuidText).Nodup) (hfuel : remaining.length ≤ fuel)
    (c : Clustering Score) :
    mergeCluster scoring name fuel remaining c =
      (((summaryGuide scoring).run c.plan.threshold remaining).foldl
        (Clustering.fold scoring name) c).observe
          (highest scoring c.plan.maxObservedSimilarity remaining) := by
  induction fuel generalizing remaining c with
  | zero =>
    obtain rfl := List.length_eq_zero_iff.mp (Nat.le_zero.mp hfuel)
    rfl
  | succ fuel ih =>
    have hl : remaining.Nodup := List.Nodup.of_map _ hnodup
    by_cases hshort : remaining.length ≤ 1
    · rw [mergeCluster, if_pos hshort]
      rcases remaining with _ | ⟨a, _ | ⟨b, rest⟩⟩
      · rfl
      · rfl
      · simp at hshort
    · rcases hpick : (summaryGuide scoring).pick c.plan.threshold remaining with _ | p
      · rw [mergeCluster_of_none name hshort c hpick,
          (Guide.run_eq_nil hl).mpr ((Guide.pick_eq_none hl).mp hpick), List.foldl_nil]
      · rw [mergeCluster_of_pick name hnodup hshort c hpick, Guide.run_of_pick hl hpick]
        have hlt := Guide.length_filter_lt (Guide.chooses hl hpick).victim
        set f := (summaryGuide scoring).fold p
        -- what is left shows nothing higher
        have hseen : highest scoring (highest scoring c.plan.maxObservedSimilarity remaining)
            (remaining.filter (· ≠ f.1)) = highest scoring c.plan.maxObservedSimilarity remaining :=
          highest_sublist _ List.filter_sublist
        have hih := @ih (remaining.filter (· ≠ f.1))
          ((List.filter_sublist.map _).nodup hnodup) (by omega)
          ((c.fold scoring name f).observe (highest scoring c.plan.maxObservedSimilarity remaining))
        rw [observe_foldl, observe_observe] at hih
        rw [List.foldl_cons]
        exact hih.trans (congrArg _ hseen)

/-! ## The loop over the names -/

/-- `ent.get("name") or ""` -/
def EntityRecord.cluster (n : EntityRecord) : String := n.name.getD ""

/-- The entities of a name. -/
def clusterOf (entities : List EntityRecord) (name : String) : List EntityRecord :=
  entities.filter fun n => n.cluster = name

omit [LinearOrder Score] in
theorem mem_clusterOf_self {entities : List EntityRecord} {n : EntityRecord} (hn : n ∈ entities) :
    n ∈ clusterOf entities n.cluster :=
  List.mem_filter.mpr ⟨hn, decide_eq_true rfl⟩

variable (scoring) in
/-- The folds of a plan, name after name. -/
def planFolds (threshold : Score) (entities : List EntityRecord) :
    List (EntityRecord × EntityRecord) :=
  (byName entities).rows.flatMap fun row => (summaryGuide scoring).run threshold row.2

variable {threshold : Score} {entities : List EntityRecord}

omit [LinearOrder Score] in
theorem foldl_fold_plan (name : String) (c : Clustering Score)
    (folds : List (EntityRecord × EntityRecord)) :
    (folds.foldl (Clustering.fold scoring name) c).plan =
      { c.plan with
        mergeableClusters := c.plan.mergeableClusters + folds.length
        merges := c.plan.merges ++ folds.map (mergeOf scoring name) } := by
  induction folds generalizing c with
  | nil => simp
  | cons f folds ih =>
    rw [List.foldl_cons, ih, List.map_cons, List.length_cons]
    simp only [Clustering.fold, List.append_assoc, List.singleton_append]
    rw [Nat.add_assoc, Nat.add_comm 1]

theorem mem_byName {name : String} {group : List EntityRecord} :
    (name, group) ∈ (byName entities).rows ↔ group = clusterOf entities name ∧ group ≠ [] :=
  Table.mem_rows_grouped

/-- What the loop over the clusters makes of the plan. -/
structure Planned (scoring : Scoring Score) (threshold : Score)
    (rows : List (String × List EntityRecord)) (plan plan' : DedupPlan Score) : Prop where
  threshold_eq : plan'.threshold = threshold
  merges : plan'.merges = plan.merges ++ rows.flatMap fun row =>
    ((summaryGuide scoring).run threshold row.2).map (mergeOf scoring row.1)
  mergeable : plan'.mergeableClusters = plan.mergeableClusters +
    (rows.flatMap fun row => (summaryGuide scoring).run threshold row.2).length
  observed : plan'.maxObservedSimilarity =
    rows.foldl (fun seen row => highest scoring seen row.2) plan.maxObservedSimilarity

theorem Planned.cons {row : String × List EntityRecord} {rows : List (String × List EntityRecord)}
    {plan plan' plan'' : DedupPlan Score} (h : Planned scoring threshold [row] plan plan')
    (h' : Planned scoring threshold rows plan' plan'') :
    Planned scoring threshold (row :: rows) plan plan'' where
  threshold_eq := h'.threshold_eq
  merges := by
    rw [h'.merges, h.merges, List.flatMap_singleton, List.flatMap_cons, List.append_assoc]
  mergeable := by
    rw [h'.mergeable, h.mergeable, List.flatMap_singleton, List.flatMap_cons, List.length_append,
      Nat.add_assoc]
  observed := by
    rw [h'.observed, h.observed]
    rfl

variable (scoring) in
/-- One turn of the loop over the clusters. -/
theorem planned_turn {row : String × List EntityRecord}
    (hnodup : (row.2.map EntityRecord.uuidText).Nodup) {c : Clustering Score}
    (hc : c.plan.threshold = threshold) :
    Planned scoring threshold [row] c.plan
      (if row.2.length < 2 then c
      else mergeCluster scoring row.1 row.2.length row.2
        { c with plan := { c.plan with
            clustersScanned := c.plan.clustersScanned + 1
            duplicateNameNodes := c.plan.duplicateNameNodes + row.2.length } }).plan := by
  split
  · next hshort =>
    -- a name of one entity adds nothing
    have hnone : (summaryGuide scoring).run threshold row.2 = [] ∧
        highest scoring c.plan.maxObservedSimilarity row.2 = c.plan.maxObservedSimilarity := by
      match row.2, hshort with
      | [], _ => exact ⟨rfl, rfl⟩
      | [_], _ => exact ⟨rfl, rfl⟩
    refine ⟨hc, ?_, ?_, hnone.2.symm⟩
    · rw [List.flatMap_singleton, hnone.1, List.map_nil, List.append_nil]
    · rw [List.flatMap_singleton, hnone.1]
      rfl
  · rw [mergeCluster_eq row.1 hnodup le_rfl]
    simp only [Clustering.observe, foldl_fold_plan]
    subst hc
    exact ⟨rfl, by rw [List.flatMap_singleton], by rw [List.flatMap_singleton], rfl⟩

variable (scoring threshold) in
/-- **The loop over the clusters**, when no two entities have one uuid. -/
theorem planned_mergeClusters (hnodup : (entities.map EntityRecord.uuidText).Nodup) :
    Planned scoring threshold (byName entities).rows
      { threshold, maxObservedSimilarity := scoring.zero }
      (mergeClusters scoring threshold entities).plan := by
  have hgroup : ∀ row ∈ (byName entities).rows, (row.2.map EntityRecord.uuidText).Nodup := by
    intro row hrow
    rw [(mem_byName.mp hrow).1]
    exact (List.filter_sublist.map _).nodup hnodup
  suffices hloop : ∀ (rows : List (String × List EntityRecord)) (c : Clustering Score),
      (∀ row ∈ rows, (row.2.map EntityRecord.uuidText).Nodup) → c.plan.threshold = threshold →
      Planned scoring threshold rows c.plan
        (rows.foldl (fun c group =>
          if group.2.length < 2 then c
          else mergeCluster scoring group.1 group.2.length group.2
            { c with plan := { c.plan with
                clustersScanned := c.plan.clustersScanned + 1
                duplicateNameNodes := c.plan.duplicateNameNodes + group.2.length } }) c).plan from
    hloop _ ⟨Table.empty, { threshold, maxObservedSimilarity := scoring.zero }⟩ hgroup rfl
  intro rows
  induction rows with
  | nil => exact fun c _ hc => ⟨hc, by simp, by simp, rfl⟩
  | cons row rows ih =>
    intro c hrows hc
    have hturn := planned_turn scoring (hrows row List.mem_cons_self) hc
    rw [List.foldl_cons]
    exact hturn.cons
      (ih _ (fun r hr => hrows r (List.mem_cons_of_mem row hr)) hturn.threshold_eq)

/-! ## Roots -/

/-- The merges as folds of uuids. -/
def uuidFolds (merges : List (Merge Score)) : List (String × String) :=
  merges.map fun m => (m.victimUuid, m.survivorUuid)

omit [LinearOrder Score] in
/-- Along merges that follow one another, the root is where the folds lead. -/
theorem rootIn_eq {plan : DedupPlan Score} (h : ChainedMerges plan.merges) (uuid : String) :
    rootIn plan.redirect uuid = root (uuidFolds plan.merges) uuid := by
  have hvictim : ∀ {u}, u ∉ plan.victims → root (uuidFolds plan.merges) u = u := by
    intro u hu
    refine root_of_not_mem fun f hf heq => hu ?_
    obtain ⟨m, hm, rfl⟩ := List.mem_map.mp hf
    exact mem_victims.mpr ⟨m, hm, heq⟩
  -- a redirect does not change where the folds lead
  have hstep : ∀ v s, plan.redirect.get? v = some s →
      root (uuidFolds plan.merges) v = root (uuidFolds plan.merges) s := by
    intro v s hv
    obtain ⟨m, hm, rfl, rfl⟩ := of_get?_redirects hv
    obtain ⟨before, after, hsplit⟩ := List.append_of_mem hm
    have horder := hsplit ▸ h.order
    have hbefore := (List.pairwise_append.mp horder).2.2
    have hkeeps : ∀ u, (∀ m' ∈ before, u ≠ m'.victimUuid) → root (uuidFolds before) u = u := by
      intro u hu
      refine root_of_not_mem fun f hf heq => ?_
      obtain ⟨m', hm', rfl⟩ := List.mem_map.mp hf
      exact hu m' hm' heq.symm
    have hv' := hkeeps m.victimUuid fun m' hm' => (hbefore m' hm' m List.mem_cons_self).2
    have hs' := hkeeps m.survivorUuid fun m' hm' => (hbefore m' hm' m List.mem_cons_self).1
    have hfolds : uuidFolds plan.merges =
        uuidFolds before ++ (m.victimUuid, m.survivorUuid) :: uuidFolds after := by
      rw [hsplit, uuidFolds, List.map_append, List.map_cons]
      rfl
    rw [hfolds, root_append, root_append, hv', hs', root_cons, root_cons, if_pos rfl,
      if_neg (h.apart m hm)]
  have hroot : root (uuidFolds plan.merges) (rootIn plan.redirect uuid) =
      root (uuidFolds plan.merges) uuid :=
    rootIn_induct (P := fun u => root (uuidFolds plan.merges) u = root (uuidFolds plan.merges) uuid)
      (fun v s hv hu => (hstep v s hv).symm.trans hu) rfl
  rw [← hroot, hvictim (h.root_not_mem uuid)]

/-- The folds of the other names do not concern an entity. -/
theorem root_planFolds (hnodup : entities.Nodup) {n : EntityRecord} (hn : n ∈ entities) :
    root (planFolds scoring threshold entities) n =
      root ((summaryGuide scoring).run threshold (clusterOf entities n.cluster)) n := by
  have hin := mem_clusterOf_self hn
  have hrow : (n.cluster, clusterOf entities n.cluster) ∈ (byName entities).rows :=
    mem_byName.mpr ⟨rfl, List.ne_nil_of_mem hin⟩
  have hkeys := (byName entities).nodup
  obtain ⟨before, after, hsplit⟩ := List.append_of_mem hrow
  rw [hsplit, List.map_append, List.map_cons, List.nodup_append, List.nodup_cons] at hkeys
  -- an entity of this name is not in the folds of other rows
  have hother : ∀ rows : List (String × List EntityRecord),
      (∀ row ∈ rows, row ∈ (byName entities).rows ∧ row.1 ≠ n.cluster) → ∀ a : EntityRecord,
      a.cluster = n.cluster →
      root (rows.flatMap fun row => (summaryGuide scoring).run threshold row.2) a = a := by
    intro rows hrows a ha
    refine root_of_not_mem fun f hf heq => ?_
    obtain ⟨row, hrow, hf⟩ := List.mem_flatMap.mp hf
    obtain ⟨hrow, hne⟩ := hrows row hrow
    obtain ⟨hgroup, -⟩ := mem_byName.mp hrow
    rw [hgroup] at hf
    have hv := (Guide.of_mem_run (hnodup.filter _) hf).1
    rw [heq] at hv
    exact hne ((of_decide_eq_true (List.mem_filter.mp hv).2).symm.trans ha)
  have hroot := (Guide.root_run (summaryGuide scoring) threshold (hnodup.filter _) hin).1
  rw [planFolds, hsplit, List.flatMap_append, List.flatMap_cons, root_append, root_append,
    hother before _ n rfl, hother after]
  · refine fun row hr => ⟨hsplit ▸ by simp [hr], fun heq => hkeys.2.1.1 ?_⟩
    exact List.mem_map.mpr ⟨row, hr, heq⟩
  · exact of_decide_eq_true (List.mem_filter.mp hroot).2
  · refine fun row hr => ⟨hsplit ▸ by simp [hr], fun heq => ?_⟩
    exact hkeys.2.2 row.1 (List.mem_map_of_mem hr) n.cluster List.mem_cons_self heq

end

/-! ## Exact scores -/

/-- Scores as exact quotients, for summaries in lower case. -/
def exactScoring : Scoring ℚ where
  div m n := m / n
  round4 x := ((x * 10000 + 1 / 2).floor : ℚ) / 10000
  zero := 0
  one := 1
  lower := id
  py := default

end JanusGraph
