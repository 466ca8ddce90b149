import JanusGraph.Graph.Greedy

/-!
# What a plan achieves

`plan_dedup` for entities that their uuids tell apart. An entity comes to a root of its own
name, which `_pick_survivor` prefers to all that come to it; what remains has no two summaries
of one name that are alike enough, so a second plan is empty.
-/

namespace JanusGraph

open Folding

variable {Score : Type}

/-- The uuids tell the entities apart, as the redirects spell them and as `_pick_survivor`
compares them. -/
structure DistinctUuids (entities : List EntityRecord) : Prop where
  text : (entities.map EntityRecord.uuidText).Nodup
  key : (entities.map fun n => n.uuid.getD "").Nodup

/-- It is enough that each entity has one, and no two the same. -/
theorem DistinctUuids.of_some {entities : List EntityRecord}
    (hsome : ∀ n ∈ entities, n.uuid.isSome) (hnodup : (entities.map EntityRecord.uuid).Nodup) :
    DistinctUuids entities := by
  have hmap : ∀ default : String, (entities.map fun n => n.uuid.getD default).Nodup := by
    intro default
    refine List.Nodup.map_on (fun a ha b hb heq => ?_) (List.Nodup.of_map _ hnodup)
    obtain ⟨u, hu⟩ := Option.isSome_iff_exists.mp (hsome a ha)
    obtain ⟨v, hv⟩ := Option.isSome_iff_exists.mp (hsome b hb)
    refine List.inj_on_of_nodup_map hnodup ha hb ?_
    rw [hu, hv] at heq ⊢
    exact congrArg some heq
  exact ⟨hmap "None", hmap ""⟩

theorem DistinctUuids.nodup {entities : List EntityRecord} (h : DistinctUuids entities) :
    entities.Nodup :=
  List.Nodup.of_map _ h.text

theorem DistinctUuids.nodup_cluster {entities : List EntityRecord} (h : DistinctUuids entities)
    (name : String) : (clusterOf entities name).Nodup :=
  h.nodup.filter _

theorem DistinctUuids.sublist {entities entities' : List EntityRecord} (h : DistinctUuids entities)
    (hsub : entities'.Sublist entities) : DistinctUuids entities' :=
  ⟨(hsub.map _).nodup h.text, (hsub.map _).nodup h.key⟩

theorem DistinctUuids.perm {entities entities' : List EntityRecord} (h : DistinctUuids entities)
    (hperm : entities.Perm entities') : DistinctUuids entities' :=
  ⟨(hperm.map _).nodup_iff.mp h.text, (hperm.map _).nodup_iff.mp h.key⟩

/-- The entities that are no victims. -/
def DedupPlan.remaining (plan : DedupPlan Score) (entities : List EntityRecord) :
    List EntityRecord :=
  entities.filter fun n => n.uuidText ∉ plan.victims

section

variable [LinearOrder Score] (scoring : Scoring Score)

/-- What a plan for these entities achieves. -/
structure DedupPlan.Correct (plan : DedupPlan Score) (entities : List EntityRecord)
    (threshold : Score) : Prop where
  /-- no chain of redirects comes back -/
  acyclic : ∀ u, ¬ Relation.TransGen (fun v s => plan.redirect.get? v = some s) u u
  /-- a victim is an entity -/
  known : ∀ v ∈ plan.victims, ∃ n ∈ entities, n.uuidText = v
  /-- its root is an entity that stays, and has its name -/
  root : ∀ n ∈ entities, n.uuidText ∈ plan.victims → ∃ r ∈ entities,
    r.uuidText = rootIn plan.redirect n.uuidText ∧ r.uuidText ∉ plan.victims ∧
      r.cluster = n.cluster
  /-- `_pick_survivor` prefers a root to all that come to it -/
  least : ∀ r ∈ entities, ∀ n ∈ entities, rootIn plan.redirect n.uuidText = r.uuidText →
    r.before n
  /-- the two of a merge have alike summaries -/
  similar : ∀ m ∈ plan.merges, ∃ s ∈ entities, ∃ v ∈ entities, s.uuidText = m.survivorUuid ∧
    v.uuidText = m.victimUuid ∧ threshold ≤ similarity scoring s v
  /-- no two of a name that remain have -/
  apart : ∀ a ∈ plan.remaining entities, ∀ b ∈ plan.remaining entities, a ≠ b →
    a.cluster = b.cluster → similarity scoring a b < threshold
  /-- planning again gives no merges -/
  replan : ∀ mentions relations,
    (planDedup scoring (plan.remaining entities) mentions relations threshold).merges = []
  deleted : plan.nodesToDelete = plan.merges.length

end

/-! ## The folds of a plan -/

section

variable [LinearOrder Score] {scoring : Scoring Score} {entities : List EntityRecord}
  {mentions : List MentionRecord} {relations : List RelationRecord} {threshold : Score}

theorem mem_planFolds {f : EntityRecord × EntityRecord} :
    f ∈ planFolds scoring threshold entities ↔
      ∃ name, f ∈ (summaryGuide scoring).run threshold (clusterOf entities name) := by
  rw [planFolds, List.mem_flatMap]
  constructor
  · rintro ⟨row, hrow, hf⟩
    obtain ⟨hgroup, -⟩ := mem_byName.mp hrow
    exact ⟨row.1, hgroup ▸ hf⟩
  · rintro ⟨name, hf⟩
    refine ⟨(name, clusterOf entities name), mem_byName.mpr ⟨rfl, fun hnil => ?_⟩, hf⟩
    rw [hnil] at hf
    cases hf

variable (h : DistinctUuids entities)

include h

/-- What folds has one name, and resembles what it folds into. -/
theorem of_mem_planFolds {f : EntityRecord × EntityRecord}
    (hf : f ∈ planFolds scoring threshold entities) : f.1 ∈ entities ∧ f.2 ∈ entities ∧
      threshold ≤ similarity scoring f.2 f.1 := by
  obtain ⟨name, hf⟩ := mem_planFolds.mp hf
  obtain ⟨hv, hk, -, -, hreach⟩ := Guide.of_mem_run (h.nodup_cluster _) hf
  exact ⟨List.mem_of_mem_filter hv, List.mem_of_mem_filter hk, hreach⟩

theorem uuidFolds_planDedup :
    uuidFolds (planDedup scoring entities mentions relations threshold).merges =
      (planFolds scoring threshold entities).map
        (Prod.map EntityRecord.uuidText EntityRecord.uuidText) := by
  have hmerges := (planned_mergeClusters scoring threshold h.text).merges
  change uuidFolds (mergeClusters scoring threshold entities).plan.merges = _
  rw [hmerges, List.nil_append, uuidFolds, planFolds, List.map_flatMap, List.map_flatMap]
  simp only [List.map_map]
  rfl

variable (scoring threshold) in
theorem sound_planDedup :
    (mergeClusters scoring threshold entities).Sound entities [] :=
  sound_mergeClusters scoring threshold fun _ hn _ hn' heq =>
    List.inj_on_of_nodup_map h.text hn hn' heq

/-- A victim is an entity. -/
theorem known_victims {v : String}
    (hv : v ∈ (planDedup scoring entities mentions relations threshold).victims) :
    ∃ n ∈ entities, n.uuidText = v := by
  obtain ⟨m, hm, rfl⟩ := mem_victims.mp hv
  exact ((sound_planDedup scoring threshold h).known m hm).1

/-- The victims are what folds. -/
theorem mem_victims_planDedup {n : EntityRecord} (hn : n ∈ entities) :
    n.uuidText ∈ (planDedup scoring entities mentions relations threshold).victims ↔
      ¬ (summaryGuide scoring).Stays threshold (clusterOf entities n.cluster) n := by
  have hfolds : n.uuidText ∈ (planDedup scoring entities mentions relations threshold).victims ↔
      ∃ f ∈ planFolds scoring threshold entities, f.1 = n := by
    have hmem : n.uuidText ∈ (planDedup scoring entities mentions relations threshold).victims ↔
        n.uuidText ∈ (uuidFolds
          (planDedup scoring entities mentions relations threshold).merges).map Prod.fst := by
      rw [mem_victims, uuidFolds, List.map_map, List.mem_map]
      rfl
    rw [hmem, uuidFolds_planDedup h, List.map_map, List.mem_map]
    refine exists_congr fun f => and_congr_right fun hf => ?_
    refine ⟨fun heq => ?_, fun heq => heq ▸ rfl⟩
    exact List.inj_on_of_nodup_map h.text (of_mem_planFolds h hf).1 hn heq
  rw [hfolds, Guide.Stays]
  push Not
  refine exists_congr fun f => and_congr_left fun heq => ?_
  rw [mem_planFolds]
  refine ⟨?_, fun hf => ⟨_, hf⟩⟩
  rintro ⟨name, hf⟩
  have hname := (Guide.of_mem_run (h.nodup_cluster _) hf).1
  rw [heq] at hname
  rwa [of_decide_eq_true (List.mem_filter.mp hname).2]

/-- The root of an entity is where the folds of its name lead. -/
theorem rootIn_planDedup {n : EntityRecord} (hn : n ∈ entities) :
    rootIn (planDedup scoring entities mentions relations threshold).redirect n.uuidText =
      (root ((summaryGuide scoring).run threshold (clusterOf entities n.cluster)) n).uuidText := by
  have hchained : ChainedMerges (planDedup scoring entities mentions relations threshold).merges :=
    (sound_planDedup scoring threshold h).chained
  have hin : ∀ f ∈ planFolds scoring threshold entities, f.1 ∈ entities ∧ f.2 ∈ entities :=
    fun f hf => ⟨(of_mem_planFolds h hf).1, (of_mem_planFolds h hf).2.1⟩
  rw [rootIn_eq hchained, uuidFolds_planDedup h,
    root_map (fun a ha b hb heq => List.inj_on_of_nodup_map h.text ha hb heq) hin hn,
    root_planFolds h.nodup hn]

variable (scoring mentions relations threshold) in
/-- The root as an entity: it stays, has the name, and `_pick_survivor` prefers it. -/
theorem exists_root {n : EntityRecord} (hn : n ∈ entities) : ∃ r ∈ entities,
    r.uuidText = rootIn (planDedup scoring entities mentions relations threshold).redirect
      n.uuidText ∧
    r.uuidText ∉ (planDedup scoring entities mentions relations threshold).victims ∧
    r.cluster = n.cluster ∧ r.before n := by
  obtain ⟨hin, hstays, hrank⟩ := Guide.root_run (summaryGuide scoring) threshold
    (h.nodup_cluster _) (mem_clusterOf_self hn)
  obtain ⟨hr, hname⟩ := List.mem_filter.mp hin
  rw [decide_eq_true_eq] at hname
  refine ⟨_, hr, (rootIn_planDedup h hn).symm, ?_, hname, EntityRecord.before_iff.mpr hrank⟩
  rw [mem_victims_planDedup h hr, not_not, hname]
  exact hstays

/-- No two entities of one name that remain resemble each other. -/
theorem apart_of_remaining {a b : EntityRecord}
    (ha : a ∈ (planDedup scoring entities mentions relations threshold).remaining entities)
    (hb : b ∈ (planDedup scoring entities mentions relations threshold).remaining entities)
    (hne : a ≠ b) (hname : a.cluster = b.cluster) : similarity scoring a b < threshold := by
  obtain ⟨ha, hstaysa⟩ := List.mem_filter.mp ha
  obtain ⟨hb, hstaysb⟩ := List.mem_filter.mp hb
  rw [decide_eq_true_eq, mem_victims_planDedup h ha, not_not] at hstaysa
  rw [decide_eq_true_eq, mem_victims_planDedup h hb, not_not, ← hname] at hstaysb
  have hapart := Guide.apart_of_run (h.nodup_cluster _) (mem_clusterOf_self ha)
    (hname ▸ mem_clusterOf_self hb) hne hstaysa hstaysb
  rwa [summaryGuide_score] at hapart

/-- Where no two summaries of one name are alike enough, a plan is empty. -/
theorem merges_eq_nil (hapart : ∀ a ∈ entities, ∀ b ∈ entities, a ≠ b → a.cluster = b.cluster →
    similarity scoring a b < threshold) :
    (planDedup scoring entities mentions relations threshold).merges = [] := by
  have hnone : planFolds scoring threshold entities = [] := by
    refine List.flatMap_eq_nil_iff.mpr fun row hrow => ?_
    rw [(mem_byName.mp hrow).1]
    refine (Guide.run_eq_nil (h.nodup_cluster _)).mpr fun a ha b hb hne => ?_
    obtain ⟨ha, hname⟩ := List.mem_filter.mp ha
    obtain ⟨hb, hname'⟩ := List.mem_filter.mp hb
    rw [summaryGuide_score]
    exact hapart a ha b hb hne
      ((of_decide_eq_true hname).trans (of_decide_eq_true hname').symm)
  refine List.map_eq_nil_iff.mp ((uuidFolds_planDedup h).trans ?_)
  rw [hnone, List.map_nil]

/-- Each merge has a victim of its own. -/
theorem nodesToDelete_eq :
    (planDedup scoring entities mentions relations threshold).nodesToDelete =
      (planDedup scoring entities mentions relations threshold).merges.length := by
  have hsound := sound_planDedup scoring threshold h
  set plan := planDedup scoring entities mentions relations threshold
  have hvictims : plan.nodesToDelete = plan.victims.length := by
    change (mergeClusters scoring threshold entities).victims.rows.length = _
    rw [hsound.victims, DedupPlan.victims, List.length_map]
    rfl
  have hnodup : (plan.merges.map Merge.victimUuid).Nodup := by
    rw [List.Nodup, List.pairwise_map]
    exact hsound.chained.order.imp fun hab => hab.2.symm
  have hperm : plan.victims.Perm (plan.merges.map Merge.victimUuid) := by
    refine (List.perm_ext_iff_of_nodup plan.redirect.nodup hnodup).mpr fun v => ?_
    exact mem_victims.trans List.mem_map.symm
  rw [hvictims, hperm.length_eq, List.length_map]

/-- **A plan is correct.** -/
theorem planDedup_correct :
    (planDedup scoring entities mentions relations threshold).Correct scoring entities
      threshold := by
  have hchained : ChainedMerges (planDedup scoring entities mentions relations threshold).merges :=
    (sound_planDedup scoring threshold h).chained
  refine ⟨fun u hcycle => ?_, fun v hv => known_victims h hv, fun n hn hv => ?_, fun r hr n hn hroot => ?_,
    fun m hm => ?_, fun a ha b hb hne hname => ?_, fun mentions' relations' => ?_,
    nodesToDelete_eq h⟩
  · -- along the redirects the merges come one after another
    have hclimbs := Relation.TransGen.lift (p := (· < ·)) _ hchained.climb u u hcycle
    rw [Relation.transGen_eq_self] at hclimbs
    exact lt_irrefl _ hclimbs
  · obtain ⟨r, hr, huuid, hstays, hname, -⟩ := exists_root scoring mentions relations threshold h hn
    exact ⟨r, hr, huuid, hstays, hname⟩
  · obtain ⟨r', hr', huuid, -, -, hbefore⟩ := exists_root scoring mentions relations threshold h hn
    obtain rfl : r' = r := List.inj_on_of_nodup_map h.text hr' hr (huuid.trans hroot)
    exact hbefore
  · have hfold : (m.victimUuid, m.survivorUuid) ∈
        uuidFolds (planDedup scoring entities mentions relations threshold).merges :=
      List.mem_map_of_mem hm
    rw [uuidFolds_planDedup h] at hfold
    obtain ⟨f, hf, heq⟩ := List.mem_map.mp hfold
    obtain ⟨hv, hs, hreach⟩ := of_mem_planFolds h hf
    obtain ⟨hvictim, hsurvivor⟩ := Prod.mk.inj heq
    exact ⟨f.2, hs, f.1, hv, hsurvivor, hvictim, hreach⟩
  · exact apart_of_remaining h ha hb hne hname
  · exact merges_eq_nil (h.sublist List.filter_sublist) fun a ha b hb hne hname =>
      apart_of_remaining h ha hb hne hname

end

/-- Of three entities of one name two fold into the third. -/
def threeEntities : List EntityRecord :=
  [⟨some "a", some "n", some "x y z x y z", some "t"⟩,
    ⟨some "b", some "n", some "x y x y x", some "t"⟩, ⟨some "d", some "n", some "x y w", some "t"⟩]

theorem planDedup_threeEntities_correct : (planDedup exactScoring threeEntities [] []
    (3 / 5)).Correct exactScoring threeEntities (3 / 5) :=
  planDedup_correct (DistinctUuids.of_some (by decide) (by decide))

end JanusGraph
