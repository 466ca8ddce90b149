import JanusGraph.Graph.Moved

/-!
# Plan and merge agree

Whether the graph after `apply_plan` is the image of the one before under the roots of the
plan, with the losses that `plan_dedup` has counted. It is where each edge at a victim is
one that is moved, no `MENTIONS` is to be dropped, the planner counts as many of the
`RELATES_TO` too much as it leaves out, and no duplicates lie aside. The planner takes the
ends of a `RELATES_TO` from its properties, and the merge from the nodes it joins: what that
makes the planner count too much, or leave out, is part of the balance.
-/

namespace JanusGraph

variable {Score : Type} {plan : DedupPlan Score} {g g' : Graph} {py : Builtins}

/-- The merge has made of the graph what the plan says. -/
structure Graph.Agrees (g : Graph) (plan : DedupPlan Score) (g' : Graph) : Prop where
  /-- the victims are gone, and the other nodes are as they were -/
  nodes : ∀ i, g'.nodes.get? i = (g.nodes.get? i).filter fun n => !plan.isVictim n
  /-- the edges are the image of those before, without what folds -/
  mentioned : ∀ i uuid, g'.Mentions i uuid ↔
    ∃ v, g.Mentions i v ∧ rootIn plan.redirect v = uuid
  related : ∀ src dst fact, g'.Relates src dst fact ↔
    ∃ u v, g.Relates u v fact ∧ rootIn plan.redirect u = src ∧ rootIn plan.redirect v = dst ∧
      (src = dst → u = src ∧ v = dst)
  /-- as many are lost as the plan says -/
  mentions : g.mentions.length = g'.mentions.length + plan.mentionsToDrop
  relations : g.relations.length = g'.relations.length + plan.totalRelationsRemoved
  /-- those aside are unchanged -/
  asideMentions : (g'.mentions.filter fun e => g.aside plan e.src e.dst).Perm
    (g.mentions.filter fun e => g.aside plan e.src e.dst)
  asideRelations : (g'.relations.filter fun e => g.aside plan e.src e.dst).Perm
    (g.relations.filter fun e => g.aside plan e.src e.dst)
  asideOthers : (g'.others.filter fun e => g.aside plan e.src e.dst).Perm
    (g.others.filter fun e => g.aside plan e.src e.dst)

/-- Plan and merge agree about the graph. -/
structure Graph.Agreeable (g : Graph) (py : Builtins) (plan : DedupPlan Score) : Prop where
  /-- the edges at a victim are `MENTIONS` from episodes with a uuid, and `RELATES_TO` of
  entities -/
  mentions : ∀ e ∈ g.mentions, g.victimAt plan e.src = true ∨ g.victimAt plan e.dst = true →
    ∃ row, g.mentionRow e = some row ∧ row.resolve.isSome
  relations : ∀ e ∈ g.relations, g.victimAt plan e.src = true ∨ g.victimAt plan e.dst = true →
    (g.relationRow e).isSome
  others : ∀ e ∈ g.others, g.victimAt plan e.src = false ∧ g.victimAt plan e.dst = false
  /-- no `MENTIONS` that is redirected meets another one -/
  apart : g.allMentions.Pairwise fun a b =>
    mentKey plan.roots a.record = mentKey plan.roots b.record →
      mentTouched plan.roots a.record = false ∧ mentTouched plan.roots b.record = false
  /-- and its source is the one episode with its uuid -/
  sources : ∀ row ∈ g.movedRows plan, (g.withUuid .episodic (row.srcUuid.getD "")).length = 1
  /-- the duplicates from before the merge are as many as the edges that are counted twice, and
  those that are counted because of the ends they have stored -/
  balance : (g.stale py plan.roots : ℤ) =
    g.parallelLoops plan.roots + g.blurred py plan.roots + g.misread py plan.roots
  /-- none of them lies aside -/
  aside : ((g.relations.filter fun e => g.aside plan e.src e.dst).filterMap g.relationGroup).Nodup

/-! ## Nodes -/

theorem Graph.detached_victims (plan : DedupPlan Score) (g : Graph) (i : ℕ) (n : Node) :
    g.detached plan.victims i n = true ↔ plan.isVictim n = true ∧
      (∀ e ∈ g.mentions, e.src ≠ i ∧ e.dst ≠ i) ∧ (∀ e ∈ g.relations, e.src ≠ i ∧ e.dst ≠ i) ∧
      ∀ e ∈ g.others, e.src ≠ i ∧ e.dst ≠ i := by
  simp only [detached, DedupPlan.isVictim, Bool.decide_and, Bool.and_eq_true, decide_eq_true_eq,
    List.all_eq_true, and_assoc]

/-- The victims go exactly if no edge is left at one. -/
theorem Graph.MovedTo.nodes_iff (hmoved : g.MovedTo py plan g') :
    (∀ i, (g'.removeNodes (g'.detached plan.victims)).nodes.get? i =
        (g.nodes.get? i).filter fun n => !plan.isVictim n) ↔
      (∀ e ∈ g'.mentions, g.victimAt plan e.src = false ∧ g.victimAt plan e.dst = false) ∧
      (∀ e ∈ g'.relations, g.victimAt plan e.src = false ∧ g.victimAt plan e.dst = false) ∧
      ∀ e ∈ g'.others, g.victimAt plan e.src = false ∧ g.victimAt plan e.dst = false := by
  have hget : ∀ i, (g'.removeNodes (g'.detached plan.victims)).nodes.get? i =
      (g.nodes.get? i).filter fun n => !g'.detached plan.victims i n := by
    intro i
    rw [removeNodes, Table.get?_filter, hmoved.nodes]
  simp only [hget]
  refine ⟨?_, ?_⟩
  · intro hnodes
    have hgone : ∀ i, g.victimAt plan i = true →
        (∀ e ∈ g'.mentions, e.src ≠ i ∧ e.dst ≠ i) ∧ (∀ e ∈ g'.relations, e.src ≠ i ∧ e.dst ≠ i) ∧
          ∀ e ∈ g'.others, e.src ≠ i ∧ e.dst ≠ i := by
      intro i hi
      obtain ⟨n, hn, hvictim⟩ := (Option.any_eq_true _ _).mp hi
      have heq := hnodes i
      rw [hn, Option.filter_some, Option.filter_some, hvictim] at heq
      refine ((detached_victims plan g' i n).mp ?_).2
      by_contra hnot
      simp [hnot] at heq
    refine ⟨fun e he => ⟨?_, ?_⟩, fun e he => ⟨?_, ?_⟩, fun e he => ⟨?_, ?_⟩⟩ <;>
      rw [← Bool.not_eq_true] <;> intro hvictim
    · exact ((hgone _ hvictim).1 e he).1 rfl
    · exact ((hgone _ hvictim).1 e he).2 rfl
    · exact ((hgone _ hvictim).2.1 e he).1 rfl
    · exact ((hgone _ hvictim).2.1 e he).2 rfl
    · exact ((hgone _ hvictim).2.2 e he).1 rfl
    · exact ((hgone _ hvictim).2.2 e he).2 rfl
  · rintro ⟨hmentions, hrelations, hothers⟩ i
    rcases hn : g.nodes.get? i with _ | n
    · rfl
    have hsame : g'.detached plan.victims i n = plan.isVictim n := by
      rw [Bool.eq_iff_iff, detached_victims]
      refine ⟨And.left, fun hvictim => ⟨hvictim, ?_⟩⟩
      have hat : g.victimAt plan i = true := by rwa [victimAt, hn, Option.any_some]
      have hne : ∀ j, g.victimAt plan j = false → j ≠ i := by
        rintro j hj rfl
        rw [hat] at hj
        cases hj
      exact ⟨fun e he => (hmentions e he).imp (hne _) (hne _),
        fun e he => (hrelations e he).imp (hne _) (hne _),
        fun e he => (hothers e he).imp (hne _) (hne _)⟩
    rw [Option.filter_some, Option.filter_some, hsame]

/-- At a victim, an edge is moved exactly if it comes from an episode with a uuid. -/
theorem Graph.moves_iff {e : Mention}
    (hvictim : g.victimAt plan e.src = true ∨ g.victimAt plan e.dst = true) :
    g.moves plan e = true ↔ ∃ row, g.mentionRow e = some row ∧ row.resolve.isSome := by
  simp only [moves, Option.any_eq_true, Bool.and_eq_true]
  refine exists_congr fun row => and_congr_right fun hrow => ?_
  refine and_iff_right_of_imp fun hresolved => ?_
  obtain ⟨⟨s, hs, hsrc⟩, ⟨t, ht, hdst⟩, -⟩ := of_mentionRow hrow
  obtain ⟨u, hu⟩ := exists_srcUuid hresolved
  have hsource := not_victimAt_episodic plan
    (mem_withUuid.mpr ⟨s, hs, hsrc.symm.trans hu⟩)
  rw [hsource, Bool.false_eq_true, false_or, victimAt_iff] at hvictim
  obtain ⟨v, hv, htarget⟩ := hvictim
  obtain ⟨m, hm, huuid⟩ := mem_withUuid.mp htarget
  obtain rfl := Option.some.inj (ht.symm.trans hm)
  exact decide_eq_true (List.mem_map.mpr ⟨v, hv, (hdst.trans huuid).symm⟩)

/-! ## The deletion of nodes changes no edge -/

theorem Graph.mem_withUuid_removeNodes {p : ℕ → Node → Bool} {label : NodeLabel} {uuid : String}
    {i : ℕ} : i ∈ (g.removeNodes p).withUuid label uuid ↔
      i ∈ g.withUuid label uuid ∧ g.stays p i = true := by
  rw [mem_withUuid, mem_withUuid]
  simp only [labelled_removeNodes, stays]
  refine ⟨?_, ?_⟩
  · rintro ⟨n, hn, huuid⟩
    obtain ⟨hn, hp⟩ := Option.filter_eq_some_iff.mp hn
    refine ⟨⟨n, hn, huuid⟩, ?_⟩
    rw [(labelled_eq_some.mp hn).1, Option.any_some]
    exact hp
  · rintro ⟨⟨n, hn, huuid⟩, hp⟩
    rw [(labelled_eq_some.mp hn).1, Option.any_some] at hp
    exact ⟨n, Option.filter_eq_some_iff.mpr ⟨hn, hp⟩, huuid⟩

theorem Graph.mentions_removeDetached_iff (g : Graph) (victims : List String) {i : ℕ}
    {uuid : String} :
    (g.removeNodes (g.detached victims)).Mentions i uuid ↔ g.Mentions i uuid := by
  simp only [Mentions, mentions_removeDetached, mem_withUuid_removeNodes]
  refine exists_congr fun e => and_congr_right fun he => and_congr_right fun _ => ?_
  exact and_iff_left (g.stays_detached victims (g.attached.1 e he).2 (.inl ⟨e, he, .inr rfl⟩))

theorem Graph.relates_removeDetached_iff (g : Graph) (victims : List String) {src dst : String}
    {fact : Value} :
    (g.removeNodes (g.detached victims)).Relates src dst fact ↔ g.Relates src dst fact := by
  simp only [Relates, relations_removeDetached, mem_withUuid_removeNodes]
  refine exists_congr fun e => and_congr_right fun he => ?_
  have hsrc := g.stays_detached victims (g.attached.2.1 e he).1 (.inr (.inl ⟨e, he, .inl rfl⟩))
  have hdst := g.stays_detached victims (g.attached.2.1 e he).2 (.inr (.inl ⟨e, he, .inr rfl⟩))
  rw [and_iff_left hsrc, and_iff_left hdst]

/-! ## Agreement -/

section

variable [LinearOrder Score] (h : g.Identified) (scoring : Scoring Score)
  (snap : g.Snapshot scoring.py) (threshold : Score)

include h

/-- Without merges the graph stays as it is, and nothing is counted. -/
theorem Graph.Snapshot.agrees_self (hmerges : (snap.plan scoring threshold).merges = []) :
    g.Agrees (snap.plan scoring threshold) g := by
  have hvictims : (snap.plan scoring threshold).victims = [] := by
    rw [DedupPlan.victims, DedupPlan.redirect, hmerges]
    rfl
  have hroot : ∀ uuid, rootIn (snap.plan scoring threshold).redirect uuid = uuid := fun uuid =>
    rootIn_of_not_mem (by simp [hvictims])
  have hredirected : ∀ uuid, isRedirected (snap.plan scoring threshold).roots uuid = false := by
    intro uuid
    rw [DedupPlan.roots, DedupPlan.redirect, hmerges]
    rfl
  refine ⟨fun i => ?_, fun i uuid => ?_, fun src dst fact => ?_, ?_, ?_, .refl _, .refl _, .refl _⟩
  · rcases g.nodes.get? i with _ | n
    · rfl
    · simp [DedupPlan.isVictim, hvictims, Option.filter_some]
  · simp [hroot]
  · simp only [hroot]
    refine ⟨?_, ?_⟩
    · exact fun hrelates => ⟨src, dst, hrelates, rfl, rfl, fun _ => ⟨rfl, rfl⟩⟩
    · rintro ⟨u, v, hrelates, rfl, rfl, -⟩
      exact hrelates
  · rw [(snap.mentionsToDrop_eq_zero h scoring threshold).mpr (List.pairwise_of_forall
      fun _ _ _ => ⟨hredirected _, hredirected _⟩), Nat.add_zero]
  · have htouched : ∀ rel, relTouched (snap.plan scoring threshold).roots rel = false := by
      intro rel
      rw [relTouched, hredirected, hredirected]
      rfl
    have hcollisions : collisions (g.storedRelations scoring.py)
        (relKey (snap.plan scoring threshold).roots scoring.py)
        (relTouched (snap.plan scoring threshold).roots) = 0 :=
      collisions_eq_zero.mpr (List.pairwise_of_forall fun _ _ _ => ⟨htouched _, htouched _⟩)
    rw [snap.removed_eq h, charge, hcollisions]
    simp [htouched]

end

/-! ## Two entities of one name -/

/-- Scores that do not tell pairs apart. -/
def evenScores : Scoring Unit := ⟨fun _ _ => (), id, (), (), id, default⟩

/-- Two entities of one name, an episode and two other entities. -/
def namesakes : Table ℕ Node :=
  ⟨[(0, ⟨.entity, some "v", some "n", none, none, none, none⟩),
    (1, ⟨.entity, some "s", some "n", none, none, none, none⟩),
    (2, ⟨.episodic, some "e", none, none, none, none, none⟩),
    (3, ⟨.entity, some "a", some "a", none, none, none, none⟩),
    (4, ⟨.entity, some "b", some "b", none, none, none, none⟩)], by decide⟩

/-- The properties of a `RELATES_TO` that has stored these ends, with the fact `f`. -/
def relationProps (uuid source target : String) : Table String Value :=
  Graph.storedProps [("uuid", .str uuid), ("source_node_uuid", .str source),
    ("target_node_uuid", .str target), ("fact", .str "f")]

/-- The first of them is mentioned, and related to another entity. -/
def oneMentioned : Graph where
  nodes := namesakes
  mentions := [⟨2, 0, "m", none, none⟩]
  relations := [⟨0, 3, relationProps "r" "v" "a"⟩]
  others := []
  attached := by decide

/-- Both are mentioned, and two other entities are related twice by one fact. -/
def bothMentioned : Graph where
  nodes := namesakes
  mentions := [⟨2, 0, "m", none, none⟩, ⟨2, 1, "m'", none, none⟩]
  relations := [⟨3, 4, relationProps "r" "a" "b"⟩, ⟨3, 4, relationProps "r'" "a" "b"⟩]
  others := []
  attached := by decide

/-- They are related, by an edge that has stored the ends of another one. -/
def strayed : Graph where
  nodes := namesakes
  mentions := []
  relations := [⟨0, 1, relationProps "r" "a" "b"⟩]
  others := []
  attached := by decide

/-- The merge drops this edge as a loop, and the planner has not counted it. -/
example : strayed.misread default ((strayed.snapshot default).plan evenScores ()).roots = -1 := rfl

theorem Graph.identified_of_namesakes (hnodes : g.nodes = namesakes)
    (hmentions : (g.mentions.map Mention.uuid).Nodup)
    (hrelations : (g.relations.map fun e => e.prop "uuid").Nodup)
    (huuids : ∀ e ∈ g.relations, e.prop "uuid" ≠ .null) : g.Identified where
  named hi := by
    obtain ⟨hn, hlabel⟩ := labelled_eq_some.mp hi
    rw [hnodes] at hn
    have hall : ∀ r ∈ namesakes.rows, r.2.uuid.isSome := by decide
    exact hall _ (Table.mem_rows.mpr hn)
  unique hi hj hu hu' := by
    obtain ⟨hn, -⟩ := labelled_eq_some.mp hi
    obtain ⟨hm, -⟩ := labelled_eq_some.mp hj
    rw [hnodes] at hn hm
    have hall : ∀ r ∈ namesakes.rows, ∀ r' ∈ namesakes.rows, r.2.uuid = r'.2.uuid → r.1 = r'.1 := by
      decide
    exact hall _ (Table.mem_rows.mpr hn) _ (Table.mem_rows.mpr hm) (hu.trans hu'.symm)
  mentions := hmentions
  relations := hrelations
  uuids := huuids

end JanusGraph
