import JanusGraph.Graph.FoldCorrect
import JanusGraph.Graph.Agree
import JanusGraph.Graph.PlanCorrect
import JanusGraph.Graph.PlanExact

/-!
# Planning again

What the two planners find among the nodes that a first plan has left, and what the first
merge leaves for the fold that comes after it. Episodes need no more than a uuid each, and
two contents may have one digest.
-/

namespace JanusGraph

/-! ## Episodes -/

section

variable {sha1 : String → String} {episodics episodics' : List Node}

/-- An episode has its own key. -/
theorem mem_own_group (sha1 : String → String) {n : Node} (hn : n ∈ episodics) :
    n ∈ episodics.filter fun m => m.planKey sha1 = n.planKey sha1 :=
  List.mem_filter.mpr ⟨hn, decide_eq_true rfl⟩

/-- Of the episodes with one key all but the keeper are victims. -/
theorem mem_victims_of_group {n k : Node} (hn : n ∈ episodics)
    (hpick : pickEpisodicSurvivor (episodics.filter fun m => m.planKey sha1 = n.planKey sha1) =
      some k)
    (hpresent : n.uuidText ≠ "") (hne : n.uuidText ≠ k.uuidText) :
    n.uuidText ∈ victimsOf (planEpisodicExactDups sha1 episodics) := by
  have hin : n ∈ episodics.filter fun m => m.planKey sha1 = n.planKey sha1 :=
    mem_own_group sha1 hn
  have hk := mem_of_pickEpisodicSurvivor hpick
  have hrow : (n.planKey sha1, episodics.filter fun m => m.planKey sha1 = n.planKey sha1) ∈
      (byKey sha1 episodics).rows := mem_byKey.mpr ⟨rfl, List.ne_nil_of_mem hin⟩
  have hlen : ¬ (episodics.filter fun m => m.planKey sha1 = n.planKey sha1).length < 2 := by
    intro hlt
    obtain ⟨only, honly⟩ := List.length_eq_one_iff.mp
      ((Nat.le_of_lt_succ hlt).antisymm (List.length_pos_of_mem hin))
    rw [honly] at hin hk
    exact hne (by rw [List.mem_singleton.mp hin, List.mem_singleton.mp hk])
  have hmerge : episodicMergeOf n k ∈ mergesOf (n.planKey sha1).1
      (episodics.filter fun m => m.planKey sha1 = n.planKey sha1) := by
    rw [mergesOf, if_neg hlen, hpick]
    exact List.mem_map.mpr ⟨n, List.mem_filter.mpr ⟨hin, by simp [hpresent, hne]⟩, rfl⟩
  exact mem_victimsOf.mpr ⟨_, List.mem_flatMap.mpr ⟨_, hrow, hmerge⟩, rfl⟩

/-- Among episodes that are no victims there is nothing to fold. -/
theorem planEpisodicExactDups_eq_nil (hpresent : ∀ n ∈ episodics, n.uuidText ≠ "")
    (hleft : ∀ n ∈ episodics', n ∈ episodics ∧
      n.uuidText ∉ victimsOf (planEpisodicExactDups sha1 episodics)) :
    planEpisodicExactDups sha1 episodics' = [] := by
  refine List.eq_nil_iff_forall_not_mem.mpr fun m hm => ?_
  obtain ⟨v, hv, s, hpick, huuid, -, hne, hsurvivor⟩ := of_mem_planEpisodicExactDups hm
  obtain ⟨hs, hkey⟩ := List.mem_filter.mp (mem_of_pickEpisodicSurvivor hpick)
  obtain ⟨hv, hvleft⟩ := hleft v hv
  obtain ⟨hs, hsleft⟩ := hleft s hs
  obtain ⟨k, hk⟩ :=
    exists_pickEpisodicSurvivor (List.ne_nil_of_mem (mem_own_group sha1 hv))
  -- the keeper of the first plan is the only one of the group that is no victim
  have hkeeper : ∀ n ∈ episodics, n.planKey sha1 = v.planKey sha1 →
      n.uuidText ∉ victimsOf (planEpisodicExactDups sha1 episodics) →
      n.uuidText = k.uuidText := by
    intro n hn hsame hstays
    by_contra hother
    exact hstays (mem_victims_of_group hn (hsame.symm ▸ hk) (hpresent n hn) hother)
  have hvictim : v.uuidText = m.victimUuid := by rw [Node.uuidText, huuid, Option.getD_some]
  refine hne ?_
  rw [← hvictim, ← hsurvivor, hkeeper v hv rfl hvleft, hkeeper s hs (of_decide_eq_true hkey) hsleft]

/-- The victims depend on which episodes there are, not on their order. -/
theorem victims_subset_of_mem_iff (hpresent : ∀ n ∈ episodics, n.uuidText ≠ "")
    (hsame : ∀ n, n ∈ episodics' ↔ n ∈ episodics) :
    victimsOf (planEpisodicExactDups sha1 episodics') ⊆
      victimsOf (planEpisodicExactDups sha1 episodics) := by
  intro u hu
  obtain ⟨m, hm, rfl⟩ := mem_victimsOf.mp hu
  obtain ⟨v, hv, s, hpick, huuid, -, hne, hsurvivor⟩ := of_mem_planEpisodicExactDups hm
  have hv' := (hsame v).mp hv
  have hgroup : ∀ n, n ∈ (episodics'.filter fun m => m.planKey sha1 = v.planKey sha1) ↔
      n ∈ episodics.filter fun m => m.planKey sha1 = v.planKey sha1 := fun n => by
    rw [List.mem_filter, List.mem_filter, hsame]
  obtain ⟨k, hk⟩ :=
    exists_pickEpisodicSurvivor (List.ne_nil_of_mem (mem_own_group sha1 hv'))
  have hbefore : s.before k := before_of_pickEpisodicSurvivor hpick k
    ((hgroup k).mpr (mem_of_pickEpisodicSurvivor hk))
  have hafter : k.before s := before_of_pickEpisodicSurvivor hk s
    ((hgroup s).mp (mem_of_pickEpisodicSurvivor hpick))
  have hrank : s.rank = k.rank :=
    (Node.before_iff.mp hbefore).antisymm (Node.before_iff.mp hafter)
  have hkeeper : s.uuidText = k.uuidText :=
    congrArg (fun r : String ×ₗ String => (ofLex r).2) hrank
  have hvictim : v.uuidText = m.victimUuid := by rw [Node.uuidText, huuid, Option.getD_some]
  rw [← hvictim]
  refine mem_victims_of_group hv' hk (hpresent v hv') fun heq => hne ?_
  rw [← hvictim, ← hsurvivor, heq, hkeeper]

end

/-! ## Entities -/

section

variable {Score : Type} {plan : DedupPlan Score} {g g' : Graph} {py : Builtins}

/-- The rows that phase A moves name the edges that it moves. -/
theorem Graph.edgeUuid_movedRows :
    (g.movedRows plan).map MentionRow.edgeUuid =
      (g.mentions.filter (g.moves plan)).map Mention.uuid := by
  rw [movedRows, allMentions, List.filter_filterMap, List.map_filterMap, ← List.filterMap_eq_filter,
    List.map_filterMap]
  refine List.filterMap_congr fun e _ => ?_
  have hmoves : g.moves plan e = (g.mentionRow e).any fun row =>
      row.dstUuid ∈ plan.victims.map some && row.resolve.isSome := rfl
  rw [Option.guard, hmoves]
  rcases hrow : g.mentionRow e with _ | row
  · rfl
  · rw [Option.any_some, Option.filter_some]
    split
    · rw [Option.map_some, Option.map_some, (of_mentionRow hrow).2.2]
    · rfl

/-- For a row that phase A moves it makes one edge with its uuid, between an episode and an
entity. -/
theorem Graph.Mergeable.movedTo_eq (h : g.Mergeable plan) (htidy : g.Tidy) {row : MentionRow}
    (hrow : row ∈ g.movedRows plan) : ∃ e, g.movedTo plan.redirect row = [e] ∧
      e.uuid = row.edgeUuid ∧ (g.labelled .episodic e.src).isSome ∧
      (g.labelled .entity e.dst).isSome := by
  obtain ⟨e, -, u, v, hmention, -, -, -, hsrc, -, j, hroot, hmade⟩ := h.of_movedRow hrow
  rw [Unique.withUuid_eq htidy.episodic.unique hsrc] at hmade
  obtain ⟨s, hs, -⟩ := mem_withUuid.mp hsrc
  obtain ⟨t, ht, -⟩ := mem_withUuid.mp (hroot ▸ List.mem_singleton_self j :
    j ∈ g.withUuid .entity (rootIn plan.redirect v))
  refine ⟨_, hmade, (of_mentionRow hmention).2.2.symm, ?_, ?_⟩
  · rw [hs]
    rfl
  · rw [ht]
    rfl

/-- Phases A to C leave `MENTIONS` from episodes to entities, told apart. -/
theorem Graph.MovedTo.tidy (hmoved : g.MovedTo py plan g') (h : g.Mergeable plan)
    (htidy : g.Tidy) : g'.Tidy where
  episodic := htidy.episodic.congr hmoved.nodes
  entity := htidy.entity.congr hmoved.nodes
  ends e he := by
    obtain ⟨rows, hrows, hmentions⟩ := hmoved.mentions_eq h
    rw [labelled_congr hmoved.nodes, labelled_congr hmoved.nodes]
    rw [hmentions] at he
    rcases List.mem_append.mp he with he | he
    · exact htidy.ends e (List.mem_of_mem_filter he)
    · obtain ⟨row, hrow, he⟩ := List.mem_flatMap.mp he
      obtain ⟨made, hmade, -, hends⟩ := h.movedTo_eq htidy (hrows.mem_iff.mp hrow)
      rw [hmade, List.mem_singleton] at he
      exact he ▸ hends
  uuids := by
    obtain ⟨rows, hrows, hmentions⟩ := hmoved.mentions_eq h
    have hmade : (rows.flatMap (g.movedTo plan.redirect)).map Mention.uuid =
        rows.map MentionRow.edgeUuid := by
      rw [List.map_flatMap, List.map_eq_flatMap]
      refine List.flatMap_congr fun row hrow => ?_
      obtain ⟨e, hone, huuid, -⟩ := h.movedTo_eq htidy (hrows.mem_iff.mp hrow)
      rw [hone, List.map_singleton, huuid]
    have hperm : (g'.mentions.map Mention.uuid).Perm (g.mentions.map Mention.uuid) := by
      rw [hmentions, List.map_append, hmade]
      refine ((hrows.map MentionRow.edgeUuid).append_left _).trans ?_
      rw [edgeUuid_movedRows, ← List.map_append]
      exact (List.perm_append_comm.trans (List.filter_append_perm _ _)).map _
    exact hperm.nodup_iff.mpr htidy.uuids

/-- So does phase D. -/
theorem Graph.Tidy.removeDetached (htidy : g.Tidy) (victims : List String) :
    (g.removeNodes (g.detached victims)).Tidy where
  episodic := htidy.episodic.removeNodes
  entity := htidy.entity.removeNodes
  ends e he := by
    rw [mentions_removeDetached] at he
    obtain ⟨hsrc, hdst⟩ := htidy.ends e he
    obtain ⟨s, hs⟩ := Option.isSome_iff_exists.mp hsrc
    obtain ⟨t, ht⟩ := Option.isSome_iff_exists.mp hdst
    have hstays : ∀ {i n label}, g.labelled label i = some n →
        g.stays (g.detached victims) i = true →
        ((g.removeNodes (g.detached victims)).labelled label i).isSome := by
      intro i n label hi hstay
      rw [stays, (labelled_eq_some.mp hi).1, Option.any_some] at hstay
      rw [labelled_removeNodes, hi, Option.filter_some, if_pos hstay]
      rfl
    exact ⟨hstays hs (g.stays_detached victims (g.attached.1 e he).1 (.inl ⟨e, he, .inl rfl⟩)),
      hstays ht (g.stays_detached victims (g.attached.1 e he).2 (.inl ⟨e, he, .inr rfl⟩))⟩
  uuids := by
    rw [mentions_removeDetached]
    exact htidy.uuids

end

end JanusGraph
