import JanusGraph.Graph.Plan
import Mathlib.Data.Prod.Lex
import Mathlib.Data.String.Basic

/-!
# What the episodic plan achieves

`plan_episodic_exact_dups` for episodes that have a uuid each, under a fingerprint without
collisions. A merge of the plan folds an episode into the least of those with its bytes
(`mem_planEpisodicExactDups_iff`), and this says nothing of the order of the episodes.
-/

namespace JanusGraph

/-- Each episode has a uuid of its own. -/
structure DistinctEpisodes (episodics : List Node) : Prop where
  present : ∀ n ∈ episodics, n.uuidText ≠ ""
  nodup : (episodics.map Node.uuidText).Nodup

/-- What the plan for some episodes achieves. -/
structure EpisodicPlanCorrect (sha1 : String → String) (episodics : List Node) : Prop where
  /-- two episodes are in one group if they have one name and one content -/
  group : ∀ a ∈ episodics, ∀ b ∈ episodics,
    (∃ row ∈ (byKey sha1 episodics).rows, a ∈ row.2 ∧ b ∈ row.2) ↔ a.bytes = b.bytes
  /-- all merges of a group but one, -/
  size : ∀ row ∈ (byKey sha1 episodics).rows,
    ((planEpisodicExactDups sha1 episodics).filter fun m =>
      m.victimUuid ∈ row.2.map Node.uuidText).length = row.2.length - 1
  /-- and all into the least of them -/
  least : ∀ row ∈ (byKey sha1 episodics).rows, ∃ k ∈ row.2, (∀ n ∈ row.2, k.before n) ∧
    ∀ m ∈ planEpisodicExactDups sha1 episodics, m.victimUuid ∈ row.2.map Node.uuidText →
      m.survivorUuid = k.uuidText
  /-- a survivor is no victim -/
  direct : ∀ m ∈ planEpisodicExactDups sha1 episodics,
    ∀ m' ∈ planEpisodicExactDups sha1 episodics, m.survivorUuid ≠ m'.victimUuid
  /-- the merges do not depend on the order of the episodes -/
  order : ∀ episodics', episodics.Perm episodics' →
    (planEpisodicExactDups sha1 episodics).Perm (planEpisodicExactDups sha1 episodics')
  /-- planning again without the victims gives nothing -/
  again : planEpisodicExactDups sha1 (episodics.filter fun n =>
    n.uuidText ∉ (planEpisodicExactDups sha1 episodics).map EpisodicMerge.victimUuid) = []

/-! ## The least episode -/

/-- The key of `_pick_episodic_survivor`. -/
def Node.rank (n : Node) : String ×ₗ String := toLex (n.createdAt.getD "", n.uuidText)

theorem Node.before_iff {a b : Node} : a.before b ↔ a.rank ≤ b.rank := by
  rw [rank, rank, Prod.Lex.toLex_le_toLex, before]

instance : Std.Total Node.before :=
  ⟨fun a b => by simpa only [Node.before_iff] using le_total a.rank b.rank⟩

instance : IsTrans Node Node.before :=
  ⟨fun _ _ _ hab hbc => Node.before_iff.mpr
    ((Node.before_iff.mp hab).trans (Node.before_iff.mp hbc))⟩

/-- The survivor of a group precedes all of it. -/
theorem before_of_pickEpisodicSurvivor {nodes : List Node} {keeper : Node}
    (h : pickEpisodicSurvivor nodes = some keeper) : ∀ n ∈ nodes, keeper.before n := by
  intro n hn
  have hsorted := List.pairwise_insertionSort Node.before nodes
  have hmem := (List.perm_insertionSort Node.before nodes).mem_iff.mpr hn
  obtain ⟨rest, hrest⟩ := List.head?_eq_some_iff.mp h
  rw [hrest] at hsorted hmem
  rcases List.mem_cons.mp hmem with rfl | hmem
  · exact Node.before_iff.mpr le_rfl
  · exact (List.pairwise_cons.mp hsorted).1 n hmem

theorem exists_pickEpisodicSurvivor {nodes : List Node} (h : nodes ≠ []) :
    ∃ keeper, pickEpisodicSurvivor nodes = some keeper := by
  rw [← Option.isSome_iff_exists, pickEpisodicSurvivor, List.isSome_head?,
    ← List.length_pos_iff, (List.perm_insertionSort Node.before nodes).length_eq]
  exact List.length_pos_iff.mpr h

/-! ## The merges -/

/-- The merge of an episode into another one. -/
def episodicMergeOf (victim keeper : Node) : EpisodicMerge where
  name := victim.name.getD ""
  survivorUuid := keeper.uuidText
  victimUuid := victim.uuidText
  contentLen := (victim.content.getD "").length

/-- The episode precedes all with its bytes. -/
def LeastOf (episodics : List Node) (k : Node) : Prop :=
  k ∈ episodics ∧ ∀ n ∈ episodics, n.bytes = k.bytes → k.before n

section

variable {sha1 : String → String} {episodics : List Node}

theorem planKey_eq_iff (hsha1 : Function.Injective sha1) {a b : Node} :
    a.planKey sha1 = b.planKey sha1 ↔ a.bytes = b.bytes := by
  rw [Node.planKey, Node.planKey, Node.bytes, Node.bytes, Prod.mk.injEq, Prod.mk.injEq,
    contentKey, contentKey, hsha1.eq_iff]

theorem mem_byKey {key : String × String} {nodes : List Node} :
    (key, nodes) ∈ (byKey sha1 episodics).rows ↔
      nodes = (episodics.filter fun n => n.planKey sha1 = key) ∧ nodes ≠ [] :=
  Table.mem_rows_grouped

/-- The episodes with the key of one of them. -/
theorem mem_group (hsha1 : Function.Injective sha1) {v n : Node} :
    n ∈ episodics.filter (fun n => n.planKey sha1 = v.planKey sha1) ↔
      n ∈ episodics ∧ n.bytes = v.bytes := by
  rw [List.mem_filter, decide_eq_true_eq, planKey_eq_iff hsha1]

variable (h : DistinctEpisodes episodics)

include h

theorem DistinctEpisodes.inj {a b : Node} (ha : a ∈ episodics) (hb : b ∈ episodics)
    (heq : a.uuidText = b.uuidText) : a = b :=
  List.inj_on_of_nodup_map h.nodup ha hb heq

theorem DistinctEpisodes.antisymm {a b : Node} (ha : a ∈ episodics) (hb : b ∈ episodics)
    (hab : a.before b) (hba : b.before a) : a = b := by
  have hrank := (Node.before_iff.mp hab).antisymm (Node.before_iff.mp hba)
  exact h.inj ha hb (congrArg (fun r : String ×ₗ String => (ofLex r).2) hrank)

theorem LeastOf.unique {k k' : Node} (hk : LeastOf episodics k) (hk' : LeastOf episodics k')
    (heq : k.bytes = k'.bytes) : k = k' :=
  h.antisymm hk.1 hk'.1 (hk.2 k' hk'.1 heq.symm) (hk'.2 k hk.1 heq)

omit h in
/-- Each group has a least episode, and `_pick_episodic_survivor` finds it. -/
theorem exists_leastOf (hsha1 : Function.Injective sha1) {v : Node} (hv : v ∈ episodics) :
    ∃ k, pickEpisodicSurvivor (episodics.filter fun n => n.planKey sha1 = v.planKey sha1) =
      some k ∧ LeastOf episodics k ∧ k.bytes = v.bytes := by
  have hin : v ∈ episodics.filter fun n => n.planKey sha1 = v.planKey sha1 :=
    (mem_group hsha1).mpr ⟨hv, rfl⟩
  obtain ⟨k, hpick⟩ := exists_pickEpisodicSurvivor (List.ne_nil_of_mem hin)
  obtain ⟨hk, hbytes⟩ := (mem_group hsha1).mp (mem_of_pickEpisodicSurvivor hpick)
  refine ⟨k, hpick, ⟨hk, fun n hn heq => ?_⟩, hbytes⟩
  exact before_of_pickEpisodicSurvivor hpick n ((mem_group hsha1).mpr ⟨hn, heq.trans hbytes⟩)

/-- **The merges of the plan**: of each episode that is not the least with its bytes, into
that one. -/
theorem mem_planEpisodicExactDups_iff (hsha1 : Function.Injective sha1) {m : EpisodicMerge} :
    m ∈ planEpisodicExactDups sha1 episodics ↔
      ∃ v ∈ episodics, ∃ k, LeastOf episodics k ∧ k.bytes = v.bytes ∧ k ≠ v ∧
        m = episodicMergeOf v k := by
  rw [planEpisodicExactDups, List.mem_flatMap]
  constructor
  · rintro ⟨⟨key, nodes⟩, hrow, hm⟩
    obtain ⟨rfl, -⟩ := mem_byKey.mp hrow
    change m ∈ mergesOf key.1 (episodics.filter fun n => n.planKey sha1 = key) at hm
    rw [mergesOf] at hm
    split at hm
    · cases hm
    · split at hm
      · cases hm
      · next keeper hpick =>
        obtain ⟨v, hfolded, rfl⟩ := List.mem_map.mp hm
        obtain ⟨hgroup, hcond⟩ := List.mem_filter.mp hfolded
        obtain ⟨hv, hkey⟩ := List.mem_filter.mp hgroup
        obtain rfl : v.planKey sha1 = key := of_decide_eq_true hkey
        obtain ⟨k, hpick', hleast, hbytes⟩ := exists_leastOf hsha1 hv
        obtain rfl := Option.some.inj (hpick.symm.trans hpick')
        refine ⟨v, hv, keeper, hleast, hbytes, fun heq => ?_, rfl⟩
        rw [heq] at hcond
        simp at hcond
  · rintro ⟨v, hv, k, hleast, hbytes, hne, rfl⟩
    obtain ⟨k', hpick, hleast', hbytes'⟩ := exists_leastOf hsha1 hv
    obtain rfl := hleast.unique h hleast' (hbytes.trans hbytes'.symm)
    have hin : v ∈ episodics.filter fun n => n.planKey sha1 = v.planKey sha1 :=
      (mem_group hsha1).mpr ⟨hv, rfl⟩
    have hin' : k ∈ episodics.filter fun n => n.planKey sha1 = v.planKey sha1 :=
      (mem_group hsha1).mpr ⟨hleast.1, hbytes⟩
    refine ⟨_, mem_byKey.mpr ⟨rfl, List.ne_nil_of_mem hin⟩, ?_⟩
    have htwo : ¬ (episodics.filter fun n => n.planKey sha1 = v.planKey sha1).length < 2 := by
      intro hlt
      match hgroup : episodics.filter (fun n => n.planKey sha1 = v.planKey sha1) with
      | [] => rw [hgroup] at hin; cases hin
      | [_] =>
        rw [hgroup, List.mem_singleton] at hin hin'
        exact hne (hin'.trans hin.symm)
      | _ :: _ :: _ =>
        rw [hgroup, List.length_cons, List.length_cons] at hlt
        omega
    rw [mergesOf, if_neg htwo, hpick]
    refine List.mem_map.mpr ⟨v, List.mem_filter.mpr ⟨hin, ?_⟩, rfl⟩
    rw [decide_eq_true_eq]
    exact ⟨h.present v hv, fun heq => hne (h.inj hv hleast.1 heq).symm⟩

/-- Each merge has a victim of its own. -/
theorem nodup_planEpisodicExactDups :
    ((planEpisodicExactDups sha1 episodics).map EpisodicMerge.victimUuid).Nodup := by
  have hgroups : (planEpisodicExactDups sha1 episodics).map EpisodicMerge.victimUuid =
      (byKey sha1 episodics).rows.flatMap fun row =>
        (mergesOf row.1.1 row.2).map EpisodicMerge.victimUuid := List.map_flatMap
  -- the victims of a group are some of its episodes
  have hvictims : ∀ name nodes, ((mergesOf name nodes).map EpisodicMerge.victimUuid).Sublist
      (nodes.map Node.uuidText) := by
    intro name nodes
    rw [mergesOf]
    split
    · exact List.nil_sublist _
    · split
      · exact List.nil_sublist _
      · rw [List.map_map]
        exact List.filter_sublist.map Node.uuidText
  rw [hgroups, List.nodup_flatMap]
  constructor
  · rintro ⟨key, nodes⟩ hrow
    obtain ⟨rfl, -⟩ := mem_byKey.mp hrow
    exact (hvictims _ _).nodup ((List.filter_sublist.map _).nodup h.nodup)
  · refine (List.pairwise_map.mp (byKey sha1 episodics).nodup).imp_of_mem fun hrow hrow' hne => ?_
    rw [Function.onFun_apply, List.disjoint_left]
    intro u hu hu'
    obtain ⟨n, hn, rfl⟩ := List.mem_map.mp ((hvictims _ _).subset hu)
    obtain ⟨n', hn', heq⟩ := List.mem_map.mp ((hvictims _ _).subset hu')
    rw [(mem_byKey.mp hrow).1] at hn
    rw [(mem_byKey.mp hrow').1] at hn'
    obtain ⟨hn, hkey⟩ := List.mem_filter.mp hn
    obtain ⟨hn', hkey'⟩ := List.mem_filter.mp hn'
    obtain rfl := h.inj hn' hn heq
    exact hne ((of_decide_eq_true hkey).symm.trans (of_decide_eq_true hkey'))

/-- A victim of the plan is no least episode. -/
theorem ne_of_mem_plan (hsha1 : Function.Injective sha1) {m : EpisodicMerge}
    (hm : m ∈ planEpisodicExactDups sha1 episodics) {k : Node} (hk : LeastOf episodics k) :
    k.uuidText ≠ m.victimUuid := by
  obtain ⟨v, hv, k', hk', hbytes, hne, rfl⟩ := (mem_planEpisodicExactDups_iff h hsha1).mp hm
  intro heq
  obtain rfl : k = v := h.inj hk.1 hv heq
  exact hne (hk'.unique h hk hbytes)

/-- The victims of a group: all its episodes but the least. -/
theorem victims_of_group (hsha1 : Function.Injective sha1) {k : Node} (hk : LeastOf episodics k) :
    ((planEpisodicExactDups sha1 episodics).filter fun m =>
        m.victimUuid ∈ (episodics.filter fun n => n.planKey sha1 = k.planKey sha1).map
          Node.uuidText).map EpisodicMerge.victimUuid |>.Perm
      (((episodics.filter fun n => n.planKey sha1 = k.planKey sha1).erase k).map
        Node.uuidText) := by
  have hgroup := (List.filter_sublist (p := fun n => n.planKey sha1 = k.planKey sha1)
    (l := episodics)).map Node.uuidText |>.nodup h.nodup
  refine (List.perm_ext_iff_of_nodup ((List.filter_sublist.map _).nodup
    (nodup_planEpisodicExactDups h)) ((List.erase_sublist.map _).nodup hgroup)).mpr fun u => ?_
  rw [List.mem_map, List.mem_map]
  constructor
  · rintro ⟨m, hm, rfl⟩
    obtain ⟨hmerge, hin⟩ := List.mem_filter.mp hm
    obtain ⟨n, hn, heq⟩ := List.mem_map.mp (of_decide_eq_true hin)
    refine ⟨n, ((List.Nodup.of_map _ hgroup).mem_erase_iff).mpr ⟨?_, hn⟩, heq⟩
    rintro rfl
    exact ne_of_mem_plan h hsha1 hmerge hk heq
  · rintro ⟨n, hn, rfl⟩
    obtain ⟨hne, hn⟩ := ((List.Nodup.of_map _ hgroup).mem_erase_iff).mp hn
    obtain ⟨hin, hbytes⟩ := (mem_group hsha1).mp hn
    refine ⟨episodicMergeOf n k, List.mem_filter.mpr ⟨?_, ?_⟩, rfl⟩
    · exact (mem_planEpisodicExactDups_iff h hsha1).mpr ⟨n, hin, k, hk, hbytes.symm, hne.symm, rfl⟩
    · exact decide_eq_true (List.mem_map_of_mem hn)

/-- What remains is the least of its group, so nothing is left to fold. -/
theorem rest_planEpisodicExactDups (hsha1 : Function.Injective sha1) :
    planEpisodicExactDups sha1 (episodics.filter fun n =>
      n.uuidText ∉ (planEpisodicExactDups sha1 episodics).map EpisodicMerge.victimUuid) = [] := by
  refine List.eq_nil_iff_forall_not_mem.mpr fun m hm => ?_
  have hrest : DistinctEpisodes (episodics.filter fun n =>
      n.uuidText ∉ (planEpisodicExactDups sha1 episodics).map EpisodicMerge.victimUuid) :=
    ⟨fun n hn => h.present n (List.mem_of_mem_filter hn), (List.filter_sublist.map _).nodup h.nodup⟩
  obtain ⟨v, hv, k, hk, hbytes, hne, -⟩ := (mem_planEpisodicExactDups_iff hrest hsha1).mp hm
  obtain ⟨hin, hstays⟩ := List.mem_filter.mp hv
  obtain ⟨k', -, hk', hbytes'⟩ := exists_leastOf hsha1 hin
  obtain rfl : k' = v := by
    by_contra hne'
    refine of_decide_eq_true hstays (List.mem_map.mpr ⟨episodicMergeOf v k', ?_, rfl⟩)
    exact (mem_planEpisodicExactDups_iff h hsha1).mpr ⟨v, hin, k', hk', hbytes', hne', rfl⟩
  have hink := List.mem_of_mem_filter hk.1
  exact hne (h.antisymm hink hin (hk.2 k' hv hbytes.symm) (hk'.2 k hink hbytes))

/-- **The plan is correct.** -/
theorem planEpisodicExactDups_correct (hsha1 : Function.Injective sha1) :
    EpisodicPlanCorrect sha1 episodics := by
  have hrows : ∀ row ∈ (byKey sha1 episodics).rows, ∃ k, LeastOf episodics k ∧
      row.2 = episodics.filter fun n => n.planKey sha1 = k.planKey sha1 := by
    intro row hrow
    obtain ⟨hnodes, hne⟩ := mem_byKey.mp hrow
    obtain ⟨v, hv⟩ := List.exists_mem_of_ne_nil _ hne
    rw [hnodes] at hv
    obtain ⟨hv, hkey⟩ := List.mem_filter.mp hv
    obtain ⟨k, -, hk, hbytes⟩ := exists_leastOf hsha1 hv
    refine ⟨k, hk, hnodes.trans (List.filter_congr fun n _ => ?_)⟩
    rw [← of_decide_eq_true hkey, (planKey_eq_iff hsha1).mpr hbytes]
  refine ⟨fun a ha b hb => ⟨?_, fun hbytes => ?_⟩, fun row hrow => ?_, fun row hrow => ?_,
    fun m hm m' hm' => ?_, fun episodics' hperm => ?_, ?_⟩
  · rintro ⟨row, hrow, harow, hbrow⟩
    obtain ⟨k, -, hnodes⟩ := hrows row hrow
    rw [hnodes] at harow hbrow
    exact ((mem_group hsha1).mp harow).2.trans ((mem_group hsha1).mp hbrow).2.symm
  · have hin : a ∈ episodics.filter fun n => n.planKey sha1 = a.planKey sha1 :=
      (mem_group hsha1).mpr ⟨ha, rfl⟩
    exact ⟨_, mem_byKey.mpr ⟨rfl, List.ne_nil_of_mem hin⟩, hin,
      (mem_group hsha1).mpr ⟨hb, hbytes.symm⟩⟩
  · obtain ⟨k, hk, hnodes⟩ := hrows row hrow
    have hlen := (victims_of_group h hsha1 hk).length_eq
    rw [List.length_map, List.length_map,
      List.length_erase_of_mem ((mem_group hsha1).mpr ⟨hk.1, rfl⟩)] at hlen
    rw [hnodes]
    exact hlen
  · obtain ⟨k, hk, hnodes⟩ := hrows row hrow
    refine ⟨k, ?_, fun n hn => ?_, fun m hm hvictim => ?_⟩
    · rw [hnodes]
      exact (mem_group hsha1).mpr ⟨hk.1, rfl⟩
    · rw [hnodes] at hn
      obtain ⟨hn, hbytes⟩ := (mem_group hsha1).mp hn
      exact hk.2 n hn hbytes
    · obtain ⟨v, hv, k', hk', hbytes, -, rfl⟩ := (mem_planEpisodicExactDups_iff h hsha1).mp hm
      obtain ⟨n, hn, heq⟩ := List.mem_map.mp hvictim
      rw [hnodes] at hn
      obtain ⟨hn, hbytes'⟩ := (mem_group hsha1).mp hn
      obtain rfl := h.inj hn hv heq
      rw [hk'.unique h hk (hbytes.trans hbytes')]
      rfl
  · obtain ⟨v, hv, k, hk, hbytes, hne, rfl⟩ := (mem_planEpisodicExactDups_iff h hsha1).mp hm
    exact ne_of_mem_plan h hsha1 hm' hk
  · have h' : DistinctEpisodes episodics' :=
      ⟨fun n hn => h.present n (hperm.mem_iff.mpr hn), (hperm.map _).nodup_iff.mp h.nodup⟩
    refine (List.perm_ext_iff_of_nodup (List.Nodup.of_map _ (nodup_planEpisodicExactDups h))
      (List.Nodup.of_map _ (nodup_planEpisodicExactDups h'))).mpr fun m => ?_
    rw [mem_planEpisodicExactDups_iff h hsha1, mem_planEpisodicExactDups_iff h' hsha1]
    simp only [LeastOf, hperm.mem_iff]
  · exact rest_planEpisodicExactDups h hsha1

end

/-- Of three episodes two are the same. -/
def twinEpisodes : List Node :=
  [⟨.episodic, some "b", some "n", some "x", none, some "1", none⟩,
    ⟨.episodic, some "a", some "n", some "x", none, some "1", none⟩,
    ⟨.episodic, some "c", none, none, none, none, none⟩]

theorem planEpisodicExactDups_twins_correct : EpisodicPlanCorrect id twinEpisodes :=
  planEpisodicExactDups_correct ⟨by decide, by decide⟩ Function.injective_id

end JanusGraph
