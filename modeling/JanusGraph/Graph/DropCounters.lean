import JanusGraph.Graph.Explained
import Mathlib.Algebra.Order.BigOperators.Group.Finset
import Mathlib.Data.Finset.Card

/-!
# The counters of the relations

`relations_to_drop` and `self_loops_dropped` of a plan. The loops are counted by a pass of
their own. The other counter keys an edge that folds onto itself by its two ends, so it counts
two such edges with the same ends as duplicates, though both have been counted as loops; and it
keys any other edge by the text of its fact, which does not tell a missing fact from an empty one.
-/

namespace JanusGraph

/-! ## Collisions of a part -/

section

variable {E K : Type} [DecidableEq K] {edges : List E} {key : E → K} {touched p : E → Bool}

/-- A relation between edges of one key is one within each group. -/
theorem pairwise_groups {R : E → E → Prop} :
    edges.Pairwise (fun a b => key a = key b → R a b) ↔
      ∀ k, (edges.filter fun e => key e = k).Pairwise R := by
  constructor
  · intro h k
    refine (h.filter _).imp_of_mem fun {a b} ha hb hab => hab ?_
    rw [of_decide_eq_true (List.mem_filter.mp ha).2, of_decide_eq_true (List.mem_filter.mp hb).2]
  · intro h
    refine List.pairwise_iff_forall_sublist.mpr fun {a b} hsub hkey => ?_
    have hgroup := hsub.filter fun e => key e = key b
    refine List.pairwise_iff_forall_sublist.mp (h (key b)) ?_
    simpa [hkey] using hgroup

/-- In a group of several edges one of which is touched, each is in a pair with a touched one. -/
theorem pairwise_touched {group : List E} :
    group.Pairwise (fun a b => touched a = true ∨ touched b = true → p a = true ∧ p b = true) ↔
      (group.any touched = true → 2 ≤ group.length → ∀ e ∈ group, p e = true) := by
  constructor
  · intro h htouched hlen
    obtain ⟨e, he, he'⟩ := List.any_eq_true.mp htouched
    obtain ⟨before, after, rfl⟩ := List.append_of_mem he
    obtain ⟨-, hcons, hbefore⟩ := List.pairwise_append.mp h
    have hbefore' : ∀ a ∈ before, p a = true ∧ p e = true := fun a ha =>
      hbefore a ha e List.mem_cons_self (.inr he')
    have hafter : ∀ a ∈ after, p e = true ∧ p a = true := fun a ha =>
      (List.pairwise_cons.mp hcons).1 a ha (.inl he')
    have hself : p e = true := by
      match before, after, hbefore', hafter with
      | a :: _, _, hbefore', _ => exact (hbefore' a List.mem_cons_self).2
      | [], a :: _, _, hafter => exact (hafter a List.mem_cons_self).1
      | [], [], _, _ => simp at hlen
    intro a ha
    rcases List.mem_append.mp ha with ha | ha
    · exact (hbefore' a ha).1
    · rcases List.mem_cons.mp ha with rfl | ha
      · exact hself
      · exact (hafter a ha).2
  · intro h
    match group with
    | [] => exact List.Pairwise.nil
    | [e] => exact List.pairwise_singleton _ e
    | e :: e' :: rest =>
      refine List.Pairwise.imp_of_mem (R := fun _ _ => True) (fun {a b} ha hb _ htouched => ?_)
        (List.pairwise_of_forall fun _ _ => trivial)
      have hany : (e :: e' :: rest).any touched = true := by
        rcases htouched with htouched | htouched
        · exact List.any_eq_true.mpr ⟨a, ha, htouched⟩
        · exact List.any_eq_true.mpr ⟨b, hb, htouched⟩
      have hall := h hany (by simp)
      exact ⟨hall a ha, hall b hb⟩

theorem share_eq_zero {k : K} (h : k ∉ edges.map key) : share edges key touched k = 0 := by
  have hnil : (edges.filter fun e => key e = k) = [] :=
    List.filter_eq_nil_iff.mpr fun e he heq => h (List.mem_map.mpr ⟨e, he, of_decide_eq_true heq⟩)
  rw [share, hnil]
  rfl

/-- What a group contributes without some of its edges: no more, and as much only if it
contributes nothing or loses none. -/
theorem share_filter (k : K) :
    share (edges.filter p) key touched k ≤ share edges key touched k ∧
      (share (edges.filter p) key touched k = share edges key touched k ↔
        (edges.filter fun e => key e = k).Pairwise
          fun a b => touched a = true ∨ touched b = true → p a = true ∧ p b = true) := by
  have hcomm : ((edges.filter p).filter fun e => key e = k) =
      (edges.filter fun e => key e = k).filter p := by
    rw [List.filter_filter, List.filter_filter]
    exact List.filter_congr fun e _ => Bool.and_comm _ _
  rw [pairwise_touched, share, share, hcomm]
  generalize (edges.filter fun e => key e = k) = group
  have hany : (group.filter p).any touched = true → group.any touched = true := by
    intro h
    obtain ⟨e, he, htouched⟩ := List.any_eq_true.mp h
    exact List.any_eq_true.mpr ⟨e, List.mem_of_mem_filter he, htouched⟩
  have hlen := List.length_filter_le p group
  have hall : (∀ e ∈ group, p e = true) ↔ (group.filter p).length = group.length :=
    List.length_filter_eq_length_iff.symm
  by_cases htouched : group.any touched = true
  · rw [if_pos htouched]
    refine ⟨?_, ?_⟩
    · split <;> omega
    · refine ⟨fun heq _ htwo => ?_, fun h => ?_⟩
      · split at heq
        · exact hall.mpr (by omega)
        · omega
      · by_cases htwo : 2 ≤ group.length
        · have hself := List.filter_eq_self.mpr (h htouched htwo)
          rw [hself, if_pos htouched]
        · split <;> omega
  · rw [if_neg htouched, if_neg fun h => htouched (hany h)]
    exact ⟨le_rfl, iff_of_true rfl fun h => absurd h htouched⟩

/-- Some edges contribute nothing to the collisions exactly if each that shares its key with a
touched one, or is touched and shares its key, is none of them. -/
theorem collisions_filter_eq_iff : collisions (edges.filter p) key touched =
      collisions edges key touched ↔
    edges.Pairwise fun a b => key a = key b → touched a = true ∨ touched b = true →
      p a = true ∧ p b = true := by
  have hpart : collisions (edges.filter p) key touched =
      ∑ k ∈ (edges.map key).toFinset, share (edges.filter p) key touched k := by
    rw [collisions_eq_sum]
    refine Finset.sum_subset (fun k hk => ?_) fun k _ hnot => ?_
    · obtain ⟨e, he, rfl⟩ := List.mem_map.mp (List.mem_toFinset.mp hk)
      exact List.mem_toFinset.mpr (List.mem_map_of_mem (List.mem_of_mem_filter he))
    · exact share_eq_zero fun hin => hnot (List.mem_toFinset.mpr hin)
  rw [hpart, collisions_eq_sum, pairwise_groups,
    Finset.sum_eq_sum_iff_of_le fun k _ => (share_filter k).1]
  refine ⟨fun h k => ?_, fun h k _ => (share_filter k).2.mpr (h k)⟩
  by_cases hk : k ∈ (edges.map key).toFinset
  · exact (share_filter k).2.mp (h k hk)
  · refine (share_filter k).2.mp ?_
    rw [List.mem_toFinset] at hk
    rw [share_eq_zero hk, share_eq_zero fun hin => hk ?_]
    exact ((List.filter_sublist).map key).subset hin

/-- A key that tells more edges apart makes for as many collisions exactly if it tells no two
apart of which one is touched. -/
theorem collisions_refined_eq_iff {K' : Type} [DecidableEq K'] {fine : E → K'} (f : K' → K)
    (hkey : ∀ e, key e = f (fine e)) :
    collisions edges key touched = collisions edges fine touched ↔
      edges.Pairwise fun a b => key a = key b → touched a = true ∨ touched b = true →
        fine a = fine b := by
  let coarseIn := edges.filter (inTouched edges key touched)
  let fineIn := edges.filter (inTouched edges fine touched)
  have hfine : ∀ {e e'}, fine e = fine e' → key e = key e' := fun h => by rw [hkey, hkey, h]
  have hin : ∀ {e e'}, e ∈ edges → touched e = true → fine e = fine e' →
      inTouched edges fine touched e' = true := fun he htouched heq =>
    List.any_eq_true.mpr ⟨_, he, decide_eq_true ⟨heq, htouched⟩⟩
  have hsub : ∀ e ∈ edges, inTouched edges fine touched e = true →
      inTouched edges key touched e = true := by
    intro e _ h
    obtain ⟨e', he', hboth⟩ := List.any_eq_true.mp h
    obtain ⟨heq, htouched⟩ := of_decide_eq_true hboth
    exact List.any_eq_true.mpr ⟨e', he', decide_eq_true ⟨hfine heq, htouched⟩⟩
  -- each group that is touched keeps its key in the finer groups
  have himage : (coarseIn.map key).toFinset = (fineIn.map fine).toFinset.image f := by
    ext k
    simp only [List.mem_toFinset, List.mem_map, Finset.mem_image]
    constructor
    · rintro ⟨e, he, rfl⟩
      obtain ⟨e', he', hboth⟩ := List.any_eq_true.mp (List.mem_filter.mp he).2
      obtain ⟨heq, htouched⟩ := of_decide_eq_true hboth
      exact ⟨fine e', ⟨e', List.mem_filter.mpr ⟨he', hin he' htouched rfl⟩, rfl⟩,
        (hkey e').symm.trans heq⟩
    · rintro ⟨-, ⟨e, he, rfl⟩, rfl⟩
      obtain ⟨he, htouched⟩ := List.mem_filter.mp he
      exact ⟨e, List.mem_filter.mpr ⟨he, hsub e he htouched⟩, hkey e⟩
  have hlength : fineIn.length ≤ coarseIn.length := by
    rw [← List.countP_eq_length_filter, ← List.countP_eq_length_filter]
    exact List.countP_mono_left hsub
  have hcard := Finset.card_image_le (s := (fineIn.map fine).toFinset) (f := f)
  have hcoarse := repeats_add_card key coarseIn
  have hrefined := repeats_add_card fine fineIn
  rw [himage] at hcoarse
  have hsplit : repeats key coarseIn = repeats fine fineIn ↔ coarseIn.length = fineIn.length ∧
      ((fineIn.map fine).toFinset.image f).card = (fineIn.map fine).toFinset.card := by
    omega
  rw [collisions_eq, collisions_eq]
  change repeats key coarseIn = repeats fine fineIn ↔ _
  rw [hsplit, Finset.card_image_iff]
  constructor
  · rintro ⟨hlen, hinj⟩
    have hall : ∀ e ∈ edges, inTouched edges key touched e = true →
        inTouched edges fine touched e = true := by
      have hsame : fineIn = coarseIn := by
        have hfilter : coarseIn.filter (inTouched edges fine touched) = fineIn := by
          rw [List.filter_filter]
          refine List.filter_congr fun e he => ?_
          cases hfineIn : inTouched edges fine touched e
          · rfl
          · rw [hsub e he hfineIn]
            rfl
        rw [← hfilter]
        refine List.filter_eq_self.mpr (List.length_filter_eq_length_iff.mp ?_)
        rw [hfilter, hlen]
      intro e he htouched
      have hmem : e ∈ fineIn := hsame ▸ List.mem_filter.mpr ⟨he, htouched⟩
      exact (List.mem_filter.mp hmem).2
    refine (List.pairwise_of_forall fun _ _ => trivial).imp_of_mem
      (R := fun _ _ => True) fun {a b} ha hb _ heq htouched => ?_
    have hboth : inTouched edges key touched a = true ∧ inTouched edges key touched b = true := by
      rcases htouched with htouched | htouched
      · exact ⟨List.any_eq_true.mpr ⟨a, ha, decide_eq_true ⟨rfl, htouched⟩⟩,
          List.any_eq_true.mpr ⟨a, ha, decide_eq_true ⟨heq, htouched⟩⟩⟩
      · exact ⟨List.any_eq_true.mpr ⟨b, hb, decide_eq_true ⟨heq.symm, htouched⟩⟩,
          List.any_eq_true.mpr ⟨b, hb, decide_eq_true ⟨rfl, htouched⟩⟩⟩
    have hmem : ∀ {e}, e ∈ edges → inTouched edges key touched e = true →
        fine e ∈ (fineIn.map fine).toFinset := fun he h =>
      List.mem_toFinset.mpr (List.mem_map_of_mem (List.mem_filter.mpr ⟨he, hall _ he h⟩))
    exact hinj (hmem ha hboth.1) (hmem hb hboth.2) (by rw [← hkey, ← hkey, heq])
  · intro hpairs
    have hsymm : Std.Symm fun a b : E =>
        key a = key b → touched a = true ∨ touched b = true → fine a = fine b :=
      ⟨fun _ _ h heq htouched => (h heq.symm htouched.symm).symm⟩
    have hforall : ∀ a ∈ edges, ∀ b ∈ edges, key a = key b →
        touched a = true ∨ touched b = true → fine a = fine b := fun a ha b hb =>
      hpairs.forall_of_forall (fun _ _ _ _ => rfl) ha hb
    have hsame : ∀ e ∈ edges, inTouched edges key touched e = inTouched edges fine touched e := by
      intro e he
      rw [Bool.eq_iff_iff]
      refine ⟨fun h => ?_, hsub e he⟩
      obtain ⟨e', he', hboth⟩ := List.any_eq_true.mp h
      obtain ⟨heq, htouched⟩ := of_decide_eq_true hboth
      exact hin he' htouched (hforall e' he' e he heq (.inl htouched))
    refine ⟨congrArg List.length (List.filter_congr hsame), fun k hk k' hk' heq => ?_⟩
    obtain ⟨a, ha, rfl⟩ := List.mem_map.mp (List.mem_toFinset.mp hk)
    obtain ⟨b, hb, rfl⟩ := List.mem_map.mp (List.mem_toFinset.mp hk')
    obtain ⟨ha, hta⟩ := List.mem_filter.mp ha
    obtain ⟨c, hc, hboth⟩ := List.any_eq_true.mp hta
    obtain ⟨hca, htouched⟩ := of_decide_eq_true hboth
    have hcb : key c = key b := (hfine hca).trans (by rw [hkey, hkey, heq])
    exact hca.symm.trans (hforall c hc b (List.mem_of_mem_filter hb) hcb (.inl htouched))

end

/-! ## The counters -/

section

variable (redirect : Table String String) (py : Builtins)

/-- The roots of the two ends, and the fact. -/
def endsKey (rel : RelationRecord) : String × String × Value :=
  (redirected redirect rel.srcUuid, redirected redirect rel.dstUuid, rel.fact)

/-- The roots of the two ends, and the text of the fact: `_rel_key`, unless the edge folds. -/
def textKey (rel : RelationRecord) : String × String × String :=
  (redirected redirect rel.srcUuid, redirected redirect rel.dstUuid, factText py rel.fact)

/-- The edge is redirected, and folds onto itself. -/
def vanishes (rel : RelationRecord) : Bool := relTouched redirect rel && isLoop redirect rel

/-- What is left of the edges: the redirected loops vanish, and each group of equal roots and
fact that is redirected collapses to its first edge. -/
def leftRelations (relations : List RelationRecord) : List RelationRecord :=
  let kept := relations.filter fun rel => !vanishes redirect rel
  firsts (fun rel =>
    if inTouched kept (endsKey redirect) (relTouched redirect) rel then
      some (endsKey redirect rel)
    else none) kept []

/-- What the counters are to say. -/
structure DropsCounted {Score : Type} (plan : DedupPlan Score) (relations : List RelationRecord) :
    Prop where
  /-- `relations_to_drop` counts no edge that becomes a self-loop -/
  toDrop : plan.relationsToDrop =
    collisions (relations.filter fun rel => !isLoop redirect rel) (relKey redirect py)
      (relTouched redirect)
  /-- `self_loops_dropped` counts each edge that vanishes once -/
  selfLoops : plan.selfLoopsDropped = (relations.filter (vanishes redirect)).length
  /-- together they count the edges that are lost -/
  total : plan.totalRelationsRemoved + (leftRelations redirect relations).length =
    relations.length

variable {redirect py} {relations : List RelationRecord}

/-- Edges of one key both fold onto themselves, or neither does. -/
theorem isLoop_of_textKey {a b : RelationRecord}
    (h : textKey redirect py a = textKey redirect py b) : isLoop redirect a = isLoop redirect b := by
  rw [textKey, textKey, Prod.mk.injEq, Prod.mk.injEq] at h
  rw [isLoop, isLoop, h.1, h.2.1]

theorem share_congr {E K : Type} [DecidableEq K] {edges : List E} {key key' : E → K}
    {touched : E → Bool} (h : ∀ e ∈ edges, key e = key' e) (k : K) :
    share edges key touched k = share edges key' touched k := by
  have hgroup : (edges.filter fun e => key e = k) = edges.filter fun e => key' e = k :=
    List.filter_congr fun e he => by rw [h e he]
  rw [share, share, hgroup]

/-- The edges that do not fold onto themselves collide as their roots and facts do. -/
theorem collisions_ends : collisions (relations.filter fun rel => !isLoop redirect rel)
      (relKey redirect py) (relTouched redirect) =
    collisions (relations.filter fun rel => !vanishes redirect rel) (textKey redirect py)
      (relTouched redirect) := by
  have hkey : ∀ e ∈ relations.filter (fun rel => !isLoop redirect rel),
      relKey redirect py e = textKey redirect py e := by
    intro e he
    have hloop := (List.mem_filter.mp he).2
    exact if_neg (by simpa using hloop)
  have hends : collisions (relations.filter fun rel => !isLoop redirect rel)
        (relKey redirect py) (relTouched redirect) =
      collisions (relations.filter fun rel => !isLoop redirect rel) (textKey redirect py)
        (relTouched redirect) := by
    rw [collisions_eq_sum, collisions_eq_sum, List.map_congr_left hkey]
    exact Finset.sum_congr rfl fun k _ => share_congr hkey k
  have hpart : (relations.filter fun rel => !isLoop redirect rel) =
      (relations.filter fun rel => !vanishes redirect rel).filter fun rel => !isLoop redirect rel := by
    rw [List.filter_filter]
    refine List.filter_congr fun e _ => ?_
    cases hloop : isLoop redirect e <;> simp [vanishes, hloop]
  rw [hends, hpart]
  -- an edge that is left and redirected does not fold onto itself, nor does one of its key
  refine collisions_filter_eq_iff.mpr ((List.pairwise_of_forall fun _ _ => trivial).imp_of_mem
    (R := fun _ _ => True) fun {a b} ha hb _ hkey htouched => ?_)
  have hsame := isLoop_of_textKey hkey
  have hleft : ∀ {e}, e ∈ relations.filter (fun rel => !vanishes redirect rel) →
      relTouched redirect e = true → isLoop redirect e = false := by
    intro e he htouched
    have hstays := (List.mem_filter.mp he).2
    rw [vanishes, htouched, Bool.true_and, Bool.not_eq_true'] at hstays
    exact hstays
  have hloop : isLoop redirect a = false := by
    rcases htouched with htouched | htouched
    · exact hleft ha htouched
    · exact hsame.trans (hleft hb htouched)
  rw [← hsame, hloop]
  exact ⟨rfl, rfl⟩

/-- What is lost: the edges that vanish, and the collisions of the others. -/
theorem length_leftRelations : (relations.filter (vanishes redirect)).length +
      collisions (relations.filter fun rel => !vanishes redirect rel) (endsKey redirect)
        (relTouched redirect) + (leftRelations redirect relations).length =
    relations.length := by
  have hsplit := List.length_eq_length_filter_add (l := relations) (vanishes redirect)
  rw [leftRelations]
  generalize (relations.filter fun rel => !vanishes redirect rel) = kept at hsplit ⊢
  have hfirsts := length_firsts_add (fun rel =>
    if inTouched kept (endsKey redirect) (relTouched redirect) rel then
      some (endsKey redirect rel) else none) kept
  have hcollisions : collisions kept (endsKey redirect) (relTouched redirect) =
      repeats id (kept.filterMap fun rel =>
        if inTouched kept (endsKey redirect) (relTouched redirect) rel then
          some (endsKey redirect rel) else none) := by
    have hmap : (kept.filterMap fun rel =>
          if inTouched kept (endsKey redirect) (relTouched redirect) rel then
            some (endsKey redirect rel) else none) =
        (kept.filter (inTouched kept (endsKey redirect) (relTouched redirect))).map
          (endsKey redirect) := by
      rw [← List.filterMap_eq_map, List.filterMap_filter]
      rfl
    rw [collisions_eq, hmap, repeats_map]
    rfl
  rw [hcollisions]
  omega

/-- Where no edge of a pair that `_rel_key` does not tell apart folds onto itself, the pair is
one that the texts of the facts do not tell apart, and both edges are left. -/
theorem pairwise_kept_iff (hloops : relations.Pairwise fun a b =>
      relKey redirect py a = relKey redirect py b →
        relTouched redirect a = true ∨ relTouched redirect b = true →
          isLoop redirect a = false ∧ isLoop redirect b = false) :
    ((relations.filter fun rel => !vanishes redirect rel).Pairwise fun a b =>
        textKey redirect py a = textKey redirect py b →
          relTouched redirect a = true ∨ relTouched redirect b = true →
            endsKey redirect a = endsKey redirect b) ↔
      relations.Pairwise fun a b => relKey redirect py a = relKey redirect py b →
        relTouched redirect a = true ∨ relTouched redirect b = true → a.fact = b.fact := by
  have hkey : ∀ {e}, isLoop redirect e = false → relKey redirect py e = textKey redirect py e :=
    fun hloop => if_neg (by simp [hloop])
  rw [List.pairwise_filter]
  refine ⟨fun h => hloops.imp₂ (fun a b hab hends hsame htouched => ?_) h, fun h =>
    h.imp fun {a b} hfact ha hb hsame htouched => ?_⟩
  · obtain ⟨ha, hb⟩ := hab hsame htouched
    rw [hkey ha, hkey hb] at hsame
    exact (Prod.mk.inj (Prod.mk.inj
      (hends (by simp [vanishes, ha]) (by simp [vanishes, hb]) hsame htouched)).2).2
  · -- the redirected edge of the two does not fold, and so the other does not
    have hab := isLoop_of_textKey hsame
    have hloop : isLoop redirect a = false := by
      rcases htouched with htouched | htouched
      · simpa [vanishes, htouched] using ha
      · exact hab.trans (by simpa [vanishes, htouched] using hb)
    have hfacts := hfact (by rw [hkey hloop, hkey (hab ▸ hloop), hsame]) htouched
    rw [textKey, textKey, Prod.mk.injEq, Prod.mk.injEq] at hsame
    exact Prod.ext hsame.1 (Prod.ext hsame.2.1 hfacts)

end

variable {Score : Type} [LinearOrder Score] {scoring : Scoring Score}
  {entities : List EntityRecord} {mentions : List MentionRecord} {relations : List RelationRecord}
  {threshold : Score}

/-- Two parallel edges between two entities that fold together. -/
def parallelRelations : List RelationRecord :=
  [⟨some "a", some "b", .str "f"⟩, ⟨some "a", some "b", .str "g"⟩]

end JanusGraph
