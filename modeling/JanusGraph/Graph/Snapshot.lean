import JanusGraph.Graph.ApplyOutcome

/-!
# Plans for a graph

What `plan_dedup` says of a graph whose complete snapshot it was given: its merges are
about the entities of the graph, and its counters are about the rows of its edges. Of a
`RELATES_TO` the snapshot reads the ends that the edge has stored among its properties,
which need not be the uuids of the nodes it joins.
-/

namespace JanusGraph

variable {Score : Type}

/-- The uuids of entities and edges are distinct and not null. -/
structure Graph.Identified (g : Graph) : Prop where
  named : ∀ {i n}, g.labelled .entity i = some n → n.uuid.isSome
  unique : g.Unique .entity
  mentions : (g.mentions.map Mention.uuid).Nodup
  relations : (g.relations.map fun e => e.prop "uuid").Nodup
  uuids : ∀ e ∈ g.relations, e.prop "uuid" ≠ .null

/-- What the planner is given of an entity. -/
def Node.entityRecord (n : Node) : EntityRecord := ⟨n.uuid, n.name, n.summary, orNone n.createdAt⟩

/-- What it is given of a `MENTIONS`: its ends. -/
def MentionRow.record (row : MentionRow) : MentionRecord := ⟨row.srcUuid, row.dstUuid⟩

/-- What it is given of a `RELATES_TO`, from a row of `_RELATIONS_Q`: the ends that the edge
has stored, and the fact. -/
def relationRecord (py : Builtins) (row : Value × Value × Value) : RelationRecord :=
  { srcUuid := (Graph.storedEnds py row.1 row.2.1).1
    dstUuid := (Graph.storedEnds py row.1 row.2.1).2
    fact := row.2.2 }

def Relation.record (py : Builtins) (e : Relation) : RelationRecord :=
  relationRecord py (e.prop "source_node_uuid", e.prop "target_node_uuid", e.prop "fact")

/-- What it would be given if the edge had stored the uuids of the nodes it joins. -/
def RelationRow.record (row : RelationRow) : RelationRecord := ⟨row.srcUuid, row.dstUuid, row.fact⟩

/-- The rows of all `MENTIONS` from episodes to entities. -/
def Graph.allMentions (g : Graph) : List MentionRow := g.mentions.filterMap g.mentionRow

/-- The rows of all `RELATES_TO` between entities. -/
def Graph.allRelations (g : Graph) : List RelationRow := g.relations.filterMap g.relationRow

/-- What the planner is given of them. -/
def Graph.storedRelations (g : Graph) (py : Builtins) : List RelationRecord :=
  (g.relations.filter fun e => (g.relationRow e).isSome).map (Relation.record py)

/-- A complete snapshot of the graph, in any order. -/
structure Graph.Snapshot (g : Graph) (py : Builtins) : Type where
  entities : List EntityRecord
  mentions : List MentionRecord
  relations : List RelationRecord
  allEntities : entities.Perm
    (((g.nodes.rows.map Prod.snd).filter fun n => n.label = .entity).map Node.entityRecord)
  allMentions : mentions.Perm (g.allMentions.map MentionRow.record)
  allRelations : relations.Perm (g.storedRelations py)

/-- The snapshot in the order of the graph. -/
def Graph.snapshot (g : Graph) (py : Builtins) : g.Snapshot py :=
  ⟨_, _, _, .refl _, .refl _, .refl _⟩

/-- The plan for a snapshot. -/
def Graph.Snapshot.plan [LinearOrder Score] {g : Graph} {py : Builtins} (snap : g.Snapshot py)
    (scoring : Scoring Score) (threshold : Score) : DedupPlan Score :=
  planDedup scoring snap.entities snap.mentions snap.relations threshold

/-- A record of the snapshot is that of an entity of the graph. -/
theorem Graph.Snapshot.entity {g : Graph} (h : g.Identified) {py : Builtins} (snap : g.Snapshot py)
    {r : EntityRecord} (hr : r ∈ snap.entities) :
    ∃ i n u, g.labelled .entity i = some n ∧ n.entityRecord = r ∧ n.uuid = some u ∧
      r.uuidText = u := by
  obtain ⟨n, hn, rfl⟩ := List.mem_map.mp (snap.allEntities.mem_iff.mp hr)
  obtain ⟨hn, hlabel⟩ := List.mem_filter.mp hn
  obtain ⟨⟨i, n⟩, hrow, rfl⟩ := List.mem_map.mp hn
  have hlabelled : g.labelled .entity i = some n :=
    labelled_eq_some.mpr ⟨Table.mem_rows.mp hrow, of_decide_eq_true hlabel⟩
  obtain ⟨u, hu⟩ := Option.isSome_iff_exists.mp (h.named hlabelled)
  refine ⟨i, n, u, hlabelled, rfl, hu, ?_⟩
  change n.uuid.getD "None" = u
  rw [hu]
  rfl

section

variable [LinearOrder Score] {g : Graph} (h : g.Identified) (scoring : Scoring Score)
  (snap : g.Snapshot scoring.py) (threshold : Score)

include h

/-- The planner has been sound. -/
theorem Graph.Snapshot.sound :
    (mergeClusters scoring threshold snap.entities).Sound snap.entities [] := by
  refine sound_mergeClusters scoring threshold fun r hr r' hr' heq => ?_
  obtain ⟨i, n, u, hn, rfl, hu, htext⟩ := snap.entity h hr
  obtain ⟨j, m, v, hm, rfl, hv, htext'⟩ := snap.entity h hr'
  obtain rfl : u = v := htext.symm.trans (heq.trans htext')
  obtain rfl := h.unique hn hm hu hv
  rw [Option.some.inj (hn.symm.trans hm)]

/-- The merges that are planned can be made. -/
theorem Graph.Snapshot.mergeable : g.Mergeable (snap.plan scoring threshold) where
  named := h.named
  unique := h.unique
  mentions := h.mentions
  relations := h.relations
  uuids := h.uuids
  chained := (snap.sound h scoring threshold).chained
  known m hm := by
    have hknown : ∀ {text}, (∃ r ∈ snap.entities, r.uuidText = text) →
        g.withUuid .entity text ≠ [] := by
      rintro text ⟨r, hr, rfl⟩
      obtain ⟨i, n, u, hn, -, hu, htext⟩ := snap.entity h hr
      rw [htext]
      exact List.ne_nil_of_mem (mem_withUuid.mpr ⟨n, hn, hu⟩)
    exact ((snap.sound h scoring threshold).known m hm).imp hknown hknown

/-- The planner has counted with the roots of the merges. -/
theorem Graph.Snapshot.victims :
    (mergeClusters scoring threshold snap.entities).victims =
      (snap.plan scoring threshold).redirect :=
  (snap.sound h scoring threshold).victims

end

/-! ## What the counters count -/

section

variable (py : Builtins) (roots : Table String String)

/-- `_rel_key` of the edge of a row -/
def RelationRow.key (row : RelationRow) : String × String × String := relKey roots py row.record

/-- The edge is redirected and becomes a loop. -/
def RelationRow.folds (row : RelationRow) : Bool :=
  relTouched roots row.record && isLoop roots row.record

/-- The ends and the fact of the edge once it is redirected. -/
def RelationRow.image (row : RelationRow) : String × String × Value :=
  (redirected roots row.srcUuid, redirected roots row.dstUuid, row.fact)

/-- An edge that is redirected has the key of this one. -/
def Graph.joined (g : Graph) (row : RelationRow) : Bool :=
  inTouched g.allRelations (RelationRow.key py roots) (fun row => relTouched roots row.record) row

/-- The edges that phase B leaves, moved or not. -/
def Graph.remaining (g : Graph) : List RelationRow :=
  g.allRelations.filter fun row => !row.folds roots

/-- Duplicates that no redirected edge joins: they were there before the merge. -/
def Graph.stale (g : Graph) : ℕ :=
  repeats (RelationRow.image roots) ((g.remaining roots).filter fun row => !g.joined py roots row)

/-- Redirected edges that fold into loops, beyond the first between two nodes. -/
def Graph.parallelLoops (g : Graph) : ℕ :=
  repeats (fun row => (row.srcUuid, row.dstUuid)) (g.allRelations.filter (RelationRow.folds roots))

/-- Groups of phase C that the planner does not tell apart: their facts read as one text. -/
def Graph.blurred (g : Graph) : ℕ :=
  (((g.remaining roots).filter (g.joined py roots)).map (RelationRow.image roots)).toFinset.card -
    ((((g.remaining roots).filter (g.joined py roots)).map (RelationRow.key py roots)).toFinset \
      ((g.allRelations.filter (RelationRow.folds roots)).map
        (RelationRow.key py roots)).toFinset).card

/-- What the planner counts of edges it is given: those that collide, and the loops. -/
def charge (records : List RelationRecord) : ℕ :=
  collisions records (relKey roots py) (relTouched roots) +
    records.countP fun rel => relTouched roots rel && isLoop roots rel

/-- How much more it counts because of what the edges have stored for their ends. -/
def Graph.misread (g : Graph) : ℤ :=
  charge py roots (g.storedRelations py) - charge py roots (g.allRelations.map RelationRow.record)

end

section

variable {py : Builtins} {roots : Table String String} {g : Graph}

/-- Once it is redirected, an edge that is left has the key of what it has become. -/
theorem RelationRow.key_eq {row : RelationRow} (hleft : row.folds roots = false) :
    row.key py roots =
      if (row.image roots).1 = (row.image roots).2.1 then
        ("__self_loop__", (row.image roots).1, (row.image roots).2.1)
      else ((row.image roots).1, (row.image roots).2.1, factText py (row.image roots).2.2) := by
  rw [key, relKey]
  by_cases hloop : isLoop roots row.record = true
  · have hends : (row.image roots).1 = (row.image roots).2.1 := of_decide_eq_true hloop
    rw [if_pos hloop, if_pos hends]
    rw [folds, hloop, Bool.and_true, relTouched, Bool.or_eq_false_iff] at hleft
    have hsame : ∀ {uuid},
        isRedirected roots uuid = false → redirected roots uuid = uuid.getD "" := by
      intro uuid huuid
      rw [isRedirected, Option.isSome_eq_false_iff, Option.isNone_iff_eq_none] at huuid
      rw [redirected, huuid]
      rfl
    exact Prod.ext rfl (Prod.ext (hsame hleft.1).symm (hsame hleft.2).symm)
  · have hends : ¬ (row.image roots).1 = (row.image roots).2.1 := fun h => hloop (decide_eq_true h)
    rw [if_neg hloop, if_neg hends]
    rfl

/-- The edges of a key are joined, or none is. -/
theorem Graph.joined_congr {row row' : RelationRow} (h : row.key py roots = row'.key py roots) :
    g.joined py roots row = g.joined py roots row' := by
  simp only [joined, inTouched, h]

theorem Graph.joined_of_folds {row : RelationRow} (hrow : row ∈ g.allRelations)
    (hfolds : row.folds roots = true) : g.joined py roots row = true := by
  rw [RelationRow.folds, Bool.and_eq_true] at hfolds
  exact List.any_eq_true.mpr ⟨row, hrow, decide_eq_true ⟨rfl, hfolds.1⟩⟩

theorem Graph.of_mem_remaining {row : RelationRow} (hrow : row ∈ g.remaining roots) :
    row ∈ g.allRelations ∧ row.folds roots = false :=
  ⟨List.mem_of_mem_filter hrow, by simpa using (List.mem_filter.mp hrow).2⟩

/-- What is charged are the joined edges that are left, and the loops. -/
theorem Graph.length_joined : (g.allRelations.filter (g.joined py roots)).length =
    ((g.remaining roots).filter (g.joined py roots)).length +
      (g.allRelations.filter (RelationRow.folds roots)).length := by
  have hloops : (g.allRelations.filter (g.joined py roots)).filter (RelationRow.folds roots) =
      g.allRelations.filter (RelationRow.folds roots) := by
    rw [List.filter_filter]
    refine List.filter_congr fun row hrow => ?_
    cases hfolds : row.folds roots
    · rfl
    · rw [joined_of_folds hrow hfolds]
      rfl
  have hrest : (g.allRelations.filter (g.joined py roots)).filter
      (fun row => !row.folds roots) = (g.remaining roots).filter (g.joined py roots) := by
    rw [remaining, List.filter_filter, List.filter_filter]
    exact List.filter_congr fun row _ => Bool.and_comm ..
  have hlen := List.length_eq_length_filter_add (l := g.allRelations.filter (g.joined py roots))
    (RelationRow.folds roots)
  rw [hloops, hrest] at hlen
  omega

/-- And so are its keys. -/
theorem Graph.keys_joined :
    ((g.allRelations.filter (g.joined py roots)).map (RelationRow.key py roots)).toFinset =
      (((g.remaining roots).filter (g.joined py roots)).map (RelationRow.key py roots)).toFinset ∪
        ((g.allRelations.filter (RelationRow.folds roots)).map
          (RelationRow.key py roots)).toFinset := by
  ext k
  simp only [List.mem_toFinset, List.mem_map, Finset.mem_union]
  refine ⟨?_, ?_⟩
  · rintro ⟨row, hrow, rfl⟩
    obtain ⟨hin, hjoined⟩ := List.mem_filter.mp hrow
    cases hfolds : row.folds roots with
    | false =>
      refine .inl ⟨row, List.mem_filter.mpr ⟨List.mem_filter.mpr ⟨hin, ?_⟩, hjoined⟩, rfl⟩
      simp [hfolds]
    | true => exact .inr ⟨row, List.mem_filter.mpr ⟨hin, hfolds⟩, rfl⟩
  · rintro (⟨row, hrow, rfl⟩ | ⟨row, hrow, rfl⟩)
    · obtain ⟨hin, hjoined⟩ := List.mem_filter.mp hrow
      exact ⟨row, List.mem_filter.mpr ⟨(of_mem_remaining hin).1, hjoined⟩, rfl⟩
    · obtain ⟨hin, hfolds⟩ := List.mem_filter.mp hrow
      exact ⟨row, List.mem_filter.mpr ⟨hin, joined_of_folds hin hfolds⟩, rfl⟩

/-- The planner's key tells loops apart by their ends. -/
theorem Graph.parallelLoops_eq (py : Builtins)
    (hnamed : ∀ row ∈ g.allRelations, row.srcUuid.isSome ∧ row.dstUuid.isSome) :
    g.parallelLoops roots =
      repeats (RelationRow.key py roots) (g.allRelations.filter (RelationRow.folds roots)) := by
  refine repeats_eq_of_iff fun a ha b hb => ?_
  obtain ⟨ha, hfolds⟩ := List.mem_filter.mp ha
  obtain ⟨hb, hfolds'⟩ := List.mem_filter.mp hb
  obtain ⟨hu, hv⟩ := hnamed a ha
  obtain ⟨hu', hv'⟩ := hnamed b hb
  obtain ⟨u, hu⟩ := Option.isSome_iff_exists.mp hu
  obtain ⟨v, hv⟩ := Option.isSome_iff_exists.mp hv
  obtain ⟨u', hu'⟩ := Option.isSome_iff_exists.mp hu'
  obtain ⟨v', hv'⟩ := Option.isSome_iff_exists.mp hv'
  rw [RelationRow.folds, Bool.and_eq_true] at hfolds hfolds'
  rw [RelationRow.key, RelationRow.key, relKey, relKey, if_pos hfolds.2, if_pos hfolds'.2]
  simp only [RelationRow.record, hu, hv, hu', hv', Prod.mk.injEq, Option.some.injEq,
    Option.getD_some, true_and]

/-- Of the rows the planner would count what its key repeats, and the loops. -/
theorem Graph.charge_rows (py : Builtins) (roots : Table String String) :
    charge py roots (g.allRelations.map RelationRow.record) =
      repeats (RelationRow.key py roots) (g.allRelations.filter (g.joined py roots)) +
        (g.allRelations.filter (RelationRow.folds roots)).length := by
  rw [charge, collisions_map, collisions_eq, List.countP_map, List.countP_eq_length_filter]
  rfl

/-- Where every edge has stored the uuids of its nodes, nothing is misread. -/
theorem Graph.misread_eq_zero (py : Builtins) (roots : Table String String)
    (hstored : ∀ e ∈ g.relations, ∀ row, g.relationRow e = some row → e.record py = row.record) :
    g.misread py roots = 0 := by
  have hsame : g.storedRelations py = g.allRelations.map RelationRow.record := by
    rw [storedRelations, allRelations]
    revert hstored
    generalize g.relations = es
    intro hstored
    induction es with
    | nil => rfl
    | cons e es ih =>
      have hrest := ih fun e' he' => hstored e' (List.mem_cons_of_mem _ he')
      rcases hrow : g.relationRow e with _ | row
      · simpa [hrow] using hrest
      · simpa [hrow, hstored e List.mem_cons_self row hrow] using hrest
  rw [misread, hsame, sub_self]

/-- What the planner counts is what repeats on the edges that are left, with the loops, exactly
if what it leaves out is as much as what it counts too much. -/
theorem Graph.charge_eq_iff (py : Builtins) (roots : Table String String)
    (hnamed : ∀ row ∈ g.allRelations, row.srcUuid.isSome ∧ row.dstUuid.isSome) :
    charge py roots (g.storedRelations py) =
        repeats (RelationRow.image roots) (g.remaining roots) +
          (g.allRelations.filter (RelationRow.folds roots)).length ↔
      (g.stale py roots : ℤ) = g.parallelLoops roots + g.blurred py roots + g.misread py roots := by
  let charged := g.allRelations.filter (g.joined py roots)
  let loops := g.allRelations.filter (RelationRow.folds roots)
  let both := (g.remaining roots).filter (g.joined py roots)
  -- the edges that are left, in the groups that are charged and in the others
  have hsplit : repeats (RelationRow.image roots) both + g.stale py roots =
      repeats (RelationRow.image roots) (g.remaining roots) := by
    refine repeats_filter_add fun a ha b hb heq => joined_congr ?_
    rw [RelationRow.key_eq (of_mem_remaining ha).2, RelationRow.key_eq (of_mem_remaining hb).2, heq]
  have hcharged : charged.length = both.length + loops.length := length_joined
  have hkeys : (charged.map (RelationRow.key py roots)).toFinset =
      (both.map (RelationRow.key py roots)).toFinset ∪
        (loops.map (RelationRow.key py roots)).toFinset := keys_joined
  have hcard := Finset.card_sdiff_add_card (both.map (RelationRow.key py roots)).toFinset
    (loops.map (RelationRow.key py roots)).toFinset
  rw [← hkeys] at hcard
  have hparallel : g.parallelLoops roots = repeats (RelationRow.key py roots) loops :=
    parallelLoops_eq py hnamed
  -- the planner's key counts the others for less than their ends and facts
  have hless : ((both.map (RelationRow.key py roots)).toFinset \
      (loops.map (RelationRow.key py roots)).toFinset).card ≤
        (both.map (RelationRow.image roots)).toFinset.card := by
    refine (Finset.card_le_card Finset.sdiff_subset).trans ?_
    exact card_keys_le (fun image => if image.1 = image.2.1 then
        ("__self_loop__", image.1, image.2.1)
      else (image.1, image.2.1, factText py image.2.2))
      fun row hrow => RelationRow.key_eq (of_mem_remaining (List.mem_of_mem_filter hrow)).2
  have hrepeats := repeats_add_card (RelationRow.key py roots) charged
  have hrepeats' := repeats_add_card (RelationRow.image roots) both
  have hrepeats'' := repeats_add_card (RelationRow.key py roots) loops
  have hblurred : g.blurred py roots = (both.map (RelationRow.image roots)).toFinset.card -
    ((both.map (RelationRow.key py roots)).toFinset \
      (loops.map (RelationRow.key py roots)).toFinset).card := rfl
  have hrows : charge py roots (g.allRelations.map RelationRow.record) =
      repeats (RelationRow.key py roots) charged + loops.length := charge_rows py roots
  rw [misread, hrows]
  change charge py roots (g.storedRelations py) =
    repeats (RelationRow.image roots) (g.remaining roots) + loops.length ↔ _
  omega

end

section

variable [LinearOrder Score] {g : Graph} (h : g.Identified) (scoring : Scoring Score)
  (snap : g.Snapshot scoring.py) (threshold : Score)

/-- The roots the planner counts with. -/
def DedupPlan.roots (plan : DedupPlan Score) : Table String String := rootMap plan.redirect

include h

/-- The planner says that no `MENTIONS` will go exactly if none that is redirected meets
another one. -/
theorem Graph.Snapshot.mentionsToDrop_eq_zero : (snap.plan scoring threshold).mentionsToDrop = 0 ↔
    g.allMentions.Pairwise fun a b =>
      mentKey (snap.plan scoring threshold).roots a.record =
          mentKey (snap.plan scoring threshold).roots b.record →
        mentTouched (snap.plan scoring threshold).roots a.record = false ∧
          mentTouched (snap.plan scoring threshold).roots b.record = false := by
  rw [DedupPlan.roots, ← snap.victims h, plan, planDedup, collisions_perm snap.allMentions,
    collisions_map, collisions_eq_zero]
  rfl

/-- What the planner says will go of the `RELATES_TO`: those it counts of what they have stored. -/
theorem Graph.Snapshot.removed_eq : (snap.plan scoring threshold).totalRelationsRemoved =
    charge scoring.py (snap.plan scoring threshold).roots (g.storedRelations scoring.py) := by
  rw [DedupPlan.roots, ← snap.victims h, plan, planDedup, DedupPlan.totalRelationsRemoved]
  dsimp only
  rw [collisions_perm snap.allRelations, snap.allRelations.countP_eq]
  rfl

end

end JanusGraph
