import JanusGraph.Graph.Snapshot

/-!
# What a merge leaves of the edges

After phases A to C (`Graph.MovedTo`): which `MENTIONS` and which `RELATES_TO` there are,
and how many, in terms of the rows of the graph before.
-/

namespace JanusGraph

variable {Score : Type} {plan : DedupPlan Score} {g g' : Graph} {py : Builtins}

/-! ## Mentions -/

/-- Phase A moves the edge. -/
def Graph.moves (g : Graph) (plan : DedupPlan Score) (e : Mention) : Bool :=
  (g.mentionRow e).any fun row => row.dstUuid ∈ plan.victims.map some && row.resolve.isSome

/-- The rows of the edges that phase A moves. -/
def Graph.movedRows (g : Graph) (plan : DedupPlan Score) : List MentionRow :=
  g.allMentions.filter fun row => row.dstUuid ∈ plan.victims.map some && row.resolve.isSome

theorem Graph.mem_movedRows {row : MentionRow} :
    row ∈ g.movedRows plan ↔
      ∃ e ∈ g.mentions, g.mentionRow e = some row ∧ g.moves plan e = true := by
  simp only [movedRows, allMentions, List.mem_filter, List.mem_filterMap, moves]
  refine ⟨?_, ?_⟩
  · rintro ⟨⟨e, he, hrow⟩, hmoves⟩
    exact ⟨e, he, hrow, by rwa [hrow]⟩
  · rintro ⟨e, he, hrow, hmoves⟩
    rw [hrow] at hmoves
    exact ⟨⟨e, he, hrow⟩, hmoves⟩

theorem Graph.length_movedRows :
    (g.movedRows plan).length = (g.mentions.filter (g.moves plan)).length := by
  rw [movedRows, allMentions, List.filter_filterMap, List.length_filterMap_eq_countP,
    List.countP_eq_length_filter]
  congr 1
  refine List.filter_congr fun e _ => ?_
  rw [moves]
  cases g.mentionRow e with
  | none => rfl
  | some row => simp [Option.filter_some, apply_ite]

/-- The edges that stay, and those that are made. -/
theorem Graph.MovedTo.mentions_eq (hmoved : g.MovedTo py plan g') (h : g.Mergeable plan) :
    ∃ rows : List MentionRow, rows.Perm (g.movedRows plan) ∧
      g'.mentions = (g.mentions.filter fun e => !g.moves plan e) ++
        rows.flatMap (g.movedTo plan.redirect) := by
  obtain ⟨rows, hrows, hmentions⟩ := hmoved.mentions
  have hperm : (rows.filter fun row => row.resolve.isSome).Perm (g.movedRows plan) := by
    refine (hrows.filter _).trans (.of_eq ?_)
    rw [mentionRows, List.filter_filter]
    exact List.filter_congr fun row _ => Bool.and_comm ..
  refine ⟨_, hperm, hmentions.trans ?_⟩
  rw [movedMentions]
  congr 1
  refine List.filter_congr fun e he => ?_
  rw [decide_not]
  refine congrArg not ?_
  rw [Bool.eq_iff_iff, decide_eq_true_eq, (hperm.map MentionRow.edgeUuid).mem_iff, List.mem_map]
  refine ⟨?_, ?_⟩
  · rintro ⟨row, hrow, huuid⟩
    obtain ⟨e', he', hrow', hmoves⟩ := mem_movedRows.mp hrow
    obtain rfl := List.inj_on_of_nodup_map h.mentions he he'
      (huuid.symm.trans (of_mentionRow hrow').2.2)
    exact hmoves
  · intro hmoves
    obtain ⟨row, hrow, -⟩ := (Option.any_eq_true _ _).mp hmoves
    exact ⟨row, mem_movedRows.mpr ⟨e, he, hrow, hmoves⟩, (of_mentionRow hrow).2.2⟩

/-- An edge that phase A moves, its row, and what is made for it. -/
theorem Graph.Mergeable.of_moves (h : g.Mergeable plan) {e : Mention}
    (hmoves : g.moves plan e = true) : ∃ row u v, g.mentionRow e = some row ∧
      row.srcUuid = some u ∧ row.dstUuid = some v ∧ v ∈ plan.victims ∧
      e.src ∈ g.withUuid .episodic u ∧ e.dst ∈ g.withUuid .entity v ∧
      ∃ j, g.withUuid .entity (rootIn plan.redirect v) = [j] ∧
        g.movedTo plan.redirect row = (g.withUuid .episodic u).map fun i =>
          ⟨i, j, e.uuid, some (orDefault row.groupId "graphiti_memory"), orNone row.createdAt⟩ := by
  obtain ⟨row, hrow, hmoves⟩ := (Option.any_eq_true _ _).mp hmoves
  rw [Bool.and_eq_true, decide_eq_true_eq] at hmoves
  obtain ⟨hvictim, hresolved⟩ := hmoves
  obtain ⟨⟨s, hs, hsrc⟩, ⟨t, ht, hdst⟩, huuid⟩ := of_mentionRow hrow
  obtain ⟨v, hv, hdst'⟩ := List.mem_map.mp hvictim
  obtain ⟨u, hu⟩ := exists_srcUuid hresolved
  obtain ⟨j, hj⟩ := List.exists_mem_of_ne_nil _ (h.root hv).2
  have hroot := Unique.withUuid_eq h.unique hj
  refine ⟨row, u, v, hrow, hu, hdst'.symm, hv, mem_withUuid.mpr ⟨s, hs, hsrc.symm.trans hu⟩,
    mem_withUuid.mpr ⟨t, ht, hdst.symm.trans hdst'.symm⟩, j, hroot, ?_⟩
  rw [movedTo, created, hu, ← hdst', Option.getD_some, Option.getD_some, hroot, huuid]
  simp only [List.map_cons, List.map_nil]
  exact List.map_eq_flatMap.symm

/-- The same of a row that is moved. -/
theorem Graph.Mergeable.of_movedRow (h : g.Mergeable plan) {row : MentionRow}
    (hrow : row ∈ g.movedRows plan) : ∃ e ∈ g.mentions, ∃ u v, g.mentionRow e = some row ∧
      row.srcUuid = some u ∧ row.dstUuid = some v ∧ v ∈ plan.victims ∧
      e.src ∈ g.withUuid .episodic u ∧ e.dst ∈ g.withUuid .entity v ∧
      ∃ j, g.withUuid .entity (rootIn plan.redirect v) = [j] ∧
        g.movedTo plan.redirect row = (g.withUuid .episodic u).map fun i =>
          ⟨i, j, e.uuid, some (orDefault row.groupId "graphiti_memory"), orNone row.createdAt⟩ := by
  obtain ⟨e, he, hrow, hmoves⟩ := mem_movedRows.mp hrow
  obtain ⟨row', u, v, hrow', hmade⟩ := h.of_moves hmoves
  obtain rfl := Option.some.inj (hrow.symm.trans hrow')
  exact ⟨e, he, u, v, hrow, hmade⟩

/-- Numbers that are all positive sum up to more than there are of them, unless they are ones. -/
theorem length_eq_sum_add_iff {α : Type} {l : List α} {f : α → ℕ} (hpos : ∀ a ∈ l, 1 ≤ f a)
    {d : ℕ} : l.length = (l.map f).sum + d ↔ d = 0 ∧ ∀ a ∈ l, f a = 1 := by
  induction l generalizing d with
  | nil => simp [eq_comm]
  | cons a l ih =>
    have hle := List.length_le_sum_of_one_le (l.map f) (by
      simpa using fun b hb => hpos b (List.mem_cons_of_mem a hb))
    have hone := hpos a List.mem_cons_self
    have hrest := ih (fun b hb => hpos b (List.mem_cons_of_mem a hb)) (d := 0)
    rw [List.length_map] at hle
    rw [List.map_cons, List.sum_cons, List.length_cons, List.forall_mem_cons]
    refine ⟨?_, ?_⟩
    · intro heq
      exact ⟨by omega, by omega, (hrest.mp (by omega)).2⟩
    · rintro ⟨rfl, ha, hl⟩
      have hlen := hrest.mpr ⟨rfl, hl⟩
      omega

/-- Phase A makes an edge for each episode with the uuid: there are fewer `MENTIONS` after it
in no case, and as many only if the uuid is always that of one episode. -/
theorem Graph.MovedTo.length_mentions_iff (hmoved : g.MovedTo py plan g') (h : g.Mergeable plan)
    (d : ℕ) : g.mentions.length = g'.mentions.length + d ↔
      d = 0 ∧ ∀ row ∈ g.movedRows plan,
        (g.withUuid .episodic (row.srcUuid.getD "")).length = 1 := by
  obtain ⟨rows, hrows, hmentions⟩ := hmoved.mentions_eq h
  have hmade : ∀ row ∈ rows, (g.movedTo plan.redirect row).length =
      (g.withUuid .episodic (row.srcUuid.getD "")).length := by
    intro row hrow
    obtain ⟨e, -, u, v, -, hu, -, -, -, -, j, -, hmade⟩ := h.of_movedRow (hrows.mem_iff.mp hrow)
    rw [hmade, List.length_map, hu]
    rfl
  have hpos : ∀ row ∈ rows, 1 ≤ (g.movedTo plan.redirect row).length := by
    intro row hrow
    obtain ⟨e, -, u, v, -, hu, -, -, hsrc, -⟩ := h.of_movedRow (hrows.mem_iff.mp hrow)
    rw [hmade row hrow, hu]
    exact List.length_pos_of_mem hsrc
  have hlen := List.length_eq_length_filter_add (l := g.mentions) (g.moves plan)
  rw [← length_movedRows, ← hrows.length_eq] at hlen
  rw [hmentions, List.length_append, List.length_flatMap, hlen]
  have hsum := length_eq_sum_add_iff hpos (d := d)
  simp only [← hrows.mem_iff]
  rw [forall₂_congr fun row hrow => by rw [hmade row hrow]] at hsum
  rw [← hsum]
  constructor <;> intro heq <;> omega

/-! ## Victims -/

/-- The node is a victim. -/
def DedupPlan.isVictim (plan : DedupPlan Score) (n : Node) : Bool :=
  n.label = .entity ∧ n.uuid ∈ plan.victims.map some

/-- There is a victim at the end of an edge. -/
def Graph.victimAt (g : Graph) (plan : DedupPlan Score) (i : ℕ) : Bool :=
  (g.nodes.get? i).any plan.isVictim

theorem Graph.victimAt_iff {i : ℕ} :
    g.victimAt plan i = true ↔ ∃ v ∈ plan.victims, i ∈ g.withUuid .entity v := by
  simp only [victimAt, DedupPlan.isVictim, Option.any_eq_true, decide_eq_true_eq, List.mem_map,
    mem_withUuid, labelled_eq_some]
  refine ⟨?_, ?_⟩
  · rintro ⟨n, hn, hlabel, v, hv, huuid⟩
    exact ⟨v, hv, n, ⟨hn, hlabel⟩, huuid.symm⟩
  · rintro ⟨v, hv, n, ⟨hn, hlabel⟩, huuid⟩
    exact ⟨n, hn, hlabel, v, hv, huuid.symm⟩

theorem Graph.victimAt_entity {i : ℕ} {u : String} (hi : i ∈ g.withUuid .entity u) :
    g.victimAt plan i = true ↔ u ∈ plan.victims := by
  rw [victimAt_iff]
  refine ⟨?_, ?_⟩
  · rintro ⟨v, hv, hi'⟩
    rwa [withUuid_inj hi hi']
  · exact fun hu => ⟨u, hu, hi⟩

theorem Graph.not_victimAt_episodic (plan : DedupPlan Score) {i : ℕ} {u : String}
    (hi : i ∈ g.withUuid .episodic u) :
    g.victimAt plan i = false := by
  rw [← Bool.not_eq_true, victimAt_iff]
  rintro ⟨v, -, hi'⟩
  obtain ⟨n, hn, -⟩ := mem_withUuid.mp hi
  obtain ⟨m, hm, -⟩ := mem_withUuid.mp hi'
  obtain ⟨hn, hlabel⟩ := labelled_eq_some.mp hn
  obtain ⟨hm, hlabel'⟩ := labelled_eq_some.mp hm
  obtain rfl := Option.some.inj (hn.symm.trans hm)
  rw [hlabel] at hlabel'
  cases hlabel'

/-- Phase A frees the victims exactly if it moves every edge at one. -/
theorem Graph.MovedTo.mentions_free_iff (hmoved : g.MovedTo py plan g') (h : g.Mergeable plan) :
    (∀ e ∈ g'.mentions, g.victimAt plan e.src = false ∧ g.victimAt plan e.dst = false) ↔
      ∀ e ∈ g.mentions, g.victimAt plan e.src = true ∨ g.victimAt plan e.dst = true →
        g.moves plan e = true := by
  obtain ⟨rows, hrows, hmentions⟩ := hmoved.mentions_eq h
  refine ⟨?_, ?_⟩
  · intro hfree e he hvictim
    by_contra hstays
    have hin : e ∈ g'.mentions := by
      rw [hmentions]
      exact List.mem_append_left _ (List.mem_filter.mpr ⟨he, by simpa using hstays⟩)
    obtain ⟨hsrc, hdst⟩ := hfree e hin
    rw [hsrc, hdst] at hvictim
    simp at hvictim
  · intro hall e he
    rw [hmentions] at he
    rcases List.mem_append.mp he with he | he
    · obtain ⟨he, hstays⟩ := List.mem_filter.mp he
      rw [Bool.not_eq_true'] at hstays
      by_contra hvictim
      rw [not_and_or, Bool.not_eq_false, Bool.not_eq_false] at hvictim
      rw [hall e he hvictim] at hstays
      cases hstays
    · obtain ⟨row, hrow, he⟩ := List.mem_flatMap.mp he
      obtain ⟨e₀, -, u, v, -, -, -, -, -, -, j, hroot, hmade⟩ :=
        h.of_movedRow (hrows.mem_iff.mp hrow)
      rw [hmade] at he
      obtain ⟨i, hi, rfl⟩ := List.mem_map.mp he
      refine ⟨not_victimAt_episodic plan hi, ?_⟩
      rw [← Bool.not_eq_true, victimAt_entity (hroot ▸ List.mem_singleton_self j)]
      exact h.chained.root_not_mem v

/-! ## Relations -/

/-- A group of phase C that has both uuids. -/
def groupOf (image : String × String × Value) : Option String × Option String × Value :=
  (some image.1, some image.2.1, image.2.2)

theorem groupOf_inj {image image' : String × String × Value} :
    groupOf image = groupOf image' ↔ image = image' := by
  simp [groupOf, Prod.ext_iff]

/-- The row has these uuids for its ends. -/
def RelationRow.Joins (row : RelationRow) (u v : String) : Prop :=
  row.srcUuid = some u ∧ row.dstUuid = some v

section

variable {row : RelationRow} {u v : String} (hends : row.Joins u v)

include hends

theorem RelationRow.Joins.image_eq : row.image plan.roots =
    (rootIn plan.redirect u, rootIn plan.redirect v, row.fact) := by
  rw [RelationRow.image, hends.1, hends.2]
  rfl

theorem RelationRow.Joins.newSrc_eq : row.newSrc plan.redirect = rootIn plan.redirect u := by
  rw [RelationRow.newSrc, hends.1, Option.getD_some]

theorem RelationRow.Joins.newDst_eq : row.newDst plan.redirect = rootIn plan.redirect v := by
  rw [RelationRow.newDst, hends.2, Option.getD_some]

theorem RelationRow.Joins.touched_iff :
    row.touched plan = true ↔ u ∈ plan.victims ∨ v ∈ plan.victims := by
  simp [RelationRow.touched, hends.1, hends.2]

/-- An edge folds if it is redirected and both ends have one root. -/
theorem RelationRow.Joins.folds_iff : row.folds plan.roots = true ↔
    (u ∈ plan.victims ∨ v ∈ plan.victims) ∧ rootIn plan.redirect u = rootIn plan.redirect v := by
  have hredirected : ∀ w, isRedirected plan.roots (some w) = true ↔ w ∈ plan.victims := by
    intro w
    rw [isRedirected, DedupPlan.roots, rootMap, Table.get?_map, Option.isSome_map,
      Option.getD_some, ← not_iff_not, Bool.not_eq_true, Option.isSome_eq_false_iff,
      Option.isNone_iff_eq_none, get?_redirect_eq_none]
  rw [RelationRow.folds, Bool.and_eq_true, relTouched, RelationRow.record, hends.1, hends.2,
    Bool.or_eq_true, hredirected, hredirected, isLoop, decide_eq_true_eq]
  rfl

end

/-- The row of an edge, with the uuids of its ends. -/
theorem Graph.Mergeable.joins (h : g.Mergeable plan) {e : Relation} {row : RelationRow}
    (hrow : g.relationRow e = some row) : ∃ u v, row.Joins u v ∧
      e.src ∈ g.withUuid .entity u ∧ e.dst ∈ g.withUuid .entity v ∧ row.fact = e.prop "fact" := by
  obtain ⟨u, v, hu, hv, hsrc, hdst⟩ := h.ends hrow
  exact ⟨u, v, ⟨hu, hv⟩, hsrc, hdst, (Graph.of_relationRow hrow).2.2.2⟩

/-- The same of a row of the graph. -/
theorem Graph.Mergeable.of_relation (h : g.Mergeable plan) {row : RelationRow}
    (hrow : row ∈ g.allRelations) : ∃ e ∈ g.relations, ∃ u v, row.Joins u v ∧
      e.src ∈ g.withUuid .entity u ∧ e.dst ∈ g.withUuid .entity v ∧ row.fact = e.prop "fact" := by
  obtain ⟨e, he, hrow⟩ := List.mem_filterMap.mp hrow
  exact ⟨e, he, h.joins hrow⟩

/-- A row that is redirected: it folds, or one edge is made for it. -/
theorem Graph.Mergeable.remade_eq (h : g.Mergeable plan) (py : Builtins) {row : RelationRow}
    (hrow : row ∈ g.allRelations) (htouched : row.touched plan = true) :
    if row.folds plan.roots then g.remade py plan.redirect row = []
    else ∃ e, g.remade py plan.redirect row = [e] ∧
      g.relationGroup e = some (groupOf (row.image plan.roots)) ∧
      e.src ∈ g.withUuid .entity (row.image plan.roots).1 ∧
      e.dst ∈ g.withUuid .entity (row.image plan.roots).2.1 := by
  obtain ⟨e₀, he₀, u, v, hends, hsrc, hdst, -⟩ := h.of_relation hrow
  have hroot : ∀ {w : String} {i : ℕ}, i ∈ g.withUuid .entity w →
      ∃ j, g.withUuid .entity (rootIn plan.redirect w) = [j] := by
    intro w i hi
    by_cases hw : w ∈ plan.victims
    · obtain ⟨j, hj⟩ := List.exists_mem_of_ne_nil _ (h.root hw).2
      exact ⟨j, Unique.withUuid_eq h.unique hj⟩
    · rw [rootIn_of_not_mem hw]
      exact ⟨i, Unique.withUuid_eq h.unique hi⟩
  rw [remade, hends.newSrc_eq, hends.newDst_eq]
  split
  · next hfold => rw [if_pos (hends.folds_iff.mp hfold).2]
  · next hnot =>
    obtain ⟨i, hi⟩ := hroot hsrc
    obtain ⟨j, hj⟩ := hroot hdst
    have hne : ¬ rootIn plan.redirect u = rootIn plan.redirect v := fun heq =>
      hnot (hends.folds_iff.mpr ⟨hends.touched_iff.mp htouched, heq⟩)
    have hin : i ∈ g.withUuid .entity (rootIn plan.redirect u) := hi ▸ List.mem_singleton_self i
    have hjn : j ∈ g.withUuid .entity (rootIn plan.redirect v) := hj ▸ List.mem_singleton_self j
    rw [if_neg hne, createdRelations, hi, hj, hends.image_eq]
    refine ⟨_, rfl, ?_, hin, hjn⟩
    obtain ⟨row', hrow'', -, hsrc', hdst'⟩ := isSome_relationRow
      (e := ⟨i, j, storedProps (recreatedProps py row (rootIn plan.redirect u)
        (rootIn plan.redirect v))⟩) hin hjn
    rw [relationGroup, hrow'', Option.map_some, hsrc', hdst', (of_relationRow hrow'').2.2.2,
      prop_recreated]
    rfl

/-- Phase B takes the edge away. -/
def Graph.takes (g : Graph) (plan : DedupPlan Score) (e : Relation) : Bool :=
  (g.relationRow e).any (RelationRow.touched plan)

/-- The edges that stay and those that are made, without the duplicates. -/
theorem Graph.MovedTo.relations_eq (hmoved : g.MovedTo py plan g') (h : g.Mergeable plan) :
    ∃ (rows : List RelationRow) (es : List Relation),
      rows.Perm (g.allRelations.filter (RelationRow.touched plan)) ∧
      es.Perm ((g.relations.filter fun e => !g.takes plan e) ++
        rows.flatMap (g.remade py plan.redirect)) ∧
      g'.relations = firsts g.relationGroup es [] := by
  obtain ⟨rows, es, hrows, hes, hrelations⟩ := hmoved.relations
  refine ⟨rows, es, hrows, hes.trans (.of_eq ?_), hrelations⟩
  rw [movedRelations]
  congr 1
  refine List.filter_congr fun e he => ?_
  rw [decide_not]
  refine congrArg not ?_
  rw [Bool.eq_iff_iff, decide_eq_true_eq, (hrows.map RelationRow.edgeUuid).mem_iff, List.mem_map]
  refine ⟨?_, ?_⟩
  · rintro ⟨row, hrow, huuid⟩
    obtain ⟨hrow, htouched⟩ := List.mem_filter.mp hrow
    obtain ⟨e', he', hrow'⟩ := List.mem_filterMap.mp hrow
    obtain rfl := List.inj_on_of_nodup_map h.relations he he'
      (huuid.symm.trans (of_relationRow hrow').2.2.1)
    rwa [takes, hrow']
  · intro htakes
    obtain ⟨row, hrow, htouched⟩ := (Option.any_eq_true _ _).mp htakes
    exact ⟨row, List.mem_filter.mpr ⟨List.mem_filterMap.mpr ⟨e, he, hrow⟩, htouched⟩,
      (of_relationRow hrow).2.2.1⟩

/-- The groups of the edges that phase B leaves. -/
theorem Graph.Mergeable.groups_perm (h : g.Mergeable plan) {rows : List RelationRow}
    (hrows : rows.Perm (g.allRelations.filter (RelationRow.touched plan))) :
    (((g.relations.filter fun e => !g.takes plan e) ++
        rows.flatMap (g.remade py plan.redirect)).filterMap g.relationGroup).Perm
      ((g.remaining plan.roots).map fun row => groupOf (row.image plan.roots)) := by
  have hstay : (g.relations.filter fun e => !g.takes plan e).filterMap g.relationGroup =
      (g.allRelations.filter fun row => !row.touched plan).map fun row =>
        groupOf (row.image plan.roots) := by
    rw [allRelations, List.filter_filterMap, List.map_filterMap, List.filterMap_filter]
    refine List.filterMap_congr fun e he => ?_
    rw [takes, relationGroup]
    rcases hrow : g.relationRow e with _ | row
    · rfl
    · obtain ⟨u, v, hends, -⟩ := h.joins hrow
      rw [Option.any_some, Option.filter_some, Option.map_some]
      cases htaken : row.touched plan with
      | true => rfl
      | false =>
        rw [← Bool.not_eq_true, hends.touched_iff, not_or] at htaken
        change some _ = some (groupOf (row.image plan.roots))
        rw [hends.image_eq, rootIn_of_not_mem htaken.1, rootIn_of_not_mem htaken.2, hends.1,
          hends.2]
        rfl
  have hmade : (rows.flatMap (g.remade py plan.redirect)).filterMap g.relationGroup =
      (rows.filter fun row => !row.folds plan.roots).map fun row =>
        groupOf (row.image plan.roots) := by
    have hin : ∀ row ∈ rows, row ∈ g.allRelations ∧ row.touched plan = true := fun row hrow =>
      List.mem_filter.mp (hrows.mem_iff.mp hrow)
    clear hrows
    induction rows with
    | nil => rfl
    | cons row rows ih =>
      have hremade := h.remade_eq py (hin row List.mem_cons_self).1 (hin row List.mem_cons_self).2
      have hrest := ih fun row' hrow' => hin row' (List.mem_cons_of_mem row hrow')
      rw [List.flatMap_cons, List.filterMap_append, hrest]
      split at hremade
      · next hfolds => rw [hremade, List.filter_cons_of_neg (by simp [hfolds]), List.filterMap_nil,
          List.nil_append]
      · next hfolds =>
        obtain ⟨e, hone, hgroup, -⟩ := hremade
        rw [hone, List.filter_cons_of_pos (by simp [hfolds]), List.filterMap_cons_some hgroup]
        rfl
  rw [List.filterMap_append, hstay, hmade, ← List.map_append]
  refine List.Perm.map _ ?_
  have hmoved : (rows.filter fun row => !row.folds plan.roots).Perm
      ((g.remaining plan.roots).filter (RelationRow.touched plan)) := by
    refine (hrows.filter _).trans (.of_eq ?_)
    rw [remaining, List.filter_filter, List.filter_filter]
    exact List.filter_congr fun row _ => Bool.and_comm ..
  have hleft : (g.allRelations.filter fun row => !row.touched plan) =
      (g.remaining plan.roots).filter fun row => !row.touched plan := by
    rw [remaining, List.filter_filter]
    refine List.filter_congr fun row hrow => ?_
    obtain ⟨e, -, u, v, hends, -⟩ := h.of_relation hrow
    cases htouched : row.touched plan with
    | true => rfl
    | false =>
      have hnot : row.folds plan.roots = false := by
        rw [← Bool.not_eq_true, hends.touched_iff] at htouched
        rw [← Bool.not_eq_true, hends.folds_iff]
        exact fun hfolds => htouched hfolds.1
      rw [hnot]
      rfl
  rw [hleft]
  exact (List.perm_append_comm.trans (hmoved.append_right _)).trans
    (List.filter_append_perm _ _)

/-- An edge that is made, from its row. -/
theorem Graph.Mergeable.of_mem_made (h : g.Mergeable plan) {rows : List RelationRow}
    (hrows : rows.Perm (g.allRelations.filter (RelationRow.touched plan))) {e : Relation}
    (he : e ∈ rows.flatMap (g.remade py plan.redirect)) :
    ∃ row ∈ g.allRelations, row.touched plan = true ∧ row.folds plan.roots = false ∧
      g.relationGroup e = some (groupOf (row.image plan.roots)) ∧
      e.src ∈ g.withUuid .entity (row.image plan.roots).1 ∧
      e.dst ∈ g.withUuid .entity (row.image plan.roots).2.1 := by
  obtain ⟨row, hrow, he⟩ := List.mem_flatMap.mp he
  obtain ⟨hrow, htouched⟩ := List.mem_filter.mp (hrows.mem_iff.mp hrow)
  have hremade := h.remade_eq py hrow htouched
  split at hremade
  · rw [hremade] at he
    cases he
  · next hfolds =>
    obtain ⟨e', hone, hgroup, hsrc, hdst⟩ := hremade
    obtain rfl := List.mem_singleton.mp (hone ▸ he)
    exact ⟨row, hrow, htouched, by simpa using hfolds, hgroup, hsrc, hdst⟩

theorem Graph.relationGroup_isNone {e : Relation} :
    (g.relationGroup e).isNone = (g.relationRow e).isNone := by
  rw [relationGroup, Option.isNone_map]

/-- How many `RELATES_TO` go: those that fold, and what repeats of the others. -/
theorem Graph.MovedTo.length_relations (hmoved : g.MovedTo py plan g') (h : g.Mergeable plan) :
    g.relations.length = g'.relations.length +
      (repeats (RelationRow.image plan.roots) (g.remaining plan.roots) +
        (g.allRelations.filter (RelationRow.folds plan.roots)).length) := by
  obtain ⟨rows, es, hrows, hes, hrelations⟩ := hmoved.relations_eq h
  have hgroups := (hes.filterMap g.relationGroup).trans (h.groups_perm hrows)
  have hfirsts := length_firsts_add g.relationGroup es
  have himage : repeats (id ∘ fun row => groupOf (row.image plan.roots)) (g.remaining plan.roots) =
      repeats (RelationRow.image plan.roots) (g.remaining plan.roots) :=
    repeats_eq_of_iff fun a _ b _ => groupOf_inj
  rw [← hrelations, repeats_perm hgroups, repeats_map, himage] at hfirsts
  -- the edges that are in no group stay
  have hnone : (es.filter fun e => (g.relationGroup e).isNone).length =
      (g.relations.filter fun e => (g.relationGroup e).isNone).length := by
    rw [(hes.filter _).length_eq, List.filter_append, List.filter_filter]
    have hmade : (rows.flatMap (g.remade py plan.redirect)).filter
        (fun e => (g.relationGroup e).isNone) = [] := by
      refine List.filter_eq_nil_iff.mpr fun e he => ?_
      obtain ⟨row, -, -, -, hgroup, -⟩ := h.of_mem_made hrows he
      simp [hgroup]
    rw [hmade, List.append_nil]
    congr 1
    refine List.filter_congr fun e _ => ?_
    rw [relationGroup_isNone, takes]
    cases g.relationRow e with
    | none => rfl
    | some row => rfl
  have hlen := length_filterMap_add g.relationGroup es
  have hlen' := length_filterMap_add g.relationGroup g.relations
  have hall : (g.relations.filterMap g.relationGroup).length = g.allRelations.length := by
    rw [allRelations, List.length_filterMap_eq_countP, List.length_filterMap_eq_countP]
    refine List.countP_congr fun e _ => ?_
    rw [relationGroup, Option.isSome_map]
  have hsplit := List.length_eq_length_filter_add (l := g.allRelations)
    (RelationRow.folds plan.roots)
  rw [hgroups.length_eq, List.length_map, remaining, hnone] at hlen
  rw [hall] at hlen'
  omega

/-- What is related after the merge, and by which facts. -/
theorem Graph.MovedTo.mem_groups (hmoved : g.MovedTo py plan g') (h : g.Mergeable plan)
    {group : Option String × Option String × Value} :
    group ∈ g'.relations.filterMap g.relationGroup ↔
      ∃ row ∈ g.remaining plan.roots, groupOf (row.image plan.roots) = group := by
  obtain ⟨rows, es, hrows, hes, hrelations⟩ := hmoved.relations_eq h
  have hgroups := (hes.filterMap g.relationGroup).trans (h.groups_perm hrows)
  rw [hrelations, (firsts_keys g.relationGroup es []).2, hgroups.mem_iff, List.mem_map]
  simp

/-- Phases B and C free the victims exactly if every edge at one is one between entities. -/
theorem Graph.MovedTo.relations_free_iff (hmoved : g.MovedTo py plan g') (h : g.Mergeable plan) :
    (∀ e ∈ g'.relations, g.victimAt plan e.src = false ∧ g.victimAt plan e.dst = false) ↔
      ∀ e ∈ g.relations, g.victimAt plan e.src = true ∨ g.victimAt plan e.dst = true →
        (g.relationRow e).isSome = true := by
  obtain ⟨rows, es, hrows, hes, hrelations⟩ := hmoved.relations_eq h
  refine ⟨?_, ?_⟩
  · intro hfree e he hvictim
    by_contra hnone
    rw [Bool.not_eq_true, Option.isSome_eq_false_iff] at hnone
    have hin : e ∈ g'.relations := by
      have hin : e ∈ es := by
        refine hes.mem_iff.mpr (List.mem_append_left _ (List.mem_filter.mpr ⟨he, ?_⟩))
        rw [takes, Option.isNone_iff_eq_none.mp hnone]
        rfl
      rw [hrelations]
      exact mem_firsts_of_none hin (by
        rwa [← Option.isNone_iff_eq_none, relationGroup_isNone])
    obtain ⟨hsrc, hdst⟩ := hfree e hin
    rw [hsrc, hdst] at hvictim
    simp at hvictim
  · intro hall e he
    rw [hrelations] at he
    have hroot : ∀ {i u}, i ∈ g.withUuid .entity (rootIn plan.redirect u) →
        g.victimAt plan i = false := by
      intro i u hi
      rw [← Bool.not_eq_true, victimAt_entity hi]
      exact h.chained.root_not_mem u
    rcases List.mem_append.mp (hes.mem_iff.mp ((firsts_sublist _ _ _).subset he)) with he | he
    · obtain ⟨he, hstays⟩ := List.mem_filter.mp he
      by_contra hvictim
      rw [not_and_or, Bool.not_eq_false, Bool.not_eq_false] at hvictim
      obtain ⟨row, hrow⟩ := Option.isSome_iff_exists.mp (hall e he hvictim)
      obtain ⟨u, v, hends, hsrc, hdst, -⟩ := h.joins hrow
      rw [victimAt_entity hsrc, victimAt_entity hdst] at hvictim
      rw [takes, hrow, Option.any_some, hends.touched_iff.mpr hvictim] at hstays
      cases hstays
    · obtain ⟨row, hrow, -, -, -, hsrc, hdst⟩ := h.of_mem_made hrows he
      obtain ⟨e', -, u, v, hends, -⟩ := h.of_relation hrow
      rw [hends.image_eq] at hsrc hdst
      exact ⟨hroot hsrc, hroot hdst⟩

/-! ## Edges aside -/

/-- The node is a victim or a survivor of a merge. -/
def DedupPlan.isMerged (plan : DedupPlan Score) (n : Node) : Bool :=
  n.label = .entity ∧ n.uuid ∈ (plan.victims ++ plan.merges.map Merge.survivorUuid).map some

/-- No end of the edge is a victim or a survivor. -/
def Graph.aside (g : Graph) (plan : DedupPlan Score) (src dst : ℕ) : Bool :=
  !(g.nodes.get? src).any plan.isMerged && !(g.nodes.get? dst).any plan.isMerged

theorem Graph.isMerged_of_mem {i : ℕ} {u : String} (hi : i ∈ g.withUuid .entity u)
    (hu : u ∈ plan.victims ∨ ∃ m ∈ plan.merges, m.survivorUuid = u) :
    (g.nodes.get? i).any plan.isMerged = true := by
  obtain ⟨n, hn, huuid⟩ := mem_withUuid.mp hi
  obtain ⟨hn, hlabel⟩ := labelled_eq_some.mp hn
  rw [hn, Option.any_some, DedupPlan.isMerged, decide_eq_true_eq]
  refine ⟨hlabel, List.mem_map.mpr ⟨u, List.mem_append.mpr (hu.imp id ?_), huuid.symm⟩⟩
  rintro ⟨m, hm, rfl⟩
  exact List.mem_map_of_mem hm

/-- An edge at a victim, or at the root of one, is not aside. -/
theorem Graph.Mergeable.not_aside (h : g.Mergeable plan) {src dst i : ℕ} (hi : i = src ∨ i = dst)
    {v : String} (hv : v ∈ plan.victims)
    (hend : i ∈ g.withUuid .entity v ∨ i ∈ g.withUuid .entity (rootIn plan.redirect v)) :
    g.aside plan src dst = false := by
  have hmerged : (g.nodes.get? i).any plan.isMerged = true := by
    rcases hend with hend | hend
    · exact isMerged_of_mem hend (.inl hv)
    · exact isMerged_of_mem hend (.inr (h.chained.root_mem hv))
  rcases hi with rfl | rfl <;> simp [aside, hmerged]

/-- The `MENTIONS` aside are unchanged. -/
theorem Graph.MovedTo.mentions_aside (hmoved : g.MovedTo py plan g') (h : g.Mergeable plan) :
    (g'.mentions.filter fun e => g.aside plan e.src e.dst) =
      g.mentions.filter fun e => g.aside plan e.src e.dst := by
  obtain ⟨rows, hrows, hmentions⟩ := hmoved.mentions_eq h
  rw [hmentions, List.filter_append, List.filter_filter]
  have hmade : (rows.flatMap (g.movedTo plan.redirect)).filter
      (fun e => g.aside plan e.src e.dst) = [] := by
    refine List.filter_eq_nil_iff.mpr fun e he => ?_
    obtain ⟨row, hrow, he⟩ := List.mem_flatMap.mp he
    obtain ⟨e₀, -, u, v, -, -, -, hv, -, -, j, hroot, hmade⟩ :=
      h.of_movedRow (hrows.mem_iff.mp hrow)
    rw [hmade] at he
    obtain ⟨i, -, rfl⟩ := List.mem_map.mp he
    rw [h.not_aside (.inr rfl) hv (.inr (hroot ▸ List.mem_singleton_self j))]
    exact Bool.false_ne_true
  rw [hmade, List.append_nil]
  refine List.filter_congr fun e he => ?_
  cases hmoves : g.moves plan e with
  | false => simp
  | true =>
    obtain ⟨row, u, v, -, -, -, hv, -, hdst, -⟩ := h.of_moves hmoves
    rw [h.not_aside (.inr rfl) hv (.inl hdst)]
    rfl

/-- The `RELATES_TO` aside are unchanged exactly if they have no duplicates: phase C takes
those of the whole graph. -/
theorem Graph.MovedTo.relations_aside_iff (hmoved : g.MovedTo py plan g') (h : g.Mergeable plan) :
    (g'.relations.filter fun e => g.aside plan e.src e.dst).Perm
        (g.relations.filter fun e => g.aside plan e.src e.dst) ↔
      ((g.relations.filter fun e => g.aside plan e.src e.dst).filterMap g.relationGroup).Nodup := by
  obtain ⟨rows, es, hrows, hes, hrelations⟩ := hmoved.relations_eq h
  have haside : (es.filter fun e => g.aside plan e.src e.dst).Perm
      (g.relations.filter fun e => g.aside plan e.src e.dst) := by
    refine (hes.filter _).trans (.of_eq ?_)
    rw [List.filter_append, List.filter_filter]
    have hmade : (rows.flatMap (g.remade py plan.redirect)).filter
        (fun e => g.aside plan e.src e.dst) = [] := by
      refine List.filter_eq_nil_iff.mpr fun e he => ?_
      obtain ⟨row, hrow, htouched, -, -, hsrc, hdst⟩ := h.of_mem_made hrows he
      obtain ⟨e', -, u, v, hends, -⟩ := h.of_relation hrow
      rw [hends.image_eq] at hsrc hdst
      rw [Bool.not_eq_true]
      rcases hends.touched_iff.mp htouched with hu | hv
      · exact h.not_aside (.inl rfl) hu (.inr hsrc)
      · exact h.not_aside (.inr rfl) hv (.inr hdst)
    rw [hmade, List.append_nil]
    refine List.filter_congr fun e he => ?_
    cases htakes : g.takes plan e with
    | false => simp
    | true =>
      obtain ⟨row, hrow, htouched⟩ := (Option.any_eq_true _ _).mp htakes
      obtain ⟨u, v, hu, hv, hsrc, hdst⟩ := h.ends hrow
      have hvictim : u ∈ plan.victims ∨ v ∈ plan.victims := by
        simpa [RelationRow.touched, hu, hv] using htouched
      rcases hvictim with hvictim | hvictim
      · rw [h.not_aside (.inl rfl) hvictim (.inl hsrc)]
        rfl
      · rw [h.not_aside (.inr rfl) hvictim (.inl hdst)]
        rfl
  -- edges of one group have the same ends
  have hsame : ∀ a ∈ es, ∀ b ∈ es, ∀ k, g.relationGroup a = some k → g.relationGroup b = some k →
      g.aside plan a.src a.dst = g.aside plan b.src b.dst := by
    intro a _ b _ k ha hb
    obtain ⟨row, hrow, rfl⟩ := Option.map_eq_some_iff.mp ha
    obtain ⟨row', hrow', heq⟩ := Option.map_eq_some_iff.mp hb
    obtain ⟨u, v, hu, hv, hsrc, hdst⟩ := h.ends hrow
    obtain ⟨u', v', hu', hv', hsrc', hdst'⟩ := h.ends hrow'
    simp only [hu, hv, hu', hv', Prod.mk.injEq, Option.some.injEq] at heq
    obtain ⟨rfl, rfl, -⟩ := heq
    rw [Unique.withUuid_eq h.unique hsrc, List.mem_singleton] at hsrc'
    rw [Unique.withUuid_eq h.unique hdst, List.mem_singleton] at hdst'
    rw [hsrc', hdst']
  rw [hrelations, filter_firsts hsame, ← (haside.filterMap g.relationGroup).nodup_iff]
  have hlen := length_firsts_add g.relationGroup
    (es.filter fun e => g.aside plan e.src e.dst)
  refine ⟨?_, ?_⟩
  · intro hperm
    rw [hperm.length_eq, haside.length_eq] at hlen
    rw [← List.map_id (List.filterMap _ _), ← repeats_eq_zero]
    omega
  · intro hnodup
    rw [firsts_of_nodup hnodup (by simp)]
    exact haside

/-! ## The image under the roots -/

/-- The node `i` mentions an entity with this uuid. -/
def Graph.Mentions (g : Graph) (i : ℕ) (uuid : String) : Prop :=
  ∃ e ∈ g.mentions, e.src = i ∧ e.dst ∈ g.withUuid .entity uuid

/-- Entities with these uuids are related by this fact. -/
def Graph.Relates (g : Graph) (src dst : String) (fact : Value) : Prop :=
  ∃ e ∈ g.relations, e.src ∈ g.withUuid .entity src ∧ e.dst ∈ g.withUuid .entity dst ∧
    e.prop "fact" = fact

theorem Graph.relationGroup_eq_some {e : Relation} {src dst : String} {fact : Value} :
    g.relationGroup e = some (groupOf (src, dst, fact)) ↔
      e.src ∈ g.withUuid .entity src ∧ e.dst ∈ g.withUuid .entity dst ∧ e.prop "fact" = fact := by
  rw [relationGroup, Option.map_eq_some_iff]
  refine ⟨?_, ?_⟩
  · rintro ⟨row, hrow, heq⟩
    obtain ⟨⟨a, ha, hsrc⟩, ⟨b, hb, hdst⟩, -, hfact⟩ := of_relationRow hrow
    simp only [groupOf, Prod.mk.injEq] at heq
    exact ⟨mem_withUuid.mpr ⟨a, ha, hsrc.symm.trans heq.1⟩,
      mem_withUuid.mpr ⟨b, hb, hdst.symm.trans heq.2.1⟩, hfact.symm.trans heq.2.2⟩
  · rintro ⟨hsrc, hdst, hfact⟩
    obtain ⟨row, hrow, -, hu, hv⟩ := isSome_relationRow hsrc hdst
    exact ⟨row, hrow, by rw [hu, hv, (of_relationRow hrow).2.2.2, hfact]; rfl⟩

theorem Graph.relates_iff {src dst : String} {fact : Value} :
    g.Relates src dst fact ↔
      groupOf (src, dst, fact) ∈ g.relations.filterMap g.relationGroup := by
  simp only [Relates, List.mem_filterMap, relationGroup_eq_some]

/-- What is related after the merge is the image of what was, without what folds. -/
theorem Graph.MovedTo.relates_iff (hmoved : g.MovedTo py plan g') (h : g.Mergeable plan)
    {src dst : String} {fact : Value} :
    g'.Relates src dst fact ↔ ∃ u v, g.Relates u v fact ∧ rootIn plan.redirect u = src ∧
      rootIn plan.redirect v = dst ∧ (src = dst → u = src ∧ v = dst) := by
  have hgroup : g'.relationGroup = g.relationGroup := by
    funext e
    rw [relationGroup, relationGroup, relationRow_congr hmoved.nodes]
  rw [Graph.relates_iff, hgroup, hmoved.mem_groups h]
  simp only [groupOf_inj, remaining, List.mem_filter, Bool.not_eq_true']
  refine ⟨?_, ?_⟩
  · rintro ⟨row, ⟨hrow, hfolds⟩, himage⟩
    obtain ⟨e, he, u, v, hends, hsrc, hdst, hfact⟩ := h.of_relation hrow
    rw [hends.image_eq, Prod.mk.injEq, Prod.mk.injEq] at himage
    obtain ⟨rfl, rfl, rfl⟩ := himage
    refine ⟨u, v, ⟨e, he, hsrc, hdst, hfact.symm⟩, rfl, rfl, fun hsame => ?_⟩
    have hnot : ¬ (u ∈ plan.victims ∨ v ∈ plan.victims) := fun hvictim => by
      rw [hends.folds_iff.mpr ⟨hvictim, hsame⟩] at hfolds
      cases hfolds
    obtain ⟨hu, hv⟩ := not_or.mp hnot
    exact ⟨(rootIn_of_not_mem hu).symm, (rootIn_of_not_mem hv).symm⟩
  · rintro ⟨u, v, ⟨e, he, hsrc, hdst, rfl⟩, rfl, rfl, hsame⟩
    obtain ⟨row, hrow, -, hu, hv⟩ := isSome_relationRow hsrc hdst
    have hends : row.Joins u v := ⟨hu, hv⟩
    refine ⟨row, ⟨List.mem_filterMap.mpr ⟨e, he, hrow⟩, ?_⟩,
      by rw [hends.image_eq, (Graph.of_relationRow hrow).2.2.2]⟩
    rw [← Bool.not_eq_true, hends.folds_iff]
    rintro ⟨hvictim, heq⟩
    -- a victim is not its own root
    obtain ⟨hu, hv⟩ := hsame heq
    rcases hvictim with hvictim | hvictim
    · exact (h.root hvictim).1 hu.symm
    · exact (h.root hvictim).1 hv.symm

/-- What is mentioned after the merge is the image of what was, if phase A moves every edge at
a victim and the uuid of each source is that of one episode. -/
theorem Graph.MovedTo.mentions_iff (hmoved : g.MovedTo py plan g') (h : g.Mergeable plan)
    (hmoves : ∀ e ∈ g.mentions, g.victimAt plan e.src = true ∨ g.victimAt plan e.dst = true →
      g.moves plan e = true)
    (hsource : ∀ row ∈ g.movedRows plan, (g.withUuid .episodic (row.srcUuid.getD "")).length = 1)
    {i : ℕ} {uuid : String} :
    g'.Mentions i uuid ↔ ∃ v, g.Mentions i v ∧ rootIn plan.redirect v = uuid := by
  obtain ⟨rows, hrows, hmentions⟩ := hmoved.mentions_eq h
  have hwith : g'.withUuid .entity uuid = g.withUuid .entity uuid :=
    withUuid_congr hmoved.nodes uuid
  rw [Mentions, hmentions, hwith]
  refine ⟨?_, ?_⟩
  · rintro ⟨e, he, rfl, hdst⟩
    rcases List.mem_append.mp he with he | he
    · obtain ⟨he, hstays⟩ := List.mem_filter.mp he
      refine ⟨uuid, ⟨e, he, rfl, hdst⟩, rootIn_of_not_mem fun hvictim => ?_⟩
      rw [hmoves e he (.inr ((victimAt_entity hdst).mpr hvictim))] at hstays
      cases hstays
    · obtain ⟨row, hrow, he⟩ := List.mem_flatMap.mp he
      have hrow := hrows.mem_iff.mp hrow
      obtain ⟨e₀, he₀, u, v, -, hu, -, -, hsrc, hdst₀, j, hroot, hmade⟩ := h.of_movedRow hrow
      have hone := hsource row hrow
      rw [hu, Option.getD_some] at hone
      obtain ⟨s, hs⟩ := List.length_eq_one_iff.mp hone
      rw [hmade, hs] at he
      rw [hs, List.mem_singleton] at hsrc
      obtain rfl := List.mem_singleton.mp he
      refine ⟨v, ⟨e₀, he₀, hsrc, hdst₀⟩, withUuid_inj ?_ hdst⟩
      exact hroot ▸ List.mem_singleton_self j
  · rintro ⟨v, ⟨e, he, rfl, hdst⟩, rfl⟩
    by_cases hvictim : v ∈ plan.victims
    · have hmoved := hmoves e he (.inr ((victimAt_entity hdst).mpr hvictim))
      obtain ⟨row, u, v', hrow, -, -, -, hsrc, hdst', j, hroot, hmade⟩ := h.of_moves hmoved
      obtain rfl := withUuid_inj hdst' hdst
      refine ⟨⟨e.src, j, e.uuid, some (orDefault row.groupId "graphiti_memory"),
        orNone row.createdAt⟩, List.mem_append_right _ (List.mem_flatMap.mpr
          ⟨row, hrows.mem_iff.mpr (mem_movedRows.mpr ⟨e, he, hrow, hmoved⟩), ?_⟩), rfl,
        hroot ▸ List.mem_singleton_self j⟩
      rw [hmade]
      exact List.mem_map_of_mem hsrc
    · rw [rootIn_of_not_mem hvictim]
      refine ⟨e, List.mem_append_left _ (List.mem_filter.mpr ⟨he, ?_⟩), rfl, hdst⟩
      rw [Bool.not_eq_true', ← Bool.not_eq_true]
      intro hmoved
      obtain ⟨row, u, v', -, -, -, hvictim', -, hdst', -⟩ := h.of_moves hmoved
      obtain rfl := withUuid_inj hdst' hdst
      exact hvictim hvictim'

end JanusGraph
