import JanusGraph.Graph.Classify
import JanusGraph.Graph.Match
import JanusGraph.Graph.Redirect

/-!
# The rows a plan keeps

What phase B of the fold deletes is redundant: for each row of a victim there is one
with the same target, of the same group, whose uuid is not among those deleted. That
needs edges that their uuids tell apart, and merges that fold only byte-identical
episodes (`Graph.RespectsGroups`).
-/

namespace JanusGraph

/-- The row is that of the edge, with both endpoints resolved. -/
structure Graph.IsRow (g : Graph) (e : Mention) (row : VictimEdge) : Prop where
  uuid : row.uuid = e.uuid
  src : e.src ∈ g.withUuid .episodic row.src
  dst : e.dst ∈ g.withUuid .entity row.dst

theorem mem_survTargets {rows : List MentionRow} {p : String × String} :
    p ∈ survTargets rows ↔ ∃ row ∈ rows.filterMap MentionRow.resolve, row.ends = p :=
  List.mem_map

/-- An edge has one row. -/
theorem Graph.IsRow.ends_eq {g : Graph} {e : Mention} {row row' : VictimEdge}
    (h : g.IsRow e row) (h' : g.IsRow e row') : row.ends = row'.ends := by
  have huuid : ∀ {label i u w}, i ∈ g.withUuid label u → i ∈ g.withUuid label w → u = w := by
    intro label i u w hu hw
    obtain ⟨n, hn, hnu⟩ := mem_withUuid.mp hu
    obtain ⟨m, hm, hmw⟩ := mem_withUuid.mp hw
    obtain rfl := Option.some.inj (hn.symm.trans hm)
    exact Option.some.inj (hnu.symm.trans hmw)
  exact Prod.ext (huuid h.src h'.src) (huuid h.dst h'.dst)

/-! ## The rows of the plan -/

section

variable {root : String → String} {targets : List (String × String)} {edges : List VictimEdge}

/-- The uuids phase B deletes, of the rows `edges` of the victims. -/
def droppedUuids (root : String → String) (targets : List (String × String))
    (edges : List VictimEdge) : List String :=
  (classify root targets [] (splitRows [] edges).1).toDrop ++
    (classify root targets [] (splitRows [] edges).1).survivorDedupe ++ (splitRows [] edges).2

variable (huuids : (edges.map VictimEdge.uuid).Nodup)

theorem mem_droppedUuids {u : String} (hu : u ∈ droppedUuids root targets edges) :
    u ∈ edges.map VictimEdge.uuid := by
  rw [← (splitRows_perm [] edges).mem_iff]
  rcases List.mem_append.mp hu with hu | hu
  · have hin := (classify_perm_filter root targets [] _).mem_iff.mp (List.mem_append_left _ hu)
    exact List.mem_append_left _ ((List.filter_sublist.map _).subset hin)
  · exact List.mem_append_right _ hu

include huuids

/-- A first row without a survivor is left alone. -/
theorem not_mem_droppedUuids_of_root {e : VictimEdge} (he : e ∈ (splitRows [] edges).1)
    (hroot : root e.src = e.src) : e.uuid ∉ droppedUuids root targets edges := by
  have hnodup := (splitRows_perm [] edges).nodup_iff.mpr huuids
  have huuid := List.mem_map_of_mem (f := VictimEdge.uuid) he
  intro hu
  rcases List.mem_append.mp hu with hu | hu
  · have hin := (classify_perm_filter root targets [] _).mem_iff.mp (List.mem_append_left _ hu)
    obtain ⟨e', he', heq⟩ := List.mem_map.mp hin
    obtain rfl := List.inj_on_of_nodup_map hnodup.of_append_left
      (List.mem_of_mem_filter he') he heq
    exact of_decide_eq_true (List.mem_filter.mp he').2 hroot
  · exact List.disjoint_of_nodup_append hnodup huuid hu

/-- A row to create is left alone. -/
theorem not_mem_droppedUuids_of_mem {m : Rewiring}
    (hm : m ∈ (classify root targets [] (splitRows [] edges).1).toCreate) :
    m.edge.uuid ∉ droppedUuids root targets edges := by
  have hnodup := (splitRows_perm [] edges).nodup_iff.mpr huuids
  have hclass := (classify_perm_filter root targets [] (splitRows [] edges).1).nodup_iff.mpr
    (hnodup.of_append_left.sublist (List.filter_sublist.map _))
  intro hu
  rcases List.mem_append.mp hu with hu | hu
  · exact List.disjoint_of_nodup_append hclass hu (List.mem_map.mpr ⟨m, hm, rfl⟩)
  · exact List.disjoint_of_nodup_append hnodup
      (List.mem_map_of_mem (of_mem_toCreate hm).1) hu

/-- Every row has one with its target and its root that is left alone, unless the survivor
has the target and is no victim with that row. -/
theorem exists_kept (hroot : ∀ u, root (root u) = root u) {e : VictimEdge} (he : e ∈ edges) :
    ((root e.src, e.dst) ∈ targets ∧ ∀ e' ∈ edges, e'.ends ≠ (root e.src, e.dst)) ∨
      ∃ e' ∈ edges, root e'.src = root e.src ∧ e'.dst = e.dst ∧
        e'.uuid ∉ droppedUuids root targets edges := by
  -- the first row with the same ends
  have hfirst : ∀ {e : VictimEdge}, e ∈ edges →
      ∃ e₁ ∈ (splitRows [] edges).1, e₁.src = e.src ∧ e₁.dst = e.dst := by
    intro e he
    obtain ⟨e₁, he₁, hends⟩ := List.mem_map.mp
      (mem_ends_splitRows.mpr ⟨List.mem_map_of_mem he, List.not_mem_nil⟩)
    exact ⟨e₁, he₁, (Prod.mk.inj hends).1, (Prod.mk.inj hends).2⟩
  by_cases hend : ∃ e' ∈ edges, e'.ends = (root e.src, e.dst)
  · obtain ⟨e', he', hends⟩ := hend
    obtain ⟨hsrc', hdst'⟩ := Prod.mk.inj hends
    obtain ⟨e₁, he₁, hsrc, hdst⟩ := hfirst he'
    have hself : root e₁.src = e₁.src := by rw [hsrc, hsrc', hroot]
    refine .inr ⟨e₁, (splitRows_sublist [] _).subset he₁, ?_, hdst.trans hdst', ?_⟩
    · rw [hsrc, hsrc', hroot]
    · exact not_mem_droppedUuids_of_root huuids he₁ hself
  · by_cases htarget : (root e.src, e.dst) ∈ targets
    · exact .inl ⟨htarget, fun e' he' hends => hend ⟨e', he', hends⟩⟩
    · obtain ⟨e₁, he₁, hsrc, hdst⟩ := hfirst he
      by_cases hself : root e₁.src = e₁.src
      · refine .inr ⟨e₁, (splitRows_sublist [] _).subset he₁, by rw [hsrc], hdst, ?_⟩
        exact not_mem_droppedUuids_of_root huuids he₁ hself
      · rw [← hsrc, ← hdst] at htarget
        obtain ⟨m, hm, hends⟩ := List.mem_map.mp
          (mem_ends_toCreate he₁ hself htarget List.not_mem_nil)
        obtain ⟨hedge, hsurvivor, -⟩ := of_mem_toCreate hm
        obtain ⟨hroot', hdst'⟩ := Prod.mk.inj hends
        refine .inr ⟨m.edge, (splitRows_sublist [] _).subset hedge, ?_, hdst'.trans hdst, ?_⟩
        · rw [← hsurvivor, hroot', hsrc]
        · exact not_mem_droppedUuids_of_mem huuids hm

end

/-! ## The rows of a graph -/

section

variable {g : Graph} {rows : List MentionRow} {sources : List String}

/-- A row that is read and resolves is that of an edge from one of the sources. -/
theorem Graph.isRow_of_mem
    (hrows : ∀ row ∈ rows, row ∈ g.mentionRows fun row => row.srcUuid ∈ sources.map some)
    {row : VictimEdge} (hrow : row ∈ rows.filterMap MentionRow.resolve) :
    row.src ∈ sources ∧ ∃ e ∈ g.mentions, g.IsRow e row := by
  obtain ⟨r, hr, hresolve⟩ := List.mem_filterMap.mp hrow
  obtain ⟨hr, hsource⟩ := List.mem_filter.mp (hrows r hr)
  obtain ⟨e, he, hmention⟩ := List.mem_filterMap.mp hr
  unfold mentionRow at hmention
  split at hmention
  · next s t hs ht =>
    cases hmention
    unfold MentionRow.resolve at hresolve
    split at hresolve
    · cases hresolve
    · cases hresolve
      next hends =>
      rw [not_or] at hends
      obtain ⟨u, hu, hsrc⟩ := List.mem_map.mp (of_decide_eq_true hsource)
      have hsrc' : s.uuid = some u := hsrc.symm
      rcases hdst : t.uuid with _ | w
      · exact absurd (by simp [hdst]) hends.2
      · refine ⟨by simpa [hsrc'] using hu, e, he, rfl, ?_, ?_⟩
        · exact mem_withUuid.mpr ⟨s, hs, by simp [hsrc']⟩
        · exact mem_withUuid.mpr ⟨t, ht, by simp [hdst]⟩
  · cases hmention

/-- The uuids of the rows are uuids of edges, in some order and without repetition. -/
theorem Graph.nodup_rows
    (hrows : rows.Perm (g.mentionRows fun row => row.srcUuid ∈ sources.map some))
    (huuids : (g.mentions.map Mention.uuid).Nodup) :
    ((rows.filterMap MentionRow.resolve).map VictimEdge.uuid).Nodup := by
  -- each step only leaves rows out
  have hsub : ∀ {α β : Type} {f : α → Option β} {k : β → String} {k' : α → String},
      (∀ a b, f a = some b → k b = k' a) → ∀ l : List α,
        ((l.filterMap f).map k).Sublist (l.map k') := by
    intro α β f k k' hf l
    induction l with
    | nil => exact List.Sublist.refl _
    | cons a l ih =>
      rcases hfa : f a with _ | b
      · rw [List.filterMap_cons_none hfa, List.map_cons]
        exact ih.cons _
      · rw [List.filterMap_cons_some hfa, List.map_cons, List.map_cons, hf a b hfa]
        exact ih.cons_cons _
  have hmention : ((g.mentions.filterMap g.mentionRow).map MentionRow.edgeUuid).Nodup := by
    refine huuids.sublist (hsub (fun e row hrow => ?_) g.mentions)
    unfold mentionRow at hrow
    split at hrow <;> cases hrow
    rfl
  refine List.Nodup.sublist (hsub (fun row e he => ?_) rows)
    (((hrows.map MentionRow.edgeUuid).nodup_iff).mpr (hmention.sublist (List.filter_sublist.map _)))
  unfold MentionRow.resolve at he
  split at he <;> cases he
  rfl

end

/-! ## No target is lost -/

/-- No node is changed, and every entity that an episode mentioned is still mentioned by a
byte-identical one. -/
structure Graph.KeepsTargets (g g' : Graph) : Prop where
  nodes : ∀ i n, g'.nodes.get? i = some n → g.nodes.get? i = some n
  targets : ∀ e ∈ g.mentions, ∀ n t, g.labelled .episodic e.src = some n →
    g.labelled .entity e.dst = some t → ∃ e' ∈ g'.mentions, ∃ n',
      g'.labelled .episodic e'.src = some n' ∧ n'.bytes = n.bytes ∧ e'.dst = e.dst

/-- The merges fold byte-identical episodes: a victim of the graph has the bytes of its
root, and of whatever else has that root. -/
def Graph.RespectsGroups (g : Graph) (merges : List EpisodicMerge) : Prop :=
  ∀ {i j n m u w}, g.labelled .episodic i = some n → g.labelled .episodic j = some m →
    n.uuid = some u → m.uuid = some w → u ∈ victimsOf merges →
      rootOf merges u = rootOf merges w → n.bytes = m.bytes

section

variable {g g' g'' : Graph}

/-- Where no node is gone and no mention, no target is lost. -/
theorem Graph.KeepsTargets.of_subset (hnodes : g'.nodes = g.nodes)
    (hmentions : ∀ e ∈ g.mentions, e ∈ g'.mentions) : g.KeepsTargets g' where
  nodes _ _ hn := hnodes ▸ hn
  targets e he n _ hn _ :=
    ⟨e, hmentions e he, n, (labelled_congr hnodes _).trans hn, rfl, rfl⟩

theorem Graph.KeepsTargets.trans (h : g.KeepsTargets g') (h' : g'.KeepsTargets g'') :
    g.KeepsTargets g'' where
  nodes i n hn := h.nodes i n (h'.nodes i n hn)
  targets e he n t hn ht := by
    obtain ⟨e', he', n', hn', hbytes, hdst⟩ := h.targets e he n t hn ht
    -- the target is still there
    have ht' : g'.labelled .entity e'.dst = some t := by
      obtain ⟨t', hget⟩ := Option.isSome_iff_exists.mp (g'.attached.1 e' he').2
      obtain ⟨htget, hlabel⟩ := labelled_eq_some.mp ht
      have hsame := h.nodes _ _ hget
      rw [hdst, htget] at hsame
      obtain rfl := Option.some.inj hsame
      exact labelled_eq_some.mpr ⟨hget, hlabel⟩
    obtain ⟨e'', he'', n'', hn'', hbytes', hdst'⟩ := h'.targets e' he' n' t hn' ht'
    exact ⟨e'', he'', n'', hn'', hbytes'.trans hbytes, hdst'.trans hdst⟩

/-- Deleting episodes that mention nothing loses no target. -/
theorem Graph.keepsTargets_removeNodes (g : Graph) (victims : List String) :
    g.KeepsTargets (g.removeNodes (g.emptied victims)) where
  nodes i n hn := by
    rw [removeNodes, Table.get?_filter] at hn
    exact (Option.filter_eq_some_iff.mp hn).1
  targets e he n t hn ht := by
    have hsrc : g.emptied victims e.src n = false := by
      rw [← Bool.not_eq_true, emptied, decide_eq_true_eq]
      exact fun h => of_decide_eq_true (List.all_eq_true.mp h.2.2 e he) rfl
    have hdst : g.emptied victims e.dst t = false := by
      rw [← Bool.not_eq_true, emptied, decide_eq_true_eq]
      rintro ⟨hlabel, -⟩
      rw [(labelled_eq_some.mp ht).2] at hlabel
      cases hlabel
    refine ⟨e, ?_, n, ?_, rfl, rfl⟩
    · rw [mentions_removeNodes, List.mem_filter]
      refine ⟨he, ?_⟩
      simp [stays, (labelled_eq_some.mp hn).1, (labelled_eq_some.mp ht).1, hsrc, hdst]
    · rw [labelled_removeNodes, hn, Option.filter_some, if_pos (by simp [hsrc])]

variable {merges : List EpisodicMerge} (hgroups : g.RespectsGroups merges)
  (hentity : g.Unique .entity)

include hgroups hentity

/-- What phase B deletes loses no target. -/
theorem Graph.keepsTargets_keepMentions (huuids : (g.mentions.map Mention.uuid).Nodup)
    {mentRows survRows : List MentionRow}
    (hment : mentRows.Perm
      (g.mentionRows fun row => row.srcUuid ∈ (victimsOf merges).map some))
    (hsurv : ∀ row ∈ survRows,
      row ∈ g.mentionRows fun row => row.srcUuid ∈ (survivorsOf merges).map some) :
    g.KeepsTargets (g.keepMentions fun e => e.uuid ∉ droppedUuids (rootOf merges)
      (survTargets survRows) (mentRows.filterMap MentionRow.resolve)) where
  nodes _ _ hn := hn
  targets e he n t hn ht := by
    have hnodup := Graph.nodup_rows hment huuids
    -- an edge of the same group that phase B leaves alone will do
    have hleft : ∀ e' ∈ g.mentions, ∀ row, g.IsRow e' row → e'.dst = e.dst →
        (∀ n', g.labelled .episodic e'.src = some n' → n'.bytes = n.bytes) →
        row.uuid ∉ droppedUuids (rootOf merges) (survTargets survRows)
          (mentRows.filterMap MentionRow.resolve) →
        ∃ e' ∈ (g.keepMentions fun e => e.uuid ∉ droppedUuids (rootOf merges)
          (survTargets survRows) (mentRows.filterMap MentionRow.resolve)).mentions, ∃ n',
          g.labelled .episodic e'.src = some n' ∧ n'.bytes = n.bytes ∧ e'.dst = e.dst := by
      intro e' he' row hrow hdst hbytes hnot
      obtain ⟨n', hn', -⟩ := mem_withUuid.mp hrow.src
      refine ⟨e', List.mem_filter.mpr ⟨he', decide_eq_true ?_⟩, n', hn', hbytes n' hn', hdst⟩
      rwa [← hrow.uuid]
    by_cases hdrop : e.uuid ∈ droppedUuids (rootOf merges) (survTargets survRows)
        (mentRows.filterMap MentionRow.resolve)
    · -- the row of the edge itself
      obtain ⟨row, hrow, huuid⟩ := List.mem_map.mp (mem_droppedUuids hdrop)
      obtain ⟨hv, e₀, he₀, his⟩ := isRow_of_mem (fun r hr => hment.mem_iff.mp hr) hrow
      obtain rfl := List.inj_on_of_nodup_map huuids he₀ he (his.uuid.symm.trans huuid)
      obtain ⟨n₀, hn₀, hu⟩ := mem_withUuid.mp his.src
      obtain rfl := Option.some.inj (hn.symm.trans hn₀)
      obtain ⟨t₀, ht₀, hw⟩ := mem_withUuid.mp his.dst
      rcases exists_kept hnodup rootOf_rootOf hrow with ⟨htarget, hnone⟩ |
        ⟨row', hrow', hroot, hdst, hnot⟩
      · -- the survivor's own edge to the target
        obtain ⟨row', hrow', hends⟩ := mem_survTargets.mp htarget
        obtain ⟨hsrc, hdst⟩ := Prod.mk.inj hends
        obtain ⟨-, e', he', his'⟩ := isRow_of_mem hsurv hrow'
        obtain ⟨t', ht', hw'⟩ := mem_withUuid.mp his'.dst
        refine hleft e' he' row' his' (hentity ht' ht₀ (hdst ▸ hw') hw) (fun n' hn' => ?_)
          fun hdrop' => ?_
        · obtain ⟨n₁, hn₁, hu'⟩ := mem_withUuid.mp his'.src
          obtain rfl := Option.some.inj (hn'.symm.trans hn₁)
          exact (hgroups hn hn' hu hu' hv (hsrc ▸ (rootOf_rootOf row.src).symm)).symm
        · obtain ⟨row₂, hrow₂, huuid₂⟩ := List.mem_map.mp (mem_droppedUuids hdrop')
          obtain ⟨-, e₂, he₂, his₂⟩ := isRow_of_mem (fun r hr => hment.mem_iff.mp hr) hrow₂
          obtain rfl := List.inj_on_of_nodup_map huuids he₂ he'
            (his₂.uuid.symm.trans (huuid₂.trans his'.uuid))
          exact hnone row₂ hrow₂ ((his₂.ends_eq his').trans hends)
      · obtain ⟨hv', e', he', his'⟩ := isRow_of_mem (fun r hr => hment.mem_iff.mp hr) hrow'
        obtain ⟨t', ht', hw'⟩ := mem_withUuid.mp his'.dst
        refine hleft e' he' row' his' (hentity ht' ht₀ (hdst ▸ hw') hw) (fun n' hn' => ?_) hnot
        obtain ⟨n₁, hn₁, hu'⟩ := mem_withUuid.mp his'.src
        obtain rfl := Option.some.inj (hn'.symm.trans hn₁)
        exact hgroups hn' hn hu' hu hv' hroot
    · exact ⟨e, List.mem_filter.mpr ⟨he, decide_eq_true hdrop⟩, n, hn, rfl, rfl⟩

end

end JanusGraph
