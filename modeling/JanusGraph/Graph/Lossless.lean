import JanusGraph.Graph.Disturb
import JanusGraph.Graph.Frame

/-!
# No edge without a replacement

Whatever queries of `apply_plan` fail or match nothing, whatever nodes other clients
delete meanwhile and wherever the process dies: an edge that was there before is there,
or one stands for it, or another client has taken that one. For `MENTIONS` that is so
without conditions, because phase A counts what its `CREATE` has made. Phase B does not,
so for a `RELATES_TO` edge it depends on what its `CREATE` finds.
-/

namespace JanusGraph

variable {Score : Type}

namespace Graph

variable (g : Graph) (redirect : Table String String)

/-- `e'` joins the ends of `e`, or the source and what its target is redirected to. -/
structure MentionFor (e e' : Mention) : Prop where
  src : e'.src = e.src
  dst : e'.dst = e.dst ∨
    ∃ u, e.dst ∈ g.withUuid .entity u ∧ e'.dst ∈ g.withUuid .entity (rootIn redirect u)

/-- The edge joins what the ends of the row are redirected to. -/
structure Joins (row : RelationRow) (e : Relation) : Prop where
  src : e.src ∈ g.withUuid .entity (row.newSrc redirect)
  dst : e.dst ∈ g.withUuid .entity (row.newDst redirect)

/-- `e'` has the fact of `e` and joins its ends, or what they are redirected to. -/
structure RelationFor (e e' : Relation) : Prop where
  fact : e'.prop "fact" = e.prop "fact"
  ends : e'.src = e.src ∧ e'.dst = e.dst ∨
    ∃ row, g.relationRow e = some row ∧ g.Joins redirect row e'

/-- The ends of the edge are not redirected to the same. -/
def Apart (e : Relation) : Prop :=
  ∀ row, g.relationRow e = some row → row.newSrc redirect ≠ row.newDst redirect

/-- Whatever edge the `DELETE` of this one matches has its fact, and no `CREATE` of such an
edge has made none. -/
def Guarded (py : Builtins) (missed : List Query) (e : Relation) : Prop :=
  ∀ row, g.relationRow e = some row → ∀ e₂ ∈ g.relations, ∀ row₂, g.relationRow e₂ = some row₂ →
    row₂.delete = row.delete → row₂.fact = row.fact ∧ row₂.recreate py redirect ∉ missed

/-- No other entity has the uuid of an end of the edge, or has none as well. -/
def Alone (e : Relation) : Prop :=
  ∀ row, g.relationRow e = some row → ∀ i n, g.labelled .entity i = some n →
    (n.uuid = row.srcUuid → i = e.src) ∧ (n.uuid = row.dstUuid → i = e.dst)

/-- For each `MENTIONS` edge of `g` there is one that stands for it, if other clients have
not taken it. -/
structure HoldsMentions (w : Watched) : Prop where
  nodes : ∀ i n, w.graph.nodes.get? i = some n → g.nodes.get? i = some n
  mentions : ∀ e ∈ g.mentions, ∃ e' ∈ w.allMentions, g.MentionFor redirect e e'

/-- Up to the end of phase A: no `RELATES_TO` edge is lost but to other clients, and none is
new. -/
structure BeforeMoves (w : Watched) : Prop extends g.HoldsMentions redirect w where
  origin : ∀ e ∈ w.graph.relations, e ∈ g.relations
  relations : ∀ e ∈ g.relations, e ∈ w.allRelations

/-- Along phase B. -/
structure DuringMoves (py : Builtins) (w : Watched) : Prop extends g.HoldsMentions redirect w where
  relations : ∀ e ∈ g.relations, g.Apart redirect e → g.Guarded redirect py w.missed e →
    e ∈ w.allRelations ∨ ∃ row, g.relationRow e = some row ∧ ∃ e' ∈ w.allRelations,
      e'.prop "fact" = row.fact ∧ g.Joins redirect row e'

/-- From there on. -/
structure AfterMoves (py : Builtins) (w : Watched) : Prop extends g.HoldsMentions redirect w where
  relations : ∀ e ∈ g.relations, g.Apart redirect e → g.Guarded redirect py w.missed e →
    g.Alone e → ∃ e' ∈ w.allRelations, g.RelationFor redirect e e'

end Graph

/-! ## Rows of a graph with fewer nodes -/

section

variable {g g' : Graph} {redirect : Table String String} {py : Builtins} {w w' : Watched}

theorem labelled_of_nodes (hnodes : ∀ i n, g'.nodes.get? i = some n → g.nodes.get? i = some n)
    {label : NodeLabel} {i : ℕ} {n : Node} (hn : g'.labelled label i = some n) :
    g.labelled label i = some n := by
  obtain ⟨hget, hlabel⟩ := Graph.labelled_eq_some.mp hn
  exact Graph.labelled_eq_some.mpr ⟨hnodes i n hget, hlabel⟩

theorem mem_withUuid_of_nodes
    (hnodes : ∀ i n, g'.nodes.get? i = some n → g.nodes.get? i = some n) {label : NodeLabel}
    {i : ℕ} {u : String} (hi : i ∈ g'.withUuid label u) : i ∈ g.withUuid label u := by
  obtain ⟨n, hn, hu⟩ := Graph.mem_withUuid.mp hi
  exact Graph.mem_withUuid.mpr ⟨n, labelled_of_nodes hnodes hn, hu⟩

theorem relationRow_of_nodes
    (hnodes : ∀ i n, g'.nodes.get? i = some n → g.nodes.get? i = some n) {e : Relation}
    {row : RelationRow} (hrow : g'.relationRow e = some row) : g.relationRow e = some row := by
  unfold Graph.relationRow at hrow ⊢
  split at hrow
  · next a b ha hb =>
    rw [labelled_of_nodes hnodes ha, labelled_of_nodes hnodes hb]
    exact hrow
  · cases hrow

/-! ## Phase A -/

theorem Graph.HoldsMentions.less (h : g.HoldsMentions redirect w) (hless : w.Less w') :
    g.HoldsMentions redirect w' where
  nodes i n hn := h.nodes i n (hless.nodes i n hn)
  mentions e he := by
    obtain ⟨e', he', hfor⟩ := h.mentions e he
    exact ⟨e', hless.mentions e' he', hfor⟩

theorem Graph.BeforeMoves.less (h : g.BeforeMoves redirect w) (hless : w.Less w') :
    g.BeforeMoves redirect w' where
  toHoldsMentions := h.toHoldsMentions.less hless
  origin e he := h.origin e (hless.origin e he)
  relations e he := hless.relations e (h.relations e he)

/-- The sources with this uuid mention what the target is redirected to. -/
def Graph.Covered (g : Graph) (redirect : Table String String) (src dst : String) (w : Watched) :
    Prop :=
  ∀ s ∈ w.graph.withUuid .episodic src, ∃ e ∈ w.allMentions, e.src = s ∧
    e.dst ∈ g.withUuid .entity (rootIn redirect dst)

theorem Graph.Covered.less {src dst : String} (h : g.Covered redirect src dst w)
    (hless : w.Less w') : g.Covered redirect src dst w' := by
  intro s hs
  obtain ⟨e, he, hends⟩ := h s (mem_withUuid_of_nodes hless.nodes hs)
  exact ⟨e, hless.mentions e he, hends⟩

/-- A `DELETE` of phase A takes nothing away that is not covered. -/
theorem Graph.HoldsMentions.deleted (h : g.HoldsMentions redirect w) {src dst eu : String}
    (hcovered : g.Covered redirect src dst w) (hroot : rootIn redirect dst ≠ dst)
    (missed : List Query) :
    g.HoldsMentions redirect { w with
      graph := w.graph.keepMentions fun e => !w.graph.matchesMention src dst eu e
      missed := missed } where
  nodes := h.nodes
  mentions e he := by
    -- an edge that is not matched is kept
    have hkept : ∀ e' ∈ w.allMentions, ¬ w.graph.matchesMention src dst eu e' →
        e' ∈ (w.graph.keepMentions fun e => !w.graph.matchesMention src dst eu e).mentions ++
          w.takenMentions := by
      intro e' he' hnot
      rcases List.mem_append.mp he' with he' | he'
      · refine List.mem_append_left _ (List.mem_filter.mpr ⟨he', ?_⟩)
        simpa using hnot
      · exact List.mem_append_right _ he'
    obtain ⟨e₁, he₁, hfor⟩ := h.mentions e he
    by_cases hmatch : w.graph.matchesMention src dst eu e₁ = true
    · obtain ⟨-, hsrc, hdst⟩ := matchesMention_iff.mp hmatch
      have hdst₁ := mem_withUuid_of_nodes h.nodes hdst
      obtain ⟨e₂, he₂, hsrc₂, hdst₂⟩ := hcovered _ hsrc
      refine ⟨e₂, hkept e₂ he₂ fun hmatch₂ => ?_, hsrc₂.trans hfor.src, .inr ?_⟩
      · obtain ⟨-, -, hdst'⟩ := matchesMention_iff.mp hmatch₂
        exact hroot (withUuid_inj hdst₂ (mem_withUuid_of_nodes h.nodes hdst'))
      · rcases hfor.dst with hsame | ⟨u, hu, hu'⟩
        · exact ⟨dst, hsame ▸ hdst₁, hdst₂⟩
        · obtain rfl := withUuid_inj hu' hdst₁
          exact ⟨u, hu, rootIn_rootIn redirect u ▸ hdst₂⟩
    · exact ⟨e₁, hkept e₁ he₁ hmatch, hfor⟩

/-- The rule of a query from a state in `P`: other clients leave it there, and where it is
executed it leads to `I`. -/
theorem Disturbance.handle_keeps {P I : Watched → Prop} (d : Disturbance) (q : Query)
    (hless : ∀ w w', Watched.Less w w' → P w → P w') (hPI : ∀ w, P w → I w)
    (hexec : ∀ w order missed, P w → (∀ r ∈ w.missed, r ∈ missed) →
      I { w with graph := (q.exec order w.graph).2, missed := missed })
    (h : P w) : I (d.handle q w).2 := by
  have hbefore := hless w _ (d.less_before w) h
  have hmissed : ∀ more, ∀ r ∈ (d.before w).missed, r ∈ w.missed ++ more :=
    fun more r => List.mem_append_left more
  rcases d.handle_cases q w with ⟨error, heq⟩ | heq | heq <;> rw [heq]
  · exact hPI _ hbefore
  · exact hPI _ (hless (d.before w) _ (Watched.less_of_graph (fun _ _ => id) (fun _ => id)
      (fun _ => id) (fun _ => id) (hmissed _)) hbefore)
  · exact hexec _ _ _ hbefore (hmissed _)

/-- After a `CREATE` of phase A that has made an edge. -/
theorem Graph.covered_handle (hnodes : ∀ i n, w.graph.nodes.get? i = some n →
      g.nodes.get? i = some n) (d : Disturbance) {src dst eu gid : String}
    {createdAt : Option String} {made : ℕ}
    (hmade : (d.handle (.createMention src (rootIn redirect dst) eu gid createdAt) w).1 = .ok made)
    (hne : made ≠ 0) : g.Covered redirect src dst
      (d.handle (.createMention src (rootIn redirect dst) eu gid createdAt) w).2 := by
  have hnodes₁ : ∀ i n, (d.before w).graph.nodes.get? i = some n → g.nodes.get? i = some n :=
    fun i n hn => hnodes i n ((d.less_before w).nodes i n hn)
  rcases d.handle_cases (.createMention src (rootIn redirect dst) eu gid createdAt) w with
    ⟨error, heq⟩ | heq | heq <;> rw [heq] at hmade ⊢
  · cases hmade
  · exact absurd (Except.ok.inj hmade).symm hne
  · obtain rfl : ((d.before w).graph.created src (rootIn redirect dst) eu gid createdAt).length =
      made := Except.ok.inj hmade
    obtain ⟨e, he⟩ := List.exists_mem_of_length_pos (Nat.pos_of_ne_zero hne)
    have hdst := (of_mem_created he).2.1
    intro s hs
    refine ⟨⟨s, e.dst, eu, some gid, createdAt⟩, ?_, rfl, mem_withUuid_of_nodes hnodes₁ hdst⟩
    refine List.mem_append_left _ (List.mem_append_right _ (List.mem_flatMap.mpr ⟨s, hs, ?_⟩))
    exact List.mem_map.mpr ⟨e.dst, hdst, rfl⟩

/-- A turn of phase A. -/
theorem along_moveMention_lossless (d : Disturbance) (row : MentionRow)
    (h : g.BeforeMoves redirect w) :
    Prog.Along d.handle (g.BeforeMoves redirect) (moveMention redirect row) w := by
  refine along_moveMention h fun _ _ hroot => ?_
  have hcreate : w.Less (d.handle (row.create redirect) w).2 :=
    d.less_handle w (fun _ _ _ _ => id) (fun _ _ _ => id)
      (fun _ _ _ he => List.mem_append_left _ he) (fun _ _ _ => id)
  refine ⟨h.less hcreate, fun made hmade hne => ?_⟩
  have hcovered := Graph.covered_handle h.nodes d hmade hne
  refine d.handle_keeps (P := fun w => g.BeforeMoves redirect w ∧
      g.Covered redirect (row.srcUuid.getD "") (row.dstUuid.getD "") w) row.delete
    (fun _ _ hless h => ⟨h.1.less hless, h.2.less hless⟩) (fun _ h => h.1) ?_
    ⟨h.less hcreate, hcovered⟩
  rintro w order missed ⟨h, hcovered⟩ -
  exact ⟨h.deleted hcovered hroot missed, h.origin, h.relations⟩

/-! ## Phase B -/

theorem Graph.Guarded.anti {missed missed' : List Query} {e : Relation}
    (hmissed : ∀ r ∈ missed, r ∈ missed') (h : g.Guarded redirect py missed' e) :
    g.Guarded redirect py missed e := fun row hrow e₂ he₂ row₂ hrow₂ hdelete =>
  (h row hrow e₂ he₂ row₂ hrow₂ hdelete).imp_right fun hnot hin => hnot (hmissed _ hin)

theorem Graph.DuringMoves.less (h : g.DuringMoves redirect py w) (hless : w.Less w') :
    g.DuringMoves redirect py w' where
  toHoldsMentions := h.toHoldsMentions.less hless
  relations e he hapart hguarded := by
    rcases h.relations e he hapart (hguarded.anti hless.missed) with hin | ⟨row, hrow, e', he', hends⟩
    · exact .inl (hless.relations e hin)
    · exact .inr ⟨row, hrow, e', hless.relations e' he', hends⟩

theorem Graph.BeforeMoves.during (h : g.BeforeMoves redirect w) : g.DuringMoves redirect py w where
  toHoldsMentions := h.toHoldsMentions
  relations e he _ _ := .inl (h.relations e he)

/-- What a `DELETE` of phase B matches is an edge with the same `DELETE`. -/
theorem Graph.row_of_matches
    (hnodes : ∀ i n, w.graph.nodes.get? i = some n → g.nodes.get? i = some n)
    {row : RelationRow} {e : Relation}
    (hmatch : w.graph.matchesRelation row.srcUuid row.dstUuid row.edgeUuid e = true) :
    ∃ row', g.relationRow e = some row' ∧ row'.delete = row.delete := by
  obtain ⟨-, huuid, u, v, hu, hv, hsrc, hdst⟩ := matchesRelation_iff.mp hmatch
  obtain ⟨row', hrow', huuid', hu', hv'⟩ := isSome_relationRow
    (mem_withUuid_of_nodes hnodes hsrc) (mem_withUuid_of_nodes hnodes hdst)
  refine ⟨row', hrow', ?_⟩
  rw [RelationRow.delete, RelationRow.delete, hu', hv', huuid', hu, hv, huuid]

/-- No `DELETE` of a row that is redirected matches an edge that is in its place. -/
theorem Graph.Joins.not_matches
    (hnodes : ∀ i n, w.graph.nodes.get? i = some n → g.nodes.get? i = some n)
    {row row' : RelationRow} {e : Relation} (hjoins : g.Joins redirect row' e)
    (hmoved : ¬ row.Settled redirect) :
    ¬ w.graph.matchesRelation row.srcUuid row.dstUuid row.edgeUuid e := by
  intro hmatch
  obtain ⟨-, -, u, v, hu, hv, hsrc, hdst⟩ := matchesRelation_iff.mp hmatch
  -- its ends are roots, and so are those of the row
  have hsrc' := withUuid_inj (mem_withUuid_of_nodes hnodes hsrc) hjoins.src
  have hdst' := withUuid_inj (mem_withUuid_of_nodes hnodes hdst) hjoins.dst
  refine hmoved ⟨?_, ?_⟩
  · rw [RelationRow.newSrc, hu, hsrc']
    exact rootIn_rootIn ..
  · rw [RelationRow.newDst, hv, hdst']
    exact rootIn_rootIn ..

/-- The row has an edge in its place, or its `CREATE` has been missed. -/
def Graph.InPlace (g : Graph) (redirect : Table String String) (py : Builtins)
    (row : RelationRow) (w : Watched) : Prop :=
  row.recreate py redirect ∈ w.missed ∨
    ∃ e ∈ w.allRelations, e.prop "fact" = row.fact ∧ g.Joins redirect row e

theorem Graph.InPlace.less {row : RelationRow} (h : g.InPlace redirect py row w)
    (hless : w.Less w') : g.InPlace redirect py row w' := by
  rcases h with h | ⟨e, he, hends⟩
  · exact .inl (hless.missed _ h)
  · exact .inr ⟨e, hless.relations e he, hends⟩

/-- A `DELETE` of phase B takes nothing away that has no edge in its place. -/
theorem Graph.DuringMoves.deleted (h : g.DuringMoves redirect py w) {row : RelationRow}
    {e₀ : Relation} (he₀ : e₀ ∈ g.relations) (hrow₀ : g.relationRow e₀ = some row)
    (hmoved : ¬ row.Settled redirect)
    (hplace : row.newSrc redirect ≠ row.newDst redirect → g.InPlace redirect py row w)
    (order : Scan) {missed : List Query} (hmissed : ∀ r ∈ w.missed, r ∈ missed) :
    g.DuringMoves redirect py { w with
      graph := (row.delete.exec order w.graph).2, missed := missed } where
  nodes := h.nodes
  mentions := h.mentions
  relations e he hapart hguarded := by
    have hkept : ∀ e' ∈ w.allRelations,
        ¬ w.graph.matchesRelation row.srcUuid row.dstUuid row.edgeUuid e' →
          e' ∈ (row.delete.exec order w.graph).2.relations ++ w.takenRelations := by
      intro e' he' hnot
      rcases List.mem_append.mp he' with he' | he'
      · refine List.mem_append_left _ (List.mem_filter.mpr ⟨he', ?_⟩)
        simpa using hnot
      · exact List.mem_append_right _ he'
    have hguarded' := hguarded.anti hmissed
    rcases h.relations e he hapart hguarded' with hin | ⟨row', hrow', e', he', hfact, hjoins⟩
    · by_cases hmatch : w.graph.matchesRelation row.srcUuid row.dstUuid row.edgeUuid e = true
      · -- the edge is that of the row, or has the same `DELETE`
        obtain ⟨row', hrow', hdelete⟩ := row_of_matches h.nodes hmatch
        obtain ⟨hsrc, hdst, -⟩ := Query.deleteRelation.inj hdelete
        obtain ⟨hfact, hnot⟩ := hguarded' row' hrow' e₀ he₀ row hrow₀ hdelete.symm
        have hne : row.newSrc redirect ≠ row.newDst redirect := by
          have hne' := hapart row' hrow'
          rwa [RelationRow.newSrc, RelationRow.newDst, hsrc, hdst] at hne'
        obtain ⟨e', he', hfact', hjoins⟩ := (hplace hne).resolve_left hnot
        refine .inr ⟨row', hrow', e', hkept e' he' (hjoins.not_matches h.nodes hmoved),
          hfact'.trans hfact, ?_, ?_⟩
        · rw [RelationRow.newSrc, hsrc]
          exact hjoins.src
        · rw [RelationRow.newDst, hdst]
          exact hjoins.dst
      · exact .inl (hkept e hin hmatch)
    · exact .inr ⟨row', hrow', e', hkept e' he' (hjoins.not_matches h.nodes hmoved), hfact, hjoins⟩

theorem Graph.DuringMoves.created (h : g.DuringMoves redirect py w) (src dst : String)
    (props : List (String × Value)) {missed : List Query} (hmissed : ∀ r ∈ w.missed, r ∈ missed) :
    g.DuringMoves redirect py { w with
      graph := w.graph.createRelation src dst props, missed := missed } where
  nodes := h.nodes
  mentions := h.mentions
  relations e he hapart hguarded := by
    have hkept : ∀ e' ∈ w.allRelations,
        e' ∈ (w.graph.createRelation src dst props).relations ++ w.takenRelations := by
      intro e' he'
      rcases List.mem_append.mp he' with he' | he'
      · exact List.mem_append_left _ (List.mem_append_left _ he')
      · exact List.mem_append_right _ he'
    rcases h.relations e he hapart (hguarded.anti hmissed) with hin | ⟨row, hrow, e', he', hends⟩
    · exact .inl (hkept e hin)
    · exact .inr ⟨row, hrow, e', hkept e' he', hends⟩

/-- After a `CREATE` of phase B that has not raised. -/
theorem Graph.inPlace_handle (hnodes : ∀ i n, w.graph.nodes.get? i = some n →
      g.nodes.get? i = some n) (d : Disturbance) {row : RelationRow}
    (hok : (d.handle (row.recreate py redirect) w).1 = .ok ()) :
    g.InPlace redirect py row (d.handle (row.recreate py redirect) w).2 := by
  have hnodes₁ : ∀ i n, (d.before w).graph.nodes.get? i = some n → g.nodes.get? i = some n :=
    fun i n hn => hnodes i n ((d.less_before w).nodes i n hn)
  rcases d.handle_cases (row.recreate py redirect) w with ⟨error, heq⟩ | heq | heq <;>
    rw [heq] at hok ⊢
  · cases hok
  · exact .inl (List.mem_append_right _ List.mem_cons_self)
  · rcases hmade : (d.before w).graph.createdRelations (row.newSrc redirect) (row.newDst redirect)
      (recreatedProps py row (row.newSrc redirect) (row.newDst redirect)) with _ | ⟨e, made⟩
    · refine .inl (List.mem_append_right _ ?_)
      simp [RelationRow.recreate, Query.unmade, hmade]
    · have he := hmade ▸ List.mem_cons_self (a := e) (l := made)
      refine .inr ⟨e, List.mem_append_left _ (List.mem_append_right _ he), ?_⟩
      obtain ⟨s, hs, he⟩ := List.mem_flatMap.mp he
      obtain ⟨t, ht, rfl⟩ := List.mem_map.mp he
      exact ⟨prop_recreated s t "fact", mem_withUuid_of_nodes hnodes₁ hs,
        mem_withUuid_of_nodes hnodes₁ ht⟩

/-- A turn of phase B. -/
theorem along_moveRelation_lossless (d : Disturbance) {row : RelationRow}
    (hrow : ∃ e ∈ g.relations, g.relationRow e = some row) (h : g.DuringMoves redirect py w) :
    Prog.Along d.handle (g.DuringMoves redirect py) (moveRelation py redirect row) w := by
  obtain ⟨e₀, he₀, hrow₀⟩ := hrow
  refine along_moveRelation h (fun hmoved hsame => ?_) fun hmoved hne => ?_
  · exact d.handle_keeps _ (fun _ _ hless h => h.less hless) (fun _ => id)
      (fun w order missed h hmissed =>
        h.deleted he₀ hrow₀ hmoved (fun hne => absurd hsame hne) order hmissed) h
  · have hcreate : g.DuringMoves redirect py (d.handle (row.recreate py redirect) w).2 :=
      d.handle_keeps _ (fun _ _ hless h => h.less hless) (fun _ => id)
        (fun w order missed h hmissed => h.created _ _ _ hmissed) h
    refine ⟨hcreate, fun hok => ?_⟩
    exact d.handle_keeps (P := fun w => g.DuringMoves redirect py w ∧ g.InPlace redirect py row w)
      row.delete (fun _ _ hless h => ⟨h.1.less hless, h.2.less hless⟩) (fun _ h => h.1)
      (fun w order missed h hmissed => h.1.deleted he₀ hrow₀ hmoved (fun _ => h.2) order hmissed)
      ⟨hcreate, Graph.inPlace_handle h.nodes d hok⟩

/-! ## Phases C and D -/

theorem Graph.AfterMoves.less (h : g.AfterMoves redirect py w) (hless : w.Less w') :
    g.AfterMoves redirect py w' where
  toHoldsMentions := h.toHoldsMentions.less hless
  relations e he hapart hguarded halone := by
    obtain ⟨e', he', hfor⟩ := h.relations e he hapart (hguarded.anti hless.missed) halone
    exact ⟨e', hless.relations e' he', hfor⟩

theorem Graph.DuringMoves.after (h : g.DuringMoves redirect py w) :
    g.AfterMoves redirect py w where
  toHoldsMentions := h.toHoldsMentions
  relations e he hapart hguarded _ := by
    rcases h.relations e he hapart hguarded with hin | ⟨row, hrow, e', he', hfact, hjoins⟩
    · exact ⟨e, hin, rfl, .inl ⟨rfl, rfl⟩⟩
    · obtain ⟨-, -, -, hfact'⟩ := of_relationRow hrow
      exact ⟨e', he', hfact.trans hfact', .inr ⟨row, hrow, hjoins⟩⟩

/-- What phase C drops is in a group of which it keeps one. -/
theorem Graph.exists_mem_firstOfGroups (g : Graph) {es : List Relation} {e : Relation}
    (he : e ∈ es) (seen : List (Option String × Option String × Value)) :
    (∃ e' ∈ g.firstOfGroups es seen,
      e' = e ∨ (g.relationGroup e).isSome ∧ g.relationGroup e' = g.relationGroup e) ∨
      ∃ group ∈ seen, g.relationGroup e = some group := by
  induction es generalizing seen with
  | nil => cases he
  | cons a es ih =>
    rw [firstOfGroups]
    rcases List.mem_cons.mp he with rfl | he
    · split
      · exact .inl ⟨e, List.mem_cons_self, .inl rfl⟩
      · next group hgroup =>
        split
        · next hseen => exact .inr ⟨group, hseen, hgroup⟩
        · exact .inl ⟨e, List.mem_cons_self, .inl rfl⟩
    · split
      · refine (ih he seen).imp_left ?_
        rintro ⟨e', he', h⟩
        exact ⟨e', List.mem_cons_of_mem a he', h⟩
      · next group hgroup =>
        split
        · exact ih he seen
        · rcases ih he (group :: seen) with ⟨e', he', h⟩ | ⟨group', hin, h⟩
          · exact .inl ⟨e', List.mem_cons_of_mem a he', h⟩
          · rcases List.mem_cons.mp hin with rfl | hin
            · exact .inl ⟨a, List.mem_cons_self, .inr ⟨h ▸ rfl, hgroup.trans h.symm⟩⟩
            · exact .inr ⟨group', hin, h⟩

/-- What phase C keeps of a group stands for what the others stand for. -/
theorem Graph.RelationFor.of_group (hnodes : ∀ i n, g'.nodes.get? i = some n →
      g.nodes.get? i = some n) {e e₁ e₂ : Relation} (h : g.RelationFor redirect e e₁)
    (halone : g.Alone e) (hsome : (g'.relationGroup e₁).isSome)
    (hgroup : g'.relationGroup e₂ = g'.relationGroup e₁) : g.RelationFor redirect e e₂ := by
  rw [relationGroup, Option.isSome_map] at hsome
  obtain ⟨row₁, hrow₁⟩ := Option.isSome_iff_exists.mp hsome
  rw [relationGroup, relationGroup, hrow₁, Option.map_some, Option.map_eq_some_iff] at hgroup
  obtain ⟨row₂, hrow₂, hsame⟩ := hgroup
  obtain ⟨hsrc, hdst, hfact⟩ := (Prod.mk.injEq ..).mp hsame |>.imp_right Prod.mk.inj
  obtain ⟨⟨a₁, ha₁, hu₁⟩, ⟨b₁, hb₁, hv₁⟩, -, hf₁⟩ := of_relationRow hrow₁
  obtain ⟨⟨a₂, ha₂, hu₂⟩, ⟨b₂, hb₂, hv₂⟩, -, hf₂⟩ := of_relationRow hrow₂
  replace ha₁ := labelled_of_nodes hnodes ha₁
  replace hb₁ := labelled_of_nodes hnodes hb₁
  replace ha₂ := labelled_of_nodes hnodes ha₂
  replace hb₂ := labelled_of_nodes hnodes hb₂
  have hua : a₂.uuid = a₁.uuid := by rw [← hu₂, hsrc, hu₁]
  have hvb : b₂.uuid = b₁.uuid := by rw [← hv₂, hdst, hv₁]
  refine ⟨by rw [← hf₂, hfact, hf₁, h.fact], ?_⟩
  rcases h.ends with ⟨hs, ht⟩ | ⟨row, hrow, hjoins⟩
  · left
    rw [hs] at ha₁
    rw [ht] at hb₁
    obtain ⟨row, hrow⟩ : ∃ row, g.relationRow e = some row := by
      rw [relationRow, ha₁, hb₁]
      exact ⟨_, rfl⟩
    obtain ⟨⟨a, ha, hu⟩, ⟨b, hb, hv⟩, -⟩ := of_relationRow hrow
    obtain rfl := Option.some.inj (ha.symm.trans ha₁)
    obtain rfl := Option.some.inj (hb.symm.trans hb₁)
    exact ⟨(halone row hrow _ a₂ ha₂).1 (hua.trans hu.symm),
      (halone row hrow _ b₂ hb₂).2 (hvb.trans hv.symm)⟩
  · right
    obtain ⟨a, ha, hu⟩ := mem_withUuid.mp hjoins.src
    obtain ⟨b, hb, hv⟩ := mem_withUuid.mp hjoins.dst
    obtain rfl := Option.some.inj (ha.symm.trans ha₁)
    obtain rfl := Option.some.inj (hb.symm.trans hb₁)
    exact ⟨row, hrow, mem_withUuid.mpr ⟨a₂, ha₂, hua.trans hu⟩,
      mem_withUuid.mpr ⟨b₂, hb₂, hvb.trans hv⟩⟩

theorem Graph.AfterMoves.deduplicated (h : g.AfterMoves redirect py w) (order : Scan)
    {missed : List Query} (hmissed : ∀ r ∈ w.missed, r ∈ missed) :
    g.AfterMoves redirect py { w with
      graph := (Query.deleteDuplicates.exec order w.graph).2, missed := missed } where
  nodes := h.nodes
  mentions := h.mentions
  relations e he hapart hguarded halone := by
    obtain ⟨e₁, he₁, hfor⟩ := h.relations e he hapart (hguarded.anti hmissed) halone
    rcases List.mem_append.mp he₁ with he₁ | he₁
    · rcases w.graph.exists_mem_firstOfGroups ((order.perm _).mem_iff.mpr he₁) [] with
        ⟨e₂, he₂, rfl | ⟨hsome, hgroup⟩⟩ | ⟨_, hin, -⟩
      · exact ⟨e₂, List.mem_append_left _ he₂, hfor⟩
      · exact ⟨e₂, List.mem_append_left _ he₂, hfor.of_group h.nodes halone hsome hgroup⟩
      · cases hin
    · exact ⟨e₁, List.mem_append_right _ he₁, hfor⟩

/-- One query of phases C and D. -/
theorem Graph.AfterMoves.handle (h : g.AfterMoves redirect py w) (d : Disturbance) {q : Query}
    (hq : q.OfCleanup) : g.AfterMoves redirect py (d.handle q w).2 := by
  cases q with
  | countDuplicates =>
    exact h.less (d.less_read w fun _ _ => rfl)
  | deleteDuplicates =>
    exact d.handle_keeps _ (fun _ _ hless h => h.less hless) (fun _ => id)
      (fun w order missed h hmissed => h.deduplicated order hmissed) h
  | countDetached victims =>
    exact h.less (d.less_read w fun _ _ => rfl)
  | deleteDetached victims =>
    refine h.less (d.less_handle w (fun _ g i n hn => ?_) (fun _ _ _ => List.mem_of_mem_filter)
      (fun _ g e he => ?_) fun _ g e he => ?_)
    · exact (Option.filter_eq_some_iff.mp ((Table.get?_filter g.nodes _ i).symm.trans hn)).1
    · exact (g.mentions_removeDetached victims).symm ▸ he
    · exact (g.relations_removeDetached victims).symm ▸ he
  | _ => cases hq

/-! ## The whole -/

/-- The rows phase B reads are those of edges of the graph. -/
theorem Graph.BeforeMoves.row_of_read (h : g.BeforeMoves redirect w) (d : Disturbance)
    {victims : List String} {rows : List RelationRow}
    (hrows : (d.handle (.relationsTouching victims) w).1 = .ok rows) {row : RelationRow}
    (hrow : row ∈ rows) : ∃ e ∈ g.relations, g.relationRow e = some row := by
  have hbefore := h.less (d.less_before w)
  rcases d.handle_cases (.relationsTouching victims) w with ⟨error, heq⟩ | heq | heq <;>
    rw [heq] at hrows
  · cases hrows
  · obtain rfl := Except.ok.inj hrows
    cases hrow
  · obtain rfl := Except.ok.inj hrows
    have hin := (List.mem_filter.mp (((d.server.scan w.tick).perm _).mem_iff.mp hrow)).1
    obtain ⟨e, he, hrelation⟩ := List.mem_filterMap.mp hin
    exact ⟨e, hbefore.origin e he, relationRow_of_nodes hbefore.nodes hrelation⟩

theorem applyKeeps_lossless (d : Disturbance) (py : Builtins) (g : Graph)
    (plan : DedupPlan Score) :
    ApplyKeeps d.handle py plan (g.BeforeMoves plan.redirect) (g.DuringMoves plan.redirect py)
      (g.AfterMoves plan.redirect py) fun row => ∃ e ∈ g.relations, g.relationRow e = some row where
  readMentions w h := h.less (d.less_read w fun _ _ => rfl)
  mentionTurn row _ h := along_moveMention_lossless d row h
  readRelations w h := ⟨(h.less (d.less_read w fun _ _ => rfl)).during,
    fun _ hrows _ hrow => h.row_of_read d hrows hrow⟩
  relationTurn _ _ hrow h := along_moveRelation_lossless d hrow h
  cleanup _ _ hq h := h.handle d hq

end

/-- What the run has left of the edges of `g`. -/
structure Graph.Lossless (g : Graph) (py : Builtins) (redirect : Table String String)
    (w : Watched) : Prop where
  /-- a `MENTIONS` edge, unless another client took what stood for it -/
  mentions : ∀ e ∈ g.mentions, (∀ e' ∈ w.takenMentions, ¬ g.MentionFor redirect e e') →
    ∃ e' ∈ w.graph.mentions, g.MentionFor redirect e e'
  /-- a `RELATES_TO` edge likewise, if phase B could replace it -/
  relations : ∀ e ∈ g.relations, g.Apart redirect e → g.Guarded redirect py w.missed e →
    g.Alone e → (∀ e' ∈ w.takenRelations, ¬ g.RelationFor redirect e e') →
      ∃ e' ∈ w.graph.relations, g.RelationFor redirect e e'

/-- No edge is lost but to other clients, wherever the run stops. -/
theorem apply_lossless (d : Disturbance) (py : Builtins) (plan : DedupPlan Score) (apply : Bool)
    (batch : ℕ) (w : Watched) (n : ℕ) :
    w.graph.Lossless py plan.redirect (Prog.crash d.handle n (applyPlan py plan apply batch) w) := by
  have hstart : w.graph.BeforeMoves plan.redirect w :=
    ⟨⟨fun _ _ => id, fun e he => ⟨e, List.mem_append_left _ he, rfl, .inl rfl⟩⟩, fun _ => id,
      fun e he => List.mem_append_left _ he⟩
  have hend := Prog.along_iff.mp ((applyKeeps_lossless d py w.graph plan).along
    (fun _ h => h.during.after) (fun _ h => h.after) (fun _ h => h.after) (fun _ => id) apply batch
    hstart) n
  constructor
  · intro e he htaken
    obtain ⟨e', he', hfor⟩ := hend.mentions e he
    exact ⟨e', (List.mem_append.mp he').resolve_right fun h => htaken e' h hfor, hfor⟩
  · intro e he hapart hguarded halone htaken
    obtain ⟨e', he', hfor⟩ := hend.relations e he hapart hguarded halone
    exact ⟨e', (List.mem_append.mp he').resolve_right fun h => htaken e' h hfor, hfor⟩

/-- Nothing goes wrong. -/
def undisturbed : Disturbance := ⟨inOrder, fun _ => false, fun _ _ _ => false⟩

/-- An edge with a uuid and a fact, between the `CREATE` and the `DELETE` of its row. -/
theorem apply_lossless_related :
    ∃ e' ∈ (Prog.crash undisturbed.handle 3 (applyPlan default mergeOne true 200)
      ⟨related [("uuid", .str "e"), ("fact", .str "f")], 0, [], [], []⟩).graph.relations,
      (related [("uuid", .str "e"), ("fact", .str "f")]).RelationFor mergeOne.redirect
        ⟨0, 2, Graph.storedProps [("uuid", .str "e"), ("fact", .str "f")]⟩ e' := by
  refine (apply_lossless undisturbed default mergeOne true 200 _ 3).relations _ List.mem_cons_self
    ?_ ?_ ?_ ?_
  · rintro row ⟨⟩
    decide
  · rintro row ⟨⟩ e₂ he₂ row₂ hrow₂ -
    obtain rfl := List.mem_singleton.mp he₂
    cases hrow₂
    exact ⟨rfl, List.not_mem_nil⟩
  · rintro row ⟨⟩ i n hn
    obtain ⟨hget, -⟩ := Graph.labelled_eq_some.mp hn
    have hends : ∀ r ∈ (related [("uuid", .str "e"), ("fact", .str "f")]).nodes.rows,
        (r.2.uuid = some "v" → r.1 = 0) ∧ (r.2.uuid = some "t" → r.1 = 2) := by decide
    exact hends _ (Table.mem_rows.mpr hget)
  · exact fun e' he' => absurd he' List.not_mem_nil

/-- Another client deletes the survivor, which has no edge, right before the `CREATE`. -/
def survivorGone : Disturbance :=
  { undisturbed with removes := fun tick _ n => tick = 2 ∧ n.uuid = some "s" }

/-- Then the `DELETE` comes all the same. -/
theorem not_apply_lossless :
    (related [("uuid", .str "e"), ("fact", .str "f")]).Apart mergeOne.redirect
      ⟨0, 2, Graph.storedProps [("uuid", .str "e"), ("fact", .str "f")]⟩ ∧
    (Prog.run survivorGone.handle (applyPlan default mergeOne true 200)
      ⟨related [("uuid", .str "e"), ("fact", .str "f")], 0, [], [], []⟩).2.takenRelations = [] ∧
    (Prog.run survivorGone.handle (applyPlan default mergeOne true 200)
      ⟨related [("uuid", .str "e"), ("fact", .str "f")], 0, [], [], []⟩).2.graph.relations = [] := by
  refine ⟨?_, rfl, rfl⟩
  rintro row ⟨⟩
  decide

end JanusGraph
