import JanusGraph.Graph.Schema

/-!
# What the patterns match

The node patterns of the queries, for a graph whose nodes are told apart by their
uuids (`Graph.Keyed`), and what deleting nodes leaves of a graph.
-/

namespace JanusGraph

namespace Graph

variable {g g' : Graph} {label : NodeLabel}

theorem labelled_eq_some {i : ℕ} {n : Node} :
    g.labelled label i = some n ↔ g.nodes.get? i = some n ∧ n.label = label := by
  simp [labelled, Option.filter_eq_some_iff]

theorem labelled_of_mem_episodicNodes {p : Node → Bool} {n : Node} (hn : n ∈ g.episodicNodes p) :
    ∃ i, g.labelled .episodic i = some n := by
  obtain ⟨hnode, hlabel⟩ := List.mem_filter.mp hn
  obtain ⟨⟨i, n⟩, hrow, rfl⟩ := List.mem_map.mp hnode
  exact ⟨i, labelled_eq_some.mpr ⟨Table.mem_rows.mp hrow, (of_decide_eq_true hlabel).1⟩⟩

theorem labelled_congr (h : g'.nodes = g.nodes) (i : ℕ) :
    g'.labelled label i = g.labelled label i := by
  rw [labelled, labelled, h]

theorem withUuid_congr (h : g'.nodes = g.nodes) (uuid : String) :
    g'.withUuid label uuid = g.withUuid label uuid := by
  rw [withUuid, withUuid, h]

theorem mem_withUuid {uuid : String} {i : ℕ} :
    i ∈ g.withUuid label uuid ↔ ∃ n, g.labelled label i = some n ∧ n.uuid = some uuid := by
  simp only [withUuid, List.mem_map, List.mem_filter, decide_eq_true_eq, Prod.exists,
    labelled_eq_some, Table.mem_rows]
  constructor
  · rintro ⟨j, n, ⟨hn, hlabel, huuid⟩, rfl⟩
    exact ⟨n, ⟨hn, hlabel⟩, huuid⟩
  · rintro ⟨n, ⟨hn, hlabel⟩, huuid⟩
    exact ⟨i, n, ⟨hn, hlabel, huuid⟩, rfl⟩

/-- A node has one uuid. -/
theorem withUuid_inj {i : ℕ} {u v : String}
    (hu : i ∈ g.withUuid label u) (hv : i ∈ g.withUuid label v) : u = v := by
  obtain ⟨n, hn, hnu⟩ := mem_withUuid.mp hu
  obtain ⟨m, hm, hmv⟩ := mem_withUuid.mp hv
  obtain rfl := Option.some.inj (hn.symm.trans hm)
  exact Option.some.inj (hnu.symm.trans hmv)

theorem nodup_withUuid (g : Graph) (label : NodeLabel) (uuid : String) :
    (g.withUuid label uuid).Nodup :=
  (List.filter_sublist.map _).nodup g.nodes.nodup

/-- No two nodes of the label have the same uuid. -/
def Unique (g : Graph) (label : NodeLabel) : Prop :=
  ∀ {i j n m u}, g.labelled label i = some n → g.labelled label j = some m →
    n.uuid = some u → m.uuid = some u → i = j

theorem Unique.congr (h : g'.nodes = g.nodes) (hunique : g.Unique label) : g'.Unique label :=
  fun hi hj => hunique ((labelled_congr h _).symm.trans hi) ((labelled_congr h _).symm.trans hj)

/-- A uuid matches the one node that has it. -/
theorem Unique.withUuid_eq (hunique : g.Unique label) {i : ℕ} {uuid : String}
    (hi : i ∈ g.withUuid label uuid) : g.withUuid label uuid = [i] := by
  refine List.perm_singleton.mp ((List.perm_ext_iff_of_nodup (nodup_withUuid g label uuid)
    (List.nodup_singleton i)).mpr fun j => ?_)
  rw [List.mem_singleton]
  constructor
  · intro hj
    obtain ⟨n, hn, hu⟩ := mem_withUuid.mp hi
    obtain ⟨m, hm, hu'⟩ := mem_withUuid.mp hj
    exact hunique hm hn hu' hu
  · rintro rfl
    exact hi

theorem Unique.length_withUuid_le (hunique : g.Unique label) (uuid : String) :
    (g.withUuid label uuid).length ≤ 1 := by
  rcases hl : g.withUuid label uuid with _ | ⟨i, rest⟩
  · simp
  · have hi : i ∈ g.withUuid label uuid := hl ▸ List.mem_cons_self
    rw [← hl, hunique.withUuid_eq hi, List.length_singleton]

/-- The nodes of the label all have a uuid, and are told apart by it. -/
structure Keyed (g : Graph) (label : NodeLabel) : Prop where
  named : ∀ {i n}, g.labelled label i = some n → ∃ u, n.uuid = some u
  inj : ∀ {i n j m}, g.labelled label i = some n → g.labelled label j = some m →
    n.uuid = m.uuid → i = j

theorem Keyed.congr (h : g'.nodes = g.nodes) (hkeyed : g.Keyed label) : g'.Keyed label where
  named hi := hkeyed.named ((labelled_congr h _).symm.trans hi)
  inj hi hj := hkeyed.inj ((labelled_congr h _).symm.trans hi) ((labelled_congr h _).symm.trans hj)

theorem Keyed.unique (hkeyed : g.Keyed label) : g.Unique label :=
  fun hi hj hn hm => hkeyed.inj hi hj (hn.trans hm.symm)

theorem Keyed.withUuid_eq (hkeyed : g.Keyed label) {i : ℕ} {n : Node} {uuid : String}
    (hi : g.labelled label i = some n) (huuid : n.uuid = some uuid) :
    g.withUuid label uuid = [i] :=
  Unique.withUuid_eq hkeyed.unique (mem_withUuid.mpr ⟨n, hi, huuid⟩)

theorem relationRow_congr (h : g'.nodes = g.nodes) (e : Relation) :
    g'.relationRow e = g.relationRow e := by
  rw [relationRow, relationRow, labelled_congr h, labelled_congr h]

/-! ## Created edges -/

theorem created_congr (h : g'.nodes = g.nodes) (src dst eu gid : String)
    (createdAt : Option String) :
    g'.created src dst eu gid createdAt = g.created src dst eu gid createdAt := by
  rw [created, created, withUuid_congr h, withUuid_congr h]

/-- A created edge joins nodes that have the uuids asked for. -/
theorem of_mem_created {src dst eu gid : String} {createdAt : Option String} {e : Mention}
    (he : e ∈ g.created src dst eu gid createdAt) :
    e.src ∈ g.withUuid .episodic src ∧ e.dst ∈ g.withUuid .entity dst ∧ e.uuid = eu := by
  obtain ⟨s, hs, he⟩ := List.mem_flatMap.mp he
  obtain ⟨t, ht, rfl⟩ := List.mem_map.mp he
  exact ⟨hs, ht, rfl⟩

/-- Between two keyed nodes one edge is created. -/
theorem created_eq (hepisodic : g.Keyed .episodic) (hentity : g.Keyed .entity) {i j : ℕ}
    {s t : Node} {src dst : String} (hs : g.labelled .episodic i = some s)
    (hsrc : s.uuid = some src) (ht : g.labelled .entity j = some t) (hdst : t.uuid = some dst)
    (eu gid : String) (createdAt : Option String) :
    g.created src dst eu gid createdAt = [⟨i, j, eu, some gid, createdAt⟩] := by
  rw [created, hepisodic.withUuid_eq hs hsrc, hentity.withUuid_eq ht hdst]
  rfl

/-- The matched edge has the ends and the uuid asked for. -/
theorem matchesMention_iff {src dst eu : String} {e : Mention} :
    g.matchesMention src dst eu e = true ↔
      e.uuid = eu ∧ e.src ∈ g.withUuid .episodic src ∧ e.dst ∈ g.withUuid .entity dst := by
  simp only [matchesMention, Bool.decide_and, Bool.and_eq_true, decide_eq_true_eq,
    Option.any_eq_true, mem_withUuid]

theorem matchesMention_congr (h : g'.nodes = g.nodes) (src dst eu : String) (e : Mention) :
    g'.matchesMention src dst eu e = g.matchesMention src dst eu e := by
  simp only [matchesMention, labelled_congr h]

/-- Of edges that their uuids tell apart, a `DELETE` takes the one it is meant for. -/
theorem filter_not_matchesMention {base : List Mention} (hbase : (base.map Mention.uuid).Nodup)
    {e : Mention} (he : e ∈ base) {src dst : String}
    (hmatch : g.matchesMention src dst e.uuid e = true) (uuids : List String) :
    ((base.filter fun e' => e'.uuid ∉ uuids).filter fun e' =>
      !g.matchesMention src dst e.uuid e') = base.filter fun e' => e'.uuid ∉ uuids ++ [e.uuid] := by
  rw [List.filter_filter]
  refine List.filter_congr fun e' he' => ?_
  by_cases heq : e'.uuid = e.uuid
  · obtain rfl := List.inj_on_of_nodup_map hbase he' he heq
    simp [hmatch]
  · have hnot : g.matchesMention src dst e.uuid e' = false := by
      rw [← Bool.not_eq_true, matchesMention_iff]
      exact fun h => heq h.1
    simp [hnot, heq]

/-- The row of an edge, from its ends. -/
theorem of_mentionRow {e : Mention} {row : MentionRow} (h : g.mentionRow e = some row) :
    (∃ s, g.labelled .episodic e.src = some s ∧ row.srcUuid = s.uuid) ∧
      (∃ t, g.labelled .entity e.dst = some t ∧ row.dstUuid = t.uuid) ∧ row.edgeUuid = e.uuid := by
  unfold mentionRow at h
  split at h
  · next s t hs ht =>
    cases h
    exact ⟨⟨s, hs, rfl⟩, ⟨t, ht, rfl⟩, rfl⟩
  · cases h

/-- The row of an edge, from its ends and its properties. -/
theorem of_relationRow {e : Relation} {row : RelationRow} (h : g.relationRow e = some row) :
    (∃ a, g.labelled .entity e.src = some a ∧ row.srcUuid = a.uuid) ∧
      (∃ b, g.labelled .entity e.dst = some b ∧ row.dstUuid = b.uuid) ∧
      row.edgeUuid = e.prop "uuid" ∧ row.fact = e.prop "fact" := by
  unfold relationRow at h
  split at h
  · next a b ha hb =>
    cases h
    exact ⟨⟨a, ha, rfl⟩, ⟨b, hb, rfl⟩, rfl, rfl⟩
  · cases h

theorem isSome_relationRow {e : Relation} {u v : String} (hsrc : e.src ∈ g.withUuid .entity u)
    (hdst : e.dst ∈ g.withUuid .entity v) : ∃ row, g.relationRow e = some row ∧
      row.edgeUuid = e.prop "uuid" ∧ row.srcUuid = some u ∧ row.dstUuid = some v := by
  obtain ⟨a, ha, hu⟩ := mem_withUuid.mp hsrc
  obtain ⟨b, hb, hv⟩ := mem_withUuid.mp hdst
  rw [relationRow, ha, hb]
  exact ⟨_, rfl, rfl, hu, hv⟩

theorem matchesRelation_iff {src dst : Option String} {eu : Value} {e : Relation} :
    g.matchesRelation src dst eu e = true ↔ eu ≠ .null ∧ e.prop "uuid" = eu ∧
      ∃ u v, src = some u ∧ dst = some v ∧ e.src ∈ g.withUuid .entity u ∧
        e.dst ∈ g.withUuid .entity v := by
  simp only [matchesRelation, Bool.decide_and, Bool.and_eq_true, decide_eq_true_eq,
    Option.any_eq_true, mem_withUuid]
  constructor
  · rintro ⟨hne, huuid, hsrc, hdst, hs, ht⟩
    obtain ⟨u, rfl⟩ := Option.isSome_iff_exists.mp hsrc
    obtain ⟨v, rfl⟩ := Option.isSome_iff_exists.mp hdst
    exact ⟨hne, huuid, u, v, rfl, rfl, hs, ht⟩
  · rintro ⟨hne, huuid, u, v, rfl, rfl, hs, ht⟩
    exact ⟨hne, huuid, rfl, rfl, hs, ht⟩

/-- Of edges that their uuids tell apart, a `DELETE` takes the one it is meant for. -/
theorem filter_not_matchesRelation {base : List Relation}
    (hbase : (base.map fun e => e.prop "uuid").Nodup) {e : Relation} (he : e ∈ base)
    {src dst : Option String} (hmatch : g.matchesRelation src dst (e.prop "uuid") e = true)
    (uuids : List Value) :
    ((base.filter fun e' => e'.prop "uuid" ∉ uuids).filter fun e' =>
      !g.matchesRelation src dst (e.prop "uuid") e') =
        base.filter fun e' => e'.prop "uuid" ∉ uuids ++ [e.prop "uuid"] := by
  rw [List.filter_filter]
  refine List.filter_congr fun e' he' => ?_
  by_cases heq : e'.prop "uuid" = e.prop "uuid"
  · obtain rfl := List.inj_on_of_nodup_map hbase he' he heq
    simp [hmatch]
  · have hnot : g.matchesRelation src dst (e.prop "uuid") e' = false := by
      rw [← Bool.not_eq_true, matchesRelation_iff]
      exact fun h => heq h.2.1
    simp [hnot, heq]

theorem matchesRelation_congr (h : g'.nodes = g.nodes) (src dst : Option String) (eu : Value)
    (e : Relation) : g'.matchesRelation src dst eu e = g.matchesRelation src dst eu e := by
  simp only [matchesRelation, labelled_congr h]

theorem createdRelations_congr (h : g'.nodes = g.nodes) (src dst : String)
    (props : List (String × Value)) :
    g'.createdRelations src dst props = g.createdRelations src dst props := by
  rw [createdRelations, createdRelations, withUuid_congr h, withUuid_congr h]

/-- A created edge joins nodes that have the uuids asked for, and has the properties. -/
theorem of_mem_createdRelations {src dst : String} {props : List (String × Value)} {e : Relation}
    (he : e ∈ g.createdRelations src dst props) :
    e.src ∈ g.withUuid .entity src ∧ e.dst ∈ g.withUuid .entity dst ∧
      e.props = storedProps props := by
  obtain ⟨s, hs, he⟩ := List.mem_flatMap.mp he
  obtain ⟨t, ht, rfl⟩ := List.mem_map.mp he
  exact ⟨hs, ht, rfl⟩

/-! ## Removed edges and nodes -/

theorem keepMentions_of_forall {p : Mention → Bool} (h : ∀ e ∈ g.mentions, p e = true) :
    g.keepMentions p = g :=
  Graph.ext rfl (List.filter_eq_self.mpr h) rfl rfl

/-- The node is there, and not one of those picked. -/
def stays (g : Graph) (p : ℕ → Node → Bool) (i : ℕ) : Bool :=
  (g.nodes.get? i).any fun n => !p i n

variable {p q : ℕ → Node → Bool}

theorem stays_congr (h : g'.nodes = g.nodes) (p : ℕ → Node → Bool) : g'.stays p = g.stays p := by
  funext i
  rw [stays, stays, h]

theorem stays_of_forall {i : ℕ} (hi : (g.nodes.get? i).isSome)
    (h : ∀ n, g.nodes.get? i = some n → p i n = false) : g.stays p i = true := by
  obtain ⟨n, hn⟩ := Option.isSome_iff_exists.mp hi
  simp [stays, hn, h n hn]

theorem mentions_removeNodes :
    (g.removeNodes p).mentions = g.mentions.filter fun e => g.stays p e.src && g.stays p e.dst :=
  rfl

theorem relations_removeNodes :
    (g.removeNodes p).relations =
      g.relations.filter fun e => g.stays p e.src && g.stays p e.dst :=
  rfl

theorem others_removeNodes :
    (g.removeNodes p).others = g.others.filter fun e => g.stays p e.src && g.stays p e.dst :=
  rfl

theorem stays_removeNodes (i : ℕ) :
    (g.removeNodes p).stays q i = g.stays (fun i n => p i n || q i n) i := by
  simp only [stays, removeNodes, Table.get?_filter]
  rcases hn : g.nodes.get? i with _ | n
  · rfl
  · cases hp : p i n <;> simp [hp]

theorem stays_or (i : ℕ) :
    g.stays (fun i n => p i n || q i n) i = (g.stays p i && g.stays q i) := by
  simp only [stays]
  cases g.nodes.get? i <;> simp

/-- Removing nodes twice is removing them all at once. -/
theorem removeNodes_removeNodes :
    (g.removeNodes p).removeNodes q = g.removeNodes fun i n => p i n || q i n := by
  refine Graph.ext (Table.ext ?_) ?_ ?_ ?_
  · simp [removeNodes, Table.filter, List.filter_filter, Bool.and_comm]
  all_goals
    simp only [mentions_removeNodes, relations_removeNodes, others_removeNodes,
      List.filter_filter, stays_removeNodes, stays_or]
    refine List.filter_congr fun e _ => ?_
    cases g.stays p e.src <;> cases g.stays p e.dst <;> simp

theorem removeNodes_congr (h : ∀ i n, g.nodes.get? i = some n → p i n = q i n) :
    g.removeNodes p = g.removeNodes q := by
  have hstays : g.stays p = g.stays q := by
    funext i
    simp only [stays]
    rcases hn : g.nodes.get? i with _ | n
    · rfl
    · rw [Option.any_some, Option.any_some, h i n hn]
  refine Graph.ext (Table.ext ?_) ?_ ?_ ?_
  · refine List.filter_congr fun r hr => ?_
    exact congrArg not (h r.1 r.2 (Table.mem_rows.mp hr))
  all_goals
    simp only [mentions_removeNodes, relations_removeNodes, others_removeNodes, hstays]

/-- No node is picked, and nothing goes. -/
theorem removeNodes_of_forall (h : ∀ i n, g.nodes.get? i = some n → p i n = false) :
    g.removeNodes p = g := by
  have hstays : ∀ i, (g.nodes.get? i).isSome → g.stays p i = true :=
    fun i hi => stays_of_forall hi (h i)
  refine Graph.ext (Table.ext (List.filter_eq_self.mpr fun r hr => ?_)) ?_ ?_ ?_
  · simp [h r.1 r.2 (Table.mem_rows.mp hr)]
  · refine List.filter_eq_self.mpr fun e he => ?_
    rw [Bool.and_eq_true]
    exact (g.attached.1 e he).imp (hstays _) (hstays _)
  · refine List.filter_eq_self.mpr fun e he => ?_
    rw [Bool.and_eq_true]
    exact (g.attached.2.1 e he).imp (hstays _) (hstays _)
  · refine List.filter_eq_self.mpr fun e he => ?_
    rw [Bool.and_eq_true]
    exact (g.attached.2.2 e he).imp (hstays _) (hstays _)

theorem labelled_removeNodes (i : ℕ) :
    (g.removeNodes p).labelled label i = (g.labelled label i).filter fun n => !p i n := by
  rw [labelled, labelled, removeNodes, Table.get?_filter, Option.filter_filter,
    Option.filter_filter]
  congr 1
  funext n
  exact Bool.and_comm ..

theorem Keyed.removeNodes (hkeyed : g.Keyed label) : (g.removeNodes p).Keyed label where
  named hi := by
    rw [labelled_removeNodes] at hi
    exact hkeyed.named (Option.filter_eq_some_iff.mp hi).1
  inj hi hj := by
    rw [labelled_removeNodes] at hi hj
    exact hkeyed.inj (Option.filter_eq_some_iff.mp hi).1 (Option.filter_eq_some_iff.mp hj).1

/-! ## Detached entities -/

/-- A node that an edge touches is not detached. -/
theorem stays_detached (g : Graph) (victims : List String) {i : ℕ}
    (hi : (g.nodes.get? i).isSome)
    (hedge : (∃ e ∈ g.mentions, e.src = i ∨ e.dst = i) ∨
      (∃ e ∈ g.relations, e.src = i ∨ e.dst = i) ∨ ∃ e ∈ g.others, e.src = i ∨ e.dst = i) :
    g.stays (g.detached victims) i = true := by
  refine stays_of_forall hi fun n _ => ?_
  rw [← Bool.not_eq_true]
  intro hdetached
  simp only [detached, Bool.decide_and, Bool.and_eq_true, decide_eq_true_eq,
    List.all_eq_true] at hdetached
  obtain ⟨-, -, hmentions, hrelations, hothers⟩ := hdetached
  rcases hedge with ⟨e, he, hend⟩ | ⟨e, he, hend⟩ | ⟨e, he, hend⟩
  · exact hend.elim (hmentions e he).1 (hmentions e he).2
  · exact hend.elim (hrelations e he).1 (hrelations e he).2
  · exact hend.elim (hothers e he).1 (hothers e he).2

/-- Deleting detached entities takes no edge away. -/
theorem mentions_removeDetached (g : Graph) (victims : List String) :
    (g.removeNodes (g.detached victims)).mentions = g.mentions := by
  refine List.filter_eq_self.mpr fun e he => (Bool.and_eq_true _ _).mpr ⟨?_, ?_⟩
  · exact g.stays_detached victims (g.attached.1 e he).1 (.inl ⟨e, he, .inl rfl⟩)
  · exact g.stays_detached victims (g.attached.1 e he).2 (.inl ⟨e, he, .inr rfl⟩)

theorem relations_removeDetached (g : Graph) (victims : List String) :
    (g.removeNodes (g.detached victims)).relations = g.relations := by
  refine List.filter_eq_self.mpr fun e he => (Bool.and_eq_true _ _).mpr ⟨?_, ?_⟩
  · exact g.stays_detached victims (g.attached.2.1 e he).1 (.inr (.inl ⟨e, he, .inl rfl⟩))
  · exact g.stays_detached victims (g.attached.2.1 e he).2 (.inr (.inl ⟨e, he, .inr rfl⟩))

theorem others_removeDetached (g : Graph) (victims : List String) :
    (g.removeNodes (g.detached victims)).others = g.others := by
  refine List.filter_eq_self.mpr fun e he => (Bool.and_eq_true _ _).mpr ⟨?_, ?_⟩
  · exact g.stays_detached victims (g.attached.2.2 e he).1 (.inr (.inr ⟨e, he, .inl rfl⟩))
  · exact g.stays_detached victims (g.attached.2.2 e he).2 (.inr (.inr ⟨e, he, .inr rfl⟩))

end Graph

end JanusGraph
