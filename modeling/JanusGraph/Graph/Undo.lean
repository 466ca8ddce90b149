import JanusGraph.Graph.CrashSafe

/-!
# Undo rows

`apply_episodic_plan` deletes a victim only after `EpisodeQueue.record_episodic_undo_sync`
of `pipeline/queue.py` has persisted the undo rows. What a row can restore is in its
`mentions`, and these are taken from the first rows of each pair of ends: a victim that
mentions one entity twice loses an edge for good.
-/

namespace JanusGraph

/-! ## What an undo row is for -/

/-- `EpisodeQueue.record_episodic_undo_sync`: the rows are committed together and counted,
or what SQLite raises passes through. -/
def recordEpisodicUndoSync (fails : List UndoRow → Option String) (rows : List UndoRow) :
    Except String ℤ :=
  if rows.isEmpty then .ok 0
  else
    match fails rows with
    | some error => .error error
    | none => .ok rows.length

/-- The arguments of a fold that applies, with the undo writer of the queue or with none. -/
def undoing (fails : Option (List UndoRow → Option String)) (batch : ℕ) (gid : String) :
    FoldArgs :=
  { apply := true, batch, undoWriter := fails.map recordEpisodicUndoSync, groupId := gid }

/-- The uuid of the node an edge leads to. -/
def Graph.targetUuid (g : Graph) (e : Mention) : Option String :=
  (g.nodes.get? e.dst).bind Node.uuid

/-- The `MENTIONS` of a node. -/
def Graph.mentionsOf (g : Graph) (i : ℕ) : List Mention := g.mentions.filter fun e => e.src = i

/-- The row restores the node with all its `MENTIONS`. -/
structure UndoRow.Restores (row : UndoRow) (g : Graph) (i : ℕ) : Prop where
  node : g.nodes.get? i = some row.nodeSnapshot
  victim : row.nodeSnapshot.uuid = some row.victimUuid
  mentions : (row.mentions.map fun m => (m.edgeUuid, some m.dstUuid)).Perm
    ((g.mentionsOf i).map fun e => (e.uuid, g.targetUuid e))

/-- The node mentions entities that have a uuid, and none of them twice. -/
structure Graph.MentionsApart (g : Graph) (i : ℕ) : Prop where
  named : ∀ e ∈ g.mentionsOf i, ∃ t w, g.labelled .entity e.dst = some t ∧ t.uuid = some w ∧ w ≠ ""
  apart : ((g.mentionsOf i).map g.targetUuid).Nodup

/-! ## The rows of one victim -/

section

variable {p : VictimEdge → Bool} {seen : List (String × String)} {es : List VictimEdge}

/-- Where no two of the rows in question have the same ends, all of them are first rows. -/
theorem filter_splitRows (h : ((es.filter p).map VictimEdge.ends).Nodup)
    (hseen : ∀ e ∈ es, p e → e.ends ∉ seen)
    (hends : ∀ e ∈ es, ∀ e' ∈ es, e.ends = e'.ends → p e = p e') :
    (splitRows seen es).1.filter p = es.filter p := by
  induction es generalizing seen with
  | nil => rfl
  | cons e es ih =>
    have hends' := fun e₁ h₁ e₂ h₂ =>
      hends e₁ (List.mem_cons_of_mem e h₁) e₂ (List.mem_cons_of_mem e h₂)
    have hcons : (e.src, e.dst) = e.ends := rfl
    rw [splitRows, hcons]
    by_cases hp : p e
    · rw [List.filter_cons_of_pos hp] at h ⊢
      obtain ⟨hnot, hrest⟩ := List.nodup_cons.mp h
      rw [if_neg (hseen e List.mem_cons_self hp), List.filter_cons_of_pos hp]
      refine congrArg (e :: ·) (ih hrest (fun e' he' hp' hin => ?_) hends')
      rcases List.mem_cons.mp hin with heq | hin
      · exact hnot (heq ▸ List.mem_map_of_mem (List.mem_filter.mpr ⟨he', hp'⟩))
      · exact hseen e' (List.mem_cons_of_mem e he') hp' hin
    · rw [List.filter_cons_of_neg hp] at h ⊢
      have hout : ∀ e' ∈ es, p e' → e'.ends ≠ e.ends := fun e' he' hp' heq =>
        hp (hends e' (List.mem_cons_of_mem e he') e List.mem_cons_self heq ▸ hp')
      split
      · exact ih h (fun e' he' => hseen e' (List.mem_cons_of_mem e he')) hends'
      · rw [List.filter_cons_of_neg hp]
        refine ih h (fun e' he' hp' hin => ?_) hends'
        rcases List.mem_cons.mp hin with heq | hin
        · exact hout e' he' hp' heq
        · exact hseen e' (List.mem_cons_of_mem e he') hp' hin

end

/-- The uuid of the entity an edge leads to, if it has one. -/
def Graph.entityUuid (g : Graph) (e : Mention) : Option String :=
  ((g.labelled .entity e.dst).bind Node.uuid).filter (· ≠ "")

/-- The resolved rows of a victim that alone has its uuid are its `MENTIONS`, but for those
that lead to no entity with a uuid. -/
theorem Graph.victimRows_perm {g : Graph} {rows : List MentionRow} {sources : List String}
    (hrows : rows.Perm (g.mentionRows fun row => row.srcUuid ∈ sources.map some)) {i : ℕ}
    {u : String} (hi : g.withUuid .episodic u = [i]) (hu : u ∈ sources) (hne : u ≠ "") :
    (((rows.filterMap MentionRow.resolve).filter fun e => e.src = u).map fun e =>
      (e.uuid, e.dst)).Perm
        ((g.mentionsOf i).filterMap fun e => (g.entityUuid e).map fun w => (e.uuid, w)) := by
  refine (((hrows.filterMap _).filter _).map _).trans (List.Perm.of_eq ?_)
  simp only [Graph.mentionRows, Graph.mentionsOf, List.filterMap_filter, List.filterMap_filterMap,
    List.filter_filterMap, List.map_filterMap]
  refine List.filterMap_congr fun e he => ?_
  have hsrc : e.src = i ↔ ∃ s, g.labelled .episodic e.src = some s ∧ s.uuid = some u := by
    rw [← Graph.mem_withUuid, hi, List.mem_singleton]
  rw [Graph.mentionRow, Graph.entityUuid]
  rcases hs : g.labelled .episodic e.src with _ | s
  · have hout : e.src ≠ i := by simpa [hs] using hsrc
    simp [hout]
  rcases ht : g.labelled .entity e.dst with _ | t
  · simp
  simp only [hs, Option.some.injEq, exists_eq_left'] at hsrc
  simp only [Option.filter_some, decide_eq_true_eq, Option.bind_some]
  rcases hsu : s.uuid with _ | v
  · simp [hsrc, hsu]
  by_cases hv : v = u
  · subst hv
    rcases htw : t.uuid with _ | w
    · simp [hsrc, hsu, hu, MentionRow.resolve]
    · by_cases hw : w = "" <;>
        simp [hsrc, hsu, hu, hne, hw, MentionRow.resolve, Option.filter_some]
  · have hout : e.src ≠ i := fun heq => hv (Option.some.inj (hsu.symm.trans (hsrc.mp heq)))
    rw [if_neg hout]
    split
    · rw [Option.bind_some, MentionRow.resolve]
      split <;> simp [hv]
    · rfl

theorem Graph.entityUuid_eq_some {g : Graph} {e : Mention} {w : String} :
    g.entityUuid e = some w ↔
      (∃ t, g.labelled .entity e.dst = some t ∧ t.uuid = some w) ∧ w ≠ "" := by
  rw [entityUuid, Option.filter_eq_some_iff, Option.bind_eq_some_iff, decide_eq_true_eq]

theorem Graph.targetUuid_of_entityUuid {g : Graph} {e : Mention} {w : String}
    (h : g.entityUuid e = some w) : g.targetUuid e = some w := by
  obtain ⟨⟨t, ht, hw⟩, -⟩ := entityUuid_eq_some.mp h
  rw [targetUuid, (labelled_eq_some.mp ht).1, Option.bind_some, hw]

/-- The first rows of a victim are all its `MENTIONS` exactly if they lead to entities with
uuids, and to none of them twice. -/
theorem Graph.firstRows_perm_iff {g : Graph} {rows : List MentionRow} {sources : List String}
    (hrows : rows.Perm (g.mentionRows fun row => row.srcUuid ∈ sources.map some)) {i : ℕ}
    {u : String} (hi : g.withUuid .episodic u = [i]) (hu : u ∈ sources) (hne : u ≠ "") :
    ((((splitRows [] (rows.filterMap MentionRow.resolve)).1.filter fun e => e.src = u).map
        fun e => (e.uuid, some e.dst)).Perm
      ((g.mentionsOf i).map fun e => (e.uuid, g.targetUuid e))) ↔ g.MentionsApart i := by
  have hperm := victimRows_perm hrows hi hu hne
  generalize rows.filterMap MentionRow.resolve = es at hperm ⊢
  have hsub := (splitRows_sublist [] es).filter fun e => e.src = u
  have hsrc : ∀ e ∈ es.filter (fun e => e.src = u), e.src = u := fun e he =>
    of_decide_eq_true (List.mem_filter.mp he).2
  constructor
  · intro hall
    -- no row is left out on the way
    have hlen := hall.length_eq
    have hlen' := hperm.length_eq
    have hle := hsub.length_le
    have hle' := List.length_filterMap_le
      (fun e => (g.entityUuid e).map fun w => (e.uuid, w)) (g.mentionsOf i)
    simp only [List.length_map] at hlen hlen'
    refine ⟨fun e he => ?_, ?_⟩
    · have hsome := List.filterMap_length_eq_length.mp (le_antisymm hle' (by omega)) e he
      rw [Option.isSome_map] at hsome
      obtain ⟨w, hw⟩ := Option.isSome_iff_exists.mp hsome
      obtain ⟨⟨t, ht, htw⟩, hwne⟩ := entityUuid_eq_some.mp hw
      exact ⟨t, w, ht, htw, hwne⟩
    · have htargets := hall.map Prod.snd
      rw [List.map_map, List.map_map] at htargets
      refine htargets.nodup_iff.mp ?_
      have hfirst : ((splitRows [] es).1.filter fun e => e.src = u).Sublist (splitRows [] es).1 :=
        List.filter_sublist
      have hends := (nodup_ends_splitRows [] es).sublist (hfirst.map _)
      refine List.Nodup.map_on (fun e he e' he' heq => ?_) hends.of_map
      refine List.inj_on_of_nodup_map hends he he' (Prod.ext ?_ (Option.some.inj heq))
      exact (hsrc e (hsub.subset he)).trans (hsrc e' (hsub.subset he')).symm
  · intro hapart
    have hall : ((es.filter fun e => e.src = u).map fun e => (e.uuid, some e.dst)).Perm
        ((g.mentionsOf i).map fun e => (e.uuid, g.targetUuid e)) := by
      have h := hperm.map fun r => (r.1, some r.2)
      rw [List.map_map, List.map_filterMap] at h
      refine h.trans (List.Perm.of_eq ?_)
      rw [← List.filterMap_eq_map']
      refine List.filterMap_congr fun e he => ?_
      obtain ⟨t, w, ht, htw, hwne⟩ := hapart.named e he
      have hw := entityUuid_eq_some.mpr ⟨⟨t, ht, htw⟩, hwne⟩
      rw [hw, targetUuid_of_entityUuid hw]
      rfl
    have htargets := hall.map Prod.snd
    rw [List.map_map, List.map_map] at htargets
    have hends : ((es.filter fun e => e.src = u).map VictimEdge.ends).Nodup := by
      have h := htargets.nodup_iff.mpr hapart.apart
      rw [show Prod.snd ∘ (fun e : VictimEdge => (e.uuid, some e.dst)) =
        (fun p : String × String => some p.2) ∘ VictimEdge.ends from rfl, ← List.map_map] at h
      exact h.of_map
    rwa [filter_splitRows hends (fun _ _ _ => List.not_mem_nil) fun e _ e' _ heq => by
      rw [show e.src = e'.src from congrArg Prod.fst heq]]

/-! ## The undo rows -/

/-- The undo row of a victim. -/
def undoRow (merges : List EpisodicMerge) (edges : List VictimEdge) (gid victim : String)
    (node : Node) : UndoRow where
  victimUuid := victim
  survivorUuid := ((redirectOf merges).get? victim).getD ""
  nodeSnapshot := node
  mentions := (edges.filter fun e => e.src = victim).map fun e =>
    { edgeUuid := e.uuid
      srcUuid := e.src
      dstUuid := e.dst
      createdAt := orNone e.createdAt
      groupId := orDefault e.groupId gid }

/-- The undo rows for what the query for the properties returns. -/
def undoRows (merges : List EpisodicMerge) (edges : List VictimEdge) (gid : String)
    (nodes : List Node) : List UndoRow :=
  (merges.map EpisodicMerge.victimUuid).filterMap fun victim =>
    ((undoProps nodes).get? victim).map (undoRow merges edges gid victim)

section

variable {server : Server} {g : Graph} {merges : List EpisodicMerge} {edges : List VictimEdge}
  {gid : String}

/-- The rows are built from the victims that are there, unless the query raises. -/
theorem run_buildEpisodicUndoRows_cases (hmerges : merges ≠ []) (db : FalkorDb) :
    (∃ error, (Prog.run server.handle (buildEpisodicUndoRows merges edges gid) db).1 =
        .error error) ∨
      ∃ nodes, nodes.Perm (db.graph.episodicNodes fun n =>
          n.uuid ∈ (merges.map EpisodicMerge.victimUuid).map some) ∧
        (Prog.run server.handle (buildEpisodicUndoRows merges edges gid) db).1 =
          .ok (undoRows merges edges gid nodes) := by
  rw [buildEpisodicUndoRows, if_neg (by simpa using hmerges), query, Prog.ask_bind, Prog.run_ask]
  rcases handle_cases server (.episodicProperties (merges.map EpisodicMerge.victimUuid)) db with
    ⟨error, h⟩ | h
  · rw [h]
    exact .inl ⟨error, rfl⟩
  · rw [h]
    exact .inr ⟨_, (server.scan db.tick).perm _, rfl⟩

theorem undoProps_empty (nodes : List Node) : (undoProps nodes).get? "" = none := by
  induction nodes using List.reverseRecOn with
  | nil => rfl
  | append_singleton nodes n ih =>
    rw [undoProps] at ih ⊢
    rw [List.foldl_append, List.foldl_cons, List.foldl_nil]
    split
    · exact ih
    · next hne => rw [Table.get?_upsert, if_neg (Ne.symm hne), ih]

/-- An episode that alone has its uuid has one row, if the uuid is a text at all. -/
theorem exists_restores_iff {nodes : List Node}
    (hnodes : nodes.Perm (g.episodicNodes fun n =>
      n.uuid ∈ (merges.map EpisodicMerge.victimUuid).map some)) {i : ℕ} {n : Node} {u : String}
    (hn : g.nodes.get? i = some n) (hu : n.uuid = some u) (hi : g.withUuid .episodic u = [i])
    (hv : u ∈ victimsOf merges) :
    (∃ row ∈ undoRows merges edges gid nodes, row.Restores g i) ↔
      u ≠ "" ∧ ((edges.filter fun e => e.src = u).map fun e => (e.uuid, some e.dst)).Perm
        ((g.mentionsOf i).map fun e => (e.uuid, g.targetUuid e)) := by
  constructor
  · rintro ⟨row, hrow, hrestores⟩
    obtain ⟨victim, -, hmade⟩ := List.mem_filterMap.mp hrow
    obtain ⟨node, hprops, rfl⟩ := Option.map_eq_some_iff.mp hmade
    obtain rfl := Option.some.inj (hn.symm.trans hrestores.node)
    obtain rfl := Option.some.inj (hu.symm.trans hrestores.victim)
    refine ⟨?_, by simpa [undoRow, Function.comp_def] using hrestores.mentions⟩
    rintro rfl
    rw [undoProps_empty] at hprops
    cases hprops
  · rintro ⟨hne, hperm⟩
    obtain ⟨m, hm, rfl⟩ := mem_victimsOf.mp hv
    -- the node itself is the only one the query returns for the uuid
    have hthere : n ∈ nodes := by
      have hlabel : n.label = .episodic := by
        obtain ⟨n', hn', -⟩ := Graph.mem_withUuid.mp (hi ▸ List.mem_singleton_self i)
        obtain ⟨hget, hlabel⟩ := Graph.labelled_eq_some.mp hn'
        obtain rfl := Option.some.inj (hn.symm.trans hget)
        exact hlabel
      refine hnodes.mem_iff.mpr (List.mem_filter.mpr ⟨?_, decide_eq_true ⟨hlabel, ?_⟩⟩)
      · exact List.mem_map.mpr ⟨(i, n), Table.mem_rows.mpr hn, rfl⟩
      · exact decide_eq_true (List.mem_map.mpr ⟨_, List.mem_map_of_mem hm, hu.symm⟩)
    have honly : ∀ n' ∈ nodes, n'.uuidText = m.victimUuid → n' = n := by
      intro n' hn' huuid
      obtain ⟨j, hj⟩ := Graph.labelled_of_mem_episodicNodes (hnodes.mem_iff.mp hn')
      have hu' : n'.uuid = some m.victimUuid := by
        rcases h : n'.uuid with _ | w
        · rw [Node.uuidText, h] at huuid
          exact absurd huuid.symm hne
        · rw [Node.uuidText, h] at huuid
          exact congrArg some huuid
      have hmem := Graph.mem_withUuid.mpr ⟨n', hj, hu'⟩
      rw [hi, List.mem_singleton] at hmem
      rw [hmem] at hj
      exact Option.some.inj ((Graph.labelled_eq_some.mp hj).1.symm.trans hn)
    obtain ⟨node, hnode⟩ := Option.isSome_iff_exists.mp
      (isSome_undoProps hne ⟨n, hthere, by rw [Node.uuidText, hu]; rfl⟩)
    have hsame : node = n := by
      rw [get?_undoProps nodes hne] at hnode
      obtain ⟨hmem, huuid⟩ := List.mem_filter.mp (List.mem_of_getLast? hnode)
      exact honly node hmem (of_decide_eq_true huuid)
    rw [hsame] at hnode
    refine ⟨undoRow merges edges gid m.victimUuid n, List.mem_filterMap.mpr
      ⟨m.victimUuid, List.mem_map_of_mem hm, ?_⟩, hn, hu, ?_⟩
    · rw [hnode, Option.map_some]
    · simpa [undoRow, Function.comp_def] using hperm

/-! ## Along the fold -/

/-- The query leaves the nodes alone. -/
def Query.KeepsNodes : Query → Prop
  | .deleteEmptied _ | .deleteDetached _ => False
  | _ => True

theorem Query.KeepsNodes.exec {q : Query} (h : q.KeepsNodes) (order : Scan) (g : Graph) :
    (q.exec order g).2.nodes = g.nodes := by
  cases q with
  | deleteEmptied victims => cases h
  | deleteDetached victims => cases h
  | _ => rfl

/-- A program that sends no other queries leaves the nodes alone. -/
theorem along_nodes {α : Type} {p : Cypher α} (hp : Prog.Only Query.KeepsNodes p) {db : FalkorDb}
    (hdb : db.graph.nodes = g.nodes) :
    Prog.Along server.handle (fun db => db.graph.nodes = g.nodes) p db := by
  refine hp.along (fun q db hq hdb => ?_) hdb
  rcases handle_cases server q db with ⟨error, h⟩ | h
  · rw [h]
    exact hdb
  · rw [h]
    exact (hq.exec _ _).trans hdb

theorem only_deleteMentionsByUuid (uuids : List String) :
    Prog.Only Query.KeepsNodes (deleteMentionsByUuid uuids) := by
  rw [deleteMentionsByUuid]
  split
  · exact Prog.only_ret _
  · exact (only_query trivial).bind fun before => (only_query trivial).bind fun _ =>
      (only_query trivial).bind fun after => Prog.only_ret _

theorem only_rewireRow (m : Rewiring) : Prog.Only Query.KeepsNodes (rewireRow m) := by
  refine (only_query (q := m.create) trivial).attempt.bind fun made => ?_
  cases made with
  | error error => exact Prog.only_ret _
  | ok made =>
    dsimp only
    split
    · exact Prog.only_ret _
    · refine (only_query (q := m.delete) trivial).attempt.bind fun done => ?_
      cases done <;> exact Prog.only_ret _

theorem only_buildEpisodicUndoRows :
    Prog.Only Query.KeepsNodes (buildEpisodicUndoRows merges edges gid) := by
  rw [buildEpisodicUndoRows]
  split
  · exact Prog.only_ret _
  · exact (only_query trivial).bind fun rows => Prog.only_ret _

/-- Whatever node is gone was an episode among the victims. -/
def Graph.LostVictims (g : Graph) (merges : List EpisodicMerge) (db : FalkorDb) : Prop :=
  ∀ i n, g.nodes.get? i = some n → db.graph.nodes.get? i = some n ∨
    n.label = .episodic ∧ ∃ u ∈ victimsOf merges, n.uuid = some u

theorem along_deleteChunk {chunk : List String} (hchunk : chunk ⊆ victimsOf merges)
    {db : FalkorDb} (hdb : g.LostVictims merges db) :
    Prog.Along server.handle (g.LostVictims merges) (deleteChunk chunk) db := by
  have honly : Prog.Only (fun q => q = .countEmptied chunk ∨ q = .deleteEmptied chunk)
      (deleteChunk chunk) := by
    refine Prog.Only.bind (Prog.Only.attempt ((only_query (.inl rfl)).bind fun before =>
      (only_query (.inr rfl)).bind fun _ => Prog.only_ret _)) fun answer => ?_
    cases answer <;> exact Prog.only_ret _
  refine honly.along (fun q db hq hdb => ?_) hdb
  rcases handle_cases server q db with ⟨error, h⟩ | h
  · rw [h]
    exact hdb
  · rw [h]
    rcases hq with rfl | rfl
    · exact hdb
    · intro i n hn
      rcases hdb i n hn with hthere | hvictim
      · by_cases hemptied : db.graph.emptied chunk i n = true
        · simp only [Graph.emptied, decide_eq_true_eq] at hemptied
          obtain ⟨u, hu, huuid⟩ := List.mem_map.mp hemptied.2.1
          exact .inr ⟨hemptied.1, u, hchunk hu, huuid.symm⟩
        · refine .inl ?_
          change (db.graph.nodes.filter fun i n => !db.graph.emptied chunk i n).get? i = some n
          rw [Table.get?_filter, hthere, Option.filter_some, if_pos (by simpa using hemptied)]
      · exact .inr hvictim

/-- Whatever node is gone was an episode among the victims, and the undo rows have been
persisted. -/
def Graph.Undoable (g : Graph) (merges : List EpisodicMerge)
    (fails : Option (List UndoRow → Option String)) (rows : List UndoRow) (db : FalkorDb) : Prop :=
  ∀ i n, g.nodes.get? i = some n → db.graph.nodes.get? i = none →
    (∃ u ∈ victimsOf merges, n.uuid = some u) ∧ rows ≠ [] ∧ ∃ f, fails = some f ∧ f rows = none

theorem undoable_of_nodes {fails : Option (List UndoRow → Option String)} {rows : List UndoRow}
    {db : FalkorDb} (h : db.graph.nodes = g.nodes) : g.Undoable merges fails rows db := by
  intro i n hn hgone
  rw [h, hn] at hgone
  cases hgone

/-- The victims are deleted once the rows that have been built are persisted. -/
theorem along_deleteVictims_undo {args : FoldArgs}
    {fails : Option (List UndoRow → Option String)}
    (hwriter : args.undoWriter = fails.map recordEpisodicUndoSync) {db : FalkorDb}
    (hdb : db.graph.nodes = g.nodes) (counters : Counters) :
    Prog.Along server.handle (g.Undoable merges fails ((Prog.run server.handle
        (buildEpisodicUndoRows merges edges args.groupId) db).1.toOption.getD []))
      (deleteVictims merges args edges counters) db := by
  have hbuild :=
    @along_nodes server g _ _ (@only_buildEpisodicUndoRows merges edges args.groupId) _ hdb
  rw [deleteVictims]
  refine (Prog.along_bind_ok (Prog.run_attempt _ db)).mpr
    ⟨Prog.along_attempt.mpr (hbuild.mono fun db h => undoable_of_nodes h), ?_⟩
  have hnodes := hbuild.run
  revert hnodes
  generalize Prog.run server.handle (buildEpisodicUndoRows merges edges args.groupId) db = out
  obtain ⟨built, db'⟩ := out
  intro hnodes
  have hret : g.Undoable merges fails (built.toOption.getD []) db' := undoable_of_nodes hnodes
  dsimp only at hret ⊢
  split
  · exact hret
  next hlen =>
  rw [hwriter]
  cases fails with
  | none => exact hret
  | some f =>
    dsimp only [Option.map_some]
    split
    · exact hret
    next hwritten =>
    split
    · exact hret
    · -- a victim that goes had its row persisted
      have hpersisted : ∀ u ∈ victimsOf merges, built.toOption.getD [] ≠ [] ∧
          f (built.toOption.getD []) = none := by
        intro u hu
        have hvictims := List.length_pos_of_mem hu
        have hne : built.toOption.getD [] ≠ [] := fun hnil => by
          rw [hnil, List.length_nil] at hlen
          omega
        refine ⟨hne, ?_⟩
        rw [recordEpisodicUndoSync, if_neg (by simpa using hne)] at hwritten
        rcases hf : f (built.toOption.getD []) with _ | error
        · rfl
        · rw [hf] at hwritten
          simp only [Except.toOption, Option.getD_none] at hwritten
          omega
      refine (Prog.along_bind_ret _).mpr (Prog.Along.forEach_rest
        (J := fun chunks db => (∀ chunk ∈ chunks, chunk ⊆ victimsOf merges) ∧
          g.LostVictims merges db) (fun chunk chunks db h => ?_) (fun _ db h i n hn hgone => ?_)
        ⟨fun chunk hchunk => ?_, fun i n hn => .inl (hnodes ▸ hn)⟩)
      · obtain ⟨hchunk, hrest⟩ := List.forall_mem_cons.mp h.1
        exact (along_deleteChunk hchunk h.2).mono fun db hdb => ⟨hrest, hdb⟩
      · rcases h.2 i n hn with hthere | ⟨-, u, hu, huuid⟩
        · rw [hthere] at hgone
          cases hgone
        · obtain ⟨hne, hf⟩ := hpersisted u hu
          exact ⟨⟨u, hu, huuid⟩, hne, f, rfl, hf⟩
      · obtain ⟨k, -, rfl⟩ := List.mem_map.mp hchunk
        exact fun u hu => List.mem_of_mem_drop (List.mem_of_mem_take hu)

/-- The rows of a fold that comes to its undo rows, for what the reads have returned. -/
def Graph.UndoneBy (g : Graph) (merges : List EpisodicMerge) (gid : String)
    (rows : List UndoRow) : Prop :=
  ∃ (mentRows : List MentionRow) (nodes : List Node),
    mentRows.Perm (g.mentionRows fun row => row.srcUuid ∈ (victimsOf merges).map some) ∧
    nodes.Perm (g.episodicNodes fun n =>
      n.uuid ∈ (merges.map EpisodicMerge.victimUuid).map some) ∧
    rows = undoRows merges (splitRows [] (mentRows.filterMap MentionRow.resolve)).1 gid nodes

/-- The writing half: which undo rows it builds has nothing to do with the writer. -/
theorem along_writeRewire_undo (hmerges : merges ≠ []) {mentRows : List MentionRow}
    (hment : mentRows.Perm
      (g.mentionRows fun row => row.srcUuid ∈ (victimsOf merges).map some))
    (survRows : List MentionRow) {db : FalkorDb} (hdb : db.graph.nodes = g.nodes) (gid : String) :
    ∃ rows, (rows ≠ [] → g.UndoneBy merges gid rows) ∧ ∀ (fails) (args : FoldArgs) (counters),
      args.undoWriter = fails.map recordEpisodicUndoSync → args.groupId = gid →
        Prog.Along server.handle (g.Undoable merges fails rows)
          (writeRewire merges args (planRewire merges mentRows survRows) counters) db := by
  have hdrop := @along_nodes server g _ _ (only_deleteMentionsByUuid
    ((planRewire merges mentRows survRows).rewire.toDrop ++
      (planRewire merges mentRows survRows).rewire.survivorDedupe ++
      (planRewire merges mentRows survRows).dups)) _ hdb
  have hmove := @along_nodes server g _ _ (Prog.Only.forEach only_rewireRow
    (planRewire merges mentRows survRows).rewire.toCreate) _ hdrop.run
  -- where the undo rows are built
  obtain ⟨db', hdb'⟩ : ∃ db', (Prog.run server.handle (Prog.forEach rewireRow
      (planRewire merges mentRows survRows).rewire.toCreate) (Prog.run server.handle
        (deleteMentionsByUuid ((planRewire merges mentRows survRows).rewire.toDrop ++
          (planRewire merges mentRows survRows).rewire.survivorDedupe ++
          (planRewire merges mentRows survRows).dups)) db).2).2 = db' := ⟨_, rfl⟩
  have hnodes := hmove.run
  rw [hdb'] at hnodes
  refine ⟨(Prog.run server.handle (buildEpisodicUndoRows merges
    (planRewire merges mentRows survRows).unique gid) db').1.toOption.getD [], fun hrows => ?_, ?_⟩
  · rcases @run_buildEpisodicUndoRows_cases server merges
      (planRewire merges mentRows survRows).unique gid hmerges db' with
      ⟨error, h⟩ | ⟨nodes, hperm, h⟩
    · rw [h] at hrows
      exact absurd rfl hrows
    · refine ⟨mentRows, nodes, hment, ?_, by rw [h]; rfl⟩
      rwa [Graph.episodicNodes, hnodes] at hperm
  · rintro fails args counters hwriter rfl
    refine (Prog.along_bind_ok (Prog.run_attempt _ db)).mpr
      ⟨Prog.along_attempt.mpr (hdrop.mono fun db h => undoable_of_nodes h),
        Prog.along_bind.mpr ⟨hmove.mono fun db h => undoable_of_nodes h, fun turns db'' hrun => ?_⟩⟩
    rw [hrun] at hdb'
    subst hdb'
    exact along_deleteVictims_undo hwriter hnodes _

/-- A query under `try` whose answer is known. -/
theorem along_query_of_handle {α : Type} {I : FalkorDb → Prop} {q : Query}
    {f : Except String q.Result → Cypher α} {db db' : FalkorDb} {answer : Except String q.Result}
    (h : server.handle q db = (answer, db')) (hI : I db)
    (hrest : Prog.Along server.handle I (f answer) db') :
    Prog.Along server.handle I ((query q).attempt >>= f) db := by
  rw [query_attempt_bind, Prog.along_ask, h]
  exact ⟨hI, hrest⟩

/-- The fold, wherever it stops. -/
theorem along_applyEpisodicPlan_undo (server : Server) (g : Graph) (merges : List EpisodicMerge)
    (gid : String) :
    ∃ rows, (rows ≠ [] → g.UndoneBy merges gid rows) ∧ ∀ fails batch,
      Prog.Along server.handle (g.Undoable merges fails rows)
        (applyEpisodicPlan merges (undoing fails batch gid)) ⟨g, 0, []⟩ := by
  by_cases hmerges : merges = []
  · refine ⟨[], fun h => absurd rfl h, fun fails batch => ?_⟩
    rw [applyEpisodicPlan, hmerges]
    exact undoable_of_nodes rfl
  have hempty : ¬merges.isEmpty = true := by simpa using hmerges
  rcases handle_cases server (.mentionsFrom (victimsOf merges)) ⟨g, 0, []⟩ with ⟨error, h⟩ | h
  · refine ⟨[], fun h => absurd rfl h, fun fails batch => ?_⟩
    rw [applyEpisodicPlan, if_neg hempty]
    exact along_query_of_handle h (undoable_of_nodes rfl) (undoable_of_nodes rfl)
  have hment : (((Query.mentionsFrom (victimsOf merges)).exec (server.scan 0) g).1 :
      List MentionRow).Perm (g.mentionRows fun row => row.srcUuid ∈ (victimsOf merges).map some) :=
    (server.scan 0).perm _
  generalize ((Query.mentionsFrom (victimsOf merges)).exec (server.scan 0) g).1 = mentRows at hment h
  by_cases hrows : mentRows = []
  · refine ⟨[], fun h => absurd rfl h, fun fails batch => ?_⟩
    rw [applyEpisodicPlan, if_neg hempty]
    refine along_query_of_handle h (undoable_of_nodes rfl) ?_
    dsimp only
    rw [if_pos (by simpa using hrows)]
    exact undoable_of_nodes rfl
  obtain ⟨survRead, db, hsurv, hdb⟩ : ∃ survRead db, server.handle
      (.mentionsFrom (survivorsOf merges)) (FalkorDb.after server
        (.mentionsFrom (victimsOf merges)) ⟨g, 0, []⟩) = (survRead, db) ∧ db.graph = g := by
    rcases handle_cases server (.mentionsFrom (survivorsOf merges)) (FalkorDb.after server
      (.mentionsFrom (victimsOf merges)) ⟨g, 0, []⟩) with ⟨error, h⟩ | h <;> exact ⟨_, _, h, rfl⟩
  obtain ⟨rows, hspec, halong⟩ := @along_writeRewire_undo server g merges hmerges _ hment
    (survRead.toOption.getD []) _ (congrArg Graph.nodes hdb) gid
  refine ⟨rows, hspec, fun fails batch => ?_⟩
  rw [applyEpisodicPlan, if_neg hempty]
  refine along_query_of_handle h (undoable_of_nodes rfl) ?_
  dsimp only
  rw [if_neg (by simpa using hrows)]
  refine along_query_of_handle hsurv (undoable_of_nodes rfl) ?_
  exact halong fails (undoing fails batch gid) _ rfl rfl

end

/-! ## Undo completeness -/

/-- Whenever a fold has deleted a victim, its undo rows have been persisted. If the victim
alone has its uuid, one of them restores it exactly if that uuid is not empty, and the victim
has mentioned entities with uuids only, and none of them twice. -/
theorem undo_complete (server : Server) (g : Graph) (merges : List EpisodicMerge) (gid : String) :
    ∃ rows, ∀ (fails : Option (List UndoRow → Option String)) (batch k i : ℕ) (n : Node),
      g.nodes.get? i = some n →
      (Prog.crash server.handle k (applyEpisodicPlan merges (undoing fails batch gid))
        ⟨g, 0, []⟩).graph.nodes.get? i = none →
      (∃ f, fails = some f ∧ f rows = none) ∧
        ∀ u, n.uuid = some u → g.withUuid .episodic u = [i] →
          ((∃ row ∈ rows, row.Restores g i) ↔ u ≠ "" ∧ g.MentionsApart i) := by
  obtain ⟨rows, hspec, halong⟩ := along_applyEpisodicPlan_undo server g merges gid
  refine ⟨rows, fun fails batch k i n hn hgone => ?_⟩
  obtain ⟨⟨v, hv, hvu⟩, hrows, f, hfails, hf⟩ :=
    Prog.along_iff.mp (halong fails batch) k i n hn hgone
  refine ⟨⟨f, hfails, hf⟩, fun u hu hi => ?_⟩
  obtain rfl := Option.some.inj (hvu.symm.trans hu)
  obtain ⟨mentRows, nodes, hment, hnodes, rfl⟩ := hspec hrows
  rw [exists_restores_iff hnodes hn hu hi hv]
  exact and_congr_right fun hne => Graph.firstRows_perm_iff hment hi hv hne

/-- The fold of the twins deletes the second, whose undo row restores it; with a writer that
refuses the rows the second stays. -/
theorem undo_complete_twins : ∃ rows : List UndoRow,
    (Prog.crash inOrder.handle 20
      (applyEpisodicPlan (twinMerges "t") (undoing (some fun _ => none) 200 "graphiti_memory"))
      ⟨twins "t", 0, []⟩).graph.nodes.get? 1 = none ∧
    (∃ row ∈ rows, row.Restores (twins "t") 1) ∧
    ∀ f : List UndoRow → Option String, f rows ≠ none → ∀ k,
      (Prog.crash inOrder.handle k
        (applyEpisodicPlan (twinMerges "t") (undoing (some f) 200 "graphiti_memory"))
        ⟨twins "t", 0, []⟩).graph.nodes.get? 1 ≠ none := by
  obtain ⟨rows, hrows⟩ := undo_complete inOrder (twins "t") (twinMerges "t") "graphiti_memory"
  have hgone : (Prog.crash inOrder.handle 20
      (applyEpisodicPlan (twinMerges "t") (undoing (some fun _ => none) 200 "graphiti_memory"))
      ⟨twins "t", 0, []⟩).graph.nodes.get? 1 = none := by
    decide +kernel
  refine ⟨rows, hgone, ?_, fun f hf k hk => ?_⟩
  · refine ((hrows _ 200 20 1 _ rfl hgone).2 "v" rfl (by decide +kernel)).mpr
      ⟨by decide, fun e he => ?_, by decide +kernel⟩
    obtain rfl := List.mem_singleton.mp he
    exact ⟨_, "t", rfl, rfl, by decide⟩
  · obtain ⟨⟨f', hf', htaken⟩, -⟩ := hrows (some f) 200 k 1 _ rfl hk
    obtain rfl := Option.some.inj hf'
    exact hf htaken

/-- The twins, where the second mentions the entity twice. -/
def twiceMentioned : Graph :=
  { twins "t" with
    mentions := [⟨1, 2, "e", none, none⟩, ⟨1, 2, "f", none, none⟩]
    attached := by
      refine ⟨fun e he => ?_, by simp [twins], by simp [twins]⟩
      rcases List.mem_pair.mp he with rfl | rfl <;> exact ⟨rfl, rfl⟩ }

/-- The second episode goes, and its undo row has one of its two edges. -/
theorem not_undo_complete : ¬ ∀ (server : Server) (g : Graph) (merges : List EpisodicMerge)
    (gid : String), ∃ rows, ∀ (fails : Option (List UndoRow → Option String)) (batch k i : ℕ)
      (n : Node), g.nodes.get? i = some n →
      (Prog.crash server.handle k (applyEpisodicPlan merges (undoing fails batch gid))
        ⟨g, 0, []⟩).graph.nodes.get? i = none →
      (∃ f, fails = some f ∧ f rows = none) ∧ ∃ row ∈ rows, row.Restores g i := by
  intro hclaim
  obtain ⟨rows, hrows⟩ := hclaim inOrder twiceMentioned (twinMerges "t") "graphiti_memory"
  -- a disk that takes one edge and no more
  let f : List UndoRow → Option String := fun rows =>
    if (rows.flatMap UndoRow.mentions).length ≤ 1 then none else some "disk I/O error"
  obtain ⟨⟨f', hf', hone⟩, row, hrow, hrestores⟩ := hrows (some f) 200 20 1
    ⟨.episodic, some "v", some "n", some "c", none, some "2", some "g"⟩ rfl (by decide +kernel)
  obtain rfl := Option.some.inj hf'
  have htwo : row.mentions.length = 2 := by
    have hlen := hrestores.mentions.length_eq
    rw [List.length_map, List.length_map] at hlen
    exact hlen.trans (by decide +kernel)
  have hle : row.mentions.length ≤ (rows.flatMap UndoRow.mentions).length := by
    rw [List.flatMap_def]
    exact (List.sublist_flatten_of_mem (List.mem_map_of_mem hrow)).length_le
  simp only [f, ite_eq_left_iff, reduceCtorEq, imp_false, not_not] at hone
  omega

end JanusGraph
