import JanusGraph.Dream.Prune
import JanusGraph.Graph.Serve

/-!
# Pruning among other clients

Phase 3 decides on a snapshot and deletes later, one node after another, and other
clients change the graph between any two of its queries. A delete query carries the gate
on edges, so that no node with an edge goes. It carries no gate on the summary, and what
it has deleted is not asked: that a deleted node is blank, and that the report counts
what is gone, depends on what the other clients leave alone (`LeftAlone`).
-/

namespace JanusGraph

/-! ## The other clients -/

/-- A server, and what other clients do to the graph before each query. -/
structure Clients : Type 1 where
  server : Server
  between : ℕ → Graph → Graph

/-- A query that has been sent. -/
structure Sent : Type where
  query : PruneQuery
  /-- the graph that the query before has left -/
  left : Graph
  /-- the graph that this query finds -/
  found : Graph
  /-- the graph after it -/
  after : Graph
  /-- a query that raises has not been executed -/
  raised : Bool

/-- The graph, and the queries that Phase 3 has sent, oldest first. -/
structure Shared : Type where
  graph : Graph
  log : List Sent

/-- The next query has been sent. -/
def Shared.push (s : Shared) (t : Sent) : Shared := ⟨t.after, s.log ++ [t]⟩

/-- Other clients come first; then the query raises, and has not been executed, or is executed. -/
def Clients.handle (c : Clients) :
    Handler PruneQuery (fun q => Except String q.Result) Shared :=
  fun q s =>
    let found := c.between s.log.length s.graph
    match c.server.raises s.log.length with
    | some error => (.error error, s.push ⟨q, s.graph, found, found, true⟩)
    | none =>
      let r := q.exec (c.server.scan s.log.length) found
      (.ok r.1, s.push ⟨q, s.graph, found, r.2, false⟩)

/-! ## What is deleted -/

/-- The nodes a query has removed. -/
def Sent.removed (t : Sent) : List (ℕ × Node) :=
  t.found.nodes.rows.filter fun r => (t.after.nodes.get? r.1).isNone

/-- The uuid an executed delete query is about. -/
def Sent.deletes (t : Sent) : Option String :=
  match t.query with
  | .deleteOrphans uuid => if t.raised then none else some uuid
  | _ => none

/-- No edge touches the node. -/
def Graph.Edgeless (g : Graph) (i : ℕ) : Prop :=
  (∀ e ∈ g.mentions, e.src ≠ i ∧ e.dst ≠ i) ∧ (∀ e ∈ g.relations, e.src ≠ i ∧ e.dst ≠ i) ∧
    ∀ e ∈ g.others, e.src ≠ i ∧ e.dst ≠ i

/-- `not (summary or "").strip()` -/
def Node.Blank (n : Node) : Prop := strip (n.summary.getD "") = ""

instance : DecidablePred Node.Blank := fun _ => inferInstanceAs (Decidable (_ = _))

/-! ## What other clients leave alone -/

/-- The entities that have the uuid. -/
def Graph.entitiesOf (g : Graph) (uuid : String) : List (ℕ × Node) :=
  g.nodes.rows.filter fun r => Graph.listed [uuid] r.2

/-- Those of them that no edge touches. -/
def Graph.orphansOf (g : Graph) (uuid : String) : List (ℕ × Node) :=
  g.nodes.rows.filter fun r => g.detached [uuid] r.1 r.2

/-- Every entity that has the uuid is blank. -/
def Graph.BlankAt (g : Graph) (uuid : String) : Prop := ∀ r ∈ g.entitiesOf uuid, r.2.Blank

instance (g : Graph) (uuid : String) : Decidable (g.BlankAt uuid) :=
  inferInstanceAs (Decidable (∀ r ∈ g.entitiesOf uuid, r.2.Blank))

/-- No other client has written a summary on the uuid before this query. -/
def Sent.Unwritten (uuid : String) (t : Sent) : Prop :=
  t.left.BlankAt uuid → t.found.BlankAt uuid

instance (uuid : String) : DecidablePred (Sent.Unwritten uuid) :=
  fun _ => inferInstanceAs (Decidable (_ → _))

/-- The uuid belongs to one entity when the entities are read, and no other client writes a
summary on it after that. -/
structure Untouched (uuid : String) (log : List Sent) : Prop where
  single : ∀ first ∈ log.head?, (first.found.entitiesOf uuid).length ≤ 1
  unwritten : ∀ t ∈ log.tail, t.Unwritten uuid

/-- What other clients leave alone when the uuid is deleted. -/
structure LeftAlone (uuid : String) (before : List Sent) (t : Sent) : Prop where
  untouched : Untouched uuid (before ++ [t])
  /-- one entity has the uuid at the end -/
  single : (t.found.entitiesOf uuid).length ≤ 1
  /-- nobody takes the entity away, or attaches an edge to it, after it has been counted -/
  attended : t.left.orphansOf uuid ≠ [] → t.found.orphansOf uuid ≠ []

/-- `P` holds of each entry with those before it. -/
def EachWith {α : Type} (P : List α → α → Prop) (l : List α) : Prop :=
  ∀ before x after, l = before ++ x :: after → P before x

/-- Other clients leave alone what is being deleted. -/
def Calm (log : List Sent) : Prop :=
  EachWith (fun before t => ∀ uuid, t.deletes = some uuid → LeftAlone uuid before t) log

/-! ## Small facts -/

theorem eachWith_nil {α : Type} {P : List α → α → Prop} : EachWith P [] := by
  intro before x after h
  simp at h

theorem EachWith.concat {α : Type} {P : List α → α → Prop} {l : List α} {x : α}
    (hl : EachWith P l) (hx : P l x) : EachWith P (l ++ [x]) := by
  intro before y after h
  rcases List.eq_nil_or_concat after with rfl | ⟨rest, z, rfl⟩
  · obtain ⟨rfl, hxy⟩ := List.append_inj' h rfl
    obtain rfl := List.singleton_inj.mp hxy
    exact hx
  · rw [List.concat_eq_append, ← List.cons_append, ← List.append_assoc] at h
    exact hl before y rest (List.append_inj' h rfl).1

theorem eq_of_length_le_one {α : Type} {l : List α} {x y : α} (h : l.length ≤ 1) (hx : x ∈ l)
    (hy : y ∈ l) : x = y := by
  match l, h with
  | [z], _ => exact (List.mem_singleton.mp hx).trans (List.mem_singleton.mp hy).symm

theorem Graph.edgeless_of_detached {g : Graph} {uuids : List String} {i : ℕ} {n : Node}
    (h : g.detached uuids i n = true) : g.Edgeless i := by
  simp only [Graph.detached, decide_eq_true_eq] at h
  obtain ⟨-, -, hm, hr, ho⟩ := h
  exact ⟨by simpa using hm, by simpa using hr, by simpa using ho⟩

theorem Graph.orphansOf_sublist (g : Graph) (uuid : String) :
    (g.orphansOf uuid).Sublist (g.entitiesOf uuid) := by
  refine List.monotone_filter_right g.nodes.rows fun r hr => ?_
  simp only [Graph.detached, decide_eq_true_eq] at hr
  exact decide_eq_true ⟨hr.1, hr.2.1⟩

/-- A delete query removes the orphans it finds. -/
theorem removed_removeNodes {t : Sent} {p : ℕ → Node → Bool} (h : t.after = t.found.removeNodes p) :
    t.removed = t.found.nodes.rows.filter fun r => p r.1 r.2 := by
  refine List.filter_congr fun r hr => ?_
  rw [h]
  change ((t.found.nodes.filter fun i n => !p i n).get? r.1).isNone = p r.1 r.2
  rw [Table.get?_filter, Table.mem_rows.mp hr]
  cases hp : p r.1 r.2 <;> simp [hp]

theorem removed_eq_nil {t : Sent} (h : t.after = t.found) : t.removed = [] := by
  refine List.filter_eq_nil_iff.mpr fun r hr => ?_
  rw [h, Table.mem_rows.mp hr]
  simp

theorem Graph.BlankAt.removeNodes {g : Graph} {uuid : String} (h : g.BlankAt uuid)
    (p : ℕ → Node → Bool) : (g.removeNodes p).BlankAt uuid := by
  intro r hr
  obtain ⟨hmem, hlisted⟩ := List.mem_filter.mp hr
  exact h r (List.mem_filter.mpr ⟨List.mem_of_mem_filter hmem, hlisted⟩)

/-! ## Single queries -/

/-- A query that takes nothing, or a delete query that has been executed. -/
structure Sent.Recorded (t : Sent) : Prop where
  after : t.after = t.found ∨
    ∃ uuid, t.query = .deleteOrphans uuid ∧ t.raised = false ∧
      t.after = t.found.removeNodes (t.found.detached [uuid])

section

variable (c : Clients)

theorem handle_push (q : PruneQuery) (s : Shared) :
    ∃ t, (c.handle q s).2 = s.push t ∧ t.query = q ∧ t.left = s.graph ∧ t.Recorded ∧
      (t.raised = true ∧ (∃ error, (c.handle q s).1 = .error error) ∨
        t.raised = false ∧ ∃ order, t.after = (q.exec order t.found).2 ∧
          (c.handle q s).1 = .ok (q.exec order t.found).1) := by
  rw [Clients.handle]
  split
  · next error _ =>
    exact ⟨_, rfl, rfl, rfl, ⟨.inl rfl⟩, .inl ⟨rfl, error, rfl⟩⟩
  · refine ⟨_, rfl, rfl, rfl, ⟨?_⟩, .inr ⟨rfl, _, rfl, rfl⟩⟩
    cases q with
    | deleteOrphans uuid => exact .inr ⟨uuid, rfl, rfl, rfl⟩
    | _ => exact .inl rfl

theorem run_pruneQuery_bind {α : Type} (q : PruneQuery) (f : q.Result → Pruner α) (s : Shared) :
    Prog.run c.handle (pruneQuery q >>= f) s =
      match (c.handle q s).1 with
      | .ok a => Prog.run c.handle (f a) (c.handle q s).2
      | .error e => (.error e, (c.handle q s).2) := by
  rw [pruneQuery, Prog.ask_bind, Prog.run_ask]
  cases (c.handle q s).1 <;> rfl

end

/-- Whatever other clients do, no query removes a node that an edge touches. -/
theorem Sent.Recorded.removed_edgeless {t : Sent} (h : t.Recorded) {r : ℕ × Node}
    (hr : r ∈ t.removed) : t.found.Edgeless r.1 := by
  rcases h.after with hafter | ⟨uuid, -, -, hafter⟩
  · rw [removed_eq_nil hafter] at hr
    cases hr
  · rw [removed_removeNodes hafter] at hr
    exact Graph.edgeless_of_detached (List.mem_filter.mp hr).2

theorem Sent.Recorded.removed_eq_nil {t : Sent} (h : t.Recorded) (hdeletes : t.deletes = none) :
    t.removed = [] := by
  rcases h.after with hafter | ⟨uuid, hquery, hraised, -⟩
  · exact JanusGraph.removed_eq_nil hafter
  · rw [Sent.deletes, hquery] at hdeletes
    simp [hraised] at hdeletes

/-! ## The invariant of the phase -/

/-- Of a list of uuids, those that other clients leave alone stay blank. -/
structure Watching (uuids : List String) (s : Shared) : Prop where
  started : s.log ≠ []
  blank : ∀ uuid ∈ uuids, Untouched uuid s.log → s.graph.BlankAt uuid

/-- What an executed delete query removes is one blank node. -/
def RemovesOne (t : Sent) : Prop := (∀ r ∈ t.removed, r.2.Blank) ∧ t.removed.length = 1

/-- Every executed delete query removes one blank node, if others leave its uuid alone. -/
def Careful (log : List Sent) : Prop :=
  EachWith (fun before t => ∀ uuid, t.deletes = some uuid →
    LeftAlone uuid before t → RemovesOne t) log

/-- How many delete queries have been executed. -/
def Shared.deletions (s : Shared) : ℕ := s.log.countP fun t => t.deletes.isSome

theorem Untouched.of_concat {uuid : String} {log : List Sent} {t : Sent} (hlog : log ≠ [])
    (h : Untouched uuid (log ++ [t])) : Untouched uuid log ∧ t.Unwritten uuid := by
  obtain ⟨first, rest, rfl⟩ := List.exists_cons_of_ne_nil hlog
  refine ⟨⟨h.single, fun t' ht' => h.unwritten t' ?_⟩, h.unwritten t ?_⟩
  · exact List.mem_append_left _ ht'
  · exact List.mem_append_right _ (List.mem_singleton_self t)

section

variable {uuids : List String} {s : Shared} {t : Sent}

/-- What other clients leave alone is blank when the next query finds it. -/
theorem Watching.found (h : Watching uuids s) (hleft : t.left = s.graph) {uuid : String}
    (hmem : uuid ∈ uuids) (huntouched : Untouched uuid (s.log ++ [t])) :
    t.found.BlankAt uuid := by
  obtain ⟨hlog, hunwritten⟩ := huntouched.of_concat h.started
  exact hunwritten (hleft ▸ h.blank uuid hmem hlog)

theorem Watching.push (h : Watching uuids s) (hleft : t.left = s.graph) (ht : t.Recorded) :
    Watching uuids (s.push t) where
  started := by simp [Shared.push]
  blank uuid hmem huntouched := by
    have hfound := h.found hleft hmem huntouched
    change t.after.BlankAt uuid
    rcases ht.after with hafter | ⟨_, _, _, hafter⟩ <;> rw [hafter]
    · exact hfound
    · exact hfound.removeNodes _

/-- A delete query for an orphan that has just been counted. -/
theorem Watching.removesOne (h : Watching uuids s) (hleft : t.left = s.graph) {uuid : String}
    (hmem : uuid ∈ uuids) (hcounted : s.graph.orphansOf uuid ≠ [])
    (hafter : t.after = t.found.removeNodes (t.found.detached [uuid]))
    (halone : LeftAlone uuid s.log t) : RemovesOne t := by
  have hremoved : t.removed = t.found.orphansOf uuid := removed_removeNodes hafter
  have hblank := h.found hleft hmem halone.untouched
  have hsome := List.length_pos_of_ne_nil (halone.attended (hleft ▸ hcounted))
  have hsub := t.found.orphansOf_sublist uuid
  have hle := hsub.length_le
  have hsingle := halone.single
  refine ⟨fun r hr => hblank r (hsub.subset (hremoved ▸ hr)), ?_⟩
  rw [hremoved]
  omega

end

/-- What holds of the phase between two of its nodes. -/
structure Pruning (uuids : List String) (s : Shared) : Prop where
  watching : Watching uuids s
  careful : Careful s.log

theorem Pruning.push_read {uuids : List String} {s : Shared} {t : Sent} (h : Pruning uuids s)
    (hleft : t.left = s.graph) (ht : t.Recorded) (hdeletes : t.deletes = none) :
    Pruning uuids (s.push t) where
  watching := h.watching.push hleft ht
  careful := h.careful.concat fun uuid huuid => by rw [hdeletes] at huuid; cases huuid

theorem deletions_push (s : Shared) (t : Sent) :
    (s.push t).deletions = s.deletions + if t.deletes.isSome then 1 else 0 := by
  rw [Shared.deletions, Shared.push, List.countP_append, List.countP_singleton]
  rfl

/-! ## One node -/

section

variable {c : Clients} {uuids : List String} {s : Shared}

/-- A query that takes nothing. -/
theorem pruning_read {q : PruneQuery} (hq : ∀ uuid, q ≠ .deleteOrphans uuid) {n : ℕ}
    (h : Pruning uuids s ∧ s.deletions = n) :
    Pruning uuids (c.handle q s).2 ∧ (c.handle q s).2.deletions = n := by
  obtain ⟨t, hpush, hquery, hleft, hrecorded, -⟩ := handle_push c q s
  have hdeletes : t.deletes = none := by
    rw [Sent.deletes, hquery]
    split
    · next uuid => exact absurd rfl (hq uuid)
    · rfl
  rw [hpush, deletions_push, hdeletes]
  exact ⟨h.1.push_read hleft hrecorded hdeletes, h.2⟩

/-- The count of the orphans is about the graph it leaves. -/
theorem orphansOf_of_counted {uuid : String} {n : ℕ}
    (h : (c.handle (.stillOrphanCount uuid) s).1 = .ok n) :
    n = ((c.handle (.stillOrphanCount uuid) s).2.graph.orphansOf uuid).length := by
  obtain ⟨t, hpush, -, -, -, ⟨-, error, herror⟩ | ⟨-, order, hafter, hok⟩⟩ :=
    handle_push c (.stillOrphanCount uuid) s
  · rw [herror] at h
    cases h
  · rw [hok] at h
    rw [hpush, ← Except.ok.inj h]
    change t.found.nodes.rows.countP _ = (t.after.orphansOf uuid).length
    rw [hafter]
    exact List.countP_eq_length_filter

/-- The delete query, after the count has found an orphan. -/
theorem Pruning.delete {uuid : String} (h : Pruning uuids s) (hmem : uuid ∈ uuids)
    (hcounted : s.graph.orphansOf uuid ≠ []) :
    Pruning uuids (c.handle (.deleteOrphans uuid) s).2 ∧
      (c.handle (.deleteOrphans uuid) s).2.deletions =
        s.deletions + if (c.handle (.deleteOrphans uuid) s).1.isOk then 1 else 0 := by
  obtain ⟨t, hpush, hquery, hleft, hrecorded, ⟨hraised, error, herror⟩ | ⟨hraised, order, hafter,
    hok⟩⟩ := handle_push c (.deleteOrphans uuid) s
  · have hdeletes : t.deletes = none := by rw [Sent.deletes, hquery]; simp [hraised]
    rw [hpush, deletions_push, hdeletes, herror]
    exact ⟨h.push_read hleft hrecorded hdeletes, rfl⟩
  · have hdeletes : t.deletes = some uuid := by rw [Sent.deletes, hquery]; simp [hraised]
    rw [hpush, deletions_push, hdeletes, hok]
    refine ⟨⟨h.watching.push hleft hrecorded, h.careful.concat fun uuid' huuid halone => ?_⟩, rfl⟩
    obtain rfl := Option.some.inj (hdeletes.symm.trans huuid)
    exact h.watching.removesOne hleft hmem hcounted hafter halone

theorem run_tryDelete {uuid : String} (h : Pruning uuids s) (hmem : uuid ∈ uuids) :
    Pruning uuids (Prog.run c.handle (tryDelete uuid) s).2 ∧
      (Prog.run c.handle (tryDelete uuid) s).2.deletions = s.deletions +
        if (Prog.run c.handle (tryDelete uuid) s).1.toOption = some .deleted then 1 else 0 := by
  have h₁ := pruning_read (c := c) (q := .existsCount uuid) (fun _ => nofun) ⟨h, rfl⟩
  rw [tryDelete, run_pruneQuery_bind]
  cases (c.handle (.existsCount uuid) s).1 with
  | error e => exact h₁
  | ok found =>
    dsimp only
    split
    · exact h₁
    have h₂ := pruning_read (c := c) (q := .stillOrphanCount uuid) (fun _ => nofun) h₁
    rw [run_pruneQuery_bind]
    cases hcount : (c.handle (.stillOrphanCount uuid) (c.handle (.existsCount uuid) s).2).1 with
    | error e => exact h₂
    | ok orphans =>
      dsimp only
      split
      · exact h₂
      next hsome =>
      have hcounted := orphansOf_of_counted hcount
      have h₃ := h₂.1.delete (c := c) hmem fun hnil => hsome (by rw [hcounted, hnil]; rfl)
      rw [h₂.2] at h₃
      rw [run_pruneQuery_bind]
      revert h₃
      cases (c.handle (.deleteOrphans uuid) _).1 <;> exact id

/-- One turn of the loop counts a deletion exactly if it has executed one. -/
theorem run_deleteOrphan {uuid : String} (h : Pruning uuids s) (hmem : uuid ∈ uuids) :
    ∃ outcome s', Prog.run c.handle (deleteOrphan uuid) s = (.ok outcome, s') ∧
      Pruning uuids s' ∧
      s'.deletions = s.deletions + if outcome = .deleted then 1 else 0 := by
  have hturn := run_tryDelete (c := c) h hmem
  rw [deleteOrphan, Prog.run_bind_ok (Prog.run_attempt _ s)]
  revert hturn
  generalize Prog.run c.handle (tryDelete uuid) s = r
  obtain ⟨e | outcome, s'⟩ := r
  · exact fun hturn => ⟨_, s', rfl, hturn.1, by simpa [Except.toOption] using hturn.2⟩
  · exact fun hturn => ⟨outcome, s', rfl, hturn.1, by simpa [Except.toOption] using hturn.2⟩

/-- The loop reports the deletions it has executed. -/
theorem run_deleteOrphans (h : Pruning uuids s) :
    ∃ counters s', Prog.run c.handle (deleteOrphans uuids) s = (.ok counters, s') ∧
      Pruning uuids s' ∧ s'.deletions = s.deletions + counters.deleted := by
  have hloop : ∃ outcomes s', Prog.run c.handle (Prog.forEach deleteOrphan uuids) s =
      (.ok outcomes, s') ∧ Pruning uuids s' ∧
        s'.deletions = s.deletions + outcomes.countP (· = .deleted) := by
    refine Prog.run_forEach_done (I := fun _ outcomes s' => Pruning uuids s' ∧
      s'.deletions = s.deletions + outcomes.countP (· = PruneOutcome.deleted)) ?_ ⟨h, by simp⟩
    rintro done uuid rest outcomes s₁ huuids ⟨hpruning, hcount⟩
    have hmem : uuid ∈ uuids := by simp [huuids]
    obtain ⟨outcome, s₂, hrun, hpruning₂, hcount₂⟩ := run_deleteOrphan (c := c) hpruning hmem
    refine ⟨outcome, s₂, hrun, hpruning₂, ?_⟩
    rw [hcount₂, hcount, List.countP_append, List.countP_singleton, Nat.add_assoc]
    simp
  obtain ⟨outcomes, s', hrun, hpruning, hcount⟩ := hloop
  exact ⟨_, s', (Prog.run_bind_ok hrun).trans rfl, hpruning, hcount⟩

/-! ## The phase -/

theorem PruneReport.apply_deleted (out : PruneReport) (counters : PruneCounters) :
    (out.apply counters).deleted = counters.deleted := by
  rw [PruneReport.apply]
  split
  · rfl
  · split <;> rfl

theorem mem_prunable {entities : List SnapshotEntity} {mentions : List SnapshotMention}
    {relations : List SnapshotRelation} {o : Orphan}
    (h : o ∈ (planOrphanPruning entities mentions relations).prunable) :
    ∃ e ∈ entities, e.uuid = some o.uuid ∧ strip (e.summary.getD "") = "" := by
  obtain ⟨hcand, hprunable⟩ := List.mem_filter.mp h
  obtain ⟨e, he, hmade⟩ := List.mem_filterMap.mp hcand
  refine ⟨e, he, ?_⟩
  revert hmade
  split
  · exact nofun
  · next uuid huuid =>
    split
    · exact nofun
    · dsimp only
      split
      · rintro ⟨⟩
        cases hprunable
      · next hblank =>
        rintro ⟨⟩
        exact ⟨huuid, not_not.mp hblank⟩

theorem planned_blank (nodes : List Node) (mentions : List SnapshotMention)
    (relations : List SnapshotRelation) :
    ∀ uuid ∈ (planOrphanPruning (nodes.map snapshotEntity) mentions relations).prunable.map
      Orphan.uuid, ∃ n ∈ nodes, n.uuid = some uuid ∧ n.Blank := by
  intro uuid huuid
  obtain ⟨o, ho, rfl⟩ := List.mem_map.mp huuid
  obtain ⟨e, he, heuuid, hblank⟩ := mem_prunable ho
  obtain ⟨n, hn, rfl⟩ := List.mem_map.mp he
  exact ⟨n, hn, heuuid, hblank⟩

/-- The entities are read first: what is blank in them is blank in the graph, where one
entity has the uuid. -/
theorem pruning_entities {gid : String} {g : Graph}
    (huuids : ∀ uuid ∈ uuids, ∃ n ∈ (c.handle (.entities gid) ⟨g, []⟩).1.toOption.getD [],
      n.uuid = some uuid ∧ n.Blank) :
    Pruning uuids (c.handle (.entities gid) ⟨g, []⟩).2 ∧
      (c.handle (.entities gid) ⟨g, []⟩).2.deletions = 0 := by
  obtain ⟨t, hpush, hquery, -, -, hanswer⟩ := handle_push c (.entities gid) ⟨g, []⟩
  have hdeletes : t.deletes = none := by rw [Sent.deletes, hquery]
  rw [hpush]
  refine ⟨⟨⟨by simp [Shared.push], fun uuid hmem huntouched r hr => ?_⟩, ?_⟩, ?_⟩
  · obtain ⟨n, hn, huuid, hblank⟩ := huuids uuid hmem
    rcases hanswer with ⟨-, error, herror⟩ | ⟨-, order, hafter, hok⟩
    · rw [herror] at hn
      cases hn
    · rw [hok] at hn
      obtain ⟨hrows, hgroup⟩ := List.mem_filter.mp ((order.perm _).mem_iff.mp hn)
      obtain ⟨⟨i, n⟩, hrow, rfl⟩ := List.mem_map.mp hrows
      have hread : (i, n) ∈ t.found.entitiesOf uuid :=
        List.mem_filter.mpr ⟨hrow, decide_eq_true ⟨(of_decide_eq_true hgroup).1,
          List.mem_singleton.mpr huuid⟩⟩
      change r ∈ t.after.entitiesOf uuid at hr
      rw [hafter] at hr
      have heq : r = (i, n) := eq_of_length_le_one (huntouched.single t rfl) hr hread
      exact heq ▸ hblank
  · exact eachWith_nil.concat fun uuid huuid => by rw [hdeletes] at huuid; cases huuid
  · rw [deletions_push, hdeletes]
    rfl

/-- The snapshot: four queries that take nothing. -/
theorem run_loadGraphSnapshot (py : Builtins) (gid : String) (g : Graph) :
    ∃ snap readErr s', Prog.run c.handle (loadGraphSnapshot py gid) ⟨g, []⟩ =
        (.ok (snap, readErr), s') ∧
      Pruning ((planOrphanPruning snap.entities snap.mentions snap.relations).prunable.map
        Orphan.uuid) s' ∧ s'.deletions = 0 := by
  rw [loadGraphSnapshot, run_pruneQuery_attempt_bind, run_pruneQuery_attempt_bind,
    run_pruneQuery_attempt_bind, run_pruneQuery_attempt_bind]
  refine ⟨_, _, _, rfl, ?_⟩
  refine pruning_read (q := .relations gid) (fun _ => nofun) ?_
  refine pruning_read (q := .mentions gid) (fun _ => nofun) ?_
  refine pruning_read (q := .episodics gid) (fun _ => nofun) ?_
  exact pruning_entities (planned_blank _ _ _)

/-- The phase returns, and reports the deletions it has executed. -/
theorem run_runPhase3Prune (py : Builtins) (gid : String) (g : Graph) :
    ∃ report s', Prog.run c.handle (runPhase3Prune py gid true) ⟨g, []⟩ = (.ok report, s') ∧
      Careful s'.log ∧ s'.deletions = report.deleted := by
  obtain ⟨snap, readErr, s', hsnap, hpruning, hcount⟩ := run_loadGraphSnapshot (c := c) py gid g
  rw [runPhase3Prune, Prog.run_bind_ok hsnap]
  dsimp only
  split
  · exact ⟨_, s', rfl, hpruning.careful, hcount⟩
  · split
    · exact ⟨_, s', rfl, hpruning.careful, hcount⟩
    · obtain ⟨counters, s'', hrun, hpruning', hcount'⟩ := run_deleteOrphans (c := c) hpruning
      refine ⟨_, s'', (Prog.run_bind_ok hrun).trans rfl, hpruning'.careful, ?_⟩
      rw [hcount', hcount, Nat.zero_add, PruneReport.apply_deleted]

end

/-- A list of pieces of one element or none. -/
theorem length_flatMap_eq_countP {α β : Type} {f : α → List β} {p : α → Bool} {l : List α}
    (h : ∀ x ∈ l, (f x).length = if p x then 1 else 0) : (l.flatMap f).length = l.countP p := by
  induction l with
  | nil => rfl
  | cons x l ih =>
    obtain ⟨hx, hl⟩ := List.forall_mem_cons.mp h
    rw [List.flatMap_cons, List.length_append, List.countP_cons, ih hl, hx, Nat.add_comm]

/-- Whatever other clients do, Phase 3 returns and never removes a node with an edge; and
where they leave alone what is being deleted, it removes blank nodes only, and as many as it
reports. -/
theorem prune_safe (py : Builtins) (c : Clients) (gid : String) (g : Graph) :
    ∃ report log g', Prog.run c.handle (runPhase3Prune py gid true) ⟨g, []⟩ =
        (.ok report, ⟨g', log⟩) ∧
      (∀ t ∈ log, ∀ r ∈ t.removed, t.found.Edgeless r.1) ∧
      (Calm log → (∀ t ∈ log, ∀ r ∈ t.removed, r.2.Blank) ∧
        report.deleted = (log.flatMap Sent.removed).length) := by
  obtain ⟨report, s', hrun, hcareful, hcount⟩ := run_runPhase3Prune (c := c) py gid g
  have hrecorded : ∀ t ∈ s'.log, t.Recorded := by
    have h := Prog.run_invariant (h := c.handle) (I := fun s => ∀ t ∈ s.log, t.Recorded)
      (fun q s hs => by
        obtain ⟨t, hpush, -, -, ht, -⟩ := handle_push c q s
        rw [hpush]
        exact fun t' ht' => (List.mem_append.mp ht').elim (hs t')
          fun h => List.mem_singleton.mp h ▸ ht)
      (runPhase3Prune py gid true) (s := ⟨g, []⟩) nofun
    rwa [hrun] at h
  refine ⟨report, s'.log, s'.graph, hrun, fun t ht r hr => (hrecorded t ht).removed_edgeless hr,
    fun hcalm => ?_⟩
  have hturns : ∀ t ∈ s'.log, (∀ r ∈ t.removed, r.2.Blank) ∧
      t.removed.length = if t.deletes.isSome then 1 else 0 := by
    intro t ht
    obtain ⟨before, after, hlog⟩ := List.append_of_mem ht
    cases hdeletes : t.deletes with
    | some uuid =>
      have halone := hcalm before t after hlog uuid hdeletes
      exact hcareful before t after hlog uuid hdeletes halone
    | none =>
      rw [(hrecorded t ht).removed_eq_nil hdeletes]
      exact ⟨List.forall_mem_nil _, rfl⟩
  refine ⟨fun t ht => (hturns t ht).1, ?_⟩
  rw [length_flatMap_eq_countP fun t ht => (hturns t ht).2]
  exact hcount.symm

/-- An entity without edges. -/
def lone (summary : Option String) : Graph where
  nodes := ⟨[(0, ⟨.entity, some "u", some "n", none, summary, none, some "g"⟩)],
    List.nodup_singleton 0⟩
  mentions := []
  relations := []
  others := []
  attached := ⟨nofun, nofun, nofun⟩

/-- Other clients replace the graph before the delete query. -/
def replacing (g' : Graph) : Clients := ⟨inOrder, fun n g => if n = 6 then g' else g⟩

/-- The report of Phase 3 while they do, and the queries it sends. -/
def prunedWith (g' : Graph) : Option PruneReport × List Sent :=
  let out := Prog.run (replacing g').handle (runPhase3Prune default "g" true) ⟨lone none, []⟩
  (out.1.toOption, out.2.log)

/-- A summary of one blank is no summary. -/
theorem calm_prunedWith : Calm (prunedWith (lone (some " "))).2 := by
  have hsplit := (List.dropLast_append_getLast
    (l := (prunedWith (lone (some " "))).2) (by decide +kernel)).symm
  have hbefore : ∀ t ∈ (prunedWith (lone (some " "))).2.dropLast, t.deletes = none := by
    decide +kernel
  rw [hsplit]
  refine EachWith.concat (fun before t after h uuid huuid => ?_) fun uuid huuid => ?_
  · rw [hbefore t (by rw [h]; simp)] at huuid
    cases huuid
  · have hlast : ((prunedWith (lone (some " "))).2.getLast (by decide +kernel)).deletes =
        some "u" := by decide +kernel
    obtain rfl := Option.some.inj (hlast.symm.trans huuid)
    exact ⟨⟨by decide +kernel, by decide +kernel⟩, by decide +kernel, by decide +kernel⟩

theorem prune_safe_blank :
    ∃ report log g', Prog.run (replacing (lone (some " "))).handle
        (runPhase3Prune default "g" true) ⟨lone none, []⟩ = (.ok report, ⟨g', log⟩) ∧
      (∀ t ∈ log, ∀ r ∈ t.removed, r.2.Blank) ∧
      report.deleted = (log.flatMap Sent.removed).length := by
  obtain ⟨report, log, g', hrun, -, hcalm⟩ :=
    prune_safe default (replacing (lone (some " "))) "g" (lone none)
  have hlog : (prunedWith (lone (some " "))).2 = log := by rw [prunedWith, hrun]
  exact ⟨report, log, g', hrun, hcalm (hlog ▸ calm_prunedWith)⟩

/-- Another client writes a summary before the delete query, and the entity goes; another one
takes the entity away, and it is reported as deleted. -/
theorem not_prune_safe :
    (∃ t ∈ (prunedWith (lone (some "text"))).2, ∃ r ∈ t.removed, ¬r.2.Blank) ∧
      (prunedWith (lone none |>.removeNodes fun _ _ => true)).1.map PruneReport.deleted = some 1 ∧
      (prunedWith (lone none |>.removeNodes fun _ _ => true)).2.flatMap Sent.removed = [] := by
  decide +kernel

end JanusGraph
