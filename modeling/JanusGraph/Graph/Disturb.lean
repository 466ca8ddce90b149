import JanusGraph.Graph.Match

/-!
# Other clients

A server on which a query may raise, match nothing, or find that other clients have
deleted nodes since the query before. What they took, and which edges of phase B were
not made, is written down beside the graph.
-/

namespace JanusGraph

/-- What goes wrong, and when. -/
structure Disturbance : Type 1 where
  server : Server
  /-- the n-th query matches nothing -/
  misses : ℕ → Bool
  /-- the nodes that other clients delete before the n-th query -/
  removes : ℕ → ℕ → Node → Bool

/-- What a query returns that matches nothing. -/
def Query.nothing : (q : Query) → q.Result
  | .episodics _ => []
  | .mentionsFrom _ => []
  | .countMentions => (0 : ℕ)
  | .deleteMentions _ => ()
  | .createMention .. => (0 : ℕ)
  | .deleteMention .. => ()
  | .episodicProperties _ => []
  | .countEmptied _ => (0 : ℕ)
  | .deleteEmptied _ => ()
  | .mentionsTo _ => []
  | .relationsTouching _ => []
  | .createRelation .. => ()
  | .deleteRelation .. => ()
  | .countDuplicates => (0 : ℕ)
  | .deleteDuplicates => ()
  | .countDetached _ => (0 : ℕ)
  | .deleteDetached _ => ()

/-- The graph, and what has become of it. -/
structure Watched : Type where
  graph : Graph
  /-- how many queries it has been sent -/
  tick : ℕ
  /-- the edges other clients have taken -/
  takenMentions : List Mention
  takenRelations : List Relation
  /-- the executed `CREATE`s of phase B that have made no edge -/
  missed : List Query

namespace Watched

/-- Every `MENTIONS` edge, those included that other clients have taken. -/
def allMentions (w : Watched) : List Mention := w.graph.mentions ++ w.takenMentions

/-- Every `RELATES_TO` edge, those included that other clients have taken. -/
def allRelations (w : Watched) : List Relation := w.graph.relations ++ w.takenRelations

/-- Other clients delete nodes, and with them their edges. -/
def disturb (w : Watched) (p : ℕ → Node → Bool) : Watched :=
  { w with
    graph := w.graph.removeNodes p
    takenMentions := w.takenMentions ++
      w.graph.mentions.filter fun e => !(w.graph.stays p e.src && w.graph.stays p e.dst)
    takenRelations := w.takenRelations ++
      w.graph.relations.filter fun e => !(w.graph.stays p e.src && w.graph.stays p e.dst) }

/-- `w'` has no node and no `RELATES_TO` edge that `w` has not, and no edge of `w` is lost
but to other clients. -/
structure Less (w w' : Watched) : Prop where
  nodes : ∀ i n, w'.graph.nodes.get? i = some n → w.graph.nodes.get? i = some n
  origin : ∀ e ∈ w'.graph.relations, e ∈ w.graph.relations
  mentions : ∀ e ∈ w.allMentions, e ∈ w'.allMentions
  relations : ∀ e ∈ w.allRelations, e ∈ w'.allRelations
  missed : ∀ q ∈ w.missed, q ∈ w'.missed

end Watched

/-- The `CREATE` of phase B that makes no edge, because it matches nothing. -/
def Query.unmade (missed : Bool) (g : Graph) : Query → List Query
  | .createRelation src dst props =>
    if missed || (g.createdRelations src dst props).isEmpty then
      [.createRelation src dst props]
    else []
  | _ => []

section

variable (d : Disturbance)

/-- What a query finds. -/
def Disturbance.before (w : Watched) : Watched :=
  { w.disturb (d.removes w.tick) with tick := w.tick + 1 }

/-- Other clients come first; then the query raises, matches nothing, or is executed. -/
def Disturbance.handle : Handler Query (fun q => Except String q.Result) Watched :=
  fun q w =>
    let found := d.before w
    match d.server.raises w.tick with
    | some error => (.error error, found)
    | none =>
      if d.misses w.tick then
        (.ok q.nothing, { found with missed := w.missed ++ q.unmade true found.graph })
      else
        let r := q.exec (d.server.scan w.tick) found.graph
        (.ok r.1, { found with graph := r.2, missed := w.missed ++ q.unmade false found.graph })

end

/-! ## What is left -/

namespace Watched

variable {w w' w'' : Watched}

theorem Less.refl (w : Watched) : w.Less w :=
  ⟨fun _ _ => id, fun _ => id, fun _ => id, fun _ => id, fun _ => id⟩

theorem Less.trans (h : w.Less w') (h' : w'.Less w'') : w.Less w'' where
  nodes i n hn := h.nodes i n (h'.nodes i n hn)
  origin e he := h.origin e (h'.origin e he)
  mentions e he := h'.mentions e (h.mentions e he)
  relations e he := h'.relations e (h.relations e he)
  missed q hq := h'.missed q (h.missed q hq)

/-- A query that takes no edge away and adds no `RELATES_TO` edge. -/
theorem less_of_graph {g : Graph} {missed : List Query}
    (hnodes : ∀ i n, g.nodes.get? i = some n → w.graph.nodes.get? i = some n)
    (horigin : ∀ e ∈ g.relations, e ∈ w.graph.relations)
    (hmentions : ∀ e ∈ w.graph.mentions, e ∈ g.mentions)
    (hrelations : ∀ e ∈ w.graph.relations, e ∈ g.relations)
    (hmissed : ∀ q ∈ w.missed, q ∈ missed) : w.Less { w with graph := g, missed := missed } where
  nodes := hnodes
  origin := horigin
  mentions e he := by
    rcases List.mem_append.mp he with he | he
    · exact List.mem_append_left _ (hmentions e he)
    · exact List.mem_append_right _ he
  relations e he := by
    rcases List.mem_append.mp he with he | he
    · exact List.mem_append_left _ (hrelations e he)
    · exact List.mem_append_right _ he
  missed := hmissed

/-- What a filter leaves out is found among what it takes. -/
theorem mem_kept_or_taken {E : Type} (stays : E → Bool) {l taken : List E} {e : E}
    (he : e ∈ l ++ taken) : e ∈ l.filter stays ++ (taken ++ l.filter fun e => !stays e) := by
  rcases List.mem_append.mp he with he | he
  · cases hstays : stays e with
    | true => exact List.mem_append_left _ (List.mem_filter.mpr ⟨he, hstays⟩)
    | false =>
      refine List.mem_append_right _ (List.mem_append_right _ (List.mem_filter.mpr ⟨he, ?_⟩))
      rw [hstays]
      rfl
  · exact List.mem_append_right _ (List.mem_append_left _ he)

/-- What other clients take is written down. -/
theorem less_disturb (w : Watched) (p : ℕ → Node → Bool) : w.Less (w.disturb p) where
  nodes i n hn := by
    rw [disturb, Graph.removeNodes, Table.get?_filter] at hn
    exact (Option.filter_eq_some_iff.mp hn).1
  origin e he := List.mem_of_mem_filter he
  mentions _ := mem_kept_or_taken _
  relations _ := mem_kept_or_taken _
  missed _ := id

end Watched

section

variable {d : Disturbance} {q : Query} {w : Watched}

theorem Disturbance.less_before (d : Disturbance) (w : Watched) : w.Less (d.before w) :=
  let h := w.less_disturb (d.removes w.tick)
  ⟨h.nodes, h.origin, h.mentions, h.relations, h.missed⟩

/-- A query that is answered has matched nothing, or has been executed. -/
theorem Disturbance.handle_cases (d : Disturbance) (q : Query) (w : Watched) :
    (∃ error, d.handle q w = (.error error, d.before w)) ∨
      d.handle q w = (.ok q.nothing,
        { d.before w with missed := w.missed ++ q.unmade true (d.before w).graph }) ∨
      d.handle q w = (.ok (q.exec (d.server.scan w.tick) (d.before w).graph).1,
        { d.before w with
          graph := (q.exec (d.server.scan w.tick) (d.before w).graph).2
          missed := w.missed ++ q.unmade false (d.before w).graph }) := by
  unfold handle
  dsimp only
  split
  · next error _ => exact .inl ⟨error, rfl⟩
  · split
    · exact .inr (.inl rfl)
    · exact .inr (.inr rfl)

/-- The rule of a query that takes no edge away and adds no `RELATES_TO` edge. -/
theorem Disturbance.less_handle (d : Disturbance) (w : Watched)
    (hnodes : ∀ order g i n, (q.exec order g).2.nodes.get? i = some n → g.nodes.get? i = some n)
    (horigin : ∀ order g, ∀ e ∈ (q.exec order g).2.relations, e ∈ g.relations)
    (hmentions : ∀ order g, ∀ e ∈ g.mentions, e ∈ (q.exec order g).2.mentions)
    (hrelations : ∀ order g, ∀ e ∈ g.relations, e ∈ (q.exec order g).2.relations) :
    w.Less (d.handle q w).2 := by
  have hmissed : ∀ more, ∀ r ∈ (d.before w).missed, r ∈ w.missed ++ more :=
    fun more r => List.mem_append_left more
  refine (d.less_before w).trans ?_
  rcases d.handle_cases q w with ⟨error, h⟩ | h | h <;> rw [h]
  · exact .refl _
  · exact Watched.less_of_graph (fun _ _ => id) (fun _ => id) (fun _ => id) (fun _ => id)
      (hmissed _)
  · exact Watched.less_of_graph (hnodes _ _) (horigin _ _) (hmentions _ _) (hrelations _ _)
      (hmissed _)

/-- A query that only reads. -/
theorem Disturbance.less_read (d : Disturbance) (w : Watched)
    (hread : ∀ order g, (q.exec order g).2 = g) : w.Less (d.handle q w).2 :=
  d.less_handle w (fun order g _ _ hn => hread order g ▸ hn) (fun order g _ he => hread order g ▸ he)
    (fun order g _ he => (hread order g).symm ▸ he) fun order g _ he => (hread order g).symm ▸ he

end

end JanusGraph
