import JanusGraph.Graph.ApplyRun
import JanusGraph.Graph.Match

/-!
# What a redirect makes of the properties

Phase B of `apply_plan` rebuilds an edge from a fixed list of columns. That is the frame
of the edge (its properties as they were, but for those that spell its ends) only for an
edge that has no other properties, and whose values the conversions leave alone.
-/

namespace JanusGraph

/-! ## The frame -/

/-- What a property that spells an end becomes. -/
def spelledEnd (src dst key : String) : Option Value :=
  if key ∈ ["source_node_uuid", "src_uuid"] then some (.str src)
  else if key ∈ ["target_node_uuid", "dst_uuid"] then some (.str dst)
  else none

/-- `e'` has what `e` has, but for the properties that spell the ends. -/
def Relation.Frames (e e' : Relation) (src dst : String) : Prop :=
  ∀ key, e.prop key ≠ .null → e'.prop key = (spelledEnd src dst key).getD (e.prop key)

/-- The columns of the new edge. -/
def recreatedKeys : List String :=
  ["uuid", "source_node_uuid", "target_node_uuid", "group_id", "fact", "name", "created_at",
    "valid_at", "reference_time", "episodes"]

/-- Nothing of the edge is lost in the columns of a new one. -/
structure Relation.Fixed (e : Relation) : Prop where
  columns : ∀ key, key ∉ recreatedKeys → e.prop key = .null
  group : e.prop "group_id" = .null ∨ e.prop "group_id" = .str "graphiti_memory"
  times : ∀ key ∈ ["created_at", "valid_at", "reference_time"],
    e.prop key = .null ∨ ∃ text, text ≠ "" ∧ e.prop key = .str text
  episodes : e.prop "episodes" = .null ∨ e.prop "episodes" = .list [] ∨
    (e.prop "episodes").truthy

/-! ## Stored properties -/

theorem get?_storedProps {props : List (String × Value)} (hnodup : (props.map Prod.fst).Nodup)
    (key : String) :
    (Graph.storedProps props).get? key = (props.lookup key).filter (· ≠ .null) := by
  have hfold : ∀ (props : List (String × Value)) (stored : Table String Value),
      (props.map Prod.fst).Nodup → (props.foldl (fun stored kv =>
        if kv.2 = .null then stored else stored.upsert kv.1 fun _ => kv.2) stored).get? key =
      ((props.lookup key).filter (· ≠ .null)).or (stored.get? key) := by
    intro props
    induction props with
    | nil => exact fun _ _ => rfl
    | cons kv props ih =>
      obtain ⟨k, v⟩ := kv
      intro stored hnodup
      obtain ⟨hnot, hnodup⟩ := List.nodup_cons.mp hnodup
      rw [List.foldl_cons, ih _ hnodup, List.lookup_cons]
      by_cases hk : key = k
      · subst hk
        have hlookup : props.lookup key = none := by
          rw [List.lookup_eq_none_iff]
          rintro ⟨k', v'⟩ hkv
          rw [bne_iff_ne]
          rintro rfl
          exact hnot (List.mem_map.mpr ⟨_, hkv, rfl⟩)
        by_cases hv : v = .null <;> simp [Option.filter_some, hlookup, hv, Table.get?_upsert]
      · have hbeq : (key == k) = false := beq_false_of_ne hk
        by_cases hv : v = .null <;> simp [hbeq, hv, Table.get?_upsert, hk]
  rw [Graph.storedProps, hfold props Table.empty hnodup, Table.get?_empty, Option.or_none]

/-- A stored null is no property, and reads as null. -/
theorem prop_storedProps {props : List (String × Value)} (hnodup : (props.map Prod.fst).Nodup)
    (s t : ℕ) (key : String) :
    Relation.prop ⟨s, t, Graph.storedProps props⟩ key = (props.lookup key).getD .null := by
  rw [Relation.prop, get?_storedProps hnodup]
  rcases props.lookup key with _ | v
  · rfl
  · by_cases hv : v = .null <;> simp [Option.filter_some, hv]

section

variable {py : Builtins} {g : Graph} {e : Relation} {row : RelationRow} {src dst : String}

/-- The conversion of a time leaves alone a text that is not empty. -/
theorem textOrNull_eq_iff (py : Builtins) {v : Value} :
    (v ≠ .null → textOrNull py v = v) ↔ v = .null ∨ ∃ text, text ≠ "" ∧ v = .str text := by
  constructor
  · intro h
    by_cases hv : v = .null
    · exact .inl hv
    · have hsame := h hv
      unfold textOrNull at hsame
      split at hsame
      · next htruthy =>
        obtain ⟨text, rfl⟩ : ∃ text, v = .str text := ⟨_, hsame.symm⟩
        exact .inr ⟨text, by simpa [Value.truthy] using htruthy, rfl⟩
      · exact absurd hsame.symm hv
  · rintro (rfl | ⟨text, hne, rfl⟩) hnull
    · exact absurd rfl hnull
    · simp [textOrNull, Value.truthy, Builtins.text, hne]

theorem prop_recreated (s t : ℕ) (key : String) :
    Relation.prop ⟨s, t, Graph.storedProps (recreatedProps py row src dst)⟩ key =
      ((recreatedProps py row src dst).lookup key).getD .null :=
  prop_storedProps (by simp [recreatedProps]) s t key

theorem lookup_recreatedProps_of_not_mem {key : String} (hkey : key ∉ recreatedKeys) :
    (recreatedProps py row src dst).lookup key = none := by
  rw [List.lookup_eq_none_iff]
  rintro kv hkv
  rw [bne_iff_ne]
  rintro rfl
  exact hkey (List.mem_map.mpr ⟨kv, hkv, rfl⟩)

/-- The new edge frames the old one exactly when nothing is lost in its columns. -/
theorem frames_iff_fixed (hrow : g.relationRow e = some row) (s t : ℕ) :
    e.Frames ⟨s, t, Graph.storedProps (recreatedProps py row src dst)⟩ src dst ↔ e.Fixed := by
  unfold Graph.relationRow at hrow
  split at hrow
  · cases hrow
    unfold Relation.Frames
    simp only [prop_recreated]
    constructor
    · intro h
      refine ⟨fun key hkey => ?_, ?_, fun key hkey => ?_, ?_⟩
      · by_contra hne
        have hframe := h key hne
        rw [lookup_recreatedProps_of_not_mem hkey] at hframe
        unfold spelledEnd at hframe
        split at hframe
        · cases hframe
        · split at hframe
          · cases hframe
          · exact hne hframe.symm
      · by_cases hnull : e.prop "group_id" = .null
        · exact .inl hnull
        · exact .inr (h "group_id" hnull).symm
      · rw [← textOrNull_eq_iff py]
        intro hnull
        have hframe := h key hnull
        simp only [List.mem_cons, List.not_mem_nil, or_false] at hkey
        rcases hkey with rfl | rfl | rfl <;> exact hframe
      · by_cases hnull : e.prop "episodes" = .null
        · exact .inl hnull
        · have hframe : (if (e.prop "episodes").truthy then e.prop "episodes" else .list []) =
            e.prop "episodes" := h "episodes" hnull
          split at hframe
          · next htruthy => exact .inr (.inr htruthy)
          · exact .inr (.inl hframe.symm)
    · intro h key hne
      by_cases hkey : key ∈ recreatedKeys
      · have htime : ∀ key ∈ ["created_at", "valid_at", "reference_time"],
            e.prop key ≠ .null → textOrNull py (e.prop key) = e.prop key := fun key hkey =>
          (textOrNull_eq_iff py).mpr (h.times key hkey)
        simp only [recreatedKeys, List.mem_cons, List.not_mem_nil, or_false] at hkey
        rcases hkey with rfl | rfl | rfl | rfl | rfl | rfl | rfl | rfl | rfl | rfl
        · rfl
        · rfl
        · rfl
        · exact ((h.group).resolve_left hne).symm
        · rfl
        · rfl
        · exact htime _ (by simp) hne
        · exact htime _ (by simp) hne
        · exact htime _ (by simp) hne
        · change (if (e.prop "episodes").truthy then e.prop "episodes" else .list []) =
            e.prop "episodes"
          rcases h.episodes with hnull | hempty | htruthy
          · exact absurd hnull hne
          · rw [hempty]
            rfl
          · rw [if_pos htruthy]
      · exact absurd (h.columns key hkey) hne
  · cases hrow

end

/-! ## What a run recreates -/

variable {Score : Type}

/-- A `CREATE` of phase B. -/
def Query.Recreates : Query → Prop
  | .createRelation .. => True
  | _ => False

/-- The row is that of an edge of the graph, and is redirected. -/
structure Graph.Redirects (g : Graph) (redirect : Table String String) (row : RelationRow) :
    Prop where
  edge : ∃ e ∈ g.relations, g.relationRow e = some row
  moved : ¬ row.Settled redirect
  apart : row.newSrc redirect ≠ row.newDst redirect

section

variable {server : Server} {py : Builtins} {g : Graph} {redirect : Table String String}
  {db : FalkorDb}

/-- Nothing has been recreated yet. -/
structure Graph.Untouched (g : Graph) (db : FalkorDb) : Prop where
  nodes : db.graph.nodes = g.nodes
  relations : db.graph.relations = g.relations
  log : ∀ x ∈ db.log, ¬ x.query.Recreates

/-- What has been recreated comes from rows that are redirected. -/
def Graph.Rebuilt (g : Graph) (py : Builtins) (redirect : Table String String) (db : FalkorDb) :
    Prop :=
  ∀ x ∈ db.log, x.query.Recreates → ∃ row, g.Redirects redirect row ∧
    x.query = row.recreate py redirect

theorem Graph.Rebuilt.handle (h : g.Rebuilt py redirect db) {q : Query}
    (hq : q.Recreates → ∃ row, g.Redirects redirect row ∧ q = row.recreate py redirect) :
    g.Rebuilt py redirect (server.handle q db).2 := by
  rcases handle_cases server q db with ⟨error, heq⟩ | heq
  · rw [heq]
    exact h
  · rw [heq]
    intro x hx
    rcases List.mem_append.mp hx with hx | hx
    · exact h x hx
    · obtain rfl := List.mem_singleton.mp hx
      exact hq

theorem Graph.Untouched.handle (h : g.Untouched db) {q : Query} (hq : ¬ q.Recreates)
    (hnodes : (db.after server q).graph.nodes = db.graph.nodes)
    (hrelations : (db.after server q).graph.relations = db.graph.relations) :
    g.Untouched (server.handle q db).2 := by
  rcases handle_cases server q db with ⟨error, heq⟩ | heq
  · rw [heq]
    exact ⟨h.nodes, h.relations, h.log⟩
  · rw [heq]
    refine ⟨hnodes.trans h.nodes, hrelations.trans h.relations, fun x hx => ?_⟩
    rcases List.mem_append.mp hx with hx | hx
    · exact h.log x hx
    · obtain rfl := List.mem_singleton.mp hx
      exact hq

theorem Graph.Untouched.rebuilt (h : g.Untouched db) : g.Rebuilt py redirect db :=
  fun x hx hrecreates => absurd hrecreates (h.log x hx)

theorem applyKeeps_rebuilt (server : Server) (py : Builtins) (g : Graph)
    (plan : DedupPlan Score) :
    ApplyKeeps server.handle py plan g.Untouched (g.Rebuilt py plan.redirect)
      (g.Rebuilt py plan.redirect) fun row => ∃ e ∈ g.relations, g.relationRow e = some row where
  readMentions s h := h.handle id rfl rfl
  mentionTurn row s h := along_moveMention h fun _ _ _ =>
    have hcreate := h.handle (q := row.create plan.redirect) id rfl rfl
    ⟨hcreate, fun _ _ _ => hcreate.handle id rfl rfl⟩
  readRelations s h := by
    refine ⟨(h.handle id rfl rfl).rebuilt, fun rows hrows row hrow => ?_⟩
    rcases handle_cases server (.relationsTouching plan.victims) s with ⟨error, heq⟩ | heq
    · rw [heq] at hrows
      cases hrows
    · rw [heq] at hrows
      obtain rfl := Except.ok.inj hrows
      have hin := (List.mem_filter.mp (((server.scan s.tick).perm _).mem_iff.mp hrow)).1
      obtain ⟨e, he, hrelation⟩ := List.mem_filterMap.mp hin
      exact ⟨e, h.relations ▸ he, (Graph.relationRow_congr h.nodes e).symm.trans hrelation⟩
  relationTurn row s hrow h := by
    refine along_moveRelation h (fun _ _ => h.handle (fun hdelete => absurd hdelete id))
      fun hmoved happart => ?_
    have hcreate : g.Rebuilt py plan.redirect
        (server.handle (row.recreate py plan.redirect) s).2 :=
      h.handle fun _ => ⟨row, ⟨hrow, hmoved, happart⟩, rfl⟩
    exact ⟨hcreate, fun _ => hcreate.handle fun hdelete => absurd hdelete id⟩
  cleanup q s hq h := h.handle fun hrecreates => by cases q <;> cases hq <;> cases hrecreates

/-- Whatever fails and wherever the process dies: each `CREATE` that phase B has sent
rebuilds an edge of the graph, and the edges it makes frame that edge exactly when the
columns leave nothing out. -/
theorem redirect_frames (server : Server) (py : Builtins) (plan : DedupPlan Score) (apply : Bool)
    (batch : ℕ) (g : Graph) (tick n : ℕ) :
    ∀ x ∈ (Prog.crash server.handle n (applyPlan py plan apply batch) ⟨g, tick, []⟩).log,
      ∀ src dst props, x.query = .createRelation src dst props →
        ∃ row, g.Redirects plan.redirect row ∧ src = row.newSrc plan.redirect ∧
          dst = row.newDst plan.redirect ∧
          ∀ e ∈ g.relations, g.relationRow e = some row →
            ∀ (g' : Graph), ∀ e' ∈ g'.createdRelations src dst props,
              (e.Frames e' src dst ↔ e.Fixed) := by
  have halong := (applyKeeps_rebuilt server py g plan).along (fun _ h => h.rebuilt)
    (fun _ => id) (fun _ => id) (fun _ => id) apply batch
    (s := ⟨g, tick, []⟩) ⟨rfl, rfl, fun x hx => absurd hx List.not_mem_nil⟩
  intro x hx src dst props hquery
  obtain ⟨row, hredirects, hrecreate⟩ := Prog.along_iff.mp halong n x hx (by rw [hquery]; trivial)
  rw [hquery] at hrecreate
  obtain ⟨rfl, rfl, rfl⟩ := Query.createRelation.inj hrecreate
  refine ⟨row, hredirects, rfl, rfl, fun e _ hrow g' e' he' => ?_⟩
  obtain ⟨s, -, he'⟩ := List.mem_flatMap.mp he'
  obtain ⟨t, -, rfl⟩ := List.mem_map.mp he'
  exact frames_iff_fixed hrow s t

end

/-! ## One edge -/

/-- Three entities, the first of them related to the last. -/
def related (props : List (String × Value)) : Graph where
  nodes := ⟨["v", "s", "t"].zipIdx.map fun p => (p.2,
    ⟨.entity, some p.1, some "n", none, none, none, some "g"⟩), by decide⟩
  mentions := []
  relations := [⟨0, 2, Graph.storedProps props⟩]
  others := []
  attached := by
    refine ⟨by simp, fun e he => ?_, by simp⟩
    obtain rfl := List.mem_singleton.mp he
    exact ⟨rfl, rfl⟩

/-- The merge of the first into the second. -/
def mergeOne : DedupPlan Unit where
  merges := [⟨"n", "s", "v", (), 0, 0⟩]
  threshold := ()
  maxObservedSimilarity := ()

/-- An edge with a uuid and a fact. -/
theorem redirect_frames_plain :
    ∃ row, (related [("uuid", .str "e"), ("fact", .str "f")]).Redirects mergeOne.redirect row ∧
      "s" = row.newSrc mergeOne.redirect ∧ "t" = row.newDst mergeOne.redirect ∧
      ∀ e ∈ (related [("uuid", .str "e"), ("fact", .str "f")]).relations,
        (related [("uuid", .str "e"), ("fact", .str "f")]).relationRow e = some row →
          ∀ (g' : Graph), ∀ e' ∈ g'.createdRelations "s" "t"
            (recreatedProps default ⟨.str "e", some "v", some "t", .str "f", .null, .null, .null,
              .null, .null⟩ "s" "t"), (e.Frames e' "s" "t" ↔ e.Fixed) := by
  refine redirect_frames inOrder default mergeOne true 200 _ 0 3
    ⟨.createRelation "s" "t" _, ()⟩ ?_ _ _ _ rfl
  exact List.mem_cons_of_mem _ (List.mem_cons_of_mem _ List.mem_cons_self)

/-- What the new edge lacks, or has otherwise. -/
theorem not_redirect_frames : ∃ e ∈ (related [("uuid", .str "e"), ("fact", .str "f"),
      ("group_id", .str "g"), ("src_uuid", .str "v"), ("dst_uuid", .str "t"),
      ("fact_embedding", .list [.float (.finite 1 0)]), ("invalid_at", .str "2026")]).relations,
    ∃ e', (Prog.run inOrder.handle (applyPlan default mergeOne true 200) ⟨related [
      ("uuid", .str "e"), ("fact", .str "f"), ("group_id", .str "g"), ("src_uuid", .str "v"),
      ("dst_uuid", .str "t"), ("fact_embedding", .list [.float (.finite 1 0)]),
      ("invalid_at", .str "2026")], 0, []⟩).2.graph.relations = [e'] ∧
    ¬ e.Frames e' "s" "t" ∧
    ∀ key ∈ ["group_id", "src_uuid", "dst_uuid", "fact_embedding", "invalid_at"],
      e.prop key ≠ .null ∧ e'.prop key ≠ (spelledEnd "s" "t" key).getD (e.prop key) := by
  refine ⟨_, List.mem_cons_self, _, rfl, fun h => ?_, by decide⟩
  have hgroup := h "group_id" (by decide)
  revert hgroup
  decide

end JanusGraph
