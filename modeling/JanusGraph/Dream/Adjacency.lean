import Mathlib.Logic.Relation
import JanusGraph.Dream.Phases

/-!
# The graph behind an adjacency dict

`cluster_graph` accepts any dict of sets and makes a symmetric one of it. What it works on
is a matter of two relations of the dict: which texts occur in it, and which two are
linked, in whichever direction they are listed.
-/

namespace JanusGraph

open Relation

variable {order : SetOrder} {adj : Adjacency} {u v : String}

/-! ## Listed neighbours -/

/-- `v` is in the set of `u`. -/
def Lists (adj : Adjacency) (u v : String) : Prop := ∃ vs, adj.get? u = some vs ∧ v ∈ vs

/-- The text occurs in the dict, as a key or as a neighbour. -/
def Occurs (adj : Adjacency) (u : String) : Prop := u ∈ adj.keys ∨ ∃ w, Lists adj w u

/-- Two different texts, one of which lists the other. -/
def Linked (adj : Adjacency) (u v : String) : Prop := u ≠ v ∧ (Lists adj u v ∨ Lists adj v u)

/-- What `cluster_graph` relies on after its first lines. -/
structure Undirected (adj : Adjacency) : Prop where
  symm : ∀ u v, Lists adj u v → Lists adj v u
  irrefl : ∀ u, ¬ Lists adj u u

theorem Lists.mem_keys (h : Lists adj u v) : u ∈ adj.keys := by
  obtain ⟨vs, hvs, -⟩ := h
  exact Table.mem_keys.mpr ⟨vs, hvs⟩

theorem mem_neighbours : v ∈ neighbours order adj u ↔ Lists adj u v := by
  rw [neighbours, order.mem_iter, Lists]
  rcases adj.get? u with _ | vs <;> simp

theorem mem_nodesOf : u ∈ nodesOf adj ↔ u ∈ adj.keys :=
  (List.perm_insertionSort _ _).mem_iff

theorem Undirected.mem_nodesOf (h : Undirected adj) (hlists : Lists adj u v) :
    u ∈ nodesOf adj ∧ v ∈ nodesOf adj :=
  ⟨JanusGraph.mem_nodesOf.mpr hlists.mem_keys,
    JanusGraph.mem_nodesOf.mpr (h.symm u v hlists).mem_keys⟩

/-! ## Adding edges -/

@[simp] theorem keys_connect (adj : Adjacency) (u v : String) :
    (connect adj u v).keys = adj.keys := by
  rw [connect, Table.keys_modify, Table.keys_modify]

theorem lists_modify {w x : String} :
    Lists (adj.modify u fun vs => vs ++ [v]) w x ↔
      Lists adj w x ∨ u ∈ adj.keys ∧ w = u ∧ x = v := by
  simp only [Lists, Table.get?_modify, Table.mem_keys]
  by_cases hw : w = u
  · subst hw
    rcases adj.get? w with _ | vs <;> simp
  · simp [hw]

theorem lists_connect (hu : u ∈ adj.keys) (hv : v ∈ adj.keys) {w x : String} :
    Lists (connect adj u v) w x ↔ Lists adj w x ∨ (w = u ∧ x = v ∨ w = v ∧ x = u) := by
  rw [connect, lists_modify, lists_modify, Table.keys_modify, or_assoc]
  simp [hu, hv]

/-- The step adds the edges of `R`, and no nodes. -/
structure AddsEdges {α : Type} (nodes : List String) (f : Adjacency → α → Adjacency)
    (R : α → String → String → Prop) (a : α) : Prop where
  keeps : ∀ adj, adj.keys = nodes → (f adj a).keys = nodes
  lists : ∀ adj, adj.keys = nodes → ∀ u v, Lists (f adj a) u v ↔ Lists adj u v ∨ R a u v

/-- A loop adds the edges its turns add. -/
theorem AddsEdges.foldl {α : Type} {nodes : List String} {f : Adjacency → α → Adjacency}
    {R : α → String → String → Prop} {l : List α} (h : ∀ a ∈ l, AddsEdges nodes f R a) :
    AddsEdges nodes (fun adj l => l.foldl f adj) (fun l u v => ∃ a ∈ l, R a u v) l := by
  induction l with
  | nil => exact ⟨fun adj hadj => hadj, fun adj hadj u v => by simp⟩
  | cons a l ih =>
    have ha := h a List.mem_cons_self
    have hl := ih fun b hb => h b (List.mem_cons_of_mem _ hb)
    refine ⟨fun adj hadj => hl.keeps _ (ha.keeps adj hadj), fun adj hadj u v => ?_⟩
    rw [List.foldl_cons, hl.lists _ (ha.keeps adj hadj), ha.lists adj hadj, or_assoc]
    simp

/-- A guarded edge. -/
theorem addsEdges_connect {α : Type} {nodes : List String} {src dst : α → String} {p : α → Prop}
    [DecidablePred p] {a : α} (h : p a → src a ∈ nodes ∧ dst a ∈ nodes) :
    AddsEdges nodes (fun adj a => if p a then connect adj (src a) (dst a) else adj)
      (fun a u v => p a ∧ (u = src a ∧ v = dst a ∨ u = dst a ∧ v = src a)) a := by
  by_cases hp : p a
  · refine ⟨fun adj hadj => ?_, fun adj hadj u v => ?_⟩
    · rw [if_pos hp, keys_connect, hadj]
    · rw [if_pos hp, lists_connect (hadj ▸ (h hp).1) (hadj ▸ (h hp).2)]
      simp [hp]
  · refine ⟨fun adj hadj => ?_, fun adj hadj u v => ?_⟩
    · rw [if_neg hp, hadj]
    · rw [if_neg hp]
      simp [hp]

theorem not_lists_ofKeys (keys : List String) (h : keys.Nodup) (u v : String) :
    ¬ Lists (Table.ofKeys keys h fun _ => []) u v := by
  rintro ⟨vs, hvs, hmem⟩
  rw [Table.get?_ofKeys] at hvs
  split at hvs
  · obtain rfl := Option.some.inj hvs
    cases hmem
  · cases hvs

/-! ## The normal form -/

theorem lists_map_iter : Lists (adj.map fun _ vs => order.iter vs) u v ↔ Lists adj u v := by
  simp only [Lists, Table.get?_map, Option.map_eq_some_iff]
  constructor
  · rintro ⟨vs, ⟨ws, hws, rfl⟩, hv⟩
    exact ⟨ws, hws, order.mem_iter.mp hv⟩
  · rintro ⟨ws, hws, hv⟩
    exact ⟨_, ⟨ws, hws, rfl⟩, order.mem_iter.mpr hv⟩

/-- The nodes of the normal form are the texts of the dict, and its edges the links. -/
theorem normalise_spec (order : SetOrder) (adj : Adjacency) :
    (∀ u, u ∈ (normalise order adj).keys ↔ Occurs adj u) ∧
      ∀ u v, Lists (normalise order adj) u v ↔ Linked adj u v := by
  set raw := adj.map fun _ vs => order.iter vs with hraw
  set keys := raw.keys ++ order.iter (raw.rows.flatMap fun item => order.iter item.2) with hkeys
  have hrow : ∀ item, item ∈ raw.rows → ∀ w, w ∈ order.iter item.2 ↔ Lists adj item.1 w := by
    intro item hitem w
    rw [order.mem_iter, ← @lists_map_iter order, Lists, Table.mem_rows.mp hitem]
    simp
  have hmem : ∀ u, u ∈ keys ↔ Occurs adj u := by
    intro u
    rw [hkeys, List.mem_append, order.mem_iter, List.mem_flatMap, hraw, Table.keys_map, Occurs]
    refine or_congr_right ⟨?_, ?_⟩
    · rintro ⟨item, hitem, hu⟩
      exact ⟨item.1, (hrow item hitem u).mp hu⟩
    · rintro ⟨w, hw⟩
      obtain ⟨vs, hvs, hu⟩ := (@lists_map_iter order _ _ _).mpr hw
      exact ⟨(w, vs), Table.mem_rows.mpr hvs, order.mem_iter.mpr hu⟩
  have hiter : ∀ u, u ∈ order.iter keys ↔ Occurs adj u := fun u => order.mem_iter.trans (hmem u)
  -- the inner loop, over the neighbours of one key
  have hinner : ∀ item ∈ raw.rows, AddsEdges (order.iter keys) (fun adj item =>
      if item.1 ∉ keys then adj
      else (order.iter item.2).foldl (fun adj v =>
        if v ∈ keys ∧ item.1 ≠ v then connect adj item.1 v else adj) adj)
      (fun item u v => ∃ w ∈ order.iter item.2, (w ∈ keys ∧ item.1 ≠ w) ∧
        (u = item.1 ∧ v = w ∨ u = w ∧ v = item.1)) item := by
    intro item hitem
    have hkey : item.1 ∈ keys := List.mem_append_left _ (List.mem_map_of_mem hitem)
    have hloop : AddsEdges (order.iter keys) (fun adj l => l.foldl (fun adj v =>
        if v ∈ keys ∧ item.1 ≠ v then connect adj item.1 v else adj) adj)
        (fun l u v => ∃ w ∈ l, (w ∈ keys ∧ item.1 ≠ w) ∧
          (u = item.1 ∧ v = w ∨ u = w ∧ v = item.1)) (order.iter item.2) :=
      AddsEdges.foldl fun w hw => addsEdges_connect (p := fun w => w ∈ keys ∧ item.1 ≠ w)
        fun hp => ⟨order.mem_iter.mpr hkey, order.mem_iter.mpr hp.1⟩
    refine ⟨fun adj hadj => ?_, fun adj hadj u v => ?_⟩
    · rw [if_neg (not_not.mpr hkey)]
      exact hloop.keeps adj hadj
    · rw [if_neg (not_not.mpr hkey)]
      exact hloop.lists adj hadj u v
  have houter := AddsEdges.foldl hinner
  have hempty := Table.keys_ofKeys (order.iter keys) (order.nodup keys) fun _ => ([] : List String)
  refine ⟨fun u => ?_, fun u v => ?_⟩
  · rw [normalise, houter.keeps _ hempty]
    exact hiter u
  · rw [normalise, houter.lists _ hempty, or_iff_right (not_lists_ofKeys _ _ _ _), Linked]
    constructor
    · rintro ⟨item, hitem, w, hw, ⟨-, hne⟩, ⟨rfl, rfl⟩ | ⟨rfl, rfl⟩⟩
      · exact ⟨hne, .inl ((hrow item hitem _).mp hw)⟩
      · exact ⟨hne.symm, .inr ((hrow item hitem _).mp hw)⟩
    · rintro ⟨hne, hlists | hlists⟩
      · obtain ⟨vs, hvs, hv⟩ := (@lists_map_iter order _ _ _).mpr hlists
        exact ⟨(u, vs), Table.mem_rows.mpr hvs, v, order.mem_iter.mpr hv,
          ⟨(hmem v).mpr (.inr ⟨u, hlists⟩), hne⟩, .inl ⟨rfl, rfl⟩⟩
      · obtain ⟨vs, hvs, hu⟩ := (@lists_map_iter order _ _ _).mpr hlists
        exact ⟨(v, vs), Table.mem_rows.mpr hvs, u, order.mem_iter.mpr hu,
          ⟨(hmem u).mpr (.inr ⟨v, hlists⟩), hne.symm⟩, .inr ⟨rfl, rfl⟩⟩

theorem normalise_undirected (order : SetOrder) (adj : Adjacency) :
    Undirected (normalise order adj) := by
  obtain ⟨-, hlists⟩ := normalise_spec order adj
  refine ⟨fun u v h => ?_, fun u h => ((hlists u u).mp h).1 rfl⟩
  obtain ⟨hne, h⟩ := (hlists u v).mp h
  exact (hlists v u).mpr ⟨hne.symm, h.symm⟩

end JanusGraph
