import Mathlib.Data.List.Perm.Subperm
import JanusGraph.Dream.Adjacency

/-!
# Connected components

The depth-first search of `connected_components`, on the symmetric dict `cluster_graph`
builds: every node ends up in one component, and a component is what can be reached from
any of its nodes. The stack is empty after at most as many turns as there are nodes.
-/

namespace JanusGraph

open Relation

variable {order : SetOrder} {adj : Adjacency}

/-- There is a path between the two. -/
def Connected (adj : Adjacency) : String → String → Prop := ReflTransGen (Lists adj)

/-- A path is walked back where every listing is mutual. -/
theorem Connected.symm (hsymm : ∀ u v, Lists adj u v → Lists adj v u) {u v : String}
    (huv : Connected adj u v) : Connected adj v u := by
  induction huv with
  | refl => exact .refl
  | tail _ hlast ih => exact .head (hsymm _ _ hlast) ih

theorem Undirected.connected_symm (h : Undirected adj) {u v : String} (huv : Connected adj u v) :
    Connected adj v u := huv.symm h.symm

/-! ## One component -/

/-- What pushing neighbours does: those that are new come on the stack. -/
theorem pushAll_spec (l : List String) (t : Traversal) :
    ∃ new, (l.foldl Traversal.push t).stack = new ++ t.stack ∧
      (l.foldl Traversal.push t).comp = t.comp ∧ new.Nodup ∧
      (∀ x ∈ new, x ∈ l ∧ x ∉ t.seen) ∧ (∀ x ∈ l, x ∈ t.seen ∨ x ∈ new) ∧
      ∀ x, x ∈ (l.foldl Traversal.push t).seen ↔ x ∈ t.seen ∨ x ∈ new := by
  induction l generalizing t with
  | nil => exact ⟨[], rfl, rfl, List.nodup_nil, by simp, by simp, by simp⟩
  | cons nb l ih =>
    obtain ⟨new, hstack, hcomp, hnodup, hnew, hall, hseen⟩ := ih (t.push nb)
    rw [List.foldl_cons, hstack, hcomp]
    by_cases hnb : nb ∈ t.seen
    · rw [Traversal.push, if_pos hnb] at hnew hall hseen ⊢
      refine ⟨new, rfl, rfl, hnodup, fun x hx => ⟨List.mem_cons_of_mem _ (hnew x hx).1,
        (hnew x hx).2⟩, fun x hx => ?_, hseen⟩
      rcases List.mem_cons.mp hx with rfl | hx
      · exact .inl hnb
      · exact hall x hx
    · rw [Traversal.push, if_neg hnb] at hnew hall hseen ⊢
      simp only [List.mem_append, List.mem_singleton] at hnew hall hseen
      refine ⟨new ++ [nb], by simp, rfl, ?_, fun x hx => ?_, fun x hx => ?_, fun x => ?_⟩
      · rw [List.nodup_append_comm, List.singleton_append, List.nodup_cons]
        exact ⟨fun hmem => (hnew nb hmem).2 (.inr rfl), hnodup⟩
      · rcases List.mem_append.mp hx with hx | hx
        · exact ⟨List.mem_cons_of_mem _ (hnew x hx).1, fun hs => (hnew x hx).2 (.inl hs)⟩
        · obtain rfl := List.mem_singleton.mp hx
          exact ⟨List.mem_cons_self, hnb⟩
      · rw [List.mem_append, List.mem_singleton]
        rcases List.mem_cons.mp hx with rfl | hx
        · exact .inr (.inr rfl)
        · rcases hall x hx with (hs | rfl) | hmem
          · exact .inl hs
          · exact .inr (.inr rfl)
          · exact .inr (.inl hmem)
      · rw [hseen, List.mem_append, List.mem_singleton]
        tauto

/-- The invariant of the search from `root`, once the nodes in `done` are in components. -/
structure Traversal.Sound (adj : Adjacency) (done : List String) (root : String) (t : Traversal) :
    Prop where
  seen : ∀ x, x ∈ t.seen ↔ x ∈ done ∨ x ∈ t.comp ++ t.stack
  nodup : (t.comp ++ t.stack).Nodup
  fresh : ∀ x ∈ t.comp ++ t.stack, x ∉ done
  nodes : ∀ x ∈ t.comp ++ t.stack, x ∈ adj.keys
  reached : ∀ x ∈ t.comp ++ t.stack, Connected adj root x
  closed : ∀ x ∈ t.comp, ∀ y, Lists adj x y → y ∈ t.comp ++ t.stack
  root : root ∈ t.comp ++ t.stack

namespace Traversal.Sound

variable (order) {done : List String} {root : String} {t : Traversal}

/-- **Step.** Visiting the node on top of the stack keeps the invariant. -/
theorem visit (h : t.Sound adj done root) (hsymm : ∀ u v, Lists adj u v → Lists adj v u)
    (hdone : ∀ x ∈ done, ∀ y, Lists adj x y → y ∈ done) {node : String} {stack : List String}
    (hstack : t.stack = node :: stack) :
    ((sorted (neighbours order adj node)).foldl Traversal.push
      { t with stack, comp := t.comp ++ [node] }).Sound adj done root := by
  obtain ⟨new, hstack', hcomp', hnodup, hnew, hall, hseen⟩ :=
    pushAll_spec (sorted (neighbours order adj node)) { t with stack, comp := t.comp ++ [node] }
  have hlisted : ∀ x, x ∈ sorted (neighbours order adj node) ↔ Lists adj node x := fun x =>
    (List.perm_insertionSort _ _).mem_iff.trans mem_neighbours
  have hold : ∀ x, x ∈ t.comp ++ [node] ++ stack ↔ x ∈ t.comp ++ t.stack := by
    simp [hstack]
  have hnode : node ∈ t.comp ++ t.stack := by simp [hstack]
  -- what is on the lists afterwards
  have hmem : ∀ x, x ∈ t.comp ++ [node] ++ (new ++ stack) ↔ x ∈ t.comp ++ t.stack ∨ x ∈ new := by
    intro x
    rw [← hold]
    simp only [List.mem_append]
    tauto
  have hnew' : ∀ x ∈ new, Lists adj node x ∧ x ∉ done ∧ x ∉ t.comp ++ t.stack := by
    intro x hx
    obtain ⟨hl, hs⟩ := hnew x hx
    rw [h.seen] at hs
    exact ⟨(hlisted x).mp hl, fun hd => hs (.inl hd), fun hm => hs (.inr hm)⟩
  refine ⟨?_, ?_, ?_, ?_, ?_, ?_, ?_⟩ <;> rw [hcomp', hstack']
  · intro x
    rw [hseen, h.seen, hmem, or_assoc]
  · have hperm : (t.comp ++ [node] ++ (new ++ stack)).Perm (new ++ (t.comp ++ t.stack)) := by
      rw [hstack, ← List.append_assoc]
      refine (List.perm_append_comm.append_right stack).trans ?_
      simp
    rw [hperm.nodup_iff, List.nodup_append]
    refine ⟨hnodup, h.nodup, ?_⟩
    rintro x hx y hy rfl
    exact (hnew' x hx).2.2 hy
  · intro x hx
    rcases (hmem x).mp hx with hx | hx
    · exact h.fresh x hx
    · exact (hnew' x hx).2.1
  · intro x hx
    rcases (hmem x).mp hx with hx | hx
    · exact h.nodes x hx
    · exact (hsymm _ _ (hnew' x hx).1).mem_keys
  · intro x hx
    rcases (hmem x).mp hx with hx | hx
    · exact h.reached x hx
    · exact (h.reached node hnode).tail (hnew' x hx).1
  · intro x hx y hxy
    rw [hmem]
    rcases List.mem_append.mp hx with hx | hx
    · exact .inl (h.closed x hx y hxy)
    · obtain rfl := List.mem_singleton.mp hx
      rcases hall y ((hlisted y).mpr hxy) with hs | hs
      · rcases (h.seen y).mp hs with hd | hm
        · -- a node of an earlier component has its neighbours there
          exact absurd (hdone y hd x (hsymm _ _ hxy)) (h.fresh x hnode)
        · exact .inl hm
      · exact .inr hs
  · exact (hmem root).mpr (.inl h.root)

/-- **Run.** Enough turns empty the stack. -/
theorem traverse (h : t.Sound adj done root) (hsymm : ∀ u v, Lists adj u v → Lists adj v u)
    (hdone : ∀ x ∈ done, ∀ y, Lists adj x y → y ∈ done) (fuel : ℕ)
    (hfuel : adj.keys.length ≤ t.comp.length + fuel) :
    (JanusGraph.traverse order adj fuel t).Sound adj done root ∧
      (JanusGraph.traverse order adj fuel t).stack = [] := by
  induction fuel generalizing t with
  | zero =>
    have hle := (List.subperm_of_subset h.nodup h.nodes).length_le
    rw [List.length_append] at hle
    have hstack : t.stack.length = 0 := by omega
    exact ⟨h, List.length_eq_zero_iff.mp hstack⟩
  | succ fuel ih =>
    rcases hstack : t.stack with _ | ⟨node, stack⟩
    · rw [JanusGraph.traverse, hstack]
      exact ⟨h, hstack⟩
    · simp only [JanusGraph.traverse, hstack]
      have hvisit := h.visit order hsymm hdone hstack
      refine ih hvisit ?_
      obtain ⟨-, -, hcomp, -⟩ := pushAll_spec (sorted (neighbours order adj node))
        { t with stack, comp := t.comp ++ [node] }
      rw [hcomp, List.length_append, List.length_singleton]
      omega

end Traversal.Sound

/-! ## All components -/

/-- The components found so far are closed under edges, connected and disjoint. -/
structure Found (adj : Adjacency) (comps : List (List String)) : Prop where
  nodup : comps.flatten.Nodup
  nodes : ∀ c ∈ comps, ∀ x ∈ c, x ∈ adj.keys
  nonempty : ∀ c ∈ comps, c ≠ []
  closed : ∀ c ∈ comps, ∀ x ∈ c, ∀ y, Lists adj x y → y ∈ c
  connected : ∀ c ∈ comps, ∀ x ∈ c, ∀ y ∈ c, Connected adj x y

/-- What is in a component has its neighbours there. -/
theorem Found.closed_flatten {comps : List (List String)} (h : Found adj comps) :
    ∀ x ∈ comps.flatten, ∀ y, Lists adj x y → y ∈ comps.flatten := by
  intro x hx y hxy
  obtain ⟨c, hc, hxc⟩ := List.mem_flatten.mp hx
  exact List.mem_flatten.mpr ⟨c, hc, h.closed c hc x hxc y hxy⟩

/-- The state of the loop over the roots: what has been seen is what the components hold. -/
structure Searched (adj : Adjacency) (found : List String × List (List String)) : Prop where
  comps : Found adj found.2
  seen : ∀ x, x ∈ found.1 ↔ x ∈ found.2.flatten

variable (order) in
/-- `while stack` for a root that has not been seen: it leaves the stack empty. -/
theorem Searched.traverse {found : List String × List (List String)} (h : Searched adj found)
    (hsymm : ∀ u v, Lists adj u v → Lists adj v u) {root : String} (hroot : root ∈ adj.keys)
    (hnew : root ∉ found.1) :
    (traverse order adj adj.rows.length ⟨found.1 ++ [root], [root], []⟩).Sound adj
        found.2.flatten root ∧
      (traverse order adj adj.rows.length ⟨found.1 ++ [root], [root], []⟩).stack = [] := by
  have hstart : Traversal.Sound adj found.2.flatten root ⟨found.1 ++ [root], [root], []⟩ := by
    refine ⟨fun x => ?_, by simp, ?_, ?_, ?_, nofun, by simp⟩
    · simp [← h.seen]
    all_goals
      intro x hx
      obtain rfl : x = root := by simpa using hx
    · rwa [← h.seen]
    · exact hroot
    · exact .refl
  exact hstart.traverse order hsymm h.comps.closed_flatten adj.rows.length (by simp [Table.keys])

variable (order) in
/-- One turn: the root is in a component afterwards. -/
theorem Searched.findComponent {found : List String × List (List String)}
    (h : Searched adj found) (hsymm : ∀ u v, Lists adj u v → Lists adj v u) {root : String}
    (hroot : root ∈ adj.keys) :
    Searched adj (findComponent order adj found root) ∧
      (∀ x ∈ found.1, x ∈ (JanusGraph.findComponent order adj found root).1) ∧
      root ∈ (JanusGraph.findComponent order adj found root).1 := by
  by_cases hold : root ∈ found.1
  · rw [JanusGraph.findComponent, if_pos hold]
    exact ⟨h, fun x hx => hx, hold⟩
  · obtain ⟨hend, hstack⟩ := h.traverse order hsymm hroot hold
    rw [JanusGraph.findComponent, if_neg hold]
    dsimp only
    generalize JanusGraph.traverse order adj adj.rows.length
      ⟨found.1 ++ [root], [root], []⟩ = t at hend hstack
    have hperm : (sorted t.comp).Perm t.comp := List.perm_insertionSort _ _
    have hcomp : t.comp ++ t.stack = t.comp := by rw [hstack, List.append_nil]
    have hmem : ∀ x, x ∈ sorted t.comp ↔ x ∈ t.comp ++ t.stack := fun x => by
      rw [hcomp, hperm.mem_iff]
    have hflat : ∀ x, x ∈ (found.2 ++ [sorted t.comp]).flatten ↔
        x ∈ found.2.flatten ∨ x ∈ t.comp ++ t.stack := fun x => by
      rw [List.flatten_append, List.flatten_singleton, List.mem_append, hmem]
    have hcases : ∀ {P : List String → Prop}, (∀ c ∈ found.2, P c) → P (sorted t.comp) →
        ∀ c ∈ found.2 ++ [sorted t.comp], P c := by
      intro P hP hlast c hc
      rcases List.mem_append.mp hc with hc | hc
      · exact hP c hc
      · rwa [List.mem_singleton.mp hc]
    refine ⟨⟨⟨?_, ?_, ?_, ?_, ?_⟩, fun x => ?_⟩, fun x hx => ?_, ?_⟩
    · rw [List.flatten_append, List.flatten_singleton, List.nodup_append]
      refine ⟨h.comps.nodup, hperm.nodup_iff.mpr (hcomp ▸ hend.nodup), ?_⟩
      rintro x hx y hy rfl
      exact hend.fresh x ((hmem x).mp hy) hx
    · exact hcases h.comps.nodes fun x hx => hend.nodes x ((hmem x).mp hx)
    · refine hcases h.comps.nonempty fun hnil => ?_
      have hin := (hmem root).mpr hend.root
      rw [hnil] at hin
      cases hin
    · refine hcases h.comps.closed fun x hx y hxy => (hmem y).mpr ?_
      exact hend.closed x (hperm.mem_iff.mp hx) y hxy
    · refine hcases h.comps.connected fun x hx y hy => ?_
      exact ((hend.reached x ((hmem x).mp hx)).symm hsymm).trans (hend.reached y ((hmem y).mp hy))
    · rw [hflat, hend.seen]
    · rw [hend.seen, ← h.seen]
      exact .inl hx
    · rw [hend.seen]
      exact .inr hend.root

variable (order) in
/-- The loop: the roots are in components afterwards. -/
theorem Searched.foldl {roots : List String} {found : List String × List (List String)}
    (h : Searched adj found) (hsymm : ∀ u v, Lists adj u v → Lists adj v u)
    (hroots : ∀ r ∈ roots, r ∈ adj.keys) :
    Searched adj (roots.foldl (JanusGraph.findComponent order adj) found) ∧
      ∀ x, x ∈ roots ∨ x ∈ found.1 →
        x ∈ (roots.foldl (JanusGraph.findComponent order adj) found).1 := by
  induction roots generalizing found with
  | nil => exact ⟨h, fun x hx => hx.resolve_left (by simp)⟩
  | cons root roots ih =>
    obtain ⟨h', hkeep, hroot⟩ := h.findComponent order hsymm (hroots root List.mem_cons_self)
    obtain ⟨hend, hall⟩ := ih h' fun r hr => hroots r (List.mem_cons_of_mem _ hr)
    refine ⟨hend, fun x hx => hall x ?_⟩
    rcases hx with hx | hx
    · rcases List.mem_cons.mp hx with rfl | hx
      · exact .inr hroot
      · exact .inl hx
    · exact .inr (hkeep x hx)

theorem searched_nil : Searched adj ([], []) :=
  ⟨⟨List.nodup_nil, nofun, nofun, nofun, nofun⟩, by simp⟩

/-- What `connected_components` returns. -/
structure Components (adj : Adjacency) (comps : List (List String)) : Prop extends
    Found adj comps where
  covers : ∀ u ∈ adj.keys, ∃ c ∈ comps, u ∈ c
  longest : ∀ c ∈ comps, c.length ≤ (comps.headD []).length

theorem perm_connectedComponents : (connectedComponents order adj).Perm
    ((nodesOf adj).foldl (findComponent order adj) ([], [])).2 := List.perm_insertionSort _ _

theorem pairwise_connectedComponents :
    (connectedComponents order adj).Pairwise fun a b => componentKey a ≤ componentKey b :=
  List.pairwise_insertionSort _ _

theorem components_of_symm (hsymm : ∀ u v, Lists adj u v → Lists adj v u) :
    Components adj (connectedComponents order adj) := by
  obtain ⟨hfound, hall⟩ := searched_nil.foldl order hsymm
    fun r (hr : r ∈ nodesOf adj) => mem_nodesOf.mp hr
  have hperm := @perm_connectedComponents order adj
  refine ⟨⟨?_, ?_, ?_, ?_, ?_⟩, fun u hu => ?_, ?_⟩
  · exact hperm.flatten.nodup_iff.mpr hfound.comps.nodup
  · exact fun c hc => hfound.comps.nodes c (hperm.mem_iff.mp hc)
  · exact fun c hc => hfound.comps.nonempty c (hperm.mem_iff.mp hc)
  · exact fun c hc => hfound.comps.closed c (hperm.mem_iff.mp hc)
  · exact fun c hc => hfound.comps.connected c (hperm.mem_iff.mp hc)
  · have hin := (hfound.seen u).mp (hall u (.inl (mem_nodesOf.mpr hu)))
    obtain ⟨c, hc, huc⟩ := List.mem_flatten.mp hin
    exact ⟨c, hperm.mem_iff.mpr hc, huc⟩
  · -- the list is sorted by length first
    have hsorted := @pairwise_connectedComponents order adj
    rcases hcomps : connectedComponents order adj with _ | ⟨first, comps⟩
    · exact nofun
    · intro c hc
      rw [hcomps, List.pairwise_cons] at hsorted
      rw [List.headD_cons]
      rcases List.mem_cons.mp hc with rfl | hc
      · exact le_rfl
      · have hle := hsorted.1 c hc
        rw [componentKey, componentKey, Prod.Lex.toLex_le_toLex] at hle
        omega

theorem connectedComponents_spec (hadj : Undirected adj) :
    Components adj (connectedComponents order adj) := components_of_symm hadj.symm

/-! ## The lists that are returned -/

/-- Every `while stack` ends: the loop for the root that comes after `roots` is left because
its stack is empty. -/
def SearchesEnd (order : SetOrder) (adj : Adjacency) : Prop :=
  ∀ roots root rest, nodesOf adj = roots ++ root :: rest →
    let found := roots.foldl (findComponent order adj) ([], [])
    root ∉ found.1 →
      (traverse order adj adj.rows.length ⟨found.1 ++ [root], [root], []⟩).stack = []

/-- The keys, divided into lists of what is connected, the lists in the order of a report. -/
structure ComponentLists (adj : Adjacency) (comps : List (List String)) : Prop where
  partition : comps.flatten.Perm adj.keys
  nonempty : ∀ c ∈ comps, c ≠ []
  together : ∀ u ∈ adj.keys, ∀ v ∈ adj.keys,
    (∃ c ∈ comps, u ∈ c ∧ v ∈ c) ↔ Connected adj u v
  sorted : ∀ c ∈ comps, c.Pairwise (· < ·)
  ordered : comps.Pairwise fun a b =>
    b.length < a.length ∨ b.length = a.length ∧ a.headD "" < b.headD ""

/-- A closed list holds what can be reached from it. -/
theorem Found.mem_of_connected {comps : List (List String)} (h : Found adj comps)
    {c : List String} (hc : c ∈ comps) {u v : String} (hu : u ∈ c) (huv : Connected adj u v) :
    v ∈ c := by
  induction huv with
  | refl => exact hu
  | tail _ hlast ih => exact h.closed c hc _ ih _ hlast

theorem pairwise_of_mem_foldl {roots : List String} {found : List String × List (List String)}
    (h : ∀ c ∈ found.2, c.Pairwise (· ≤ ·)) :
    ∀ c ∈ (roots.foldl (findComponent order adj) found).2, c.Pairwise (· ≤ ·) := by
  induction roots generalizing found with
  | nil => exact h
  | cons root roots ih =>
    refine ih fun c hc => ?_
    rw [findComponent] at hc
    split at hc
    · exact h c hc
    · rcases List.mem_append.mp hc with hc | hc
      · exact h c hc
      · rw [List.mem_singleton.mp hc]
        exact List.pairwise_insertionSort _ _

theorem searchesEnd (hsymm : ∀ u v, Lists adj u v → Lists adj v u) : SearchesEnd order adj := by
  intro roots root rest hnodes found hnew
  have hkeys : ∀ r ∈ roots ++ root :: rest, r ∈ adj.keys := fun r hr =>
    mem_nodesOf.mp (hnodes ▸ hr)
  obtain ⟨hsearched, -⟩ := searched_nil.foldl order hsymm
    fun r hr => hkeys r (List.mem_append_left _ hr)
  exact (hsearched.traverse order hsymm (hkeys root (by simp)) hnew).2

theorem Components.lists {comps : List (List String)} (h : Components adj comps)
    (hsorted : ∀ c ∈ comps, c.Pairwise (· ≤ ·))
    (hordered : comps.Pairwise fun a b => componentKey a ≤ componentKey b) :
    ComponentLists adj comps := by
  obtain ⟨hnodup, hdisjoint⟩ := List.nodup_flatten.mp h.nodup
  refine ⟨?_, h.nonempty, fun u hu v _ => ⟨?_, fun huv => ?_⟩, fun c hc => ?_, ?_⟩
  · refine (List.perm_ext_iff_of_nodup h.nodup adj.nodup).mpr fun u => ⟨fun hu => ?_, fun hu => ?_⟩
    · obtain ⟨c, hc, huc⟩ := List.mem_flatten.mp hu
      exact h.nodes c hc u huc
    · exact List.mem_flatten.mpr (h.covers u hu)
  · rintro ⟨c, hc, huc, hvc⟩
    exact h.connected c hc u huc v hvc
  · obtain ⟨c, hc, huc⟩ := h.covers u hu
    exact ⟨c, hc, huc, h.mem_of_connected hc huc huv⟩
  · exact ((hsorted c hc).and (hnodup c hc)).imp fun hab => lt_of_le_of_ne hab.1 hab.2
  · refine (hordered.and hdisjoint).imp_of_mem fun {a b} ha hb hab => ?_
    obtain ⟨hkey, hab⟩ := hab
    rw [componentKey, componentKey, Prod.Lex.toLex_le_toLex] at hkey
    rcases hkey with hlength | ⟨hlength, hhead⟩
    · exact .inl (by simpa using hlength)
    · refine .inr ⟨by omega, lt_of_le_of_ne hhead fun heq => ?_⟩
      -- disjoint lists have different first members
      obtain ⟨x, a, rfl⟩ := List.exists_cons_of_ne_nil (h.nonempty _ ha)
      obtain ⟨y, b, rfl⟩ := List.exists_cons_of_ne_nil (h.nonempty _ hb)
      rw [List.headD_cons, List.headD_cons] at heq
      exact hab List.mem_cons_self (heq ▸ List.mem_cons_self)

/-- **Connected components.** On a dict in which every listing is mutual, whatever the order in
which its sets are iterated, the search ends and returns the keys divided by connectedness, each
list sorted, the longest list first and lists of one length by their first member. -/
theorem connectedComponents_correct (order : SetOrder) (adj : Adjacency)
    (hsymm : ∀ u v, Lists adj u v → Lists adj v u) :
    SearchesEnd order adj ∧ ComponentLists adj (connectedComponents order adj) := by
  refine ⟨searchesEnd hsymm, (components_of_symm hsymm).lists (fun c hc => ?_)
    pairwise_connectedComponents⟩
  exact pairwise_of_mem_foldl (by simp) c (perm_connectedComponents.mem_iff.mp hc)

/-- Three nodes, of which the last lists itself and the first. -/
def mutualGraph : Adjacency :=
  connect (connect (Table.ofKeys ["a", "b", "c"] (by decide) fun _ => []) "a" "c") "c" "c"

theorem connectedComponents_correct_mutualGraph :
    ComponentLists mutualGraph [["a", "c"], ["b"]] := by
  have hlists : ∀ u v, Lists mutualGraph u v ↔
      (u = "a" ∧ v = "c" ∨ u = "c" ∧ v = "a") ∨ (u = "c" ∧ v = "c" ∨ u = "c" ∧ v = "c") := by
    intro u v
    rw [mutualGraph, lists_connect (by decide) (by decide), lists_connect (by decide) (by decide),
      or_iff_right (not_lists_ofKeys _ _ u v)]
  refine (connectedComponents_correct .added mutualGraph fun u v huv => ?_).2
  rw [hlists] at huv ⊢
  tauto

/-! ## Component numbers -/

/-- A node is numbered by the index of a component it is in. -/
theorem componentOf_some {comps : List (List String)} {u : String} {i : ℕ}
    (h : (componentOf comps).get? u = some i) : ∃ c, comps[i]? = some c ∧ u ∈ c := by
  have hloop : ∀ (l : List (List String × ℕ)) (compOf : Table String ℕ),
      (∀ p ∈ l, comps[p.2]? = some p.1) →
      (∀ u i, compOf.get? u = some i → ∃ c, comps[i]? = some c ∧ u ∈ c) →
      ∀ u i, (l.foldl (fun compOf comp =>
        comp.1.foldl (fun compOf node => compOf.upsert node fun _ => comp.2) compOf)
        compOf).get? u = some i → ∃ c, comps[i]? = some c ∧ u ∈ c := by
    intro l
    induction l with
    | nil => exact fun compOf _ h => h
    | cons p l ih =>
      intro compOf hl h
      refine ih _ (fun q hq => hl q (List.mem_cons_of_mem _ hq)) ?_
      have hp := hl p List.mem_cons_self
      have hinner : ∀ (nodes : List String) (compOf : Table String ℕ), (∀ x ∈ nodes, x ∈ p.1) →
          (∀ u i, compOf.get? u = some i → ∃ c, comps[i]? = some c ∧ u ∈ c) →
          ∀ u i, (nodes.foldl (fun compOf node => compOf.upsert node fun _ => p.2)
            compOf).get? u = some i → ∃ c, comps[i]? = some c ∧ u ∈ c := by
        intro nodes
        induction nodes with
        | nil => exact fun compOf _ h => h
        | cons node nodes ih' =>
          intro compOf hnodes h
          refine ih' _ (fun x hx => hnodes x (List.mem_cons_of_mem _ hx)) ?_
          intro u i hu
          rw [Table.get?_upsert] at hu
          split at hu
          · rename_i heq
            obtain rfl := Option.some.inj hu
            exact ⟨p.1, hp, heq ▸ hnodes node List.mem_cons_self⟩
          · exact h u i hu
      exact hinner p.1 compOf (fun x hx => hx) h
  exact hloop _ Table.empty (fun p hp => List.mk_mem_zipIdx_iff_getElem?.mp hp)
    (by rintro u i ⟨⟩) u i h

/-- Every node of a component has a number. -/
theorem componentOf_isSome {comps : List (List String)} {c : List String} {u : String}
    (hc : c ∈ comps) (hu : u ∈ c) : ∃ i, (componentOf comps).get? u = some i := by
  have hkeep : ∀ (i : ℕ) (nodes : List String) (compOf : Table String ℕ),
      (∃ j, compOf.get? u = some j) ∨ u ∈ nodes →
      ∃ j, (nodes.foldl (fun compOf node => compOf.upsert node fun _ => i) compOf).get? u =
        some j := by
    intro i nodes
    induction nodes with
    | nil => exact fun compOf h => h.resolve_right (by simp)
    | cons node nodes ih =>
      intro compOf h
      refine ih _ ?_
      rw [Table.get?_upsert]
      by_cases hnode : u = node
      · exact .inl ⟨i, if_pos hnode⟩
      · rw [if_neg hnode]
        exact h.imp_right fun hmem => (List.mem_cons.mp hmem).resolve_left hnode
  have hloop : ∀ (l : List (List String × ℕ)) (compOf : Table String ℕ),
      (∃ j, compOf.get? u = some j) ∨ (∃ p ∈ l, u ∈ p.1) →
      ∃ j, (l.foldl (fun compOf comp =>
        comp.1.foldl (fun compOf node => compOf.upsert node fun _ => comp.2) compOf)
        compOf).get? u = some j := by
    intro l
    induction l with
    | nil => exact fun compOf h => h.resolve_right (by simp)
    | cons p l ih =>
      intro compOf h
      refine ih _ ?_
      rcases h with h | ⟨q, hq, hu⟩
      · exact .inl (hkeep p.2 p.1 compOf (.inl h))
      · rcases List.mem_cons.mp hq with rfl | hq
        · exact .inl (hkeep q.2 q.1 compOf (.inr hu))
        · exact .inr ⟨q, hq, hu⟩
  obtain ⟨i, hi⟩ := List.mem_iff_getElem?.mp hc
  exact hloop _ Table.empty (.inr ⟨(c, i), List.mk_mem_zipIdx_iff_getElem?.mpr hi, hu⟩)

end JanusGraph
