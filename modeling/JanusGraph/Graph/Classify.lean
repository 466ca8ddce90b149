import JanusGraph.Graph.Fold
import Mathlib.Data.Finset.Card

/-!
# How the rows are classified

`splitRows` and `classify` lose no row: each uuid ends in exactly one of the lists.
Which pairs of a survivor and a target are created, and how many rows go which way,
does not depend on the order of the rows.
-/

namespace JanusGraph

/-- The endpoints of a row. -/
def VictimEdge.ends (e : VictimEdge) : String × String := (e.src, e.dst)

/-- The survivor's side of a row. -/
def VictimEdge.moved (root : String → String) (e : VictimEdge) : String × String :=
  (root e.src, e.dst)

/-- The pair a rewiring creates. -/
def Rewiring.ends (m : Rewiring) : String × String := (m.survivor, m.edge.dst)

/-! ## Duplicate rows -/

variable {seen : List (String × String)} {es : List VictimEdge}

theorem splitRows_perm (seen : List (String × String)) (es : List VictimEdge) :
    ((splitRows seen es).1.map VictimEdge.uuid ++ (splitRows seen es).2).Perm
      (es.map VictimEdge.uuid) := by
  induction es generalizing seen with
  | nil => exact List.Perm.refl _
  | cons e es ih =>
    rw [splitRows, List.map_cons]
    split
    · exact List.perm_middle.trans ((ih seen).cons _)
    · exact (ih _).cons _

theorem splitRows_sublist (seen : List (String × String)) (es : List VictimEdge) :
    (splitRows seen es).1.Sublist es := by
  induction es generalizing seen with
  | nil => exact List.Sublist.refl _
  | cons e es ih =>
    rw [splitRows]
    split
    · exact (ih seen).cons e
    · exact (ih _).cons_cons e

/-- The pairs of the first rows are the pairs of all rows. -/
theorem mem_ends_splitRows {p : String × String} :
    p ∈ (splitRows seen es).1.map VictimEdge.ends ↔ p ∈ es.map VictimEdge.ends ∧ p ∉ seen := by
  induction es generalizing seen with
  | nil => simp [splitRows]
  | cons e es ih =>
    have hends : (e.src, e.dst) = e.ends := rfl
    rw [splitRows, hends]
    split
    · next hseen =>
      rw [ih, List.map_cons, List.mem_cons]
      constructor
      · exact fun h => ⟨.inr h.1, h.2⟩
      · rintro ⟨rfl | h, hp⟩
        · exact absurd hseen hp
        · exact ⟨h, hp⟩
    · next hseen =>
      rw [List.map_cons, List.mem_cons, ih, List.map_cons, List.mem_cons, List.mem_cons, not_or]
      constructor
      · rintro (rfl | ⟨h, -, hp⟩)
        · exact ⟨.inl rfl, hseen⟩
        · exact ⟨.inr h, hp⟩
      · rintro ⟨rfl | h, hp⟩
        · exact .inl rfl
        · by_cases hpe : p = e.ends
          · exact .inl hpe
          · exact .inr ⟨h, hpe, hp⟩

theorem nodup_ends_splitRows (seen : List (String × String)) (es : List VictimEdge) :
    ((splitRows seen es).1.map VictimEdge.ends).Nodup := by
  induction es generalizing seen with
  | nil => exact List.nodup_nil
  | cons e es ih =>
    rw [splitRows]
    split
    · exact ih seen
    · rw [List.map_cons, List.nodup_cons]
      refine ⟨fun h => ?_, ih _⟩
      exact (mem_ends_splitRows.mp h).2 List.mem_cons_self

/-! ## What becomes of the others -/

variable {root : String → String} {targets created : List (String × String)}

/-- Every row that has a survivor goes one way. -/
theorem classify_perm_filter (root : String → String) (targets created : List (String × String))
    (es : List VictimEdge) :
    ((classify root targets created es).toDrop ++
      (classify root targets created es).survivorDedupe ++
      (classify root targets created es).toCreate.map fun m => m.edge.uuid).Perm
        ((es.filter fun e => root e.src ≠ e.src).map VictimEdge.uuid) := by
  induction es generalizing created with
  | nil => exact List.Perm.refl _
  | cons e es ih =>
    rw [classify]
    split
    · next hsrc =>
      rw [List.filter_cons_of_neg (by simp [hsrc])]
      exact ih created
    · next hsrc =>
      rw [List.filter_cons_of_pos (by simp [hsrc]), List.map_cons]
      split
      · exact (ih created).cons _
      · split
        · simp only [List.append_assoc, List.cons_append]
          exact List.perm_middle.trans (by simpa using (ih created).cons e.uuid)
        · rw [List.map_cons]
          exact List.perm_middle.trans ((ih _).cons _)

/-- Every row of a victim goes one way. -/
theorem classify_perm (hroot : ∀ e ∈ es, root e.src ≠ e.src) :
    ((classify root targets created es).toDrop ++
      (classify root targets created es).survivorDedupe ++
      (classify root targets created es).toCreate.map fun m => m.edge.uuid).Perm
        (es.map VictimEdge.uuid) := by
  have h := classify_perm_filter root targets created es
  rwa [List.filter_eq_self.mpr fun e he => decide_eq_true (hroot e he)] at h

/-- A row to create is one of the rows, for its survivor. -/
theorem of_mem_toCreate {m : Rewiring} (hm : m ∈ (classify root targets created es).toCreate) :
    m.edge ∈ es ∧ m.survivor = root m.edge.src ∧ m.survivor ≠ m.edge.src ∧
      m.ends ∉ targets ∧ m.ends ∉ created := by
  induction es generalizing created with
  | nil => cases hm
  | cons e es ih =>
    have lift : ∀ {created' : List (String × String)},
        m ∈ (classify root targets created' es).toCreate →
          (∀ p ∈ created, p ∈ created') → m.edge ∈ e :: es ∧ m.survivor = root m.edge.src ∧
            m.survivor ≠ m.edge.src ∧ m.ends ∉ targets ∧ m.ends ∉ created := by
      intro created' hm hsub
      obtain ⟨h₁, h₂, h₃, h₄, h₅⟩ := ih hm
      exact ⟨List.mem_cons_of_mem e h₁, h₂, h₃, h₄, fun h => h₅ (hsub _ h)⟩
    rw [classify] at hm
    split at hm
    · exact lift hm fun _ => id
    · next hsrc =>
      split at hm
      · exact lift hm fun _ => id
      · next htarget =>
        split at hm
        · exact lift hm fun _ => id
        · next hcreated =>
          rcases List.mem_cons.mp hm with rfl | hm
          · exact ⟨List.mem_cons_self, rfl, hsrc, htarget, hcreated⟩
          · exact lift hm fun _ => List.mem_cons_of_mem _

/-- The survivor gets each target it lacks. -/
theorem mem_ends_toCreate {e : VictimEdge} (he : e ∈ es) (hsrc : root e.src ≠ e.src)
    (htarget : e.moved root ∉ targets) (hcreated : e.moved root ∉ created) :
    e.moved root ∈ (classify root targets created es).toCreate.map Rewiring.ends := by
  induction es generalizing created with
  | nil => cases he
  | cons e' es ih =>
    have hmoved : ∀ e : VictimEdge, (root e.src, e.dst) = e.moved root := fun _ => rfl
    rw [classify, hmoved]
    rcases List.mem_cons.mp he with rfl | he
    · rw [if_neg hsrc, if_neg htarget, if_neg hcreated]
      exact List.mem_cons_self
    · split
      · exact ih he hcreated
      · split
        · exact ih he hcreated
        · split
          · exact ih he hcreated
          · rw [List.map_cons]
            by_cases hp : e.moved root = e'.moved root
            · rw [hp]
              exact List.mem_cons_self
            · refine List.mem_cons_of_mem _ (ih he ?_)
              rw [List.mem_cons, not_or]
              exact ⟨hp, hcreated⟩

theorem nodup_ends_toCreate (created : List (String × String)) (es : List VictimEdge) :
    ((classify root targets created es).toCreate.map Rewiring.ends).Nodup := by
  induction es generalizing created with
  | nil => exact List.nodup_nil
  | cons e es ih =>
    rw [classify]
    split
    · exact ih _
    · split
      · exact ih _
      · split
        · exact ih _
        · rw [List.map_cons, List.nodup_cons]
          refine ⟨fun h => ?_, ih _⟩
          obtain ⟨m, hm, heq⟩ := List.mem_map.mp h
          exact (of_mem_toCreate hm).2.2.2.2 (heq ▸ List.mem_cons_self)

/-- The dropped rows are those whose survivor has the target already. -/
theorem length_toDrop (hroot : ∀ e ∈ es, root e.src ≠ e.src) :
    (classify root targets created es).toDrop.length =
      es.countP fun e => e.moved root ∈ targets := by
  induction es generalizing created with
  | nil => rfl
  | cons e es ih =>
    have hrest := fun e' he' => hroot e' (List.mem_cons_of_mem e he')
    have hmoved : (root e.src, e.dst) = e.moved root := rfl
    rw [classify, hmoved, if_neg (hroot e List.mem_cons_self), List.countP_cons]
    split
    · next h =>
      rw [if_pos (decide_eq_true h), ← ih hrest]
      rfl
    · next h =>
      rw [if_neg fun hc => h (of_decide_eq_true hc)]
      split <;> exact ih hrest

/-! ## The counts -/

/-- There are as many first rows as pairs. -/
theorem length_splitRows (es : List VictimEdge) :
    (splitRows [] es).1.length = (es.map VictimEdge.ends).toFinset.card := by
  rw [← List.length_map VictimEdge.ends, ← List.toFinset_card_of_nodup (nodup_ends_splitRows [] es)]
  congr 1
  ext p
  simp [mem_ends_splitRows]

/-- As many of them are dropped as pairs have a target their survivor has. -/
theorem length_toDrop_splitRows (hroot : ∀ e ∈ es, root e.src ≠ e.src) :
    (classify root targets created (splitRows [] es).1).toDrop.length =
      ((es.map VictimEdge.ends).toFinset.filter fun p => (root p.1, p.2) ∈ targets).card := by
  rw [length_toDrop fun e he => hroot e ((splitRows_sublist [] es).subset he)]
  have hcount : (fun e : VictimEdge => decide (e.moved root ∈ targets)) =
      (fun p => decide ((root p.1, p.2) ∈ targets)) ∘ VictimEdge.ends := rfl
  rw [hcount, ← List.countP_map, List.countP_eq_length_filter,
    ← List.toFinset_card_of_nodup ((nodup_ends_splitRows [] es).filter _)]
  congr 1
  ext p
  simp [mem_ends_splitRows]

/-- As many are created as targets the survivors lack. -/
theorem length_toCreate_splitRows (hroot : ∀ e ∈ es, root e.src ≠ e.src) :
    (classify root targets [] (splitRows [] es).1).toCreate.length =
      ((es.map (VictimEdge.moved root)).toFinset \ targets.toFinset).card := by
  rw [← List.length_map Rewiring.ends, ← List.toFinset_card_of_nodup (nodup_ends_toCreate [] _)]
  congr 1
  ext p
  simp only [List.mem_toFinset, Finset.mem_sdiff]
  constructor
  · intro hp
    obtain ⟨m, hm, rfl⟩ := List.mem_map.mp hp
    obtain ⟨hedge, hsurv, -, htarget, -⟩ := of_mem_toCreate hm
    refine ⟨List.mem_map.mpr ⟨m.edge, (splitRows_sublist [] es).subset hedge, ?_⟩, htarget⟩
    rw [Rewiring.ends, hsurv]
    rfl
  · rintro ⟨hp, htarget⟩
    obtain ⟨e, he, rfl⟩ := List.mem_map.mp hp
    -- the first row with the same ends
    obtain ⟨e', he', hends⟩ := List.mem_map.mp
      (mem_ends_splitRows.mpr ⟨List.mem_map_of_mem he, List.not_mem_nil⟩)
    obtain ⟨hsrc, hdst⟩ := Prod.mk.inj hends
    have hmoved : e'.moved root = e.moved root := by
      rw [VictimEdge.moved, VictimEdge.moved, hsrc, hdst]
    rw [← hmoved] at htarget ⊢
    exact mem_ends_toCreate he' (hsrc ▸ hroot e he) htarget List.not_mem_nil

/-- How many rows go which way does not depend on the order the rows come in. -/
theorem classify_counts {es' : List VictimEdge} {targets' : List (String × String)}
    (hroot : ∀ e ∈ es, root e.src ≠ e.src) (hes : es.Perm es')
    (htargets : ∀ p, p ∈ targets ↔ p ∈ targets') :
    (splitRows [] es).2.length = (splitRows [] es').2.length ∧
    (classify root targets [] (splitRows [] es).1).toCreate.length =
      (classify root targets' [] (splitRows [] es').1).toCreate.length ∧
    (classify root targets [] (splitRows [] es).1).toDrop.length =
      (classify root targets' [] (splitRows [] es').1).toDrop.length ∧
    (classify root targets [] (splitRows [] es).1).survivorDedupe.length =
      (classify root targets' [] (splitRows [] es').1).survivorDedupe.length := by
  have hroot' : ∀ e ∈ es', root e.src ≠ e.src := fun e he => hroot e (hes.mem_iff.mpr he)
  have hsets : ∀ f : VictimEdge → String × String, (es.map f).toFinset = (es'.map f).toFinset :=
    fun f => List.toFinset_eq_of_perm _ _ (hes.map f)
  have hunique : (splitRows [] es).1.length = (splitRows [] es').1.length := by
    rw [length_splitRows, length_splitRows, hsets]
  have hdups : (splitRows [] es).2.length = (splitRows [] es').2.length := by
    have h := (splitRows_perm [] es).length_eq
    have h' := (splitRows_perm [] es').length_eq
    have hlen := hes.length_eq
    simp only [List.length_append, List.length_map] at h h'
    omega
  have hcreate : (classify root targets [] (splitRows [] es).1).toCreate.length =
      (classify root targets' [] (splitRows [] es').1).toCreate.length := by
    rw [length_toCreate_splitRows hroot, length_toCreate_splitRows hroot', hsets]
    congr 2
    ext p
    simp [htargets p]
  have hdrop : (classify root targets [] (splitRows [] es).1).toDrop.length =
      (classify root targets' [] (splitRows [] es').1).toDrop.length := by
    rw [length_toDrop_splitRows hroot, length_toDrop_splitRows hroot', hsets]
    congr 2
    ext p
    simp [htargets]
  refine ⟨hdups, hcreate, hdrop, ?_⟩
  have h := (@classify_perm _ root targets []
    fun e he => hroot e ((splitRows_sublist [] es).subset he)).length_eq
  have h' := (@classify_perm _ root targets' []
    fun e he => hroot' e ((splitRows_sublist [] es').subset he)).length_eq
  simp only [List.length_append, List.length_map] at h h'
  omega

end JanusGraph
