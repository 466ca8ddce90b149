import JanusGraph.Graph.Schema

/-!
# Planning the episodic fold

`plan_episodic_exact_dups` of `pipeline/dedup.py`: episodes with the same name and
the same content fingerprint fold into the earliest of them. SHA-1 is a parameter.
-/

namespace JanusGraph

/-- A planned fold of `victimUuid` into `survivorUuid`. -/
structure EpisodicMerge : Type where
  name : String
  survivorUuid : String
  victimUuid : String
  contentLen : ℕ
  deriving DecidableEq

/-- `_content_key`, for the digest `sha1` -/
def contentKey (sha1 : String → String) (content : Option String) : String :=
  sha1 (content.getD "")

/-- The key the planner groups by. -/
def Node.planKey (sha1 : String → String) (n : Node) : String × String :=
  (n.name.getD "", contentKey sha1 n.content)

/-- What makes two episodes byte-identical: name and content, missing ones empty. -/
def Node.bytes (n : Node) : String × String := (n.name.getD "", n.content.getD "")

/-- `str(node.get("uuid") or "")` -/
def Node.uuidText (n : Node) : String := n.uuid.getD ""

/-- The order of `_pick_episodic_survivor`: `created_at`, then `uuid`. -/
def Node.before (a b : Node) : Prop :=
  a.createdAt.getD "" < b.createdAt.getD "" ∨
    a.createdAt.getD "" = b.createdAt.getD "" ∧ a.uuidText ≤ b.uuidText

instance : DecidableRel Node.before := fun a b => by
  unfold Node.before
  infer_instance

/-- `_pick_episodic_survivor` -/
def pickEpisodicSurvivor (nodes : List Node) : Option Node :=
  (nodes.insertionSort Node.before).head?

/-- `by_key` -/
def byKey (sha1 : String → String) (episodics : List Node) :
    Table (String × String) (List Node) :=
  episodics.foldl (fun groups n => groups.upsert (n.planKey sha1) fun nodes => nodes.getD [] ++ [n])
    Table.empty

/-- The merges of one group. -/
def mergesOf (name : String) (nodes : List Node) : List EpisodicMerge :=
  if nodes.length < 2 then []
  else
    match pickEpisodicSurvivor nodes with
    | none => []
    | some keeper =>
      (nodes.filter fun n => n.uuidText ≠ "" ∧ n.uuidText ≠ keeper.uuidText).map fun n =>
        { name
          survivorUuid := keeper.uuidText
          victimUuid := n.uuidText
          contentLen := (n.content.getD "").length }

/-- `plan_episodic_exact_dups` -/
def planEpisodicExactDups (sha1 : String → String) (episodics : List Node) : List EpisodicMerge :=
  (byKey sha1 episodics).rows.flatMap fun group => mergesOf group.1.1 group.2

/-! ## What a plan consists of -/

/-- A group is the episodes with its key, in their order. -/
theorem get?_byKey {sha1 : String → String} {episodics : List Node} {key : String × String}
    {nodes : List Node} (h : (byKey sha1 episodics).get? key = some nodes) :
    nodes = episodics.filter fun n => n.planKey sha1 = key := by
  exact (Table.mem_rows_grouped.mp (Table.mem_rows.mpr h)).1

/-- The keeper of a group is one of it. -/
theorem mem_of_pickEpisodicSurvivor {nodes : List Node} {keeper : Node}
    (h : pickEpisodicSurvivor nodes = some keeper) : keeper ∈ nodes :=
  (List.perm_insertionSort _ _).mem_iff.mp (List.mem_of_mem_head? h)

/-- A planned merge folds an episode into the keeper of the episodes with its key. -/
theorem of_mem_planEpisodicExactDups {sha1 : String → String} {episodics : List Node}
    {m : EpisodicMerge} (h : m ∈ planEpisodicExactDups sha1 episodics) :
    ∃ victim ∈ episodics, ∃ keeper,
      pickEpisodicSurvivor (episodics.filter fun n => n.planKey sha1 = victim.planKey sha1) =
        some keeper ∧
      victim.uuid = some m.victimUuid ∧ m.victimUuid ≠ "" ∧ m.victimUuid ≠ m.survivorUuid ∧
      keeper.uuidText = m.survivorUuid := by
  obtain ⟨⟨key, nodes⟩, hgroup, hm⟩ := List.mem_flatMap.mp h
  obtain rfl := get?_byKey (Table.mem_rows.mp hgroup)
  unfold mergesOf at hm
  split at hm
  · cases hm
  · split at hm
    · cases hm
    · next keeper hpick =>
      obtain ⟨victim, hvictim, rfl⟩ := List.mem_map.mp hm
      obtain ⟨hvictim, hcond⟩ := List.mem_filter.mp hvictim
      obtain ⟨hin, hkey⟩ := List.mem_filter.mp hvictim
      obtain ⟨hne, hne'⟩ : victim.uuidText ≠ "" ∧ victim.uuidText ≠ keeper.uuidText := by
        simpa using hcond
      obtain rfl : victim.planKey sha1 = key := by simpa using hkey
      refine ⟨victim, hin, keeper, hpick, ?_, hne, hne', rfl⟩
      rcases hu : victim.uuid with _ | u
      · simp [Node.uuidText, hu] at hne
      · simp [Node.uuidText, hu]

/-- Victim and survivor of a planned merge are two episodes of the list with one key. -/
theorem mem_planEpisodicExactDups {sha1 : String → String} {episodics : List Node}
    {m : EpisodicMerge} (h : m ∈ planEpisodicExactDups sha1 episodics) :
    ∃ victim ∈ episodics, ∃ keeper ∈ episodics, victim.planKey sha1 = keeper.planKey sha1 ∧
      victim.uuid = some m.victimUuid ∧ m.victimUuid ≠ "" ∧ keeper.uuidText = m.survivorUuid := by
  obtain ⟨victim, hin, keeper, hpick, huuid, hne, -, hkeeper⟩ := of_mem_planEpisodicExactDups h
  obtain ⟨hin', hkey⟩ := List.mem_filter.mp (mem_of_pickEpisodicSurvivor hpick)
  exact ⟨victim, hin, keeper, hin', (of_decide_eq_true hkey).symm, huuid, hne, hkeeper⟩

/-- Merges without chains: a victim has one survivor, and no survivor is a victim. -/
structure Direct (merges : List EpisodicMerge) : Prop where
  survivor_eq : ∀ m ∈ merges, ∀ m' ∈ merges,
    m.victimUuid = m'.victimUuid → m.survivorUuid = m'.survivorUuid
  not_victim : ∀ m ∈ merges, ∀ m' ∈ merges, m.survivorUuid ≠ m'.victimUuid

/-- What is planned for episodes that their uuids tell apart has no chains. -/
theorem direct_planEpisodicExactDups (sha1 : String → String) {episodics : List Node}
    (hinj : ∀ n ∈ episodics, ∀ n' ∈ episodics, n.uuid = n'.uuid → n = n') :
    Direct (planEpisodicExactDups sha1 episodics) where
  survivor_eq m hm m' hm' heq := by
    obtain ⟨v, hv, k, hk, huv, -, -, hku⟩ := of_mem_planEpisodicExactDups hm
    obtain ⟨v', hv', k', hk', huv', -, -, hku'⟩ := of_mem_planEpisodicExactDups hm'
    obtain rfl := hinj v hv v' hv' (by rw [huv, huv', heq])
    rw [← hku, ← hku', Option.some.inj (hk.symm.trans hk')]
  not_victim m hm m' hm' heq := by
    obtain ⟨v, hv, k, hk, -, -, -, hku⟩ := of_mem_planEpisodicExactDups hm
    obtain ⟨v', hv', k', hk', huv', hne', hne, hku'⟩ := of_mem_planEpisodicExactDups hm'
    obtain ⟨hin, hkey⟩ := List.mem_filter.mp (mem_of_pickEpisodicSurvivor hk)
    -- the keeper is the victim of the other merge, so both have one group
    have huuid : k.uuid = v'.uuid := by
      rw [huv', ← heq, ← hku]
      rcases hu : k.uuid with _ | u
      · refine absurd ?_ hne'
        rw [← heq, ← hku, Node.uuidText, hu]
        rfl
      · simp [Node.uuidText, hu]
    obtain rfl := hinj k hin v' hv' huuid
    rw [of_decide_eq_true hkey] at hk'
    obtain rfl := Option.some.inj (hk.symm.trans hk')
    exact hne (heq.symm.trans (hku.symm.trans hku'))

end JanusGraph
