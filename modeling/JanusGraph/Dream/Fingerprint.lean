import JanusGraph.Lib.Framing
import JanusGraph.Dream.Presentation

/-!
# The fingerprint of a partition

`partition_hash` writes the groups of a labelling into one text, without a mark between them:
a member may end in digits, and the count of the next group follows it at once. Where no member
contains the colon or the separator, the text still determines the partition (`Framing`), and
the partition determines the text, whatever the labels are.
-/

namespace JanusGraph

variable {L L' : Type}

/-- `canonical` of `partition_hash`, for labels of any kind -/
def canonicalGroups [DecidableEq L] (labels : Table String L) : List (List String) :=
  let groups := labels.rows.foldl (fun groups item =>
    groups.upsert item.2 fun group => group.getD [] ++ [item.1])
    (Table.empty : Table L (List String))
  sorted (groups.rows.map fun group => sorted group.2)

/-- `blob` of `partition_hash` -/
def partitionBlob [DecidableEq L] (labels : Table String L) : String :=
  String.join ((canonicalGroups labels).map fun group =>
    toString group.length ++ ":" ++ "\x1f".intercalate group)

/-- The two labellings have the same nodes, and divide them alike. -/
def SamePartition (labels : Table String L) (labels' : Table String L') : Prop :=
  (∀ u, u ∈ labels.keys ↔ u ∈ labels'.keys) ∧
    ∀ u ∈ labels.keys, ∀ v ∈ labels.keys,
      labels.get? u = labels.get? v ↔ labels'.get? u = labels'.get? v

/-- No node id contains the colon or the separator. -/
def PlainIds (labels : Table String L) : Prop :=
  ∀ u ∈ labels.keys, ':' ∉ u.toList ∧ '\x1f' ∉ u.toList

instance (labels : Table String L) : Decidable (PlainIds labels) :=
  inferInstanceAs (Decidable (∀ u ∈ labels.keys, ':' ∉ u.toList ∧ '\x1f' ∉ u.toList))

/-! ## The groups -/

/-- A sorted list of the nodes that share their label with one of them. -/
structure IsGroup (labels : Table String L) (group : List String) : Prop where
  sorted : group.Pairwise (· ≤ ·)
  nodup : group.Nodup
  members : ∃ u ∈ labels.keys, ∀ v, v ∈ group ↔ v ∈ labels.keys ∧ labels.get? v = labels.get? u

/-- Who is in a group, by any of its members. -/
theorem IsGroup.mem_iff {labels : Table String L} {g : List String} (h : IsGroup labels g)
    {u v : String} (hu : u ∈ g) : v ∈ g ↔ v ∈ labels.keys ∧ labels.get? v = labels.get? u := by
  obtain ⟨w, -, hw⟩ := h.members
  rw [hw, ((hw u).mp hu).2]

/-- A group is determined by any of its members. -/
theorem IsGroup.eq_of_mem {labels : Table String L} {g g' : List String} (h : IsGroup labels g)
    (h' : IsGroup labels g') {u : String} (hu : u ∈ g) (hu' : u ∈ g') : g = g' := by
  have hperm : g.Perm g' := (List.perm_ext_iff_of_nodup h.nodup h'.nodup).mpr fun v =>
    (h.mem_iff hu).trans (h'.mem_iff hu').symm
  exact hperm.eq_of_pairwise' h.sorted h'.sorted

theorem IsGroup.ne_nil {labels : Table String L} {g : List String} (h : IsGroup labels g) :
    g ≠ [] := by
  obtain ⟨u, hu, hmembers⟩ := h.members
  exact List.ne_nil_of_mem ((hmembers u).mpr ⟨hu, rfl⟩)

variable [DecidableEq L] [DecidableEq L']

/-- The nodes with a label, in the order of the labelling. -/
def membersOf (labels : Table String L) (label : L) : List String :=
  (labels.rows.filter fun item => item.2 = label).map Prod.fst

theorem mem_membersOf {labels : Table String L} {label : L} {u : String} :
    u ∈ membersOf labels label ↔ labels.get? u = some label := by
  rw [← Table.mem_rows]
  simp [membersOf]

theorem isGroup_sorted {labels : Table String L} {label : L} (h : membersOf labels label ≠ []) :
    IsGroup labels (sorted (membersOf labels label)) := by
  have hperm : (sorted (membersOf labels label)).Perm (membersOf labels label) :=
    List.perm_insertionSort _ _
  obtain ⟨u, hu⟩ := List.exists_mem_of_ne_nil _ h
  have hlabel := mem_membersOf.mp hu
  refine ⟨List.pairwise_insertionSort _ _, hperm.nodup_iff.mpr ?_, u,
    Table.mem_keys.mpr ⟨label, hlabel⟩, fun v => ?_⟩
  · exact labels.nodup.sublist (List.filter_sublist.map _)
  · rw [hperm.mem_iff, mem_membersOf, hlabel, Table.mem_keys]
    exact ⟨fun hv => ⟨⟨label, hv⟩, hv⟩, fun hv => hv.2⟩

theorem mem_canonicalGroups {labels : Table String L} {group : List String} :
    group ∈ canonicalGroups labels ↔ IsGroup labels group := by
  have hmem : group ∈ canonicalGroups labels ↔
      ∃ label, membersOf labels label ≠ [] ∧ sorted (membersOf labels label) = group := by
    rw [canonicalGroups, sorted, (List.perm_insertionSort _ _).mem_iff, List.mem_map]
    constructor
    · rintro ⟨⟨label, members⟩, hrow, rfl⟩
      obtain ⟨rfl, hne⟩ := Table.mem_rows_groupedAs.mp hrow
      exact ⟨label, hne, rfl⟩
    · rintro ⟨label, hne, rfl⟩
      exact ⟨(label, membersOf labels label), Table.mem_rows_groupedAs.mpr ⟨rfl, hne⟩, rfl⟩
  rw [hmem]
  constructor
  · rintro ⟨label, hne, rfl⟩
    exact isGroup_sorted hne
  · intro h
    obtain ⟨u, hu, hmembers⟩ := h.members
    obtain ⟨label, hlabel⟩ := Table.mem_keys.mp hu
    have huin := mem_membersOf.mpr hlabel
    refine ⟨label, List.ne_nil_of_mem huin, ?_⟩
    exact (isGroup_sorted (List.ne_nil_of_mem huin)).eq_of_mem h
      ((List.perm_insertionSort _ _).mem_iff.mpr huin) ((hmembers u).mpr ⟨hu, rfl⟩)

theorem nodup_canonicalGroups (labels : Table String L) : (canonicalGroups labels).Nodup := by
  rw [canonicalGroups, sorted, (List.perm_insertionSort _ _).nodup_iff]
  refine (List.Nodup.of_map _ (Table.nodup _)).map_on ?_
  rintro ⟨label, group⟩ hrow ⟨label', group'⟩ hrow' hsorted
  obtain ⟨rfl, hne⟩ := Table.mem_rows_groupedAs.mp hrow
  obtain ⟨rfl, -⟩ := Table.mem_rows_groupedAs.mp hrow'
  -- a member of both groups has one label
  obtain ⟨u, hu⟩ := List.exists_mem_of_ne_nil _ hne
  have hu' : u ∈ membersOf labels label' := by
    have hin : u ∈ sorted (membersOf labels label) := (List.perm_insertionSort _ _).mem_iff.mpr hu
    exact (List.perm_insertionSort _ _).mem_iff.mp (hsorted.subst (motive := (u ∈ ·)) hin)
  obtain rfl : label = label' :=
    Option.some.inj ((mem_membersOf.mp hu).symm.trans (mem_membersOf.mp hu'))
  rfl

theorem exists_isGroup {labels : Table String L} {u : String} (hu : u ∈ labels.keys) :
    ∃ g, IsGroup labels g ∧ u ∈ g := by
  obtain ⟨label, hlabel⟩ := Table.mem_keys.mp hu
  have huin := mem_membersOf.mpr hlabel
  exact ⟨_, isGroup_sorted (List.ne_nil_of_mem huin),
    (List.perm_insertionSort _ _).mem_iff.mpr huin⟩

omit [DecidableEq L] [DecidableEq L'] in
/-- Labellings with the same partition have the same groups. -/
theorem SamePartition.isGroup {labels : Table String L} {labels' : Table String L'}
    (h : SamePartition labels labels') {g : List String} (hg : IsGroup labels g) :
    IsGroup labels' g := by
  obtain ⟨u, hu, hmembers⟩ := hg.members
  refine ⟨hg.sorted, hg.nodup, u, (h.1 u).mp hu, fun v => (hmembers v).trans ?_⟩
  rw [← h.1 v]
  exact and_congr_right fun hv => h.2 v hv u hu

omit [DecidableEq L] [DecidableEq L'] in
theorem SamePartition.symm {labels : Table String L} {labels' : Table String L'}
    (h : SamePartition labels labels') : SamePartition labels' labels :=
  ⟨fun u => (h.1 u).symm, fun u hu v hv => (h.2 u ((h.1 u).mpr hu) v ((h.1 v).mpr hv)).symm⟩

/-- What the groups say of a labelling is its partition. -/
theorem canonicalGroups_eq_iff {labels : Table String L} {labels' : Table String L'} :
    canonicalGroups labels = canonicalGroups labels' ↔ SamePartition labels labels' := by
  constructor
  · intro h
    have hgroup : ∀ {g}, IsGroup labels g ↔ IsGroup labels' g := by
      intro g
      rw [← mem_canonicalGroups, ← mem_canonicalGroups, h]
    refine ⟨fun u => ⟨fun hu => ?_, fun hu => ?_⟩, fun u hu v hv => ?_⟩
    · obtain ⟨g, hg, hug⟩ := exists_isGroup hu
      exact (((hgroup.mp hg).mem_iff hug).mp hug).1
    · obtain ⟨g, hg, hug⟩ := exists_isGroup hu
      exact (((hgroup.mpr hg).mem_iff hug).mp hug).1
    · obtain ⟨g, hg, hvg⟩ := exists_isGroup hv
      have hleft := hg.mem_iff hvg (v := u)
      have hright := (hgroup.mp hg).mem_iff hvg (v := u)
      constructor
      · exact fun hlabel => (hright.mp (hleft.mpr ⟨hu, hlabel⟩)).2
      · obtain ⟨g', hg', hug'⟩ := exists_isGroup hu
        have hu' := (((hgroup.mp hg').mem_iff hug').mp hug').1
        exact fun hlabel => (hleft.mp (hright.mpr ⟨hu', hlabel⟩)).2
  · intro h
    have hperm : (canonicalGroups labels).Perm (canonicalGroups labels') := by
      refine (List.perm_ext_iff_of_nodup (nodup_canonicalGroups _) (nodup_canonicalGroups _)).mpr
        fun g => ?_
      rw [mem_canonicalGroups, mem_canonicalGroups]
      exact ⟨h.isGroup, h.symm.isGroup⟩
    exact hperm.eq_of_pairwise' (List.pairwise_insertionSort _ _) (List.pairwise_insertionSort _ _)

/-! ## The text -/

/-- A count has no colon in it. -/
theorem colon_not_mem_toString (n : ℕ) : ':' ∉ (toString n).toList := by
  intro h
  have hdigit : (':' : Char).isDigit = true :=
    Nat.isDigit_of_mem_toDigits (b := 10) (n := n) (by decide) (by decide) (by simpa [Nat.repr] using h)
  exact absurd hdigit (by decide)

/-- The blob is a sequence of frames. -/
theorem toList_partitionBlob (labels : Table String L) :
    (partitionBlob labels).toList = Framing.frames ':' (fun g => (toString g.length).toList)
      (fun g => ['\x1f'].intercalate (g.map String.toList)) (canonicalGroups labels) := by
  rw [partitionBlob, String.toList_join, List.flatMap_map]
  refine congrArg (List.flatMap · _) (funext fun g => ?_)
  rw [String.toList_append, String.toList_append, String.toList_intercalate, List.append_assoc]
  rfl

/-- A letter of a joined text is the separator or a letter of a part. -/
theorem mem_intercalate {sep c : Char} {parts : List (List Char)}
    (h : c ∈ [sep].intercalate parts) : c = sep ∨ ∃ part ∈ parts, c ∈ part := by
  induction parts with
  | nil => cases h
  | cons part parts ih =>
    rcases parts with _ | ⟨next, parts⟩
    · exact .inr ⟨part, List.mem_cons_self, by simpa using h⟩
    · rw [List.intercalate_cons_cons, List.mem_append, List.mem_append, List.mem_singleton] at h
      rcases h with (h | h) | h
      · exact .inr ⟨part, List.mem_cons_self, h⟩
      · exact .inl h
      · exact (ih h).imp_right fun ⟨q, hq, hc⟩ => ⟨q, List.mem_cons_of_mem _ hq, hc⟩

/-- A group that can be read back from its joined members. -/
def PlainGroup (g : List String) : Prop :=
  g ≠ [] ∧ ∀ u ∈ g, ':' ∉ u.toList ∧ '\x1f' ∉ u.toList

theorem PlainGroup.colon_not_mem {g : List String} (h : PlainGroup g) :
    ':' ∉ ['\x1f'].intercalate (g.map String.toList) := by
  intro hmem
  rcases mem_intercalate hmem with hsep | ⟨part, hpart, hc⟩
  · exact absurd hsep (by decide)
  · obtain ⟨u, hu, rfl⟩ := List.mem_map.mp hpart
    exact (h.2 u hu).1 hc

theorem PlainGroup.eq_of_intercalate {g g' : List String} (h : PlainGroup g) (h' : PlainGroup g')
    (heq : ['\x1f'].intercalate (g.map String.toList) =
      ['\x1f'].intercalate (g'.map String.toList)) : g = g' := by
  have hsplit : ∀ {g : List String}, PlainGroup g →
      (['\x1f'].intercalate (g.map String.toList)).splitOn '\x1f' = g.map String.toList := by
    intro g hg
    refine List.splitOn_intercalate _ ?_ (mt List.map_eq_nil_iff.mp hg.1)
    rintro _ hpart
    obtain ⟨u, hu, rfl⟩ := List.mem_map.mp hpart
    exact (hg.2 u hu).2
  refine List.map_injective_iff.mpr (fun u v huv => String.toList_inj.mp huv) ?_
  rw [← hsplit h, ← hsplit h', heq]

theorem PlainIds.plainGroup {labels : Table String L} (h : PlainIds labels) :
    ∀ g ∈ canonicalGroups labels, PlainGroup g := by
  intro g hg
  have hgroup := mem_canonicalGroups.mp hg
  exact ⟨hgroup.ne_nil, fun u hu => h u ((hgroup.mem_iff hu).mp hu).1⟩

/-- **The fingerprint's preimage.** Two labellings whose ids contain neither the colon nor the
separator have the same blob if and only if they divide the same nodes alike. -/
theorem partitionBlob_eq_iff (labels : Table String L) (labels' : Table String L')
    (h : PlainIds labels) (h' : PlainIds labels') :
    partitionBlob labels = partitionBlob labels' ↔ SamePartition labels labels' := by
  rw [← canonicalGroups_eq_iff]
  refine ⟨fun hblob => ?_, fun hgroups => by rw [partitionBlob, partitionBlob, hgroups]⟩
  have hframes := congrArg String.toList hblob
  rw [toList_partitionBlob, toList_partitionBlob] at hframes
  exact Framing.frames_inj (fun g _ => colon_not_mem_toString g.length)
    (fun g => PlainGroup.colon_not_mem) (fun g g' => PlainGroup.eq_of_intercalate)
    h.plainGroup h'.plainGroup hframes

/-- A group whose last member ends in a digit, and one whose count begins with it. -/
theorem partitionBlob_eq_iff_digits :
    partitionBlob (Table.ofKeys ["a1", "b"] (by decide) fun u => if u = "b" then -1 else (7 : ℤ)) ≠
      partitionBlob (Table.ofKeys ["a", "b"] (by decide) fun _ => true) := by
  refine mt (partitionBlob_eq_iff _ _ (by decide) (by decide)).mp fun h => ?_
  exact absurd ((h.1 "a1").mp (by decide)) (by decide)

end JanusGraph
