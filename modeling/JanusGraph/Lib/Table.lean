import Mathlib.Data.List.Nodup
import Mathlib.Data.List.Sort

/-!
# Tables with a primary key

A table is its list of rows, key first, with the key distinctness carried as a
field: no operation can build a table that breaks its primary key. Rows keep
their insertion order, which is all a `SELECT` without `ORDER BY` can rely on.

Proofs go through `Table.get?`, the row stored under a key, and through the
`get?` equation of each operation.
-/

/-- A table with primary keys in `κ` and the other columns in `ρ`. -/
@[ext] structure Table (κ ρ : Type) where
  /-- the rows, oldest first -/
  rows : List (κ × ρ)
  /-- the primary key -/
  nodup : (rows.map Prod.fst).Nodup

namespace Table

variable {κ ρ : Type}

/-- The table without rows. -/
def empty : Table κ ρ := ⟨[], List.nodup_nil⟩

/-- `UPDATE` without a `WHERE`: rewrite the columns of every row. -/
def map (t : Table κ ρ) (f : κ → ρ → ρ) : Table κ ρ :=
  ⟨t.rows.map fun p => (p.1, f p.1 p.2), by
    rw [List.map_map]
    exact t.nodup⟩

/-- The keys, oldest first. -/
def keys (t : Table κ ρ) : List κ := t.rows.map Prod.fst

/-- `{k: f(k) for k in keys}` of a dict. -/
def ofKeys (keys : List κ) (h : keys.Nodup) (f : κ → ρ) : Table κ ρ :=
  ⟨keys.map fun k => (k, f k), by
    rw [List.map_map]
    exact h.map_on fun _ _ _ _ heq => heq⟩

@[simp] theorem keys_ofKeys (keys : List κ) (h : keys.Nodup) (f : κ → ρ) :
    (ofKeys keys h f).keys = keys := by
  rw [Table.keys, ofKeys, List.map_map]
  exact List.map_id keys

instance [DecidableEq κ] [DecidableEq ρ] : DecidableEq (Table κ ρ) := fun t t' =>
  decidable_of_iff (t.rows = t'.rows) Table.ext_iff.symm

@[simp] theorem keys_map (t : Table κ ρ) (f : κ → ρ → ρ) : (t.map f).keys = t.keys := by
  rw [keys, keys, map, List.map_map]
  rfl

variable [DecidableEq κ]

/-- The row stored under a key. -/
def get? (t : Table κ ρ) (k : κ) : Option ρ :=
  (t.rows.find? fun p => p.1 = k).map Prod.snd

/-- `UPDATE … WHERE key = k`. -/
def modify (t : Table κ ρ) (k : κ) (f : ρ → ρ) : Table κ ρ :=
  t.map fun k' r => if k' = k then f r else r

@[simp] theorem keys_modify (t : Table κ ρ) (k : κ) (f : ρ → ρ) : (t.modify k f).keys = t.keys :=
  t.keys_map _

/-- `DELETE … WHERE key = k`. -/
def erase (t : Table κ ρ) (k : κ) : Table κ ρ :=
  ⟨t.rows.filter fun p => p.1 ≠ k, (List.filter_sublist.map _).nodup t.nodup⟩

/-- `INSERT OR REPLACE`: the old row under the key goes, the new one is last. -/
def put (t : Table κ ρ) (k : κ) (r : ρ) : Table κ ρ :=
  ⟨(t.erase k).rows ++ [(k, r)], by
    simp only [List.map_append, List.map_cons, List.map_nil]
    refine List.nodup_append.mpr ⟨(t.erase k).nodup, List.nodup_singleton _, ?_⟩
    rintro a ha b hb rfl
    obtain ⟨p, hp, rfl⟩ := List.mem_map.mp ha
    simp only [List.mem_singleton] at hb
    simp [erase, hb] at hp⟩

/-- `DELETE … WHERE`: keep the rows that satisfy `p`. -/
def filter (t : Table κ ρ) (p : κ → ρ → Bool) : Table κ ρ :=
  ⟨t.rows.filter fun r => p r.1 r.2, (List.filter_sublist.map _).nodup t.nodup⟩

/-- `d[key] = f(d.get(key))` of a dict: in place, or at the end if the key is new. -/
def upsert (t : Table κ ρ) (k : κ) (f : Option ρ → ρ) : Table κ ρ :=
  match t.get? k with
  | some r => t.modify k fun _ => f (some r)
  | none => t.put k (f none)

/-- A row is in the table exactly when its key looks it up. -/
theorem mem_rows {t : Table κ ρ} {k : κ} {r : ρ} :
    (k, r) ∈ t.rows ↔ t.get? k = some r := by
  obtain ⟨rows, nodup⟩ := t
  simp only [get?]
  induction rows with
  | nil => simp
  | cons p rows ih =>
    obtain ⟨k', r'⟩ := p
    simp only [List.map_cons, List.nodup_cons] at nodup
    by_cases hk : k' = k
    · subst hk
      have hno : (k', r) ∉ rows := fun hmem => nodup.1 (List.mem_map_of_mem hmem)
      simp [hno, eq_comm]
    · simp [hk, Ne.symm hk, ih nodup.2]

theorem get?_eq_none {t : Table κ ρ} {k : κ} : t.get? k = none ↔ ∀ p ∈ t.rows, p.1 ≠ k := by
  simp [get?]

/-- Tables look up equal rows when their rows satisfy the same description. -/
theorem get?_eq_of_mem_iff {t : Table κ ρ} {k : κ} {o : Option ρ}
    (h : ∀ r, (k, r) ∈ t.rows ↔ o = some r) : t.get? k = o := by
  cases o with
  | none =>
    rw [get?_eq_none]
    rintro ⟨k', r⟩ hp rfl
    exact absurd ((h r).mp hp) (by simp)
  | some r => exact mem_rows.mp ((h r).mpr rfl)

@[simp] theorem get?_empty (k : κ) : (empty : Table κ ρ).get? k = none := rfl

@[simp] theorem get?_map (t : Table κ ρ) (f : κ → ρ → ρ) (k : κ) :
    (t.map f).get? k = (t.get? k).map (f k) := by
  apply get?_eq_of_mem_iff
  intro r
  simp only [map, List.mem_map, Prod.mk.injEq, Option.map_eq_some_iff, ← mem_rows]
  constructor
  · rintro ⟨⟨k', r'⟩, hmem, rfl, rfl⟩
    exact ⟨r', hmem, rfl⟩
  · rintro ⟨r', hmem, rfl⟩
    exact ⟨(k, r'), hmem, rfl, rfl⟩

theorem get?_modify (t : Table κ ρ) (k k' : κ) (f : ρ → ρ) :
    (t.modify k f).get? k' = if k' = k then (t.get? k').map f else t.get? k' := by
  rw [modify, get?_map]
  split <;> simp

@[simp] theorem get?_modify_self (t : Table κ ρ) (k : κ) (f : ρ → ρ) :
    (t.modify k f).get? k = (t.get? k).map f := by
  rw [get?_modify, if_pos rfl]

theorem get?_modify_ne (t : Table κ ρ) {k k' : κ} (f : ρ → ρ) (hne : k' ≠ k) :
    (t.modify k f).get? k' = t.get? k' := by
  rw [get?_modify, if_neg hne]

theorem get?_put (t : Table κ ρ) (k k' : κ) (r : ρ) :
    (t.put k r).get? k' = if k' = k then some r else t.get? k' := by
  apply get?_eq_of_mem_iff
  intro r'
  split
  · rename_i hk
    subst hk
    simp [put, erase, eq_comm]
  · rename_i hk
    simp [put, erase, hk, mem_rows]

@[simp] theorem get?_put_self (t : Table κ ρ) (k : κ) (r : ρ) : (t.put k r).get? k = some r := by
  rw [get?_put, if_pos rfl]

theorem get?_put_ne (t : Table κ ρ) {k k' : κ} (r : ρ) (hne : k' ≠ k) :
    (t.put k r).get? k' = t.get? k' := by
  rw [get?_put, if_neg hne]

/-- A row under a new key comes last. -/
theorem rows_put {t : Table κ ρ} {k : κ} (h : t.get? k = none) (r : ρ) :
    (t.put k r).rows = t.rows ++ [(k, r)] := by
  have hkeep : t.rows.filter (fun p => p.1 ≠ k) = t.rows :=
    List.filter_eq_self.mpr fun p hp => decide_eq_true (get?_eq_none.mp h p hp)
  change t.rows.filter (fun p => p.1 ≠ k) ++ [(k, r)] = _
  rw [hkeep]

theorem get?_upsert (t : Table κ ρ) (k k' : κ) (f : Option ρ → ρ) :
    (t.upsert k f).get? k' = if k' = k then some (f (t.get? k)) else t.get? k' := by
  rcases hk : t.get? k with _ | r
  · rw [upsert, hk]
    exact get?_put t k k' _
  · simp only [upsert, hk]
    rw [get?_modify]
    split
    · rename_i heq
      rw [heq, hk, Option.map_some]
    · rfl

theorem get?_filter (t : Table κ ρ) (p : κ → ρ → Bool) (k : κ) :
    (t.filter p).get? k = (t.get? k).filter (p k) := by
  apply get?_eq_of_mem_iff
  intro r
  rw [Option.filter_eq_some_iff, ← mem_rows]
  exact List.mem_filter

theorem get?_ofKeys (keys : List κ) (h : keys.Nodup) (f : κ → ρ) (k : κ) :
    (ofKeys keys h f).get? k = if k ∈ keys then some (f k) else none := by
  apply get?_eq_of_mem_iff
  intro r
  simp only [ofKeys, List.mem_map, Prod.mk.injEq]
  constructor
  · rintro ⟨k', hk', rfl, rfl⟩
    rw [if_pos hk']
  · intro hr
    split at hr
    · rename_i hk
      exact ⟨k, hk, rfl, Option.some.inj hr⟩
    · cases hr

/-- A key is in the table exactly when it looks up a row. -/
theorem mem_keys {t : Table κ ρ} {k : κ} : k ∈ t.keys ↔ ∃ r, t.get? k = some r := by
  simp only [keys, List.mem_map, Prod.exists, exists_and_right, exists_eq_right, mem_rows]

theorem get?_of_not_mem_keys {t : Table κ ρ} {k : κ} (h : k ∉ t.keys) : t.get? k = none := by
  rw [← Option.not_isSome_iff_eq_none, Option.isSome_iff_exists]
  exact mt mem_keys.mpr h

/-- A table is its keys and what it looks up. -/
theorem ext_get? {t t' : Table κ ρ} (hkeys : t.keys = t'.keys)
    (h : ∀ k ∈ t.keys, t.get? k = t'.get? k) : t = t' := by
  have hrows : ∀ t : Table κ ρ, t.rows = t.keys.filterMap fun k => (t.get? k).map fun r => (k, r) := by
    intro t
    rw [keys, List.filterMap_map]
    conv_lhs => rw [← List.filterMap_some (l := t.rows)]
    refine List.filterMap_congr fun p hp => ?_
    rw [Function.comp_apply, mem_rows.mp hp, Option.map_some]
  apply Table.ext
  rw [hrows t, hrows t', ← hkeys]
  exact List.filterMap_congr fun k hk => by rw [h k hk]

/-- Updating a key that is there keeps the keys. -/
theorem keys_upsert {t : Table κ ρ} {k : κ} (h : k ∈ t.keys) (f : Option ρ → ρ) :
    (t.upsert k f).keys = t.keys := by
  obtain ⟨r, hr⟩ := mem_keys.mp h
  simp only [upsert, hr]
  exact t.keys_modify k _

theorem keys_erase (t : Table κ ρ) (k : κ) : (t.erase k).keys = t.keys.filter (· ≠ k) := by
  rw [keys, keys, erase, List.filter_map]
  rfl

theorem get?_erase (t : Table κ ρ) (k k' : κ) :
    (t.erase k).get? k' = if k' = k then none else t.get? k' := by
  apply get?_eq_of_mem_iff
  intro r
  simp only [erase, List.mem_filter, mem_rows]
  split
  · next hk => simp [hk]
  · next hk => simp [hk]

/-- A new key comes last. -/
theorem keys_upsert_new {t : Table κ ρ} {k : κ} (h : k ∉ t.keys) (f : Option ρ → ρ) :
    (t.upsert k f).keys = t.keys ++ [k] := by
  have hrest : (t.erase k).keys = t.keys := by
    rw [keys_erase]
    exact List.filter_eq_self.mpr fun k' hk' => by
      rw [decide_eq_true_eq]
      rintro rfl
      exact h hk'
  rw [upsert, get?_of_not_mem_keys h]
  conv_rhs => rw [← hrest]
  simp [put, keys]

/-! ## The order of a dict -/

/-- `d.move_to_end(k)`, of a key that is there -/
def moveToEnd (t : Table κ ρ) (k : κ) : Table κ ρ :=
  match t.get? k with
  | some r => t.put k r
  | none => t

omit [DecidableEq κ] in
/-- `d.popitem(last=False)`, of a dict that is not empty -/
def popFirst (t : Table κ ρ) : Table κ ρ :=
  ⟨t.rows.tail, ((List.tail_sublist _).map _).nodup t.nodup⟩

theorem keys_put (t : Table κ ρ) (k : κ) (r : ρ) :
    (t.put k r).keys = t.keys.filter (· ≠ k) ++ [k] := by
  rw [← keys_erase, put, keys, List.map_append]
  rfl

omit [DecidableEq κ] in
@[simp] theorem keys_popFirst (t : Table κ ρ) : t.popFirst.keys = t.keys.tail :=
  List.map_tail

omit [DecidableEq κ] in
@[simp] theorem length_keys (t : Table κ ρ) : t.keys.length = t.rows.length := List.length_map _

/-- Moving a key to the end and setting it is setting it at the end. -/
theorem upsert_moveToEnd {t : Table κ ρ} {k : κ} (h : k ∈ t.keys) (r : ρ) :
    (t.moveToEnd k).upsert k (fun _ => r) = t.put k r := by
  obtain ⟨r', hr'⟩ := mem_keys.mp h
  have hmoved : t.moveToEnd k = t.put k r' := by rw [moveToEnd, hr']
  have hkey : k ∈ (t.put k r').keys := mem_keys.mpr ⟨r', get?_put_self t k r'⟩
  rw [hmoved]
  refine ext_get? ?_ fun k' _ => ?_
  · rw [keys_upsert hkey, keys_put, keys_put]
  · rw [get?_upsert, get?_put, get?_put]
    split <;> rfl

/-- So is setting a new key. -/
theorem upsert_of_not_mem_keys {t : Table κ ρ} {k : κ} (h : k ∉ t.keys) (r : ρ) :
    t.upsert k (fun _ => r) = t.put k r := by
  rw [upsert, get?_of_not_mem_keys h]

/-! ## Grouping -/

/-- What a loop has put under a key that appends what it keeps of each element to the group of
its key. -/
theorem get?_groupedAs {α β : Type} (key : α → κ) (f : α → β) (l : List α)
    (groups : Table κ (List β)) (k : κ) :
    (l.foldl (fun groups a => groups.upsert (key a) fun group => group.getD [] ++ [f a])
      groups).get? k =
      if (l.filter fun a => key a = k) = [] then groups.get? k
      else some ((groups.get? k).getD [] ++ (l.filter fun a => key a = k).map f) := by
  induction l generalizing groups with
  | nil => simp
  | cons a l ih =>
    rw [List.foldl_cons, ih, get?_upsert]
    by_cases ha : key a = k
    · subst ha
      simp
    · simp [ha, Ne.symm ha]

/-- A group is what is kept of the elements with its key, in their order. -/
theorem mem_rows_groupedAs {α β : Type} {key : α → κ} {f : α → β} {l : List α} {k : κ}
    {group : List β} :
    (k, group) ∈ (l.foldl (fun groups a => groups.upsert (key a) fun group =>
      group.getD [] ++ [f a]) empty).rows ↔
      group = (l.filter fun a => key a = k).map f ∧ group ≠ [] := by
  rw [mem_rows, get?_groupedAs, get?_empty]
  split
  · next hnil =>
    rw [hnil]
    simp
  · next hne =>
    rw [Option.getD_none, List.nil_append, Option.some.injEq]
    constructor
    · rintro rfl
      exact ⟨rfl, mt List.map_eq_nil_iff.mp hne⟩
    · rintro ⟨rfl, -⟩
      rfl

/-- A group is the elements with its key, in their order. -/
theorem mem_rows_grouped {α : Type} {key : α → κ} {l : List α} {k : κ} {group : List α} :
    (k, group) ∈ (l.foldl (fun groups a => groups.upsert (key a) fun group => group.getD [] ++ [a])
      empty).rows ↔ group = (l.filter fun a => key a = k) ∧ group ≠ [] := by
  rw [← List.map_id (l.filter fun a => key a = k)]
  exact mem_rows_groupedAs

/-! ## Counting -/

/-- What a loop that counts the elements by their key has put under a key. -/
theorem get?_counted {α : Type} (key : α → κ) (l : List α) (counts : Table κ ℕ) (k : κ) :
    (l.foldl (fun counts a => counts.upsert (key a) fun count => count.getD 0 + 1)
      counts).get? k =
      if l.countP (fun a => key a = k) = 0 then counts.get? k
      else some ((counts.get? k).getD 0 + l.countP fun a => key a = k) := by
  induction l generalizing counts with
  | nil => rfl
  | cons a l ih =>
    rw [List.foldl_cons, ih, get?_upsert]
    by_cases ha : key a = k
    · subst ha
      simp only [if_true, Option.getD_some, List.countP_cons, decide_true, Nat.add_eq_zero_iff,
        Nat.one_ne_zero, and_false, if_false]
      split
      · rename_i hzero
        rw [hzero]
      · rw [Nat.add_assoc, Nat.add_comm 1]
    · simp [ha, Ne.symm ha]

/-- A count is that of the elements with its key. -/
theorem mem_rows_counted {α : Type} {key : α → κ} {l : List α} {k : κ} {count : ℕ} :
    (k, count) ∈ (l.foldl (fun counts a => counts.upsert (key a) fun count => count.getD 0 + 1)
      empty).rows ↔ count = l.countP (fun a => key a = k) ∧ count ≠ 0 := by
  rw [mem_rows, get?_counted, get?_empty]
  split
  · rename_i hzero
    rw [hzero]
    simp
  · rename_i hne
    rw [Option.getD_none, Nat.zero_add, Option.some.injEq]
    constructor
    · rintro rfl
      exact ⟨rfl, hne⟩
    · rintro ⟨rfl, -⟩
      rfl

/-! ## Ordered selection -/

/-- `ORDER BY key ASC`, ties in the order of `rank`: SQL promises no order among
rows with equal keys, so the caller says which one it met. -/
def orderBy (key : κ × ρ → ℕ) (rank : κ → ℕ) (rows : List (κ × ρ)) : List (κ × ρ) :=
  rows.insertionSort fun a b => key a < key b ∨ key a = key b ∧ rank a.1 ≤ rank b.1

omit [DecidableEq κ] in
theorem orderBy_perm (key : κ × ρ → ℕ) (rank : κ → ℕ) (rows : List (κ × ρ)) :
    (orderBy key rank rows).Perm rows :=
  List.perm_insertionSort _ _

omit [DecidableEq κ] in
@[simp] theorem mem_orderBy {key : κ × ρ → ℕ} {rank : κ → ℕ} {rows : List (κ × ρ)}
    {p : κ × ρ} : p ∈ orderBy key rank rows ↔ p ∈ rows :=
  (orderBy_perm key rank rows).mem_iff

omit [DecidableEq κ] in
/-- The keys go up. -/
theorem pairwise_orderBy (key : κ × ρ → ℕ) (rank : κ → ℕ) (rows : List (κ × ρ)) :
    (orderBy key rank rows).Pairwise fun a b => key a ≤ key b := by
  have htotal : Std.Total fun a b : κ × ρ =>
      key a < key b ∨ key a = key b ∧ rank a.1 ≤ rank b.1 := ⟨fun a b => by omega⟩
  have htrans : IsTrans (κ × ρ) fun a b =>
      key a < key b ∨ key a = key b ∧ rank a.1 ≤ rank b.1 := ⟨fun a b c => by omega⟩
  refine (List.pairwise_insertionSort _ rows).imp ?_
  rintro a b (hlt | ⟨heq, -⟩)
  · exact hlt.le
  · exact heq.le

omit [DecidableEq κ] in
/-- Relations that agree on the rows sort them alike. -/
theorem insertionSort_congr {r s : κ × ρ → κ × ρ → Prop} [DecidableRel r] [DecidableRel s]
    {rows : List (κ × ρ)} (h : ∀ a ∈ rows, ∀ b ∈ rows, r a b ↔ s a b) :
    rows.insertionSort r = rows.insertionSort s := by
  have hinsert : ∀ (a : κ × ρ) (l : List (κ × ρ)), (∀ b ∈ l, r a b ↔ s a b) →
      l.orderedInsert r a = l.orderedInsert s a := by
    intro a l hl
    induction l with
    | nil => rfl
    | cons b l ih =>
      obtain ⟨hab, hrest⟩ := List.forall_mem_cons.mp hl
      rw [List.orderedInsert, List.orderedInsert, ih hrest]
      simp only [hab]
  induction rows with
  | nil => rfl
  | cons a rows ih =>
    have hrows := ih fun b hb c hc =>
      h b (List.mem_cons_of_mem _ hb) c (List.mem_cons_of_mem _ hc)
    rw [List.insertionSort_cons, List.insertionSort_cons, hrows]
    refine hinsert a _ fun b hb => h a List.mem_cons_self b (List.mem_cons_of_mem _ ?_)
    exact (List.mem_insertionSort s).mp hb

omit [DecidableEq κ] in
/-- Filtering, ordering and limiting the rows of a table keeps its keys
distinct: no row is selected twice. -/
theorem nodup_keys_of_sublist_perm {t : Table κ ρ} {l l' : List (κ × ρ)}
    (hsub : l.Sublist t.rows) (hperm : l'.Perm l) : (l'.map Prod.fst).Nodup :=
  (hperm.map _).nodup_iff.mpr ((hsub.map _).nodup t.nodup)

end Table
