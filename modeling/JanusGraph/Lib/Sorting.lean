import Mathlib.Data.List.Sort

/-!
# Sorting by a comparison

A stable sort does what it is expected to do under a comparison that orders its items. Under
any other (one of the keys is not a number, say) it only rearranges them. `Sorter` is a
function of this kind, and `Sorter.forall_take_iff` says, without any sorting, what is left
when the first `n` items of the result are kept: an item is among them unless `n` others are
sure to be ahead of it.
-/

variable {α : Type}

/-- The comparison orders the items: on them it is the strict part of the total preorder `le`. -/
structure Orders (le lt : α → α → Bool) (l : List α) : Prop where
  trans : ∀ a b c, le a b → le b c → le a c
  total : ∀ a b, le a b || le b a
  strict : ∀ a ∈ l, ∀ b ∈ l, lt a b = !le b a

/-- A sort by a comparison, stable where that orders the items. -/
structure Sorter (α : Type) : Type where
  sort : (α → α → Bool) → List α → List α
  perm : ∀ lt l, (sort lt l).Perm l
  stable : ∀ {le lt l}, Orders le lt l → sort lt l = l.mergeSort le

/-- How many items a stable sort puts ahead of `x`: from before it those that are not after
it in the order, from behind it those that are before it in the order. -/
def ahead (lt : α → α → Bool) (before : List α) (x : α) (after : List α) : ℕ :=
  before.countP (fun a => !lt x a) + after.countP fun b => lt b x

theorem ahead_cons (lt : α → α → Bool) (a : α) (before : List α) (x : α) (after : List α) :
    ahead lt (a :: before) x after = ahead lt before x after + if lt x a then 0 else 1 := by
  cases h : lt x a
  · simp only [ahead, List.countP_cons, h]
    simp only [Bool.not_false, if_true, Bool.false_eq_true, if_false]
    omega
  · simp [ahead, h]

/-- An item of a longer list is its head, with nothing before it, or an item of the rest. -/
theorem exists_split_cons {lt : α → α → Bool} {a x : α} {l : List α} {k : ℕ} :
    (∃ before after, a :: l = before ++ x :: after ∧ ahead lt before x after = k) ↔
      (a = x ∧ l.countP (fun b => lt b x) = k) ∨ ∃ before after, l = before ++ x :: after ∧
        ahead lt before x after + (if lt x a then 0 else 1) = k := by
  constructor
  · rintro ⟨_ | ⟨a', before⟩, after, hsplit, hahead⟩
    · obtain ⟨rfl, rfl⟩ := List.cons.inj hsplit
      exact .inl ⟨rfl, by simpa [ahead] using hahead⟩
    · obtain ⟨rfl, rfl⟩ := List.cons.inj hsplit
      exact .inr ⟨before, after, rfl, by rwa [ahead_cons] at hahead⟩
  · rintro (⟨rfl, hcount⟩ | ⟨before, after, rfl, hahead⟩)
    · exact ⟨[], l, rfl, by simpa [ahead] using hcount⟩
    · exact ⟨a :: before, after, rfl, by rwa [ahead_cons]⟩

/-- A list with an item put in between. -/
theorem getElem?_append_cons_eq_some {l₁ l₂ : List α} {a x : α} {k : ℕ} :
    (l₁ ++ a :: l₂)[k]? = some x ↔ (k < l₁.length ∧ (l₁ ++ l₂)[k]? = some x) ∨
      (k = l₁.length ∧ a = x) ∨ ∃ j, l₁.length ≤ j ∧ k = j + 1 ∧ (l₁ ++ l₂)[j]? = some x := by
  rcases lt_trichotomy k l₁.length with hlt | rfl | hgt
  · rw [List.getElem?_append_left hlt, List.getElem?_append_left hlt]
    exact ⟨fun h => .inl ⟨hlt, h⟩, by rintro (⟨-, h⟩ | ⟨rfl, -⟩ | ⟨j, hj, rfl, -⟩) <;> omega⟩
  · rw [List.getElem?_append_right le_rfl, Nat.sub_self, List.getElem?_cons_zero,
      Option.some.injEq]
    exact ⟨fun h => .inr (.inl ⟨rfl, h⟩), by rintro (⟨h, -⟩ | ⟨-, h⟩ | ⟨j, hj, h, -⟩) <;> omega⟩
  · obtain ⟨d, rfl⟩ := Nat.exists_eq_add_of_lt hgt
    have hd : l₁.length + d + 1 - l₁.length = d + 1 := by omega
    rw [List.getElem?_append_right (by omega), hd, List.getElem?_cons_succ]
    have hrest : (l₁ ++ l₂)[l₁.length + d]? = l₂[d]? := by
      rw [List.getElem?_append_right (by omega), Nat.add_sub_cancel_left]
    rw [← hrest]
    constructor
    · exact fun h => .inr (.inr ⟨_, by omega, rfl, h⟩)
    · rintro (⟨h, -⟩ | ⟨h, -⟩ | ⟨j, -, hj, h⟩)
      · omega
      · omega
      · rwa [Nat.succ.inj hj]

/-- Where a merge sort puts an item. -/
theorem mergeSort_getElem?_eq_some {le : α → α → Bool} (htrans : ∀ a b c, le a b → le b c → le a c)
    (htotal : ∀ a b, le a b || le b a) {l : List α} {k : ℕ} {x : α} :
    (l.mergeSort le)[k]? = some x ↔ ∃ before after, l = before ++ x :: after ∧
      ahead (fun a b => !le b a) before x after = k := by
  induction l generalizing k with
  | nil => simp
  | cons a l ih =>
    obtain ⟨l₁, l₂, hcons, hl, hfirst⟩ := List.mergeSort_cons htrans htotal a l
    have hsorted := List.pairwise_mergeSort htrans htotal (a :: l)
    rw [hcons, List.pairwise_append, List.pairwise_cons] at hsorted
    have hsecond : ∀ b ∈ l₂, le a b = true := hsorted.2.1.1
    simp only [Bool.not_eq_true'] at hfirst
    -- the new item goes behind exactly those that are before it in the order
    have hplace : l.countP (fun b => !le a b) = l₁.length := by
      have hperm : l.Perm (l₁ ++ l₂) := hl ▸ (List.mergeSort_perm l le).symm
      have hall : l₁.countP (fun b => !le a b) = l₁.length :=
        List.countP_eq_length.mpr fun b hb => by simp [hfirst b hb]
      have hnone : l₂.countP (fun b => !le a b) = 0 :=
        List.countP_eq_zero.mpr fun b hb => by simp [hsecond b hb]
      rw [hperm.countP_eq, List.countP_append, hall, hnone, Nat.add_zero]
    -- and an item of the rest has it ahead exactly if it is behind the first part
    have hside : ∀ {j}, (l₁ ++ l₂)[j]? = some x →
        (if !le a x then 0 else 1) = if l₁.length ≤ j then 1 else 0 := by
      intro j hx
      by_cases hj : l₁.length ≤ j
      · rw [List.getElem?_append_right hj] at hx
        simp [hsecond x (List.mem_of_getElem? hx), hj]
      · rw [List.getElem?_append_left (by omega)] at hx
        simp [hfirst x (List.mem_of_getElem? hx), hj]
    rw [hl] at ih
    rw [hcons, getElem?_append_cons_eq_some, exists_split_cons]
    constructor
    · rintro (⟨hk, hx⟩ | ⟨rfl, rfl⟩ | ⟨j, hj, rfl, hx⟩)
      · obtain ⟨before, after, hsplit, hahead⟩ := ih.mp hx
        exact .inr ⟨before, after, hsplit, by rw [hside hx, if_neg (by omega), hahead, Nat.add_zero]⟩
      · exact .inl ⟨rfl, hplace⟩
      · obtain ⟨before, after, hsplit, hahead⟩ := ih.mp hx
        exact .inr ⟨before, after, hsplit, by rw [hside hx, if_pos hj, hahead]⟩
    · rintro (⟨rfl, hcount⟩ | ⟨before, after, hsplit, hahead⟩)
      · exact .inr (.inl ⟨hcount.symm.trans hplace, rfl⟩)
      · have hx := ih.mpr ⟨before, after, hsplit, rfl⟩
        rw [hside hx] at hahead
        split_ifs at hahead with hj
        · exact .inr (.inr ⟨_, hj, hahead.symm, hx⟩)
        · exact .inl ⟨by omega, by rwa [← hahead]⟩

namespace Orders

variable {le le' lt : α → α → Bool} {l : List α}

/-- Two preorders that agree on the items sort them alike. -/
theorem mergeSort_eq (h : Orders le lt l) (h' : Orders le' lt l) :
    l.mergeSort le = l.mergeSort le' := by
  have hagree : ∀ a ∈ l, ∀ b ∈ l, le a b = le' (id a) (id b) := by
    intro a ha b hb
    have hboth := (h.strict b hb a ha).symm.trans (h'.strict b hb a ha)
    simpa using hboth
  simpa using List.map_mergeSort hagree

/-- Only the comparisons of the items count. -/
theorem ahead_eq (h : Orders le lt l) {before after : List α} {x : α}
    (hl : l = before ++ x :: after) :
    ahead (fun a b => !le b a) before x after = ahead lt before x after := by
  have hx : x ∈ l := by simp [hl]
  have hbefore : ∀ a ∈ before, a ∈ l := fun a ha => by simp [hl, ha]
  have hafter : ∀ b ∈ after, b ∈ l := fun b hb => by simp [hl, hb]
  unfold ahead
  congr 1
  · exact List.countP_congr fun a ha => by rw [h.strict x hx a (hbefore a ha)]
  · exact List.countP_congr fun b hb => by rw [h.strict b (hafter b hb) x hx]

/-- Where an order of the items puts one of them. -/
theorem getElem?_eq_some (h : Orders le lt l) {k : ℕ} {x : α} :
    (l.mergeSort le)[k]? = some x ↔
      ∃ before after, l = before ++ x :: after ∧ ahead lt before x after = k := by
  rw [mergeSort_getElem?_eq_some h.trans h.total]
  refine exists_congr fun before => exists_congr fun after => and_congr_right fun hl => ?_
  rw [h.ahead_eq hl]

end Orders

namespace Sorter

variable {lt : α → α → Bool} {l : List α}

theorem mem_sort (s : Sorter α) {x : α} : x ∈ s.sort lt l ↔ x ∈ l := (s.perm lt l).mem_iff

open Classical in
/-- A sort that rearranges by `f` when the comparison does not order the items. -/
noncomputable def otherwise (f : List α → List α) (hf : ∀ l, (f l).Perm l) : Sorter α where
  sort lt l := if h : ∃ le, Orders le lt l then l.mergeSort h.choose else f l
  perm lt l := by
    split_ifs with h
    · exact List.mergeSort_perm _ _
    · exact hf l
  stable {le lt l} h := by
    have hex : ∃ le, Orders le lt l := ⟨le, h⟩
    rw [dif_pos hex]
    exact hex.choose_spec.mergeSort_eq h

noncomputable instance : Inhabited (Sorter α) := ⟨otherwise id List.Perm.refl⟩

/-- One of several items can come out first if the comparison does not order them. -/
theorem exists_sort_eq_cons {x : α} (hx : x ∈ l) (h : ¬ ∃ le, Orders le lt l) :
    ∃ (s : Sorter α) (rest : List α), s.sort lt l = x :: rest := by
  classical
  let f : List α → List α := fun l => if x ∈ l then x :: l.erase x else l
  have hf : ∀ l, (f l).Perm l := by
    intro l
    by_cases hmem : x ∈ l
    · simpa only [f, if_pos hmem] using (List.perm_cons_erase hmem).symm
    · simp only [f, if_neg hmem, List.Perm.refl]
  refine ⟨otherwise f hf, l.erase x, ?_⟩
  simp only [otherwise, dif_neg h, f, if_pos hx]

/-- **The first `n` items of the result.** They all have a property, whatever the sort, if and
only if each item that does not have it has `n` others that are sure to be ahead of it. -/
theorem forall_take_iff {C : α → Prop} {n : ℕ} :
    (∀ s : Sorter α, ∀ x ∈ (s.sort lt l).take n, C x) ↔
      ∀ before x after, l = before ++ x :: after → ¬ C x →
        n = 0 ∨ (∃ le, Orders le lt l) ∧ n ≤ ahead lt before x after := by
  constructor
  · intro hall before x after hl hx
    by_contra hfew
    obtain ⟨hn, hfew⟩ := not_or.mp hfew
    have hmem : x ∈ l := by simp [hl]
    by_cases horders : ∃ le, Orders le lt l
    · obtain ⟨le, hle⟩ := horders
      have hahead : ahead lt before x after < n := by
        by_contra hle'
        exact hfew ⟨⟨le, hle⟩, not_lt.mp hle'⟩
      refine hx (hall default x ?_)
      rw [(default : Sorter α).stable hle]
      have hk := hle.getElem?_eq_some.mpr ⟨before, after, hl, rfl⟩
      exact List.mem_of_getElem? ((List.getElem?_take_of_lt hahead).trans hk)
    · obtain ⟨s, rest, hsort⟩ := exists_sort_eq_cons hmem horders
      refine hx (hall s x ?_)
      obtain ⟨m, rfl⟩ := Nat.exists_eq_succ_of_ne_zero hn
      rw [hsort, List.take_succ_cons]
      exact List.mem_cons_self
  · intro hcond s x hx
    by_contra hnot
    obtain ⟨k, hk⟩ := List.mem_iff_getElem?.mp hx
    have hkn : k < n := by
      have hlt := (List.getElem?_eq_some_iff.mp hk).choose
      rw [List.length_take] at hlt
      omega
    rw [List.getElem?_take_of_lt hkn] at hk
    obtain ⟨before, after, hl⟩ := List.append_of_mem (s.mem_sort.mp (List.mem_of_getElem? hk))
    rcases hcond before x after hl hnot with hzero | ⟨⟨le, hle⟩, -⟩
    · omega
    · rw [s.stable hle] at hk
      obtain ⟨before', after', hl', hahead⟩ := hle.getElem?_eq_some.mp hk
      rcases hcond before' x after' hl' hnot with hzero | ⟨-, hmany⟩ <;> omega

end Sorter

/-! ## Sorting by a key -/

section

variable {β : Type} [LinearOrder β] (key : α → β) (l : List α)

/-- `sorted(l, key=key)` -/
def sortedBy : List α := l.mergeSort fun a b => key a ≤ key b

theorem sortedBy_perm : (sortedBy key l).Perm l := List.mergeSort_perm l _

theorem key_trans (a b c : α) (hab : decide (key a ≤ key b) = true)
    (hbc : decide (key b ≤ key c) = true) : decide (key a ≤ key c) = true :=
  decide_eq_true ((of_decide_eq_true hab).trans (of_decide_eq_true hbc))

theorem key_total (a b : α) : (decide (key a ≤ key b) || decide (key b ≤ key a)) = true := by
  rw [Bool.or_eq_true, decide_eq_true_eq, decide_eq_true_eq]
  exact le_total _ _

/-- A key is an order of the items, when the comparison goes by it on them. -/
theorem orders_key {lt : α → α → Bool} (h : ∀ a ∈ l, ∀ b ∈ l, lt a b = decide (key a < key b)) :
    Orders (fun a b => decide (key a ≤ key b)) lt l := by
  refine ⟨key_trans key, key_total key, fun a ha b hb => ?_⟩
  rw [h a ha b hb, ← decide_not]
  exact decide_eq_decide.mpr not_le.symm

theorem pairwise_sortedBy : (sortedBy key l).Pairwise fun a b => key a ≤ key b :=
  (List.pairwise_mergeSort (key_trans key) (key_total key) l).imp of_decide_eq_true

/-- Items with one key stay in their order. -/
theorem filter_sortedBy (k : β) :
    (sortedBy key l).filter (fun a => key a = k) = l.filter fun a => key a = k := by
  have hties : (l.filter fun a => key a = k).Pairwise fun a b => decide (key a ≤ key b) = true := by
    refine List.pairwise_of_forall_mem_list fun a ha b hb => ?_
    rw [List.mem_filter, decide_eq_true_eq] at ha hb
    rw [decide_eq_true_eq, ha.2, hb.2]
  have hsublist := (List.sublist_mergeSort (key_trans key) (key_total key) hties
    List.filter_sublist).filter fun a => key a = k
  rw [List.filter_filter, List.filter_congr fun a _ => Bool.and_self _] at hsublist
  exact (hsublist.eq_of_length ((sortedBy_perm key l).filter _).length_eq.symm).symm

/-- What the key puts strictly first is not behind what it beats. -/
theorem sortedBy_not_beaten {beats : α → α → Prop} (h : ∀ a ∈ l, ∀ b ∈ l, beats a b → key a < key b) :
    (sortedBy key l).Pairwise fun a b => ¬ beats b a := by
  have hmem {a : α} (ha : a ∈ sortedBy key l) : a ∈ l := (sortedBy_perm key l).mem_iff.mp ha
  refine (pairwise_sortedBy key l).imp_of_mem fun ha hb hle hbeats => ?_
  exact absurd hle (h _ (hmem hb) _ (hmem ha) hbeats).not_ge

end
