import Mathlib.Data.Finset.Max
import Mathlib.Data.List.Induction
import Mathlib.Data.List.Sort
import Mathlib.Order.MinMax

/-!
# Folding by the best pair

Items of a list fold into one another, pair by pair: of the pairs whose score reaches the
threshold the best one goes first, and of several best ones the first in the order of the
list. The item of the two that ranks behind the other is dropped. `run` lists the folds,
`root` follows them.

What is left has no pair at the threshold (`apart_of_run`). The folds do not depend on the
order of the list as long as the items that tie for the best score come in groups whose head
ties with each of the others (`order_irrelevant_iff`).
-/

namespace Folding

variable {α Score Rank : Type}

/-! ## Pairs -/

/-- The pairs of a list, each item with those behind it. -/
def pairs : List α → List (α × α)
  | [] => []
  | a :: l => l.map (fun b => (a, b)) ++ pairs l

theorem mem_pairs {a b : α} {l : List α} : (a, b) ∈ pairs l ↔ [a, b].Sublist l := by
  induction l with
  | nil => simp [pairs]
  | cons c l ih =>
    rw [pairs, List.mem_append, ih, List.mem_map, List.sublist_cons_iff]
    refine ⟨?_, ?_⟩
    · rintro (⟨b', hb', heq⟩ | h)
      · obtain ⟨rfl, rfl⟩ := Prod.mk.inj heq
        exact .inr ⟨[b'], rfl, List.singleton_sublist.mpr hb'⟩
      · exact .inl h
    · rintro (h | ⟨r, heq, hr⟩)
      · exact .inr h
      · obtain ⟨rfl, rfl⟩ := List.cons.inj heq
        exact .inl ⟨b, List.singleton_sublist.mp hr, rfl⟩

/-- Two different items are a pair, in one order or the other. -/
theorem mem_pairs_or {a b : α} {l : List α} (ha : a ∈ l) (hb : b ∈ l) (hne : a ≠ b) :
    (a, b) ∈ pairs l ∨ (b, a) ∈ pairs l := by
  induction l with
  | nil => cases ha
  | cons c l ih =>
    simp only [pairs, List.mem_append, List.mem_map, Prod.mk.injEq]
    rcases List.mem_cons.mp ha with rfl | ha'
    · rcases List.mem_cons.mp hb with rfl | hb'
      · exact absurd rfl hne
      · exact .inl (.inl ⟨b, hb', rfl, rfl⟩)
    · rcases List.mem_cons.mp hb with rfl | hb'
      · exact .inr (.inl ⟨a, ha', rfl, rfl⟩)
      · exact (ih ha' hb').imp .inr .inr

theorem mem_of_mem_pairs {a b : α} {l : List α} (h : (a, b) ∈ pairs l) : a ∈ l ∧ b ∈ l := by
  have hsub := (mem_pairs.mp h).subset
  exact ⟨hsub (by simp), hsub (by simp)⟩

theorem ne_of_mem_pairs {a b : α} {l : List α} (hl : l.Nodup) (h : (a, b) ∈ pairs l) : a ≠ b := by
  simpa using (mem_pairs.mp h).nodup hl

/-! ## The first of the best -/

section

variable {β : Type} [LinearOrder Score] (f : β → Score) (threshold : Score)

/-- One turn of the search: an item that reaches the threshold and beats the best so far. -/
def better (best : Option β) (b : β) : Option β :=
  if threshold ≤ f b ∧ best.all (fun c => f c < f b) then some b else best

/-- The first of the items with the best score, if it reaches the threshold. -/
def firstBest (l : List β) : Option β := l.foldl (better f threshold) none

variable {f : β → Score} {threshold : Score}

theorem firstBest_concat (l : List β) (b : β) :
    firstBest f threshold (l ++ [b]) = better f threshold (firstBest f threshold l) b := by
  rw [firstBest, List.foldl_append]
  rfl

theorem firstBest_eq_none {l : List β} :
    firstBest f threshold l = none ↔ ∀ b ∈ l, f b < threshold := by
  induction l using List.reverseRecOn with
  | nil => simp [firstBest]
  | append_singleton l b ih =>
    rw [firstBest_concat, better]
    simp only [List.mem_append, List.mem_singleton, or_imp, forall_and, forall_eq, ← ih]
    split_ifs with h
    · simp [not_lt.mpr h.1]
    · refine ⟨fun hnone => ⟨hnone, ?_⟩, And.left⟩
      by_contra hreach
      exact h ⟨not_lt.mp hreach, by simp [hnone]⟩

/-- What is found beats everything before it, and nothing behind it beats it. -/
theorem of_firstBest {l : List β} {b : β} (h : firstBest f threshold l = some b) :
    ∃ before after, l = before ++ b :: after ∧ threshold ≤ f b ∧ (∀ c ∈ before, f c < f b) ∧
      ∀ c ∈ after, f c ≤ f b := by
  induction l using List.reverseRecOn generalizing b with
  | nil => cases h
  | append_singleton l d ih =>
    rw [firstBest_concat, better] at h
    split_ifs at h with hbetter
    · obtain rfl := Option.some.inj h
      refine ⟨l, [], rfl, hbetter.1, fun c hc => ?_, by simp⟩
      rcases hbest : firstBest f threshold l with _ | e
      · exact (firstBest_eq_none.mp hbest c hc).trans_le hbetter.1
      · obtain ⟨before, after, rfl, -, hbefore, hafter⟩ := ih hbest
        have hlt : f e < f d := by simpa [hbest] using hbetter.2
        rcases List.mem_append.mp hc with hc | hc
        · exact (hbefore c hc).trans hlt
        · rcases List.mem_cons.mp hc with rfl | hc
          · exact hlt
          · exact (hafter c hc).trans_lt hlt
    · obtain ⟨before, after, rfl, hreach, hbefore, hafter⟩ := ih h
      refine ⟨before, after ++ [d], by simp, hreach, hbefore, fun c hc => ?_⟩
      rcases List.mem_append.mp hc with hc | hc
      · exact hafter c hc
      · obtain rfl := List.mem_singleton.mp hc
        by_contra hlt
        rw [not_le] at hlt
        exact hbetter ⟨hreach.trans hlt.le, by simp [h, hlt]⟩

theorem mem_of_firstBest {l : List β} {b : β} (h : firstBest f threshold l = some b) : b ∈ l := by
  obtain ⟨before, after, rfl, -⟩ := of_firstBest h
  simp

/-- And this is what determines it. -/
theorem firstBest_append_cons {before after : List β} {b : β} (hreach : threshold ≤ f b)
    (hbefore : ∀ c ∈ before, f c < f b) (hafter : ∀ c ∈ after, f c ≤ f b) :
    firstBest f threshold (before ++ b :: after) = some b := by
  -- the search comes to `b` with something smaller
  have harrives : better f threshold (firstBest f threshold before) b = some b := by
    rw [better, if_pos]
    refine ⟨hreach, ?_⟩
    rcases hbest : firstBest f threshold before with _ | c
    · rfl
    · simpa using hbefore c (mem_of_firstBest hbest)
  rw [firstBest, List.foldl_append, List.foldl_cons]
  refine (congrArg (fun best => after.foldl (better f threshold) best) harrives).trans ?_
  clear harrives
  induction after with
  | nil => rfl
  | cons c after ih =>
    have hkeeps : better f threshold (some b) c = some b := by
      rw [better, if_neg]
      rintro ⟨-, hlt⟩
      exact absurd (hafter c List.mem_cons_self) (not_le.mpr (by simpa using hlt))
    rw [List.foldl_cons, hkeeps]
    exact ih fun c' hc' => hafter c' (List.mem_cons_of_mem c hc')

end

/-! ## Folds -/

/-- What guides the folds: how alike two items are, and which of them stays. -/
structure Guide (α Score Rank : Type) : Type where
  score : α → α → Score
  symm : ∀ a b, score a b = score b a
  rank : α → Rank

variable [DecidableEq α] [LinearOrder Score] [LinearOrder Rank] (g : Guide α Score Rank)
  (threshold : Score)

namespace Guide

/-- The pair that folds next. -/
def pick (l : List α) : Option (α × α) := firstBest (fun p => g.score p.1 p.2) threshold (pairs l)

/-- How a pair folds: the item that is dropped, and the one it folds into. -/
def fold (p : α × α) : α × α := if g.rank p.1 ≤ g.rank p.2 then (p.2, p.1) else p

/-- The folds of a list, given as many turns as it has items. -/
def folds : ℕ → List α → List (α × α)
  | 0, _ => []
  | fuel + 1, l =>
    match g.pick threshold l with
    | none => []
    | some p => g.fold p :: folds fuel (l.filter (· ≠ (g.fold p).1))

/-- The folds of a list. -/
def run (l : List α) : List (α × α) := g.folds threshold l.length l

end Guide

/-- Where the folds take an item. -/
def root (folds : List (α × α)) (a : α) : α :=
  folds.foldl (fun a f => if a = f.1 then f.2 else a) a

@[simp] theorem root_nil (a : α) : root [] a = a := rfl

theorem root_cons (v k : α) (folds : List (α × α)) (a : α) :
    root ((v, k) :: folds) a = root folds (if a = v then k else a) := rfl

theorem root_append (folds folds' : List (α × α)) (a : α) :
    root (folds ++ folds') a = root folds' (root folds a) := List.foldl_append

/-- What is not dropped stays where it is. -/
theorem root_of_not_mem {folds : List (α × α)} {a : α} (h : ∀ f ∈ folds, f.1 ≠ a) :
    root folds a = a := by
  induction folds with
  | nil => rfl
  | cons f folds ih =>
    rw [root_cons, if_neg fun heq => h f List.mem_cons_self heq.symm]
    exact ih fun f' hf' => h f' (List.mem_cons_of_mem f hf')

/-- Roots can be followed under other names, as long as these tell the items apart. -/
theorem root_map {β : Type} [DecidableEq β] {name : α → β} {l : List α}
    (hinj : ∀ a ∈ l, ∀ b ∈ l, name a = name b → a = b) {folds : List (α × α)}
    (hin : ∀ f ∈ folds, f.1 ∈ l ∧ f.2 ∈ l) {a : α} (ha : a ∈ l) :
    root (folds.map (Prod.map name name)) (name a) = name (root folds a) := by
  induction folds generalizing a with
  | nil => rfl
  | cons f folds ih =>
    obtain ⟨v, k⟩ := f
    obtain ⟨hv, hk⟩ := hin (v, k) List.mem_cons_self
    have hrest : ∀ f ∈ folds, f.1 ∈ l ∧ f.2 ∈ l := fun f hf => hin f (List.mem_cons_of_mem _ hf)
    rw [List.map_cons, Prod.map_apply, root_cons, root_cons]
    by_cases hav : a = v
    · rw [if_pos hav, if_pos (congrArg name hav), ih hrest hk]
    · rw [if_neg hav, if_neg fun heq => hav (hinj a ha v hv heq), ih hrest ha]

namespace Guide

variable {g threshold} {l : List α} {v k : α}

/-- What one turn can do: `v` folds into `k`. -/
structure Chooses (g : Guide α Score Rank) (threshold : Score) (l : List α) (v k : α) : Prop where
  pick : ∃ p, g.pick threshold l = some p ∧ g.fold p = (v, k)
  victim : v ∈ l
  keeper : k ∈ l
  ne : k ≠ v
  rank : g.rank k ≤ g.rank v
  reach : threshold ≤ g.score k v
  best : ∀ a ∈ l, ∀ b ∈ l, a ≠ b → g.score a b ≤ g.score k v

omit [DecidableEq α] [LinearOrder Score] in
/-- The pair that is picked, whichever of the two is dropped. -/
theorem fold_cases (g : Guide α Score Rank) (p : α × α) :
    g.fold p = (p.2, p.1) ∧ g.rank p.1 ≤ g.rank p.2 ∨ g.fold p = p ∧ g.rank p.2 ≤ g.rank p.1 := by
  rw [fold]
  split_ifs with h
  · exact .inl ⟨rfl, h⟩
  · exact .inr ⟨rfl, (not_le.mp h).le⟩

omit [DecidableEq α] [LinearOrder Rank] in
theorem score_le_of_pick {p : α × α} (h : g.pick threshold l = some p) {a b : α} (ha : a ∈ l)
    (hb : b ∈ l) (hne : a ≠ b) : g.score a b ≤ g.score p.1 p.2 := by
  obtain ⟨before, after, hpairs, -, hbefore, hafter⟩ := of_firstBest h
  have hle : ∀ q ∈ pairs l, g.score q.1 q.2 ≤ g.score p.1 p.2 := by
    intro q hq
    rw [hpairs, List.mem_append, List.mem_cons] at hq
    rcases hq with hq | rfl | hq
    · exact (hbefore q hq).le
    · exact le_rfl
    · exact hafter q hq
  rcases mem_pairs_or ha hb hne with h | h
  · exact hle _ h
  · exact (g.symm a b).trans_le (hle _ h)

omit [DecidableEq α] in
/-- **Inversion of a turn.** -/
theorem chooses (hl : l.Nodup) {p : α × α} (h : g.pick threshold l = some p) :
    Chooses g threshold l (g.fold p).1 (g.fold p).2 := by
  obtain ⟨a, b⟩ := p
  obtain ⟨ha, hb⟩ := mem_of_mem_pairs (mem_of_firstBest h)
  have hne := ne_of_mem_pairs hl (mem_of_firstBest h)
  obtain ⟨-, -, -, hreach, -⟩ := of_firstBest h
  rcases g.fold_cases (a, b) with ⟨hfold, hrank⟩ | ⟨hfold, hrank⟩
  · rw [hfold]
    exact ⟨⟨_, h, hfold⟩, hb, ha, hne, hrank, hreach, fun _ hc _ hd => score_le_of_pick h hc hd⟩
  · rw [hfold]
    refine ⟨⟨_, h, hfold⟩, ha, hb, hne.symm, hrank, hreach.trans_eq (g.symm a b), ?_⟩
    exact fun _ hc _ hd hcd => (score_le_of_pick h hc hd hcd).trans_eq (g.symm a b)

omit [DecidableEq α] [LinearOrder Rank] in
/-- No pair is picked when none reaches the threshold. -/
theorem pick_eq_none (hl : l.Nodup) : g.pick threshold l = none ↔
    ∀ a ∈ l, ∀ b ∈ l, a ≠ b → g.score a b < threshold := by
  rw [pick, firstBest_eq_none]
  refine ⟨fun h a ha b hb hne => ?_, fun h p hp => ?_⟩
  · rcases mem_pairs_or ha hb hne with hp | hp
    · exact h _ hp
    · exact (g.symm a b).trans_lt (h _ hp)
  · obtain ⟨ha, hb⟩ := mem_of_mem_pairs hp
    exact h p.1 ha p.2 hb (ne_of_mem_pairs hl hp)

theorem length_filter_lt (hv : v ∈ l) : (l.filter (· ≠ v)).length < l.length := by
  rw [List.length_filter_lt_length_iff_exists]
  exact ⟨v, hv, by simp⟩

/-- The fuel is enough. -/
theorem folds_eq (hl : l.Nodup) {fuel fuel' : ℕ} (h : l.length ≤ fuel) (h' : l.length ≤ fuel') :
    g.folds threshold fuel l = g.folds threshold fuel' l := by
  induction fuel generalizing fuel' l with
  | zero =>
    obtain rfl := List.length_eq_zero_iff.mp (Nat.le_zero.mp h)
    cases fuel' <;> rfl
  | succ fuel ih =>
    cases fuel' with
    | zero =>
      obtain rfl := List.length_eq_zero_iff.mp (Nat.le_zero.mp h')
      rfl
    | succ fuel' =>
      rw [folds, folds]
      rcases hpick : g.pick threshold l with _ | p
      · rfl
      · have hlt := length_filter_lt (chooses hl hpick).victim
        exact congrArg (g.fold p :: ·) (ih (hl.filter _) (by omega) (by omega))

/-- One turn, and what follows. -/
theorem run_of_pick (hl : l.Nodup) {p : α × α} (h : g.pick threshold l = some p) :
    g.run threshold l = g.fold p :: g.run threshold (l.filter (· ≠ (g.fold p).1)) := by
  have hlt := length_filter_lt (chooses hl h).victim
  obtain ⟨n, hn⟩ : ∃ n, l.length = n + 1 := ⟨l.length - 1, by omega⟩
  rw [run, hn, folds, h]
  exact congrArg _ (folds_eq (hl.filter _) (by omega) le_rfl)

/-- **Induction over a run.** A run without a pair to fold, or a turn and the run that
follows. -/
theorem run_induct {P : List α → List (α × α) → Prop}
    (done : ∀ l : List α, l.Nodup → (∀ a ∈ l, ∀ b ∈ l, a ≠ b → g.score a b < threshold) → P l [])
    (fold : ∀ (l : List α) (v k : α), l.Nodup → Chooses g threshold l v k →
      P (l.filter (· ≠ v)) (g.run threshold (l.filter (· ≠ v))) →
      P l ((v, k) :: g.run threshold (l.filter (· ≠ v)))) (hl : l.Nodup) :
    P l (g.run threshold l) := by
  induction hlength : l.length using Nat.strong_induction_on generalizing l with
  | _ n ih =>
    subst hlength
    rcases hpick : g.pick threshold l with _ | p
    · have hrun : g.run threshold l = [] := by
        rw [run]
        cases l.length with
        | zero => rfl
        | succ n => rw [folds, hpick]
      rw [hrun]
      exact done l hl ((pick_eq_none hl).mp hpick)
    · have hchooses := chooses hl hpick
      have hlt := length_filter_lt hchooses.victim
      rw [run_of_pick hl hpick]
      exact fold l _ _ hl hchooses (ih _ hlt (hl.filter _) rfl)

/-! ## What a run does -/

theorem of_mem_run (hl : l.Nodup) {f : α × α} (hf : f ∈ g.run threshold l) :
    f.1 ∈ l ∧ f.2 ∈ l ∧ f.2 ≠ f.1 ∧ g.rank f.2 ≤ g.rank f.1 ∧ threshold ≤ g.score f.2 f.1 := by
  revert hf
  refine run_induct (P := fun l folds => f ∈ folds → f.1 ∈ l ∧ f.2 ∈ l ∧ f.2 ≠ f.1 ∧
    g.rank f.2 ≤ g.rank f.1 ∧ threshold ≤ g.score f.2 f.1) ?_ ?_ hl
  · intro l _ _ hf
    cases hf
  · intro l v k _ hchooses ih hf
    rcases List.mem_cons.mp hf with rfl | hf
    · exact ⟨hchooses.victim, hchooses.keeper, hchooses.ne, hchooses.rank, hchooses.reach⟩
    · obtain ⟨hv, hk, hrest⟩ := ih hf
      exact ⟨List.mem_of_mem_filter hv, List.mem_of_mem_filter hk, hrest⟩

/-- No fold drops the item. -/
def Stays (g : Guide α Score Rank) (threshold : Score) (l : List α) (a : α) : Prop :=
  ∀ f ∈ g.run threshold l, f.1 ≠ a

/-- What is left has no pair at the threshold. -/
theorem apart_of_run (hl : l.Nodup) {a b : α} (ha : a ∈ l) (hb : b ∈ l) (hne : a ≠ b)
    (hsa : g.Stays threshold l a) (hsb : g.Stays threshold l b) : g.score a b < threshold := by
  revert ha hb hsa hsb
  refine run_induct (P := fun l folds => a ∈ l → b ∈ l → (∀ f ∈ folds, f.1 ≠ a) →
    (∀ f ∈ folds, f.1 ≠ b) → g.score a b < threshold) ?_ ?_ hl
  · intro l _ h ha hb _ _
    exact h a ha b hb hne
  · intro l v k _ _ ih ha hb hsa hsb
    have hkept : ∀ {c}, c ∈ l → (∀ f ∈ (v, k) :: g.run threshold (l.filter (· ≠ v)), f.1 ≠ c) →
        c ∈ l.filter (· ≠ v) := fun hc hsc =>
      List.mem_filter.mpr ⟨hc, by simpa using (hsc _ List.mem_cons_self).symm⟩
    exact ih (hkept ha hsa) (hkept hb hsb) (fun f hf => hsa f (List.mem_cons_of_mem _ hf))
      fun f hf => hsb f (List.mem_cons_of_mem _ hf)

variable (g threshold) in
/-- The root of an item is one that stays, and ranks no later. -/
theorem root_run (hl : l.Nodup) {a : α} (ha : a ∈ l) :
    root (g.run threshold l) a ∈ l ∧ g.Stays threshold l (root (g.run threshold l) a) ∧
      g.rank (root (g.run threshold l) a) ≤ g.rank a := by
  revert a
  refine run_induct (P := fun l folds => ∀ {a}, a ∈ l → root folds a ∈ l ∧
    (∀ f ∈ folds, f.1 ≠ root folds a) ∧ g.rank (root folds a) ≤ g.rank a) ?_ ?_ hl
  · exact fun l _ _ a ha => ⟨ha, nofun, le_rfl⟩
  · intro l v k hl hchooses ih a ha
    -- the item goes to the keeper, or remains
    have hnext : (if a = v then k else a) ∈ l.filter (· ≠ v) ∧
        g.rank (if a = v then k else a) ≤ g.rank a := by
      split_ifs with hav
      · exact ⟨List.mem_filter.mpr ⟨hchooses.keeper, by simpa using hchooses.ne⟩,
          hav ▸ hchooses.rank⟩
      · exact ⟨List.mem_filter.mpr ⟨ha, by simpa using hav⟩, le_rfl⟩
    obtain ⟨hmem, hstays, hrank⟩ := ih hnext.1
    rw [root_cons]
    refine ⟨List.mem_of_mem_filter hmem, fun f hf => ?_, hrank.trans hnext.2⟩
    rcases List.mem_cons.mp hf with rfl | hf
    · have hne := (List.mem_filter.mp hmem).2
      simpa using Ne.symm (of_decide_eq_true hne)
    · exact hstays f hf

/-- An item that stays is its own root. -/
theorem root_of_stays {a : α} (h : g.Stays threshold l a) : root (g.run threshold l) a = a :=
  root_of_not_mem h

/-- Without a pair at the threshold there is nothing to fold. -/
theorem run_eq_nil (hl : l.Nodup) :
    g.run threshold l = [] ↔ ∀ a ∈ l, ∀ b ∈ l, a ≠ b → g.score a b < threshold := by
  constructor
  · intro h a ha b hb hne
    have hstays : ∀ c, g.Stays threshold l c := fun c f hf => by
      rw [h] at hf
      cases hf
    exact apart_of_run hl ha hb hne (hstays a) (hstays b)
  · intro h
    by_contra hne
    obtain ⟨f, hf⟩ := List.exists_mem_of_ne_nil _ hne
    obtain ⟨hv, hk, hvk, -, hreach⟩ := of_mem_run hl hf
    exact absurd (h _ hk _ hv hvk) (not_lt.mpr hreach)

/-- At most one fold is made exactly if the item it drops is in every pair at the threshold. -/
theorem length_run_le_one (hl : l.Nodup) : (g.run threshold l).length ≤ 1 ↔
    ∀ p, g.pick threshold l = some p → ∀ a ∈ l, ∀ b ∈ l, a ≠ b → threshold ≤ g.score a b →
      (g.fold p).1 = a ∨ (g.fold p).1 = b := by
  rcases hpick : g.pick threshold l with _ | p
  · refine iff_of_true ?_ nofun
    rw [(run_eq_nil hl).mpr ((pick_eq_none hl).mp hpick)]
    exact Nat.zero_le 1
  · rw [run_of_pick hl hpick, List.length_cons]
    have hone : (g.run threshold (l.filter (· ≠ (g.fold p).1))).length + 1 ≤ 1 ↔
        g.run threshold (l.filter (· ≠ (g.fold p).1)) = [] := by
      rw [← List.length_eq_zero_iff]
      omega
    rw [hone, run_eq_nil (hl.filter _)]
    simp only [Option.some.injEq, forall_eq', List.mem_filter, decide_eq_true_eq]
    refine ⟨fun h a ha b hb hne hreach => ?_, fun h a ha b hb hne => ?_⟩
    · by_contra hnot
      rw [not_or] at hnot
      exact absurd (h a ⟨ha, Ne.symm hnot.1⟩ b ⟨hb, Ne.symm hnot.2⟩ hne) (not_lt.mpr hreach)
    · by_contra hreach
      rcases h a ha.1 b hb.1 hne (not_lt.mp hreach) with heq | heq
      · exact ha.2 heq.symm
      · exact hb.2 heq.symm

/-! ## The order of the list -/

/-- The items come in groups that have a head each: no score exceeds `w`, two items that score
`w` have one head, and an item that is not a head scores `w` with its own, and ranks behind. -/
structure Headed (g : Guide α Score Rank) (w : Score) (l : List α) (head : α → α) : Prop where
  bound : ∀ a ∈ l, ∀ b ∈ l, a ≠ b → g.score a b ≤ w
  head_mem : ∀ a ∈ l, head a ∈ l
  group : ∀ a ∈ l, ∀ b ∈ l, a ≠ b → g.score a b = w → head a = head b
  behind : ∀ a ∈ l, head a = a ∨ g.score (head a) a = w ∧ g.rank (head a) < g.rank a

/-- The list settles in one way only: whenever pairs tie for the best score, the items come in
groups with a head; the heads remain, and settle in turn. -/
inductive Settles (g : Guide α Score Rank) (threshold : Score) : List α → Prop where
  | done {l : List α} : (∀ a ∈ l, ∀ b ∈ l, a ≠ b → g.score a b < threshold) → Settles g threshold l
  | level {l : List α} (w : Score) (head : α → α) : threshold ≤ w → Headed g w l head →
      Settles g threshold (l.filter fun a => head a = a) → Settles g threshold l

section

variable {w : Score} {head : α → α}

omit [DecidableEq α] in
theorem Headed.head_head (h : Headed g w l head) {a : α} (ha : a ∈ l) :
    head (head a) = head a := by
  rcases h.behind a ha with heq | ⟨hscore, hrank⟩
  · exact congrArg head heq
  · refine h.group _ (h.head_mem a ha) a ha (fun heq => ?_) hscore
    rw [heq] at hrank
    exact lt_irrefl _ hrank

omit [DecidableEq α] in
theorem Headed.perm (h : Headed g w l head) {l' : List α} (hperm : l.Perm l') :
    Headed g w l' head where
  bound a ha b hb := h.bound a (hperm.mem_iff.mpr ha) b (hperm.mem_iff.mpr hb)
  head_mem a ha := hperm.mem_iff.mp (h.head_mem a (hperm.mem_iff.mpr ha))
  group a ha b hb := h.group a (hperm.mem_iff.mpr ha) b (hperm.mem_iff.mpr hb)
  behind a ha := h.behind a (hperm.mem_iff.mpr ha)

omit [DecidableEq α] in
/-- What folds next is no head, if it scores `w`. -/
theorem Headed.head_ne (h : Headed g w l head) (hchooses : Chooses g threshold l v k)
    (hw : g.score k v = w) : head v ≠ v := by
  intro hv
  have hkv := h.group k hchooses.keeper v hchooses.victim hchooses.ne hw
  rcases h.behind k hchooses.keeper with heq | ⟨-, hrank⟩
  · exact hchooses.ne (heq.symm.trans (hkv.trans hv))
  · rw [hkv, hv] at hrank
    exact absurd hchooses.rank (not_le.mpr hrank)

/-- Without it the groups have their heads still. -/
theorem Headed.erase (h : Headed g w l head) (hv : head v ≠ v) :
    Headed g w (l.filter (· ≠ v)) head where
  bound a ha b hb := h.bound a (List.mem_of_mem_filter ha) b (List.mem_of_mem_filter hb)
  head_mem a ha := by
    have ha' := List.mem_of_mem_filter ha
    refine List.mem_filter.mpr ⟨h.head_mem a ha', decide_eq_true fun heq => hv ?_⟩
    rw [← heq]
    exact h.head_head ha'
  group a ha b hb := h.group a (List.mem_of_mem_filter ha) b (List.mem_of_mem_filter hb)
  behind a ha := h.behind a (List.mem_of_mem_filter ha)

/-- **A level.** In whatever order they are listed, a run first folds the groups into their
heads. -/
theorem Headed.run (h : Headed g w l head) (hl : l.Nodup) (hw : threshold ≤ w) :
    ∃ folds, g.run threshold l = folds ++ g.run threshold (l.filter fun a => head a = a) ∧
      ∀ a ∈ l, root folds a = head a := by
  induction hlength : l.length using Nat.strong_induction_on generalizing l with
  | _ n ih =>
    subst hlength
    by_cases htie : ∃ a ∈ l, ∃ b ∈ l, a ≠ b ∧ g.score a b = w
    · obtain ⟨a, ha, b, hb, hne, htie⟩ := htie
      obtain ⟨p, hpick⟩ : ∃ p, g.pick threshold l = some p := by
        rw [← Option.ne_none_iff_exists']
        intro hnone
        exact absurd ((pick_eq_none hl).mp hnone a ha b hb hne) (not_lt.mpr (hw.trans_eq htie.symm))
      have hchooses := chooses hl hpick
      rw [run_of_pick hl hpick]
      set v := (g.fold p).1
      set k := (g.fold p).2
      have hscore : g.score k v = w :=
        (h.bound k hchooses.keeper v hchooses.victim hchooses.ne).antisymm
          (htie.symm.trans_le (hchooses.best a ha b hb hne))
      have hv := h.head_ne hchooses hscore
      obtain ⟨folds, hrun, hroot⟩ :=
        ih _ (length_filter_lt hchooses.victim) (h.erase hv) (hl.filter _) rfl
      have hheads : (l.filter (· ≠ v)).filter (fun a => head a = a) =
          l.filter fun a => head a = a := by
        rw [List.filter_filter]
        refine List.filter_congr fun a _ => ?_
        by_cases hav : a = v
        · subst hav
          simp [hv]
        · simp [hav]
      refine ⟨(v, k) :: folds, ?_, fun a ha => ?_⟩
      · rw [hrun, hheads]
        rfl
      · rw [root_cons]
        split_ifs with hav
        · rw [hroot k (List.mem_filter.mpr ⟨hchooses.keeper, by simpa using hchooses.ne⟩), hav]
          exact h.group k hchooses.keeper v hchooses.victim hchooses.ne hscore
        · exact hroot a (List.mem_filter.mpr ⟨ha, by simpa using hav⟩)
    · -- every item is a head
      have hall : ∀ a ∈ l, head a = a := by
        intro a ha
        refine (h.behind a ha).resolve_right fun hbehind => htie ?_
        refine ⟨head a, h.head_mem a ha, a, ha, fun heq => ?_, hbehind.1⟩
        rw [heq] at hbehind
        exact lt_irrefl _ hbehind.2
      refine ⟨[], ?_, fun a ha => (hall a ha).symm⟩
      rw [List.filter_eq_self.mpr fun a ha => decide_eq_true (hall a ha)]
      rfl

/-- A list that settles in one way folds in one way, at every higher threshold as well. -/
theorem Settles.root_eq (h : Settles g threshold l) (hl : l.Nodup) {t : Score}
    (ht : threshold ≤ t) {l' : List α} (hperm : l.Perm l') {a : α} (ha : a ∈ l) :
    root (g.run t l') a = root (g.run t l) a := by
  have hnone : ∀ {l : List α} (w : Score), (∀ a ∈ l, ∀ b ∈ l, a ≠ b → g.score a b ≤ w) → w < t →
      ∀ {l' : List α}, l.Perm l' → l'.Nodup → g.run t l' = [] := by
    intro l w hbound hlt l' hperm hl'
    refine (run_eq_nil hl').mpr fun a ha b hb hne => ?_
    exact (hbound a (hperm.mem_iff.mpr ha) b (hperm.mem_iff.mpr hb) hne).trans_lt hlt
  induction h generalizing l' a with
  | @done l hdone =>
    have hrun : ∀ {l' : List α}, l.Perm l' → g.run t l' = [] := by
      intro l' hperm
      refine (run_eq_nil (hperm.nodup_iff.mp hl)).mpr fun a ha b hb hne => ?_
      exact (hdone a (hperm.mem_iff.mpr ha) b (hperm.mem_iff.mpr hb) hne).trans_le ht
    rw [hrun hperm, hrun (List.Perm.refl l)]
  | @level l w head _ hheaded _ ih =>
    rcases le_or_gt t w with hle | hlt
    · obtain ⟨folds, hrun, hroot⟩ := hheaded.run hl hle
      obtain ⟨folds', hrun', hroot'⟩ := (hheaded.perm hperm).run (hperm.nodup_iff.mp hl) hle
      rw [hrun, hrun', root_append, root_append, hroot a ha, hroot' a (hperm.mem_iff.mp ha)]
      refine ih (hl.filter _) (hperm.filter _) ?_
      exact List.mem_filter.mpr ⟨hheaded.head_mem a ha, decide_eq_true (hheaded.head_head ha)⟩
    · rw [hnone w hheaded.bound hlt hperm (hperm.nodup_iff.mp hl),
        hnone w hheaded.bound hlt (List.Perm.refl l) hl]

/-! ## Two orders -/

/-- An item that no pair of the score `w` drops. -/
def Top (g : Guide α Score Rank) (w : Score) (l : List α) (a : α) : Prop :=
  ∀ b ∈ l, b ≠ a → g.score b a = w → g.rank a ≤ g.rank b

/-- It stays as long as only such pairs fold. -/
theorem Top.stays (hbound : ∀ a ∈ l, ∀ b ∈ l, a ≠ b → g.score a b ≤ w)
    (hinj : ∀ a ∈ l, ∀ b ∈ l, g.rank a = g.rank b → a = b) {m : α} (hm : m ∈ l)
    (htop : g.Top w l m) {l' : List α} (hl' : l'.Nodup) (hsub : l' ⊆ l) : g.Stays w l' m := by
  rintro ⟨v, k⟩ hf rfl
  obtain ⟨hv, hk, hne, hrank, hreach⟩ := of_mem_run hl' hf
  have hscore := (hbound k (hsub hk) v (hsub hv) hne).antisymm hreach
  exact hne (hinj k (hsub hk) v hm (hrank.antisymm (htop k (hsub hk) hne hscore)))

/-- If the first two items of a list tie for the best score, their pair folds first. -/
theorem run_cons_cons {x y : α} {tail : List α} (hl : (x :: y :: tail).Nodup)
    (hbound : ∀ a ∈ x :: y :: tail, ∀ b ∈ x :: y :: tail, a ≠ b → g.score a b ≤ w)
    (hscore : g.score y x = w) (hrank : g.rank y < g.rank x) :
    g.run w (x :: y :: tail) = (x, y) :: g.run w (y :: tail) := by
  have hpick : g.pick w (x :: y :: tail) = some (x, y) := by
    have hxy : g.score x y = w := (g.symm x y).trans hscore
    have hpairs : pairs (x :: y :: tail) =
        [] ++ (x, y) :: (tail.map (fun b => (x, b)) ++ pairs (y :: tail)) := rfl
    rw [pick, hpairs]
    refine firstBest_append_cons hxy.ge nofun fun p hp => ?_
    obtain ⟨a, b⟩ := p
    have hp' : (a, b) ∈ pairs (x :: y :: tail) := List.mem_cons_of_mem _ hp
    obtain ⟨ha, hb⟩ := mem_of_mem_pairs hp'
    exact (hbound a ha b hb (ne_of_mem_pairs hl hp')).trans_eq hxy.symm
  have hfold : g.fold (x, y) = (x, y) := if_neg (not_le.mpr hrank)
  have hrest : (x :: y :: tail).filter (· ≠ x) = y :: tail := by
    rw [List.filter_cons_of_neg (by simp), List.filter_eq_self]
    exact fun a ha => decide_eq_true fun heq => (List.nodup_cons.mp hl).1 (heq ▸ ha)
  rw [run_of_pick hl hpick, hfold, hrest]

/-- A list can begin with any two of its items. -/
theorem exists_perm_cons_cons {x y : α} (hx : x ∈ l) (hy : y ∈ l) (hne : y ≠ x) :
    ∃ tail, l.Perm (x :: y :: tail) :=
  ⟨_, (List.perm_cons_erase hx).trans
    ((List.perm_cons_erase ((List.mem_erase_of_ne hne).mpr hy)).cons x)⟩

omit [DecidableEq α] [LinearOrder Score] in
/-- In a list ordered by rank the pairs are ordered by their first items. -/
theorem pairwise_pairs (hsorted : l.Pairwise fun a b => g.rank a ≤ g.rank b) :
    (pairs l).Pairwise fun p q => g.rank p.1 ≤ g.rank q.1 := by
  induction l with
  | nil => exact List.Pairwise.nil
  | cons a l ih =>
    obtain ⟨ha, hl⟩ := List.pairwise_cons.mp hsorted
    refine List.pairwise_append.mpr ⟨?_, ih hl, ?_⟩
    · exact List.pairwise_map.mpr (List.pairwise_of_forall fun _ _ => le_rfl)
    · intro p hp q hq
      obtain ⟨b, -, rfl⟩ := List.mem_map.mp hp
      exact ha q.1 (mem_of_mem_pairs hq).1

omit [DecidableEq α] in
/-- So no pair that ties with the one that is picked has an item of a better rank. -/
theorem rank_le_of_pick (hsorted : l.Pairwise fun a b => g.rank a ≤ g.rank b) {p : α × α}
    (hpick : g.pick threshold l = some p) {m k : α} (hm : m ∈ l) (hk : k ∈ l)
    (hrank : g.rank m < g.rank k) (htie : g.score p.1 p.2 ≤ g.score m k) :
    g.rank p.1 ≤ g.rank m := by
  obtain ⟨before, after, hpairs, -, hbefore, -⟩ := of_firstBest hpick
  have hmk : (m, k) ∈ pairs l := by
    refine (mem_pairs_or hm hk fun heq => (heq ▸ hrank).false).resolve_right fun hkm => ?_
    have hsub := hsorted.sublist (mem_pairs.mp hkm)
    exact absurd (by simpa using hsub) (not_le.mpr hrank)
  rw [hpairs, List.mem_append, List.mem_cons] at hmk
  rcases hmk with hin | heq | hin
  · exact absurd htie (not_le.mpr (hbefore _ hin))
  · rw [← heq]
  · have hordered := pairwise_pairs hsorted
    rw [hpairs] at hordered
    exact (List.pairwise_cons.mp (List.pairwise_append.mp hordered).2.1).1 _ hin

/-- Two orders of the list fold differently at the threshold `w`. -/
def Diverges (g : Guide α Score Rank) (w : Score) (l : List α) : Prop :=
  ∃ l₁ l₂, l.Perm l₁ ∧ l.Perm l₂ ∧ ∃ a ∈ l, root (g.run w l₁) a ≠ root (g.run w l₂) a

/-- An item between two tops: listed before the one, it folds into that; listed before an item
that folds into the other, it comes to the other. -/
theorem diverges_of_fork (hl : l.Nodup) (hbound : ∀ a ∈ l, ∀ b ∈ l, a ≠ b → g.score a b ≤ w)
    (hinj : ∀ a ∈ l, ∀ b ∈ l, g.rank a = g.rank b → a = b) {a b m m' : α} (ha : a ∈ l)
    (hb : b ∈ l) (hm : m ∈ l) (hm' : m' ∈ l) (hab : g.score b a = w)
    (hrank : g.rank b < g.rank a) (htop : g.Top w l m) (hma : g.score m a = w)
    (hrankm : g.rank m < g.rank a) (htop' : g.Top w l m')
    (hmb : m' = b ∨ g.score m' b = w ∧ g.rank m' < g.rank b) (hne : m ≠ m') :
    g.Diverges w l := by
  have hne_of : ∀ {x y : α}, g.rank x < g.rank y → x ≠ y := fun hlt heq => (heq ▸ hlt).false
  have hfirst : ∀ {y : α} {tail : List α}, l.Perm (a :: y :: tail) → y ∈ l → g.score y a = w →
      g.rank y < g.rank a → (y :: tail).Nodup ∧ (∀ c ∈ y :: tail, c ∈ l) ∧
        root (g.run w (a :: y :: tail)) a = root (g.run w (y :: tail)) y := by
    intro y tail hperm hy hscore hlt
    have hnodup := hperm.nodup_iff.mp hl
    have hin : ∀ c ∈ a :: y :: tail, c ∈ l := fun c => hperm.mem_iff.mpr
    refine ⟨(List.nodup_cons.mp hnodup).2, fun c hc => hin c (List.mem_cons_of_mem a hc), ?_⟩
    rw [run_cons_cons hnodup (fun c hc d hd => hbound c (hin c hc) d (hin d hd)) hscore hlt,
      root_cons, if_pos rfl]
  obtain ⟨tail, hperm⟩ := exists_perm_cons_cons ha hm (hne_of hrankm)
  obtain ⟨hnodup, hin, hroot⟩ := hfirst hperm hm hma hrankm
  have hone : root (g.run w (a :: m :: tail)) a = m :=
    hroot.trans (root_of_stays (htop.stays hbound hinj hm hnodup hin))
  obtain ⟨l', hperm', hother⟩ : ∃ l', l.Perm l' ∧ root (g.run w l') a = m' := by
    rcases hmb with rfl | ⟨hscore, hlt⟩
    · obtain ⟨tail', hperm'⟩ := exists_perm_cons_cons ha hb (hne_of hrank)
      obtain ⟨hnodup', hin', hroot'⟩ := hfirst hperm' hb hab hrank
      exact ⟨_, hperm', hroot'.trans
        (root_of_stays (htop'.stays hbound hinj hb hnodup' hin'))⟩
    · obtain ⟨tail', hperm'⟩ :=
        exists_perm_cons_cons ((List.mem_erase_of_ne (hne_of hrank)).mpr hb)
          ((List.mem_erase_of_ne (hne_of (hlt.trans hrank))).mpr hm') (hne_of hlt)
      have hperm' := (List.perm_cons_erase ha).trans (hperm'.cons a)
      obtain ⟨hnodup', hin', hroot'⟩ := hfirst hperm' hb hab hrank
      refine ⟨_, hperm', hroot'.trans ?_⟩
      rw [run_cons_cons hnodup' (fun c hc d hd => hbound c (hin' c hc) d (hin' d hd)) hscore hlt,
        root_cons, if_pos rfl]
      exact root_of_stays (htop'.stays hbound hinj hm' (List.nodup_cons.mp hnodup').2
        fun c hc => hin' c (List.mem_cons_of_mem b hc))
  exact ⟨_, l', hperm, hperm', a, ha, by rwa [hone, hother]⟩

/-- The best of the items that tie with a better one, but with no top: listed before that one,
it is dropped; in the order of the ranks all items that could drop it are dropped before. -/
theorem diverges_of_uncovered (hl : l.Nodup)
    (hbound : ∀ a ∈ l, ∀ b ∈ l, a ≠ b → g.score a b ≤ w)
    (hinj : ∀ a ∈ l, ∀ b ∈ l, g.rank a = g.rank b → a = b) {x y : α} (hx : x ∈ l) (hy : y ∈ l)
    (hyx : g.score y x = w) (hrank : g.rank y < g.rank x)
    (hnone : ∀ m ∈ l, g.Top w l m → g.score m x ≠ w)
    (hmin : ∀ k ∈ l, g.rank k < g.rank x → ¬ g.Top w l k →
      ∃ m ∈ l, g.Top w l m ∧ g.score m k = w ∧ g.rank m < g.rank k) :
    g.Diverges w l := by
  obtain ⟨tail, hperm⟩ := exists_perm_cons_cons hx hy fun heq => (heq ▸ hrank).false
  let sorted := l.insertionSort fun a b => g.rank a ≤ g.rank b
  have hsorted : l.Perm sorted := (List.perm_insertionSort _ l).symm
  have hdropped : root (g.run w (x :: y :: tail)) x ≠ x := by
    have hnodup := hperm.nodup_iff.mp hl
    have hin : ∀ c ∈ x :: y :: tail, c ∈ l := fun c => hperm.mem_iff.mpr
    rw [run_cons_cons hnodup (fun c hc d hd => hbound c (hin c hc) d (hin d hd)) hyx hrank,
      root_cons, if_pos rfl]
    intro heq
    have hle := (root_run g w (List.nodup_cons.mp hnodup).2
      (List.mem_cons_self (a := y) (l := tail))).2.2
    rw [heq] at hle
    exact absurd hle (not_le.mpr hrank)
  have hkept : g.Stays w sorted x := by
    refine run_induct (P := fun l' folds => (l'.Pairwise fun a b => g.rank a ≤ g.rank b) →
      (∀ c ∈ l', c ∈ l) → (∀ m ∈ l, g.Top w l m → m ∈ l') → ∀ f ∈ folds, f.1 ≠ x) ?_ ?_
      (hsorted.nodup_iff.mp hl) (List.pairwise_insertionSort _ l)
      (fun c hc => hsorted.mem_iff.mpr hc) fun m hm _ => hsorted.mem_iff.mp hm
    · exact fun _ _ _ _ _ _ f hf => absurd hf List.not_mem_nil
    · intro l' v k hl' hchooses ih hordered hin htops f hf
      have hk := hin k hchooses.keeper
      have hv := hin v hchooses.victim
      have hkv : g.score k v = w := (hbound k hk v hv hchooses.ne).antisymm hchooses.reach
      have hlt : g.rank k < g.rank v :=
        hchooses.rank.lt_of_ne fun heq => hchooses.ne (hinj k hk v hv heq)
      rcases List.mem_cons.mp hf with rfl | hf
      · -- the item that drops `x` is dropped by a top, whose pair comes first
        rintro rfl
        obtain ⟨m, hm, htop, hmk, hrankm⟩ := hmin k hk hlt fun htop => hnone k hk htop hkv
        obtain ⟨p, hpick, hfold⟩ := hchooses.pick
        have hbest : g.score p.1 p.2 ≤ g.score m k := by
          obtain ⟨hp, hp'⟩ := mem_of_mem_pairs (mem_of_firstBest hpick)
          rw [hmk]
          exact hbound _ (hin _ hp) _ (hin _ hp') (ne_of_mem_pairs hl' (mem_of_firstBest hpick))
        have hle := rank_le_of_pick hordered hpick (htops m hm htop) hchooses.keeper hrankm hbest
        rcases g.fold_cases p with ⟨heq, -⟩ | ⟨heq, -⟩
        · obtain ⟨-, rfl⟩ := Prod.mk.inj (heq.symm.trans hfold)
          exact absurd hle (not_le.mpr hrankm)
        · obtain rfl : p.1 = v := congrArg Prod.fst (heq.symm.trans hfold)
          exact absurd hle (not_le.mpr (hrankm.trans hlt))
      · refine ih (hordered.filter _) (fun c hc => hin c (List.mem_of_mem_filter hc))
          (fun m hm htop => List.mem_filter.mpr ⟨htops m hm htop, decide_eq_true ?_⟩) f hf
        rintro rfl
        exact absurd (htop k hk hchooses.ne hkv) (not_le.mpr hlt)
  exact ⟨_, sorted, hperm, hsorted, x, hx, by rwa [root_of_stays hkept]⟩

/-- A top, or an item that a top can drop. -/
def Covered (g : Guide α Score Rank) (w : Score) (l : List α) (x : α) : Prop :=
  g.Top w l x ∨ ∃ m ∈ l, g.Top w l m ∧ g.score m x = w ∧ g.rank m < g.rank x

/-- Every item has a top, but no choice of tops makes heads: some two items that tie have
different ones. -/
theorem diverges_of_covered (hl : l.Nodup) (hbound : ∀ a ∈ l, ∀ b ∈ l, a ≠ b → g.score a b ≤ w)
    (hinj : ∀ a ∈ l, ∀ b ∈ l, g.rank a = g.rank b → a = b)
    (hcover : ∀ x ∈ l, g.Covered w l x) (hnot : ∀ head, ¬ Headed g w l head) :
    g.Diverges w l := by
  have hhead : ∀ x, ∃ m, x ∈ l → m ∈ l ∧ g.Top w l m ∧
      (m = x ∨ g.score m x = w ∧ g.rank m < g.rank x) := by
    intro x
    by_cases hx : x ∈ l
    · rcases hcover x hx with htop | ⟨m, hm, htop, hbehind⟩
      · exact ⟨x, fun _ => ⟨hx, htop, .inl rfl⟩⟩
      · exact ⟨m, fun _ => ⟨hm, htop, .inr hbehind⟩⟩
    · exact ⟨x, fun h => absurd h hx⟩
  choose head hhead using hhead
  obtain ⟨a, ha, b, hb, hab, hrank, hne⟩ : ∃ a ∈ l, ∃ b ∈ l, g.score b a = w ∧
      g.rank b < g.rank a ∧ head a ≠ head b := by
    by_contra hnone
    push Not at hnone
    refine hnot head ⟨hbound, fun a ha => (hhead a ha).1, ?_, fun a ha => (hhead a ha).2.2⟩
    intro a ha b hb hne hscore
    rcases lt_trichotomy (g.rank a) (g.rank b) with hrank | heq | hrank
    · exact (hnone b hb a ha hscore hrank).symm
    · exact absurd (hinj a ha b hb heq) hne
    · exact hnone a ha b hb ((g.symm b a).trans hscore) hrank
  obtain ⟨hm, htop, hbehind⟩ := hhead a ha
  obtain ⟨hm', htop', hbehind'⟩ := hhead b hb
  have hane : head a ≠ a := fun heq => by
    rw [heq] at htop
    exact absurd (htop b hb (fun heq => (heq ▸ hrank).false) hab) (not_le.mpr hrank)
  obtain ⟨hma, hrankm⟩ := hbehind.resolve_left hane
  exact diverges_of_fork hl hbound hinj ha hb hm hm' hab hrank htop hma hrankm htop' hbehind' hne

/-- Some item has no top: take the best of them. -/
theorem diverges_of_not_covered (hl : l.Nodup)
    (hbound : ∀ a ∈ l, ∀ b ∈ l, a ≠ b → g.score a b ≤ w)
    (hinj : ∀ a ∈ l, ∀ b ∈ l, g.rank a = g.rank b → a = b)
    (hcover : ∃ x ∈ l, ¬ g.Covered w l x) : g.Diverges w l := by
  classical
  obtain ⟨x, hx, hmin⟩ : ∃ x ∈ l.toFinset.filter fun x => ¬ g.Covered w l x,
      ∀ k ∈ l.toFinset.filter fun x => ¬ g.Covered w l x, g.rank x ≤ g.rank k := by
    refine Finset.exists_min_image _ g.rank ?_
    obtain ⟨x, hx, hnot⟩ := hcover
    exact ⟨x, Finset.mem_filter.mpr ⟨List.mem_toFinset.mpr hx, hnot⟩⟩
  obtain ⟨hx, hnot⟩ := Finset.mem_filter.mp hx
  rw [List.mem_toFinset] at hx
  obtain ⟨hntop, hnone⟩ := not_or.mp hnot
  obtain ⟨y, hy, -, hscore, hrank⟩ : ∃ y ∈ l, y ≠ x ∧ g.score y x = w ∧
      g.rank y < g.rank x := by
    rw [Top] at hntop
    push Not at hntop
    exact hntop
  refine diverges_of_uncovered hl hbound hinj hx hy hscore hrank (fun m hm htop hmx => ?_) ?_
  · have hne : m ≠ x := fun heq => hntop (heq ▸ htop)
    have hle := htop x hx hne.symm ((g.symm x m).trans hmx)
    exact hnone ⟨m, hm, htop, hmx, hle.lt_of_ne fun heq => hne (hinj m hm x hx heq)⟩
  · intro k hk hlt hntop'
    by_contra hnone'
    refine absurd (hmin k (Finset.mem_filter.mpr ⟨List.mem_toFinset.mpr hk, ?_⟩))
      (not_le.mpr hlt)
    exact not_or.mpr ⟨hntop', hnone'⟩

/-- Without heads the list diverges. -/
theorem diverges_of_not_headed (hl : l.Nodup)
    (hbound : ∀ a ∈ l, ∀ b ∈ l, a ≠ b → g.score a b ≤ w)
    (hinj : ∀ a ∈ l, ∀ b ∈ l, g.rank a = g.rank b → a = b)
    (hnot : ∀ head, ¬ Headed g w l head) : g.Diverges w l := by
  by_cases hcover : ∀ x ∈ l, g.Covered w l x
  · exact diverges_of_covered hl hbound hinj hcover hnot
  · push Not at hcover
    exact diverges_of_not_covered hl hbound hinj hcover

/-- What diverges once the groups are folded diverges before. -/
theorem Headed.diverges {head : α → α} (h : Headed g w l head) (hl : l.Nodup) {t : Score}
    (hdiverges : g.Diverges t (l.filter fun a => head a = a)) : g.Diverges t l := by
  obtain ⟨l₁, l₂, hperm₁, hperm₂, a, ha, hne⟩ := hdiverges
  obtain ⟨hin, hhead⟩ := List.mem_filter.mp ha
  rw [decide_eq_true_eq] at hhead
  -- the others are listed behind the heads
  have hlift : ∀ {l' : List α}, (l.filter fun a => head a = a).Perm l' →
      l.Perm (l' ++ l.filter fun a => !decide (head a = a)) ∧
        (t ≤ w → root (g.run t (l' ++ l.filter fun a => !decide (head a = a))) a =
          root (g.run t l') a) := by
    intro l' hperm
    have hwhole : l.Perm (l' ++ l.filter fun a => !decide (head a = a)) :=
      (List.filter_append_perm _ l).symm.trans (hperm.append_right _)
    refine ⟨hwhole, fun hle => ?_⟩
    obtain ⟨folds, hrun, hroot⟩ := (h.perm hwhole).run (hwhole.nodup_iff.mp hl) hle
    have hheads : (l' ++ l.filter fun a => !decide (head a = a)).filter (fun a => head a = a) =
        l' := by
      rw [List.filter_append, List.filter_eq_self.mpr, List.filter_eq_nil_iff.mpr, List.append_nil]
      · intro c hc
        simpa using (List.mem_filter.mp hc).2
      · intro c hc
        exact (List.mem_filter.mp (hperm.mem_iff.mpr hc)).2
    rw [hrun, hheads, root_append, hroot a (hwhole.mem_iff.mp hin), hhead]
  obtain ⟨hwhole₁, hroot₁⟩ := hlift hperm₁
  obtain ⟨hwhole₂, hroot₂⟩ := hlift hperm₂
  -- above `w` nothing folds
  have hle : t ≤ w := by
    by_contra hlt
    rw [not_le] at hlt
    have hnil : ∀ {l' : List α}, (l.filter fun a => head a = a).Perm l' → g.run t l' = [] := by
      intro l' hperm
      refine (run_eq_nil (hperm.nodup_iff.mp (hl.filter _))).mpr fun c hc d hd hcd => ?_
      exact (h.bound c (List.mem_of_mem_filter (hperm.mem_iff.mpr hc)) d
        (List.mem_of_mem_filter (hperm.mem_iff.mpr hd)) hcd).trans_lt hlt
    exact hne (by rw [hnil hperm₁, hnil hperm₂])
  exact ⟨_, _, hwhole₁, hwhole₂, a, hin, by rwa [hroot₁ hle, hroot₂ hle]⟩

/-- A list that does not settle in one way diverges. -/
theorem exists_diverges (hl : l.Nodup) (hinj : ∀ a ∈ l, ∀ b ∈ l, g.rank a = g.rank b → a = b)
    (hnot : ¬ g.Settles threshold l) : ∃ t, threshold ≤ t ∧ g.Diverges t l := by
  induction hlength : l.length using Nat.strong_induction_on generalizing l with
  | _ n ih =>
    subst hlength
    rcases hpick : g.pick threshold l with _ | p
    · exact absurd (.done ((pick_eq_none hl).mp hpick)) hnot
    · have hchooses := chooses hl hpick
      set v := (g.fold p).1
      set k := (g.fold p).2
      by_cases hheaded : ∃ head, Headed g (g.score k v) l head
      · obtain ⟨head, hheaded⟩ := hheaded
        have hshorter : (l.filter fun a => head a = a).length < l.length :=
          List.length_filter_lt_length_iff_exists.mpr
            ⟨v, hchooses.victim, by simpa using hheaded.head_ne hchooses rfl⟩
        have hinj' : ∀ a ∈ l.filter (fun a => head a = a), ∀ b ∈ l.filter (fun a => head a = a),
            g.rank a = g.rank b → a = b := fun a ha b hb =>
          hinj a (List.mem_of_mem_filter ha) b (List.mem_of_mem_filter hb)
        obtain ⟨t, ht, hdiverges⟩ := ih _ hshorter (hl.filter _) hinj'
          (fun hsettles => hnot (.level _ head hchooses.reach hheaded hsettles)) rfl
        exact ⟨t, ht, hheaded.diverges hl hdiverges⟩
      · exact ⟨_, hchooses.reach, diverges_of_not_headed hl hchooses.best hinj
          fun head h => hheaded ⟨head, h⟩⟩

/-- **The order of the list, exactly.** At every threshold from this one on, the folds are the
same for every order of the list, if and only if the list settles in one way. -/
theorem order_irrelevant_iff (hl : l.Nodup)
    (hinj : ∀ a ∈ l, ∀ b ∈ l, g.rank a = g.rank b → a = b) :
    (∀ t, threshold ≤ t → ∀ l', l.Perm l' → ∀ a ∈ l, root (g.run t l') a = root (g.run t l) a) ↔
      g.Settles threshold l := by
  constructor
  · intro h
    by_contra hnot
    obtain ⟨t, ht, l₁, l₂, hperm₁, hperm₂, a, ha, hne⟩ := exists_diverges hl hinj hnot
    exact hne ((h t ht l₁ hperm₁ a ha).trans (h t ht l₂ hperm₂ a ha).symm)
  · exact fun h t ht l' hperm a ha => h.root_eq hl ht hperm ha

end

end Guide

end Folding
