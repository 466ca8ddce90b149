import Mathlib.Data.Finset.Card

/-!
# Chasing a partial map

`chase next` follows `next` from an element until it ends, or comes to an element it
has been at. Where it stops it stays: `chase_chase`. On a cycle that is so because the
element it stops at is the first one it met again, and from there the chase goes round
the same cycle.
-/

variable {α : Type} [DecidableEq α] {next : α → Option α}

/-- Follow `next`, at most `fuel` times, until it ends or meets an element it has
seen. -/
def chase (next : α → Option α) : ℕ → List α → α → α
  | 0, _, a => a
  | fuel + 1, seen, a =>
    if a ∈ seen then a
    else
      match next a with
      | some b => chase next fuel (a :: seen) b
      | none => a

/-- `next` leads from the first element through the list to the last one, which is not
in the list. -/
inductive Walk (next : α → Option α) : α → List α → α → Prop where
  | here (a : α) : Walk next a [] a
  | step {a b c : α} {l : List α} : next a = some b → Walk next b l c → Walk next a (a :: l) c

omit [DecidableEq α] in
/-- A walk can be begun at any element it passes. -/
theorem Walk.from {a b c : α} {l : List α} (h : Walk next a l c) (hb : b ∈ l) :
    ∃ l', Walk next b (b :: l') c ∧ (b :: l').Sublist l := by
  induction h with
  | here a => cases hb
  | @step a a' c l ha hl ih =>
    rcases List.mem_cons.mp hb with rfl | hb
    · exact ⟨l, .step ha hl, List.Sublist.refl _⟩
    · obtain ⟨l', hwalk, hsub⟩ := ih hb
      exact ⟨l', hwalk, hsub.cons a⟩

/-- The chase along a walk that meets nothing seen and nothing twice, to an element
where a chase stops. -/
theorem chase_of_walk {a c : α} {l seen : List α} {fuel : ℕ} (h : Walk next a l c)
    (hnodup : l.Nodup) (hnew : ∀ x ∈ l, x ∉ seen) (hfuel : l.length < fuel)
    (hstop : c ∈ seen ∨ c ∈ l ∨ next c = none) : chase next fuel seen a = c := by
  induction h generalizing seen fuel with
  | here a =>
    obtain ⟨fuel, rfl⟩ := Nat.exists_eq_add_of_lt hfuel
    rcases hstop with hseen | hl | hend
    · simp [chase, hseen]
    · cases hl
    · by_cases hseen : a ∈ seen
      · simp [chase, hseen]
      · simp [chase, hseen, hend]
  | @step a b c l ha hl ih =>
    obtain ⟨fuel, rfl⟩ : ∃ n, fuel = n + 1 := ⟨fuel - 1, by omega⟩
    have hnot : a ∉ seen := hnew a List.mem_cons_self
    rw [List.nodup_cons] at hnodup
    rw [chase, if_neg hnot, ha]
    refine ih hnodup.2 (fun x hx => ?_) (by simp only [List.length_cons] at hfuel; omega) ?_
    · rw [List.mem_cons, not_or]
      exact ⟨by rintro rfl; exact hnodup.1 hx, hnew x (List.mem_cons_of_mem _ hx)⟩
    · rw [List.mem_cons] at hstop ⊢
      tauto

/-- With more fuel than there are elements left to see, a chase walks to an element
where it has to stop. -/
theorem chase_walk {keys : Finset α} (hkeys : ∀ a, next a ≠ none → a ∈ keys) {fuel : ℕ}
    {seen : List α} (hfuel : (keys \ seen.toFinset).card < fuel) (a : α) :
    ∃ l, Walk next a l (chase next fuel seen a) ∧ l.Nodup ∧ (∀ x ∈ l, x ∉ seen) ∧
      (∀ x ∈ l, x ∈ keys) ∧ (chase next fuel seen a ∈ seen ∨ chase next fuel seen a ∈ l ∨
        next (chase next fuel seen a) = none) := by
  induction fuel generalizing seen a with
  | zero => omega
  | succ fuel ih =>
    by_cases hseen : a ∈ seen
    · refine ⟨[], ?_, List.nodup_nil, by simp, by simp, ?_⟩
      · simpa [chase, hseen] using Walk.here a
      · simp [chase, hseen]
    · rcases hnext : next a with _ | b
      · refine ⟨[], ?_, List.nodup_nil, by simp, by simp, ?_⟩
        · simpa [chase, hseen, hnext] using Walk.here a
        · simp [chase, hseen, hnext]
      · have ha : a ∈ keys := hkeys a (by simp [hnext])
        -- one element less is left to see
        have hless : (keys \ (a :: seen).toFinset).card < (keys \ seen.toFinset).card := by
          refine Finset.card_lt_card ⟨?_, fun hsub => ?_⟩
          · intro x hx
            simp only [List.toFinset_cons, Finset.mem_sdiff, Finset.mem_insert,
              List.mem_toFinset, not_or] at hx ⊢
            exact ⟨hx.1, hx.2.2⟩
          · have hmem : a ∈ keys \ seen.toFinset := by simp [ha, hseen]
            simpa using hsub hmem
        obtain ⟨l, hwalk, hnodup, hnew, hin, hstop⟩ := @ih (a :: seen) (by omega) b
        rw [chase, if_neg hseen, hnext]
        refine ⟨a :: l, .step hnext hwalk, ?_, ?_, ?_, ?_⟩
        · exact List.nodup_cons.mpr ⟨fun hl => hnew a hl List.mem_cons_self, hnodup⟩
        · rintro x hx
          rcases List.mem_cons.mp hx with rfl | hx
          · exact hseen
          · exact fun hs => hnew x hx (List.mem_cons_of_mem _ hs)
        · rintro x hx
          rcases List.mem_cons.mp hx with rfl | hx
          · exact ha
          · exact hin x hx
        · rcases hstop with hs | hl | hend
          · rcases List.mem_cons.mp hs with heq | hs
            · exact Or.inr (Or.inl (List.mem_cons.mpr (Or.inl heq)))
            · exact Or.inl hs
          · exact Or.inr (Or.inl (List.mem_cons_of_mem _ hl))
          · exact Or.inr (Or.inr hend)

/-- Where a chase stops, the next one stops at once or comes back to. -/
theorem chase_chase {keys : Finset α} (hkeys : ∀ a, next a ≠ none → a ∈ keys) {fuel : ℕ}
    (hfuel : keys.card < fuel) (a : α) :
    chase next fuel [] (chase next fuel [] a) = chase next fuel [] a := by
  obtain ⟨l, hwalk, hnodup, -, hin, hstop⟩ :=
    @chase_walk _ _ next keys hkeys fuel [] (by simpa using hfuel) a
  generalize chase next fuel [] a = c at *
  rcases hstop with hs | hl | hend
  · cases hs
  · -- on a cycle
    obtain ⟨l', hround, hsub⟩ := hwalk.from hl
    have hlen : (c :: l').length ≤ keys.card := by
      rw [← List.toFinset_card_of_nodup (hsub.nodup hnodup)]
      refine Finset.card_le_card fun x hx => ?_
      exact hin x (hsub.subset (List.mem_toFinset.mp hx))
    exact chase_of_walk hround (hsub.nodup hnodup) (by simp) (by omega)
      (Or.inr (Or.inl List.mem_cons_self))
  · exact chase_of_walk (.here c) List.nodup_nil (by simp) (by simp; omega) (Or.inr (Or.inr hend))

omit [DecidableEq α] in
/-- A walk climbs with each of its steps. -/
theorem Walk.climb {rank : α → ℕ} (hrank : ∀ a b, next a = some b → rank a < rank b) {a c : α}
    {l : List α} (h : Walk next a l c) : rank a + l.length ≤ rank c := by
  induction h with
  | here a => exact le_rfl
  | @step a b c l ha _ ih =>
    have hstep := hrank a b ha
    rw [List.length_cons]
    omega

/-- Where every step climbs there is no cycle, and a chase ends where there is no step. -/
theorem chase_ends {rank : α → ℕ} (hrank : ∀ a b, next a = some b → rank a < rank b)
    {keys : Finset α} (hkeys : ∀ a, next a ≠ none → a ∈ keys) {fuel : ℕ}
    (hfuel : keys.card < fuel) (a : α) : next (chase next fuel [] a) = none := by
  obtain ⟨l, hwalk, -, -, -, hstop⟩ :=
    @chase_walk _ _ next keys hkeys fuel [] (by simpa using hfuel) a
  rcases hstop with hs | hl | hend
  · cases hs
  · obtain ⟨l', hround, -⟩ := hwalk.from hl
    have hclimb := hround.climb hrank
    rw [List.length_cons] at hclimb
    omega
  · exact hend

/-- What every step keeps, the whole chase keeps. -/
theorem chase_induct {P : α → Prop} (hstep : ∀ a b, next a = some b → P a → P b) {fuel : ℕ}
    {seen : List α} {a : α} (h : P a) : P (chase next fuel seen a) := by
  induction fuel generalizing seen a with
  | zero => exact h
  | succ fuel ih =>
    rw [chase]
    split
    · exact h
    · rcases hnext : next a with _ | b
      · exact h
      · exact ih (hstep a b hnext h)
