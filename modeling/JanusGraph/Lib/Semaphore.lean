import Mathlib.Data.List.Sort

/-!
# Jobs behind a semaphore

Jobs that are started in order behind a fair semaphore: each waits for a permit, works
for its duration and hands the permit on. `schedule` says when each of them starts and
finishes, counted from the start of the first.

If no job takes longer than `R`, job `i` of `c` permits has finished by `(i / c + 1) * R`
(`finish_le`); if all of them take `R`, that is when it finishes (`schedule_replicate`).

`served` is the same for jobs that arrive later. No order of service that leaves the jobs
in their order starts a job earlier, so if they can all be started by a time at all, they are
(`served_le_iff`).
-/

namespace Semaphore

/-- Start and finish of each job, given when the permits become free, the earliest
first. Without permits nobody starts. -/
def runs : List ℕ → List ℕ → List (ℕ × ℕ)
  | _, [] => []
  | [], _ :: _ => []
  | free :: frees, d :: ds =>
    (free, free + d) :: runs (frees.orderedInsert (· ≤ ·) (free + d)) ds

/-- The schedule of jobs behind `permits` permits. -/
def schedule (permits : ℕ) (durations : List ℕ) : List (ℕ × ℕ) :=
  runs (List.replicate permits 0) durations

/-! ## No job takes longer than `R` -/

/-- After `i` jobs, at most `i - k * c` of the `c` permits become free later than
`k * R`. -/
def Paced (R i : ℕ) (frees : List ℕ) : Prop :=
  ∀ k, (frees.countP fun t => k * R < t) ≤ i - k * frees.length

theorem paced_replicate (R permits : ℕ) : Paced R 0 (List.replicate permits 0) := by
  intro k
  simp [List.countP_replicate]

/-- If the first permit is not free by `k * R`, none is. -/
theorem le_of_paced {R i k free : ℕ} {frees : List ℕ} (hpaced : Paced R i (free :: frees))
    (hsorted : (free :: frees).Pairwise (· ≤ ·)) (hlate : k * R < free) :
    frees.length + 1 ≤ i - k * (frees.length + 1) := by
  have hall : ∀ t ∈ free :: frees, decide (k * R < t) = true := by
    intro t ht
    have hle : free ≤ t := by
      rcases List.mem_cons.mp ht with rfl | ht
      · exact le_refl t
      · exact List.rel_of_pairwise_cons hsorted ht
    simpa using lt_of_lt_of_le hlate hle
  have hcount := hpaced k
  rwa [List.countP_eq_length.mpr hall] at hcount

/-- A job of at most `R` keeps the pace. -/
theorem Paced.step {R i d free : ℕ} {frees : List ℕ} (hpaced : Paced R i (free :: frees))
    (hsorted : (free :: frees).Pairwise (· ≤ ·)) (hd : d ≤ R) :
    Paced R (i + 1) (frees.orderedInsert (· ≤ ·) (free + d)) := by
  intro k
  have hperm := List.perm_orderedInsert (· ≤ ·) (free + d) frees
  rw [hperm.countP_eq, hperm.length_eq, List.length_cons, List.countP_cons]
  have hk := hpaced k
  rw [List.length_cons, List.countP_cons] at hk
  by_cases hlate : k * R < free
  · -- nobody is free by `k * R`, before or after
    have hall := le_of_paced hpaced hsorted hlate
    have hle : frees.countP (fun t => k * R < t) ≤ frees.length := List.countP_le_length
    split <;> omega
  · rw [if_neg (by simpa using hlate)] at hk
    split
    · rename_i hnew
      have hnew : k * R < free + d := by simpa using hnew
      -- the permit was not free by `(k - 1) * R`, so none was
      have hi : k * (frees.length + 1) ≤ i := by
        rcases k with _ | k
        · omega
        · have hearlier : k * R < free := by
            rw [Nat.succ_mul] at hnew
            omega
          have hall := le_of_paced hpaced hsorted hearlier
          rw [Nat.succ_mul]
          omega
      omega
    · omega

/-- While they keep the pace, job `i` is done by `(i / c + 1) * R`. -/
theorem finish_le_of_paced {R c : ℕ} (hc : 0 < c) {durations : List ℕ}
    (hd : ∀ d ∈ durations, d ≤ R) {i j start finish : ℕ} {frees : List ℕ}
    (hlength : frees.length = c) (hsorted : frees.Pairwise (· ≤ ·)) (hpaced : Paced R i frees)
    (h : (runs frees durations)[j]? = some (start, finish)) :
    finish ≤ ((i + j) / c + 1) * R := by
  induction durations generalizing i j frees with
  | nil => simp [runs] at h
  | cons d ds ih =>
    rcases frees with _ | ⟨free, frees⟩
    · simp [runs] at h
    · have hdR := hd d List.mem_cons_self
      rcases j with _ | j
      · -- the job that starts now
        obtain ⟨rfl, rfl⟩ : free = start ∧ free + d = finish := by simpa [runs] using h
        have hstart : free ≤ i / c * R := by
          by_contra hlate
          have hall := le_of_paced hpaced hsorted (k := i / c) (by omega)
          rw [List.length_cons] at hlength
          rw [hlength] at hall
          have hmod : i - i / c * c = i % c := by
            have := Nat.div_add_mod' i c
            omega
          have hlt := Nat.mod_lt i hc
          omega
        change free + d ≤ (i / c + 1) * R
        rw [Nat.succ_mul]
        omega
      · rw [runs, List.getElem?_cons_succ] at h
        have hlen := (List.perm_orderedInsert (· ≤ ·) (free + d) frees).length_eq
        have hfinish := ih (fun d' hd' => hd d' (List.mem_cons_of_mem _ hd'))
          (by simpa [hlen] using hlength) (List.Pairwise.orderedInsert _ _ (List.Pairwise.of_cons hsorted))
          (hpaced.step hsorted hdR) h
        rwa [show i + (j + 1) = i + 1 + j by omega]

/-- If no job takes longer than `R`, job `i` has finished by `(i / permits + 1) * R`. -/
theorem finish_le {R permits : ℕ} (hpermits : 0 < permits) {durations : List ℕ}
    (hd : ∀ d ∈ durations, d ≤ R) {i start finish : ℕ}
    (h : (schedule permits durations)[i]? = some (start, finish)) :
    finish ≤ (i / permits + 1) * R := by
  have hfinish := finish_le_of_paced hpermits hd (List.length_replicate)
    (List.pairwise_replicate.mpr (Or.inr (le_refl 0))) (paced_replicate R permits) h
  rwa [Nat.zero_add] at hfinish

/-! ## Every job takes `R` -/

/-- When the permits become free in round `q`, of which `r` have been handed out again. -/
def lockstep (R c q r : ℕ) : List ℕ :=
  List.replicate (c - r) (q * R) ++ List.replicate r ((q + 1) * R)

theorem sorted_lockstep (R c q r : ℕ) : (lockstep R c q r).Pairwise (· ≤ ·) := by
  refine List.pairwise_append.mpr ⟨List.pairwise_replicate.mpr (Or.inr (le_refl _)),
    List.pairwise_replicate.mpr (Or.inr (le_refl _)), ?_⟩
  intro a ha b hb
  rw [List.eq_of_mem_replicate ha, List.eq_of_mem_replicate hb]
  exact Nat.mul_le_mul_right R (Nat.le_succ q)

/-- The next round begins when every permit has been handed out again. -/
theorem lockstep_full (R c q : ℕ) : lockstep R c q c = lockstep R c (q + 1) 0 := by
  simp [lockstep]

/-- The job that starts moves its permit to the next round. -/
theorem orderedInsert_lockstep {R c q r : ℕ} (hr : r < c) :
    ∃ frees, lockstep R c q r = q * R :: frees ∧
      frees.orderedInsert (· ≤ ·) (q * R + R) = lockstep R c q (r + 1) := by
  obtain ⟨m, hm⟩ : ∃ m, c - r = m + 1 := ⟨c - r - 1, by omega⟩
  refine ⟨List.replicate m (q * R) ++ List.replicate r ((q + 1) * R), ?_, ?_⟩
  · rw [lockstep, hm, List.replicate_succ, List.cons_append]
  · have hsorted := sorted_lockstep R c q r
    rw [lockstep, hm, List.replicate_succ, List.cons_append] at hsorted
    have hperm : ((List.replicate m (q * R) ++ List.replicate r ((q + 1) * R)).orderedInsert
        (· ≤ ·) (q * R + R)).Perm (lockstep R c q (r + 1)) := by
      refine (List.perm_orderedInsert _ _ _).trans ?_
      rw [lockstep, show c - (r + 1) = m by omega, List.replicate_succ, Nat.succ_mul]
      exact List.perm_middle.symm
    exact hperm.eq_of_pairwise' (hsorted.of_cons.orderedInsert _ _) (sorted_lockstep R c q (r + 1))

theorem runs_lockstep {R c : ℕ} (n q r j : ℕ) (hr : r < c) (hj : j < n) :
    (runs (lockstep R c q r) (List.replicate n R))[j]? =
      some ((q * c + r + j) / c * R, ((q * c + r + j) / c + 1) * R) := by
  induction n generalizing q r j with
  | zero => omega
  | succ n ih =>
    obtain ⟨frees, hfrees, hinsert⟩ := orderedInsert_lockstep (R := R) (q := q) hr
    rw [hfrees, List.replicate_succ, runs, hinsert]
    rcases j with _ | j
    · have hround : (q * c + r + 0) / c = q := by
        rw [Nat.add_zero, Nat.add_comm, Nat.add_mul_div_right _ _ (by omega), Nat.div_eq_of_lt hr,
          Nat.zero_add]
      rw [hround, List.getElem?_cons_zero, Nat.succ_mul]
    · rw [List.getElem?_cons_succ]
      by_cases hlast : r + 1 = c
      · rw [hlast, lockstep_full, ih (q + 1) 0 j (by omega) (by omega), Nat.succ_mul,
          show q * c + c + 0 + j = q * c + r + (j + 1) by omega]
      · rw [ih q (r + 1) j (by omega) (by omega),
          show q * c + (r + 1) + j = q * c + r + (j + 1) by omega]

/-- If every job takes `R`, job `i` works from `i / permits * R` to
`(i / permits + 1) * R`. -/
theorem schedule_replicate {permits n i : ℕ} (R : ℕ) (hpermits : 0 < permits) (hi : i < n) :
    (schedule permits (List.replicate n R))[i]? =
      some (i / permits * R, (i / permits + 1) * R) := by
  have hstart : List.replicate permits 0 = lockstep R permits 0 0 := by simp [lockstep]
  rw [schedule, hstart, runs_lockstep n 0 0 i hpermits hi]
  simp

/-- Three jobs, two permits. -/
example : schedule 2 [5, 3, 4] = [(0, 5), (0, 3), (3, 7)] := by decide

/-! ## Jobs that arrive later -/

/-- Start and finish of each job, given its arrival and its duration. -/
def served : List ℕ → List (ℕ × ℕ) → List (ℕ × ℕ)
  | _, [] => []
  | [], _ :: _ => []
  | free :: frees, (arrival, d) :: jobs =>
    (max arrival free, max arrival free + d) ::
      served (frees.orderedInsert (· ≤ ·) (max arrival free + d)) jobs

/-- The jobs can be started in their order, each by the time `T`, so that fewer than `permits`
earlier ones are at work then; `ends` is when these end. -/
def Fits (permits T : ℕ) : List ℕ → List (ℕ × ℕ) → Prop
  | _, [] => True
  | ends, (arrival, d) :: jobs =>
    ∃ start, arrival ≤ start ∧ start ≤ T ∧ ends.countP (start < ·) < permits ∧
      Fits permits T ((start + d) :: ends) jobs

section

variable {permits T : ℕ}

/-- A permit that is handed on becomes free later. -/
theorem countP_orderedInsert (t finish : ℕ) (frees : List ℕ) :
    (frees.orderedInsert (· ≤ ·) finish).countP (t < ·) =
      frees.countP (t < ·) + if t < finish then 1 else 0 := by
  rw [(List.perm_orderedInsert (· ≤ ·) finish frees).countP_eq, List.countP_cons]
  simp only [decide_eq_true_eq]

/-- While the first permit is not free, none is. -/
theorem countP_of_lt {t free : ℕ} {frees : List ℕ}
    (hsorted : (free :: frees).Pairwise (· ≤ ·)) (hlt : t < free) :
    (free :: frees).countP (t < ·) = (free :: frees).length := by
  refine List.countP_eq_length.mpr fun f hf => decide_eq_true ?_
  rcases List.mem_cons.mp hf with rfl | hf
  · exact hlt
  · exact hlt.trans_le (List.rel_of_pairwise_cons hsorted hf)

/-- No other service is ahead of this one: it holds no more permits at any time. -/
theorem served_le_of_fits {jobs : List (ℕ × ℕ)} {frees ends : List ℕ}
    (hlength : frees.length = permits) (hsorted : frees.Pairwise (· ≤ ·))
    (hahead : ∀ t, frees.countP (t < ·) ≤ ends.countP (t < ·))
    (h : Fits permits T ends jobs) : ∀ s ∈ served frees jobs, s.1 ≤ T := by
  induction jobs generalizing frees ends with
  | nil => cases frees <;> exact fun s hs => nomatch hs
  | cons job jobs ih =>
    obtain ⟨arrival, d⟩ := job
    obtain ⟨start, harrival, hT, hpermit, hrest⟩ := h
    cases frees with
    | nil => exact fun s hs => nomatch hs
    | cons free frees =>
      have hfree : free ≤ start := by
        by_contra hlt
        have hcount := countP_of_lt hsorted (not_le.mp hlt)
        have hle := hahead start
        omega
      have hstart : max arrival free ≤ start := max_le harrival hfree
      intro s hs
      rcases List.mem_cons.mp hs with rfl | hs
      · exact hstart.trans hT
      · refine ih ?_ (hsorted.of_cons.orderedInsert _ _) (fun t => ?_) hrest s hs
        · rw [List.orderedInsert_length]
          exact hlength
        · have hle := hahead t
          rw [List.countP_cons] at hle
          rw [countP_orderedInsert, List.countP_cons]
          simp only [decide_eq_true_eq] at hle ⊢
          split_ifs at hle ⊢ <;> omega

/-- The service itself starts the jobs in their order behind the permits. -/
theorem fits_of_served_le {jobs : List (ℕ × ℕ)} {frees ends : List ℕ} (now : ℕ)
    (hpermits : 0 < permits) (hlength : frees.length = permits) (hsorted : frees.Pairwise (· ≤ ·))
    (harrivals : (jobs.map Prod.fst).Pairwise (· ≤ ·))
    (hnow : ∀ job ∈ jobs, ∀ free ∈ frees, now ≤ max job.1 free)
    (hheld : ∀ t, now ≤ t → ends.countP (t < ·) ≤ frees.countP (t < ·))
    (h : ∀ s ∈ served frees jobs, s.1 ≤ T) : Fits permits T ends jobs := by
  induction jobs generalizing frees ends now with
  | nil => trivial
  | cons job jobs ih =>
    obtain ⟨arrival, d⟩ := job
    cases frees with
    | nil => exact absurd hlength (by simpa using hpermits.ne)
    | cons free frees =>
      obtain ⟨hfirst, hlater⟩ := List.pairwise_cons.mp harrivals
      have hsorted' := hsorted.of_cons
      have hhead := (List.pairwise_cons.mp hsorted).1
      set start := max arrival free with hstart
      have hnow' : now ≤ start := hnow _ List.mem_cons_self free List.mem_cons_self
      -- the permit of this job is free by then
      have hheld' : ∀ t, start ≤ t → ends.countP (t < ·) ≤ frees.countP (t < ·) := by
        intro t ht
        have hle := hheld t (hnow'.trans ht)
        rw [List.countP_cons, if_neg] at hle
        · exact hle
        · rw [decide_eq_true_eq, not_lt]
          exact (le_max_right _ _).trans ht
      refine ⟨start, le_max_left _ _, h _ List.mem_cons_self, ?_, ?_⟩
      · have hle := hheld' start le_rfl
        have hlen : frees.countP (start < ·) ≤ frees.length := List.countP_le_length
        rw [List.length_cons] at hlength
        omega
      · refine ih start ?_ (hsorted'.orderedInsert _ _) hlater ?_ (fun t ht => ?_)
          fun s hs => h s (List.mem_cons_of_mem _ hs)
        · rw [List.orderedInsert_length]
          exact hlength
        · intro job hjob f hf
          have harrival : arrival ≤ job.1 := hfirst job.1 (List.mem_map_of_mem hjob)
          rcases (List.mem_orderedInsert _).mp hf with rfl | hf
          · omega
          · have hfree := hhead f hf
            omega
        · have hle := hheld' t ht
          rw [countP_orderedInsert, List.countP_cons, ← hstart]
          simp only [decide_eq_true_eq]
          omega

/-- **Every job starts by the time `T`** if and only if they can all be started by then. -/
theorem served_le_iff {jobs : List (ℕ × ℕ)} (hpermits : 0 < permits)
    (harrivals : (jobs.map Prod.fst).Pairwise (· ≤ ·)) :
    (∀ s ∈ served (List.replicate permits 0) jobs, s.1 ≤ T) ↔ Fits permits T [] jobs := by
  have hsorted : (List.replicate permits 0).Pairwise (· ≤ ·) :=
    List.pairwise_replicate.mpr (.inr le_rfl)
  constructor
  · exact fits_of_served_le 0 hpermits List.length_replicate hsorted harrivals
      (fun _ _ _ _ => Nat.zero_le _) fun t _ => Nat.zero_le _
  · refine served_le_of_fits List.length_replicate hsorted fun t => ?_
    simp [List.countP_replicate]

end

end Semaphore
