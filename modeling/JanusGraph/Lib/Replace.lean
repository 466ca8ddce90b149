import Mathlib.Data.List.Infix

/-!
# Replacing a marker in a text

`replaceAll m r t` is `t.replace(m, r)` for a text `m` that is not empty: the occurrences of
`m` are met from the left, none inside another. A text is a list over any alphabet.

What a template needs of it: the marker becomes the replacement (`replaceAll_append`), a text
without its first letter is passed over (`replaceAll_append_of_head_not_mem`), a letter that it
does not have is a barrier (`replaceAll_append_cons`), and an encoding letter by letter that
leaves its letters alone commutes with the replacement (`replaceAll_flatMap`).
-/

variable {α : Type} [DecidableEq α]

/-- The loop: `skip` letters of an occurrence of the marker are still to be passed over. -/
def replaceFrom (m r : List α) : ℕ → List α → List α
  | _, [] => []
  | skip + 1, _ :: t => replaceFrom m r skip t
  | 0, c :: t =>
    if m <+: c :: t then r ++ replaceFrom m r (m.length - 1) t else c :: replaceFrom m r 0 t

/-- `t.replace(m, r)`, for a marker that is not empty -/
def replaceAll (m r t : List α) : List α := replaceFrom m r 0 t

section

variable {m r : List α}

@[simp] theorem replaceFrom_nil (skip : ℕ) : replaceFrom m r skip [] = [] := by
  cases skip <;> rfl

@[simp] theorem replaceAll_nil : replaceAll m r [] = [] := rfl

theorem replaceFrom_skip (a t : List α) : replaceFrom m r a.length (a ++ t) = replaceFrom m r 0 t := by
  induction a with
  | nil => rfl
  | cons c a ih => exact ih

theorem replaceAll_cons_of_not_starts {c : α} {t : List α} (h : ¬ m <+: c :: t) :
    replaceAll m r (c :: t) = c :: replaceAll m r t := by
  rw [replaceAll, replaceFrom, if_neg h]
  rfl

/-- The marker becomes the replacement. -/
theorem replaceAll_append (hm : m ≠ []) (t : List α) :
    replaceAll m r (m ++ t) = r ++ replaceAll m r t := by
  rcases m with _ | ⟨c, m⟩
  · exact absurd rfl hm
  · have hpre : c :: m <+: c :: (m ++ t) := List.prefix_append (c :: m) t
    rw [replaceAll, List.cons_append, replaceFrom, if_pos hpre]
    exact congrArg (r ++ ·) (replaceFrom_skip m t)

/-- A text without the marker stays as it is. -/
theorem replaceAll_of_not_occurs {t : List α} (h : ¬ m <:+: t) : replaceAll m r t = t := by
  induction t with
  | nil => rfl
  | cons c t ih =>
    rw [replaceAll_cons_of_not_starts fun hpre => h hpre.isInfix,
      ih fun hin => h (List.infix_cons hin)]

omit [DecidableEq α] in
/-- A prefix does not reach past a letter it does not have. -/
theorem prefix_append_cons_iff {q : α} (hq : q ∉ m) {a t : List α} :
    m <+: a ++ q :: t ↔ m <+: a := by
  refine ⟨fun h => ?_, fun h => h.trans (List.prefix_append _ _)⟩
  have hq' : a ++ [q] <+: a ++ q :: t := ⟨t, by simp⟩
  rcases List.prefix_or_prefix_of_prefix h hq' with h | h
  · rcases List.prefix_concat_iff.mp h with rfl | h
    · exact absurd (by simp) hq
    · exact h
  · exact absurd (h.subset (by simp)) hq

omit [DecidableEq α] in
/-- The cases of a text as the marker is met in it from the left. -/
theorem marker_induction {P : List α → Prop} (hm : m ≠ []) (nil : P [])
    (marker : ∀ t, P t → P (m ++ t)) (cons : ∀ c t, ¬ m <+: c :: t → P t → P (c :: t))
    (t : List α) : P t := by
  induction hn : t.length using Nat.strong_induction_on generalizing t with
  | _ n ih =>
    rcases t with _ | ⟨c, t⟩
    · exact nil
    by_cases hpre : m <+: c :: t
    · obtain ⟨b, hb⟩ := hpre
      have hlt : b.length < n := by
        have hlength := congrArg List.length hb
        rw [List.length_append, hn] at hlength
        have hpos := List.length_pos_iff.mpr hm
        omega
      rw [← hb]
      exact marker b (ih b.length hlt b rfl)
    · have hlt : t.length < n := by
        rw [List.length_cons] at hn
        omega
      exact cons c t hpre (ih t.length hlt t rfl)

/-- A letter that the marker does not have is a barrier. -/
theorem replaceAll_append_cons (hm : m ≠ []) {q : α} (hq : q ∉ m) (a t : List α) :
    replaceAll m r (a ++ q :: t) = replaceAll m r a ++ q :: replaceAll m r t := by
  induction a using marker_induction hm with
  | nil =>
    refine replaceAll_cons_of_not_starts fun hpre => hm ?_
    exact List.prefix_nil.mp ((prefix_append_cons_iff (a := []) hq).mp hpre)
  | marker a ih =>
    rw [List.append_assoc, replaceAll_append hm, replaceAll_append hm, ih, List.append_assoc]
  | cons c a hpre ih =>
    have hpre' : ¬ m <+: c :: (a ++ q :: t) := fun h =>
      hpre ((prefix_append_cons_iff (a := c :: a) hq).mp h)
    rw [List.cons_append, replaceAll_cons_of_not_starts hpre',
      replaceAll_cons_of_not_starts hpre, ih, List.cons_append]

/-- A text without the first letter of the marker is passed over. -/
theorem replaceAll_append_of_head_not_mem {x : α} {a : List α} (ha : x ∉ a) (t : List α) :
    replaceAll (x :: m) r (a ++ t) = a ++ replaceAll (x :: m) r t := by
  induction a with
  | nil => rfl
  | cons c a ih =>
    rw [List.mem_cons, not_or] at ha
    rw [List.cons_append, replaceAll_cons_of_not_starts, ih ha.2, List.cons_append]
    exact fun hpre => ha.1 (List.cons_prefix_cons.mp hpre).1

/-- So is the first letter of the marker where its second one does not follow. -/
theorem replaceAll_append_of_second_ne {x y z : α} {a : List α} (ha : x ∉ a) (hz : z ≠ y)
    (t : List α) :
    replaceAll (x :: y :: m) r (a ++ x :: z :: t) = a ++ x :: replaceAll (x :: y :: m) r (z :: t) := by
  rw [replaceAll_append_of_head_not_mem ha, replaceAll_cons_of_not_starts]
  intro hpre
  have hsecond := (List.cons_prefix_cons.mp hpre).2
  exact hz (List.cons_prefix_cons.mp hsecond).1.symm

theorem replaceAll_of_head_not_mem {x : α} {a : List α} (ha : x ∉ a) :
    replaceAll (x :: m) r a = a := by
  simpa using replaceAll_append_of_head_not_mem (m := m) (r := r) ha []

/-- A marker of one letter: the replacement works letter by letter. -/
theorem replaceAll_singleton (x : α) (r t : List α) :
    replaceAll [x] r t = t.flatMap fun c => if c = x then r else [c] := by
  induction t with
  | nil => rfl
  | cons c t ih =>
    rw [List.flatMap_cons, ← ih]
    by_cases hc : c = x
    · subst hc
      rw [if_pos rfl]
      exact replaceAll_append (List.cons_ne_nil c []) t
    · rw [if_neg hc]
      refine replaceAll_cons_of_not_starts fun hpre => hc ?_
      exact (List.cons_prefix_cons.mp hpre).1.symm

/-! ## Encodings -/

/-- The encoding leaves the letters of the marker alone, and brings none. -/
structure LeavesAlone (f : α → List α) (m : List α) : Prop where
  keeps : ∀ c ∈ m, f c = [c]
  ne_nil : ∀ c, f c ≠ []
  avoids : ∀ c, c ∉ m → ∀ d ∈ f c, d ∉ m

omit [DecidableEq α] in
/-- The marker stands at the front of the encoding exactly if it does at the front of the
text. -/
theorem LeavesAlone.prefix_flatMap_iff {f : α → List α} {m : List α} (hf : LeavesAlone f m)
    {t : List α} : m <+: t.flatMap f ↔ m <+: t := by
  have hpart : ∀ (p : List α), (∀ c ∈ p, c ∈ m) → ∀ t : List α, p <+: t.flatMap f ↔ p <+: t := by
    intro p hp
    induction p with
    | nil => simp
    | cons c p ih =>
      intro t
      rcases t with _ | ⟨d, t⟩
      · simp
      have hc := hp c List.mem_cons_self
      have hrest := ih (fun e he => hp e (List.mem_cons_of_mem _ he)) t
      by_cases hd : d ∈ m
      · rw [List.flatMap_cons, hf.keeps d hd, List.singleton_append, List.cons_prefix_cons,
          List.cons_prefix_cons, hrest]
      · obtain ⟨e, code, hcode⟩ := List.exists_cons_of_ne_nil (hf.ne_nil d)
        have he : e ∉ m := hf.avoids d hd e (by rw [hcode]; exact List.mem_cons_self)
        rw [List.flatMap_cons, hcode, List.cons_append, List.cons_prefix_cons,
          List.cons_prefix_cons]
        refine iff_of_false ?_ ?_
        · rintro ⟨rfl, -⟩
          exact he hc
        · rintro ⟨rfl, -⟩
          exact hd hc
  exact hpart m (fun _ hc => hc) t

/-- Such an encoding commutes with the replacement. -/
theorem replaceAll_flatMap {f : α → List α} (hm : m ≠ []) (hf : LeavesAlone f m)
    (hr : r.flatMap f = r) (t : List α) :
    replaceAll m r (t.flatMap f) = (replaceAll m r t).flatMap f := by
  have hmark : m.flatMap f = m := by
    have hkeep : ∀ p : List α, (∀ c ∈ p, f c = [c]) → p.flatMap f = p := by
      intro p hp
      induction p with
      | nil => rfl
      | cons c p ih =>
        rw [List.flatMap_cons, hp c List.mem_cons_self,
          ih fun d hd => hp d (List.mem_cons_of_mem _ hd)]
        rfl
    exact hkeep m hf.keeps
  induction t using marker_induction hm with
  | nil => rfl
  | marker t ih =>
    rw [List.flatMap_append, hmark, replaceAll_append hm, replaceAll_append hm,
      List.flatMap_append, hr, ih]
  | cons c t hpre ih =>
    have hpre' : ¬ m <+: (c :: t).flatMap f := fun h => hpre (hf.prefix_flatMap_iff.mp h)
    rw [replaceAll_cons_of_not_starts hpre, List.flatMap_cons]
    rw [List.flatMap_cons] at hpre'
    rw [List.flatMap_cons, ← ih]
    by_cases hc : c ∈ m
    · rw [hf.keeps c hc] at hpre' ⊢
      exact replaceAll_cons_of_not_starts hpre'
    · obtain ⟨x, m, rfl⟩ := List.exists_cons_of_ne_nil hm
      exact replaceAll_append_of_head_not_mem
        (fun hx => hf.avoids c hc x hx List.mem_cons_self) _

/-! ## What a replacement takes away -/

/-- A replacement does not bring more of a letter that the marker has and the replacement does
not; if it replaces anything, it leaves fewer. -/
theorem count_replaceAll {x : α} (hx : x ∈ m) (hr : x ∉ r) (t : List α) :
    (replaceAll m r t).count x ≤ t.count x ∧
      (m <:+: t → (replaceAll m r t).count x < t.count x) := by
  have hm : m ≠ [] := List.ne_nil_of_mem hx
  have hmark : 0 < m.count x := List.count_pos_iff.mpr hx
  have hnone : r.count x = 0 := List.count_eq_zero.mpr hr
  induction t using marker_induction hm with
  | nil => exact ⟨le_rfl, fun hin => absurd (List.infix_nil.mp hin) hm⟩
  | marker t ih =>
    have hrest := ih.1
    rw [replaceAll_append hm, List.count_append, List.count_append]
    omega
  | cons c t hpre ih =>
    obtain ⟨hle, hin⟩ := ih
    rw [replaceAll_cons_of_not_starts hpre, List.count_cons, List.count_cons]
    refine ⟨by omega, fun h => ?_⟩
    rcases List.infix_cons_iff.mp h with h | h
    · exact absurd h hpre
    · have := hin h
      omega

end
