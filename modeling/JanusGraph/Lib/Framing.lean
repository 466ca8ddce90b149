import Mathlib.Data.List.Basic

/-!
# Frames without a separator

Frames are written one after another, each of them a head, a mark and a body. Nothing stands
between two frames, so that a body runs into the head that follows it, and heads of several
lengths make it look as if a body could end in more than one place. It cannot: the text up to
the mark is a body and a head, the head belongs to the frame whose body comes after the mark,
and what is left of the text determines that frame (`append_frames_inj`).
-/

namespace Framing

variable {α β : Type} (mark : α) (head body : β → List α)

/-- One frame. -/
def frame (b : β) : List α := head b ++ mark :: body b

/-- Frames, one after another. -/
def frames (l : List β) : List α := l.flatMap (frame mark head body)

@[simp] theorem frames_nil : frames mark head body [] = [] := rfl

@[simp] theorem frames_cons (b : β) (l : List β) :
    frames mark head body (b :: l) = head b ++ mark :: (body b ++ frames mark head body l) := by
  simp [frames, frame]

variable {mark head body}

/-- A text that ends in a frame has the mark in it. -/
theorem mark_mem_append_frames (a : List α) (b : β) (l : List β) :
    mark ∈ a ++ frames mark head body (b :: l) := by simp

/-- A text is divided at its first mark in one way. -/
theorem append_mark_inj {x y s t : List α} (hx : mark ∉ x) (hy : mark ∉ y)
    (h : x ++ mark :: s = y ++ mark :: t) : x = y ∧ s = t := by
  induction x generalizing y with
  | nil =>
    rcases y with _ | ⟨b, y⟩
    · exact ⟨rfl, (List.cons.inj h).2⟩
    · exact absurd ((List.cons.inj h).1 ▸ List.mem_cons_self) hy
  | cons a x ih =>
    obtain ⟨hax, hx⟩ := not_or.mp (mt List.mem_cons.mpr hx)
    rcases y with _ | ⟨b, y⟩
    · exact absurd (List.cons.inj h).1.symm hax
    · obtain ⟨rfl, htail⟩ := List.cons.inj h
      obtain ⟨rfl, hst⟩ := ih hx (fun hmem => hy (List.mem_cons_of_mem _ hmem)) htail
      exact ⟨rfl, hst⟩

/-- **Unique decoding.** Frames can be read back, also behind a text without a mark. -/
theorem append_frames_inj {p : β → Prop} (hhead : ∀ b, p b → mark ∉ head b)
    (hbody : ∀ b, p b → mark ∉ body b) (hinj : ∀ b c, p b → p c → body b = body c → b = c)
    {l m : List β} (hl : ∀ b ∈ l, p b) (hm : ∀ b ∈ m, p b) {a c : List α} (ha : mark ∉ a)
    (hc : mark ∉ c) (h : a ++ frames mark head body l = c ++ frames mark head body m) :
    a = c ∧ l = m := by
  induction l generalizing m a c with
  | nil =>
    rw [frames_nil, List.append_nil] at h
    rcases m with _ | ⟨d, m⟩
    · rw [frames_nil, List.append_nil] at h
      exact ⟨h, rfl⟩
    · exact absurd (h ▸ mark_mem_append_frames c d m) ha
  | cons b l ih =>
    rcases m with _ | ⟨d, m⟩
    · rw [frames_nil, List.append_nil] at h
      exact absurd (h ▸ mark_mem_append_frames a b l) hc
    · obtain ⟨hb, hl⟩ := List.forall_mem_cons.mp hl
      obtain ⟨hd, hm⟩ := List.forall_mem_cons.mp hm
      rw [frames_cons, frames_cons, ← List.append_assoc, ← List.append_assoc] at h
      have hbefore : ∀ {x : List α} {e : β}, p e → mark ∉ x → mark ∉ x ++ head e :=
        fun he hx hmem => (List.mem_append.mp hmem).elim hx (hhead _ he)
      -- the texts before the first mark are alike, and so are those behind it
      obtain ⟨hfront, hrest⟩ := append_mark_inj (hbefore hb ha) (hbefore hd hc) h
      obtain ⟨hbodies, rfl⟩ := ih hl hm (hbody b hb) (hbody d hd) hrest
      obtain rfl := hinj b d hb hd hbodies
      exact ⟨List.append_cancel_right hfront, rfl⟩

/-- Frames can be read back. -/
theorem frames_inj {p : β → Prop} (hhead : ∀ b, p b → mark ∉ head b)
    (hbody : ∀ b, p b → mark ∉ body b) (hinj : ∀ b c, p b → p c → body b = body c → b = c)
    {l m : List β} (hl : ∀ b ∈ l, p b) (hm : ∀ b ∈ m, p b)
    (h : frames mark head body l = frames mark head body m) : l = m :=
  (append_frames_inj hhead hbody hinj hl hm (a := []) (c := []) List.not_mem_nil List.not_mem_nil
    h).2

end Framing
