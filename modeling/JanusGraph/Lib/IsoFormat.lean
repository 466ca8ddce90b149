import JanusGraph.Lib.Calendar
import Mathlib.Data.String.Basic

/-!
# The text of a point in time

`datetime.isoformat` in UTC. Every field has its own width, so that texts are in the order of the
fields; only the fraction is left out when there is none, and then the text goes on with a `+`,
which is before the point of a fraction.
-/

namespace Calendar

/-- The digits of a number, as many as the field is wide. -/
def digits : ℕ → ℕ → List Char
  | 0, _ => []
  | width + 1, n => digits width (n / 10) ++ [Nat.digitChar (n % 10)]

/-- The fraction of a second and the offset. -/
def fraction (microsecond : ℕ) : List Char :=
  if microsecond = 0 then "+00:00".toList else '.' :: digits 6 microsecond ++ "+00:00".toList

/-- The characters of `isoformat()`, for a year of at most four digits. -/
def isoChars (d : DateTime) : List Char :=
  digits 4 d.date.year ++ '-' :: (digits 2 d.date.month ++ '-' :: (digits 2 d.date.day ++ 'T' ::
    (digits 2 d.hour ++ ':' :: (digits 2 d.minute ++ ':' :: (digits 2 d.second ++
      fraction d.microsecond)))))

/-- `isoformat()` -/
def isoformat (d : DateTime) : String := .ofList (isoChars d)

/-! ## The order of texts -/

@[simp] theorem length_digits (width n : ℕ) : (digits width n).length = width := by
  induction width generalizing n with
  | zero => rfl
  | succ width ih => rw [digits, List.length_append, ih, List.length_singleton]

/-- Texts of one length decide, whatever follows. -/
theorem append_lt_append {u v : List Char} (hlength : u.length = v.length) (h : u < v)
    (u' v' : List Char) : u ++ u' < v ++ v' := by
  induction u generalizing v with
  | nil =>
    rw [List.length_nil] at hlength
    rw [List.eq_nil_of_length_eq_zero hlength.symm] at h
    exact absurd h (lt_irrefl _)
  | cons a u ih =>
    rcases v with _ | ⟨b, v⟩
    · exact absurd hlength (Nat.succ_ne_zero _)
    · rw [List.cons_append, List.cons_append, List.cons_lt_cons_iff]
      rcases List.cons_lt_cons_iff.mp h with hab | ⟨hab, huv⟩
      · exact .inl hab
      · exact .inr ⟨hab, ih (Nat.succ.inj hlength) huv⟩

theorem digitChar_lt : ∀ n < 10, ∀ k < n, Nat.digitChar k < Nat.digitChar n := by
  decide

/-- **The order of numbers** is that of their digits. -/
theorem digits_lt {width k n : ℕ} (hn : n < 10 ^ width) (h : k < n) :
    digits width k < digits width n := by
  induction width generalizing k n with
  | zero =>
    rw [pow_zero] at hn
    omega
  | succ width ih =>
    rw [digits, digits]
    rcases Nat.lt_or_ge (k / 10) (n / 10) with hlt | hge
    · have hn' : n / 10 < 10 ^ width := by
        rw [pow_succ] at hn
        omega
      exact append_lt_append (by simp) (ih hn' hlt) _ _
    · have hdiv : k / 10 = n / 10 := by omega
      rw [hdiv]
      refine List.append_left_lt (List.cons_lt_cons_iff.mpr (.inl ?_))
      exact digitChar_lt _ (Nat.mod_lt _ (by decide)) _ (by omega)

/-- A field, and what follows it. -/
theorem field_lt {width k n : ℕ} (hn : n < 10 ^ width) {u v : List Char}
    (h : k < n ∨ k = n ∧ u < v) : digits width k ++ u < digits width n ++ v := by
  rcases h with hlt | ⟨rfl, huv⟩
  · exact append_lt_append (by simp) (digits_lt hn hlt) u v
  · exact List.append_left_lt huv

/-- A missing fraction is before every other one. -/
theorem fraction_lt {k n : ℕ} (hn : n < 1000000) (h : k < n) : fraction k < fraction n := by
  have hpos : n ≠ 0 := by omega
  rw [fraction, fraction, if_neg hpos]
  split
  · exact List.cons_lt_cons_iff.mpr (.inl (by decide))
  · exact List.cons_lt_cons_iff.mpr (.inr ⟨rfl, field_lt hn (.inl h)⟩)

/-- A field, a separator, and what follows it. -/
theorem field_cons_lt {width k n : ℕ} (hn : n < 10 ^ width) (c : Char) {u v : List Char}
    (h : k < n ∨ k = n ∧ u < v) : digits width k ++ c :: u < digits width n ++ c :: v :=
  field_lt hn (h.imp_right fun ⟨hkn, huv⟩ => ⟨hkn, List.cons_lt_cons_iff.mpr (.inr ⟨rfl, huv⟩)⟩)

theorem isoChars_lt {d e : DateTime} (he : e.date.year < 10000) (h : d.Before e) :
    isoChars d < isoChars e := by
  have hmonth : e.date.month < 10 ^ 2 := e.date.month_mem.2.trans_lt (by decide)
  have hday : e.date.day < 10 ^ 2 :=
    (e.date.day_mem.2.trans (daysInMonth_le _ _)).trans_lt (by decide)
  have hhour : e.hour < 10 ^ 2 := e.hour_lt.trans (by decide)
  have hminute : e.minute < 10 ^ 2 := e.minute_lt.trans (by decide)
  have hsecond : e.second < 10 ^ 2 := e.second_lt.trans (by decide)
  rw [isoChars, isoChars]
  rcases h with (hyear | ⟨hyear, hlt | ⟨heq, hlt⟩⟩) | ⟨hdate, h⟩
  · exact field_cons_lt he _ (.inl hyear)
  · exact field_cons_lt he _ (.inr ⟨hyear, field_cons_lt hmonth _ (.inl hlt)⟩)
  · exact field_cons_lt he _ (.inr ⟨hyear, field_cons_lt hmonth _ (.inr ⟨heq,
      field_cons_lt hday _ (.inl hlt)⟩)⟩)
  · rw [hdate]
    refine field_cons_lt he _ (.inr ⟨rfl, field_cons_lt hmonth _ (.inr ⟨rfl,
      field_cons_lt hday _ (.inr ⟨rfl, field_cons_lt hhour _ ?_⟩)⟩)⟩)
    refine h.imp_right fun ⟨hhour', h⟩ => ⟨hhour', field_cons_lt hminute _ ?_⟩
    refine h.imp_right fun ⟨hminute', h⟩ => ⟨hminute', field_lt hsecond ?_⟩
    exact h.imp_right fun ⟨hsecond', hlt⟩ => ⟨hsecond', fraction_lt e.microsecond_lt hlt⟩

/-- **The order of texts** is that of time. -/
theorem isoformat_lt_iff {d e : DateTime} (hd : d.date.year < 10000) (he : e.date.year < 10000) :
    isoformat d < isoformat e ↔ d.instant < e.instant := by
  have hlt : isoformat d < isoformat e ↔ isoChars d < isoChars e := by
    rw [String.lt_iff_toList_lt, isoformat, isoformat, String.toList_ofList, String.toList_ofList]
  rw [hlt]
  rcases d.before_trichotomy e with hbefore | rfl | hbefore
  · exact iff_of_true (isoChars_lt he hbefore) hbefore.instant_lt
  · exact iff_of_false (lt_irrefl _) (Nat.lt_irrefl _)
  · exact iff_of_false (isoChars_lt hd hbefore).asymm hbefore.instant_lt.asymm

end Calendar
