import JanusGraph.Lib.Python
import Mathlib.Algebra.Order.Ring.Rat
import Mathlib.Order.WithBot

/-!
# Floats

The order of Python's floats, which every comparison of a NaN fails. Their arithmetic rounds and
stays abstract (`FloatArith`); its functions return `none` where Python raises.
-/

namespace PyFloat

/-- The place of a float among the numbers and the two infinities; a NaN has none. -/
def value : PyFloat → Option (WithBot (WithTop ℚ))
  | .finite m e => some ((m * 2 ^ e : ℚ) : WithTop ℚ)
  | .inf negative => some (if negative then ⊥ else ((⊤ : WithTop ℚ) : WithBot (WithTop ℚ)))
  | .nan => none

/-- `x < y` -/
def lt (x y : PyFloat) : Bool :=
  match x.value, y.value with
  | some a, some b => a < b
  | _, _ => false

/-- `x <= y` -/
def le (x y : PyFloat) : Bool :=
  match x.value, y.value with
  | some a, some b => a ≤ b
  | _, _ => false

/-- `float(n)` of a small number -/
def ofInt (n : ℤ) : PyFloat := .finite n 0

/-- `-x` -/
def neg : PyFloat → PyFloat
  | .finite m e => .finite (-m) e
  | .inf negative => .inf !negative
  | .nan => .nan

/-- `x == 0.0` -/
def isZero (x : PyFloat) : Bool := x.le (.ofInt 0) && (ofInt 0).le x

/-- `0.0 <= x <= 1.0` -/
def inUnit (x : PyFloat) : Bool := (ofInt 0).le x && x.le (.ofInt 1)

/-- `max` of floats: the first of those that no other one exceeds. -/
def max : PyFloat → List PyFloat → PyFloat
  | x, [] => x
  | x, y :: ys => if x.lt y then max y ys else max x ys

/-- What is not below `x` is not below a float that is less. -/
theorem le_eq_false_of_le {x y z : PyFloat} (h : x.le y = true) (hlt : z.lt x = true) :
    y.le z = false := by
  unfold le at h ⊢
  unfold lt at hlt
  cases hx : x.value with
  | none => simp [hx] at h
  | some a =>
    cases hy : y.value with
    | none => rfl
    | some b =>
      cases hz : z.value with
      | none => rfl
      | some c =>
        simp only [hx, hy, hz, decide_eq_true_eq, decide_eq_false_iff_not, not_le] at h hlt ⊢
        exact hlt.trans_le h

end PyFloat

/-- `isinstance(v, (int, float))`, booleans left out, and the number as a float. -/
def Value.number : Value → Option PyFloat
  | .int n => some (.ofInt n)
  | .float x => some x
  | _ => none

/-- The arithmetic of floats. -/
structure FloatArith : Type where
  add : PyFloat → PyFloat → PyFloat
  sub : PyFloat → PyFloat → PyFloat
  mul : PyFloat → PyFloat → PyFloat
  /-- `x / y`; `none` is `ZeroDivisionError` -/
  div : PyFloat → PyFloat → Option PyFloat
  /-- `math.sqrt`; `none` is `ValueError` -/
  sqrt : PyFloat → Option PyFloat
  /-- `acc + v * w` for two JSON values; `none` is `TypeError` or `OverflowError` -/
  addMul : PyFloat → Value → Value → Option PyFloat

/-- One and minus one come out of the arithmetic as they should. -/
structure FloatArith.Unital (arith : FloatArith) : Prop where
  addMul : ∀ x y : ℤ, x.natAbs = 1 → y.natAbs = 1 →
    arith.addMul (.ofInt 0) (.float (.ofInt x)) (.float (.ofInt y)) = some (.ofInt (x * y))
  sqrt : arith.sqrt (.ofInt 1) = some (.ofInt 1)
  mul : arith.mul (.ofInt 1) (.ofInt 1) = .ofInt 1
  div : ∀ x : ℤ, x.natAbs = 1 → arith.div (.ofInt x) (.ofInt 1) = some (.ofInt x)

/-- Arithmetic that is exact for whole numbers, and no more. -/
def FloatArith.whole : FloatArith where
  add := onWhole (· + ·)
  sub := onWhole (· - ·)
  mul := onWhole (· * ·)
  div
    | .finite m 0, .finite n 0 =>
      if n = 0 then none else if n ∣ m then some (.ofInt (m / n)) else some .nan
    | _, _ => some .nan
  sqrt
    | .finite m 0 =>
      if m < 0 then none
      else if m.toNat.sqrt * m.toNat.sqrt = m.toNat then some (.ofInt m.toNat.sqrt)
      else some .nan
    | _ => some .nan
  addMul acc v w := do
    let x ← v.number
    let y ← w.number
    pure (onWhole (· + ·) acc (onWhole (· * ·) x y))
where
  onWhole (f : ℤ → ℤ → ℤ) : PyFloat → PyFloat → PyFloat
    | .finite m 0, .finite n 0 => .ofInt (f m n)
    | _, _ => .nan

theorem FloatArith.unital_whole : FloatArith.whole.Unital where
  addMul x y hx hy := by
    rcases Int.natAbs_eq_iff.mp hx with rfl | rfl <;>
      rcases Int.natAbs_eq_iff.mp hy with rfl | rfl <;> rfl
  sqrt := by decide +kernel
  mul := rfl
  div x hx := by rcases Int.natAbs_eq_iff.mp hx with rfl | rfl <;> rfl

/-! ## Exact arithmetic -/

namespace PyFloat

/-- The number a finite float stands for. -/
def rat : PyFloat → Option ℚ
  | .finite m e => some (m * 2 ^ e)
  | _ => none

variable {x y : PyFloat} {a b : ℚ}

theorem value_of_rat (h : x.rat = some a) :
    x.value = some ((a : WithTop ℚ) : WithBot (WithTop ℚ)) := by
  cases x with
  | finite m e =>
    obtain rfl := Option.some.inj h
    rfl
  | inf negative => cases h
  | nan => cases h

theorem lt_of_rat (hx : x.rat = some a) (hy : y.rat = some b) : x.lt y = decide (a < b) := by
  rw [lt, value_of_rat hx, value_of_rat hy]
  simp only [WithBot.coe_lt_coe, WithTop.coe_lt_coe]

theorem le_of_rat (hx : x.rat = some a) (hy : y.rat = some b) : x.le y = decide (a ≤ b) := by
  rw [le, value_of_rat hx, value_of_rat hy]
  simp only [WithBot.coe_le_coe, WithTop.coe_le_coe]

theorem rat_ofInt (n : ℤ) : (ofInt n).rat = some (n : ℚ) := by
  rw [ofInt, rat, zpow_zero, mul_one]

theorem isZero_of_rat (h : x.rat = some a) : x.isZero = decide (a = 0) := by
  rw [isZero, le_of_rat h (rat_ofInt 0), le_of_rat (rat_ofInt 0) h, Int.cast_zero,
    Bool.eq_iff_iff, Bool.and_eq_true, decide_eq_true_eq, decide_eq_true_eq, decide_eq_true_eq]
  exact le_antisymm_iff.symm

/-- The maximum of finite floats is that of their numbers. -/
theorem rat_max {α : Type} {f : α → PyFloat} {g : α → ℚ} {l : List α}
    (h : ∀ r ∈ l, (f r).rat = some (g r)) (hx : x.rat = some a) :
    (max x (l.map f)).rat = some ((l.map g).foldl Max.max a) := by
  induction l generalizing x a with
  | nil => exact hx
  | cons r l ih =>
    rw [List.forall_mem_cons] at h
    rw [List.map_cons, List.map_cons, max, List.foldl_cons, lt_of_rat hx h.1]
    by_cases hlt : a < g r
    · rw [decide_eq_true hlt, if_pos rfl, max_eq_right hlt.le]
      exact ih h.2 h.1
    · rw [decide_eq_false hlt, if_neg Bool.false_ne_true, max_eq_left (not_lt.mp hlt)]
      exact ih h.2 hx

theorem rat_neg (h : x.rat = some a) : x.neg.rat = some (-a) := by
  cases x with
  | finite m e =>
    obtain rfl := Option.some.inj h
    rw [neg, rat, Int.cast_neg, neg_mul]
  | inf negative => cases h
  | nan => cases h

end PyFloat

/-- The arithmetic of finite floats does not round. -/
structure FloatArith.Exact (arith : FloatArith) : Prop where
  add : ∀ {x y a b}, x.rat = some a → y.rat = some b → (arith.add x y).rat = some (a + b)
  sub : ∀ {x y a b}, x.rat = some a → y.rat = some b → (arith.sub x y).rat = some (a - b)
  mul : ∀ {x y a b}, x.rat = some a → y.rat = some b → (arith.mul x y).rat = some (a * b)

/-- Arithmetic on the two numbers brought to one exponent. -/
def FloatArith.aligned : FloatArith where
  add := align (· + ·)
  sub := align (· - ·)
  mul
    | .finite m e, .finite n k => .finite (m * n) (e + k)
    | _, _ => .nan
  div _ _ := none
  sqrt _ := none
  addMul _ _ _ := none
where
  align (f : ℤ → ℤ → ℤ) : PyFloat → PyFloat → PyFloat
    | .finite m e, .finite n k =>
      .finite (f (m * 2 ^ (e - min e k).toNat) (n * 2 ^ (k - min e k).toNat)) (min e k)
    | _, _ => .nan

theorem FloatArith.exact_aligned : FloatArith.aligned.Exact := by
  have hshift (m e k : ℤ) (h : k ≤ e) : ((m * 2 ^ (e - k).toNat : ℤ) : ℚ) * 2 ^ k = m * 2 ^ e := by
    have htwo : (2 : ℚ) ≠ 0 := two_ne_zero
    rw [Int.cast_mul, Int.cast_pow, Int.cast_ofNat, mul_assoc, ← zpow_natCast,
      Int.toNat_of_nonneg (by omega), ← zpow_add₀ htwo, Int.sub_add_cancel]
  have hfinite {x : PyFloat} {a : ℚ} (h : x.rat = some a) :
      ∃ m e, x = .finite m e ∧ a = m * 2 ^ e := by
    cases x with
    | finite m e => exact ⟨m, e, rfl, (Option.some.inj h).symm⟩
    | inf negative => cases h
    | nan => cases h
  constructor
  all_goals
    intro x y a b hx hy
    obtain ⟨m, e, rfl, rfl⟩ := hfinite hx
    obtain ⟨n, k, rfl, rfl⟩ := hfinite hy
  · have hm := hshift m e (min e k) (min_le_left e k)
    have hn := hshift n k (min e k) (min_le_right e k)
    rw [← hm, ← hn, ← add_mul, ← Int.cast_add]
    rfl
  · have hm := hshift m e (min e k) (min_le_left e k)
    have hn := hshift n k (min e k) (min_le_right e k)
    rw [← hm, ← hn, ← sub_mul, ← Int.cast_sub]
    rfl
  · have hmul : (FloatArith.aligned.mul (.finite m e) (.finite n k)).rat =
        some (((m * n : ℤ) : ℚ) * 2 ^ (e + k)) := rfl
    rw [hmul, Int.cast_mul, zpow_add₀ two_ne_zero, mul_mul_mul_comm]
