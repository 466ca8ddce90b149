import Mathlib.Algebra.GroupWithZero.Nat
import Mathlib.Algebra.Ring.Int.Defs
import Mathlib.Data.List.ReduceOption
import Mathlib.Order.Lattice

/-!
# Python values

`Value` is what `json.loads` returns, floats with their infinities and NaN
included, what a property of a graph database holds, and what Python code can put in
the place of a list: a set, a frozenset or a tuple. `Builtins` is the part of
Python's built-ins that is called on it: `int` of text, `str` and `json.loads` stay
abstract, since the programs here only pass their results on.
-/

/-- The code points of a text. -/
def codes (s : String) : List ℕ := s.toList.map Char.toNat

/-- A Python `float`. -/
inductive PyFloat : Type where
  /-- the value `m * 2 ^ e` -/
  | finite : ℤ → ℤ → PyFloat
  /-- an infinity; `true` is the negative one -/
  | inf : Bool → PyFloat
  | nan : PyFloat
  deriving DecidableEq

/-- The containers that are neither lists nor dicts. -/
inductive Collection : Type where
  | set | frozenset | tuple
  deriving DecidableEq

/-- A value as Python holds it; a dict keeps its order. -/
inductive Value : Type where
  | null : Value
  | bool : Bool → Value
  | int : ℤ → Value
  | float : PyFloat → Value
  | str : String → Value
  | list : List Value → Value
  | dict : List (String × Value) → Value
  /-- no JSON value; the items are in the order in which it is iterated -/
  | collection : Collection → List Value → Value

mutual

/-- Values are compared by structure. -/
def Value.decEq (v w : Value) : Decidable (v = w) :=
  match v, w with
  | .null, w => match w with
    | .null => isTrue rfl
    | .bool _ | .int _ | .float _ | .str _ | .list _ | .dict _ | .collection _ _ => isFalse nofun
  | .bool a, w => match w with
    | .bool b => decidable_of_iff (a = b) (by simp)
    | .null | .int _ | .float _ | .str _ | .list _ | .dict _ | .collection _ _ => isFalse nofun
  | .int a, w => match w with
    | .int b => decidable_of_iff (a = b) (by simp)
    | .null | .bool _ | .float _ | .str _ | .list _ | .dict _ | .collection _ _ => isFalse nofun
  | .float a, w => match w with
    | .float b => decidable_of_iff (a = b) (by simp)
    | .null | .bool _ | .int _ | .str _ | .list _ | .dict _ | .collection _ _ => isFalse nofun
  | .str a, w => match w with
    | .str b => decidable_of_iff (a = b) (by simp)
    | .null | .bool _ | .int _ | .float _ | .list _ | .dict _ | .collection _ _ => isFalse nofun
  | .list a, w => match w with
    | .list b => @decidable_of_iff _ (a = b) (by simp) (Value.decEqList a b)
    | .null | .bool _ | .int _ | .float _ | .str _ | .dict _ | .collection _ _ => isFalse nofun
  | .dict a, w => match w with
    | .dict b => @decidable_of_iff _ (a = b) (by simp) (Value.decEqDict a b)
    | .null | .bool _ | .int _ | .float _ | .str _ | .list _ | .collection _ _ => isFalse nofun
  | .collection k a, w => match w with
    | .collection l b =>
      @decidable_of_iff _ (k = l ∧ a = b) (by simp)
        (@instDecidableAnd _ _ (instDecidableEqCollection k l) (Value.decEqList a b))
    | .null | .bool _ | .int _ | .float _ | .str _ | .list _ | .dict _ => isFalse nofun

def Value.decEqList (vs ws : List Value) : Decidable (vs = ws) :=
  match vs, ws with
  | [], [] => isTrue rfl
  | [], _ :: _ => isFalse nofun
  | _ :: _, [] => isFalse nofun
  | v :: vs, w :: ws =>
    @decidable_of_iff _ (v = w ∧ vs = ws) (by simp)
      (@instDecidableAnd _ _ (Value.decEq v w) (Value.decEqList vs ws))

def Value.decEqDict (d e : List (String × Value)) : Decidable (d = e) :=
  match d, e with
  | [], [] => isTrue rfl
  | [], _ :: _ => isFalse nofun
  | _ :: _, [] => isFalse nofun
  | (k, v) :: d, (l, w) :: e =>
    @decidable_of_iff _ ((k = l ∧ v = w) ∧ d = e) (by simp)
      (@instDecidableAnd _ _ (@instDecidableAnd _ _ (instDecidableEqString k l) (Value.decEq v w))
        (Value.decEqDict d e))

end

instance : DecidableEq Value := Value.decEq

/-- `bool(v)` -/
def Value.truthy : Value → Bool
  | .null => false
  | .bool b => b
  | .int n => n ≠ 0
  | .float (.finite m _) => m ≠ 0
  | .float _ => true
  | .str s => s ≠ ""
  | .list vs => !vs.isEmpty
  | .dict d => !d.isEmpty
  | .collection _ vs => !vs.isEmpty

/-- `val if isinstance(val, list) else []` -/
def Value.listOr : Value → List Value
  | .list vs => vs
  | _ => []

/-- `isinstance(v, str)` -/
def Value.isStr : Value → Bool
  | .str _ => true
  | _ => false

/-- `isinstance(v, int)`, booleans left out -/
def Value.isInt : Value → Bool
  | .int _ => true
  | _ => false

/-- `isinstance(v, int)`, of which a boolean is one -/
def Value.isIntInstance : Value → Bool
  | .int _ | .bool _ => true
  | _ => false

/-- `math.isinf(v)`, for a float -/
def Value.isInf : Value → Bool
  | .float (.inf _) => true
  | _ => false

/-- `k in d` -/
def hasKey (d : List (String × Value)) (k : String) : Bool := (d.lookup k).isSome

/-- `d[k] = v` -/
def setItem (d : List (String × Value)) (k : String) (v : Value) : List (String × Value) :=
  if hasKey d k then d.map fun e => if e.1 = k then (k, v) else e else d ++ [(k, v)]

/-- `{**d, **e}` -/
def mergeDicts (d e : List (String × Value)) : List (String × Value) :=
  e.foldl (fun d kv => setItem d kv.1 kv.2) d

/-- The exceptions `int` raises. -/
inductive PyError : Type where
  | typeError | valueError | overflowError
  deriving DecidableEq

/-- `str.isspace` of one character -/
def isSpace (c : Char) : Bool :=
  let n := c.toNat
  (9 ≤ n && n ≤ 13) || (28 ≤ n && n ≤ 32) || n = 133 || n = 160 || n = 5760 ||
    (8192 ≤ n && n ≤ 8202) || n = 8232 || n = 8233 || n = 8239 || n = 8287 || n = 12288

/-- `s.strip(chars)`, for the characters `p` picks -/
def stripWhere (p : Char → Bool) (s : String) : String :=
  String.ofList (((s.toList.dropWhile p).reverse.dropWhile p).reverse)

/-- `s.strip()` -/
def strip (s : String) : String := stripWhere isSpace s

/-- What the rules take from Python without looking inside. -/
structure Builtins : Type where
  /-- `int(text)`; `none` is `ValueError` -/
  parseInt : String → Option ℤ
  /-- `str(v)` -/
  str : Value → String
  /-- `json.loads`; `none` is `JSONDecodeError` -/
  loads : String → Option Value
  deriving Inhabited

variable (py : Builtins)

/-- `int(v)` -/
def Builtins.int : Value → Except PyError ℤ
  | .null => .error .typeError
  | .bool b => .ok (if b then 1 else 0)
  | .int n => .ok n
  | .float (.finite m e) => .ok (if 0 ≤ e then m * 2 ^ e.toNat else m.tdiv (2 ^ (-e).toNat))
  | .float (.inf _) => .error .overflowError
  | .float .nan => .error .valueError
  | .str s =>
    match py.parseInt s with
    | some n => .ok n
    | none => .error .valueError
  | .list _ | .dict _ | .collection _ _ => .error .typeError

/-- `try: int(v)` under `except (TypeError, ValueError)`; `none` is the handler.
An `OverflowError` passes through. -/
def Builtins.tryInt (v : Value) : Except PyError (Option ℤ) :=
  match py.int v with
  | .ok n => .ok (some n)
  | .error .overflowError => .error .overflowError
  | .error _ => .ok none

/-- `str(v)`, which returns a text as it is. -/
def Builtins.text : Value → String
  | .str s => s
  | v => py.str v
