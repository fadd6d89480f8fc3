import Mathlib.Algebra.Order.Ring.Int
import Mathlib.Data.Int.Bitwise

set_option autoImplicit false

namespace Tlm.Arith

inductive TypeCode where
  | int
  | uint
  | float
  deriving DecidableEq, Repr

structure DataType where
  code : TypeCode
  bits : Nat
  bits_le : bits ≤ 64
  deriving DecidableEq, Repr

namespace DataType

def bool : DataType := ⟨.uint, 1, by decide⟩

def int32 : DataType := ⟨.int, 32, by decide⟩

def int64 : DataType := ⟨.int, 64, by decide⟩

def isInt (dtype : DataType) : Bool :=
  dtype.code = .int

def isUInt (dtype : DataType) : Bool :=
  dtype.code = .uint

def Fits (dtype : DataType) (value : Int) : Prop :=
  match dtype.code with
  | .int => -2 ^ (dtype.bits - 1) ≤ value ∧ value < 2 ^ (dtype.bits - 1)
  | .uint => 0 ≤ value ∧ value < 2 ^ dtype.bits
  | .float => True

instance (dtype : DataType) (value : Int) : Decidable (dtype.Fits value) :=
  match dtype with
  | ⟨.int, bits, _⟩ =>
    inferInstanceAs (Decidable (-2 ^ (bits - 1) ≤ value ∧ value < 2 ^ (bits - 1)))
  | ⟨.uint, bits, _⟩ => inferInstanceAs (Decidable (0 ≤ value ∧ value < 2 ^ bits))
  | ⟨.float, _, _⟩ => inferInstanceAs (Decidable True)

end DataType

structure Var where
  id : Nat
  dtype : DataType
  isSize : Bool
  deriving DecidableEq, Repr

inductive BinOp where
  | add
  | sub
  | mul
  | div
  | mod
  | floorDiv
  | floorMod
  | min
  | max
  | eq
  | ne
  | lt
  | le
  | gt
  | ge
  | and
  | or
  | shiftLeft
  | shiftRight
  | bitwiseAnd
  deriving DecidableEq, Repr

namespace BinOp

def isLogical : BinOp → Bool
  | .eq | .ne | .lt | .le | .gt | .ge | .and | .or => true
  | _ => false

def isDivision : BinOp → Bool
  | .div | .mod | .floorDiv | .floorMod => true
  | _ => false

def isShift : BinOp → Bool
  | .shiftLeft | .shiftRight => true
  | _ => false

def apply : BinOp → Int → Int → Int
  | .add, a, b => a + b
  | .sub, a, b => a - b
  | .mul, a, b => a * b
  | .div, a, b => a.tdiv b
  | .mod, a, b => a.tmod b
  | .floorDiv, a, b => a.fdiv b
  | .floorMod, a, b => a.fmod b
  | .min, a, b => Min.min a b
  | .max, a, b => Max.max a b
  | .eq, a, b => (decide (a = b)).toInt
  | .ne, a, b => (decide (a ≠ b)).toInt
  | .lt, a, b => (decide (a < b)).toInt
  | .le, a, b => (decide (a ≤ b)).toInt
  | .gt, a, b => (decide (b < a)).toInt
  | .ge, a, b => (decide (b ≤ a)).toInt
  | .and, a, b => (decide (a ≠ 0 ∧ b ≠ 0)).toInt
  | .or, a, b => (decide (a ≠ 0 ∨ b ≠ 0)).toInt
  | .shiftLeft, a, b => a * 2 ^ b.toNat
  | .shiftRight, a, b => a.fdiv (2 ^ b.toNat)
  | .bitwiseAnd, a, b => Int.land a b

def Defined (op : BinOp) (dtype : DataType) (b : Int) : Prop :=
  match op with
  | .div | .mod | .floorDiv | .floorMod => b ≠ 0
  | .shiftLeft | .shiftRight => 0 ≤ b ∧ b < dtype.bits
  | _ => True

instance (op : BinOp) (dtype : DataType) (b : Int) : Decidable (op.Defined dtype b) :=
  match op with
  | .div | .mod | .floorDiv | .floorMod => inferInstanceAs (Decidable (b ≠ 0))
  | .shiftLeft | .shiftRight => inferInstanceAs (Decidable (0 ≤ b ∧ b < dtype.bits))
  | .add | .sub | .mul | .min | .max | .eq | .ne | .lt | .le | .gt | .ge | .and | .or
  | .bitwiseAnd => inferInstanceAs (Decidable True)

theorem toInt_ne_zero {p : Bool} : p.toInt ≠ 0 ↔ p = true := by
  cases p <;> simp

section

variable (x y : Int)

theorem apply_eq_holds : BinOp.eq.apply x y ≠ 0 ↔ x = y := toInt_ne_zero.trans decide_eq_true_iff

theorem apply_lt_holds : BinOp.lt.apply x y ≠ 0 ↔ x < y := toInt_ne_zero.trans decide_eq_true_iff

theorem apply_le_holds : BinOp.le.apply x y ≠ 0 ↔ x ≤ y := toInt_ne_zero.trans decide_eq_true_iff

theorem apply_gt_holds : BinOp.gt.apply x y ≠ 0 ↔ y < x := toInt_ne_zero.trans decide_eq_true_iff

theorem apply_ge_holds : BinOp.ge.apply x y ≠ 0 ↔ y ≤ x := toInt_ne_zero.trans decide_eq_true_iff

theorem apply_and_holds : BinOp.and.apply x y ≠ 0 ↔ x ≠ 0 ∧ y ≠ 0 :=
  toInt_ne_zero.trans decide_eq_true_iff

end

end BinOp

inductive PrimExpr where
  | var (v : Var)
  | intImm (dtype : DataType) (value : Int)
  | binary (op : BinOp) (a b : PrimExpr)
  | not (a : PrimExpr)
  | select (condition trueValue falseValue : PrimExpr)
  | letIn (v : Var) (value body : PrimExpr)
  | cast (dtype : DataType) (value : PrimExpr)
  | atom (dtype : DataType) (id : Nat)
  deriving DecidableEq, Repr

structure Env where
  var : Var → Int
  atom : Nat → Int

def Env.set (env : Env) (v : Var) (value : Int) : Env :=
  { env with var := Function.update env.var v value }

theorem Env.set_comm {env : Env} {v w : Var} (differ : v ≠ w) (x y : Int) :
    (env.set v x).set w y = (env.set w y).set v x := by
  simp [Env.set, Function.update_comm differ]

namespace PrimExpr

def dtype : PrimExpr → DataType
  | .var v => v.dtype
  | .intImm dtype _ => dtype
  | .binary op a _ => if op.isLogical then .bool else a.dtype
  | .not _ => .bool
  | .select _ trueValue _ => trueValue.dtype
  | .letIn _ _ body => body.dtype
  | .cast dtype _ => dtype
  | .atom dtype _ => dtype

def value (env : Env) : PrimExpr → Int
  | .var v => env.var v
  | .intImm _ value => value
  | .binary op a b => op.apply (a.value env) (b.value env)
  | .not a => (decide (a.value env = 0)).toInt
  | .select condition trueValue falseValue =>
    if condition.value env ≠ 0 then trueValue.value env else falseValue.value env
  | .letIn v value body => body.value (env.set v (value.value env))
  | .cast _ value => value.value env
  | .atom _ id => env.atom id

def Everywhere (P : Env → PrimExpr → Prop) (env : Env) : PrimExpr → Prop
  | .var v => P env (.var v)
  | .intImm dtype value => P env (.intImm dtype value)
  | .binary op a b => P env (.binary op a b) ∧ a.Everywhere P env ∧ b.Everywhere P env
  | .not a => P env (.not a) ∧ a.Everywhere P env
  | .select condition trueValue falseValue =>
    P env (.select condition trueValue falseValue) ∧ condition.Everywhere P env ∧
      trueValue.Everywhere P env ∧ falseValue.Everywhere P env
  | .letIn v value body =>
    P env (.letIn v value body) ∧ value.Everywhere P env ∧
      body.Everywhere P (env.set v (value.value env))
  | .cast dtype value => P env (.cast dtype value) ∧ value.Everywhere P env
  | .atom dtype id => P env (.atom dtype id)

theorem Everywhere.here {P : Env → PrimExpr → Prop} {env : Env} {e : PrimExpr}
    (all : e.Everywhere P env) : P env e := by
  cases e with
  | var | intImm | atom => exact all
  | binary | not | select | letIn | cast => exact all.1

instance decidableEverywhere {P : Env → PrimExpr → Prop} [∀ env e, Decidable (P env e)] :
    (env : Env) → (e : PrimExpr) → Decidable (e.Everywhere P env)
  | env, .var v => inferInstanceAs (Decidable (P env (.var v)))
  | env, .intImm dtype value => inferInstanceAs (Decidable (P env (.intImm dtype value)))
  | env, .binary op a b =>
    let _ : Decidable (a.Everywhere P env) := decidableEverywhere env a
    let _ : Decidable (b.Everywhere P env) := decidableEverywhere env b
    inferInstanceAs (Decidable (P env (.binary op a b) ∧ a.Everywhere P env ∧ b.Everywhere P env))
  | env, .not a =>
    let _ : Decidable (a.Everywhere P env) := decidableEverywhere env a
    inferInstanceAs (Decidable (P env (.not a) ∧ a.Everywhere P env))
  | env, .select condition trueValue falseValue =>
    let _ : Decidable (condition.Everywhere P env) := decidableEverywhere env condition
    let _ : Decidable (trueValue.Everywhere P env) := decidableEverywhere env trueValue
    let _ : Decidable (falseValue.Everywhere P env) := decidableEverywhere env falseValue
    inferInstanceAs (Decidable (P env (.select condition trueValue falseValue) ∧
      condition.Everywhere P env ∧ trueValue.Everywhere P env ∧ falseValue.Everywhere P env))
  | env, .letIn v value body =>
    let _ : Decidable (value.Everywhere P env) := decidableEverywhere env value
    let _ : Decidable (body.Everywhere P (env.set v (value.value env))) :=
      decidableEverywhere (env.set v (value.value env)) body
    inferInstanceAs (Decidable (P env (.letIn v value body) ∧ value.Everywhere P env ∧
      body.Everywhere P (env.set v (value.value env))))
  | env, .cast dtype value =>
    let _ : Decidable (value.Everywhere P env) := decidableEverywhere env value
    inferInstanceAs (Decidable (P env (.cast dtype value) ∧ value.Everywhere P env))
  | env, .atom dtype id => inferInstanceAs (Decidable (P env (.atom dtype id)))

def DefinedHere (env : Env) : PrimExpr → Prop
  | .binary op a b => op.Defined a.dtype (b.value env)
  | _ => True

instance (env : Env) (e : PrimExpr) : Decidable (e.DefinedHere env) :=
  match e with
  | .binary op a b => inferInstanceAs (Decidable (op.Defined a.dtype (b.value env)))
  | .var _ | .intImm _ _ | .not _ | .select _ _ _ | .letIn _ _ _ | .cast _ _ | .atom _ _ =>
    inferInstanceAs (Decidable True)

def Defined : Env → PrimExpr → Prop :=
  Everywhere DefinedHere

instance (env : Env) (e : PrimExpr) : Decidable (e.Defined env) :=
  inferInstanceAs (Decidable (e.Everywhere DefinedHere env))

def Mentions (v : Var) : PrimExpr → Prop
  | .var w => v = w
  | .intImm _ _ => False
  | .binary _ a b => a.Mentions v ∨ b.Mentions v
  | .not a => a.Mentions v
  | .select condition trueValue falseValue =>
    condition.Mentions v ∨ trueValue.Mentions v ∨ falseValue.Mentions v
  | .letIn w value body => v = w ∨ value.Mentions v ∨ body.Mentions v
  | .cast _ value => value.Mentions v
  | .atom _ _ => False

theorem value_set {v : Var} {e : PrimExpr} (absent : ¬e.Mentions v) (env : Env) (x : Int) :
    e.value (env.set v x) = e.value env := by
  induction e generalizing env with
  | var w =>
    have differ : w ≠ v := fun same => absent same.symm
    simp [value, Env.set, differ]
  | intImm | atom => rfl
  | binary op a b iha ihb =>
    simp only [Mentions, not_or] at absent
    simp [value, iha absent.1, ihb absent.2]
  | not a ih => simp [value, ih absent]
  | select condition trueValue falseValue ihc iht ihf =>
    simp only [Mentions, not_or] at absent
    simp [value, ihc absent.1, iht absent.2.1, ihf absent.2.2]
  | letIn w value body ihv ihb =>
    simp only [Mentions, not_or] at absent
    simp [PrimExpr.value, ihv absent.2.1, Env.set_comm absent.1, ihb absent.2.2]
  | cast dtype value ih => simp [PrimExpr.value, ih absent]

end PrimExpr

def extractConstraints : PrimExpr → List PrimExpr
  | .binary .and a b => extractConstraints a ++ extractConstraints b
  | e => [e]

theorem extractConstraints_hold {env : Env} {e : PrimExpr} :
    e.value env ≠ 0 ↔ ∀ part ∈ extractConstraints e, part.value env ≠ 0 := by
  fun_induction extractConstraints e with
  | case1 a b iha ihb => rw [PrimExpr.value, BinOp.apply_and_holds, iha, ihb, List.forall_mem_append]
  | case2 e => simp

structure Range where
  min : PrimExpr
  extent : PrimExpr
  deriving DecidableEq, Repr

def Range.Contains (range : Range) (env : Env) (value : Int) : Prop :=
  range.min.value env ≤ value ∧ value < range.min.value env + range.extent.value env

instance (range : Range) (env : Env) (value : Int) : Decidable (range.Contains env value) :=
  inferInstanceAs (Decidable (range.min.value env ≤ value ∧
    value < range.min.value env + range.extent.value env))

inductive CompareResult where
  | inconsistent
  | eq
  | lt
  | le
  | gt
  | ge
  | ne
  | unknown
  deriving DecidableEq, Repr

namespace CompareResult

def bits : CompareResult → Nat
  | .inconsistent => 0
  | .eq => 1
  | .lt => 2
  | .le => 3
  | .gt => 4
  | .ge => 5
  | .ne => 6
  | .unknown => 7

def ofBits : Nat → CompareResult
  | 0 => .inconsistent
  | 1 => .eq
  | 2 => .lt
  | 3 => .le
  | 4 => .gt
  | 5 => .ge
  | 6 => .ne
  | _ => .unknown

instance : AndOp CompareResult := ⟨fun a b => ofBits (a.bits &&& b.bits)⟩

def Holds : CompareResult → Int → Int → Prop
  | .inconsistent, _, _ => False
  | .eq, x, y => x = y
  | .lt, x, y => x < y
  | .le, x, y => x ≤ y
  | .gt, x, y => y < x
  | .ge, x, y => y ≤ x
  | .ne, x, y => x ≠ y
  | .unknown, _, _ => True

theorem and_holds {a b : CompareResult} {x y : Int} (left : a.Holds x y) (right : b.Holds x y) :
    (a &&& b).Holds x y := by
  cases a <;> cases b <;> first
    | exact left.elim
    | exact right.elim
    | (simp only [Holds] at left right; change Holds (ofBits _) x y
       simp only [bits, Nat.reduceAnd, ofBits, Holds]; try omega)

end CompareResult

end Tlm.Arith
