import Mathlib.Algebra.Order.Group.Int
import Tlm.Shared.Traced
import Tlm.Arith.Expr
import Tlm.Arith.IntOperator

set_option autoImplicit false

namespace Tlm.Arith

open Cpp

inductive Event where
  -- A 64-bit operation on constants overflowed.
  | overflow
  -- A constant was wrapped, or narrowed to `int`, and changed.
  | inexact
  -- A rule was applied to constants it does not hold for.
  | unmet
  -- A rule was applied that needs `0 ≤ e + k`.
  | assumed (e : PrimExpr) (k : Int)
  deriving DecidableEq, Repr

abbrev Folding := Traced Fault Event

def note (exact : Prop) [Decidable exact] : Folding Unit :=
  if exact then pure () else Traced.emit .inexact

def bounded (value : Int) : Folding Unit :=
  if -2 ^ 63 ≤ value ∧ value < 2 ^ 63 then pure () else Traced.emit .overflow

-- What comes to nothing changes no constant, but it must not overflow either.
def attempt {α : Type} (applied : α → Bool) : Folding α → Folding α :=
  Traced.settle (fun event => event = .overflow) applied

def DataType.isIndexType (dtype : DataType) : Bool :=
  dtype.isInt ∧ (dtype.bits = 32 ∨ dtype.bits = 64)

def getFoldResultInt64Repr (x : Int) (dtype : DataType) : Int :=
  let x := if dtype.bits < 64 then x % 2 ^ dtype.bits else x
  if dtype.isInt ∧ 2 ^ (dtype.bits - 1) ≤ x then x - 2 ^ dtype.bits else x

def foldResult (dtype : DataType) (value : Int) : Folding PrimExpr := do
  let repr := getFoldResultInt64Repr (value.bmod (2 ^ 64)) dtype
  bounded value
  note (repr = value)
  return .intImm dtype repr

-- `make_const`, for a value computed on `int64_t`.
def makeConst (dtype : DataType) (value : Int) : Folding PrimExpr := do
  let repr := value.bmod (2 ^ 64)
  bounded value
  note (repr = value ∧ dtype.Fits repr)
  if dtype.Fits repr then return .intImm dtype repr else Traced.fail .check

def PrimExpr.asIntImm : PrimExpr → Option Int
  | .intImm _ value => some value
  | _ => none

section

variable (a b : PrimExpr)

def foldAdd : Folding (Option PrimExpr) :=
  match a.asIntImm, b.asIntImm with
  | some pa, some pb => some <$> foldResult a.dtype (pa + pb)
  | pa, pb => return if pa = some 0 then some b else if pb = some 0 then some a else none

def foldSub : Folding (Option PrimExpr) :=
  match a.asIntImm, b.asIntImm with
  | some pa, some pb =>
    if a.dtype.isUInt ∧ pa = 0 ∧ b.dtype.isUInt ∧ 0 < pb then Traced.fail .check
    else some <$> foldResult a.dtype (pa - pb)
  | _, pb => return if pb = some 0 then some a else none

def foldMul : Folding (Option PrimExpr) :=
  match a.asIntImm, b.asIntImm with
  | some pa, some pb => some <$> foldResult a.dtype (pa * pb)
  | pa, pb =>
    return if pa = some 1 then some b
      else if pa = some 0 then some a
      else if pb = some 1 then some a
      else if pb = some 0 then some b
      else none

def foldQuotient (quotient : Int → Int → Int) : Folding (Option PrimExpr) :=
  match a.asIntImm, b.asIntImm with
  | some pa, some pb =>
    if pb = 0 then Traced.fail .check else some <$> foldResult a.dtype (quotient pa pb)
  | pa, pb =>
    if pa = some 0 ∨ pb = some 1 then return some a
    else if pb = some 0 then Traced.fail .check
    else return none

def foldDiv : Folding (Option PrimExpr) :=
  foldQuotient a b Int.tdiv

def foldFloorDiv : Folding (Option PrimExpr) :=
  foldQuotient a b floordiv

def foldRemainder (remainder : Int → Int → Int) : Folding (Option PrimExpr) :=
  if a.dtype.isIndexType ∧ b.dtype.isIndexType then
    match a.asIntImm, b.asIntImm with
    | some pa, some pb =>
      if pb = 0 then Traced.fail .check else some <$> foldResult a.dtype (remainder pa pb)
    | pa, pb =>
      if pa = some 0 then return some a
      else if pb = some 1 then some <$> makeConst a.dtype 0
      else if pb = some 0 then Traced.fail .check
      else return none
  else return none

def foldMod : Folding (Option PrimExpr) :=
  foldRemainder a b Int.tmod

def foldFloorMod : Folding (Option PrimExpr) :=
  foldRemainder a b floormod

def foldExtremum (same : Bool) (extremum : Int → Int → Int) : Folding (Option PrimExpr) :=
  match a.asIntImm, b.asIntImm with
  | some pa, some pb => some <$> makeConst a.dtype (extremum pa pb)
  | _, _ => return if same then some a else none

end

def foldCompare (a b : PrimExpr) (holds : Int → Int → Bool) : Folding (Option PrimExpr) :=
  match a.asIntImm, b.asIntImm with
  | some pa, some pb => return some (.intImm .bool (holds pa pb).toInt)
  | _, _ => return none

def conjoin (a b : PrimExpr) : Option PrimExpr :=
  match a.asIntImm, b.asIntImm with
  | some pa, _ => some (if pa ≠ 0 then b else a)
  | none, some pb => some (if pb ≠ 0 then a else b)
  | none, none => none

def disjoin (a b : PrimExpr) : Option PrimExpr :=
  match a.asIntImm, b.asIntImm with
  | some pa, _ => some (if pa ≠ 0 then a else b)
  | none, some pb => some (if pb ≠ 0 then b else a)
  | none, none => none

def foldAnd (a b : PrimExpr) : Folding (Option PrimExpr) :=
  return conjoin a b

def foldOr (a b : PrimExpr) : Folding (Option PrimExpr) :=
  return disjoin a b

-- `TryConstFold<Not>`.
def foldNot (a : PrimExpr) : Option PrimExpr :=
  a.asIntImm.map fun pa => .intImm .bool (decide (pa = 0)).toInt

-- `TryConstFold`. Whether two nodes are the same object is not visible in their structure.
def tryConstFold (sameAs : PrimExpr → PrimExpr → Bool) (op : BinOp) (a b : PrimExpr) :
    Folding (Option PrimExpr) :=
  match op with
  | .add => foldAdd a b
  | .sub => foldSub a b
  | .mul => foldMul a b
  | .div => foldDiv a b
  | .mod => foldMod a b
  | .floorDiv => foldFloorDiv a b
  | .floorMod => foldFloorMod a b
  | .min => foldExtremum a b (sameAs a b) min
  | .max => foldExtremum a b (sameAs a b) max
  | .eq => foldCompare a b fun x y => x = y
  | .ne => foldCompare a b fun x y => x ≠ y
  | .lt => foldCompare a b fun x y => x < y
  | .le => foldCompare a b fun x y => x ≤ y
  | .gt => foldCompare a b fun x y => x > y
  | .ge => foldCompare a b fun x y => x ≥ y
  | .and => foldAnd a b
  | .or => foldOr a b
  | _ => return none

-- The operators of `op.h`: a node is made where nothing folds.
def build (sameAs : PrimExpr → PrimExpr → Bool) (op : BinOp) (a b : PrimExpr) :
    Folding PrimExpr := do
  match ← tryConstFold sameAs op a b with
  | some e => return e
  | none => return .binary op a b

def BinOp.truncates : BinOp → Bool
  | .div | .mod => true
  | _ => false

inductive Kind where
  | index
  | bool
  deriving DecidableEq, Repr

def BinOp.signature : BinOp → Option (Kind × Kind)
  | .add | .sub | .mul | .div | .mod | .floorDiv | .floorMod | .min | .max => some (.index, .index)
  | .eq | .ne | .lt | .le | .gt | .ge => some (.index, .bool)
  | .and | .or => some (.bool, .bool)
  | .shiftLeft | .shiftRight | .bitwiseAnd => none

-- Arithmetic over variables and constants of one type, or a formula over comparisons of such
-- expressions. Division truncates only if `trunc`, and divisors are constants if `strict`.
def PrimExpr.HasKind (dtype : DataType) (trunc strict : Bool) : PrimExpr → Kind → Prop
  | .var v, kind => kind = .index ∧ v.dtype = dtype
  | .intImm type value, .index => type = dtype ∧ dtype.Fits value
  | .intImm type value, .bool => type = .bool ∧ (value = 0 ∨ value = 1)
  | .binary op a b, kind =>
    ∃ operand, op.signature = some (operand, kind) ∧ (op.truncates = true → trunc = true) ∧
      (strict = true → op.isDivision = true → b.asIntImm.isSome = true) ∧
      a.HasKind dtype trunc strict operand ∧ b.HasKind dtype trunc strict operand
  | .not a, kind => kind = .bool ∧ a.HasKind dtype trunc strict .bool
  | _, _ => False

instance PrimExpr.decidableHasKind (dtype : DataType) (trunc strict : Bool) :
    (e : PrimExpr) → (kind : Kind) → Decidable (e.HasKind dtype trunc strict kind)
  | .var v, kind => inferInstanceAs (Decidable (kind = .index ∧ v.dtype = dtype))
  | .intImm type value, .index => inferInstanceAs (Decidable (type = dtype ∧ dtype.Fits value))
  | .intImm type value, .bool =>
    inferInstanceAs (Decidable (type = .bool ∧ (value = 0 ∨ value = 1)))
  | .binary op a b, kind =>
    let _ := a.decidableHasKind dtype trunc strict
    let _ := b.decidableHasKind dtype trunc strict
    let fits (operand : Kind) : Prop :=
      op.signature = some (operand, kind) ∧ (op.truncates = true → trunc = true) ∧
        (strict = true → op.isDivision = true → b.asIntImm.isSome = true) ∧
        a.HasKind dtype trunc strict operand ∧ b.HasKind dtype trunc strict operand
    decidable_of_iff (fits .index ∨ fits .bool)
      ⟨fun either => either.elim (⟨_, ·⟩) (⟨_, ·⟩), fun ⟨operand, holds⟩ => match operand with
        | .index => .inl holds
        | .bool => .inr holds⟩
  | .not a, kind =>
    let _ := a.decidableHasKind dtype trunc strict .bool
    inferInstanceAs (Decidable (kind = .bool ∧ a.HasKind dtype trunc strict .bool))
  | .select _ _ _, _ | .letIn _ _ _, _ | .cast _ _, _ | .atom _ _, _ =>
    inferInstanceAs (Decidable False)

structure Setting where
  dtype : DataType
  isIndex : dtype.isIndexType = true
  trunc : Bool
  strict : Bool
  logic : Bool
  full : logic = true → trunc = true
  env : Env
  fine : Event → Prop
  exact : ¬fine .inexact
  bounded : ¬fine .overflow
  met : logic = true → ¬fine .unmet
  nonneg : trunc = true → ∀ e k, fine (.assumed e k) → 0 ≤ e.value env + k

structure Setting.Means (setting : Setting) (kind : Kind) (e : PrimExpr) (value : Int) : Prop where
  hasKind : e.HasKind setting.dtype setting.trunc setting.strict kind
  logic : kind = .bool → setting.logic = true
  defined : e.Defined setting.env
  value : e.value setting.env = value

theorem BinOp.signature_isLogical {op : BinOp} {operand kind : Kind}
    (signature : op.signature = some (operand, kind)) :
    op.isLogical = decide (kind = .bool) ∧ (operand = .bool → kind = .bool) := by
  cases op <;> simp only [BinOp.signature]
    at signature <;> obtain ⟨rfl, rfl⟩ := signature <;> decide

theorem BinOp.signature_index {op : BinOp} {operand : Kind}
    (signature : op.signature = some (operand, .index)) : operand = .index := by
  have operands := (BinOp.signature_isLogical signature).2
  cases operand <;> simp_all

def Setting.typeOf (setting : Setting) : Kind → DataType
  | .index => setting.dtype
  | .bool => .bool

@[simp] theorem Setting.typeOf_index (setting : Setting) :
    setting.typeOf .index = setting.dtype := rfl

variable {dtype : DataType}

theorem isIndexType_cases (index : dtype.isIndexType = true) :
    dtype.code = .int ∧ (dtype.bits = 32 ∨ dtype.bits = 64) := by
  simpa [DataType.isIndexType, DataType.isInt] using index

theorem fits_iff (index : dtype.isIndexType = true) (value : Int) :
    dtype.Fits value ↔ -2 ^ (dtype.bits - 1) ≤ value ∧ value < 2 ^ (dtype.bits - 1) := by
  simp [DataType.Fits, (isIndexType_cases index).1]

theorem getFoldResultInt64Repr_fits (index : dtype.isIndexType = true) (x : Int) : dtype.Fits (getFoldResultInt64Repr (x.bmod (2 ^ 64)) dtype) := by
  obtain ⟨code, bits⟩ := isIndexType_cases index
  have low := Int.le_bmod (x := x) (m := 2 ^ 64) (by decide)
  have high := Int.bmod_lt (x := x) (m := 2 ^ 64) (by decide)
  rw [fits_iff index]
  rcases bits with bits | bits <;>
    simp [getFoldResultInt64Repr, DataType.isInt, code, bits] at * <;> omega

theorem PrimExpr.asIntImm_eq {e : PrimExpr} {value : Int} (found : e.asIntImm = some value) :
    ∃ dtype, e = .intImm dtype value := by
  cases e <;> simp_all [asIntImm]

structure Meaning where
  dtype : DataType
  signed : dtype.isUInt = false
  fine : Event → Prop
  exact : ¬fine .inexact
  Means : PrimExpr → Int → Prop
  dtype_eq : ∀ {e v}, Means e v → e.dtype = dtype
  value_eq : ∀ {e u v}, Means e u → Means e v → u = v
  asIntImm_eq : ∀ {e v x}, Means e v → e.asIntImm = some x → x = v
  folded : ∀ {x}, getFoldResultInt64Repr (x.bmod (2 ^ 64)) dtype = x → Means (.intImm dtype x) x
  made : ∀ {x}, dtype.Fits x → Means (.intImm dtype x) x

namespace Meaning

variable {meaning : Meaning} {a b e : PrimExpr} {u v : Int}

open Traced

variable (meaning) in
theorem note_returns {exact : Prop} [Decidable exact] : Returns meaning.fine (note exact) fun _ => exact := by
  unfold note
  split
  next holds => exact returns_pure holds
  · exact returns_emit fun fine => absurd fine meaning.exact

theorem bounded_runs {fine : Event → Prop} (value : Int) : Returns fine (bounded value) fun _ => True := by
  unfold bounded
  split
  · exact returns_pure trivial
  · exact returns_emit fun _ => trivial

variable (meaning) in
theorem foldResult_returns (value : Int) :
    Returns meaning.fine (foldResult meaning.dtype value) (meaning.Means · value) := by
  refine returns_bind (bounded_runs value) fun _ _ => ?_
  refine returns_bind meaning.note_returns fun _ same => returns_pure ?_
  rw [same]
  exact meaning.folded same

variable (meaning) in
theorem makeConst_returns (value : Int) :
    Returns meaning.fine (makeConst meaning.dtype value) (meaning.Means · value) := by
  refine returns_bind (bounded_runs value) fun _ _ => ?_
  refine returns_bind meaning.note_returns fun _ exact => ?_
  obtain ⟨same, fits⟩ := exact
  rw [if_pos fits]
  rw [same] at fits ⊢
  exact returns_pure (meaning.made fits)

def Folds (meaning : Meaning) (value : Int) (answer : Option PrimExpr) : Prop :=
  ∀ e, answer = some e → meaning.Means e value

@[simp] theorem folds_none : meaning.Folds v none := by
  simp [Folds]

@[simp] theorem folds_some : meaning.Folds v (some e) ↔ meaning.Means e v := by
  simp [Folds]

section

variable (left : meaning.Means a u) (right : meaning.Means b v)

include left right

theorem foldAdd_returns : Returns meaning.fine (foldAdd a b) (meaning.Folds (u + v)) := by
  unfold foldAdd
  split
  next pa pb foundA foundB =>
    rw [meaning.asIntImm_eq left foundA, meaning.asIntImm_eq right foundB, meaning.dtype_eq left]
    exact returns_map (by simpa using meaning.foldResult_returns _)
  · apply returns_pure
    split
    next zero => simpa [← meaning.asIntImm_eq left zero] using right
    · split
      next zero => simpa [← meaning.asIntImm_eq right zero] using left
      · simp

theorem foldSub_returns : Returns meaning.fine (foldSub a b) (meaning.Folds (u - v)) := by
  have signed : a.dtype.isUInt = false := by
    rw [meaning.dtype_eq left]
    exact meaning.signed
  unfold foldSub
  split
  next pa pb foundA foundB =>
    rw [if_neg (by simp [signed]), meaning.asIntImm_eq left foundA,
      meaning.asIntImm_eq right foundB, meaning.dtype_eq left]
    exact returns_map (by simpa using meaning.foldResult_returns _)
  · apply returns_pure
    split
    next zero => simpa [← meaning.asIntImm_eq right zero] using left
    · simp

theorem foldMul_returns : Returns meaning.fine (foldMul a b) (meaning.Folds (u * v)) := by
  unfold foldMul
  split
  next pa pb foundA foundB =>
    rw [meaning.asIntImm_eq left foundA, meaning.asIntImm_eq right foundB, meaning.dtype_eq left]
    exact returns_map (by simpa using meaning.foldResult_returns _)
  · apply returns_pure
    split
    next one => simpa [← meaning.asIntImm_eq left one] using right
    · split
      next zero => simpa [← meaning.asIntImm_eq left zero] using left
      · split
        next one => simpa [← meaning.asIntImm_eq right one] using left
        · split
          next zero => simpa [← meaning.asIntImm_eq right zero] using right
          · simp

variable (nonzero : v ≠ 0)

include nonzero

theorem foldQuotient_returns {quotient : Int → Int → Int} (zero : quotient 0 v = 0) (one : quotient u 1 = u) :
    Returns meaning.fine (foldQuotient a b quotient) (meaning.Folds (quotient u v)) := by
  unfold foldQuotient
  split
  next pa pb foundA foundB =>
    rw [meaning.asIntImm_eq left foundA, meaning.asIntImm_eq right foundB, meaning.dtype_eq left,
      if_neg nonzero]
    exact returns_map (by simpa using meaning.foldResult_returns _)
  · split
    next found =>
      apply returns_pure
      rcases found with found | found
      · simpa [← meaning.asIntImm_eq left found, zero] using left
      · simpa [← meaning.asIntImm_eq right found, one] using left
    · rw [if_neg fun found => nonzero (meaning.asIntImm_eq right found).symm]
      exact returns_pure folds_none

theorem foldDiv_returns : Returns meaning.fine (foldDiv a b) (meaning.Folds (u.tdiv v)) :=
  foldQuotient_returns left right nonzero (Int.zero_tdiv v) (Int.tdiv_one u)

theorem foldFloorDiv_returns : Returns meaning.fine (foldFloorDiv a b) (meaning.Folds (u.fdiv v)) := by
  rw [(floordiv_floormod u nonzero).1]
  apply foldQuotient_returns left right nonzero
  · rw [← (floordiv_floormod 0 nonzero).1, Int.zero_fdiv]
  · rw [← (floordiv_floormod u one_ne_zero).1, Int.fdiv_one]

theorem foldRemainder_returns {remainder : Int → Int → Int} (zero : remainder 0 v = 0)
    (one : remainder u 1 = 0) :
    Returns meaning.fine (foldRemainder a b remainder) (meaning.Folds (remainder u v)) := by
  rw [foldRemainder]
  split
  · rw [meaning.dtype_eq left]
    split
    next pa pb foundA foundB =>
      rw [meaning.asIntImm_eq left foundA, meaning.asIntImm_eq right foundB, if_neg nonzero]
      exact returns_map (by simpa using meaning.foldResult_returns _)
    · split
      next found =>
        apply returns_pure
        simpa [← meaning.asIntImm_eq left found, zero] using left
      · split
        next found =>
          rw [← meaning.asIntImm_eq right found, one]
          exact returns_map (by simpa using meaning.makeConst_returns 0)
        · rw [if_neg fun found => nonzero (meaning.asIntImm_eq right found).symm]
          exact returns_pure folds_none
  · exact returns_pure folds_none

theorem foldMod_returns : Returns meaning.fine (foldMod a b) (meaning.Folds (u.tmod v)) :=
  foldRemainder_returns left right nonzero (Int.zero_tmod v) (Int.tmod_one u)

theorem foldFloorMod_returns : Returns meaning.fine (foldFloorMod a b) (meaning.Folds (u.fmod v)) := by
  rw [(floordiv_floormod u nonzero).2]
  apply foldRemainder_returns left right nonzero
  · rw [← (floordiv_floormod 0 nonzero).2, Int.zero_fmod]
  · rw [← (floordiv_floormod u one_ne_zero).2, Int.fmod_one]

omit nonzero

theorem foldExtremum_returns {same : Bool} {extremum : Int → Int → Int}
    (equal : same = true → a = b) (idempotent : extremum u u = u) :
    Returns meaning.fine (foldExtremum a b same extremum) (meaning.Folds (extremum u v)) := by
  unfold foldExtremum
  split
  next pa pb foundA foundB =>
    rw [meaning.asIntImm_eq left foundA, meaning.asIntImm_eq right foundB, meaning.dtype_eq left]
    exact returns_map (by simpa using meaning.makeConst_returns _)
  · apply returns_pure
    split
    next holds =>
      have shared : u = v := meaning.value_eq left (equal holds ▸ right)
      simpa [← shared, idempotent] using left
    · simp

theorem tryConstFold_returns {sameAs : PrimExpr → PrimExpr → Bool} {op : BinOp}
    (equal : ∀ a b, sameAs a b = true → a = b)
    (signature : op.signature = some (.index, .index)) (divisor : op.isDivision = true → v ≠ 0) :
    Returns meaning.fine (tryConstFold sameAs op a b) (meaning.Folds (op.apply u v)) := by
  cases op <;> simp only [BinOp.signature, Option.some.injEq, Prod.mk.injEq, reduceCtorEq,
    and_false] at signature
  case add => exact foldAdd_returns left right
  case sub => exact foldSub_returns left right
  case mul => exact foldMul_returns left right
  case div => exact foldDiv_returns left right (divisor rfl)
  case mod => exact foldMod_returns left right (divisor rfl)
  case floorDiv => exact foldFloorDiv_returns left right (divisor rfl)
  case floorMod => exact foldFloorMod_returns left right (divisor rfl)
  case min => exact foldExtremum_returns left right (equal a b) (min_self u)
  case max => exact foldExtremum_returns left right (equal a b) (max_self u)

end

end Meaning

namespace Setting

variable {setting : Setting} {kind : Kind} {a b e : PrimExpr} {u v : Int}

open Traced

theorem Means.dtype_eq (means : setting.Means kind e v) : e.dtype = setting.typeOf kind := by
  have hasKind := means.hasKind
  clear means
  induction e generalizing kind with
  | var =>
    obtain ⟨rfl, same⟩ := hasKind
    exact same
  | intImm => cases kind <;> exact hasKind.1
  | binary op a b iha _ =>
    obtain ⟨operand, signature, -, -, left, -⟩ := hasKind
    have logical := (BinOp.signature_isLogical signature).1
    cases kind with
    | bool => simp [PrimExpr.dtype, logical, typeOf]
    | index =>
      obtain rfl := BinOp.signature_index signature
      simp [PrimExpr.dtype, logical, iha left]
  | not =>
    obtain ⟨rfl, -⟩ := hasKind
    rfl
  | select | letIn | cast | atom => cases kind <;> exact hasKind.elim

theorem Means.isIndexType (means : setting.Means .index e v) : e.dtype.isIndexType = true := by
  rw [means.dtype_eq]
  exact setting.isIndex

theorem Means.asIntImm (means : setting.Means kind e v) {value : Int}
    (found : e.asIntImm = some value) : value = v := by
  obtain ⟨dtype, rfl⟩ := PrimExpr.asIntImm_eq found
  exact means.value

theorem means_intImm (fits : setting.dtype.Fits v) : setting.Means .index (.intImm setting.dtype v) v :=
  ⟨⟨rfl, fits⟩, by simp, trivial, rfl⟩

theorem means_bool (logic : setting.logic = true) (truth : Bool) :
    setting.Means .bool (.intImm .bool truth.toInt) truth.toInt :=
  ⟨⟨rfl, by cases truth <;> simp⟩, fun _ => logic, trivial, rfl⟩

theorem toInt_cases (truth : Bool) : truth.toInt = 0 ∨ truth.toInt = 1 := by
  cases truth <;> simp

theorem Means.truth (means : setting.Means .bool e v) : v = 0 ∨ v = 1 := by
  rw [← means.value]
  have hasKind := means.hasKind
  cases e with
  | var => simp [PrimExpr.HasKind] at hasKind
  | intImm dtype value => exact hasKind.2
  | binary op a b =>
    obtain ⟨operand, signature, -⟩ := hasKind
    cases op <;> simp [BinOp.signature] at signature <;>
      simp only [PrimExpr.value] <;> exact toInt_cases _
  | not a => exact toInt_cases _
  | select | letIn | cast | atom => exact hasKind.elim

def meaning (setting : Setting) : Meaning where
  dtype := setting.dtype
  signed := by simp [DataType.isUInt, (isIndexType_cases setting.isIndex).1]
  fine := setting.fine
  exact := setting.exact
  Means := setting.Means .index
  dtype_eq := Means.dtype_eq
  value_eq left right := left.value.symm.trans right.value
  asIntImm_eq means found := means.asIntImm found
  folded {x} same := means_intImm (same ▸ getFoldResultInt64Repr_fits setting.isIndex x)
  made := means_intImm

theorem note_returns {exact : Prop} [Decidable exact] : Returns setting.fine (note exact) fun _ => exact :=
  setting.meaning.note_returns

theorem bounded_returns (value : Int) :
    Returns setting.fine (Arith.bounded value) fun _ => -2 ^ 63 ≤ value ∧ value < 2 ^ 63 := by
  unfold Arith.bounded
  split
  next range => exact returns_pure range
  · exact returns_emit fun fine => absurd fine setting.bounded

theorem makeConst_returns (value : Int) :
    Returns setting.fine (makeConst setting.dtype value) (setting.Means .index · value) :=
  setting.meaning.makeConst_returns value

def Folds (setting : Setting) (kind : Kind) (value : Int) (answer : Option PrimExpr) : Prop :=
  ∀ e, answer = some e → setting.Means kind e value

@[simp] theorem folds_none : setting.Folds kind v none := by
  simp [Folds]

@[simp] theorem folds_some : setting.Folds kind v (some e) ↔ setting.Means kind e v := by
  simp [Folds]

theorem foldCompare_returns (left : setting.Means .index a u) (right : setting.Means .index b v)
    (logic : setting.logic = true) {holds : Int → Int → Bool} :
    Returns setting.fine (foldCompare a b holds) (setting.Folds .bool (holds u v).toInt) := by
  unfold foldCompare
  split
  next pa pb foundA foundB =>
    rw [left.asIntImm foundA, right.asIntImm foundB]
    exact returns_pure (by simpa using means_bool logic _)
  · exact returns_pure folds_none

section

variable (left : setting.Means .bool a u) (right : setting.Means .bool b v)

include left right

theorem foldAnd_returns : Returns setting.fine (foldAnd a b) (setting.Folds .bool (BinOp.and.apply u v)) := by
  apply returns_pure
  unfold conjoin
  split
  next pa found =>
    rw [left.asIntImm found]
    rcases left.truth with rfl | rfl <;> rcases right.truth with rfl | rfl <;>
      simp_all [BinOp.apply]
  next pb _ found =>
    rw [right.asIntImm found]
    rcases left.truth with rfl | rfl <;> rcases right.truth with rfl | rfl <;>
      simp_all [BinOp.apply]
  · exact folds_none

theorem foldOr_returns : Returns setting.fine (foldOr a b) (setting.Folds .bool (BinOp.or.apply u v)) := by
  apply returns_pure
  unfold disjoin
  split
  next pa found =>
    rw [left.asIntImm found]
    rcases left.truth with rfl | rfl <;> rcases right.truth with rfl | rfl <;>
      simp_all [BinOp.apply]
  next pb _ found =>
    rw [right.asIntImm found]
    rcases left.truth with rfl | rfl <;> rcases right.truth with rfl | rfl <;>
      simp_all [BinOp.apply]
  · exact folds_none

end

theorem foldNot_folds (means : setting.Means .bool a u) :
    setting.Folds .bool (decide (u = 0)).toInt (foldNot a) := by
  unfold foldNot
  cases found : a.asIntImm with
  | none => simp
  | some pa =>
    rw [means.asIntImm found]
    simpa using means_bool (means.logic rfl) (decide (u = 0))

section

variable {operand : Kind} (left : setting.Means operand a u) (right : setting.Means operand b v)

include left right

variable {sameAs : PrimExpr → PrimExpr → Bool} {op : BinOp}

theorem tryConstFold_returns (equal : ∀ a b, sameAs a b = true → a = b)
    (signature : op.signature = some (operand, kind)) (logic : kind = .bool → setting.logic = true)
    (divisor : op.isDivision = true → v ≠ 0) :
    Returns setting.fine (tryConstFold sameAs op a b) (setting.Folds kind (op.apply u v)) := by
  cases kind with
  | index =>
    obtain rfl := BinOp.signature_index signature
    have folds : Returns setting.meaning.fine _ (setting.meaning.Folds _) :=
      Meaning.tryConstFold_returns left right equal signature divisor
    exact folds
  | bool =>
    cases op <;> simp only [BinOp.signature, reduceCtorEq]
        at signature <;> obtain ⟨rfl, -⟩ := signature
    case and => exact foldAnd_returns left right
    case or => exact foldOr_returns left right
    all_goals exact foldCompare_returns left right (logic rfl)

theorem means_binary (signature : op.signature = some (operand, kind))
    (logic : kind = .bool → setting.logic = true)
    (allowed : op.truncates = true → setting.trunc = true)
    (constant : setting.strict = true → op.isDivision = true → b.asIntImm.isSome = true)
    (divisor : op.isDivision = true → v ≠ 0) :
    setting.Means kind (.binary op a b) (op.apply u v) where
  hasKind := ⟨operand, signature, allowed, constant, left.hasKind, right.hasKind⟩
  logic := logic
  defined := by
    refine ⟨?_, left.defined, right.defined⟩
    simp only [PrimExpr.DefinedHere, right.value]
    cases op <;> simp_all [BinOp.signature, BinOp.Defined, BinOp.isDivision]
  value := by simp [PrimExpr.value, left.value, right.value]

theorem build_returns (equal : ∀ a b, sameAs a b = true → a = b)
    (signature : op.signature = some (operand, kind)) (logic : kind = .bool → setting.logic = true)
    (allowed : op.truncates = true → setting.trunc = true)
    (constant : setting.strict = true → op.isDivision = true → b.asIntImm.isSome = true)
    (divisor : op.isDivision = true → v ≠ 0) :
    Returns setting.fine (build sameAs op a b) (setting.Means kind · (op.apply u v)) := by
  refine returns_bind (tryConstFold_returns left right equal signature logic divisor) ?_
  intro answer folded
  cases answer with
  | some e => exact returns_pure (folded e rfl)
  | none => exact returns_pure (means_binary left right signature logic allowed constant divisor)

end

theorem foldResult_isConst (dtype : DataType) (value : Int) :
    Returns setting.fine (some <$> foldResult dtype value) fun answer =>
      ∃ e, answer = some e ∧ e.asIntImm.isSome = true :=
  returns_map (returns_bind (bounded_returns value) fun _ _ =>
    returns_bind note_returns fun _ _ => returns_pure ⟨_, rfl, rfl⟩)

theorem makeConst_const (dtype : DataType) (value : Int) :
    Returns setting.fine (makeConst dtype value) (·.asIntImm.isSome = true) := by
  refine returns_bind (bounded_returns value) fun _ _ => ?_
  refine returns_bind note_returns fun _ exact => ?_
  rw [if_pos exact.2]
  exact returns_pure rfl

theorem makeConst_isConst (dtype : DataType) (value : Int) :
    Returns setting.fine (some <$> makeConst dtype value) fun answer =>
      ∃ e, answer = some e ∧ e.asIntImm.isSome = true :=
  returns_map ((makeConst_const dtype value).mono fun e const => ⟨e, rfl, const⟩)

theorem build_isConst {sameAs : PrimExpr → PrimExpr → Bool} {op : BinOp}
    (left : setting.Means .index a u) (right : setting.Means .index b v)
    (constA : a.asIntImm.isSome = true) (constB : b.asIntImm.isSome = true)
    (signature : op.signature = some (.index, .index)) (divisor : op.isDivision = true → v ≠ 0) :
    Returns setting.fine (build sameAs op a b) (·.asIntImm.isSome = true) := by
  have indexA := left.isIndexType
  have indexB := right.isIndexType
  have signed : a.dtype.isUInt = false := by
    rw [left.dtype_eq]
    simp [DataType.isUInt, (isIndexType_cases setting.isIndex).1]
  obtain ⟨pa, foundA⟩ := Option.isSome_iff_exists.1 constA
  obtain ⟨pb, foundB⟩ := Option.isSome_iff_exists.1 constB
  have folds : Returns setting.fine (tryConstFold sameAs op a b) fun answer =>
      ∃ e, answer = some e ∧ e.asIntImm.isSome = true := by
    have nonzero : op.isDivision = true → ¬pb = 0 := by
      rw [right.asIntImm foundB]
      exact divisor
    cases op <;> simp only [BinOp.signature, Option.some.injEq, Prod.mk.injEq, reduceCtorEq,
      and_false] at signature
    case add | mul => simpa only [tryConstFold, foldAdd, foldMul, foundA, foundB] using foldResult_isConst _ _
    case sub =>
      simp only [tryConstFold, foldSub, foundA, foundB]
      rw [if_neg (by simp [signed])]
      exact foldResult_isConst _ _
    case div | floorDiv =>
      simp only [tryConstFold, foldDiv, foldFloorDiv, foldQuotient, foundA, foundB]
      rw [if_neg (nonzero rfl)]
      exact foldResult_isConst _ _
    case mod | floorMod =>
      simp only [tryConstFold, foldMod, foldFloorMod, foldRemainder, foundA, foundB, indexA, indexB]
      rw [if_neg (nonzero rfl)]
      exact foldResult_isConst _ _
    case min | max =>
      simpa only [tryConstFold, foldExtremum, foundA, foundB] using makeConst_isConst _ _
  refine returns_bind folds ?_
  rintro _ ⟨e, rfl, constant⟩
  exact returns_pure constant

theorem means_not (means : setting.Means .bool a u) : setting.Means .bool (.not a) (decide (u = 0)).toInt :=
  ⟨⟨rfl, means.hasKind⟩, means.logic, ⟨trivial, means.defined⟩, by simp [PrimExpr.value, means.value]⟩

theorem Means.operand (means : setting.Means kind (.not a) v) :
    kind = .bool ∧ setting.Means .bool a (a.value setting.env) ∧
      (decide (a.value setting.env = 0)).toInt = v := by
  obtain ⟨⟨rfl, hasKind⟩, logic, ⟨-, defined⟩, value⟩ := means
  exact ⟨rfl, ⟨hasKind, logic, defined, rfl⟩, value⟩

theorem Means.operands {op : BinOp} (means : setting.Means kind (.binary op a b) v) :
    ∃ operand, op.signature = some (operand, kind) ∧
      setting.Means operand a (a.value setting.env) ∧
      setting.Means operand b (b.value setting.env) ∧
      (op.truncates = true → setting.trunc = true) ∧
      (setting.strict = true → op.isDivision = true → b.asIntImm.isSome = true) ∧
      (op.isDivision = true → b.value setting.env ≠ 0) ∧
      op.apply (a.value setting.env) (b.value setting.env) = v := by
  obtain ⟨⟨operand, signature, allowed, constant, kindA, kindB⟩, logic, ⟨here, definedA, definedB⟩, value⟩ :=
    means
  have inherited : operand = .bool → setting.logic = true :=
    fun bool => logic ((BinOp.signature_isLogical signature).2 bool)
  refine ⟨operand, signature, ⟨kindA, inherited, definedA, rfl⟩, ⟨kindB, inherited, definedB, rfl⟩,
    allowed, constant, ?_, value⟩
  cases op <;> simp_all [PrimExpr.DefinedHere, BinOp.Defined, BinOp.isDivision]

end Setting

end Tlm.Arith
