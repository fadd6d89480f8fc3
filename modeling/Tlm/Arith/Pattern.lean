import Tlm.Arith.ConstFold

set_option autoImplicit false

namespace Tlm.Arith

open Cpp

-- `PVar<PrimExpr>`.
inductive PVar where
  | x
  | y
  | z
  | b1
  | b2
  | s1
  | s2
  deriving DecidableEq, Repr

-- `PVar<IntImm>`.
inductive CVar where
  | c1
  | c2
  | c3
  deriving DecidableEq, Repr

abbrev Consts := CVar → Int

inductive Pattern where
  | expr (v : PVar)
  | const (c : CVar)
  -- `PConstWithTypeLike`.
  | lit (value : Int)
  -- A constant computed from the matched ones, in results only.
  | num (value : Consts → Int)
  -- `cfalse` and `ctrue`, in results only.
  | truth (value : Bool)
  | not (a : Pattern)
  | binary (op : BinOp) (a b : Pattern)

structure Bindings where
  expr : PVar → Option PrimExpr
  const : CVar → Option (DataType × Int)

namespace Bindings

def empty : Bindings :=
  ⟨fun _ => none, fun _ => none⟩

def setExpr (s : Bindings) (v : PVar) (e : PrimExpr) : Bindings :=
  { s with expr := Function.update s.expr v (some e) }

def setConst (s : Bindings) (c : CVar) (value : DataType × Int) : Bindings :=
  { s with const := Function.update s.const c (some value) }

def consts (s : Bindings) : Consts :=
  fun c => ((s.const c).map Prod.snd).getD 0

end Bindings

namespace Pattern

-- `Match_`.
def matchExpr : Pattern → PrimExpr → Bindings → Option Bindings
  | .expr v, e, s =>
    match s.expr v with
    | none => some (s.setExpr v e)
    | some old => if old = e then some s else none
  | .const c, .intImm dtype value, s =>
    match s.const c with
    | none => some (s.setConst c (dtype, value))
    | some old => if old.2 = value then some s else none
  | .lit value, .intImm _ found, s => if found = value then some s else none
  | .not a, .not a', s => a.matchExpr a' s
  | .binary op a b, .binary op' a' b', s =>
    if op = op' then (a.matchExpr a' s).bind (b.matchExpr b') else none
  | _, _, _ => none

-- `Eval`. A constant takes the type of the expression it stands beside.
def eval (sameAs : PrimExpr → PrimExpr → Bool) (dtype : DataType) (s : Bindings) :
    Pattern → Folding PrimExpr
  | .expr v =>
    match s.expr v with
    | some e => return e
    | none => Traced.fail .check
  | .const c =>
    match s.const c with
    | some (dtype, value) => return .intImm dtype value
    | none => Traced.fail .check
  | .lit value => makeConst dtype value
  | .num value => makeConst dtype (value s.consts)
  | .truth value => return .intImm .bool value.toInt
  | .not a => do return .not (← a.eval sameAs dtype s)
  | .binary op a b => do build sameAs op (← a.eval sameAs dtype s) (← b.eval sameAs dtype s)

def rootKind : Pattern → Kind
  | .truth _ | .not _ => .bool
  | .binary op _ _ => (op.signature.map Prod.snd).getD .index
  | _ => .index

def isNode : Pattern → Bool
  | .not _ | .binary _ _ _ => true
  | _ => false

def hasKind : Pattern → Kind → Bool
  | .expr _, _ => true
  | .const _, kind | .lit _, kind | .num _, kind => kind = .index
  | .truth _, kind => kind = .bool
  | .not a, kind => kind = .bool && a.hasKind .bool
  | .binary op a b, kind =>
    match op.signature with
    | some (operand, result) => result = kind && a.hasKind operand && b.hasKind operand
    | none => false

def uses : Pattern → Kind → List (PVar × Kind)
  | .expr v, kind => [(v, kind)]
  | .not a, _ => a.uses .bool
  | .binary op a b, _ =>
    let operand := (op.signature.map Prod.fst).getD .index
    a.uses operand ++ b.uses operand
  | _, _ => []

def consts : Pattern → List CVar
  | .const c => [c]
  | .not a => a.consts
  | .binary _ a b => a.consts ++ b.consts
  | _ => []

def truncates : Pattern → Bool
  | .not a => a.truncates
  | .binary op a b => op.truncates || a.truncates || b.truncates
  | _ => false

def asVar : Pattern → List PVar
  | .expr v => [v]
  | _ => []

def divisors : Pattern → List PVar
  | .not a => a.divisors
  | .binary op a b => (if op.isDivision then b.asVar else []) ++ a.divisors ++ b.divisors
  | _ => []

def constant (vars : List PVar) : Pattern → Bool
  | .expr v => v ∈ vars
  | .const _ | .lit _ | .num _ => true
  | .binary op a b =>
    op.signature = some (.index, .index) && a.constant vars && b.constant vars
  | _ => false

def constantDivisors (vars : List PVar) : Pattern → Bool
  | .not a => a.constantDivisors vars
  | .binary op a b =>
    (!op.isDivision || b.constant vars) && a.constantDivisors vars && b.constantDivisors vars
  | _ => true

end Pattern

structure Values where
  expr : PVar → Int
  const : Consts

def Bindings.values (s : Bindings) (env : Env) : Values where
  expr v := ((s.expr v).map (·.value env)).getD 0
  const := s.consts

namespace Pattern

def value (σ : Values) : Pattern → Int
  | .expr v => σ.expr v
  | .const c => σ.const c
  | .lit value => value
  | .num value => value σ.const
  | .truth value => value.toInt
  | .not a => (decide (a.value σ = 0)).toInt
  | .binary op a b => op.apply (a.value σ) (b.value σ)

def Defined (σ : Values) : Pattern → Prop
  | .not a => a.Defined σ
  | .binary op a b => (op.isDivision = true → b.value σ ≠ 0) ∧ a.Defined σ ∧ b.Defined σ
  | _ => True

end Pattern

namespace Bindings

structure Extends (s s' : Bindings) : Prop where
  expr : ∀ v e, s.expr v = some e → s'.expr v = some e
  const : ∀ c value, s.const c = some value → s'.const c = some value

theorem Extends.refl (s : Bindings) : s.Extends s :=
  ⟨fun _ _ => id, fun _ _ => id⟩

theorem Extends.trans {s s' s'' : Bindings} (first : s.Extends s') (second : s'.Extends s'') : s.Extends s'' :=
  ⟨fun v e found => second.expr v e (first.expr v e found),
    fun c value found => second.const c value (first.const c value found)⟩

theorem extends_setExpr {s : Bindings} {v : PVar} (e : PrimExpr) (fresh : s.expr v = none) :
    s.Extends (s.setExpr v e) where
  expr w old found := by
    have differ : w ≠ v := by
      rintro rfl
      simp [fresh] at found
    simpa [setExpr, differ] using found
  const _ _ := id

theorem extends_setConst {s : Bindings} {c : CVar} (value : DataType × Int)
    (fresh : s.const c = none) : s.Extends (s.setConst c value) where
  expr _ _ := id
  const d old found := by
    have differ : d ≠ c := by
      rintro rfl
      simp [fresh] at found
    simpa [setConst, differ] using found

end Bindings

namespace Pattern

variable {setting : Setting} {kind : Kind} {p : Pattern} {e : PrimExpr} {s s' : Bindings} {v : Int}

structure Filled (setting : Setting) (p : Pattern) (kind : Kind) (s : Bindings) : Prop where
  expr : ∀ use ∈ p.uses kind, ∃ e, s.expr use.1 = some e ∧
    setting.Means use.2 e (e.value setting.env)
  const : ∀ c ∈ p.consts, ∃ dtype value, s.const c = some (dtype, value) ∧
    setting.Means .index (.intImm dtype value) value

-- Everything the pattern reads is filled when `source` has matched.
def coveredBy (p : Pattern) (kind : Kind) (source : Pattern) : Bool :=
  ((p.uses kind).all (· ∈ source.uses source.rootKind)) && p.consts.all (· ∈ source.consts)

theorem Filled.of_coveredBy {source : Pattern} (filled : source.Filled setting source.rootKind s)
    (covered : p.coveredBy kind source = true) : p.Filled setting kind s := by
  simp only [coveredBy, Bool.and_eq_true, List.all_eq_true, decide_eq_true_eq] at covered
  exact ⟨fun use mem => filled.expr use (covered.1 use mem), fun c mem => filled.const c (covered.2 c mem)⟩

theorem filled_binary {op : BinOp} {a b : Pattern} {operand result : Kind}
    (signature : op.signature = some (operand, result)) :
    (binary op a b).Filled setting kind s ↔ a.Filled setting operand s ∧ b.Filled setting operand s := by
  constructor
  · rintro ⟨exprs, consts⟩
    exact ⟨⟨fun use mem => exprs use (by simp [uses, signature, mem]),
      fun c mem => consts c (by simp [Pattern.consts, mem])⟩,
      ⟨fun use mem => exprs use (by simp [uses, signature, mem]),
      fun c mem => consts c (by simp [Pattern.consts, mem])⟩⟩
  · rintro ⟨left, right⟩
    constructor
    · intro use mem
      simp only [uses, signature, List.mem_append] at mem
      exact mem.elim (left.expr use) (right.expr use)
    · intro c mem
      simp only [Pattern.consts, List.mem_append] at mem
      exact mem.elim (left.const c) (right.const c)

theorem Filled.extend (filled : p.Filled setting kind s) (later : s.Extends s') : p.Filled setting kind s' := by
  constructor
  · intro use mem
    obtain ⟨e, found, means⟩ := filled.expr use mem
    exact ⟨e, later.expr use.1 e found, means⟩
  · intro c mem
    obtain ⟨dtype, value, found, means⟩ := filled.const c mem
    exact ⟨dtype, value, later.const c _ found, means⟩

structure Matched (setting : Setting) (p : Pattern) (kind : Kind) (v : Int) (s s' : Bindings) :
    Prop where
  later : s.Extends s'
  filled : p.Filled setting kind s'
  typed : ∀ c value, s'.const c = some value → value.1 = setting.dtype
  allowed : p.truncates = true → setting.trunc = true
  constants : setting.strict = true → ∀ w ∈ p.divisors, ∃ e, s'.expr w = some e ∧
    e.asIntImm.isSome = true
  value : ∀ s'', s'.Extends s'' → p.value (s''.values setting.env) = v
  defined : ∀ s'', s'.Extends s'' → p.Defined (s''.values setting.env)

section

variable (later : s.Extends s') (typed : ∀ c value, s'.const c = some value → value.1 = setting.dtype)

include later typed

theorem matched_expr {w : PVar}
    (found : s'.expr w = some e) (holds : setting.Means kind e v) :
    Matched setting (.expr w) kind v s s' where
  later := later
  filled := by
    refine ⟨?_, by simp [Pattern.consts]⟩
    simp only [uses, List.mem_singleton, forall_eq]
    exact ⟨e, found, holds.hasKind, holds.logic, holds.defined, rfl⟩
  typed := typed
  allowed := by simp [truncates]
  constants := by simp [divisors]
  value s'' more := by simp [Pattern.value, Bindings.values, more.expr w e found, holds.value]
  defined _ _ := trivial

theorem matched_const {c : CVar} {dtype : DataType}
    (found : s'.const c = some (dtype, v)) (fits : setting.dtype.Fits v) :
    Matched setting (.const c) .index v s s' where
  later := later
  filled := by
    refine ⟨by simp [uses], ?_⟩
    simp only [Pattern.consts, List.mem_singleton, forall_eq]
    refine ⟨dtype, v, found, ?_⟩
    rw [show dtype = setting.dtype from typed c _ found]
    exact Setting.means_intImm fits
  typed := typed
  allowed := by simp [truncates]
  constants := by simp [divisors]
  value s'' more := by
    simp [Pattern.value, Bindings.values, Bindings.consts, more.const c _ found]
  defined _ _ := trivial

end

theorem matchExpr_asVar {w : PVar} (found : p.matchExpr e s = some s') (mem : w ∈ p.asVar) :
    s'.expr w = some e := by
  cases p with
  | expr v =>
    simp only [asVar, List.mem_singleton] at mem
    subst mem
    rw [matchExpr] at found
    split at found
    · cases found
      simp [Bindings.setExpr]
    next old known =>
      split at found
      next same =>
        cases found
        exact same ▸ known
      · simp at found
  | const | lit | num | truth | not | binary => simp [asVar] at mem

theorem matchExpr_matched (found : p.matchExpr e s = some s') (kinded : p.hasKind kind = true)
    (typed : ∀ c value, s.const c = some value → value.1 = setting.dtype)
    (holds : setting.Means kind e v) : Matched setting p kind v s s' := by
  induction p generalizing e s s' v kind with
  | expr w =>
    rw [matchExpr] at found
    split at found
    next fresh =>
      cases found
      exact matched_expr (Bindings.extends_setExpr e fresh) typed (by simp [Bindings.setExpr]) holds
    next old known =>
      split at found
      next same =>
        cases found
        exact matched_expr (.refl s) typed (same ▸ known) holds
      · simp at found
  | const c =>
    simp only [hasKind, decide_eq_true_eq] at kinded
    subst kinded
    cases e with
    | intImm dtype value =>
      obtain ⟨same, fits⟩ := holds.hasKind
      have exact : value = v := holds.value
      subst exact same
      rw [matchExpr] at found
      split at found
      next fresh =>
        cases found
        have now : (s.setConst c (setting.dtype, value)).const c = some (setting.dtype, value) := by
          simp [Bindings.setConst]
        refine matched_const (Bindings.extends_setConst _ fresh) ?_ now fits
        intro c' value' found'
        by_cases same : c' = c
        · subst same
          simp [Bindings.setConst] at found'
          simp [← found']
        · exact typed c' value' (by simpa [Bindings.setConst, same] using found')
      next old known =>
        split at found
        next same =>
          cases found
          subst same
          exact matched_const (.refl s) typed known fits
        · simp at found
    | _ => simp [matchExpr] at found
  | lit value =>
    cases e with
    | intImm dtype found' =>
      simp only [matchExpr, Option.ite_none_right_eq_some, Option.some.injEq] at found
      obtain ⟨rfl, rfl⟩ := found
      exact ⟨.refl s, ⟨by simp [uses], by simp [Pattern.consts]⟩, typed, by simp [truncates],
        by simp [divisors], fun _ _ => holds.value, fun _ _ => trivial⟩
    | _ => simp [matchExpr] at found
  | num | truth => simp [matchExpr] at found
  | not a ih =>
    cases e with
    | not a' =>
      simp only [hasKind, Bool.and_eq_true, decide_eq_true_eq] at kinded
      obtain ⟨rfl, inner⟩ := kinded
      obtain ⟨-, holds', value⟩ := holds.operand
      have matched := ih found inner typed holds'
      exact ⟨matched.later, ⟨matched.filled.expr, matched.filled.const⟩, matched.typed,
        matched.allowed, matched.constants, fun s'' more => by simp [Pattern.value, matched.value s'' more, value],
        matched.defined⟩
    | _ => simp [matchExpr] at found
  | binary op a b iha ihb =>
    cases e with
    | binary op' a' b' =>
      simp only [matchExpr, Option.ite_none_right_eq_some, Option.bind_eq_some_iff] at found
      obtain ⟨rfl, s₁, first, second⟩ := found
      obtain ⟨operand, signature, holdsA, holdsB, allowed, constant, divisor, value⟩ :=
        holds.operands
      simp only [hasKind, signature, Bool.and_eq_true] at kinded
      have left := iha first kinded.1.2 typed holdsA
      have right := ihb second kinded.2 left.typed holdsB
      refine ⟨left.later.trans right.later,
        (filled_binary signature).2 ⟨left.filled.extend right.later, right.filled⟩, right.typed, ?_, ?_, ?_, ?_⟩
      · simp only [truncates, Bool.or_eq_true]
        rintro ((here | inner) | inner)
        exacts [allowed here, left.allowed inner, right.allowed inner]
      · intro strict w mem
        simp only [divisors, List.mem_append] at mem
        rcases mem with (here | inner) | inner
        · split at here
          next division =>
            exact ⟨b', matchExpr_asVar second here, constant strict division⟩
          · simp at here
        · obtain ⟨e, found, const⟩ := left.constants strict w inner
          exact ⟨e, right.later.expr w e found, const⟩
        · exact right.constants strict w inner
      · intro s'' more
        simp [Pattern.value, left.value s'' (right.later.trans more), right.value s'' more, value]
      · intro s'' more
        rw [Defined, right.value s'' more]
        exact ⟨divisor, left.defined s'' (right.later.trans more), right.defined s'' more⟩
    | _ => simp [matchExpr] at found

theorem rootKind_eq (found : p.matchExpr e s = some s') (node : p.isNode = true)
    (holds : setting.Means kind e v) : kind = p.rootKind := by
  cases p with
  | not a =>
    cases e with
    | not => exact holds.operand.1
    | _ => simp [matchExpr] at found
  | binary op a b =>
    cases e with
    | binary op' a' b' =>
      simp only [matchExpr, Option.ite_none_right_eq_some] at found
      obtain ⟨rfl, -⟩ := found
      obtain ⟨operand, signature, -⟩ := holds.operands
      simp [rootKind, signature]
    | _ => simp [matchExpr] at found
  | expr | const | lit | num | truth => simp [isNode] at node

variable {sameAs : PrimExpr → PrimExpr → Bool}

open Traced

theorem eval_returns (equal : ∀ a b, sameAs a b = true → a = b) {vars : List PVar}
    (constants : setting.strict = true → ∀ w ∈ vars, ∃ e, s.expr w = some e ∧ e.asIntImm.isSome = true)
    (filled : p.Filled setting kind s) (kinded : p.hasKind kind = true)
    (logic : kind = .bool → setting.logic = true) (allowed : p.truncates = true → setting.trunc = true)
    (divisible : p.constantDivisors vars = true) (defined : p.Defined (s.values setting.env)) :
    Returns setting.fine (p.eval sameAs setting.dtype s) fun e =>
      setting.Means kind e (p.value (s.values setting.env)) ∧
        (setting.strict = true → p.constant vars = true → e.asIntImm.isSome = true) := by
  induction p generalizing kind with
  | expr w =>
    obtain ⟨e, found, means⟩ := filled.expr (w, kind) (by simp [uses])
    simp only [eval, found]
    refine returns_pure ⟨by simpa [value, Bindings.values, found] using means, ?_⟩
    intro strict mem
    obtain ⟨e', found', const⟩ := constants strict w (by simpa [constant] using mem)
    cases found.symm.trans found'
    exact const
  | const c =>
    simp only [hasKind, decide_eq_true_eq] at kinded
    subst kinded
    obtain ⟨dtype, value, found, means⟩ := filled.const c (by simp [Pattern.consts])
    simp only [eval, found]
    have here : (s.values setting.env).const c = value := by
      simp [Bindings.values, Bindings.consts, found]
    exact returns_pure ⟨here.symm ▸ means, fun _ _ => rfl⟩
  | lit | num =>
    simp only [hasKind, decide_eq_true_eq] at kinded
    subst kinded
    exact (Setting.makeConst_returns _).and ((Setting.makeConst_const _ _).mono fun e const _ _ => const)
  | truth value =>
    simp only [hasKind, decide_eq_true_eq] at kinded
    subst kinded
    exact returns_pure ⟨Setting.means_bool (logic rfl) value, by simp [constant]⟩
  | not a ih =>
    simp only [hasKind, Bool.and_eq_true, decide_eq_true_eq] at kinded
    obtain ⟨rfl, inner⟩ := kinded
    refine returns_bind (ih ⟨filled.expr, filled.const⟩ inner logic allowed divisible defined) ?_
    exact fun a' means => returns_pure ⟨Setting.means_not means.1, by simp [constant]⟩
  | binary op a b iha ihb =>
    simp only [hasKind] at kinded
    split at kinded
    next operand result signature =>
      simp only [Bool.and_eq_true, decide_eq_true_eq] at kinded
      obtain ⟨⟨rfl, kindA⟩, kindB⟩ := kinded
      rw [filled_binary signature] at filled
      simp only [truncates, Bool.or_eq_true] at allowed
      simp only [constantDivisors, Bool.and_eq_true, Bool.or_eq_true, Bool.not_eq_true'] at divisible
      obtain ⟨⟨here, divisibleA⟩, divisibleB⟩ := divisible
      obtain ⟨divisor, definedA, definedB⟩ := defined
      have inherited : operand = .bool → setting.logic = true :=
        fun bool => logic ((BinOp.signature_isLogical signature).2 bool)
      refine returns_bind (iha filled.1 kindA inherited (fun h => allowed (.inl (.inr h)))
        divisibleA definedA) fun a' left => ?_
      refine returns_bind (ihb filled.2 kindB inherited (fun h => allowed (.inr h))
        divisibleB definedB) fun b' right => ?_
      have constant : setting.strict = true → op.isDivision = true → b'.asIntImm.isSome = true := by
        intro strict division
        rcases here with total | const
        · simp [total] at division
        · exact right.2 strict const
      have built := Setting.build_returns left.1 right.1 equal signature logic
        (fun h => allowed (.inl (.inl h))) constant divisor
      by_cases folds : setting.strict = true ∧ (binary op a b).constant vars = true
      · obtain ⟨strict, const⟩ := folds
        simp only [Pattern.constant, Bool.and_eq_true, decide_eq_true_eq] at const
        obtain ⟨⟨index, constA⟩, constB⟩ := const
        cases signature.symm.trans index
        exact built.and ((Setting.build_isConst left.1 right.1 (left.2 strict constA)
          (right.2 strict constB) index divisor).mono fun e const _ _ => const)
      · exact built.mono fun e means => ⟨means, fun strict const => absurd ⟨strict, const⟩ folds⟩
    · simp at kinded

end Pattern

end Tlm.Arith
