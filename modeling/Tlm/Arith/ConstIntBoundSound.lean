import Tlm.Arith.ConstIntBoundOps
import Tlm.Shared.Loop

set_option autoImplicit false

namespace Tlm.Arith.ConstIntBound

open Cpp

def Entry.Covers (entry : Entry) (value : Int) : Prop :=
  Inside value → entry.Bounds value

structure State.Holds (state : State) (env : Env) : Prop where
  bound : ∀ v entry, state.varMap v = some entry → entry.Covers (env.var v)
  size : ∀ v, state.varMap v = none → v.isSize = true → 0 ≤ env.var v
  info : ∀ info ∈ state.additionalInfo, info.bound.Covers (info.expr.value env)

def Regular : Env → PrimExpr → Prop :=
  PrimExpr.Everywhere fun env e => e.dtype.Fits (e.value env) ∧ e.DefinedHere env

-- No visited value is beyond an infinity, every step is given bounds that it can work on, and `Let` introduces new
-- variables.
def State.Guarded (state : State) (env : Env) : PrimExpr → Prop
  | .binary op a b =>
    Inside (op.apply (a.value env) (b.value env)) ∧
      (op.isLogical = false → state.Guarded env a ∧ state.Guarded env b ∧
        ∀ entryA entryB, state.visitExpr a = .ok entryA → state.visitExpr b = .ok entryB →
          Workable a.dtype entryA entryB op)
  | .select condition trueValue falseValue =>
    Inside ((PrimExpr.select condition trueValue falseValue).value env) ∧
      state.Guarded env trueValue ∧ state.Guarded env falseValue
  | .letIn v value body =>
    state.varMap v = none ∧ (∀ info ∈ state.additionalInfo, ¬info.expr.Mentions v) ∧
      state.Guarded env value ∧
      ∀ bound, state.visitExpr value = .ok bound →
        (state.set v bound).Guarded (env.set v (value.value env)) body
  | .cast _ value => state.Guarded env value
  | e => Inside (e.value env)

section

variable {state state' : State} {env : Env} {e : PrimExpr}

theorem State.Guarded.inside (guarded : state.Guarded env e) :
    ∀ {entry}, state.visitExpr e = .ok entry → Inside (e.value env) := by
  induction e generalizing state env with
  | var | intImm | not | atom => exact fun _ => guarded
  | binary | select => exact fun _ => guarded.1
  | letIn v value body ihv ihb =>
    intro entry run
    simp only [State.visitExpr, guarded.1, bind_ok] at run
    obtain ⟨bound, visited, _, run, -⟩ := run
    exact ihb (guarded.2.2.2 bound visited) run
  | cast dtype value ih =>
    intro entry run
    simp only [State.visitExpr, bind_ok] at run
    obtain ⟨_, run, -⟩ := run
    exact ih guarded run

variable {entry : Entry}

theorem State.refine_bounds {value : Int} (bounds : entry.Bounds value)
    (infos : ∀ info ∈ state.additionalInfo, e = info.expr → info.bound.Bounds value) :
    (state.refine e entry).Bounds value := by
  obtain ⟨varMap, additionalInfo⟩ := state
  induction additionalInfo generalizing entry with
  | nil => exact bounds
  | cons info rest ih =>
    have refined : (if e = info.expr then intersect entry info.bound else entry).Bounds value := by
      split
      next same => exact intersect_bounds bounds (infos info List.mem_cons_self same)
      · exact bounds
    exact ih refined fun other mem => infos other (List.mem_cons_of_mem _ mem)

theorem State.Holds.refine (holds : state.Holds env) (inside : Inside (e.value env))
    (bounds : entry.Bounds (e.value env)) : (state.refine e entry).Bounds (e.value env) :=
  State.refine_bounds bounds fun info mem same => by
    subst same
    exact holds.info info mem inside

variable {v : Var}

theorem State.Holds.set {env' : Env} (holds : state.Holds env)
    (others : ∀ w, w ≠ v → env'.var w = env.var w) (covers : entry.Covers (env'.var v))
    (infos : ∀ info ∈ state.additionalInfo, info.bound.Covers (info.expr.value env')) :
    (state.set v entry).Holds env' where
  bound w other found := by
    by_cases same : w = v
    · simp only [State.set, same, Function.update_self, Option.some.injEq] at found
      simpa [same, ← found] using covers
    · simp only [State.set, Function.update_of_ne same] at found
      simpa [others w same] using holds.bound w other found
  size w missing isSize := by
    by_cases same : w = v
    · simp [State.set, same] at missing
    · simp only [State.set, Function.update_of_ne same] at missing
      simpa [others w same] using holds.size w missing isSize
  info := infos

theorem toInt_bounds (p : Prop) [Decidable p] : (everything .bool).Bounds (decide p).toInt := by
  by_cases h : p <;> simp only [h] <;> constructor <;> decide

theorem apply_logical {op : BinOp} (logical : op.isLogical = true) (x y : Int) :
    ∃ p : Bool, op.apply x y = p.toInt := by
  cases op <;> first | contradiction | exact ⟨_, rfl⟩

theorem State.visitVar_bounds (holds : state.Holds env) (inside : Inside (env.var v))
    (fits : v.dtype.Fits (env.var v)) : (state.visitVar v).Bounds (env.var v) := by
  unfold State.visitVar
  split
  next entry found => exact holds.bound v entry found inside
  next missing =>
    split
    next isSize =>
      have limits := kInf_eq
      exact makeBound_bounds (by norm_num) (holds.size v missing isSize) inside.2 (by omega)
    · exact everything_bounds fits inside

theorem State.visitExpr_bounds (run : state.visitExpr e = .ok entry) (holds : state.Holds env)
    (regular : Regular env e) (guarded : state.Guarded env e) : entry.Bounds (e.value env) := by
  have inside := guarded.inside run
  induction e generalizing state env entry with
  | var v =>
    cases run
    exact holds.refine inside (State.visitVar_bounds holds inside regular.1)
  | intImm dtype value =>
    cases run
    have limits := kInf_eq
    refine holds.refine inside ?_
    simp only [PrimExpr.value, Inside] at inside ⊢
    exact makeBound_bounds (by omega) le_rfl le_rfl (by omega)
  | binary op a b iha ihb =>
    simp only [State.visitExpr] at run
    split at run
    next visit found =>
      simp only [bind_ok, pure_ok] at run
      obtain ⟨entryA, runA, entryB, runB, result, run, rfl⟩ := run
      have arithmetic : op.isLogical = false := by cases op <;> simp_all [visitor, BinOp.isLogical]
      obtain ⟨guardedA, guardedB, workable⟩ := guarded.2 arithmetic
      have fits := regular.1.1
      simp only [PrimExpr.dtype, arithmetic] at fits
      exact holds.refine inside (visitor_sound found run
        (iha runA holds regular.2.1 guardedA (guardedA.inside runA))
        (ihb runB holds regular.2.2 guardedB (guardedB.inside runB))
        (workable entryA entryB runA runB) inside fits regular.1.2)
    next missing =>
      cases run
      have logical : op.isLogical = true := by cases op <;> simp_all [visitor, BinOp.isLogical]
      refine holds.refine inside ?_
      obtain ⟨p, truth⟩ := apply_logical logical (a.value env) (b.value env)
      simp only [PrimExpr.value, truth]
      simpa using toInt_bounds (p = true)
  | not a ih =>
    cases run
    exact holds.refine inside (toInt_bounds _)
  | select condition trueValue falseValue ihc iht ihf =>
    simp only [State.visitExpr, bind_ok, pure_ok] at run
    obtain ⟨entryA, runA, entryB, runB, rfl⟩ := run
    have boundsA := iht runA holds regular.2.2.1 guarded.2.1 (guarded.2.1.inside runA)
    have boundsB := ihf runB holds regular.2.2.2 guarded.2.2 (guarded.2.2.inside runB)
    refine holds.refine inside (union_bounds boundsA.low boundsB.low boundsA.high boundsB.high ?_)
    simp only [PrimExpr.value]
    split
    · exact .inl boundsA
    · exact .inr boundsB
  | letIn v value body ihv ihb =>
    obtain ⟨fresh, absent, guardedV, guardedB⟩ := guarded
    simp only [State.visitExpr, fresh, bind_ok, pure_ok] at run
    obtain ⟨bound, runV, result, runB, rfl⟩ := run
    have boundsV := ihv runV holds regular.2.1 guardedV (guardedV.inside runV)
    have extended : (state.set v bound).Holds (env.set v (value.value env)) := by
      refine holds.set (fun w differ => by simp [Env.set, differ])
        (fun _ => by simpa [Env.set] using boundsV) fun info mem => ?_
      rw [PrimExpr.value_set (absent info mem)]
      exact holds.info info mem
    exact holds.refine inside (ihb runB extended regular.2.2 (guardedB bound runV) inside)
  | cast dtype value ih =>
    simp only [State.visitExpr, bind_ok, pure_ok] at run
    obtain ⟨result, run, rfl⟩ := run
    refine holds.refine inside (intersect_bounds ?_ (everything_bounds regular.1.1 inside))
    exact ih run holds regular.2 guarded inside
  | atom dtype id =>
    cases run
    exact holds.refine inside (everything_bounds regular.1 inside)

end

-- The value of an `IntImm` is an `int64_t`.
def Immediate (_ : Env) : PrimExpr → Prop
  | .intImm _ value => -2 ^ 63 ≤ value ∧ value < 2 ^ 63
  | _ => True

section

variable {state state' : State} {env : Env} {info : BoundInfo}

theorem addInfo_covers {e : PrimExpr} {low high : Int} (mem : info ∈ addInfo e low high)
    (least : -2 ^ 63 ≤ low) (greatest : high < 2 ^ 63)
    (between : Inside (e.value env) → low ≤ e.value env ∧ e.value env ≤ high) :
    info.bound.Covers (info.expr.value env) := by
  have shape : info = ⟨e, makeBound low high⟩ := by
    cases e <;> simp_all [addInfo]
  subst shape
  intro inside
  exact makeBound_bounds least (between inside).1 (between inside).2 greatest

variable {infos : List BoundInfo}

theorem detectPart_covers {part : PrimExpr} (run : detectPart part = .ok infos)
    (stored : part.Everywhere Immediate env) (holds : part.value env ≠ 0) (mem : info ∈ infos) :
    info.bound.Covers (info.expr.value env) := by
  have limits := kInf_eq
  unfold detectPart at run
  split at run <;> simp only [bind_ok, pure_ok, int64_ok, Except.ok.injEq] at run
  case h_10 =>
    subst run
    cases mem
  all_goals
    simp only [PrimExpr.Everywhere, Immediate, true_and, PrimExpr.value, BinOp.apply_eq_holds,
      BinOp.apply_lt_holds, BinOp.apply_le_holds, BinOp.apply_gt_holds, BinOp.apply_ge_holds] at stored holds
  case h_1 =>
    subst run
    exact addInfo_covers mem stored.1.1 (by omega) fun inside => ⟨holds, inside.2⟩
  case h_2 =>
    subst run
    exact addInfo_covers mem stored.2.1 (by omega) fun inside => ⟨holds, inside.2⟩
  case h_3 | h_4 =>
    obtain ⟨_, ⟨range, rfl⟩, rfl⟩ := run
    exact addInfo_covers mem range.1 (by omega) fun inside => ⟨holds, inside.2⟩
  case h_5 =>
    subst run
    exact addInfo_covers mem (by omega) stored.2.2 fun inside => ⟨inside.1, holds⟩
  case h_6 | h_7 =>
    obtain ⟨_, ⟨range, rfl⟩, rfl⟩ := run
    exact addInfo_covers mem (by omega) range.2 fun inside => ⟨inside.1, by omega⟩
  case h_8 =>
    subst run
    exact addInfo_covers mem stored.2.1 stored.2.2 fun _ => ⟨holds.ge, holds.le⟩
  case h_9 =>
    subst run
    exact addInfo_covers mem stored.1.1 stored.1.2 fun _ => ⟨holds.le, holds.ge⟩

theorem extractConstraints_holds {e : PrimExpr} (stored : e.Everywhere Immediate env)
    (holds : e.value env ≠ 0) :
    ∀ part ∈ extractConstraints e, part.Everywhere Immediate env ∧ part.value env ≠ 0 := by
  fun_induction extractConstraints e with
  | case1 a b iha ihb =>
    have both := (BinOp.apply_and_holds _ _).1 holds
    intro part mem
    rcases List.mem_cons.1 mem with rfl | mem
    · exact ⟨stored, holds⟩
    · rcases List.mem_append.1 mem with left | right
      · exact iha stored.2.1 both.1 part left
      · exact ihb stored.2.2 both.2 part right
  | case2 e other =>
    intro part mem
    rw [List.mem_singleton.1 mem]
    exact ⟨stored, holds⟩

theorem detectBoundInfo_covers {condition : PrimExpr} (run : detectBoundInfo condition = .ok infos)
    (stored : condition.Everywhere Immediate env) (holds : condition.value env ≠ 0) :
    ∀ info ∈ infos, info.bound.Covers (info.expr.value env) := by
  simp only [detectBoundInfo, bind_ok, pure_ok] at run
  obtain ⟨lists, run, rfl⟩ := run
  intro info mem
  obtain ⟨list, found, mem⟩ := List.mem_flatten.1 mem
  obtain ⟨part, among, detected⟩ := mapM_mem run found
  obtain ⟨storedPart, holdsPart⟩ := extractConstraints_holds stored holds part among
  exact detectPart_covers detected storedPart holdsPart mem

variable {v : Var} {allowOverride : Bool}

theorem State.Holds.updateEntry {entry : Entry} (holds : state.Holds env)
    (run : state.updateEntry v entry allowOverride = .ok state') (covers : entry.Covers (env.var v)) : state'.Holds env := by
  simp only [State.updateEntry, bind_ok, pure_ok] at run
  obtain ⟨-, -, rfl⟩ := run
  exact holds.set (fun _ _ => rfl) covers holds.info

inductive Reachable (env : Env) : State → Prop
  | init {varMap : Var → Option Entry}
    (bound : ∀ v entry, varMap v = some entry → entry.Covers (env.var v))
    (size : ∀ v, varMap v = none → v.isSize = true → 0 ≤ env.var v) : Reachable env ⟨varMap, []⟩
  | update {state state' : State} {v : Var} {minValue maxValue : Int} {allowOverride : Bool}
    (reached : Reachable env state) (least : -2 ^ 63 ≤ minValue) (greatest : maxValue < 2 ^ 63)
    (above : minValue = kNegInf ∨ minValue ≤ env.var v)
    (below : maxValue = kPosInf ∨ env.var v ≤ maxValue)
    (run : state.update v minValue maxValue allowOverride = .ok state') : Reachable env state'
  | bind {state state' : State} {v : Var} {rangeMin extent : PrimExpr} {allowOverride : Bool}
    (reached : Reachable env state) (regularMin : Regular env rangeMin)
    (guardedMin : state.Guarded env rangeMin) (regularExtent : Regular env extent)
    (guardedExtent : state.Guarded env extent)
    (proper : ∀ entry, state.visitExpr rangeMin = .ok entry → entry.Proper) (above : rangeMin.value env ≤ env.var v)
    (below : env.var v < rangeMin.value env + extent.value env)
    (run : state.bind v rangeMin extent allowOverride = .ok state') : Reachable env state'
  | enter {state state' : State} {constraint : PrimExpr} (reached : Reachable env state)
    (stored : constraint.Everywhere Immediate env) (holds : constraint.value env ≠ 0)
    (run : state.enterConstraint constraint = .ok state') : Reachable env state'
  | leave {state state' : State} {oldSize newSize : Nat} (reached : Reachable env state)
    (run : state.recover oldSize newSize = .ok state') : Reachable env state'

theorem bind_holds {rangeMin extent : PrimExpr} (holds : state.Holds env)
    (regularMin : Regular env rangeMin) (guardedMin : state.Guarded env rangeMin)
    (regularExtent : Regular env extent) (guardedExtent : state.Guarded env extent)
    (proper : ∀ entry, state.visitExpr rangeMin = .ok entry → entry.Proper)
    (above : rangeMin.value env ≤ env.var v) (below : env.var v < rangeMin.value env + extent.value env)
    (run : state.bind v rangeMin extent allowOverride = .ok state') : state'.Holds env := by
  have limits := kInf_eq
  simp only [State.bind, bind_ok] at run
  obtain ⟨a, runMin, b, runExtent, size, reduced, maxValue, added, run⟩ := run
  have boundsMin := State.visitExpr_bounds runMin holds regularMin guardedMin
  have boundsExtent := State.visitExpr_bounds runExtent holds regularExtent guardedExtent
  obtain ⟨last, small⟩ := divisorCap reduced boundsExtent (by omega)
  refine holds.updateEntry run fun inside => ?_
  obtain ⟨max, high⟩ := infAwareAdd_ge added (proper a runMin).2 (by omega) inside.2 (by omega) boundsMin.max last small
  exact ⟨boundsMin.low, boundsMin.min.trans above, max, high⟩

theorem Reachable.holds (reached : Reachable env state) : state.Holds env := by
  induction reached with
  | init bound size => exact ⟨bound, size, by simp⟩
  | update reached least greatest above below run holds =>
    refine holds.updateEntry run fun inside => ?_
    exact makeBound_bounds least (above.elim (fun h => h ▸ inside.1) id)
      (below.elim (fun h => h ▸ inside.2) id) greatest
  | bind reached regularMin guardedMin regularExtent guardedExtent proper above below run holds =>
    exact bind_holds holds regularMin guardedMin regularExtent guardedExtent proper above below run
  | enter reached stored true run holds =>
    simp only [State.enterConstraint, bind_ok, pure_ok] at run
    obtain ⟨infos, detected, rfl⟩ := run
    refine ⟨holds.bound, holds.size, fun info mem => ?_⟩
    rcases List.mem_append.1 mem with old | new
    · exact holds.info info old
    · exact detectBoundInfo_covers detected stored true info new
  | leave reached run holds =>
    simp only [State.recover, bind_ok, pure_ok] at run
    obtain ⟨-, -, rfl⟩ := run
    exact ⟨holds.bound, holds.size, fun info mem => holds.info info (List.mem_of_mem_take mem)⟩

theorem saturated_sum_missed :
    let env : Env := ⟨fun _ => 0, fun _ => 0⟩
    let e : PrimExpr := .binary .sub
      (.binary .add (.intImm .int64 (2 ^ 63 - 2)) (.intImm .int64 1)) (.intImm .int64 5)
    Regular env e ∧ e.value env = 2 ^ 63 - 6 ∧
      State.visitExpr ⟨fun _ => none, []⟩ e = .ok ⟨kPosInf, kPosInf⟩ := by
  intro env e
  refine ⟨?_, by decide, by decide +kernel⟩
  simp only [Regular]
  decide

end

end Tlm.Arith.ConstIntBound
