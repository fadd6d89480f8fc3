import Mathlib.Data.List.Induction
import Mathlib.Data.List.Nodup
import Tlm.Tir.InplaceOp

set_option autoImplicit false

namespace Tlm.Tir.InplaceOp

open Cpp

variable {Var DType Op Value Location Cell : Type}

def Stmt.storesTo [DecidableEq Var] (src : Var) : Stmt Var DType Op → Bool
  | .store buffer _ _ => decide (buffer = src)
  | .seq first second => first.storesTo src || second.storesTo src
  | .ifThenElse _ thenCase elseCase => thenCase.storesTo src || elseCase.storesTo src
  | .forLoop _ _ _ _ body | .ifThen _ body | .whileLoop _ body | .letStmt _ _ body
  | .attr _ _ _ body => body.storesTo src

variable {cells : Location → Cell} {entries : List (Location × Cell)} {l : Location}

theorem writeCells_apply [DecidableEq Location] {cells' : Location → Cell}
    (same : l ∈ entries.map Prod.fst ∨ cells l = cells' l) :
    writeCells cells entries l = writeCells cells' entries l := by
  induction entries generalizing cells cells' with
  | nil => simpa [writeCells] using same
  | cons entry entries ih =>
    refine ih ?_
    by_cases here : l = entry.1
    · simp [here]
    · simpa [here] using same

theorem writeCells_outside [DecidableEq Location] (outside : l ∉ entries.map Prod.fst) :
    writeCells cells entries l = cells l := by
  induction entries generalizing cells with
  | nil => rfl
  | cons entry entries ih =>
    obtain ⟨here, later⟩ := not_or.1 (List.mem_cons.not.1 outside)
    exact (ih later).trans (Function.update_of_ne here _ _)

section

variable [DecidableEq Var] [DecidableEq DType] [DecidableEq Op]
  (sem : Semantics DType Op Value Location Cell) {dst src : Var}
  {before memory shared : Memory Var Location Cell}
  {stored : List Location}

def merged (dst src v : Var) : Var :=
  if v = dst then src else v

structure Related (dst src : Var) (before : Memory Var Location Cell) (stored : List Location)
    (memory shared : Memory Var Location Cell) : Prop where
  others : ∀ v, v ≠ dst → v ≠ src → shared v = memory v
  source : memory src = before src
  same : ∀ l ∈ stored, shared src l = memory dst l
  fresh : ∀ l, l ∉ stored → shared src l = before src l ∧ memory dst l = before dst l

theorem matchStore_indices {store : Option (PrimExprs Var DType Op × DType)} {dtype : DType}
    {indices : PrimExprs Var DType Op} (accepted : matchStore src store src dtype indices = .ok ()) :
    ∃ s ∈ store, s.1 = indices := by
  simp only [matchStore, reject, ne_eq] at accepted
  cases store with
  | none => cases accepted
  | some s =>
    refine ⟨s, rfl, ?_⟩
    grind

mutual

theorem eval_related (related : Related dst src before stored memory shared) (env : Var → Value)
    {store : Option (PrimExprs Var DType Op × DType)}
    (clear : ∀ s ∈ store, ∀ l ∈ sem.locate (evals sem id memory env s.1), l ∉ stored) :
    ∀ (memNest : Nat) (expr : PrimExpr Var DType Op), visitExpr dst src store memNest expr = .ok () →
      eval sem (merged dst src) shared env expr = eval sem id memory env expr
  | _, .var _ _, _ => rfl
  | memNest, .op op dtype args, accepted => by
    simp [eval, evals_related related env clear memNest args accepted]
  | memNest, .load buffer dtype indices, accepted => by
    simp only [visitExpr] at accepted
    split at accepted
    · cases accepted
    next plain =>
      rw [not_or] at plain
      obtain ⟨⟨⟩, matching, accepted⟩ := bind_ok.1 accepted
      have same := evals_related related env clear _ indices accepted
      have array : merged dst src buffer = buffer := if_neg plain.1
      rw [eval, eval, same, array]
      refine congrArg sem.gather (List.map_congr_left fun l member => ?_)
      by_cases source : buffer = src
      · subst source
        obtain ⟨s, inside, rfl⟩ := matchStore_indices matching
        rw [(related.fresh l (clear s inside l member)).1, id, related.source]
      · exact congrFun (related.others buffer plain.1 source) l

theorem evals_related (related : Related dst src before stored memory shared) (env : Var → Value)
    {store : Option (PrimExprs Var DType Op × DType)}
    (clear : ∀ s ∈ store, ∀ l ∈ sem.locate (evals sem id memory env s.1), l ∉ stored) :
    ∀ (memNest : Nat) (exprs : PrimExprs Var DType Op), visitExprs dst src store memNest exprs = .ok () →
      evals sem (merged dst src) shared env exprs = evals sem id memory env exprs
  | _, .nil, _ => rfl
  | memNest, .cons head tail, accepted => by
    obtain ⟨⟨⟩, first, rest⟩ := bind_ok.1 accepted
    simp [evals, eval_related related env clear memNest head first,
      evals_related related env clear memNest tail rest]

end

def Accepted (dst src : Var) : Code Var DType Op Value → Prop
  | .done => True
  | .run _ stmt => visitStmt dst src stmt = .ok () ∧ stmt.storesTo src = false
  | .seq first second => Accepted dst src first ∧ Accepted dst src second
  | .par left right => Accepted dst src left ∧ Accepted dst src right

def storesOf (dst : Var) (stores : List (Var × Location)) : List Location :=
  (stores.filter (·.1 = dst)).map Prod.snd

theorem storesOf_map (buffer : Var) (locations : List Location) :
    storesOf dst (locations.map (buffer, ·)) = if buffer = dst then locations else [] := by
  by_cases own : buffer = dst
  · simp [storesOf, own, List.filter_map, Function.comp_def]
  · simp [storesOf, own]

theorem storesOf_append (first second : List (Var × Location)) :
    storesOf dst (first ++ second) = storesOf dst first ++ storesOf dst second := by
  simp [storesOf]

structure Follows (dst src : Var) (before : Memory Var Location Cell) (stored : List Location)
    (separate inplace : Config Var DType Op Value Location Cell) : Prop where
  code : inplace.code = separate.code
  stores : inplace.stores = separate.stores
  accepted : Accepted dst src separate.code
  related : Related dst src before (stored ++ storesOf dst separate.stores) separate.memory inplace.memory

theorem accepted_iterate {concurrent : Bool} {env : Var → Value} {v : Var} {body : Stmt Var DType Op}
    (accepted : visitStmt dst src body = .ok () ∧ body.storesTo src = false) (values : List Value) :
    Accepted dst src (iterate concurrent env v values body) := by
  induction values with
  | nil => trivial
  | cons value values ih => cases concurrent <;> exact ⟨accepted, ih⟩

variable {code : Code Var DType Op Value}

theorem Related.quiet (related : Related dst src before stored memory shared)
    (accepted : Accepted dst src code) :
    Follows dst src before stored ⟨code, memory, []⟩ ⟨code, shared, []⟩ where
  code := rfl
  stores := rfl
  accepted := accepted
  related := by simpa [storesOf] using related

variable [DecidableEq Location]

theorem Related.store (related : Related dst src before stored memory shared) (distinct : dst ≠ src)
    (entries : List (Location × Cell)) :
    Related dst src before (stored ++ entries.map Prod.fst)
      (Function.update memory dst (writeCells (memory dst) entries))
      (Function.update shared src (writeCells (shared src) entries)) where
  others v notDst notSrc := by simpa [notDst, notSrc] using related.others v notDst notSrc
  source := by simpa [distinct.symm] using related.source
  same l member := by
    simp only [Function.update_self]
    exact writeCells_apply ((List.mem_append.1 member).symm.imp_right (related.same l))
  fresh l outside := by
    obtain ⟨old, new⟩ := not_or.1 (List.mem_append.not.1 outside)
    simpa [writeCells_outside new] using related.fresh l old

theorem Related.other (related : Related dst src before stored memory shared) {buffer : Var}
    (notDst : buffer ≠ dst) (notSrc : buffer ≠ src) (entries : List (Location × Cell)) :
    Related dst src before stored
      (Function.update memory buffer (writeCells (memory buffer) entries))
      (Function.update shared buffer (writeCells (shared buffer) entries)) where
  others v left right := by
    by_cases here : v = buffer
    · simp [here, related.others buffer notDst notSrc]
    · simpa [here] using related.others v left right
  source := by simpa [notSrc.symm] using related.source
  same := by simpa [notSrc.symm, notDst.symm] using related.same
  fresh := by simpa [notSrc.symm, notDst.symm] using related.fresh

variable {stmt : Stmt Var DType Op}

theorem start_follows (distinct : dst ≠ src) (related : Related dst src before stored memory shared)
    (env : Var → Value) (accepted : visitStmt dst src stmt = .ok ()) (untouched : stmt.storesTo src = false)
    (once : ∀ l ∈ storesOf dst (start sem id memory env stmt).stores, l ∉ stored) :
    Follows dst src before stored (start sem id memory env stmt)
      (start sem (merged dst src) shared env stmt) := by
  have plain (expr : PrimExpr Var DType Op) (ok : visitExpr dst src none 0 expr = .ok ()) :
      eval sem (merged dst src) shared env expr = eval sem id memory env expr :=
    eval_related sem related env (by simp) 0 expr ok
  cases stmt with
  | store buffer indices value =>
    obtain ⟨⟨⟩, located, valued⟩ := bind_ok.1 accepted
    have untouched : buffer ≠ src := by simpa [Stmt.storesTo] using untouched
    have locations := evals_related sem related env (by simp) 1 indices located
    by_cases own : buffer = dst
    · subst own
      have clear : ∀ l ∈ sem.locate (evals sem id memory env indices), l ∉ stored := by
        simpa [start, storesOf_map] using once
      have written := eval_related sem related env (by simpa using clear) 0 value valued
      simp only [start, locations, written]
      exact {
        code := rfl
        stores := rfl
        accepted := trivial
        related := by
          have next := related.store distinct ((sem.locate (evals sem id memory env indices)).zipIdx.map
            fun entry => (entry.1, sem.lane (eval sem id memory env value) entry.2))
          simpa [storesOf_map, merged, Function.comp_def] using next }
    · rw [if_neg own] at valued
      simp only [start, locations, plain value valued]
      exact {
        code := rfl
        stores := rfl
        accepted := trivial
        related := by simpa [storesOf_map, merged, own] using related.other own untouched _ }
  | seq first second =>
    obtain ⟨⟨⟩, left, right⟩ := bind_ok.1 accepted
    obtain ⟨leftUntouched, rightUntouched⟩ := Bool.or_eq_false_iff.1 untouched
    exact related.quiet ⟨⟨left, leftUntouched⟩, right, rightUntouched⟩
  | forLoop loopVar min extent kind body =>
    simp only [visitStmt, bind_ok] at accepted
    obtain ⟨⟨⟩, first, ⟨⟩, second, inner⟩ := accepted
    simp only [start, plain min first, plain extent second]
    exact related.quiet (accepted_iterate ⟨inner, untouched⟩ _)
  | ifThen condition thenCase =>
    obtain ⟨⟨⟩, first, inner⟩ := bind_ok.1 accepted
    simp only [start, plain condition first]
    refine related.quiet ?_
    split
    · exact ⟨inner, untouched⟩
    · trivial
  | ifThenElse condition thenCase elseCase =>
    simp only [visitStmt, bind_ok] at accepted
    obtain ⟨⟨⟩, first, ⟨⟩, left, right⟩ := accepted
    obtain ⟨leftUntouched, rightUntouched⟩ := Bool.or_eq_false_iff.1 untouched
    simp only [start, plain condition first]
    refine related.quiet ?_
    split
    · exact ⟨left, leftUntouched⟩
    · exact ⟨right, rightUntouched⟩
  | whileLoop condition body =>
    have whole := accepted
    obtain ⟨⟨⟩, first, inner⟩ := bind_ok.1 accepted
    simp only [start, plain condition first]
    refine related.quiet ?_
    split
    · exact ⟨⟨inner, untouched⟩, whole, untouched⟩
    · trivial
  | letStmt v value body =>
    obtain ⟨⟨⟩, first, inner⟩ := bind_ok.1 accepted
    simp only [start, plain value first]
    exact related.quiet ⟨inner, untouched⟩
  | attr key node value body =>
    simp only [visitStmt] at accepted
    split at accepted
    · cases accepted
    obtain ⟨⟨⟩, first, inner⟩ := bind_ok.1 accepted
    have passed : visitStmt dst src body = .ok () ∧ body.storesTo src = false := ⟨inner, untouched⟩
    cases key with
    | threadExtent =>
      simp only [start, plain value first]
      exact related.quiet (accepted_iterate passed _)
    | _ => exact related.quiet passed

theorem step_follows (distinct : dst ≠ src) (related : Related dst src before stored memory shared)
    (choice : List Bool) (accepted : Accepted dst src code)
    (once : ∀ l ∈ storesOf dst (step sem id memory choice code).stores, l ∉ stored) :
    Follows dst src before stored (step sem id memory choice code)
      (step sem (merged dst src) shared choice code) := by
  fun_induction step sem id memory choice code with
  | case1 => exact related.quiet trivial
  | case2 _ env stmt => exact start_follows sem distinct related env accepted.1 accepted.2 once
  | case3 => exact related.quiet accepted.2
  | case4 choice first second unfinished next ih =>
    have inner := ih accepted.1 once
    rw [step]
    · exact { inner with
        code := by simp [inner.code, next]
        accepted := ⟨inner.accepted, accepted.2⟩ }
    · exact unfinished
  | case5 => exact related.quiet accepted.2
  | case6 choice left right unfinished next ih =>
    have inner := ih accepted.2 once
    rw [step]
    · exact { inner with
        code := by simp [inner.code, next]
        accepted := ⟨accepted.1, inner.accepted⟩ }
    · exact unfinished
  | case7 choice left right unfinished stays next ih =>
    have inner := ih accepted.1 once
    rw [step]
    · exact { inner with
        code := by simp [inner.code, next]
        accepted := ⟨inner.accepted, accepted.2⟩ }
    · exact unfinished
    · exact stays

omit [DecidableEq DType] [DecidableEq Op] in
theorem run_append (array : Var → Var) (schedule : List (List Bool)) (choice : List Bool)
    (env : Var → Value) (stmt : Stmt Var DType Op) (memory : Memory Var Location Cell) :
    run sem array (schedule ++ [choice]) env stmt memory =
      advance sem array (run sem array schedule env stmt memory) choice := by
  simp [run]

theorem run_follows (distinct : dst ≠ src) (env : Var → Value)
    (accepted : visitStmt dst src stmt = .ok ()) (untouched : stmt.storesTo src = false)
    (schedule : List (List Bool)) (once : (storesOf dst (run sem id schedule env stmt memory).stores).Nodup) :
    Follows dst src memory [] (run sem id schedule env stmt memory)
      (run sem (merged dst src) schedule env stmt memory) := by
  induction schedule using List.reverseRecOn with
  | nil =>
    have initial : Related dst src memory [] memory memory := ⟨by simp, rfl, by simp, by simp⟩
    exact initial.quiet ⟨accepted, untouched⟩
  | append_singleton schedule choice ih =>
    rw [run_append] at once
    rw [run_append, run_append]
    simp only [advance, storesOf_append, List.nodup_append] at once
    have past := ih once.1
    have next := step_follows sem distinct past.related choice past.accepted
      fun l member before => once.2.2 l before l member rfl
    exact {
      code := by rw [advance, past.code, next.code]; rfl
      stores := by rw [advance, advance, past.code, past.stores, next.stores]
      accepted := next.accepted
      related := by
        simpa [advance, storesOf_append, past.code] using next.related }

theorem check_inplace (distinct : dst ≠ src) {stmt : Stmt Var DType Op}
    (accepted : check dst src stmt = .ok ()) (untouched : stmt.storesTo src = false)
    (env : Var → Value) (memory : Memory Var Location Cell) (schedule : List (List Bool))
    (once : (storesOf dst (run sem id schedule env stmt memory).stores).Nodup) :
    let separate := run sem id schedule env stmt memory
    let inplace := run sem (merged dst src) schedule env stmt memory
    inplace.code = separate.code ∧ inplace.stores = separate.stores ∧
      (∀ v, v ≠ dst → v ≠ src → inplace.memory v = separate.memory v) ∧
      ∀ l, (dst, l) ∈ separate.stores ∨ memory dst l = memory src l →
        inplace.memory src l = separate.memory dst l := by
  have visited : visitStmt dst src stmt = .ok () := by
    unfold check at accepted
    split at accepted
    · cases accepted
    · cases accepted
    · exact accepted
  have follows := run_follows sem distinct env visited untouched schedule once
  refine ⟨follows.code, follows.stores, follows.related.others, ?_⟩
  intro l either
  by_cases stored : l ∈ storesOf dst (run sem id schedule env stmt memory).stores
  · exact follows.related.same l stored
  · obtain ⟨kept, unwritten⟩ := follows.related.fresh l stored
    obtain inside | alike := either
    · exact absurd (by simpa [storesOf] using inside) stored
    · rw [kept, unwritten, alike]

end

section

-- Numbers for all. A loop variable is 2, the source is 0, and the destination is 1.
def numbers : Semantics Unit Nat Nat Nat Nat where
  apply n _ _ := n
  locate := id
  gather cells := cells.headD 0
  lane value _ := value
  truth value := value ≠ 0
  iterations min extent := List.range' min extent
  threads extent := List.range extent

def place : PrimExprs Nat Unit Nat := .cons (.var 2 ()) .nil

def copyLoop (body : Stmt Nat Unit Nat → Stmt Nat Unit Nat) : Stmt Nat Unit Nat :=
  .forLoop 2 (.op 0 () .nil) (.op 2 () .nil) .parallel (body (.store 1 place (.load 0 () place)))

def inOrder : List (List Bool) := List.replicate 12 []

theorem check_inplace_copy :
    let separate := run numbers id inOrder (fun _ => 0) (copyLoop id) fun buffer l => 10 * buffer + l
    let inplace := run numbers (merged 1 0) inOrder (fun _ => 0) (copyLoop id) fun buffer l =>
      10 * buffer + l
    inplace.code = separate.code ∧ inplace.stores = separate.stores ∧
      (∀ v, v ≠ 1 → v ≠ 0 → inplace.memory v = separate.memory v) ∧
      ∀ l, (1, l) ∈ separate.stores ∨ 10 * 1 + l = 10 * 0 + l →
        inplace.memory 0 l = separate.memory 1 l :=
  check_inplace numbers (by decide) (by decide +kernel) (by decide) _ _ inOrder (by decide +kernel)

def clearedCopy : Stmt Nat Unit Nat :=
  copyLoop fun copy => .seq copy (.store 0 place (.op 7 () .nil))

theorem cleared_source_differs :
    let separate := run numbers id inOrder (fun _ => 0) clearedCopy fun _ _ => 5
    let inplace := run numbers (merged 1 0) inOrder (fun _ => 0) clearedCopy fun _ _ => 5
    check 1 0 clearedCopy = .ok () ∧ (storesOf 1 separate.stores).Nodup ∧
      separate.code = .done ∧ inplace.code = .done ∧
      separate.memory 1 0 = 5 ∧ inplace.memory 0 0 = 7 :=
  ⟨by decide +kernel, by decide +kernel, rfl, rfl, by decide +kernel, by decide +kernel⟩

end

end Tlm.Tir.InplaceOp
