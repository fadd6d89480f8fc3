import Tlm.Shared.Liveness
import Tlm.Tir.Trace

set_option autoImplicit false

namespace Tlm.Tir

open Liveness
open MetaSchedule (RVKind RV Bytes ascii)

def traceLanguage : Language Instruction RV where
  isPure inst := inst.kind.isPure
  outputs := Instruction.outputs
  reads := Instruction.directUses
  uses := Instruction.uses
  uses_of_read := Instruction.uses_of_direct

theorem optional_bind_optional (decision : Option ObjectRef) :
    (decision.bind Trace.optional).bind Trace.optional = decision.bind Trace.optional := by
  cases decision with
  | none => rfl
  | some value => cases value <;> rfl

namespace Simplified

variable (trace : Trace)

def run (insts : List Instruction) : Simplified :=
  insts.foldr (step trace) ⟨[], [], fun _ => none⟩

theorem run_cons (inst : Instruction) (rest : List Instruction) :
    run trace (inst :: rest) = step trace inst (run trace rest) := rfl

variable {inst : Instruction} {done : Simplified}

theorem step_dead (used : done.usedRVs = done.newInsts.flatMap Instruction.directUses)
    (dead : ¬traceLanguage.Survives inst done.newInsts) : step trace inst done = done := by
  have test : (inst.kind.isPure && inst.outputs.all (· ∉ done.usedRVs)) = true := by
    rw [Language.Survives, not_not, show traceLanguage.reads = Instruction.directUses from rfl, ← used] at dead
    simpa [traceLanguage] using dead
  rw [step, if_pos test]

theorem step_live (used : done.usedRVs = done.newInsts.flatMap Instruction.directUses)
    (live : traceLanguage.Survives inst done.newInsts) :
    (step trace inst done).usedRVs = inst.directUses ++ done.usedRVs ∧
      (step trace inst done).newInsts = inst :: done.newInsts ∧
      (step trace inst done).newDecisions =
        emplaceDecision done.newDecisions inst.obj (trace.getDecision inst) := by
  have test : ¬(inst.kind.isPure && inst.outputs.all (· ∉ done.usedRVs)) = true := by
    rw [Language.Survives, show traceLanguage.reads = Instruction.directUses from rfl, ← used] at live
    simpa [traceLanguage] using live
  rw [step, if_neg test]
  exact ⟨rfl, rfl, rfl⟩

theorem run_insts (insts : List Instruction) :
    (run trace insts).newInsts = traceLanguage.sweep insts ∧
      (run trace insts).usedRVs = (run trace insts).newInsts.flatMap Instruction.directUses := by
  induction insts with
  | nil => exact ⟨rfl, rfl⟩
  | cons inst rest ih =>
    obtain ⟨kept, used⟩ := ih
    rw [run_cons, Language.sweep, ← kept]
    split
    next live =>
      obtain ⟨uses, insts, -⟩ := step_live trace used live
      rw [uses, insts, used]
      exact ⟨rfl, rfl⟩
    next dead =>
      rw [step_dead trace used dead]
      exact ⟨rfl, used⟩

def Decided (done : Simplified) : Prop :=
  (∀ obj, done.newDecisions obj = none ∨
      done.newDecisions obj = (trace.decisions obj).bind Trace.optional) ∧
    ∀ inst ∈ done.newInsts, done.newDecisions inst.obj = trace.getDecision inst

theorem decided_keep {next : Simplified} (decided : Decided trace done)
    (insts : next.newInsts = inst :: done.newInsts)
    (decisions : next.newDecisions = emplaceDecision done.newDecisions inst.obj (trace.getDecision inst)) :
    Decided trace next := by
  obtain ⟨copied, kept⟩ := decided
  have own : next.newDecisions inst.obj = (trace.decisions inst.obj).bind Trace.optional := by
    rw [decisions, emplaceDecision, if_pos rfl]
    rcases copied inst.obj with absent | copy
    · rw [absent, Option.none_or]
      rfl
    · rw [copy]
      exact Option.or_self
  have others : ∀ obj, obj ≠ inst.obj → next.newDecisions obj = done.newDecisions obj := by
    intro obj different
    rw [decisions, emplaceDecision, if_neg different]
  constructor
  · intro obj
    by_cases same : obj = inst.obj
    · rw [same]
      exact .inr own
    · rw [others obj same]
      exact copied obj
  · intro other mem
    by_cases same : other.obj = inst.obj
    · rw [Trace.getDecision, same]
      exact own
    · rw [insts] at mem
      rcases List.mem_cons.mp mem with rfl | mem
      · exact absurd rfl same
      · rw [others _ same]
        exact kept other mem

theorem run_decided (insts : List Instruction) : Decided trace (run trace insts) := by
  induction insts with
  | nil => exact ⟨fun _ => .inl rfl, fun inst mem => by cases mem⟩
  | cons inst rest ih =>
    have used := (run_insts trace rest).2
    rw [run_cons]
    by_cases live : traceLanguage.Survives inst (run trace rest).newInsts
    · obtain ⟨-, insts, decisions⟩ := step_live trace used live
      exact decided_keep trace ih insts decisions
    · rw [step_dead trace used live]
      exact ih

end Simplified

theorem Trace.simplified_insts (trace : Trace) (removePostproc : Bool) :
    (trace.simplified removePostproc).insts = traceLanguage.sweep (trace.validInsts removePostproc) :=
  (Simplified.run_insts trace _).1

theorem Trace.simplified_decision (trace : Trace) (removePostproc : Bool) {inst : Instruction}
    (kept : inst ∈ (trace.simplified removePostproc).insts) :
    (trace.simplified removePostproc).getDecision inst = trace.getDecision inst := by
  have copied := (Simplified.run_decided trace (trace.validInsts removePostproc)).2 inst kept
  change ((Simplified.run trace (trace.validInsts removePostproc)).newDecisions inst.obj).bind optional = _
  rw [copied]
  exact optional_bind_optional _

theorem defined_of_append {known : List RV} {before after : List Instruction}
    (defined : traceLanguage.Defined known (before ++ after)) : traceLanguage.Defined known before := by
  induction before generalizing known with
  | nil => trivial
  | cons inst rest ih => exact ⟨defined.1, ih defined.2⟩

theorem Trace.defined_validInsts {trace : Trace} (defined : traceLanguage.Defined [] trace.insts)
    (removePostproc : Bool) : traceLanguage.Defined [] (trace.validInsts removePostproc) := by
  rw [validInsts]
  split
  · apply defined_of_append
    rw [List.takeWhile_append_dropWhile]
    exact defined
  · exact defined

structure Trace.Simplifies (trace result : Trace) (removePostproc : Bool) : Prop where
  defined : traceLanguage.Defined [] result.insts
  removesUnused : traceLanguage.RemovesUnused (trace.validInsts removePostproc) result.insts
  decisions : ∀ inst ∈ result.insts, result.getDecision inst = trace.getDecision inst

theorem simplified_iff_covered (trace : Trace) (removePostproc : Bool)
    (defined : traceLanguage.Defined [] trace.insts) :
    trace.Simplifies (trace.simplified removePostproc) removePostproc ↔
      traceLanguage.Covered (trace.validInsts removePostproc) := by
  have insts := trace.simplified_insts removePostproc
  constructor
  · intro simplifies
    apply (Language.removesUnused_iff_covered _).mp
    rw [← insts]
    exact simplifies.removesUnused
  · intro covered
    constructor
    · rw [insts]
      exact covered.defined_sweep (fun _ _ _ _ known => known) (trace.defined_validInsts defined _)
    · rw [insts]
      exact (Language.removesUnused_iff_covered _).mpr covered
    · exact fun inst kept => trace.simplified_decision removePostproc kept

def instructionOf (obj : Nat) (name : String) (isPure : Bool) (inputs : List ObjectRef)
    (outputs : List RV) : Instruction :=
  ⟨obj, ⟨ascii name, isPure, .same⟩, inputs, [], outputs, trivial⟩

def sampledTrace (value : ObjectRef) : Trace where
  insts :=
    [instructionOf 0 "GetBlock" true [] [⟨.block, 0⟩],
      instructionOf 1 "SampleCategorical" true [] [⟨.var, 1⟩],
      instructionOf 2 "GetBlock" true [] [⟨.block, 2⟩],
      instructionOf 3 "Annotate" false [.rv ⟨.block, 0⟩, value] []]
  decisions obj := if obj = 1 then some (.int 2) else none

theorem simplified_iff_covered_direct :
    traceLanguage.Defined [] (sampledTrace (.rv ⟨.var, 1⟩)).insts ∧
      (sampledTrace (.rv ⟨.var, 1⟩)).Simplifies
        ((sampledTrace (.rv ⟨.var, 1⟩)).simplified false) false := by
  have defined : traceLanguage.Defined [] (sampledTrace (.rv ⟨.var, 1⟩)).insts := by decide
  refine ⟨defined, (simplified_iff_covered _ false defined).mpr ?_⟩
  exact Language.Defined.covered defined (by decide) (by decide)

-- `Annotate` takes arrays of values, but the sampling behind them is removed.
theorem simplified_drops_nested :
    traceLanguage.Defined [] (sampledTrace (.array [.rv ⟨.var, 1⟩])).insts ∧
      ¬(sampledTrace (.array [.rv ⟨.var, 1⟩])).Simplifies
        ((sampledTrace (.array [.rv ⟨.var, 1⟩])).simplified false) false :=
  ⟨by decide, fun simplifies => absurd simplifies.defined (by decide)⟩

end Tlm.Tir
