import Tlm.MetaSchedule.DecisionTokens

set_option autoImplicit false

namespace Tlm.MetaSchedule

open Cpp

def Instruction.setExtent (extents : Nat → Int32) (inst : Instruction) : Instruction :=
  if inst.isAnnotateWithParallel then inst.replaceAnnValue inst.obj (.int (extents inst.obj))
  else inst

-- The recorded trace with other decisions and other parallel extents, by instruction.
def Trace.assign (decisions : Nat → Option Decision) (extents : Nat → Int32) (trace : Trace) :
    Trace :=
  ⟨trace.insts.map (Instruction.setExtent extents), decisions⟩

def Decision.SameShape : Decision → Decision → Prop
  | .integer _, .integer _ => True
  | .array values, .array others => values.length = others.length
  | _, _ => False

def SameShapes (trace : Trace) (decisions : Nat → Option Decision) : Prop :=
  ∀ inst ∈ trace.insts, Option.Rel Decision.SameShape (trace.getDecision inst) (decisions inst.obj)

def Trace.parallelValues (trace : Trace) : List Input :=
  trace.validInsts.filterMap fun inst => inst.parallel?.map Prod.snd

def Trace.Carries (trace assigned : Trace) : Prop :=
  (∀ inst ∈ assigned.insts, trace.getDecision inst = assigned.getDecision inst) ∧
    trace.parallelValues = assigned.parallelValues

@[simp] theorem setExtent_obj (extents : Nat → Int32) (inst : Instruction) :
    (inst.setExtent extents).obj = inst.obj := by
  unfold Instruction.setExtent Instruction.replaceAnnValue
  split
  · split <;> rfl
  · rfl

@[simp] theorem setExtent_isPostproc (extents : Nat → Int32) (inst : Instruction) :
    (inst.setExtent extents).isPostproc = inst.isPostproc := by
  obtain ⟨obj, action⟩ := inst
  cases action with
  | annotate blockOrLoop annVal annKey =>
    unfold Instruction.setExtent
    split <;> rfl
  | _ => rfl

theorem setExtent_parallel (extents : Nat → Int32) (inst : Instruction) :
    (inst.setExtent extents).parallel? =
      inst.parallel?.map fun (blockOrLoop, _) => (blockOrLoop, .int (extents inst.obj)) := by
  obtain ⟨obj, action⟩ := inst
  cases action with
  | annotate blockOrLoop annVal annKey =>
    by_cases key : annKey = parallelKey <;>
      simp [Instruction.setExtent, Instruction.replaceAnnValue,
        Instruction.isAnnotateWithParallel, Instruction.parallel?, key]
  | _ => rfl

theorem assign_validInsts (decisions : Nat → Option Decision) (extents : Nat → Int32) (trace : Trace) :
    (trace.assign decisions extents).validInsts = trace.validInsts.map (Instruction.setExtent extents) := by
  simp [Trace.validInsts, Trace.assign, List.takeWhile_map, Function.comp_def]

def Decision.tokens : Decision → List String
  | .integer value => [toString value.toInt]
  | .array values => values.map fun value => toString value.toInt

def decisionTokens (decisions : Nat → Option Decision) : Nat → List Instruction → List String
  | _, [] => []
  | i, inst :: rest =>
    match decisions inst.obj with
    | none => decisionTokens decisions (i + 1) rest
    | some decision => toString i :: decision.tokens ++ decisionTokens decisions (i + 1) rest

theorem jsonDfs_decision (decision : Decision) : jsonDfsWithoutBracket decision.asJSON = decision.tokens := by
  cases decision with
  | integer value => rfl
  | array values => exact jsonDfsItems_num Int32.toInt values

variable {trace : Trace} {insts : List Instruction} {entries : List Json} {i : Nat}

theorem decisionsAsJSON_tokens (run : decisionsAsJSON trace i insts = .ok entries) :
    jsonDfsItems entries = decisionTokens trace.decisions i insts := by
  induction insts generalizing i entries with
  | nil =>
    cases run
    rfl
  | cons inst rest ih =>
    unfold decisionsAsJSON Trace.getDecision at run
    unfold decisionTokens
    cases decided : trace.decisions inst.obj with
    | none =>
      rw [decided] at run
      exact ih run
    | some decision =>
      simp only [decided, bind_ok, narrow_ok, pure_ok] at run
      obtain ⟨index, counted, later, run, rfl⟩ := run
      have number : toString (i : Int) = toString i := rfl
      rw [jsonDfsItems, ih run, counted]
      simp only [jsonDfsWithoutBracket, jsonDfsItems, jsonDfs_decision, number,
        List.append_nil, List.singleton_append]

theorem stol_int32 (value : Int32) : stol (toString value.toInt) = .ok value.toInt64 := by
  have wide := stol_repr value.toInt64
  rw [Int32.toInt_toInt64] at wide
  exact wide

def IsNumber (text : String) : Prop :=
  ∃ value, stol text = .ok value

theorem decision_numbers (decision : Decision) : ∀ token ∈ decision.tokens, IsNumber token := by
  cases decision with
  | integer value =>
    rw [Decision.tokens, List.forall_mem_singleton]
    exact ⟨_, stol_int32 value⟩
  | array values =>
    rw [Decision.tokens, List.forall_mem_map]
    exact fun value _ => ⟨_, stol_int32 value⟩

theorem decisionTokens_numbers (run : decisionsAsJSON trace i insts = .ok entries) :
    ∀ token ∈ decisionTokens trace.decisions i insts, IsNumber token := by
  induction insts generalizing i entries with
  | nil => simp [decisionTokens]
  | cons inst rest ih =>
    unfold decisionsAsJSON Trace.getDecision at run
    unfold decisionTokens
    cases decided : trace.decisions inst.obj with
    | none =>
      rw [decided] at run
      exact ih run
    | some decision =>
      simp only [decided, bind_ok, narrow_ok, pure_ok] at run
      obtain ⟨index, counted, later, run, rfl⟩ := run
      have number : toString i = toString index.toInt := by
        rw [counted]
        rfl
      simp only [List.cons_append, List.forall_mem_cons, List.forall_mem_append]
      refine ⟨?_, decision_numbers decision, ih run⟩
      rw [number]
      exact ⟨_, stol_int32 index⟩

variable {decisions : Nat → Option Decision}

theorem decisionTokens_congr (f : Instruction → Instruction) (same : ∀ inst, (f inst).obj = inst.obj)
    (insts : List Instruction) (i : Nat) :
    decisionTokens decisions i (insts.map f) = decisionTokens decisions i insts := by
  induction insts generalizing i with
  | nil => rfl
  | cons inst rest ih => simp [decisionTokens, same, ih]

def IsWord (text : String) : Prop :=
  scanNumeral text.toList = none

theorem stol_word {text : String} (word : IsWord text) : stol text = .error .invalidArgument := by
  rw [stol, word]
  rfl

structure Label where
  block : String
  extent : Int32
  word : IsWord block

def Label.tokens (label : Label) : List String :=
  ["Annotate", label.block, toString label.extent.toInt, parallelKey]

def annotated (insts : List Instruction) : List Instruction :=
  insts.filter Instruction.isAnnotateWithParallel

variable {names : RVNames} {named : RVNames}

theorem addOutputRVs_words {rvs : List RV} (words : ∀ entry ∈ names, IsWord entry.2)
    (run : addOutputRVs names rvs = .ok named) : ∀ entry ∈ named, IsWord entry.2 := by
  induction rvs generalizing names with
  | nil =>
    cases run
    exact words
  | cons rv rest ih =>
    simp only [addOutputRVs, bind_ok] at run
    obtain ⟨-, -, run⟩ := run
    refine ih ?_ run
    rw [List.forall_mem_append, List.forall_mem_singleton]
    refine ⟨words, ?_⟩
    unfold IsWord
    cases rv.kind <;>
      · rw [String.toList_append]
        exact scanNumeral_word _ _ (by decide) (by decide) (by decide) (by decide)

def entryOf (action : Action) (inputs outputs : List Json) : Json :=
  .arr [.str action.kindName, .arr inputs, .arr action.attrs, .arr outputs]

theorem isEnterPostproc_entryOf (inst : Instruction) (inputs outputs : List Json) :
    isEnterPostproc (entryOf inst.action inputs outputs) = inst.isPostproc := by
  obtain ⟨obj, action⟩ := inst
  cases action with
  | other kind ins attrs outs named =>
    have apart : kind ≠ "EnterPostproc" := fun same => named (by simp [same])
    simp [isEnterPostproc, entryOf, Action.kindName, Instruction.isPostproc, apart]
  | _ => rfl

theorem isParallelLabel_entryOf (inst : Instruction) (inputs outputs : List Json) :
    isParallelLabel (entryOf inst.action inputs outputs) = inst.isAnnotateWithParallel := by
  obtain ⟨obj, action⟩ := inst
  cases action with
  | annotate blockOrLoop annVal annKey =>
    by_cases key : annKey = parallelKey <;>
      simp [isParallelLabel, entryOf, Action.kindName, Action.attrs,
        Instruction.isAnnotateWithParallel, Instruction.parallel?, key]
  | other kind ins attrs outs named =>
    have apart : kind ≠ "Annotate" := fun same => named (by simp [same])
    unfold isParallelLabel
    split
    next name _ key _ same =>
      simp only [entryOf, Action.kindName, Json.arr.injEq, List.cons.injEq, Json.str.injEq] at same
      simp [← same.1, apart, Instruction.isAnnotateWithParallel, Instruction.parallel?]
    · rfl
  | _ => rfl

variable {inst : Instruction} {blockOrLoop : RV}

theorem parallel_some {annVal : Input} (mark : inst.parallel? = some (blockOrLoop, annVal)) :
    inst.action = .annotate blockOrLoop annVal parallelKey := by
  unfold Instruction.parallel? at mark
  split at mark
  next shape =>
    simp only [Option.ite_none_right_eq_some] at mark
    obtain ⟨rfl, rfl, rfl⟩ := mark
    exact shape
  · cases mark

theorem postproc_not_annotated (postproc : inst.isPostproc = true) : inst.isAnnotateWithParallel = false := by
  obtain ⟨obj, action⟩ := inst
  cases action with
  | enterPostproc => rfl
  | _ => cases postproc

theorem label_of_entry {action : Action} {extent : Int32} {inputs : List Json}
    (words : ∀ entry ∈ names, IsWord entry.2) (mark : action = .annotate blockOrLoop (.int extent) parallelKey)
    (translated : translateInputRVs names action.inputs = .ok inputs)
    (outs : addOutputRVs names action.outputs = .ok named) :
    ∃ label : Label, jsonDfsWithoutBracket
      (entryOf action inputs ((named.drop names.length).map fun (_, name) => .str name)) = label.tokens := by
  subst mark
  cases outs
  simp only [Action.inputs, translateInputRVs, translateInputRV, bind_ok, found_ok, pure_ok,
    Except.ok.injEq] at translated
  obtain ⟨_, ⟨name, known, rfl⟩, _, ⟨_, rfl, _, rfl, rfl⟩, rfl⟩ := translated
  obtain ⟨before, after, rfl, -⟩ := List.lookup_eq_some_iff.mp known
  refine ⟨⟨name, extent, words (blockOrLoop, name) (by simp)⟩, ?_⟩
  simp [entryOf, Action.kindName, Action.attrs, jsonDfsWithoutBracket, jsonDfsItems, Label.tokens]

theorem labels_of_insts (words : ∀ entry ∈ names, IsWord entry.2)
    (extents : ∀ inst ∈ insts, ∀ blockOrLoop annVal,
      inst.parallel? = some (blockOrLoop, annVal) → ∃ extent, annVal = .int extent)
    (run : instsAsJSON names insts = .ok entries) :
    ∃ labels : List Label,
      jsonDfsItems ((instsPart entries).filter isParallelLabel) = labels.flatMap Label.tokens ∧
      labels.length = (annotated (insts.takeWhile fun inst => !inst.isPostproc)).length := by
  induction insts generalizing names entries with
  | nil =>
    cases run
    exact ⟨[], rfl, rfl⟩
  | cons inst rest ih =>
    simp only [instsAsJSON, bind_ok, pure_ok] at run
    obtain ⟨inputs, translated, named, outs, later, run, rfl⟩ := run
    obtain ⟨labels, text, count⟩ := ih (addOutputRVs_words words outs)
      (fun inst member => extents inst (List.mem_cons_of_mem _ member)) run
    rw [← entryOf, instsPart, isEnterPostproc_entryOf, List.takeWhile_cons]
    cases postproc : inst.isPostproc with
    | true =>
      refine ⟨[], ?_, rfl⟩
      rw [if_pos rfl, List.filter_cons_of_neg]
      · rfl
      · rw [isParallelLabel_entryOf, postproc_not_annotated postproc]
        exact Bool.false_ne_true
    | false =>
      simp only [Bool.false_eq_true, if_false, Bool.not_false, if_true, List.filter_cons,
        isParallelLabel_entryOf, annotated]
      cases mark : inst.parallel? with
      | none =>
        have plain : inst.isAnnotateWithParallel = false := by
          rw [Instruction.isAnnotateWithParallel, mark]
          rfl
        rw [plain]
        exact ⟨labels, text, count⟩
      | some parts =>
        obtain ⟨blockOrLoop, annVal⟩ := parts
        obtain ⟨extent, rfl⟩ := extents inst (by simp) blockOrLoop annVal mark
        have marked : inst.isAnnotateWithParallel = true := by
          rw [Instruction.isAnnotateWithParallel, mark]
          rfl
        obtain ⟨label, own⟩ :=
          label_of_entry words (parallel_some mark) translated outs
        refine ⟨label :: labels, ?_, ?_⟩
        · rw [marked, if_pos rfl, jsonDfsItems, own, text]
          rfl
        · rw [marked, if_pos rfl, List.length_cons, List.length_cons, count, annotated]

theorem annotated_map_setExtent (extents : Nat → Int32) (insts : List Instruction) :
    (annotated (insts.map (Instruction.setExtent extents))).length = (annotated insts).length := by
  have same : ∀ inst : Instruction,
      (inst.setExtent extents).isAnnotateWithParallel = inst.isAnnotateWithParallel := by
    intro inst
    rw [Instruction.isAnnotateWithParallel, setExtent_parallel, Option.isSome_map]
    rfl
  rw [annotated, annotated, List.filter_map, List.length_map]
  simp [Function.comp_def, same]

theorem layout_tokens {extents : Nat → Int32} {tokens : List String}
    (laid : layout (trace.assign decisions extents) = .ok tokens) :
    ∃ labels : List Label,
      tokens = decisionTokens decisions 0 trace.insts ++ labels.flatMap Label.tokens ∧
      labels.length = (annotated trace.validInsts).length ∧
      ∀ token ∈ decisionTokens decisions 0 trace.insts, IsNumber token := by
  simp only [layout, Trace.asJSON, bind_ok, pure_ok] at laid
  obtain ⟨_, ⟨entries, insts, pairs, decided, rfl⟩, rfl⟩ := laid
  have same : decisionTokens decisions 0 (trace.assign decisions extents).insts =
      decisionTokens decisions 0 trace.insts :=
    decisionTokens_congr _ (setExtent_obj extents) trace.insts 0
  have integers : ∀ inst ∈ (trace.assign decisions extents).insts, ∀ blockOrLoop annVal,
      inst.parallel? = some (blockOrLoop, annVal) → ∃ extent, annVal = .int extent := by
    simp only [Trace.assign, List.forall_mem_map]
    intro inst _ blockOrLoop annVal mark
    rw [setExtent_parallel, Option.map_eq_some_iff] at mark
    obtain ⟨_, -, same⟩ := mark
    exact ⟨extents inst.obj, (congrArg Prod.snd same).symm⟩
  obtain ⟨labels, text, count⟩ := labels_of_insts (by simp) integers insts
  refine ⟨labels, ?_, ?_, ?_⟩
  · have front := decisionsAsJSON_tokens decided
    simp only [jsonDfsItems, jsonDfsWithoutBracket, text, List.append_nil]
    rw [front, ← same]
    rfl
  · rw [count, ← Trace.validInsts, assign_validInsts, annotated_map_setExtent]
  · have numbers := decisionTokens_numbers decided
    rw [← same]
    exact numbers

theorem label_tokens_getElem (labels : List Label) (j r : Nat) (bound : r < 4) :
    (labels.flatMap Label.tokens)[4 * j + r]? = labels[j]?.bind fun label => label.tokens[r]? := by
  induction labels generalizing j with
  | nil => simp
  | cons label labels ih =>
    have four : label.tokens.length = 4 := rfl
    rw [List.flatMap_cons]
    cases j with
    | zero =>
      rw [List.getElem?_append_left (by omega)]
      simp
    | succ j =>
      rw [List.getElem?_append_right (by omega), four, show 4 * (j + 1) + r - 4 = 4 * j + r by omega, ih]
      simp

def ReadsNumber (tokens : List String) (position : Nat) : Prop :=
  ∃ value, (found .outOfRange tokens[position]? >>= stol) = .ok value

theorem readsNumber_label (labels : List Label) (position : Nat) :
    ReadsNumber (labels.flatMap Label.tokens) position ↔ position % 4 = 2 ∧ position < 4 * labels.length := by
  have split := label_tokens_getElem labels (position / 4) (position % 4) (Nat.mod_lt _ (by omega))
  rw [Nat.div_add_mod] at split
  simp only [ReadsNumber, bind_ok, found_ok, split, Option.bind_eq_some_iff]
  constructor
  · rintro ⟨value, token, ⟨label, present, taken⟩, read⟩
    have inside := (List.getElem?_eq_some_iff.mp present).1
    refine ⟨?_, by omega⟩
    -- the other three tokens are words
    have cases : position % 4 = 0 ∨ position % 4 = 1 ∨ position % 4 = 2 ∨ position % 4 = 3 := by
      omega
    rcases cases with first | second | third | fourth
    · rw [first] at taken
      cases taken
      cases read
    · rw [second] at taken
      cases taken
      rw [stol_word label.word] at read
      cases read
    · exact third
    · rw [fourth] at taken
      cases taken
      cases read
  · rintro ⟨third, inside⟩
    have present : position / 4 < labels.length := by omega
    rw [third]
    exact ⟨_, _, ⟨_, List.getElem?_eq_getElem present, rfl⟩, stol_int32 _⟩

theorem readsNumber_laid {front : List String} (numbers : ∀ token ∈ front, IsNumber token)
    (labels : List Label) (position : Nat) :
    ReadsNumber (front ++ labels.flatMap Label.tokens) position ↔
      position < front.length ∨ front.length ≤ position ∧
        (position - front.length) % 4 = 2 ∧ position - front.length < 4 * labels.length := by
  by_cases inside : position < front.length
  · have present := List.getElem?_eq_getElem inside
    obtain ⟨value, read⟩ := numbers _ (List.getElem_mem inside)
    simp only [inside, true_or, iff_true]
    refine ⟨value, ?_⟩
    rw [List.getElem?_append_left inside, present]
    exact read
  · have behind : front.length ≤ position := by omega
    have shifted := readsNumber_label labels (position - front.length)
    rw [ReadsNumber, List.getElem?_append_right behind, ← ReadsNumber, shifted]
    simp [inside, behind]

end Tlm.MetaSchedule
