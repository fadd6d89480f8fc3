import Mathlib.Data.List.Basic
import Mathlib.Logic.Relation
import Tlm.Shared.Ranked

set_option autoImplicit false

namespace Tlm.Relay

structure DataType where
  code : Nat
  bits : Nat
  lanes : Nat
  deriving DecidableEq, Repr

structure TensorType where
  shape : List (Option Int)
  dtype : DataType
  deriving DecidableEq, Repr

inductive Ty where
  | tensor (type : TensorType)
  | tuple (fields : List Ty)
  | func

mutual

def flattenTupleType : Ty → Option (List TensorType)
  | .tensor type => some [type]
  | .tuple fields => flattenFields fields
  | .func => none

def flattenFields : List Ty → Option (List TensorType)
  | [] => some []
  | field :: rest => return (← flattenTupleType field) ++ (← flattenFields rest)

end

def Ty.isFunc : Ty → Bool
  | .func => true
  | _ => false

def Ty.fields : Ty → List Ty
  | .tuple fields => fields
  | _ => []

def Ty.tensors (type : Ty) : List TensorType :=
  (flattenTupleType type).getD []

inductive MemoryScope where
  | flat
  | texture
  | textureWeight
  | textureNhwc
  | otherTexture
  deriving DecidableEq, Repr

structure VirtualDevice where
  -- The fields that are compared only.
  id : Nat
  memoryScope : MemoryScope
  isFullyUnconstrained : Bool
  deriving DecidableEq, Repr

inductive View (Node : Type) where
  | param
  | letVar (value : Node)
  | constant
  -- The number of arguments of a lowered reshape; it is missing for all other calls.
  | call (reshape : Option Nat) (args : List Node)
  | tuple (fields : List Node)
  | getItem (whole : Node) (index : Nat)
  | letIn (var value body : Node)
  | onDevice (body : Node)
  -- A function, an operator or a global variable.
  | function
  | branch

namespace View

variable {Node : Type}

def parts : View Node → List Node
  | .letVar value => [value]
  | .call _ args => args
  | .tuple fields => fields
  | .getItem whole _ => [whole]
  | .letIn _ value body => [value, body]
  | .onDevice body => [body]
  | .param | .constant | .function | .branch => []

-- What is evaluated before the node. A bound variable was evaluated by its `let`.
def children : View Node → List Node
  | .letVar _ => []
  | view => view.parts

def isCall : View Node → Bool
  | .call _ _ => true
  | _ => false

def isPinned : View Node → Bool
  | .param | .constant => true
  | _ => false

def isMaker (view : View Node) : Bool :=
  view.isCall || view.isPinned

def args : View Node → List Node
  | .call _ args => args
  | _ => []

end View

abbrev Value (Node : Type) := Node × Nat

structure Graph (Node : Type) where
  view : Node → View Node
  checkedType : Node → Ty
  virtualDevice : Node → VirtualDevice
  isPrimitive : Bool
  params : List Node
  body : Node
  rank : Node → Nat
  acyclic : ∀ n, ∀ m ∈ (view n).parts, rank m < rank n
  onDevice_type : ∀ {n body}, view n = .onDevice body → checkedType n = checkedType body
  params_view : ∀ p ∈ params, view p = .param
  letIn_view : ∀ {n var value body}, view n = .letIn var value body → view var = .letVar value

namespace Graph

variable {Node : Type} (graph : Graph Node)

def isSource (n : Node) : Bool :=
  (graph.view n).isMaker && !(graph.checkedType n).isFunc

theorem isSource_of_not_isMaker {n : Node} (inner : (graph.view n).isMaker = false) :
    graph.isSource n = false := by
  simp [isSource, inner]

def ownValues (n : Node) : List (Value Node) :=
  (List.range (graph.checkedType n).tensors.length).map fun i => (n, i)

def tensorType (v : Value Node) : TensorType :=
  ((graph.checkedType v.1).tensors[v.2]?).getD ⟨[], ⟨0, 0, 0⟩⟩

def field (type : Ty) (index : Nat) (values : List (Value Node)) : List (Value Node) :=
  (values.drop ((type.fields.take index).flatMap Ty.tensors).length).take
    (((type.fields[index]?).map Ty.tensors).getD []).length

def leavesStep (leaves : Node → List (Value Node)) (n : Node) : List (Value Node) :=
  if (graph.checkedType n).isFunc then []
  else
    match graph.view n with
    | .param | .constant | .call _ _ => graph.ownValues n
    | .letVar value => leaves value
    | .tuple fields => fields.flatMap leaves
    | .getItem whole index => field (graph.checkedType whole) index (leaves whole)
    | .letIn _ _ body => leaves body
    | .onDevice body => leaves body
    | .function | .branch => []

def leaves : Node → List (Value Node) :=
  Ranked.value graph.leavesStep [] graph.rank

theorem leaves_of_isFunc {n : Node} (func : (graph.checkedType n).isFunc = true) : graph.leaves n = [] := by
  rw [leaves, Ranked.value, Ranked.upTo, leavesStep, if_pos func]

theorem leaves_eq (n : Node) : graph.leaves n = graph.leavesStep graph.leaves n := by
  refine Ranked.value_eq (fun {f f' n} same => ?_) graph.acyclic n
  unfold leavesStep
  cases view : graph.view n with
  | tuple fields =>
    rw [view] at same
    have each : fields.flatMap f = fields.flatMap f' := List.flatMap_congr same
    simp [each]
  | _ => simp_all [View.parts]

theorem leaves_of_isSource {n : Node} (source : graph.isSource n = true) :
    graph.leaves n = graph.ownValues n := by
  rw [isSource, Bool.and_eq_true, Bool.not_eq_true'] at source
  obtain ⟨makes, typed⟩ := source
  rw [leaves_eq, leavesStep, typed]
  cases view : graph.view n <;> simp_all [View.isMaker, View.isCall, View.isPinned]

def ignoreOnDevice (n : Node) : Node :=
  match graph.view n with
  | .onDevice body => body
  | _ => n

theorem leaves_ignoreOnDevice (n : Node) : graph.leaves (graph.ignoreOnDevice n) = graph.leaves n := by
  unfold ignoreOnDevice
  split
  next body view =>
    rw [graph.leaves_eq n, leavesStep, view, graph.onDevice_type view]
    split
    next func => exact graph.leaves_of_isFunc func
    · rfl
  · rfl

def argLeaves (n : Node) : List (Value Node) :=
  (graph.view n).args.flatMap graph.leaves

section

variable [DecidableEq Node]

def walkAll (walk : Node → List Node → List Node × List Node) :
    List Node → List Node → List Node × List Node
  | [], visited => (visited, [])
  | child :: rest, visited =>
    let first := walk child visited
    let later := walkAll walk rest first.1
    (later.1, first.2 ++ later.2)

def walk : Nat → Node → List Node → List Node × List Node
  | 0, _, visited => (visited, [])
  | fuel + 1, n, visited =>
    if n ∈ visited then (visited, [])
    else
      let below := walkAll (walk fuel) (graph.view n).children visited
      (n :: below.1, if (graph.view n).isCall then below.2 ++ [n] else below.2)

theorem walk_of_mem {fuel : Nat} {n : Node} {visited : List Node} (here : n ∈ visited) :
    graph.walk fuel n visited = (visited, []) := by
  cases fuel with
  | zero => rfl
  | succ fuel => rw [walk, if_pos here]

def executionOrder : List Node :=
  (graph.walk (graph.rank graph.body + 1) graph.body []).2

structure Walked (bound : Nat) (visited : List Node) (walked : List Node × List Node) : Prop where
  grows : ∀ n ∈ visited, n ∈ walked.1
  seen : ∀ c ∈ walked.2, c ∈ walked.1
  new : ∀ c ∈ walked.2, c ∉ visited
  below : ∀ c ∈ walked.2, graph.rank c < bound
  nodup : walked.2.Nodup

omit [DecidableEq Node] in
theorem walkAll_walked {walk : Node → List Node → List Node × List Node} {bound : Nat}
    {nodes : List Node} (each : ∀ n ∈ nodes, ∀ visited, graph.Walked bound visited (walk n visited))
    (visited : List Node) : graph.Walked bound visited (walkAll walk nodes visited) := by
  induction nodes generalizing visited with
  | nil => exact ⟨fun _ => id, by simp [walkAll], by simp [walkAll], by simp [walkAll], by simp [walkAll]⟩
  | cons n rest ih =>
    have first := each n List.mem_cons_self visited
    have later := ih (fun m member => each m (List.mem_cons_of_mem _ member)) (walk n visited).1
    constructor
    case grows => exact fun m member => later.grows m (first.grows m member)
    case seen =>
      intro c member
      rcases List.mem_append.1 member with early | late
      · exact later.grows c (first.seen c early)
      · exact later.seen c late
    case new =>
      intro c member old
      rcases List.mem_append.1 member with early | late
      · exact first.new c early old
      · exact later.new c late (first.grows c old)
    case below =>
      intro c member
      rcases List.mem_append.1 member with early | late
      · exact first.below c early
      · exact later.below c late
    case nodup =>
      refine List.nodup_append.2 ⟨first.nodup, later.nodup, ?_⟩
      rintro c early _ late rfl
      exact later.new c late (first.seen c early)

theorem walk_walked (fuel : Nat) (n : Node) (visited : List Node) :
    graph.Walked (graph.rank n + 1) visited (graph.walk fuel n visited) := by
  induction fuel generalizing n visited with
  | zero => exact ⟨fun _ => id, by simp [walk], by simp [walk], by simp [walk], by simp [walk]⟩
  | succ fuel ih =>
    unfold walk
    split
    · exact ⟨fun _ => id, by simp, by simp, by simp, by simp⟩
    next new =>
      have each : ∀ m ∈ (graph.view n).children, ∀ visited,
          graph.Walked (graph.rank n) visited (graph.walk fuel m visited) := by
        intro m member visited
        have part : m ∈ (graph.view n).parts := by
          cases view : graph.view n <;> simp_all [View.children]
        have small := graph.acyclic n m part
        have walked := ih m visited
        exact { walked with below := fun c inside => Nat.lt_of_lt_of_le (walked.below c inside) small }
      have below := graph.walkAll_walked each visited
      have other : ∀ c ∈ (walkAll (graph.walk fuel) (graph.view n).children visited).2, c ≠ n := by
        rintro c member rfl
        exact Nat.lt_irrefl _ (below.below c member)
      split
      · constructor
        case grows => exact fun m member => List.mem_cons_of_mem _ (below.grows m member)
        case seen =>
          intro c member
          rcases List.mem_append.1 member with early | last
          · exact List.mem_cons_of_mem _ (below.seen c early)
          · exact List.mem_cons.2 (Or.inl (List.mem_singleton.1 last))
        case new =>
          intro c member
          rcases List.mem_append.1 member with early | last
          · exact below.new c early
          · rwa [List.mem_singleton.1 last]
        case below =>
          intro c member
          rcases List.mem_append.1 member with early | last
          · exact Nat.lt_succ_of_lt (below.below c early)
          · rw [List.mem_singleton.1 last]
            exact Nat.lt_succ_self _
        case nodup =>
          refine List.nodup_append.2 ⟨below.nodup, by simp, ?_⟩
          intro c early m last
          rw [List.mem_singleton.1 last]
          exact other c early
      · exact ⟨fun m member => List.mem_cons_of_mem _ (below.grows m member),
          fun c member => List.mem_cons_of_mem _ (below.seen c member), below.new,
          fun c member => Nat.lt_succ_of_lt (below.below c member), below.nodup⟩

theorem executionOrder_nodup : graph.executionOrder.Nodup :=
  (graph.walk_walked _ _ _).nodup

end

-- From the call that produces the tensor to the last call that reads it. Tensors of the result are live
-- to the end, parameters and constants all the time.
def LiveAt (order : List Node) (v : Value Node) (k : Nat) : Prop :=
  (graph.view v.1).isPinned = true ∨
    ∃ j, j ≤ k ∧ order[j]? = some v.1 ∧
      (j = k ∨ v ∈ graph.leaves graph.body ∨
        ∃ m c, k ≤ m ∧ order[m]? = some c ∧ v ∈ graph.argLeaves c)

def Flat : Prop :=
  ∀ n whole index, graph.view n = .getItem whole index →
    (((graph.checkedType whole).fields.take index).flatMap Ty.tensors).length = index ∧
      (((graph.checkedType whole).fields[index]?).map Ty.tensors |>.getD []).length = 1

def Reshapes (v u : Value Node) : Prop :=
  ∃ count args, graph.view v.1 = .call (some count) args ∧ (graph.argLeaves v.1).head? = some u

def Aliases : Value Node → Value Node → Prop :=
  Relation.EqvGen graph.Reshapes

end Graph

end Tlm.Relay
