import Tlm.Relay.TokenAllocator

set_option autoImplicit false

namespace Tlm.Relay

open Cpp

abbrev TokenMap (Node : Type) := AList fun _ : Node => List (Value Node)

-- The fields of `StorageAllocaBaseVisitor` and, behind them, those of the class that extends it.
structure Visitor (Node σ : Type) where
  visited : List Node
  tokenMap : TokenMap Node
  inner : σ

abbrev GetToken (Node σ : Type) :=
  Node → Visitor Node σ → Planning (List (Value Node) × Visitor Node σ)

structure Hooks (Node σ : Type) where
  createToken : Node → Bool → Visitor Node σ → Planning (Visitor Node σ)
  visitCall : GetToken Node σ → Node → Option Nat → List Node → Visitor Node σ →
    Planning (Visitor Node σ)
  addRef : σ → Value Node → σ

section

variable {Node σ : Type} [DecidableEq Node] (graph : Graph Node)

def Visitor.assign (s : Visitor Node σ) (n : Node) (tokens : List (Value Node)) : Visitor Node σ :=
  { s with tokenMap := s.tokenMap.insert n tokens }

def getToken (visit : Node → Visitor Node σ → Planning (Visitor Node σ)) : GetToken Node σ
  | n, s => do
    let s ← visit n s
    let real := graph.ignoreOnDevice n
    -- Functions need no storage.
    if (graph.checkedType real).isFunc then return ([], s)
    else
      let s ← visit real s
      match s.tokenMap.lookup real with
      | some tokens => return (tokens, s)
      | none => Traced.fail .check

def getTokens (get : GetToken Node σ) :
    List Node → Visitor Node σ → Planning (List (Value Node) × Visitor Node σ)
  | [], s => return ([], s)
  | n :: rest, s => do
    let (tokens, s) ← get n s
    let (later, s) ← getTokens get rest s
    return (tokens ++ later, s)

variable (hooks : Hooks Node σ)

def visitNode (visit : Node → Visitor Node σ → Planning (Visitor Node σ)) (n : Node)
    (s : Visitor Node σ) : Planning (Visitor Node σ) :=
  match graph.view n with
  | .param | .letVar _ | .function => return s
  | .constant => hooks.createToken n false s
  | .call reshape args => hooks.visitCall (getToken graph visit) n reshape args s
  | .tuple fields => do
    let (tokens, s) ← getTokens (getToken graph visit) fields s
    return s.assign n tokens
  | .getItem whole index => do
    let (tokens, s) ← getToken graph visit whole s
    match tokens[index]? with
    | some token => return s.assign n [token]
    | none => Traced.fail .check
  | .letIn var value body => do
    let (tokens, s) ← getToken graph visit value s
    let s ← visit body (s.assign var tokens)
    let (tokens, s) ← getToken graph visit body s
    return s.assign n tokens
  | .onDevice body => visit body s
  | .branch => Traced.fail .check

def visit : Nat → Node → Visitor Node σ → Planning (Visitor Node σ)
  | 0, _, _ => Traced.fail .undefined
  | fuel + 1, n, s =>
    if n ∈ s.visited then return s
    else do
      let s ← visitNode graph hooks (visit fuel) n s
      return { s with visited := n :: s.visited }

def run (start : σ) : Planning (Visitor Node σ) := do
  let s : Visitor Node σ := ⟨[], ∅, start⟩
  if graph.isPrimitive then return s
  else
    let s ← graph.params.foldlM (fun s param => hooks.createToken param false s) s
    let (tokens, s) ← getToken graph (visit graph hooks (graph.rank graph.body + 1)) graph.body s
    return { s with inner := tokens.foldl hooks.addRef s.inner }

end

section

variable {Node : Type} [DecidableEq Node] (graph : Graph Node)

abbrev RefCounts (Node : Type) := Value Node → Int

def RefCounts.add (refs : RefCounts Node) (v : Value Node) : RefCounts Node :=
  Function.update refs v (refs v + 1)

namespace StorageAllocaInit

def createToken (n : Node) (s : Visitor Node (RefCounts Node)) :
    Planning (Visitor Node (RefCounts Node)) :=
  if (s.tokenMap.lookup n).isSome then Traced.fail .check
  else if (flattenTupleType (graph.checkedType n)).isNone then Traced.fail .check
  else return s.assign n (graph.ownValues n)

def visitCall (get : GetToken Node (RefCounts Node)) (n : Node) (args : List Node)
    (s : Visitor Node (RefCounts Node)) : Planning (Visitor Node (RefCounts Node)) := do
  let s ← createToken graph n s
  args.foldlM (fun s arg => do
    let (tokens, s) ← get arg s
    return { s with inner := tokens.foldl RefCounts.add s.inner }) s

def hooks : Hooks Node (RefCounts Node) where
  createToken n _ := createToken graph n
  visitCall get n _ := visitCall graph get n
  addRef := RefCounts.add

end StorageAllocaInit

end

structure StorageInfo where
  storageIds : List (Option Nat)
  virtualDevices : List VirtualDevice
  storageSizesInBytes : List Nat
  deriving DecidableEq, Repr

section

variable {Node : Type} [DecidableEq Node] (graph : Graph Node)

namespace StorageAllocator

variable (prototypes : TokenMap Node) (order : List Nat → List Nat)

def requestAll : List (Value Node) → TokenAllocator Node →
    Planning (List (Value Node) × TokenAllocator Node)
  | [], a => return ([], a)
  | v :: rest, a => do
    let (token, a) ← a.request graph order v
    let (later, a) ← requestAll rest a
    return (token :: later, a)

-- The tokens get one more reference, so they are never released.
def allocAll : List (Value Node) → TokenAllocator Node →
    Planning (List (Value Node) × TokenAllocator Node)
  | [], a => return ([], a)
  | v :: rest, a => do
    let (token, a) ← a.alloc graph v
    let (later, a) ← allocAll rest (a.addRef token 1)
    return (token :: later, a)

def createToken (n : Node) (canRealloc : Bool) (s : Visitor Node (TokenAllocator Node)) :
    Planning (Visitor Node (TokenAllocator Node)) :=
  if (s.tokenMap.lookup n).isSome then Traced.fail .check
  else
    match prototypes.lookup n with
    | none => Traced.fail .check
    | some protos => do
      let (tokens, a) ← if canRealloc then requestAll graph order protos s.inner
        else allocAll graph protos s.inner
      return { s.assign n tokens with inner := a }

def reuseInputToken (n : Node) (inputToken : Value Node) (s : Visitor Node (TokenAllocator Node)) :
    Planning (Visitor Node (TokenAllocator Node)) :=
  if (s.tokenMap.lookup n).isSome then Traced.fail .check
  else
    match prototypes.lookup n with
    | some [proto] =>
      return { s.assign n [inputToken] with
        inner := s.inner.addRef inputToken (s.inner.tokens proto).refCounter }
    | _ => Traced.fail .check

def createOutput (n : Node) (reshape : Option Nat) (args : List (Value Node))
    (s : Visitor Node (TokenAllocator Node)) : Planning (Visitor Node (TokenAllocator Node)) :=
  match reshape with
  | none => createToken graph prototypes order n true s
  | some count =>
    if count ≠ 1 then Traced.fail .check
    else
      match args with
      | [] => Traced.fail .undefined
      | inputToken :: _ => reuseInputToken prototypes n inputToken s

def consume (a : TokenAllocator Node) (token : Value Node) : Planning (TokenAllocator Node) :=
  (a.addRef token (-1)).checkForRelease graph token

def visitCall (get : GetToken Node (TokenAllocator Node)) (n : Node) (reshape : Option Nat)
    (args : List Node) (s : Visitor Node (TokenAllocator Node)) :
    Planning (Visitor Node (TokenAllocator Node)) := do
  let (tokens, s) ← getTokens get args s
  let s ← createOutput graph prototypes order n reshape tokens s
  let outputs := (s.tokenMap.lookup n).getD []
  -- An output that nothing reads is released at once.
  let a ← outputs.foldlM (TokenAllocator.checkForRelease graph) s.inner
  let a ← tokens.foldlM (consume graph) a
  return { s with inner := a }

def hooks : Hooks Node (TokenAllocator Node) where
  createToken := createToken graph prototypes order
  visitCall := visitCall graph prototypes order
  addRef a token := a.addRef token 1

def reportedSize (token : Value Node) : Planning Nat :=
  if is2DStorage graph token then return 0 else getMemorySize (graph.tensorType token)

def storageInfo (a : TokenAllocator Node) (tokens : List (Value Node)) : Planning StorageInfo := do
  let sizes ← tokens.mapM (reportedSize graph)
  return ⟨tokens.map fun t => (a.tokens t).storageId, tokens.map fun t => graph.virtualDevice t.1,
    sizes⟩

def initial (refs : RefCounts Node) : TokenAllocator Node where
  tokens v := ⟨refs v, 0, none⟩
  storageIds := 0
  free := []
  blocks := ∅
  freeList := []

def plan : Planning (List (Node × StorageInfo)) := do
  let counted ← run graph (StorageAllocaInit.hooks graph) fun _ => 0
  let s ← run graph (hooks graph counted.tokenMap order) (initial counted.inner)
  let infos ← s.tokenMap.entries.mapM fun entry => do
    return (entry.1, ← storageInfo graph s.inner entry.2)
  let devices := infos.flatMap fun info => info.2.virtualDevices
  let annotated := devices.countP fun device => !device.isFullyUnconstrained
  -- Either all or none of the nodes should be annotated.
  if annotated ≠ 0 ∧ annotated ≠ devices.length then Traced.fail .check else return infos

end StorageAllocator

end

end Tlm.Relay
