import Tlm.Relay.PlanSafe

set_option autoImplicit false

namespace Tlm.Relay

open Cpp Traced Visitor

theorem dimension_ensures {fine : Event → Prop} (size : Nat) (dim : Option Int) :
    Ensures fine (dimension size dim) fun next => next = size * (dim.getD 0).toNat % 2 ^ 64 := by
  cases dim with
  | none => exact ensures_fail
  | some value =>
    unfold dimension
    dsimp only
    split
    · exact ensures_pure rfl
    · exact ensures_fail

theorem dimensions_ensures {fine : Event → Prop} (shape : List (Option Int)) (size : Nat) :
    Ensures fine (shape.foldlM dimension size) fun total =>
      total % 2 ^ 64 = size * (shape.map fun dim => (dim.getD 0).toNat).prod % 2 ^ 64 := by
  induction shape generalizing size with
  | nil => exact ensures_pure (by simp)
  | cons dim rest ih =>
    refine ensures_bind (dimension_ensures size dim) fun next step => ?_
    refine (ih next).mono fun total product => ?_
    rw [product, step, Nat.mod_mul_mod, List.map_cons, List.prod_cons, Nat.mul_assoc]

theorem getMemorySize_ensures {fine : Event → Prop} (type : TensorType) :
    Ensures fine (getMemorySize type) fun size => size = type.bytes % 2 ^ 64 := by
  refine ensures_bind (dimensions_ensures type.shape 1) fun size product => ensures_pure ?_
  rw [← Nat.mod_mul_mod, product, Nat.one_mul, Nat.mod_mul_mod]
  rfl

structure Sized {Node : Type} (graph : Graph Node) : Prop where
  flat : ∀ n, (graph.virtualDevice n).memoryScope = .flat
  bounded : ∀ v, (graph.tensorType v).bytes < 2 ^ 64
  reshape : ∀ v u, graph.Reshapes v u → (graph.tensorType v).bytes ≤ (graph.tensorType u).bytes

variable {Node : Type} [DecidableEq Node] {graph : Graph Node}

def Fits (graph : Graph Node) (v t : Value Node) : Prop :=
  (graph.tensorType v).bytes ≤ (graph.tensorType t).bytes

section

variable (sized : Sized graph)

include sized

omit [DecidableEq Node] in
theorem Sized.is2DStorage (v : Value Node) : is2DStorage graph v = false := by
  simp [Relay.is2DStorage, sized.flat, MemoryScope.is2DStorage]

theorem request1D_fits (a : TokenAllocator Node) (v : Value Node) :
    Ensures Event.Fits (a.request1D graph v) fun r => ∀ t, r.1 = some t → Fits graph v t := by
  refine ensures_bind (getMemorySize_ensures _) fun size exact => ?_
  refine ensures_bind (fun _ _ _ => trivial) fun found _ => ?_
  split
  · exact ensures_pure (by simp)
  next entry _ =>
    dsimp only
    split
    · exact ensures_fail
    · refine ensures_bind (ensures_emit ?_)
        fun _ (fits : size ≤ (graph.tensorType entry.2).bytes % 2 ^ 64) => ensures_pure ?_
      · exact id
      · rintro t ⟨⟩
        rwa [exact, Nat.mod_eq_of_lt (sized.bounded v), Nat.mod_eq_of_lt (sized.bounded _)] at fits

theorem alloc_fits {fine : Event → Prop} (a : TokenAllocator Node) (v : Value Node) :
    Ensures fine (a.alloc graph v) fun r => r.1 = v := by
  unfold TokenAllocator.alloc
  simp only [sized.is2DStorage]
  exact ensures_bind (fun _ _ _ => trivial) fun _ _ => ensures_pure rfl

theorem request_fits (a : TokenAllocator Node) (order : List Nat → List Nat) (v : Value Node) :
    Ensures Event.Fits (a.request graph order v) fun r => Fits graph v r.1 := by
  unfold TokenAllocator.request
  simp only [sized.is2DStorage]
  refine ensures_bind (request1D_fits sized a v) fun ⟨found, next⟩ fits => ?_
  dsimp only at fits ⊢
  split
  next t => exact ensures_pure (fits t rfl)
  · refine (alloc_fits sized next v).mono fun r same => ?_
    rw [same]
    exact Nat.le_refl _

theorem requestAll_fits (order : List Nat → List Nat) (values : List (Value Node)) (a : TokenAllocator Node) :
    Ensures Event.Fits (StorageAllocator.requestAll graph order values a) fun r =>
      List.Forall₂ (Fits graph) values r.1 := by
  induction values generalizing a with
  | nil => exact ensures_pure .nil
  | cons v rest ih =>
    refine ensures_bind (request_fits sized a order v) fun ⟨t, a₁⟩ fits => ?_
    exact ensures_bind (ih a₁) fun ⟨later, a₂⟩ all => ensures_pure (.cons fits all)

theorem allocAll_fits (values : List (Value Node)) (a : TokenAllocator Node) :
    Ensures Event.Fits (StorageAllocator.allocAll graph values a) fun r => List.Forall₂ (Fits graph) values r.1 := by
  induction values generalizing a with
  | nil => exact ensures_pure .nil
  | cons v rest ih =>
    refine ensures_bind (alloc_fits sized a v) fun ⟨t, a₁⟩ same => ?_
    refine ensures_bind (ih _) fun ⟨later, a₂⟩ all => ensures_pure (.cons ?_ all)
    rw [show t = v from same]
    exact Nat.le_refl _

end

structure Roomy (graph : Graph Node) (_ : Unit) (_ : List Node)
    (s : Visitor Node (TokenAllocator Node)) : Prop where
  faithful : s.Faithful graph
  fits : ∀ v t, s.owner graph v = some t → Fits graph v t

variable {past : List Node} {n : Node} {s : Visitor Node (TokenAllocator Node)}
  {prototypes : TokenMap Node} {order : List Nat → List Nat}

theorem Roomy.create (roomy : Roomy graph () past s) (fresh : s.tokenMap.lookup n = none)
    (source : graph.isSource n = true) {tokens : List (Value Node)}
    (all : List.Forall₂ (Fits graph) (graph.ownValues n) tokens) (a : TokenAllocator Node) :
    Roomy graph () past { s.assign n tokens with inner := a } := by
  refine ⟨roomy.faithful.create fresh source all.length_eq.symm, fun v t owned => ?_⟩
  have owned' : (s.assign n tokens).owner graph v = some t := owned
  rw [create_owner source] at owned'
  split at owned'
  next made =>
    obtain ⟨bound, here⟩ := List.getElem?_eq_some_iff.1 owned'
    have fits := all.get (all.length_eq ▸ bound) bound
    simpa [Graph.ownValues, here, ← made] using fits
  · exact roomy.fits v t owned'

def Grown (graph : Graph Node) (past : List Node) (s s' : Visitor Node (TokenAllocator Node)) : Prop :=
  s'.visited = s.visited ∧ s.Extends graph s' ∧ Roomy graph () past s'

section

variable (sized : Sized graph) (known : Prototypes graph prototypes) (roomy : Roomy graph () past s)

include known roomy

include sized in
theorem createToken_fits (makes : (graph.view n).isMaker = true) (canRealloc : Bool) :
    Ensures Event.Fits (StorageAllocator.createToken graph prototypes order n canRealloc s)
      (Grown graph past s) := by
  unfold StorageAllocator.createToken
  split
  · exact ensures_fail
  next absent =>
    split
    · exact ensures_fail
    next protos found =>
      have fresh : s.tokenMap.lookup n = none := by simpa using absent
      obtain ⟨source, rfl⟩ := known n protos found makes
      have tokens (tokens : List (Value Node)) (a : TokenAllocator Node)
          (all : List.Forall₂ (Fits graph) (graph.ownValues n) tokens) :
          Grown graph past s { s.assign n tokens with inner := a } :=
        ⟨rfl, extends_create fresh, roomy.create fresh source all a⟩
      split
      · exact ensures_bind (requestAll_fits sized order _ _) fun r all =>
          ensures_pure (tokens r.1 r.2 all)
      · exact ensures_bind (allocAll_fits sized _ _) fun r all => ensures_pure (tokens r.1 r.2 all)

theorem reuseInputToken_fits {fine : Event → Prop} (makes : (graph.view n).isMaker = true)
    {t : Value Node} (fits : ∀ i, Fits graph (n, i) t) :
    Ensures fine (StorageAllocator.reuseInputToken prototypes n t s) (Grown graph past s) := by
  unfold StorageAllocator.reuseInputToken
  split
  · exact ensures_fail
  next absent =>
    split
    next proto found =>
      have fresh : s.tokenMap.lookup n = none := by simpa using absent
      obtain ⟨source, single⟩ := known n [proto] found makes
      have made : proto.1 = n := fst_of_mem_ownValues (single ▸ List.mem_singleton_self _)
      refine ensures_pure ⟨rfl, extends_create fresh, roomy.create fresh source ?_ _⟩
      rw [← single]
      refine .cons ?_ .nil
      rw [← made] at fits
      exact fits proto.2
    · exact ensures_fail

include sized in
theorem createOutput_fits {reshape : Option Nat} {args : List Node}
    (view : graph.view n = .call reshape args) {tokens : List (Value Node)}
    (denotes : s.Denotes graph (graph.argLeaves n) tokens) :
    Ensures Event.Fits (StorageAllocator.createOutput graph prototypes order n reshape tokens s)
      (Grown graph past s) := by
  have makes : (graph.view n).isMaker = true := by rw [view]; rfl
  unfold StorageAllocator.createOutput
  split
  · exact createToken_fits sized known roomy makes true
  next count =>
    split
    · exact ensures_fail
    · split
      · exact ensures_fail
      next t rest =>
        obtain ⟨u, input, owned⟩ := denotes.get (i := 0) rfl
        refine reuseInputToken_fits known roomy makes fun i => ?_
        have reshapes : graph.Reshapes (n, i) u :=
          ⟨count, args, view, List.head?_eq_getElem?.trans input⟩
        exact (sized.reshape (n, i) u reshapes).trans (roomy.fits u t owned)

end

theorem hooks_roomy (sized : Sized graph) (known : Prototypes graph prototypes) (calls : List Node) :
    Keeps Event.Fits calls (Roomy graph) graph (StorageAllocator.hooks graph prototypes order) where
  faithful roomy := roomy.faithful
  assign {_ _ s n tokens} roomy inner denotes := by
    have same : (s.assign n tokens).owner graph = s.owner graph :=
      assign_owner (graph.isSource_of_not_isMaker inner)
    refine ⟨roomy.faithful.assign (graph.isSource_of_not_isMaker inner) denotes, ?_⟩
    rw [same]
    exact roomy.fits
  mark roomy := ⟨roomy.faithful, roomy.fits⟩
  pinned pin roomy := createToken_fits sized known roomy (by simp [View.isMaker, pin]) false
  call {_ past s n reshape args get walk} fetches view roomy closed ahead := by
    rw [← List.append_assoc] at ahead
    have reads : graph.argLeaves n = args.flatMap graph.leaves := by
      rw [Graph.argLeaves, view, View.args]
    refine ensures_bind (getTokens_ensures _ _ fetches roomy closed ((List.prefix_append _ _).trans ahead)) ?_
    rintro ⟨tokens, s₁⟩ ⟨arrived, roomy₁, denotes⟩
    rw [← reads] at denotes
    refine ensures_bind (createOutput_fits sized known roomy₁ view denotes) ?_
    rintro s₂ ⟨visited, ext, roomy₂⟩
    refine ensures_bind (fun _ _ _ => trivial) fun _ _ => ?_
    refine ensures_bind (fun _ _ _ => trivial) fun a _ => ensures_pure ?_
    refine ⟨⟨visited.trans arrived.visited, arrived.ext.trans ext, ?_⟩, roomy₂.faithful, roomy₂.fits⟩
    rw [show s₂.visited = s₁.visited from visited]
    exact arrived.closed

def reportedSizes (infos : List (Node × StorageInfo)) (id : Nat) : List Nat :=
  infos.flatMap fun entry =>
    ((entry.2.storageIds.zip entry.2.storageSizesInBytes).filter fun pair => pair.1 = some id).map
      Prod.snd

def largestSize (infos : List (Node × StorageInfo)) (id : Nat) : Nat :=
  (reportedSizes infos id).foldr max 0

omit [DecidableEq Node] in
theorem le_largestSize {infos : List (Node × StorageInfo)} {id size : Nat}
    (member : size ∈ reportedSizes infos id) : size ≤ largestSize infos id := by
  unfold largestSize
  generalize reportedSizes infos id = sizes at member
  induction sizes with
  | nil => cases member
  | cons head rest ih =>
    rcases List.mem_cons.1 member with rfl | later
    · exact Nat.le_max_left _ _
    · exact (ih later).trans (Nat.le_max_right _ _)

theorem Reports.size {s : Visitor Node (TokenAllocator Node)} (sized : Sized graph)
    {tokens : List (Value Node)} {info : StorageInfo} {v : Value Node}
    (reports : Reports graph s v.1 tokens info) (source : graph.isSource v.1 = true) {id : Nat}
    (stored : info.storageIds[v.2]? = some (some id)) :
    ∃ t, s.owner graph v = some t ∧
      (some id, (graph.tensorType t).bytes) ∈ info.storageIds.zip info.storageSizesInBytes := by
  obtain ⟨t, here, owned, storage⟩ := reports.owner source stored
  refine ⟨t, owned, ?_⟩
  obtain ⟨bound, same⟩ := List.getElem?_eq_some_iff.1 here
  have within : v.2 < info.storageSizesInBytes.length := reports.sizes.length_eq ▸ bound
  have size := reports.sizes.get bound within
  rw [List.get_eq_getElem, List.get_eq_getElem, same, StorageAllocator.reportedSize, sized.is2DStorage] at size
  have exact := (getMemorySize_ensures _).holds size
  rw [Nat.mod_eq_of_lt (sized.bounded t)] at exact
  refine List.mem_iff_getElem.2 ⟨v.2, ?_, ?_⟩
  · rw [List.length_zip, reports.ids, List.length_map]
    exact Nat.lt_min.2 ⟨bound, within⟩
  · rw [List.getElem_zip, exact]
    simp [reports.ids, same, storage]

theorem roomy_initial (refs : RefCounts Node) : Roomy graph () [] ⟨[], ∅, StorageAllocator.initial refs⟩ := by
  constructor
  · intro n tokens found
    cases found
  · intro v t owned
    simp [Visitor.owner] at owned

theorem plan_sizes (flat : graph.Flat) (sized : Sized graph)
    (enough : ∀ step ∈ (StorageAllocator.plan graph order).log, step.Fits) {infos : List (Node × StorageInfo)}
    (planned : (StorageAllocator.plan graph order).result = .ok infos) {v : Value Node}
    (source : graph.isSource v.1 = true) {id : Nat} (stored : HasStorage infos v id) :
    (graph.tensorType v).bytes ≤ largestSize infos id := by
  have run : Ensures Event.Fits (StorageAllocator.plan graph order) _ :=
    plan_ensures flat (fun _ prototypes => hooks_roomy sized prototypes _) fun refs _ =>
      roomy_initial refs
  rcases run enough infos planned with rfl | ⟨s, a, roomy, -, reports⟩
  · obtain ⟨_, member, _⟩ := stored
    cases member
  · obtain ⟨⟨_, info⟩, member, rfl, here⟩ := stored
    obtain ⟨tokens, report⟩ := reports v.1 info member
    obtain ⟨t, owned, pair⟩ := report.size sized source here
    have reported : (graph.tensorType t).bytes ∈ reportedSizes infos id := by
      refine List.mem_flatMap.2 ⟨_, member, List.mem_map.2 ⟨_, List.mem_filter.2 ⟨pair, ?_⟩, rfl⟩⟩
      simp
    exact (roomy.fits v t owned).trans (le_largestSize reported)

def chain (first second third : Int) : Graph (Fin 4) where
  view
    | 0 => .param
    | 1 => .call none [0]
    | 2 => .call none [1]
    | 3 => .call none [2]
  checkedType
    | 0 => vector 4
    | 1 => vector first
    | 2 => vector second
    | 3 => vector third
  virtualDevice _ := host
  isPrimitive := false
  params := [0]
  body := 3
  rank := Fin.val
  acyclic := by decide
  onDevice_type {n body} view := by split at view <;> cases view
  params_view := by simp
  letIn_view {n var value body} view := by split at view <;> cases view

theorem chain_flat (first second third : Int) : (chain first second third).Flat := by
  intro n whole index view
  simp only [chain] at view
  split at view <;> cases view

theorem shrinking_sized : Sized (chain 8 4 4) where
  flat _ := rfl
  bounded := by
    rintro ⟨n, i⟩
    match n, i with
    | 0, 0 | 1, 0 | 2, 0 | 3, 0 => decide
    | 0, i + 1 | 1, i + 1 | 2, i + 1 | 3, i + 1 =>
      simp [Graph.tensorType, chain, vector, Ty.tensors, flattenTupleType, TensorType.bytes, divRoundUp]
  reshape := by
    rintro v u ⟨count, args, view, -⟩
    simp only [chain] at view
    split at view <;> cases view

def shrinkingPlan : List (Fin 4 × StorageInfo) :=
  [(3, ⟨[some 1], [host], [32]⟩), (2, ⟨[some 2], [host], [16]⟩), (1, ⟨[some 1], [host], [32]⟩),
    (0, ⟨[some 0], [host], [16]⟩)]

theorem shrinking_sizes : (StorageAllocator.plan (chain 8 4 4) id).result = .ok shrinkingPlan ∧
    (StorageAllocator.plan (chain 8 4 4) id).log = [.reused 16 32] ∧ HasStorage shrinkingPlan (3, 0) 1 ∧
    ((chain 8 4 4).tensorType (3, 0)).bytes ≤ largestSize shrinkingPlan 1 := by
  have planned : (StorageAllocator.plan (chain 8 4 4) id).result = .ok shrinkingPlan := by
    decide +kernel
  have steps : (StorageAllocator.plan (chain 8 4 4) id).log = [.reused 16 32] := by decide +kernel
  have stored : HasStorage shrinkingPlan (3, 0) 1 := by decide
  exact ⟨planned, steps, stored,
    plan_sizes (chain_flat _ _ _) shrinking_sized (by rw [steps]; decide) planned rfl stored⟩

def growingPlan : List (Fin 4 × StorageInfo) :=
  [(3, ⟨[some 1], [host], [16]⟩), (2, ⟨[some 2], [host], [16]⟩), (1, ⟨[some 1], [host], [16]⟩),
    (0, ⟨[some 0], [host], [16]⟩)]

-- The result has 32 bytes and is put where f(x) was, but 16 bytes are reported.
theorem growing_short : (StorageAllocator.plan (chain 4 4 8) id).result = .ok growingPlan ∧
    (chain 4 4 8).isSource 3 = true ∧ HasStorage growingPlan (3, 0) 1 ∧
    ((chain 4 4 8).tensorType (3, 0)).bytes = 32 ∧ largestSize growingPlan 1 = 16 := by
  refine ⟨by decide +kernel, rfl, by decide, by decide, by decide⟩

end Tlm.Relay
