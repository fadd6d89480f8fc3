import Mathlib.Data.List.Flatten
import Tlm.Relay.StorageRequests

set_option autoImplicit false

namespace Tlm.Relay

open Cpp Traced Visitor

variable {Node : Type} [DecidableEq Node] {graph : Graph Node} {past : List Node} {n : Node}
  {s s' : Visitor Node (TokenAllocator Node)} {fine : Event → Prop}

def future (graph : Graph Node) (past : List Node) : List (Value Node) :=
  (graph.executionOrder.drop past.length).flatMap graph.argLeaves ++ graph.leaves graph.body

theorem count_future_le (past : List Node) (v : Value Node) :
    (future graph past).count v ≤ StorageAllocaInit.readers graph v := by
  have left := (List.drop_sublist past.length graph.executionOrder).flatMap graph.argLeaves
  exact (left.append_right _).count_le v

section

variable (ahead : past ++ [n] <+: graph.executionOrder)

include ahead

theorem now_of_ahead : graph.executionOrder[past.length]? = some n := by
  have here := List.prefix_iff_getElem?.1 ahead past.length (by simp)
  simpa using here

theorem future_eq : future graph past = graph.argLeaves n ++ future graph (past ++ [n]) := by
  obtain ⟨bound, same⟩ := List.getElem?_eq_some_iff.1 (now_of_ahead ahead)
  rw [future, future, List.drop_eq_getElem_cons bound, same, List.flatMap_cons, List.length_append,
    List.append_assoc]
  rfl

theorem moment_of_ahead (call : (graph.view n).isPinned = false) :
    Moment graph past n (future graph past) where
  done := (List.prefix_append _ _).trans ahead
  now := now_of_ahead ahead
  later k c after here w member := by
    refine List.mem_append_left _ (List.mem_flatMap.2 ⟨c, ?_, member⟩)
    have inside : (graph.executionOrder.drop past.length)[k - past.length]? = some c := by
      rw [List.getElem?_drop, Nat.add_sub_cancel' after, here]
    exact List.mem_of_getElem? inside
  results w member := List.mem_append_right _ member
  counted := count_future_le past
  call := call

end

omit [DecidableEq Node] in
theorem ownValues_nodup (graph : Graph Node) (n : Node) : (graph.ownValues n).Nodup :=
  List.nodup_range.map fun _ _ same => (Prod.mk.inj same).2

omit [DecidableEq Node] in
theorem fst_of_mem_ownValues {v : Value Node} (member : v ∈ graph.ownValues n) : v.1 = n := by
  obtain ⟨i, -, rfl⟩ := List.mem_map.1 member
  rfl

theorem owner_of_lookup_none (fresh : s.tokenMap.lookup n = none) {v : Value Node} (made : v.1 = n) :
    s.owner graph v = none := by
  subst made
  simp [Visitor.owner, fresh]

theorem attach_owner (fresh : s.tokenMap.lookup n = none) (source : graph.isSource n = true)
    {tokens : List (Value Node)} (each : tokens.length = (graph.ownValues n).length) :
    attach (s.owner graph) (graph.ownValues n) tokens = (s.assign n tokens).owner graph := by
  funext v
  rw [create_owner source]
  have size : (graph.ownValues n).length = (graph.checkedType n).tensors.length := by
    simp [Graph.ownValues]
  split
  next made =>
    by_cases inside : v.2 < (graph.checkedType n).tensors.length
    · have here : (graph.ownValues n)[v.2]? = some v := by
        rw [Graph.ownValues, List.getElem?_map, List.getElem?_range inside, ← made]
        rfl
      exact attach_of_getElem? (ownValues_nodup graph n) each here
    · have absent : v ∉ graph.ownValues n := by
        intro member
        obtain ⟨i, bound, rfl⟩ := List.mem_map.1 member
        exact inside (List.mem_range.1 bound)
      rw [attach_of_not_mem absent, owner_of_lookup_none fresh made, List.getElem?_eq_none (by omega)]
  next other =>
    exact attach_of_not_mem fun member => other (fst_of_mem_ownValues member)

structure Created (graph : Graph Node) (past : List Node) (n : Node) (held : List (Value Node))
    (s s' : Visitor Node (TokenAllocator Node)) : Prop where
  visited : s'.visited = s.visited
  ext : s.Extends graph s'
  faithful : s'.Faithful graph
  safe : Safe graph (s'.owner graph) past held (future graph past) s'.inner
  tokens : ∃ tokens, s'.tokenMap.lookup n = some tokens ∧ s'.Denotes graph (graph.ownValues n) tokens

theorem created {tokens held : List (Value Node)} {a : TokenAllocator Node}
    (faithful : s.Faithful graph) (fresh : s.tokenMap.lookup n = none)
    (source : graph.isSource n = true) (each : tokens.length = (graph.ownValues n).length)
    (safe : Safe graph (attach (s.owner graph) (graph.ownValues n) tokens) past held (future graph past) a) :
    Created graph past n held s { s.assign n tokens with inner := a } := by
  have typed : (graph.checkedType n).isFunc = false := by
    simpa using (Bool.and_eq_true_iff.1 source).2
  have known : (s.assign n tokens).tokenMap.lookup n = some tokens := by
    rw [Visitor.assign, AList.lookup_insert]
  have faithful' := faithful.create fresh source each
  refine ⟨rfl, extends_create fresh, faithful', ?_, tokens, known, ?_⟩
  · rw [attach_owner fresh source each] at safe
    exact safe
  · rw [← graph.leaves_of_isSource source]
    exact faithful' n tokens known typed

section

variable {prototypes : TokenMap Node} {order : List Nat → List Nat}

def Prototypes (graph : Graph Node) (prototypes : TokenMap Node) : Prop :=
  ∀ n tokens, prototypes.lookup n = some tokens → (graph.view n).isMaker = true →
    graph.isSource n = true ∧ tokens = graph.ownValues n

variable (known : Prototypes graph prototypes) (faithful : s.Faithful graph)
  (safe : Safe graph (s.owner graph) past [] (future graph past) s.inner)

include known faithful safe

theorem createPinned_ensures (pinned : (graph.view n).isPinned = true) :
    Ensures fine (StorageAllocator.createToken graph prototypes order n false s)
      (Created graph past n [] s) := by
  unfold StorageAllocator.createToken
  split
  · exact ensures_fail
  next absent =>
    split
    · exact ensures_fail
    next protos found =>
      have fresh : s.tokenMap.lookup n = none := by simpa using absent
      obtain ⟨source, rfl⟩ := known n protos found (by simp [View.isMaker, pinned])
      refine ensures_bind (allocAll_ensures (count_future_le past) (ownValues_nodup graph n)
        (fun v member => ?_) (fun v member => ?_) safe) ?_
      · rwa [fst_of_mem_ownValues member]
      · exact owner_of_lookup_none fresh (fst_of_mem_ownValues member)
      · rintro ⟨tokens, a⟩ ⟨each, safe'⟩
        exact ensures_pure (created faithful fresh source each safe')

theorem createCall_ensures (subset : ∀ ids, ∀ i ∈ order ids, i ∈ ids)
    (call : (graph.view n).isCall = true) (moment : Moment graph past n (future graph past)) :
    Ensures fine (StorageAllocator.createToken graph prototypes order n true s)
      (Created graph past n (graph.ownValues n) s) := by
  unfold StorageAllocator.createToken
  split
  · exact ensures_fail
  next absent =>
    split
    · exact ensures_fail
    next protos found =>
      have fresh : s.tokenMap.lookup n = none := by simpa using absent
      obtain ⟨source, rfl⟩ := known n protos found (by simp [View.isMaker, call])
      refine ensures_bind (requestAll_ensures moment subset (ownValues_nodup graph n)
        (fun v member => fst_of_mem_ownValues member) (fun v member => ?_) (by simp) safe) ?_
      · exact owner_of_lookup_none fresh (fst_of_mem_ownValues member)
      · rintro ⟨tokens, a⟩ ⟨each, safe'⟩
        exact ensures_pure (created faithful fresh source each safe')

theorem createReshape_ensures {count : Nat} {args : List Node}
    (view : graph.view n = .call (some count) args) (moment : Moment graph past n (future graph past))
    {u t : Value Node} (input : (graph.argLeaves n).head? = some u) (owned : s.owner graph u = some t) :
    Ensures fine (StorageAllocator.reuseInputToken prototypes n t s)
      (Created graph past n (graph.ownValues n) s) := by
  unfold StorageAllocator.reuseInputToken
  split
  · exact ensures_fail
  next absent =>
    split
    next proto found =>
      have fresh : s.tokenMap.lookup n = none := by simpa using absent
      obtain ⟨source, single⟩ := known n [proto] found (by simp [View.isMaker, View.isCall, view])
      have made : proto.1 = n := fst_of_mem_ownValues (single ▸ List.mem_singleton_self _)
      have read : u ∈ future graph past :=
        moment.later _ n (Nat.le_refl _) moment.now u (List.mem_of_head? input)
      have reshapes : graph.Reshapes proto u := by
        refine ⟨count, args, ?_, ?_⟩
        · rw [made, view]
        · rw [made, input]
      have safe' := safe.reshape moment (owner_of_lookup_none fresh made) made reshapes owned read
      refine ensures_pure (created faithful fresh source ?_ ?_)
      · rw [← single]
        rfl
      · rw [← single]
        exact safe'
    · exact ensures_fail

theorem createOutput_ensures (subset : ∀ ids, ∀ i ∈ order ids, i ∈ ids) {reshape : Option Nat}
    {args : List Node} (view : graph.view n = .call reshape args)
    (moment : Moment graph past n (future graph past)) {tokens : List (Value Node)}
    (denotes : s.Denotes graph (graph.argLeaves n) tokens) :
    Ensures fine (StorageAllocator.createOutput graph prototypes order n reshape tokens s)
      (Created graph past n (graph.ownValues n) s) := by
  unfold StorageAllocator.createOutput
  split
  · exact createCall_ensures known faithful safe subset (by rw [view]; rfl) moment
  next count =>
    split
    · exact ensures_fail
    · split
      · exact ensures_fail
      next t rest =>
        obtain ⟨u, input, owned⟩ := denotes.get (i := 0) rfl
        exact createReshape_ensures known faithful safe view moment (List.head?_eq_getElem?.trans input) owned

end

structure Planned (graph : Graph Node) (_ : Unit) (past : List Node)
    (s : Visitor Node (TokenAllocator Node)) : Prop where
  faithful : s.Faithful graph
  safe : Safe graph (s.owner graph) past [] (future graph past) s.inner

variable {prototypes : TokenMap Node} {order : List Nat → List Nat}

theorem Created.finish (created : Created graph past n (graph.ownValues n) s s')
    (ahead : past ++ [n] <+: graph.executionOrder) {tokens : List (Value Node)}
    (denotes : s.Denotes graph (graph.argLeaves n) tokens) :
    Ensures fine (((s'.tokenMap.lookup n).getD []).foldlM
      (TokenAllocator.checkForRelease graph) s'.inner >>= fun a =>
        tokens.foldlM (StorageAllocator.consume graph) a >>= fun a =>
          (return { s' with inner := a } : Planning (Visitor Node (TokenAllocator Node)))) fun s'' =>
      s''.visited = s.visited ∧ s.Extends graph s'' ∧ Planned graph () (past ++ [n]) s'' := by
  obtain ⟨outputs, known, owners⟩ := created.tokens
  have made : Safe graph (s'.owner graph) (past ++ [n]) (graph.ownValues n) (future graph past)
      s'.inner := by
    refine created.safe.recount ⟨fun _ => rfl, rfl, rfl, rfl, rfl⟩ created.safe.counted
      (fun _ _ => rfl) (fun _ later => later) (List.Sublist.refl _) fun v t owned => ?_
    rcases created.safe.started v t owned with pinned | before | holding
    · exact Or.inl pinned
    · exact Or.inr (Or.inl (List.mem_append_left _ before))
    · exact Or.inr (Or.inr holding)
  have inside : ∀ v ∈ graph.ownValues n, v.1 ∈ past ++ [n] := by
    intro v member
    simp [fst_of_mem_ownValues member]
  rw [known, Option.getD_some]
  refine ensures_bind (made.letGo fine owners inside) fun a released => ?_
  rw [future_eq ahead] at released
  refine ensures_bind (released.consumeAll fine (denotes.mono created.ext)) fun a' consumed => ?_
  exact ensures_pure ⟨created.visited, created.ext, created.faithful, consumed⟩

theorem hooks_planned (known : Prototypes graph prototypes)
    (subset : ∀ ids, ∀ i ∈ order ids, i ∈ ids) :
    Keeps fine graph.executionOrder (Planned graph) graph
      (StorageAllocator.hooks graph prototypes order) where
  faithful planned := planned.faithful
  assign {_ _ s n tokens} planned inner denotes := by
    have same : (s.assign n tokens).owner graph = s.owner graph :=
      assign_owner (graph.isSource_of_not_isMaker inner)
    refine ⟨planned.faithful.assign (graph.isSource_of_not_isMaker inner) denotes, ?_⟩
    rw [same]
    exact planned.safe
  mark planned := ⟨planned.faithful, planned.safe⟩
  pinned pin planned :=
    (createPinned_ensures known planned.faithful planned.safe pin).mono fun s' created =>
      ⟨created.visited, created.ext, created.faithful, created.safe⟩
  call {_ past s n reshape args get walk} fetches view planned closed ahead := by
    rw [← List.append_assoc] at ahead ⊢
    have reads : graph.argLeaves n = args.flatMap graph.leaves := by
      rw [Graph.argLeaves, view, View.args]
    refine ensures_bind (getTokens_ensures _ _ fetches planned closed ((List.prefix_append _ _).trans ahead)) ?_
    rintro ⟨tokens, s₁⟩ ⟨arrived, planned₁, denotes⟩
    rw [← reads] at denotes
    have moment := moment_of_ahead ahead (by rw [view]; rfl)
    refine ensures_bind (createOutput_ensures known planned₁.faithful planned₁.safe subset view moment
      denotes) fun s₂ created => ?_
    refine (created.finish ahead denotes).mono ?_
    rintro s₃ ⟨visited, ext, planned₃⟩
    refine ⟨⟨visited.trans arrived.visited, arrived.ext.trans ext, ?_⟩, planned₃⟩
    unfold Visitor.Closed
    rw [visited]
    exact arrived.closed

theorem planned_initial {refs : RefCounts Node} (counted : ∀ v, refs v = StorageAllocaInit.readers graph v) :
    Planned graph () [] ⟨[], ∅, StorageAllocator.initial refs⟩ := by
  refine ⟨?_, ?_⟩
  · intro n tokens found
    cases found
  · have unowned : (⟨[], ∅, StorageAllocator.initial refs⟩ :
        Visitor Node (TokenAllocator Node)).owner graph = fun _ => none := by
      funext v
      simp [Visitor.owner]
    rw [unowned]
    constructor <;> simp [StorageAllocator.initial, counted]

theorem recounted_foldl (a : TokenAllocator Node) (tokens : List (Value Node)) :
    Recounted a (tokens.foldl (fun a token => a.addRef token 1) a) := by
  induction tokens generalizing a with
  | nil => exact ⟨fun _ => rfl, rfl, rfl, rfl, rfl⟩
  | cons t rest ih =>
    have first := recounted_addRef a t 1
    have later := ih (a.addRef t 1)
    exact ⟨fun u => (later.storage u).trans (first.storage u), later.ids.trans first.ids,
      later.free.trans first.free, later.list.trans first.list, later.blocks.trans first.blocks⟩

def HasStorage (infos : List (Node × StorageInfo)) (v : Value Node) (id : Nat) : Prop :=
  ∃ entry ∈ infos, entry.1 = v.1 ∧ entry.2.storageIds[v.2]? = some (some id)

instance (infos : List (Node × StorageInfo)) (v : Value Node) (id : Nat) :
    Decidable (HasStorage infos v id) :=
  inferInstanceAs (Decidable (∃ entry ∈ infos, entry.1 = v.1 ∧ entry.2.storageIds[v.2]? = some (some id)))

structure Reports (graph : Graph Node) (s : Visitor Node (TokenAllocator Node)) (n : Node)
    (tokens : List (Value Node)) (info : StorageInfo) : Prop where
  found : s.tokenMap.lookup n = some tokens
  ids : info.storageIds = tokens.map fun t => (s.inner.tokens t).storageId
  sizes : List.Forall₂ (fun t size => (StorageAllocator.reportedSize graph t).result = .ok size) tokens
    info.storageSizesInBytes

theorem infos_ensures (s : Visitor Node (TokenAllocator Node)) :
    Ensures fine (s.tokenMap.entries.mapM fun entry => do
      return (entry.1, ← StorageAllocator.storageInfo graph s.inner entry.2)) fun infos =>
        ∀ n info, (n, info) ∈ infos → ∃ tokens, Reports graph s n tokens info := by
  refine (ensures_mapM (R := fun entry result => entry.1 = result.1 ∧
    Reports graph s entry.1 entry.2 result.2) fun entry member => ?_).mono ?_
  · have found : s.tokenMap.lookup entry.1 = some entry.2 := AList.mem_lookup_iff.2 member
    have sizes : Ensures fine (entry.2.mapM (StorageAllocator.reportedSize graph)) fun sizes =>
        List.Forall₂ (fun t size => (StorageAllocator.reportedSize graph t).result = .ok size) entry.2
          sizes := ensures_mapM fun t _ _ size returned => returned
    refine ensures_bind (ensures_bind sizes fun sizes reported => ensures_pure ?_) fun info reports =>
      ensures_pure ⟨rfl, reports⟩
    exact ⟨found, rfl, reported⟩
  · intro infos all n info member
    obtain ⟨i, bound, here⟩ := List.mem_iff_getElem.1 member
    obtain ⟨same, reports⟩ := all.get (all.length_eq ▸ bound) bound
    rw [List.get_eq_getElem, List.get_eq_getElem, here] at same reports
    rw [same] at reports
    exact ⟨_, reports⟩

theorem Reports.owner {tokens : List (Value Node)} {info : StorageInfo} {v : Value Node} {id : Nat}
    (reports : Reports graph s v.1 tokens info) (source : graph.isSource v.1 = true)
    (stored : info.storageIds[v.2]? = some (some id)) :
    ∃ t, tokens[v.2]? = some t ∧ s.owner graph v = some t ∧ (s.inner.tokens t).storageId = some id := by
  rw [reports.ids, List.getElem?_map, Option.map_eq_some_iff] at stored
  obtain ⟨t, here, storage⟩ := stored
  refine ⟨t, here, ?_, storage⟩
  rw [Visitor.owner, if_pos source, reports.found, Option.bind_some, here]

theorem run_primitive {σ : Type} (hooks : Hooks Node σ) (start : σ) (body : graph.isPrimitive = true) :
    Ensures fine (run graph hooks start) fun s => s.tokenMap = ∅ := by
  unfold run
  rw [if_pos body]
  exact ensures_pure rfl

theorem plan_ensures {inv : Unit → List Node → Visitor Node (TokenAllocator Node) → Prop} (flat : graph.Flat)
    (keeps : ∀ prototypes, Prototypes graph prototypes → Keeps fine graph.executionOrder inv graph
      (StorageAllocator.hooks graph prototypes order))
    (start : ∀ refs : RefCounts Node, (∀ v, refs v = StorageAllocaInit.readers graph v) →
      inv () [] ⟨[], ∅, StorageAllocator.initial refs⟩) :
    Ensures fine (StorageAllocator.plan graph order) fun infos => infos = [] ∨ ∃ s a,
      inv () graph.executionOrder s ∧ Recounted s.inner a ∧ ∀ n info, (n, info) ∈ infos →
        ∃ tokens, Reports graph { s with inner := a } n tokens info := by
  cases body : graph.isPrimitive with
  | true =>
    refine ensures_bind (run_primitive _ _ body) fun counted _ => ?_
    refine ensures_bind (run_primitive _ _ body) fun s empty => ?_
    refine ensures_bind (infos_ensures s) fun infos reports => ?_
    dsimp only
    split
    · exact ensures_fail
    · refine ensures_pure (Or.inl (List.eq_nil_iff_forall_not_mem.2 fun entry member => ?_))
      obtain ⟨tokens, report⟩ := reports entry.1 entry.2 member
      have found := report.found
      rw [empty] at found
      cases found
  | false =>
    refine ensures_bind (StorageAllocaInit.init_ensures fine flat body) ?_
    rintro counted ⟨refs, prototypes⟩
    refine ensures_bind (run_ensures (keeps _ prototypes) flat body rfl (start _ refs)) ?_
    rintro s ⟨s₀, tokens, planned, -, rfl⟩
    refine ensures_bind (infos_ensures _) fun infos reports => ?_
    dsimp only
    split
    · exact ensures_fail
    · exact ensures_pure (Or.inr ⟨s₀, _, planned, recounted_foldl s₀.inner tokens, reports⟩)

theorem plan_apart (flat : graph.Flat) (subset : ∀ ids, ∀ i ∈ order ids, i ∈ ids)
    {infos : List (Node × StorageInfo)} (planned : (StorageAllocator.plan graph order).result = .ok infos)
    {v w : Value Node} (distinct : v ≠ w) (source : graph.isSource v.1 = true)
    (source' : graph.isSource w.1 = true) {k : Nat} (live : graph.LiveAt graph.executionOrder v k)
    (live' : graph.LiveAt graph.executionOrder w k) {id : Nat} (stored : HasStorage infos v id)
    (stored' : HasStorage infos w id) : graph.Aliases v w := by
  have run : Ensures (fun _ => True) (StorageAllocator.plan graph order) _ :=
    plan_ensures flat (fun _ prototypes => hooks_planned prototypes subset) fun _ => planned_initial
  rcases run.holds planned with rfl | ⟨s, a, invariant, same, reports⟩
  · obtain ⟨_, member, _⟩ := stored
    cases member
  · have owned {v : Value Node} (source : graph.isSource v.1 = true) (stored : HasStorage infos v id) :
        ∃ t, s.owner graph v = some t ∧ (s.inner.tokens t).storageId = some id := by
      obtain ⟨⟨_, info⟩, member, rfl, here⟩ := stored
      obtain ⟨tokens, report⟩ := reports v.1 info member
      obtain ⟨t, -, mine, storage⟩ := report.owner source here
      exact ⟨t, mine, (same.storage t).symm.trans storage⟩
    obtain ⟨t, mine, storage⟩ := owned source stored
    obtain ⟨u, mine', storage'⟩ := owned source' stored'
    have apart := invariant.safe.apart v w t u mine mine' distinct (storage.trans storage'.symm)
    exact apart.resolve_right fun never => never k ⟨live, live'⟩

def float32 : DataType := ⟨2, 32, 1⟩

def host : VirtualDevice := ⟨0, .flat, false⟩

def vector (length : Int) : Ty := .tensor ⟨[some length], float32⟩

-- f(pair.0, reshape(a)) with pair = (a, reshape(a)) and a = f(x).
def reshaped : Graph (Fin 6) where
  view
    | 0 => .param
    | 1 => .call none [0]
    | 2 => .call (some 1) [1]
    | 3 => .tuple [1, 2]
    | 4 => .getItem 3 0
    | 5 => .call none [4, 2]
  checkedType
    | 3 => .tuple [vector 4, vector 4]
    | _ => vector 4
  virtualDevice _ := host
  isPrimitive := false
  params := [0]
  body := 5
  rank := Fin.val
  acyclic := by decide
  onDevice_type {n body} view := by split at view <;> cases view
  params_view := by simp
  letIn_view {n var value body} view := by split at view <;> cases view

theorem reshaped_flat : reshaped.Flat := by
  intro n whole index view
  simp only [reshaped] at view
  split at view <;> cases view
  decide

def reshapedPlan : List (Fin 6 × StorageInfo) :=
  [(5, ⟨[some 2], [host], [16]⟩), (4, ⟨[some 1], [host], [16]⟩),
    (3, ⟨[some 1, some 1], [host, host], [16, 16]⟩), (2, ⟨[some 1], [host], [16]⟩),
    (1, ⟨[some 1], [host], [16]⟩), (0, ⟨[some 0], [host], [16]⟩)]

theorem reshaped_apart : (StorageAllocator.plan reshaped id).result = .ok reshapedPlan ∧
    HasStorage reshapedPlan (1, 0) 1 ∧ HasStorage reshapedPlan (2, 0) 1 ∧
    reshaped.Aliases (1, 0) (2, 0) := by
  have planned : (StorageAllocator.plan reshaped id).result = .ok reshapedPlan := by decide +kernel
  have live : reshaped.LiveAt reshaped.executionOrder (1, 0) 1 :=
    Or.inr ⟨0, by decide, by decide +kernel, Or.inr (Or.inr ⟨2, 5, by decide, by decide +kernel,
      by decide +kernel⟩)⟩
  have live' : reshaped.LiveAt reshaped.executionOrder (2, 0) 1 :=
    Or.inr ⟨1, by decide, by decide +kernel, Or.inl rfl⟩
  have stored : HasStorage reshapedPlan (1, 0) 1 := by decide
  have stored' : HasStorage reshapedPlan (2, 0) 1 := by decide
  exact ⟨planned, stored, stored', plan_apart reshaped_flat (fun _ _ => id) planned (by decide) rfl rfl
    live live' stored stored'⟩

-- f(nested.1, d) with nested = ((a, a), c), where a, c and d are f(x).
def nested : Graph (Fin 8) where
  view
    | 0 => .param
    | 1 => .call none [0]
    | 2 => .call none [0]
    | 3 => .tuple [1, 1]
    | 4 => .tuple [3, 2]
    | 5 => .getItem 4 1
    | 6 => .call none [0]
    | 7 => .call none [5, 6]
  checkedType
    | 3 => .tuple [vector 4, vector 4]
    | 4 => .tuple [.tuple [vector 4, vector 4], vector 4]
    | _ => vector 4
  virtualDevice _ := host
  isPrimitive := false
  params := [0]
  body := 7
  rank := Fin.val
  acyclic := by decide
  onDevice_type {n body} view := by split at view <;> cases view
  params_view := by simp
  letIn_view {n var value body} view := by split at view <;> cases view

theorem nested_unrelated {v w : Value (Fin 8)} (aliased : nested.Aliases v w) : v = w := by
  induction aliased with
  | rel v w reshapes =>
    obtain ⟨count, args, view, -⟩ := reshapes
    simp only [nested] at view
    split at view <;> cases view
  | refl => rfl
  | symm _ _ _ ih => exact ih.symm
  | trans _ _ _ _ _ ih ih' => exact ih.trans ih'

def nestedPlan : List (Fin 8 × StorageInfo) :=
  [(7, ⟨[some 3], [host], [16]⟩), (6, ⟨[some 2], [host], [16]⟩), (5, ⟨[some 1], [host], [16]⟩),
    (4, ⟨[some 1, some 1, some 2], [host, host, host], [16, 16, 16]⟩), (2, ⟨[some 2], [host], [16]⟩),
    (3, ⟨[some 1, some 1], [host, host], [16, 16]⟩), (1, ⟨[some 1], [host], [16]⟩),
    (0, ⟨[some 0], [host], [16]⟩)]

-- The projection counts a reader of a instead of c, so d gets the storage of c.
theorem nested_shared : (StorageAllocator.plan nested id).result = .ok nestedPlan ∧
    nested.LiveAt nested.executionOrder (2, 0) 3 ∧ nested.LiveAt nested.executionOrder (6, 0) 3 ∧
    HasStorage nestedPlan (2, 0) 2 ∧ HasStorage nestedPlan (6, 0) 2 ∧
    ¬ nested.Aliases (2, 0) (6, 0) := by
  have read (v : Value (Fin 8)) (j : Nat) (before : j ≤ 3) (made : nested.executionOrder[j]? = some v.1)
      (member : v ∈ nested.argLeaves 7) : nested.LiveAt nested.executionOrder v 3 :=
    Or.inr ⟨j, before, made, Or.inr (Or.inr ⟨3, 7, by decide, by decide +kernel, member⟩)⟩
  refine ⟨by decide +kernel, read _ 1 (by decide) (by decide +kernel) (by decide +kernel),
    read _ 2 (by decide) (by decide +kernel) (by decide +kernel), by decide, by decide,
    fun aliased => ?_⟩
  cases nested_unrelated aliased

end Tlm.Relay
