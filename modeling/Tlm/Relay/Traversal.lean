import Tlm.Relay.GraphPlanMemory

set_option autoImplicit false

namespace Tlm.Relay

open Cpp Traced

section

variable {Node σ : Type} [DecidableEq Node] (graph : Graph Node)

namespace Visitor

variable (s s' : Visitor Node σ)

def owner (v : Value Node) : Option (Value Node) :=
  if graph.isSource v.1 then (s.tokenMap.lookup v.1).bind fun tokens => tokens[v.2]? else none

def Denotes (values tokens : List (Value Node)) : Prop :=
  values.map (s.owner graph) = tokens.map some

def Faithful : Prop :=
  ∀ n tokens, s.tokenMap.lookup n = some tokens → (graph.checkedType n).isFunc = false →
    s.Denotes graph (graph.leaves n) tokens

def Extends : Prop :=
  ∀ n tokens, (graph.checkedType n).isFunc = false → s.tokenMap.lookup n = some tokens →
    s'.tokenMap.lookup n = some tokens

def Closed : Prop :=
  ∀ n body, n ∈ s.visited → graph.view n = .onDevice body → body ∈ s.visited

variable {graph s s'} {s'' : Visitor Node σ} {values tokens : List (Value Node)} {n : Node}

theorem Extends.refl : s.Extends graph s := fun _ _ _ found => found

theorem Extends.trans (first : s.Extends graph s') (second : s'.Extends graph s'') : s.Extends graph s'' :=
  fun n tokens typed found => second n tokens typed (first n tokens typed found)

theorem Extends.owner (ext : s.Extends graph s') {v t : Value Node}
    (owned : s.owner graph v = some t) : s'.owner graph v = some t := by
  unfold Visitor.owner at owned ⊢
  split at owned
  next source =>
    obtain ⟨tokens, found, token⟩ := Option.bind_eq_some_iff.1 owned
    have typed : (graph.checkedType v.1).isFunc = false := by
      simpa using (Bool.and_eq_true_iff.1 source).2
    rw [if_pos source, ext _ _ typed found, Option.bind_some, token]
  · cases owned

theorem Denotes.mono (denotes : s.Denotes graph values tokens) (ext : s.Extends graph s') :
    s'.Denotes graph values tokens := by
  unfold Denotes at denotes ⊢
  rw [← denotes]
  refine List.map_congr_left fun v mem => ?_
  have owned : s.owner graph v ∈ tokens.map some := denotes ▸ List.mem_map_of_mem mem
  obtain ⟨t, -, same⟩ := List.mem_map.1 owned
  rw [← same, ext.owner same.symm]

theorem Denotes.append {values' tokens' : List (Value Node)} (denotes : s.Denotes graph values tokens)
    (denotes' : s.Denotes graph values' tokens') : s.Denotes graph (values ++ values') (tokens ++ tokens') := by
  unfold Denotes at denotes denotes' ⊢
  rw [List.map_append, List.map_append, denotes, denotes']

theorem Denotes.get (denotes : s.Denotes graph values tokens) {i : Nat} {token : Value Node}
    (found : tokens[i]? = some token) : ∃ v, values[i]? = some v ∧ s.owner graph v = some token := by
  have here := congrArg (fun owners => owners[i]?) denotes
  simp only [List.getElem?_map, found] at here
  simpa using here

theorem assign_owner (inner : graph.isSource n = false) : (s.assign n tokens).owner graph = s.owner graph := by
  funext v
  by_cases same : v.1 = n
  · simp [Visitor.owner, same, inner]
  · simp [Visitor.owner, assign, AList.lookup_insert_ne same]

theorem Faithful.extends_assign (faithful : s.Faithful graph)
    (denotes : (graph.checkedType n).isFunc = false → s.Denotes graph (graph.leaves n) tokens) :
    s.Extends graph (s.assign n tokens) := by
  intro m found typed known
  by_cases same : m = n
  · subst same
    have before : found.map some = tokens.map some := (faithful _ _ known typed).symm.trans (denotes typed)
    rw [assign, AList.lookup_insert]
    exact congrArg some (List.map_injective_iff.2 (fun _ _ => Option.some.inj) before).symm
  · rwa [assign, AList.lookup_insert_ne same]

theorem Faithful.assign (faithful : s.Faithful graph) (inner : graph.isSource n = false)
    (denotes : (graph.checkedType n).isFunc = false → s.Denotes graph (graph.leaves n) tokens) :
    (s.assign n tokens).Faithful graph := by
  intro m found known typed
  unfold Denotes
  rw [assign_owner inner]
  by_cases same : m = n
  · subst same
    rw [Visitor.assign, AList.lookup_insert] at known
    cases known
    exact denotes typed
  · rw [Visitor.assign, AList.lookup_insert_ne same] at known
    exact faithful _ _ known typed

theorem create_owner (source : graph.isSource n = true) (v : Value Node) :
    (s.assign n tokens).owner graph v = if v.1 = n then tokens[v.2]? else s.owner graph v := by
  unfold Visitor.owner Visitor.assign
  by_cases here : v.1 = n
  · rw [here, if_pos source, AList.lookup_insert, Option.bind_some, if_pos rfl]
  · rw [AList.lookup_insert_ne here, if_neg here]

theorem extends_create (fresh : s.tokenMap.lookup n = none) : s.Extends graph (s.assign n tokens) := by
  intro m found _ known
  have other : m ≠ n := by
    rintro rfl
    cases fresh.symm.trans known
  rwa [Visitor.assign, AList.lookup_insert_ne other]

theorem Faithful.create (faithful : s.Faithful graph) (fresh : s.tokenMap.lookup n = none)
    (source : graph.isSource n = true) (each : tokens.length = (graph.ownValues n).length) :
    (s.assign n tokens).Faithful graph := by
  intro m found known typed
  by_cases same : m = n
  · subst same
    rw [Visitor.assign, AList.lookup_insert] at known
    cases known
    rw [graph.leaves_of_isSource source]
    apply List.ext_getElem (by simp [each])
    intro i inside inside'
    simp [Graph.ownValues, create_owner source]
  · rw [Visitor.assign, AList.lookup_insert_ne same] at known
    exact (faithful m found known typed).mono (extends_create fresh)

end Visitor

open Visitor

variable {graph} {fine : Event → Prop} (order : List Node) {κ : Type}
  (inv : κ → List Node → Visitor Node σ → Prop)

structure Arrived (graph : Graph Node) (s : Visitor Node σ) (walked : List Node × List Node)
    (s' : Visitor Node σ) : Prop where
  visited : s'.visited = walked.1
  ext : s.Extends graph s'
  closed : s'.Closed graph

def Fetches (fine : Event → Prop) (order : List Node) (inv : κ → List Node → Visitor Node σ → Prop)
    (graph : Graph Node) (get : GetToken Node σ)
    (walk : Node → List Node → List Node × List Node) : Prop :=
  ∀ n k past s, inv k past s → s.Closed graph → past ++ (walk n s.visited).2 <+: order →
    Ensures fine (get n s) fun r => Arrived graph s (walk n s.visited) r.2 ∧
      inv k (past ++ (walk n s.visited).2) r.2 ∧ r.2.Denotes graph (graph.leaves n) r.1

variable {k : κ} {past : List Node}

theorem getTokens_ensures {get : GetToken Node σ} {walk : Node → List Node → List Node × List Node}
    (fetches : Fetches fine order inv graph get walk) {nodes : List Node} {s : Visitor Node σ}
    (holds : inv k past s) (closed : s.Closed graph)
    (ahead : past ++ (Graph.walkAll walk nodes s.visited).2 <+: order) :
    Ensures fine (getTokens get nodes s) fun r =>
      Arrived graph s (Graph.walkAll walk nodes s.visited) r.2 ∧
        inv k (past ++ (Graph.walkAll walk nodes s.visited).2) r.2 ∧
        r.2.Denotes graph (nodes.flatMap graph.leaves) r.1 := by
  induction nodes generalizing past s with
  | nil => exact ensures_pure ⟨⟨rfl, .refl, closed⟩, by simpa [Graph.walkAll] using holds, rfl⟩
  | cons n rest ih =>
    simp only [Graph.walkAll, ← List.append_assoc] at ahead ⊢
    refine ensures_bind (fetches _ _ _ _ holds closed ((List.prefix_append _ _).trans ahead)) ?_
    rintro ⟨tokens, s₁⟩ ⟨arrived, held, denotes⟩
    rw [← arrived.visited] at ahead ⊢
    refine ensures_bind (ih held arrived.closed ahead) ?_
    rintro ⟨later, s₂⟩ ⟨arrived', held', denotes'⟩
    exact ensures_pure ⟨⟨arrived'.visited, arrived.ext.trans arrived'.ext, arrived'.closed⟩, held',
      (denotes.mono arrived'.ext).append denotes'⟩

structure Keeps (fine : Event → Prop) (order : List Node) (inv : κ → List Node → Visitor Node σ → Prop)
    (graph : Graph Node) (hooks : Hooks Node σ) : Prop where
  faithful : ∀ {k past s}, inv k past s → s.Faithful graph
  assign : ∀ {k past s n tokens}, inv k past s → (graph.view n).isMaker = false →
    ((graph.checkedType n).isFunc = false → s.Denotes graph (graph.leaves n) tokens) →
    inv k past (s.assign n tokens)
  mark : ∀ {k past s visited}, inv k past s → inv k past { s with visited := visited }
  pinned : ∀ {k past s n}, (graph.view n).isPinned = true → inv k past s →
    Ensures fine (hooks.createToken n false s) fun s' =>
      s'.visited = s.visited ∧ s.Extends graph s' ∧ inv k past s'
  call : ∀ {k past s n reshape args get walk}, Fetches fine order inv graph get walk →
    graph.view n = .call reshape args → inv k past s → s.Closed graph →
    past ++ ((Graph.walkAll walk args s.visited).2 ++ [n]) <+: order →
    Ensures fine (hooks.visitCall get n reshape args s) fun s' =>
      Arrived graph s (Graph.walkAll walk args s.visited) s' ∧
        inv k (past ++ ((Graph.walkAll walk args s.visited).2 ++ [n])) s'

def Visits (fine : Event → Prop) (order : List Node) (inv : κ → List Node → Visitor Node σ → Prop)
    (graph : Graph Node) (visit : Node → Visitor Node σ → Planning (Visitor Node σ))
    (walk : Node → List Node → List Node × List Node) : Prop :=
  ∀ n k past s, inv k past s → s.Closed graph → past ++ (walk n s.visited).2 <+: order →
    Ensures fine (visit n s) fun s' => Arrived graph s (walk n s.visited) s' ∧ n ∈ s'.visited ∧
      inv k (past ++ (walk n s.visited).2) s'

variable {order inv} {hooks : Hooks Node σ} {fuel : Nat}
  (visits : Visits fine order inv graph (visit graph hooks fuel) (graph.walk fuel))

include visits

theorem revisit_ensures {n : Node} {s : Visitor Node σ} (holds : inv k past s)
    (closed : s.Closed graph) (here : n ∈ s.visited) (ahead : past <+: order) :
    Ensures fine (visit graph hooks fuel n s) fun s' =>
      s'.visited = s.visited ∧ s.Extends graph s' ∧ s'.Closed graph ∧ inv k past s' := by
  have again := visits n k past s holds closed (by simpa [graph.walk_of_mem here] using ahead)
  rw [graph.walk_of_mem here] at again
  rw [List.append_nil] at again
  refine again.mono ?_
  rintro s' ⟨arrived, _, held⟩
  exact ⟨arrived.visited, arrived.ext, arrived.closed, held⟩

variable (keeps : Keeps fine order inv graph hooks)

include keeps

theorem getToken_fetches :
    Fetches fine order inv graph (getToken graph (visit graph hooks fuel)) (graph.walk fuel) := by
  intro n k past s holds closed ahead
  refine ensures_bind (visits _ _ _ _ holds closed ahead) ?_
  rintro s₁ ⟨arrived, here, held⟩
  dsimp only
  split
  next func =>
    refine ensures_pure ⟨arrived, held, ?_⟩
    rw [← graph.leaves_ignoreOnDevice, graph.leaves_of_isFunc func]
    rfl
  next typed =>
    have inside : graph.ignoreOnDevice n ∈ s₁.visited := by
      unfold Graph.ignoreOnDevice
      split
      next body view => exact arrived.closed n body here view
      · exact here
    refine ensures_bind (revisit_ensures visits held arrived.closed inside ahead) ?_
    rintro s₂ ⟨same, ext, closed', held'⟩
    split
    next tokens found =>
      refine ensures_pure ⟨⟨same.trans arrived.visited, arrived.ext.trans ext, closed'⟩, held', ?_⟩
      rw [← graph.leaves_ignoreOnDevice]
      exact keeps.faithful held' _ _ found (by simpa using typed)
    · exact ensures_fail

omit visits in
theorem arrived_assign {n : Node} {s s₁ : Visitor Node σ} {below : List Node × List Node}
    {tokens : List (Value Node)} (arrived : Arrived graph s below s₁) (held : inv k past s₁)
    (inner : (graph.view n).isMaker = false)
    (means : (graph.checkedType n).isFunc = false → s₁.Denotes graph (graph.leaves n) tokens) :
    Arrived graph s below (s₁.assign n tokens) ∧ inv k past (s₁.assign n tokens) :=
  ⟨⟨arrived.visited, arrived.ext.trans ((keeps.faithful held).extends_assign means), arrived.closed⟩,
    keeps.assign held inner means⟩

theorem visitNode_ensures (flat : graph.Flat) {n : Node} {s : Visitor Node σ} (holds : inv k past s)
    (closed : s.Closed graph) {below : List Node × List Node}
    (walked : below = Graph.walkAll (graph.walk fuel) (graph.view n).children s.visited)
    (ahead : past ++ (if (graph.view n).isCall then below.2 ++ [n] else below.2) <+: order) :
    Ensures fine (visitNode graph hooks (visit graph hooks fuel) n s) fun s' =>
      Arrived graph s below s' ∧ (∀ body, graph.view n = .onDevice body → body ∈ s'.visited) ∧
        inv k (past ++ (if (graph.view n).isCall then below.2 ++ [n] else below.2)) s' := by
  have fetches := getToken_fetches visits keeps
  unfold visitNode
  cases view : graph.view n with
  | param | letVar _ | function =>
    rw [view] at walked
    subst walked
    refine ensures_pure ⟨⟨rfl, .refl, closed⟩, by simp, ?_⟩
    simpa [View.isCall, View.children, View.parts, Graph.walkAll] using holds
  | constant =>
    rw [view] at walked
    subst walked
    refine (keeps.pinned (by rw [view]; rfl) holds).mono ?_
    rintro s' ⟨same, ext, held⟩
    refine ⟨⟨same, ext, ?_⟩, by simp, ?_⟩
    · unfold Visitor.Closed
      rwa [same]
    · simpa [View.isCall, View.children, View.parts, Graph.walkAll] using held
  | call reshape args =>
    rw [view] at walked ahead
    subst walked
    refine (keeps.call fetches view holds closed ahead).mono ?_
    rintro s' ⟨arrived, held⟩
    exact ⟨arrived, by simp, held⟩
  | tuple fields =>
    rw [view] at walked ahead
    subst walked
    have inner : (graph.view n).isMaker = false := by rw [view]; rfl
    refine ensures_bind (getTokens_ensures order inv fetches holds closed ahead) ?_
    rintro ⟨tokens, s₁⟩ ⟨arrived, held, denotes⟩
    refine ensures_pure ?_
    have means : (graph.checkedType n).isFunc = false → s₁.Denotes graph (graph.leaves n) tokens := by
      intro typed
      rw [graph.leaves_eq, Graph.leavesStep, view]
      simpa [typed] using denotes
    obtain ⟨arrived, held⟩ := arrived_assign keeps arrived held inner means
    exact ⟨arrived, by simp, held⟩
  | getItem whole index =>
    rw [view] at walked ahead
    have one : Graph.walkAll (graph.walk fuel) (View.getItem whole index).children s.visited =
        graph.walk fuel whole s.visited := by
      simp [Graph.walkAll, View.children, View.parts]
    rw [one] at walked
    subst walked
    have inner : (graph.view n).isMaker = false := by rw [view]; rfl
    refine ensures_bind (fetches _ _ _ _ holds closed ahead) ?_
    rintro ⟨tokens, s₁⟩ ⟨arrived, held, denotes⟩
    dsimp only at denotes ⊢
    split
    next token found =>
      have means : (graph.checkedType n).isFunc = false →
          s₁.Denotes graph (graph.leaves n) [token] := by
        intro typed
        obtain ⟨v, value, owned⟩ := denotes.get found
        obtain ⟨offset, width⟩ := flat n whole index view
        rw [graph.leaves_eq, Graph.leavesStep, view]
        simp [typed, Graph.field, offset, width, List.take_one, value, Visitor.Denotes, owned]
      obtain ⟨arrived, held⟩ := arrived_assign keeps arrived held inner means
      exact ensures_pure ⟨arrived, by simp, held⟩
    · exact ensures_fail
  | letIn var value body =>
    rw [view] at walked ahead
    have two : Graph.walkAll (graph.walk fuel) (View.letIn var value body).children s.visited =
        ((graph.walk fuel body (graph.walk fuel value s.visited).1).1, (graph.walk fuel value s.visited).2 ++
            (graph.walk fuel body (graph.walk fuel value s.visited).1).2) := by
      simp [Graph.walkAll, View.children, View.parts]
    rw [two] at walked
    subst walked
    simp only [View.isCall, Bool.false_eq_true, ↓reduceIte, ← List.append_assoc] at ahead ⊢
    have inner : (graph.view n).isMaker = false := by rw [view]; rfl
    have bound := graph.letIn_view view
    have innerVar : (graph.view var).isMaker = false := by rw [bound]; rfl
    refine ensures_bind (fetches _ _ _ _ holds closed ((List.prefix_append _ _).trans ahead)) ?_
    rintro ⟨tokens, s₁⟩ ⟨arrived, held, denotes⟩
    have means : (graph.checkedType var).isFunc = false →
        s₁.Denotes graph (graph.leaves var) tokens := by
      intro typed
      rw [graph.leaves_eq, Graph.leavesStep, bound]
      simpa [typed] using denotes
    obtain ⟨arrived, held⟩ := arrived_assign keeps arrived held innerVar means
    rw [← arrived.visited] at ahead ⊢
    refine ensures_bind (visits _ _ _ _ held arrived.closed ahead) ?_
    rintro s₂ ⟨arrived₂, here, held₂⟩
    refine ensures_bind (fetches body k _ s₂ held₂ arrived₂.closed ?_) ?_
    · rw [graph.walk_of_mem here, List.append_nil]
      exact ahead
    · rintro ⟨tokens', s₃⟩ ⟨arrived₃, held₃, denotes₃⟩
      refine ensures_pure ?_
      rw [graph.walk_of_mem here] at arrived₃ held₃
      rw [List.append_nil] at held₃
      have means' : (graph.checkedType n).isFunc = false →
          s₃.Denotes graph (graph.leaves n) tokens' := by
        intro typed
        rw [graph.leaves_eq, Graph.leavesStep, view]
        simpa [typed] using denotes₃
      obtain ⟨arrived₄, held₄⟩ := arrived_assign keeps arrived₃ held₃ inner means'
      refine ⟨⟨arrived₄.visited.trans arrived₂.visited, ?_, arrived₄.closed⟩, by simp, held₄⟩
      exact (arrived.ext.trans arrived₂.ext).trans arrived₄.ext
  | onDevice body =>
    rw [view] at walked ahead
    have one : Graph.walkAll (graph.walk fuel) (View.onDevice body).children s.visited =
        graph.walk fuel body s.visited := by
      simp [Graph.walkAll, View.children, View.parts]
    rw [one] at walked
    subst walked
    refine (visits _ _ _ _ holds closed ahead).mono ?_
    rintro s' ⟨arrived, here, held⟩
    refine ⟨arrived, ?_, held⟩
    rintro _ ⟨⟩
    exact here
  | branch => exact ensures_fail

omit visits

theorem visit_ensures (flat : graph.Flat) :
    Visits fine order inv graph (visit graph hooks fuel) (graph.walk fuel) := by
  induction fuel with
  | zero =>
    intro n k past s _ _ _
    exact ensures_fail
  | succ fuel ih =>
    intro n k past s holds closed ahead
    rw [visit]
    split
    next here =>
      rw [graph.walk_of_mem here, List.append_nil] at *
      exact ensures_pure ⟨⟨rfl, .refl, closed⟩, here, holds⟩
    next fresh =>
      rw [Graph.walk, if_neg fresh] at ahead ⊢
      refine ensures_bind (visitNode_ensures ih keeps flat holds closed rfl ahead) ?_
      rintro s' ⟨arrived, under, held⟩
      refine ensures_pure ?_
      refine ⟨⟨by rw [arrived.visited], arrived.ext, ?_⟩, by simp, keeps.mark held⟩
      intro m body member view
      rcases List.mem_cons.1 member with rfl | member
      · exact List.mem_cons_of_mem _ (under body view)
      · exact List.mem_cons_of_mem _ (arrived.closed m body member view)

theorem params_ensures {params : List Node} (pinned : ∀ p ∈ params, (graph.view p).isPinned = true)
    {s : Visitor Node σ} (holds : inv k past s) :
    Ensures fine (params.foldlM (fun s param => hooks.createToken param false s) s) fun s' =>
      s'.visited = s.visited ∧ inv k past s' := by
  induction params generalizing s with
  | nil => exact ensures_pure ⟨rfl, holds⟩
  | cons param rest ih =>
    refine ensures_bind (keeps.pinned (pinned param List.mem_cons_self) holds) ?_
    rintro s₁ ⟨same, _, held⟩
    refine (ih (fun p member => pinned p (List.mem_cons_of_mem _ member)) held).mono ?_
    rintro s₂ ⟨same', held'⟩
    exact ⟨same'.trans same, held'⟩

theorem run_ensures (flat : graph.Flat) (body : graph.isPrimitive = false)
    (executed : graph.executionOrder = order) {start : σ} (holds : inv k [] ⟨[], ∅, start⟩) :
    Ensures fine (run graph hooks start) fun s => ∃ s₀ tokens, inv k order s₀ ∧
      s₀.Denotes graph (graph.leaves graph.body) tokens ∧
      s = { s₀ with inner := tokens.foldl hooks.addRef s₀.inner } := by
  unfold run
  simp only [body]
  have pinned : ∀ p ∈ graph.params, (graph.view p).isPinned = true := by
    intro p member
    rw [graph.params_view p member]
    rfl
  refine ensures_bind (params_ensures keeps pinned holds) ?_
  rintro s₁ ⟨same, held⟩
  have closed : s₁.Closed graph := by
    intro n inner member
    rw [same] at member
    cases member
  have walked : (graph.walk (graph.rank graph.body + 1) graph.body s₁.visited).2 = order := by
    rw [same]
    exact executed
  have visits : Visits fine order inv graph (visit graph hooks (graph.rank graph.body + 1))
      (graph.walk (graph.rank graph.body + 1)) := visit_ensures keeps flat
  refine ensures_bind (getToken_fetches visits keeps graph.body k [] s₁ held closed (by simp [walked])) ?_
  rintro ⟨tokens, s₂⟩ ⟨_, held₂, denotes⟩
  refine ensures_pure ?_
  rw [walked, List.nil_append] at held₂
  exact ⟨s₂, tokens, held₂, denotes, rfl⟩

end

end Tlm.Relay
