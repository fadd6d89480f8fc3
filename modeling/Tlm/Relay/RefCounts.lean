import Mathlib.Tactic.Ring
import Tlm.Relay.Traversal

set_option autoImplicit false

namespace Tlm.Relay.StorageAllocaInit

open Cpp Traced Visitor

variable {Node : Type} [DecidableEq Node] {graph : Graph Node}

theorem foldl_add (tokens : List (Value Node)) (refs : RefCounts Node) (v : Value Node) :
    tokens.foldl RefCounts.add refs v = refs v + tokens.count v := by
  induction tokens generalizing refs with
  | nil => simp
  | cons t rest ih =>
    rw [List.foldl_cons, ih, RefCounts.add, List.count_cons]
    by_cases same : v = t
    · subst same
      simp
      omega
    · simp [same, Ne.symm same]

structure Counts (graph : Graph Node) (pending : Value Node → Int) (past : List Node)
    (s : Visitor Node (RefCounts Node)) : Prop where
  faithful : s.Faithful graph
  own : ∀ v t, s.owner graph v = some t → t = v
  prototypes : ∀ n tokens, s.tokenMap.lookup n = some tokens →
    (graph.view n).isMaker = true → graph.isSource n = true ∧ tokens = graph.ownValues n
  refs : ∀ v, s.inner v = (past.flatMap graph.argLeaves).count v + pending v

variable {pending : Value Node → Int} {past : List Node} {s : Visitor Node (RefCounts Node)}

theorem Counts.eq_of_denotes (counts : Counts graph pending past s) {values tokens : List (Value Node)}
    (denotes : s.Denotes graph values tokens) : tokens = values := by
  induction values generalizing tokens with
  | nil => simpa using denotes.symm
  | cons v rest ih =>
    cases tokens with
    | nil => cases denotes
    | cons t tokens =>
      simp only [Visitor.Denotes, List.map_cons, List.cons.injEq] at denotes
      rw [counts.own v t denotes.1, ih denotes.2]

theorem Counts.assign (counts : Counts graph pending past s) {n : Node} {tokens : List (Value Node)}
    (inner : (graph.view n).isMaker = false)
    (denotes : (graph.checkedType n).isFunc = false → s.Denotes graph (graph.leaves n) tokens) :
    Counts graph pending past (s.assign n tokens) where
  faithful := counts.faithful.assign (graph.isSource_of_not_isMaker inner) denotes
  own v t owned := counts.own v t (by
    rwa [assign_owner (graph.isSource_of_not_isMaker inner)] at owned)
  prototypes m found known makes := by
    have other : m ≠ n := by
      rintro rfl
      cases makes.symm.trans inner
    rw [Visitor.assign, AList.lookup_insert_ne other] at known
    exact counts.prototypes m found known makes
  refs := counts.refs

theorem isFunc_of_flatten {type : Ty} (flattened : (flattenTupleType type).isNone = false) :
    type.isFunc = false := by
  cases type with
  | func => cases flattened
  | _ => rfl

theorem createToken_ensures {fine : Event → Prop} {n : Node} (makes : (graph.view n).isMaker = true)
    (counts : Counts graph pending past s) :
    Ensures fine (createToken graph n s) fun s' =>
      s'.visited = s.visited ∧ s.Extends graph s' ∧ Counts graph pending past s' := by
  unfold createToken
  split
  · exact ensures_fail
  next absent =>
    split
    · exact ensures_fail
    next flattened =>
      have fresh : s.tokenMap.lookup n = none := by simpa using absent
      have source : graph.isSource n = true := by
        have typed := isFunc_of_flatten (Bool.eq_false_of_not_eq_true flattened)
        simp [Graph.isSource, makes, typed]
      refine ensures_pure ⟨rfl, extends_create fresh, ?_⟩
      refine ⟨counts.faithful.create fresh source rfl, ?_, ?_, counts.refs⟩
      · intro v t owned
        rw [create_owner source] at owned
        split at owned
        next here =>
          obtain ⟨bound, rfl⟩ := List.getElem?_eq_some_iff.1 owned
          simp [Graph.ownValues, ← here]
        · exact counts.own v t owned
      · intro m found known makes'
        by_cases same : m = n
        · subst same
          rw [Visitor.assign, AList.lookup_insert] at known
          cases known
          exact ⟨source, rfl⟩
        · rw [Visitor.assign, AList.lookup_insert_ne same] at known
          exact counts.prototypes m found known makes'

section

variable {fine : Event → Prop} {order : List Node} {get : GetToken Node (RefCounts Node)}
  {walk : Node → List Node → List Node × List Node}
  (fetches : Fetches fine order (Counts graph) graph get walk)

include fetches

theorem countArgs_ensures {args : List Node} (counts : Counts graph pending past s)
    (closed : s.Closed graph) (ahead : past ++ (Graph.walkAll walk args s.visited).2 <+: order) :
    Ensures fine (args.foldlM (fun s arg => do
      let (tokens, s) ← get arg s
      return { s with inner := tokens.foldl RefCounts.add s.inner }) s) fun s' =>
        Arrived graph s (Graph.walkAll walk args s.visited) s' ∧
          Counts graph (fun v => pending v + (args.flatMap graph.leaves).count v)
            (past ++ (Graph.walkAll walk args s.visited).2) s' := by
  induction args generalizing pending past s with
  | nil =>
    refine ensures_pure ⟨⟨rfl, .refl, closed⟩, ?_⟩
    simpa [Graph.walkAll] using counts
  | cons arg rest ih =>
    simp only [Graph.walkAll, ← List.append_assoc] at ahead ⊢
    rw [List.foldlM_cons, bind_assoc]
    refine ensures_bind (fetches arg pending past s counts closed ((List.prefix_append _ _).trans ahead)) ?_
    rintro ⟨tokens, s₁⟩ ⟨arrived, counts₁, denotes⟩
    have same := counts₁.eq_of_denotes denotes
    subst same
    have counted : Counts graph (fun v => pending v + (graph.leaves arg).count v)
        (past ++ (walk arg s.visited).2)
        { s₁ with inner := (graph.leaves arg).foldl RefCounts.add s₁.inner } := by
      refine ⟨counts₁.faithful, counts₁.own, counts₁.prototypes, fun v => ?_⟩
      have added := foldl_add (graph.leaves arg) s₁.inner v
      rw [counts₁.refs v] at added
      dsimp only
      omega
    rw [← arrived.visited] at ahead ⊢
    refine (ih counted arrived.closed ahead).mono ?_
    rintro s' ⟨arrived', counts'⟩
    refine ⟨⟨arrived'.visited, arrived.ext.trans arrived'.ext, arrived'.closed⟩, ?_⟩
    refine ⟨counts'.faithful, counts'.own, counts'.prototypes, fun v => ?_⟩
    rw [counts'.refs v, List.flatMap_cons, List.count_append]
    push_cast
    ring

theorem visitCall_ensures {n : Node} {reshape : Option Nat} {args : List Node}
    (view : graph.view n = .call reshape args) (counts : Counts graph pending past s) (closed : s.Closed graph)
    (ahead : past ++ ((Graph.walkAll walk args s.visited).2 ++ [n]) <+: order) :
    Ensures fine (visitCall graph get n args s) fun s' =>
      Arrived graph s (Graph.walkAll walk args s.visited) s' ∧
        Counts graph pending (past ++ ((Graph.walkAll walk args s.visited).2 ++ [n])) s' := by
  have makes : (graph.view n).isMaker = true := by rw [view]; rfl
  refine ensures_bind (createToken_ensures makes counts) ?_
  rintro s₁ ⟨same, ext, counts₁⟩
  have closed₁ : s₁.Closed graph := by
    unfold Visitor.Closed
    rwa [same]
  rw [← same] at ahead ⊢
  rw [← List.append_assoc] at ahead ⊢
  refine (countArgs_ensures fetches counts₁ closed₁ ((List.prefix_append _ _).trans ahead)).mono ?_
  rintro s' ⟨arrived, counts'⟩
  refine ⟨⟨arrived.visited, ext.trans arrived.ext, arrived.closed⟩, ?_⟩
  refine ⟨counts'.faithful, counts'.own, counts'.prototypes, fun v => ?_⟩
  have reads : graph.argLeaves n = args.flatMap graph.leaves := by rw [Graph.argLeaves, view, View.args]
  have split : ((past ++ (Graph.walkAll walk args s₁.visited).2 ++ [n]).flatMap graph.argLeaves).count v =
      ((past ++ (Graph.walkAll walk args s₁.visited).2).flatMap graph.argLeaves).count v +
        (args.flatMap graph.leaves).count v := by
    rw [List.flatMap_append, List.count_append, List.flatMap_singleton, reads]
  rw [counts'.refs v, split]
  push_cast
  ring

end

theorem hooks_keep (fine : Event → Prop) (order : List Node) :
    Keeps fine order (Counts graph) graph (hooks graph) where
  faithful := Counts.faithful
  assign counts inner denotes := counts.assign inner denotes
  mark counts := ⟨counts.faithful, counts.own, counts.prototypes, counts.refs⟩
  pinned pin counts := createToken_ensures (by simp [View.isMaker, pin]) counts
  call fetches view counts := visitCall_ensures fetches view counts

def readers (graph : Graph Node) (v : Value Node) : Nat :=
  (graph.executionOrder.flatMap graph.argLeaves ++ graph.leaves graph.body).count v

theorem init_ensures (fine : Event → Prop) (flat : graph.Flat) (body : graph.isPrimitive = false) :
    Ensures fine (run graph (hooks graph) fun _ => 0) fun s =>
      (∀ v, s.inner v = readers graph v) ∧
        ∀ n tokens, s.tokenMap.lookup n = some tokens → (graph.view n).isMaker = true →
          graph.isSource n = true ∧ tokens = graph.ownValues n := by
  have start : Counts graph (fun _ => 0) [] ⟨[], ∅, fun _ => 0⟩ := by
    refine ⟨?_, ?_, ?_, by simp⟩
    · intro n tokens found
      cases found
    · intro v t owned
      simp [Visitor.owner] at owned
    · intro n tokens found
      cases found
  refine (run_ensures (hooks_keep fine graph.executionOrder) flat body rfl start).mono ?_
  rintro s ⟨s₀, tokens, counts, denotes, rfl⟩
  refine ⟨fun v => ?_, counts.prototypes⟩
  rw [counts.eq_of_denotes denotes]
  have added := foldl_add (graph.leaves graph.body) s₀.inner v
  rw [counts.refs v] at added
  rw [readers, List.count_append]
  simpa [hooks] using added

end Tlm.Relay.StorageAllocaInit
