import Mathlib.Data.List.Perm.Basic
import Tlm.Shared.Loop
import Tlm.Arith.TransitiveComparison

set_option autoImplicit false

namespace Tlm.Arith

open Traced

theorem CompareResult.reverse_holds {result : CompareResult} {x y : Int} (holds : result.Holds x y) :
    result.reverse.Holds y x := by
  cases result <;> simp only [Holds, reverse] at * <;> omega

theorem CompareResult.holds_add (result : CompareResult) (x y c : Int) :
    result.Holds (x + c) (y + c) ↔ result.Holds x y := by
  cases result <;> simp only [Holds] <;> omega

namespace TransitiveComparison

def Comparison.Holds (cmp : Comparison) (env : Env) : Prop :=
  cmp.result.Holds (cmp.lhs.value env) (cmp.rhs.value env + cmp.offset)

section

variable {env : Env} {cmp found : Comparison} {lhs rhs key : Key} {offset : Int}
  {result : CompareResult}

@[simp] theorem make_lhs : (Comparison.make lhs rhs offset result).lhs = lhs := by
  unfold Comparison.make
  split
  · rfl
  · split <;> rfl

@[simp] theorem make_rhs : (Comparison.make lhs rhs offset result).rhs = rhs := by
  unfold Comparison.make
  split
  · rfl
  · split <;> rfl

theorem make_holds (holds : result.Holds (lhs.value env) (rhs.value env + offset)) :
    (Comparison.make lhs rhs offset result).Holds env := by
  unfold Comparison.make
  split
  next less =>
    subst less
    simp only [Comparison.Holds, CompareResult.Holds] at *
    omega
  · split
    next greater =>
      subst greater
      simp only [Comparison.Holds, CompareResult.Holds] at *
      omega
    · exact holds

theorem withLHS_lhs (new : cmp.withLHS key = some found) : found.lhs = key := by
  unfold Comparison.withLHS at new
  split at new
  next same =>
    cases new
    exact same.symm
  · split at new
    next same =>
      cases new
      simp [same]
    · cases new

theorem withLHS_holds (new : cmp.withLHS key = some found) (holds : cmp.Holds env) : found.Holds env := by
  unfold Comparison.withLHS at new
  split at new
  · cases new
    exact holds
  · split at new
    · cases new
      apply make_holds
      have turned := CompareResult.reverse_holds holds
      rw [← CompareResult.holds_add _ _ _ cmp.offset]
      simpa using turned
    · cases new

theorem withLHS_rhs (new : cmp.withLHS key = some found) :
    found.rhs = if key = cmp.lhs then cmp.rhs else cmp.lhs := by
  unfold Comparison.withLHS at new
  split at new
  next same =>
    cases new
    simp [same]
  next differs =>
    split at new
    · cases new
      simp [differs]
    · cases new

variable {previous : Comparison}

theorem combine_sides (combined : combine lhs previous cmp = some found) :
    found.lhs = lhs ∧ found.rhs = cmp.rhs := by
  simp only [combine] at combined
  split_ifs at combined <;> cases combined <;> simp

theorem combine_holds (combined : combine lhs previous cmp = some found) (left : previous.lhs = lhs)
    (middle : previous.rhs = cmp.lhs) (holds : previous.Holds env) (also : cmp.Holds env) : found.Holds env := by
  unfold Comparison.Holds at holds also
  rw [left, middle] at holds
  have total : cmp.rhs.value env + (previous.offset + cmp.offset) =
      cmp.rhs.value env + cmp.offset + previous.offset := by omega
  simp only [combine] at combined
  split_ifs at combined with first _ second _ same <;> cases combined <;> apply make_holds
  · -- `x == y + c1`.
    rw [first] at holds
    rw [total, show lhs.value env = cmp.lhs.value env + previous.offset from holds]
    exact (CompareResult.holds_add _ _ _ _).2 also
  · -- `y == z + c2`.
    rw [second] at also
    rw [total, ← show cmp.lhs.value env = cmp.rhs.value env + cmp.offset from also]
    exact holds
  · rw [← same.1] at also
    rcases same.2 with order | order <;> simp only [order, CompareResult.Holds] at * <;> omega

theorem mergeComparison_holds {x y : Int} (before : result.Holds x (y + offset))
    (holds : cmp.result.Holds x (y + cmp.offset)) :
    (mergeComparison offset result cmp).Holds x (y + offset) := by
  have weaken : ∀ {stronger : CompareResult}, stronger.Holds x (y + offset) →
      (result &&& stronger).Holds x (y + offset) := CompareResult.and_holds before
  unfold mergeComparison
  cases order : cmp.result <;> simp only [order, CompareResult.Holds] at holds ⊢
  case unknown | lt | gt => exact before
  all_goals
    split_ifs <;> first
      | exact before
      | exact weaken (by simp only [CompareResult.Holds]; omega)

end

theorem countP_lt {α : Type} {p q : α → Bool} {list : List α} (implies : ∀ x, q x = true → p x = true)
    {a : α} (mem : a ∈ list) (holds : p a = true) (fails : q a = false) : list.countP q < list.countP p := by
  induction list with
  | nil => simp at mem
  | cons first rest ih =>
    have rest_le := List.countP_mono_left (l := rest) fun x _ => implies x
    rcases List.mem_cons.1 mem with rfl | mem
    · simp [holds, fails]
      omega
    · simp only [List.countP_cons]
      split_ifs <;> grind

section

variable {env : Env} {lhsKey rhsKey : Key} {knowns : List Comparison}

def Search.Sound (search : Search) (env : Env) (lhsKey : Key) : Prop :=
  ∀ key, ∀ cmp ∈ search.compared key, cmp.lhs = lhsKey ∧ cmp.rhs = key ∧ cmp.Holds env

variable {search : Search}

theorem take_some {arrange : Arrangement} {rest : Search} {key : Key}
    (taken : search.take arrange = some (key, rest)) :
    rest.compared = search.compared ∧ rest.seen = search.seen ∧
      rest.toVisit.length + 1 = search.toVisit.length := by
  have perm := (arrange search.toVisit).property
  unfold Search.take at taken
  split at taken
  · cases taken
  next middle others arranged =>
    cases taken
    rw [arranged] at perm
    exact ⟨rfl, rfl, by simpa using perm.length_eq⟩

def Search.pending (search : Search) (knowns : List Comparison) : Nat :=
  (sidesOf knowns).countP (· ∉ search.seen) + search.toVisit.length

theorem mem_replaceWeaker {cmp known : Comparison} {previous : List Comparison}
    (mem : known ∈ replaceWeaker cmp previous) : known = cmp ∨ known ∈ previous := by
  induction previous with
  | nil => simpa [replaceWeaker] using mem
  | cons first rest ih =>
    unfold replaceWeaker at mem
    split at mem
    · grind
    · grind

theorem declareKnown_sound (sound : search.Sound env lhsKey) {cmp : Comparison}
    (left : cmp.lhs = lhsKey) (holds : cmp.Holds env) : (search.declareKnown rhsKey cmp).Sound env lhsKey := by
  simp only [Search.declareKnown]
  split
  · exact sound
  · intro key known mem
    by_cases same : key = cmp.rhs
    · subst same
      simp only [Function.update_self] at mem
      rcases mem_replaceWeaker mem with rfl | old
      · exact ⟨left, rfl, holds⟩
      · exact sound _ known old
    · simp only [Function.update_of_ne same] at mem
      exact sound key known mem

variable {comparisons : List Comparison}

theorem declareAll_sound (sound : search.Sound env lhsKey)
    (true : ∀ cmp ∈ comparisons, cmp.lhs = lhsKey ∧ cmp.Holds env) :
    (search.declareAll rhsKey comparisons).Sound env lhsKey := by
  induction comparisons generalizing search with
  | nil => exact sound
  | cons cmp rest ih =>
    obtain ⟨here, others⟩ := List.forall_mem_cons.1 true
    exact ih (declareKnown_sound sound here.1 here.2) others

variable (facts : ∀ cmp ∈ knowns, cmp.Holds env)

include facts

theorem visit_sound (sound : search.Sound env lhsKey) (middle : Key) :
    (search.visit lhsKey rhsKey knowns middle).Sound env lhsKey := by
  apply declareAll_sound sound
  intro cmp mem
  obtain ⟨known, memKnown, mem⟩ := List.mem_flatMap.1 mem
  obtain ⟨original, memOriginal, turned⟩ := List.mem_filterMap.1 memKnown
  unfold attemptTransitive at mem
  split at mem
  · simp at mem
  · obtain ⟨previous, memPrevious, combined⟩ := List.mem_filterMap.1 mem
    obtain ⟨left, right, holds⟩ := sound middle previous memPrevious
    exact ⟨(combine_sides combined).1, combine_holds combined left
      (right.trans (withLHS_lhs turned).symm) holds (withLHS_holds turned (facts _ memOriginal))⟩

theorem dfsFromLHS_sound (arrange : Arrangement) :
    ∀ cmp ∈ dfsFromLHS lhsKey rhsKey knowns arrange, cmp.lhs = lhsKey ∧ cmp.rhs = rhsKey ∧ cmp.Holds env := by
  have initial : (Search.start lhsKey rhsKey knowns).Sound env lhsKey := by
    refine declareAll_sound (by simp [Search.Sound]) fun cmp mem => ?_
    obtain ⟨original, memOriginal, turned⟩ := List.mem_filterMap.1 mem
    exact ⟨withLHS_lhs turned, withLHS_holds turned (facts _ memOriginal)⟩
  refine Worklist.drain_invariant (Search.Sound · env lhsKey) ?_ _ initial rhsKey
  intro search key rest sound taken
  apply visit_sound facts
  have same := (take_some taken).1
  simpa only [Search.Sound, same] using sound

omit facts in
theorem declareKnown_pending {cmp : Comparison} (side : cmp.rhs ∈ sidesOf knowns) :
    (search.declareKnown rhsKey cmp).pending knowns ≤ search.pending knowns := by
  simp only [Search.declareKnown]
  split
  · rfl
  · by_cases isNew : cmp.rhs ≠ rhsKey ∧ cmp.rhs ∉ search.seen
    · -- One more to visit, and one less that has not been seen.
      have fewer : (sidesOf knowns).countP (· ∉ cmp.rhs :: search.seen) <
          (sidesOf knowns).countP (· ∉ search.seen) := by
        refine countP_lt (fun x => ?_) side (by simpa using isNew.2) (by simp)
        simp +contextual
      simp only [Search.pending, if_pos isNew, List.length_cons]
      omega
    · simp [Search.pending, if_neg isNew]

omit facts in
theorem declareAll_pending (sides : ∀ cmp ∈ comparisons, cmp.rhs ∈ sidesOf knowns) :
    (search.declareAll rhsKey comparisons).pending knowns ≤ search.pending knowns := by
  induction comparisons generalizing search with
  | nil => rfl
  | cons cmp rest ih =>
    obtain ⟨here, others⟩ := List.forall_mem_cons.1 sides
    exact (ih others).trans (declareKnown_pending here)

omit facts in
theorem rhs_mem_sidesOf {key : Key} {cmp : Comparison}
    (mem : cmp ∈ knowns.filterMap (·.withLHS key)) : cmp.rhs ∈ sidesOf knowns := by
  obtain ⟨original, memOriginal, turned⟩ := List.mem_filterMap.1 mem
  refine List.mem_flatMap.2 ⟨original, memOriginal, ?_⟩
  rw [withLHS_rhs turned]
  split <;> simp

omit facts in
theorem search_finishes (arrange : Arrangement) :
    Search.take arrange (Worklist.drain (Search.take arrange) (Search.visit lhsKey rhsKey knowns)
      (sidesOf knowns).length (Search.start lhsKey rhsKey knowns)) = none := by
  refine Worklist.drain_empty (fun _ => True) (by simp) (Search.pending · knowns) ?_ trivial ?_
  · intro search middle rest _ taken
    obtain ⟨-, seen, shorter⟩ := take_some taken
    have visited : (rest.visit lhsKey rhsKey knowns middle).pending knowns ≤ rest.pending knowns := by
      apply declareAll_pending
      intro cmp mem
      obtain ⟨known, memKnown, mem⟩ := List.mem_flatMap.1 mem
      unfold attemptTransitive at mem
      split at mem
      · simp at mem
      · obtain ⟨previous, -, combined⟩ := List.mem_filterMap.1 mem
        rw [(combine_sides combined).2]
        exact rhs_mem_sidesOf memKnown
    have less : rest.pending knowns < search.pending knowns := by
      simp only [Search.pending, seen]
      omega
    omega
  · refine (declareAll_pending fun cmp mem => rhs_mem_sidesOf mem).trans ?_
    simp [Search.pending]

theorem collectDirectComparisons_sound :
    ∀ cmp ∈ collectDirectComparisons lhsKey rhsKey knowns,
      cmp.lhs = lhsKey ∧ cmp.rhs = rhsKey ∧ cmp.Holds env := by
  intro cmp mem
  obtain ⟨mem, right⟩ := List.mem_filter.1 mem
  obtain ⟨original, memOriginal, turned⟩ := List.mem_filterMap.1 mem
  exact ⟨withLHS_lhs turned, by simpa using right, withLHS_holds turned (facts _ memOriginal)⟩

theorem collectIndirectComparisons_sound (arrange : Arrangement) :
    ∀ cmp ∈ collectIndirectComparisons lhsKey rhsKey knowns arrange,
      cmp.lhs = lhsKey ∧ cmp.rhs = rhsKey ∧ cmp.Holds env := by
  intro cmp mem
  rcases List.mem_append.1 mem with mem | mem
  · exact dfsFromLHS_sound facts arrange cmp mem
  · obtain ⟨original, memOriginal, turned⟩ := List.mem_filterMap.1 mem
    obtain ⟨left, right, holds⟩ := dfsFromLHS_sound facts arrange original memOriginal
    refine ⟨withLHS_lhs turned, ?_, withLHS_holds turned holds⟩
    rw [withLHS_rhs turned, left, right]
    split
    next same => exact same
    · rfl

end

section

variable {env : Env}

theorem extractOffset_value (e : PrimExpr) :
    e.value env = (extractOffset e).1.value env + (extractOffset e).2 := by
  fun_cases extractOffset e <;> simp [PrimExpr.value, BinOp.apply]
  omega

theorem mergeComparisons_holds {lhs rhs : Key} {comparisons : List Comparison}
    (true : ∀ cmp ∈ comparisons, cmp.lhs = lhs ∧ cmp.rhs = rhs ∧ cmp.Holds env) (offset : Int) :
    (mergeComparisons comparisons offset).Holds (lhs.value env) (rhs.value env + offset) := by
  have fold : ∀ result : CompareResult, result.Holds (lhs.value env) (rhs.value env + offset) →
      (comparisons.foldl (mergeComparison offset) result).Holds (lhs.value env)
        (rhs.value env + offset) := by
    induction comparisons with
    | nil => exact fun _ holds => holds
    | cons cmp rest ih =>
      obtain ⟨⟨left, right, holds⟩, others⟩ := List.forall_mem_cons.1 true
      intro result before
      refine ih others _ (mergeComparison_holds before ?_)
      rwa [Comparison.Holds, left, right] at holds
  exact fold .unknown trivial

theorem tryCompare_holds {state : State}
    (facts : ∀ cmp ∈ state.knowns ++ state.scopedKnowns, cmp.Holds env) (arrange : Arrangement)
    (lhs rhs : PrimExpr) (propagateInequalities : Bool) :
    (state.tryCompare arrange lhs rhs propagateInequalities).Holds (lhs.value env) (rhs.value env) := by
  unfold State.tryCompare
  split
  · trivial
  · split
    next x y foundX foundY =>
      obtain ⟨_, rfl⟩ := PrimExpr.asIntImm_eq foundX
      obtain ⟨_, rfl⟩ := PrimExpr.asIntImm_eq foundY
      split_ifs <;> simp only [CompareResult.Holds, PrimExpr.value] <;> omega
    · simp only
      split
      · rw [extractOffset_value lhs, extractOffset_value rhs]
        have found : ∀ cmp ∈ if propagateInequalities = true then
              collectIndirectComparisons (extractOffset lhs).1 (extractOffset rhs).1
                (state.knowns ++ state.scopedKnowns) arrange
            else collectDirectComparisons (extractOffset lhs).1 (extractOffset rhs).1
              (state.knowns ++ state.scopedKnowns),
            cmp.lhs = (extractOffset lhs).1 ∧ cmp.rhs = (extractOffset rhs).1 ∧ cmp.Holds env := by
          split
          · exact collectIndirectComparisons_sound facts arrange
          · exact collectDirectComparisons_sound facts
        have merged := mergeComparisons_holds found ((extractOffset rhs).2 - (extractOffset lhs).2)
        rw [← CompareResult.holds_add _ _ _ (extractOffset lhs).2] at merged
        simpa [add_assoc] using merged
      · trivial

theorem resultOf_holds {op : BinOp} {result : CompareResult} (found : resultOf op = some result)
    {x y : Int} (holds : op.apply x y ≠ 0) : result.Holds x y := by
  cases op <;> simp only [resultOf, Option.some.injEq, reduceCtorEq] at found <;> subst found <;>
    simpa [BinOp.apply, BinOp.toInt_ne_zero, CompareResult.Holds] using holds

variable {e : PrimExpr}

theorem fromExpr_cases {cmp : Comparison} (found : fromExpr e = some cmp) :
    ∃ op x y result, e = .binary op x y ∧ resultOf op = some result ∧
      cmp = .make (extractOffset x).1 (extractOffset y).1
        ((extractOffset y).2 - (extractOffset x).2) result := by
  unfold fromExpr at found
  split at found
  next op x y =>
    split at found
    · cases found
    · obtain ⟨result, known, rfl⟩ := Option.map_eq_some_iff.1 found
      exact ⟨op, x, y, result, rfl, known, rfl⟩
  · cases found

theorem fromExpr_holds {cmp : Comparison} (found : fromExpr e = some cmp) (holds : e.value env ≠ 0) :
    cmp.Holds env := by
  obtain ⟨op, x, y, result, rfl, known, rfl⟩ := fromExpr_cases found
  apply make_holds
  have order := resultOf_holds known holds
  rw [extractOffset_value x, extractOffset_value y] at order
  rw [← CompareResult.holds_add _ _ _ (extractOffset x).2]
  simpa [add_assoc] using order

theorem comparisonsOf_hold {isPure : PrimExpr → Bool} (holds : e.value env ≠ 0) :
    ∀ cmp ∈ comparisonsOf isPure e, cmp.Holds env := by
  unfold comparisonsOf
  split
  · intro cmp mem
    obtain ⟨part, memPart, found⟩ := List.mem_filterMap.1 mem
    exact fromExpr_holds found (extractConstraints_hold.1 holds part memPart)
  · simp

end

section

variable {isPure : PrimExpr → Bool}

-- What a binding adds is about the variable, or about the variable where it was cast to the type of the range.
def State.About (state : State) (v : Var) (key : Key) : Prop :=
  key = .var v ∧ key ∈ state.registered ∨ ∃ t, key = .cast t (.var v)

def isCastOf (v : Var) : Key → Bool
  | .cast _ (.var w) => w = v
  | _ => false

def State.KnownsOk (state : State) : Prop :=
  ∀ cmp ∈ state.knowns, ∃ v range, state.prevBindings v = some range ∧ state.About v cmp.lhs ∧
    ∀ env : Env, range.Contains env (env.var v) → cmp.Holds env

def Session.ScopedOk (session : Session) : Prop :=
  ∀ place cmp, session.state.scopedKnowns[place]? = some cmp →
    ∃ scope ∈ session.scopes, scope.active = true ∧ scope.oldSize ≤ place ∧
      ∀ env, scope.constraint.value env ≠ 0 → cmp.Holds env

structure Session.Ok (session : Session) : Prop where
  knowns : session.state.KnownsOk
  scopedKnowns : session.ScopedOk

structure Session.Satisfied (session : Session) (env : Env) : Prop where
  bindings : ∀ v range, session.state.prevBindings v = some range →
    range.Contains env (env.var v)
  constraints : ∀ scope ∈ session.scopes, scope.active = true → scope.constraint.value env ≠ 0

variable {session : Session}

theorem Session.Ok.facts (ok : session.Ok) {env : Env} (satisfied : session.Satisfied env) :
    ∀ cmp ∈ session.state.knowns ++ session.state.scopedKnowns, cmp.Holds env := by
  intro cmp mem
  rcases List.mem_append.1 mem with mem | mem
  · obtain ⟨v, range, bound, -, holds⟩ := ok.knowns cmp mem
    exact holds env (satisfied.bindings v range bound)
  · obtain ⟨place, found⟩ := List.mem_iff_getElem?.1 mem
    obtain ⟨scope, memScope, active, -, holds⟩ := ok.scopedKnowns place cmp found
    exact holds env (satisfied.constraints scope memScope active)

theorem State.About.mono {state next : State} {v : Var} {key : Key} (about : state.About v key)
    (more : state.registered ⊆ next.registered) : next.About v key :=
  about.imp_left fun ⟨same, known⟩ => ⟨same, more known⟩

theorem enter_ok (ok : session.Ok) (constraint : PrimExpr) :
    Ensures Exact (session.step isPure (.enter constraint)) Session.Ok := by
  refine ensures_pure ⟨?_, ?_⟩
  · intro cmp mem
    obtain ⟨v, range, bound, about, holds⟩ := ok.knowns cmp mem
    exact ⟨v, range, bound, about.mono (List.subset_append_left _ _), holds⟩
  · intro place cmp found
    by_cases old : place < session.state.scopedKnowns.length
    · simp only [State.enterConstraint, List.getElem?_append_left old] at found
      obtain ⟨scope, mem, rest⟩ := ok.scopedKnowns place cmp found
      exact ⟨scope, List.mem_append_left _ mem, rest⟩
    · simp only [State.enterConstraint, List.getElem?_append_right (not_lt.1 old)] at found
      refine ⟨_, List.mem_append_right _ (List.mem_singleton.2 rfl), rfl, not_lt.1 old, ?_⟩
      exact fun env holds => comparisonsOf_hold holds cmp (List.mem_of_getElem? found)

theorem exit_ok (ok : session.Ok) (index : Nat) :
    Ensures Exact (session.exit index) Session.Ok := by
  unfold Session.exit
  split
  · exact ensures_pure ok
  next scope at_index =>
    split
    · refine ensures_pure ⟨ok.knowns, ?_⟩
      intro place cmp found
      simp only [List.getElem?_take] at found
      split at found
      next before =>
        obtain ⟨owner, mem, active, after, holds⟩ := ok.scopedKnowns place cmp found
        obtain ⟨other, at_other⟩ := List.mem_iff_getElem?.1 mem
        have apart : index ≠ other := by
          rintro rfl
          cases at_index.symm.trans at_other
          omega
        refine ⟨owner, List.mem_iff_getElem?.2 ⟨other, ?_⟩, active, after, holds⟩
        rwa [List.getElem?_set_ne apart]
      · cases found
    · exact ensures_fail

variable {state : State}

theorem State.About.unique {v w : Var} {key : Key} (first : state.About v key) (second : state.About w key) : v = w := by
  rcases first with ⟨same, -⟩ | ⟨t, same⟩ <;> rcases second with ⟨same', -⟩ | ⟨t', same'⟩ <;>
    cases same.symm.trans same' <;> rfl

-- A binding that is overridden has left no comparison behind that a cast keeps from being forgotten.
def State.Forgets (state : State) (v : Var) (range : Range) : Prop :=
  ∀ previous ∈ state.prevBindings v, previous ≠ range → ∀ cmp ∈ state.knowns, isCastOf v cmp.lhs = false

instance (v : Var) (range : Range) : Decidable (state.Forgets v range) :=
  inferInstanceAs (Decidable (∀ previous ∈ state.prevBindings v, previous ≠ range → ∀ cmp ∈ state.knowns, _))

theorem forget_ok (ok : state.KnownsOk) {v : Var} {range : Range} (forgets : state.Forgets v range)
    (allowOverride : Bool) : Ensures Exact (state.forget v range allowOverride) fun next =>
      { next with prevBindings := Function.update next.prevBindings v (some range) }.KnownsOk ∧
        next.scopedKnowns = state.scopedKnowns := by
  -- The knowns of the other variables stay, with their ranges.
  have others : ∀ knowns : List Comparison,
      (∀ cmp ∈ knowns, cmp ∈ state.knowns ∧ (state.About v cmp.lhs → state.prevBindings v = some range)) →
      State.KnownsOk ⟨state.registered, Function.update state.prevBindings v (some range), knowns,
        state.scopedKnowns⟩ := by
    intro knowns kept cmp mem
    obtain ⟨old, same⟩ := kept cmp mem
    obtain ⟨w, range', bound, about, holds⟩ := ok cmp old
    refine ⟨w, range', ?_, about, holds⟩
    by_cases here : w = v
    · subst here
      rw [same about] at bound
      simpa using bound
    · simpa [Function.update_of_ne here] using bound
  unfold State.forget
  split
  next unbound =>
    refine ensures_pure ⟨others _ fun cmp mem => ⟨mem, fun about => ?_⟩, rfl⟩
    obtain ⟨w, range', bound, about', -⟩ := ok cmp mem
    cases about.unique about'
    cases unbound.symm.trans bound
  next previous bound =>
    split
    next same => exact ensures_pure ⟨others _ fun cmp mem => ⟨mem, fun _ => same ▸ bound⟩, rfl⟩
    next differs =>
      have uncast : ∀ cmp ∈ state.knowns, ∀ t, cmp.lhs ≠ .cast t (.var v) := by
        intro cmp mem t same
        simpa [same, isCastOf] using forgets previous bound differs cmp mem
      split
      · refine ensures_pure ⟨others _ fun cmp mem => ?_, rfl⟩
        split at mem
        · obtain ⟨mem, other⟩ := List.mem_filter.1 mem
          refine ⟨mem, fun about => ?_⟩
          rcases about with ⟨same, -⟩ | ⟨t, same⟩
          · simp [same] at other
          · exact absurd same (uncast cmp mem t)
        next unregistered =>
          -- A variable that knowns are about has been registered.
          refine ⟨mem, fun about => ?_⟩
          rcases about with ⟨same, known⟩ | ⟨t, same⟩
          · exact absurd (same ▸ known) unregistered
          · exact absurd same (uncast cmp mem t)
      · exact ensures_fail

variable {range : Range}

theorem addKnown_ok (ok : state.KnownsOk) {v : Var} (bound : state.prevBindings v = some range)
    {op : BinOp} {x y : PrimExpr} (plain : op ≠ .and) (shape : x = .var v ∨ ∃ t, x = .cast t (.var v))
    (holds : ∀ env : Env, range.Contains env (env.var v) → PrimExpr.value env (.binary op x y) ≠ 0) :
    (state.addKnown isPure (.binary op x y)).KnownsOk := by
  intro cmp mem
  rcases List.mem_append.1 mem with mem | mem
  · obtain ⟨w, range', bound, about, rest⟩ := ok cmp mem
    exact ⟨w, range', bound, about.mono (List.subset_append_left _ _), rest⟩
  · have left : cmp.lhs = x := by
      unfold comparisonsOf at mem
      split at mem
      · obtain ⟨part, memPart, found⟩ := List.mem_filterMap.1 mem
        have whole : part = .binary op x y := by
          cases op <;> simp_all [extractConstraints]
        obtain ⟨op', x', y', result, same, -, rfl⟩ := fromExpr_cases found
        cases whole.symm.trans same
        rcases shape with rfl | ⟨t, rfl⟩ <;> simp [extractOffset]
      · simp at mem
    refine ⟨v, range, bound, ?_, fun env inside => comparisonsOf_hold (holds env inside) cmp mem⟩
    rw [left]
    refine shape.imp_left fun same => ⟨same, List.mem_append_right _ (List.mem_flatMap.2 ⟨cmp, mem, ?_⟩)⟩
    simp [left]

variable (isPure) in
theorem compare_ok (ok : state.KnownsOk) {v : Var} (bound : state.prevBindings v = some range) {op : BinOp}
    (compares : op = .eq ∨ op = .lt ∨ op = .ge) {y : PrimExpr}
    (holds : ∀ env : Env, range.Contains env (env.var v) → op.apply (env.var v) (y.value env) ≠ 0) :
    Ensures Exact (binaryOp op (.var v) y) fun e => (state.addKnown isPure e).KnownsOk := by
  refine (binaryOp_compare compares v y).mono ?_
  rintro _ ⟨l, r, rfl, shape, same⟩
  have plain : op ≠ .and := by rcases compares with rfl | rfl | rfl <;> decide
  refine addKnown_ok ok bound plain (shape.imp_right fun cast => ⟨_, cast⟩) fun env inside => ?_
  have value : l.value env = env.var v := by rcases shape with rfl | rfl <;> rfl
  rw [PrimExpr.value, value, same]
  exact holds env inside

theorem bind_ok (ok : session.Ok) {v : Var} {range : Range} (forgets : session.state.Forgets v range)
    (allowOverride : Bool) :
    Ensures Exact (session.step isPure (.bind v range allowOverride)) Session.Ok := by
  have scopes : ∀ {next : State}, next.scopedKnowns = session.state.scopedKnowns →
      Session.ScopedOk { session with state := next } := by
    intro next same place cmp found
    exact ok.scopedKnowns place cmp (same ▸ found)
  have bound : Ensures Exact (session.state.bind isPure v range allowOverride)
      fun next => next.KnownsOk ∧ next.scopedKnowns = session.state.scopedKnowns := by
    refine ensures_bind (forget_ok ok.knowns forgets allowOverride) ?_
    rintro next ⟨known, same⟩
    split
    next one =>
      obtain ⟨_, extent⟩ := PrimExpr.asIntImm_eq one
      refine ensures_bind (compare_ok isPure known (Function.update_self ..) (.inl rfl) ?_) fun e added =>
        ensures_pure ⟨added, same⟩
      intro env inside
      simp only [Range.Contains, extent, PrimExpr.value] at inside
      exact (BinOp.apply_eq_holds _ _).2 (by omega)
    · refine ensures_bind (compare_ok isPure known (Function.update_self ..) (.inr (.inr rfl)) ?_) fun e added => ?_
      · exact fun env inside => (BinOp.apply_ge_holds _ _).2 inside.1
      · refine ensures_bind (binaryOp_exact (.refl _) (.refl _) (.inl rfl)) fun upper renders => ?_
        refine ensures_bind (compare_ok isPure added (Function.update_self ..) (.inr (.inl rfl)) ?_) fun e added =>
          ensures_pure ⟨added, same⟩
        intro env inside
        rw [renders.value]
        exact (BinOp.apply_lt_holds _ _).2 inside.2
  refine ensures_bind bound ?_
  rintro next ⟨known, same⟩
  exact ensures_pure ⟨known, scopes same⟩

-- The constants that a binding folds fit their types, and an override forgets all that it replaces.
def Session.Clear (isPure : PrimExpr → Bool) (session : Session) (operation : Operation) : Prop :=
  Event.inexact ∉ (session.step isPure operation).log ∧
    match operation with
    | .bind v range _ => session.state.Forgets v range
    | _ => True

instance (session : Session) : (operation : Operation) → Decidable (session.Clear isPure operation)
  | .bind v range _ => inferInstanceAs (Decidable (_ ∧ session.state.Forgets v range))
  | .enter _ | .exit _ => inferInstanceAs (Decidable (_ ∧ True))

theorem step_ok (ok : session.Ok) {operation : Operation} (clear : session.Clear isPure operation) {next : Session}
    (returned : (session.step isPure operation).result = .ok next) : next.Ok := by
  have exact : ∀ event ∈ (session.step isPure operation).log, Exact event :=
    fun event mem same => clear.1 (same ▸ mem)
  cases operation with
  | bind v range allowOverride => exact bind_ok ok clear.2 allowOverride exact next returned
  | enter constraint => exact enter_ok ok constraint exact next returned
  | exit index => exact exit_ok ok index exact next returned

theorem run_ok (ok : session.Ok) {operations : List Operation} {final : Session}
    (clear : Cpp.Along (Session.Clear isPure) (fun session operation => (session.step isPure operation).result) operations
      session) (returned : (session.run isPure operations).result = .ok final) : final.Ok := by
  induction operations generalizing session with
  | nil =>
    cases returned
    exact ok
  | cons operation rest ih =>
    obtain ⟨next, first, later⟩ := result_bind returned
    exact ih (step_ok ok clear.1 first) (clear.2 next first) later

theorem start_ok : Session.start.Ok where
  knowns := by simp [Session.start, State.empty, State.KnownsOk]
  scopedKnowns := by simp [Session.start, State.empty, Session.ScopedOk]

theorem tryCompare_implied (isPure : PrimExpr → Bool) (operations : List Operation)
    {session : Session} (returned : (Session.start.run isPure operations).result = .ok session)
    (clear : Cpp.Along (Session.Clear isPure) (fun session operation => (session.step isPure operation).result) operations
      Session.start) {env : Env} (satisfied : session.Satisfied env) (arrange : Arrangement) (lhs rhs : PrimExpr)
    (propagateInequalities : Bool) :
    (session.state.tryCompare arrange lhs rhs propagateInequalities).Holds (lhs.value env)
      (rhs.value env) :=
  tryCompare_holds ((run_ok start_ok clear returned).facts satisfied) arrange lhs rhs propagateInequalities

def varX : Var := ⟨0, .int32, false⟩

def varY : Var := ⟨1, .int32, false⟩

def inOrder : Arrangement := fun keys => ⟨keys, .refl keys⟩

-- `x` in `[0, 10)`, and then `x + 2 <= y` between two scopes that are left.
def chained : List Operation :=
  [.bind varX ⟨.intImm .int32 0, .intImm .int32 10⟩ false,
    .enter (.binary .lt (.var varY) (.intImm .int32 0)), .exit 0,
    .enter (.binary .le (.binary .add (.var varX) (.intImm .int32 2)) (.var varY)),
    .enter (.binary .lt (.var varY) (.var varX)), .exit 2]

-- `x` in a range of two numbers from the largest `int32` on.
def lastOfType : List Operation :=
  [.bind varX ⟨.intImm .int32 (2 ^ 31 - 1), .intImm .int32 2⟩ false]

theorem satisfied_of_bound {env : Env}
    (bindings : session.state.prevBindings = Function.update (fun _ => none) varX (some range))
    (inside : range.Contains env (env.var varX))
    (constraints : ∀ scope ∈ session.scopes, scope.active = true → scope.constraint.value env ≠ 0) : session.Satisfied env where
  bindings v range' bound := by
    rw [bindings] at bound
    by_cases here : v = varX
    · subst here
      simp only [Function.update_self, Option.some.injEq] at bound
      exact bound ▸ inside
    · simp [Function.update_of_ne here] at bound
  constraints := constraints

def sevenNine : Env := ⟨fun v => if v = varX then 7 else 9, fun _ => 0⟩

theorem chained_implied :
    ∃ session, (Session.start.run (fun _ => true) chained).result = .ok session ∧
      session.Satisfied sevenNine ∧
      session.state.tryCompare inOrder (.var varY) (.intImm .int32 1) true = .gt ∧
      (session.state.tryCompare inOrder (.var varY) (.intImm .int32 1) true).Holds
        ((PrimExpr.var varY).value sevenNine) ((PrimExpr.intImm .int32 1).value sevenNine) := by
  refine ⟨_, rfl, satisfied_of_bound rfl (by decide) (by decide +kernel), by decide +kernel, ?_⟩
  exact tryCompare_implied (fun _ => true) chained rfl (by decide +kernel)
    (satisfied_of_bound rfl (by decide) (by decide +kernel)) inOrder (.var varY) (.intImm .int32 1) true

-- The end `2 ^ 31 + 1` of the range is wrapped to `int32`, and nothing is left of it.
theorem lastOfType_inconsistent :
    ∃ session, (Session.start.run (fun _ => true) lastOfType).result = .ok session ∧
      session.Satisfied ⟨fun _ => 2 ^ 31 - 1, fun _ => 0⟩ ∧
      session.state.tryCompare inOrder (.var varX) (.intImm .int32 5) true = .inconsistent ∧
      ¬(session.state.tryCompare inOrder (.var varX) (.intImm .int32 5) true).Holds (2 ^ 31 - 1) 5 := by
  have answer : ∀ session, (Session.start.run (fun _ => true) lastOfType).result = .ok session →
      session.state.tryCompare inOrder (.var varX) (.intImm .int32 5) true = .inconsistent := by
    rintro _ ⟨⟩
    decide +kernel
  refine ⟨_, rfl, satisfied_of_bound rfl (by decide) (by decide +kernel), answer _ rfl, ?_⟩
  exact id

-- The first range is known of `cast(int64, x)`, which the second one does not replace.
theorem override_keeps_cast :
    ∃ session, (Session.start.run (fun _ => true)
        [.bind varX ⟨.intImm .int64 0, .intImm .int64 10⟩ false,
          .bind varX ⟨.intImm .int64 20, .intImm .int64 10⟩ true]).result = .ok session ∧
      session.state.tryCompare inOrder (.cast .int64 (.var varX)) (.intImm .int64 15) true = .inconsistent :=
  ⟨_, rfl, by decide +kernel⟩

end

end TransitiveComparison

end Tlm.Arith
