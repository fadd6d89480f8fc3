import Tlm.Arith.ConstIntBound
import Tlm.Arith.ModularSetSound
import Tlm.Arith.Pattern

set_option autoImplicit false

namespace Tlm.Arith

open Cpp Traced

namespace RewriteSimplifier

structure Queries where
  sameAs : PrimExpr → PrimExpr → Bool
  eq_of_sameAs : ∀ a b, sameAs a b = true → a = b
  canProveGreaterEqual : PrimExpr → Int → Bool
  canProveLess : PrimExpr → Int → Bool
  canProveEqual : PrimExpr → Int → Bool
  constIntBound : PrimExpr → ConstIntBound.Entry
  modularSet : PrimExpr → ModularSet.Entry
  -- `transitive_comparisons.TryCompare`.
  knownInequality : PrimExpr → PrimExpr → CompareResult

open ConstIntBound in
-- The value is between the bounds, where `kNegInf` and `kPosInf` are infinite.
def Encloses (bound : ConstIntBound.Entry) (value : Int) : Prop :=
  (bound.minValue = kNegInf ∨ bound.minValue < kPosInf ∧ bound.minValue ≤ value) ∧
    (bound.maxValue = kPosInf ∨ kNegInf < bound.maxValue ∧ value ≤ bound.maxValue)

structure Queries.Sound (queries : Queries) (env : Env) : Prop where
  greaterEqual : ∀ e : PrimExpr, e.Defined env → ∀ k,
    queries.canProveGreaterEqual e k = true → k ≤ e.value env
  less : ∀ e : PrimExpr, e.Defined env → ∀ k,
    queries.canProveLess e k = true → e.value env < k
  equal : ∀ e : PrimExpr, e.Defined env → ∀ k,
    queries.canProveEqual e k = true → e.value env = k
  bound : ∀ e : PrimExpr, e.Defined env → Encloses (queries.constIntBound e) (e.value env)
  modular : ∀ e : PrimExpr, e.Defined env → (queries.modularSet e).Contains (e.value env)
  compare : ∀ a b : PrimExpr, a.Defined env → b.Defined env →
    (queries.knownInequality a b).Holds (a.value env) (b.value env)

inductive Check where
  | cond (holds : Consts → Bool)
  -- A value computed on `int64_t` on the way.
  | computes (value : Consts → Int)
  | greaterEqual (p : Pattern) (value : Consts → Int)
  | equalZero (p : Pattern)

def Check.patterns : Check → List Pattern
  | .greaterEqual p _ | .equalZero p => [p]
  | _ => []

-- The pattern can be evaluated once `source` has matched. It truncates only if `source` does or is a
-- formula, and its divisors are constants if those of `source` are.
def admits (source : Pattern) (kind : Kind) (p : Pattern) : Bool :=
  p.hasKind kind && p.coveredBy kind source &&
    (!p.truncates || source.truncates || source.rootKind = .bool) &&
    p.constantDivisors source.divisors

abbrev Admitted (sources : List Pattern) (result : Pattern) (checks : List Check)
    (needs : Option (Consts → Bool)) (assumes : Option (Consts → Int)) : Prop :=
  (sources.all fun source =>
    source.isNode && source.hasKind source.rootKind && admits source source.rootKind result &&
      (checks.flatMap Check.patterns).all (admits source .index) &&
      (needs.isNone || source.rootKind = .bool) &&
      (assumes.isNone || source.truncates && (source.uses source.rootKind).contains (.x, .index)))
    = true

-- `TVM_TRY_REWRITE` and its variants. The result and the conditions use no variable that one of the
-- patterns leaves open.
structure Rule where
  sources : List Pattern
  result : Pattern
  checks : List Check
  recursive : Bool
  -- What the rule needs of the constants and does not check.
  needs : Option (Consts → Bool)
  -- Where the rule needs `0 ≤ x + k` and does not check it.
  assumes : Option (Consts → Int)
  admitted : Admitted sources result checks needs assumes

structure Outcome where
  expr : PrimExpr
  recursive : Bool
  deriving DecidableEq, Repr

section

variable (queries : Queries) (dtype : DataType) (s : Bindings)

def Check.eval : Check → Folding Bool
  | .cond holds => return holds s.consts
  | .computes value => do
    bounded (value s.consts)
    return true
  | .greaterEqual p value => do
    return queries.canProveGreaterEqual (← p.eval queries.sameAs dtype s) (value s.consts)
  | .equalZero p => do return queries.canProveEqual (← p.eval queries.sameAs dtype s) 0

def evalAll : List Check → Folding Bool
  | [] => return true
  | check :: rest => do if ← check.eval queries dtype s then evalAll rest else return false

def Rule.meet (rule : Rule) : Folding Unit :=
  match rule.needs with
  | some holds => if holds s.consts then return () else emit .unmet
  | none => return ()

def Rule.rely (rule : Rule) : Folding Unit :=
  match rule.assumes, s.expr .x with
  | some k, some e => emit (.assumed e (k s.consts))
  | _, _ => return ()

variable (e : PrimExpr)

-- A pattern whose condition fails leaves the choice to the next one.
def Rule.trySources (rule : Rule) : List Pattern → Folding (Option Outcome)
  | [] => return none
  | source :: rest =>
    match source.matchExpr e .empty with
    | none => rule.trySources rest
    | some s => do
      if ← attempt id (evalAll queries dtype s rule.checks) then
        rule.meet s
        rule.rely s
        return some ⟨← rule.result.eval queries.sameAs dtype s, rule.recursive⟩
      else rule.trySources rest

end

abbrev Step := Queries → DataType → PrimExpr → Folding (Option Outcome)

def Rule.apply (rule : Rule) : Step :=
  fun queries dtype e => rule.trySources queries dtype e rule.sources

def firstOf : List Step → Step
  | [], _, _, _ => return none
  | step :: rest, queries, dtype, e => do
    match ← attempt Option.isSome (step queries dtype e) with
    | some outcome => return some outcome
    | none => firstOf rest queries dtype e

def Check.Holds (σ : Values) : Check → Prop
  | .cond holds => holds σ.const = true
  | .computes value => -2 ^ 63 ≤ value σ.const ∧ value σ.const < 2 ^ 63
  | .greaterEqual p value => value σ.const ≤ p.value σ
  | .equalZero p => p.value σ = 0

def Check.Known (σ : Values) : Check → Prop
  | .cond holds => holds σ.const = true
  | .computes value => -2 ^ 63 ≤ value σ.const ∧ value σ.const < 2 ^ 63
  | _ => True

def Reads (σ : Values) : List Check → Prop
  | [] => True
  | check :: rest => (∀ p ∈ check.patterns, p.Defined σ) ∧ (check.Known σ → Reads σ rest)

-- The integer statement behind the rule. That the result has a value does not depend on the analyzer.
def Rule.Sound (rule : Rule) : Prop :=
  ∀ source ∈ rule.sources, ∀ σ : Values, source.Defined σ →
    Reads σ rule.checks ∧
      ((∀ check ∈ rule.checks, check.Known σ) →
        (∀ holds, rule.needs = some holds → holds σ.const = true) → rule.result.Defined σ) ∧
      ((∀ check ∈ rule.checks, check.Holds σ) →
        (∀ holds, rule.needs = some holds → holds σ.const = true) →
        (∀ k, rule.assumes = some k → 0 ≤ σ.expr .x + k σ.const) →
        rule.result.value σ = source.value σ)

end RewriteSimplifier

-- The expression has a value, and it is `v` if the facts hold.
def Setting.Keeps (setting : Setting) (facts : Prop) (kind : Kind) (v : Int) (e : PrimExpr) : Prop :=
  ∃ w, setting.Means kind e w ∧ (facts → w = v)

namespace RewriteSimplifier

def Step.Sound (step : Step) : Prop :=
  ∀ (setting : Setting) (queries : Queries) (kind : Kind) (e : PrimExpr) (v : Int),
    setting.Means kind e v →
    Returns setting.fine (step queries setting.dtype e) fun answer =>
      ∀ outcome, answer = some outcome →
        setting.Keeps (queries.Sound setting.env) kind v outcome.expr

section

variable {setting : Setting} {queries : Queries} {source p : Pattern} {kind : Kind} {s : Bindings}
  {v : Int}

variable (matched : source.Matched setting source.rootKind v .empty s)

include matched

section

variable (formula : source.rootKind = .bool → setting.logic = true)

include formula

theorem eval_admitted
    (admitted : admits source kind p = true) (logic : kind = .bool → setting.logic = true)
    (defined : p.Defined (s.values setting.env)) : Returns setting.fine (p.eval queries.sameAs setting.dtype s)
      (setting.Means kind · (p.value (s.values setting.env))) := by
  simp only [admits, Bool.and_eq_true, Bool.or_eq_true, Bool.not_eq_true', decide_eq_true_eq] at admitted
  obtain ⟨⟨⟨kinded, covered⟩, truncates⟩, divisible⟩ := admitted
  refine (p.eval_returns queries.eq_of_sameAs matched.constants (matched.filled.of_coveredBy covered)
    kinded logic ?_ divisible defined).mono fun _ => And.left
  intro inside
  rcases truncates with (none | outside) | root
  · simp [none] at inside
  · exact matched.allowed outside
  · exact setting.full (formula root)

theorem check_eval_returns {check : Check}
    (admitted : ∀ p ∈ check.patterns, admits source .index p = true)
    (defined : ∀ p ∈ check.patterns, p.Defined (s.values setting.env)) :
    Returns setting.fine (check.eval queries setting.dtype s) fun answer =>
      answer = true → check.Known (s.values setting.env) ∧
        (queries.Sound setting.env → check.Holds (s.values setting.env)) := by
  cases check with
  | cond holds => exact returns_pure fun yes => ⟨yes, fun _ => yes⟩
  | computes value =>
    exact returns_bind (Setting.bounded_returns _) fun _ range =>
      returns_pure fun _ => ⟨range, fun _ => range⟩
  | greaterEqual p value =>
    have mem : p ∈ (Check.greaterEqual p value).patterns := by simp [Check.patterns]
    refine returns_bind (eval_admitted matched formula (admitted p mem) (by simp) (defined p mem)) ?_
    intro e means
    exact returns_pure fun yes => ⟨trivial, fun sound =>
      (sound.greaterEqual e means.defined _ yes).trans_eq means.value⟩
  | equalZero p =>
    have mem : p ∈ (Check.equalZero p).patterns := by simp [Check.patterns]
    refine returns_bind (eval_admitted matched formula (admitted p mem) (by simp) (defined p mem)) ?_
    intro e means
    exact returns_pure fun yes => ⟨trivial, fun sound =>
      means.value.symm.trans (sound.equal e means.defined _ yes)⟩

theorem evalAll_returns {checks : List Check}
    (admitted : ∀ check ∈ checks, ∀ p ∈ check.patterns, admits source .index p = true)
    (reads : Reads (s.values setting.env) checks) :
    Returns setting.fine (evalAll queries setting.dtype s checks) fun answer =>
      answer = true → (∀ check ∈ checks, check.Known (s.values setting.env)) ∧
        (queries.Sound setting.env → ∀ check ∈ checks, check.Holds (s.values setting.env)) := by
  induction checks with
  | nil => exact returns_pure (by simp)
  | cons check rest ih =>
    rw [List.forall_mem_cons] at admitted
    refine returns_bind (check_eval_returns matched formula admitted.1 reads.1) fun answer holds => ?_
    cases answer with
    | false => exact returns_pure (by simp)
    | true =>
      refine (ih admitted.2 (reads.2 (holds rfl).1)).mono fun answer all yes => ?_
      exact ⟨List.forall_mem_cons.2 ⟨(holds rfl).1, (all yes).1⟩,
        fun sound => List.forall_mem_cons.2 ⟨(holds rfl).2 sound, (all yes).2 sound⟩⟩

end

omit matched in
theorem Rule.meet_returns {rule : Rule} (mem : source ∈ rule.sources)
    (logic : source.rootKind = .bool → setting.logic = true) :
    Returns setting.fine (rule.meet s) fun _ =>
      ∀ holds, rule.needs = some holds → holds (s.values setting.env).const = true := by
  have admitted := rule.admitted
  simp only [List.all_eq_true, Bool.and_eq_true] at admitted
  unfold Rule.meet
  cases needed : rule.needs with
  | none => exact returns_pure (by simp)
  | some holds =>
    obtain ⟨⟨-, need⟩, -⟩ := admitted source mem
    have unmet : ¬setting.fine .unmet := setting.met (logic (by simpa [needed] using need))
    simp only
    split
    next met =>
      apply returns_pure
      rintro _ ⟨⟩
      exact met
    · exact returns_emit fun fine => absurd fine unmet

theorem Rule.rely_returns {rule : Rule} (mem : source ∈ rule.sources) :
    Returns setting.fine (rule.rely s) fun _ => ∀ k, rule.assumes = some k →
      0 ≤ (s.values setting.env).expr .x + k (s.values setting.env).const := by
  have admitted := rule.admitted
  simp only [List.all_eq_true, Bool.and_eq_true, Bool.or_eq_true] at admitted
  unfold Rule.rely
  cases assumed : rule.assumes with
  | none => exact returns_pure (by simp)
  | some k =>
    obtain ⟨-, assumption⟩ := admitted source mem
    simp only [assumed, Option.isNone_some, Bool.false_eq_true, false_or, List.contains_iff_mem] at assumption
    obtain ⟨truncates, read⟩ := assumption
    obtain ⟨e, found, -⟩ := matched.filled.expr (.x, .index) read
    simp only [found]
    apply returns_emit
    rintro fine _ ⟨⟩
    have bound := setting.nonneg (matched.allowed truncates) _ _ fine
    simpa [Bindings.values, found] using bound

end

theorem Rule.trySources_returns {rule : Rule} (keeps : rule.Sound) {setting : Setting}
    {queries : Queries} {kind : Kind} {e : PrimExpr} {v : Int} (means : setting.Means kind e v)
    {sources : List Pattern} (included : ∀ source ∈ sources, source ∈ rule.sources) :
    Returns setting.fine (rule.trySources queries setting.dtype e sources) fun answer =>
      ∀ outcome, answer = some outcome → setting.Keeps (queries.Sound setting.env) kind v outcome.expr := by
  induction sources with
  | nil => exact returns_pure (by simp)
  | cons source rest ih =>
    rw [List.forall_mem_cons] at included
    have next := ih included.2
    rw [Rule.trySources]
    split
    · exact next
    next s found =>
      have admitted := rule.admitted
      simp only [List.all_eq_true, Bool.and_eq_true, List.mem_flatMap,
        forall_exists_index, and_imp] at admitted
      obtain ⟨⟨⟨⟨⟨node, kinded⟩, result⟩, checks⟩, -⟩, -⟩ := admitted source included.1
      obtain rfl := Pattern.rootKind_eq found node means
      have matched := source.matchExpr_matched found kinded (by simp [Bindings.empty]) means
      obtain ⟨reads, defined, same⟩ :=
        keeps source included.1 (s.values setting.env) (matched.defined s (.refl s))
      refine returns_bind (returns_settle (by simp)
        (evalAll_returns matched means.logic (fun c mem p mem' => checks p c mem mem') reads)) ?_
      intro answer holds
      cases answer with
      | false => exact next
      | true =>
        refine returns_bind (Rule.meet_returns included.1 means.logic) fun _ met => ?_
        refine returns_bind (Rule.rely_returns matched included.1) fun _ assumed => ?_
        obtain ⟨known, holds⟩ := holds rfl
        refine returns_bind (eval_admitted matched means.logic result means.logic (defined known met)) ?_
        intro out outMeans
        apply returns_pure
        rintro _ ⟨⟩
        refine ⟨_, outMeans, fun sound => ?_⟩
        rw [same (holds sound) met assumed, matched.value s (.refl s)]

theorem Rule.apply_sound {rule : Rule} (keeps : rule.Sound) : Step.Sound rule.apply :=
  fun _ _ _ _ _ means => rule.trySources_returns keeps means fun _ => id

theorem Rule.apply_complete {rule : Rule} (unconditional : rule.checks = []) {queries : Queries}
    {dtype : DataType} {e : PrimExpr} {answer : Option Outcome}
    (ok : (rule.apply queries dtype e).result = .ok answer) (none : answer = none) :
    ∀ source ∈ rule.sources, source.matchExpr e .empty = Option.none := by
  have every : ∀ {sources : List Pattern},
      (rule.trySources queries dtype e sources).result = .ok answer →
        ∀ source ∈ sources, source.matchExpr e .empty = Option.none := by
    intro sources ok
    induction sources with
    | nil => simp
    | cons source rest ih =>
      rw [Rule.trySources] at ok
      split at ok
      next unmatched => exact List.forall_mem_cons.2 ⟨unmatched, ih ok⟩
      next s _ =>
        rw [unconditional] at ok
        obtain ⟨_, first, ok⟩ := result_bind ok
        cases first
        obtain ⟨_, -, ok⟩ := result_bind ok
        obtain ⟨_, -, ok⟩ := result_bind ok
        obtain ⟨_, -, ok⟩ := result_bind ok
        cases ok
        cases none
  exact every ok

theorem attempt_returns {fine : Event → Prop} {P : Outcome → Prop} {run : Folding (Option Outcome)}
    (returns : Returns fine run fun answer => ∀ outcome, answer = some outcome → P outcome) :
    Returns fine (attempt Option.isSome run) fun answer => ∀ outcome, answer = some outcome → P outcome := by
  refine returns_settle ?_ returns
  rintro _ unapplied outcome rfl
  cases unapplied

theorem firstOf_then {rules : List Rule} (keep : ∀ rule ∈ rules, rule.Sound) {tail : List Step}
    {setting : Setting} {queries : Queries} {kind : Kind} {e : PrimExpr} {v : Int}
    (means : setting.Means kind e v)
    (last : (∀ rule ∈ rules, rule.checks = [] → ∀ source ∈ rule.sources,
      source.matchExpr e .empty = none) →
      Returns setting.fine (firstOf tail queries setting.dtype e) fun answer =>
        ∀ outcome, answer = some outcome → setting.Keeps (queries.Sound setting.env) kind v outcome.expr) :
    Returns setting.fine (firstOf (rules.map Rule.apply ++ tail) queries setting.dtype e)
      fun answer => ∀ outcome, answer = some outcome →
        setting.Keeps (queries.Sound setting.env) kind v outcome.expr := by
  induction rules with
  | nil => exact last (by simp)
  | cons rule rest ih =>
    rw [List.forall_mem_cons] at keep
    have step := (attempt_returns (Rule.apply_sound keep.1 setting queries kind e v means)).of_result fun answer ok => (fun unconditional none =>
      rule.apply_complete unconditional ((settle_result _ _).symm.trans ok) none :
        rule.checks = [] → answer = none → _)
    refine returns_bind step fun answer holds => ?_
    cases answer with
    | some outcome => exact returns_pure holds.1
    | none =>
      refine ih keep.2 fun unmatched => last ?_
      exact List.forall_mem_cons.2 ⟨fun unconditional => holds.2 unconditional rfl, unmatched⟩

theorem firstOf_sound {steps : List Step} (keep : ∀ step ∈ steps, Step.Sound step) :
    Step.Sound (firstOf steps) := by
  intro setting queries kind e v means
  induction steps with
  | nil => exact returns_pure (by simp)
  | cons step rest ih =>
    rw [List.forall_mem_cons] at keep
    refine returns_bind (attempt_returns (keep.1 setting queries kind e v means)) fun answer holds => ?_
    cases answer with
    | some outcome => exact returns_pure holds
    | none => exact ih keep.2

end RewriteSimplifier

end Tlm.Arith
