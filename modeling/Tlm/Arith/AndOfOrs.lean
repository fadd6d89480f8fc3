import Mathlib.Data.List.Perm.Subperm
import Tlm.Shared.Pairs
import Tlm.Arith.ConstFold

set_option autoImplicit false

namespace Tlm.Arith.AndOfOrs

open Pairs

abbrev Chunk := List PrimExpr

-- The analyzer: `Simplify`, and `rewrite_simplify` under a constraint.
structure Simplifier where
  simplify : PrimExpr → PrimExpr
  rewriteSimplify : PrimExpr → PrimExpr → PrimExpr

def keyTrue : PrimExpr := .intImm .bool 1

def keyFalse : PrimExpr := .intImm .bool 0

def logicalAnd (a b : PrimExpr) : PrimExpr :=
  (conjoin a b).getD (.binary .and a b)

def logicalOr (a b : PrimExpr) : PrimExpr :=
  (disjoin a b).getD (.binary .or a b)

def logicalNot (a : PrimExpr) : PrimExpr :=
  (foldNot a).getD (.not a)

def visitAndExpressions : PrimExpr → List PrimExpr
  | .binary .and x y => visitAndExpressions x ++ visitAndExpressions y
  | .binary .or x y =>
    (visitAndExpressions x).flatMap fun xPart => (visitAndExpressions y).map (logicalOr xPart)
  | e => [e]

def visitOrExpressions : PrimExpr → List PrimExpr
  | .binary .or x y => visitOrExpressions x ++ visitOrExpressions y
  | .binary .and x y =>
    (visitOrExpressions x).flatMap fun xPart => (visitOrExpressions y).map (logicalAnd xPart)
  | e => [e]

def addComponent (components : Chunk) (key : PrimExpr) : Chunk :=
  if key ∈ components then components else components ++ [key]

def addChunk (chunks : List Chunk) (outer : PrimExpr) : List Chunk :=
  let components := (visitOrExpressions outer).foldl addComponent []
  if ∃ previous ∈ chunks, previous.Perm components then chunks else chunks ++ [components]

def ofExpr (e : PrimExpr) : List Chunk :=
  (visitAndExpressions e).foldl addChunk []

def asPrimExpr (chunks : List Chunk) : PrimExpr :=
  chunks.foldl (fun e chunk => logicalAnd e (chunk.foldl logicalOr keyFalse)) keyTrue

section

variable (analyzer : Simplifier)

def trySimplifyOr (a b : PrimExpr) : PrimExpr × PrimExpr :=
  let joint := logicalOr a b
  let simplified := analyzer.rewriteSimplify keyTrue joint
  if simplified = joint then (a, b)
  else match simplified with
    | .binary .or x y => (x, y)
    | _ => (keyFalse, simplified)

def trySimplifyAnd (known a b : PrimExpr) : PrimExpr × PrimExpr :=
  let joint := logicalAnd a b
  let simplified := analyzer.rewriteSimplify known joint
  if simplified = joint then (a, b)
  else match simplified with
    | .binary .and x y => (x, y)
    | _ => (keyTrue, simplified)

def simplifyWithinChunks (chunks : List Chunk) : List Chunk :=
  chunks.map (pairwise (trySimplifyOr analyzer))

def splitFirst (p : PrimExpr → Bool) : Chunk → Option (Chunk × PrimExpr × Chunk)
  | [] => none
  | key :: rest =>
    if p key then some ([], key, rest)
    else (splitFirst p rest).map fun (before, found, after) => (key :: before, found, after)

def assumption (others : Chunk) : PrimExpr :=
  others.foldl (fun known key => logicalAnd known (analyzer.simplify (logicalNot key))) keyTrue

def simplifyAcross (first second : Chunk) : Chunk × Chunk :=
  match first, second with
  | [a], [b] =>
    let joint := trySimplifyAnd analyzer keyTrue a b
    ([joint.1], [joint.2])
  | _, _ =>
    match splitFirst (· ∉ second) first with
    | none => (first, [keyTrue])
    | some (before, a, after) =>
      match splitFirst (· ∉ first) second with
      | none => ([keyTrue], second)
      | some (before', b, after') =>
        if first.length = second.length ∧ second.countP (· ∈ first) + 1 = first.length then
          let joint := trySimplifyAnd analyzer (assumption analyzer (before ++ after)) a b
          (before ++ joint.1 :: after, before' ++ joint.2 :: after')
        else (first, second)

def simplifyAcrossChunks (chunks : List Chunk) : List Chunk :=
  pairwise (simplifyAcross analyzer) chunks

def removeWithin (chunk : Chunk) : Chunk :=
  if keyTrue ∈ chunk then [keyTrue] else chunk.filter (· ≠ keyFalse)

def removeTrueFalse (chunks : List Chunk) : List Chunk :=
  let chunks := chunks.map removeWithin
  if [] ∈ chunks then [[]] else chunks.filter (· ≠ [keyTrue])

def simplify (chunks : List Chunk) : List Chunk :=
  removeTrueFalse (simplifyAcrossChunks analyzer (removeTrueFalse (simplifyWithinChunks analyzer chunks)))

def simplifyAsAndOfOrs (e : PrimExpr) : PrimExpr :=
  asPrimExpr (simplify analyzer (ofExpr (analyzer.simplify e)))

end

def Holds (env : Env) (e : PrimExpr) : Prop :=
  e.value env ≠ 0

instance (env : Env) (e : PrimExpr) : Decidable (Holds env e) :=
  inferInstanceAs (Decidable (e.value env ≠ 0))

def ChunkHolds (env : Env) (chunk : Chunk) : Prop :=
  ∃ key ∈ chunk, Holds env key

instance (env : Env) (chunk : Chunk) : Decidable (ChunkHolds env chunk) :=
  inferInstanceAs (Decidable (∃ key ∈ chunk, Holds env key))

def AllHold (env : Env) (chunks : List Chunk) : Prop :=
  ∀ chunk ∈ chunks, ChunkHolds env chunk

structure Simplifier.Sound (analyzer : Simplifier) (env : Env) : Prop where
  simplify : ∀ e, Holds env (analyzer.simplify e) ↔ Holds env e
  rewrite : ∀ known e, Holds env known →
    (Holds env (analyzer.rewriteSimplify known e) ↔ Holds env e)

section

variable (env : Env) (a b : PrimExpr)

@[simp] theorem keyTrue_holds : Holds env keyTrue := by
  simp [Holds, keyTrue, PrimExpr.value]

@[simp] theorem keyFalse_holds : ¬Holds env keyFalse := by
  simp [Holds, keyFalse, PrimExpr.value]

@[simp] theorem and_holds : Holds env (.binary .and a b) ↔ Holds env a ∧ Holds env b := by
  simp [Holds, PrimExpr.value, BinOp.apply, BinOp.toInt_ne_zero]

@[simp] theorem or_holds : Holds env (.binary .or a b) ↔ Holds env a ∨ Holds env b := by
  simp [Holds, PrimExpr.value, BinOp.apply, BinOp.toInt_ne_zero]

@[simp] theorem not_holds : Holds env (.not a) ↔ ¬Holds env a := by
  simp [Holds, PrimExpr.value, BinOp.toInt_ne_zero]

variable {env a b}

theorem holds_of_asIntImm {value : Int} (found : a.asIntImm = some value) : Holds env a ↔ value ≠ 0 := by
  obtain ⟨dtype, rfl⟩ := PrimExpr.asIntImm_eq found
  rfl

variable (env a b)

@[simp] theorem logicalAnd_holds : Holds env (logicalAnd a b) ↔ Holds env a ∧ Holds env b := by
  unfold logicalAnd conjoin
  split
  next pa found => by_cases zero : pa = 0 <;> simp [zero, holds_of_asIntImm found]
  next pb _ found => by_cases zero : pb = 0 <;> simp [zero, holds_of_asIntImm found]
  · simp

@[simp] theorem logicalOr_holds : Holds env (logicalOr a b) ↔ Holds env a ∨ Holds env b := by
  unfold logicalOr disjoin
  split
  next pa found => by_cases zero : pa = 0 <;> simp [zero, holds_of_asIntImm found]
  next pb _ found => by_cases zero : pb = 0 <;> simp [zero, holds_of_asIntImm found]
  · simp

@[simp] theorem logicalNot_holds : Holds env (logicalNot a) ↔ ¬Holds env a := by
  unfold logicalNot foldNot
  cases found : a.asIntImm with
  | none => simp
  | some value =>
    rw [holds_of_asIntImm found]
    simp [Holds, PrimExpr.value, BinOp.toInt_ne_zero]

end

variable {env : Env}

theorem visitAndExpressions_holds (e : PrimExpr) :
    (∀ part ∈ visitAndExpressions e, Holds env part) ↔ Holds env e := by
  fun_induction visitAndExpressions e with
  | case1 x y ihx ihy => simp [or_imp, forall_and, ihx, ihy]
  | case2 x y ihx ihy =>
    rw [or_holds, ← ihx, ← ihy]
    constructor
    · -- If some part of `x` fails, it is `y` that holds with it, part by part.
      intro all
      by_contra neither
      simp only [not_or, not_forall] at neither
      obtain ⟨⟨xPart, memX, failsX⟩, yPart, memY, failsY⟩ := neither
      have either := all (logicalOr xPart yPart)
        (List.mem_flatMap.2 ⟨xPart, memX, List.mem_map.2 ⟨yPart, memY, rfl⟩⟩)
      simp [failsX, failsY] at either
    · intro either part mem
      obtain ⟨xPart, memX, mem⟩ := List.mem_flatMap.1 mem
      obtain ⟨yPart, memY, rfl⟩ := List.mem_map.1 mem
      exact (logicalOr_holds env xPart yPart).2
        (either.imp (fun all => all xPart memX) fun all => all yPart memY)
  | case3 e => simp

theorem visitOrExpressions_holds (e : PrimExpr) :
    (∃ part ∈ visitOrExpressions e, Holds env part) ↔ Holds env e := by
  fun_induction visitOrExpressions e with
  | case1 x y ihx ihy => simp [or_and_right, exists_or, ihx, ihy]
  | case2 x y ihx ihy =>
    rw [and_holds, ← ihx, ← ihy]
    constructor
    · rintro ⟨part, mem, holds⟩
      obtain ⟨xPart, memX, mem⟩ := List.mem_flatMap.1 mem
      obtain ⟨yPart, memY, rfl⟩ := List.mem_map.1 mem
      obtain ⟨holdsX, holdsY⟩ := (logicalAnd_holds env xPart yPart).1 holds
      exact ⟨⟨xPart, memX, holdsX⟩, yPart, memY, holdsY⟩
    · rintro ⟨⟨xPart, memX, holdsX⟩, yPart, memY, holdsY⟩
      exact ⟨logicalAnd xPart yPart,
        List.mem_flatMap.2 ⟨xPart, memX, List.mem_map.2 ⟨yPart, memY, rfl⟩⟩, by simp [holdsX, holdsY]⟩
  | case3 e => simp

theorem mem_addComponents (keys components : Chunk) (key : PrimExpr) :
    key ∈ keys.foldl addComponent components ↔ key ∈ components ∨ key ∈ keys := by
  induction keys generalizing components with
  | nil => simp
  | cons first rest ih =>
    simp only [List.foldl_cons, ih, addComponent]
    split
    next present => grind
    · simp [or_assoc]

theorem ChunkHolds.mono {first second : Chunk} (holds : ChunkHolds env first) (subset : ∀ x ∈ first, x ∈ second) :
    ChunkHolds env second := by
  obtain ⟨key, mem, holds⟩ := holds
  exact ⟨key, subset key mem, holds⟩

theorem addChunk_holds (chunks : List Chunk) (outer : PrimExpr) :
    AllHold env (addChunk chunks outer) ↔ AllHold env chunks ∧ Holds env outer := by
  have components : ChunkHolds env ((visitOrExpressions outer).foldl addComponent []) ↔
      Holds env outer := by
    simp [ChunkHolds, mem_addComponents, visitOrExpressions_holds]
  unfold addChunk
  simp only
  split
  next present =>
    obtain ⟨previous, mem, perm⟩ := present
    exact ⟨fun all => ⟨all, components.1 ((all previous mem).mono fun key => perm.mem_iff.1)⟩, And.left⟩
  · simp [AllHold, or_imp, forall_and, components]

theorem ofExpr_holds (e : PrimExpr) : AllHold env (ofExpr e) ↔ Holds env e := by
  have fold : ∀ (parts : List PrimExpr) (chunks : List Chunk), AllHold env (parts.foldl addChunk chunks) ↔
        AllHold env chunks ∧ ∀ part ∈ parts, Holds env part := by
    intro parts
    induction parts with
    | nil => simp
    | cons part rest ih => simp [ih, addChunk_holds, and_assoc]
  rw [ofExpr, fold, visitAndExpressions_holds]
  simp [AllHold]

theorem asPrimExpr_holds (chunks : List Chunk) : Holds env (asPrimExpr chunks) ↔ AllHold env chunks := by
  have disjunction : ∀ (chunk : Chunk) (e : PrimExpr),
      Holds env (chunk.foldl logicalOr e) ↔ Holds env e ∨ ChunkHolds env chunk := by
    intro chunk
    induction chunk with
    | nil => simp [ChunkHolds]
    | cons key rest ih => simp [ih, ChunkHolds, or_assoc]
  have conjunction : ∀ (chunks : List Chunk) (e : PrimExpr),
      Holds env (chunks.foldl (fun e chunk => logicalAnd e (chunk.foldl logicalOr keyFalse)) e) ↔
        Holds env e ∧ AllHold env chunks := by
    intro chunks
    induction chunks with
    | nil => simp [AllHold]
    | cons chunk rest ih => simp [ih, disjunction, AllHold, and_assoc]
  simp [asPrimExpr, conjunction]

section

variable {analyzer : Simplifier} (sound : analyzer.Sound env)

include sound

theorem trySimplifyOr_holds (a b : PrimExpr) :
    Holds env (trySimplifyOr analyzer a b).1 ∨ Holds env (trySimplifyOr analyzer a b).2 ↔
      Holds env a ∨ Holds env b := by
  have joint := sound.rewrite keyTrue (logicalOr a b) (keyTrue_holds env)
  rw [logicalOr_holds] at joint
  simp only [trySimplifyOr]
  split
  · rfl
  · split
    next simplified =>
      rw [simplified, or_holds] at joint
      exact joint
    · simpa using joint

theorem trySimplifyAnd_holds {known : PrimExpr} (given : Holds env known) (a b : PrimExpr) :
    Holds env (trySimplifyAnd analyzer known a b).1 ∧
      Holds env (trySimplifyAnd analyzer known a b).2 ↔ Holds env a ∧ Holds env b := by
  have joint := sound.rewrite known (logicalAnd a b) given
  rw [logicalAnd_holds] at joint
  simp only [trySimplifyAnd]
  split
  · rfl
  · split
    next simplified =>
      rw [simplified, and_holds] at joint
      exact joint
    · simpa using joint

theorem simplifyWithinChunks_holds (chunks : List Chunk) :
    AllHold env (simplifyWithinChunks analyzer chunks) ↔ AllHold env chunks := by
  have each (chunk : Chunk) : ChunkHolds env (pairwise (trySimplifyOr analyzer) chunk) ↔ ChunkHolds env chunk :=
    pairwise_exists (fun a b _ => trySimplifyOr_holds sound a b) (pairsAlong_of_forall (fun _ _ => trivial) chunk)
  simp [AllHold, simplifyWithinChunks, each]

theorem assumption_holds (others : Chunk) :
    Holds env (assumption analyzer others) ↔ ¬ChunkHolds env others := by
  have fold : ∀ (others : Chunk) (known : PrimExpr),
      Holds env (others.foldl (fun known key => logicalAnd known (analyzer.simplify (logicalNot key))) known) ↔
        Holds env known ∧ ¬ChunkHolds env others := by
    intro others
    induction others with
    | nil => simp [ChunkHolds]
    | cons key rest ih => simp [ih, ChunkHolds, sound.simplify, and_assoc]
  simp [assumption, fold]

end

variable {p : PrimExpr → Bool} {chunk before after : Chunk}

theorem splitFirst_some {key : PrimExpr} (found : splitFirst p chunk = some (before, key, after)) :
    chunk = before ++ key :: after ∧ p key = true ∧ ∀ x ∈ before, p x = false := by
  induction chunk generalizing before with
  | nil => cases found
  | cons first rest ih =>
    unfold splitFirst at found
    split at found
    next holds =>
      cases found
      exact ⟨rfl, holds, by simp⟩
    next fails =>
      obtain ⟨⟨before', key', after'⟩, inner, same⟩ := Option.map_eq_some_iff.1 found
      cases same
      simp_all

theorem splitFirst_none (missing : splitFirst p chunk = none) : ∀ x ∈ chunk, p x = false := by
  induction chunk with
  | nil => simp
  | cons first rest ih =>
    unfold splitFirst at missing
    split at missing
    · cases missing
    next fails => simp_all

theorem splitFirst_eraseP {key : PrimExpr} (found : splitFirst p chunk = some (before, key, after)) :
    chunk.eraseP p = before ++ after := by
  obtain ⟨rfl, holds, least⟩ := splitFirst_some found
  rw [List.eraseP_append_right _ (by simpa using least), List.eraseP_cons_of_pos holds]

-- The keys of the first chunk but the one that is taken for the only one that is not shared.
def others (first second : Chunk) : Chunk :=
  first.eraseP (· ∉ second)

def AllButOneShared (first second : Chunk) : Prop :=
  first.length = second.length ∧ second.countP (· ∈ first) + 1 = first.length

def Mergeable (env : Env) (first second : Chunk) : Prop :=
  AllButOneShared first second → ChunkHolds env (others first second) → ChunkHolds env (others second first)

instance : DecidableRel (Mergeable env) :=
  fun _ _ => inferInstanceAs (Decidable (_ ∧ _ → _ → _))

theorem mem_others {first second : Chunk} {x : PrimExpr} (shared : x ∈ second) :
    x ∈ others first second ↔ x ∈ first :=
  List.mem_eraseP_of_neg (by simpa using shared)

theorem shared_of_count {first : Chunk} {b : PrimExpr} (least : ∀ x ∈ before, x ∈ first) (distinct : b ∉ first)
    (count : (before ++ b :: after).countP (· ∈ first) + 1 = (before ++ b :: after).length) :
    ∀ x ∈ before ++ after, x ∈ first := by
  have here : before.countP (· ∈ first) = before.length := by
    simpa using least
  have counted : after.countP (· ∈ first) = after.length := by
    simp [distinct] at count
    omega
  simp only [List.countP_eq_length, decide_eq_true_eq] at counted
  exact List.forall_mem_append.2 ⟨least, counted⟩

theorem chunkHolds_insert (before after : Chunk) (key : PrimExpr) :
    ChunkHolds env (before ++ key :: after) ↔ Holds env key ∨ ChunkHolds env (before ++ after) := by
  simp only [ChunkHolds, List.mem_append]
  grind

-- The two chunks are merged at `a` and `b`.
structure Merges (env : Env) (first second : Chunk) (step : Simplifier → Chunk × Chunk) (a b : PrimExpr) :
    Prop where
  counted : AllButOneShared first second
  back : ChunkHolds env (others second first) → ChunkHolds env (others first second)
  left : ChunkHolds env first ↔ Holds env a ∨ ChunkHolds env (others first second)
  right : ChunkHolds env second ↔ Holds env b ∨ ChunkHolds env (others second first)
  left_after : ∀ analyzer, ChunkHolds env (step analyzer).1 ↔
    Holds env (trySimplifyAnd analyzer (assumption analyzer (others first second)) a b).1 ∨
      ChunkHolds env (others first second)
  right_after : ∀ analyzer, ChunkHolds env (step analyzer).2 ↔
    Holds env (trySimplifyAnd analyzer (assumption analyzer (others first second)) a b).2 ∨
      ChunkHolds env (others second first)

variable (env) in
def Kept (analyzer : Simplifier) (first second : Chunk) : Prop :=
  ChunkHolds env (simplifyAcross analyzer first second).1 ∧ ChunkHolds env (simplifyAcross analyzer first second).2 ↔
    ChunkHolds env first ∧ ChunkHolds env second

theorem simplifyAcross_cases (first second : Chunk) : 
    (∃ a b, Merges env first second (simplifyAcross · first second) a b) ∨
    Mergeable env first second ∧ ∀ analyzer : Simplifier, analyzer.Sound env → Kept env analyzer first second := by
  unfold Kept simplifyAcross
  split
  next a b =>
    refine .inr ⟨fun counted => ?_, fun analyzer sound => ?_⟩
    · have differs : a ≠ b := by
        rintro rfl
        simp [AllButOneShared] at counted
      simp [others, differs, ChunkHolds]
    · simpa [ChunkHolds] using trySimplifyAnd_holds sound (keyTrue_holds env) a b
  · split
    next missing =>
      have subset : ∀ x ∈ first, x ∈ second := by simpa using splitFirst_none missing
      have implied : ChunkHolds env first → ChunkHolds env second := fun holds => holds.mono subset
      refine .inr ⟨fun _ holds => holds.mono fun key mem => ?_, fun analyzer _ => ?_⟩
      · have inside := List.mem_of_mem_eraseP mem
        exact (mem_others inside).2 (subset key inside)
      · simpa [ChunkHolds] using implied
    next before a after foundA =>
      split
      next missing =>
        have subset : ∀ x ∈ second, x ∈ first := by simpa using splitFirst_none missing
        have implied : ChunkHolds env second → ChunkHolds env first := fun holds => holds.mono subset
        refine .inr ⟨fun counted => ?_, fun analyzer _ => ?_⟩
        · have all : second.countP (· ∈ first) = second.length := by simpa using subset
          have := counted.1
          have := counted.2
          omega
        · simpa [ChunkHolds] using implied
      next before' b after' foundB =>
        split
        next counted =>
          obtain ⟨splitA, distinctA, -⟩ := splitFirst_some foundA
          obtain ⟨splitB, distinctB, leastB⟩ := splitFirst_some foundB
          have restA : others first second = before ++ after := splitFirst_eraseP foundA
          have restB : others second first = before' ++ after' := splitFirst_eraseP foundB
          have shared : ∀ x ∈ before' ++ after', x ∈ first := shared_of_count (by simpa using leastB)
            (by simpa using distinctB) (splitB ▸ counted.1 ▸ counted.2)
          refine .inl ⟨a, b, counted, fun holds => holds.mono fun key mem => ?_, ?_, ?_, fun analyzer => ?_,
            fun analyzer => ?_⟩
          · exact (mem_others (List.mem_of_mem_eraseP mem)).2 (shared key (restB ▸ mem))
          · rw [restA, splitA, chunkHolds_insert]
          · rw [restB, splitB, chunkHolds_insert]
          · rw [restA, chunkHolds_insert]
          · rw [restA, restB, chunkHolds_insert]
        next counted =>
          exact .inr ⟨fun both => absurd both counted, fun _ _ => Iff.rfl⟩

theorem simplifyAcross_holds {analyzer : Simplifier} (sound : analyzer.Sound env) {first second : Chunk}
    (mergeable : Mergeable env first second) : Kept env analyzer first second := by
  rcases simplifyAcross_cases first second with ⟨a, b, merges⟩ | ⟨-, kept⟩
  · have same : ChunkHolds env (others second first) ↔ ChunkHolds env (others first second) :=
      ⟨merges.back, mergeable merges.counted⟩
    rw [Kept, merges.left_after, merges.right_after, merges.left, merges.right, same]
    by_cases holds : ChunkHolds env (others first second)
    · simp [holds]
    · simpa [holds] using trySimplifyAnd_holds sound ((assumption_holds sound _).2 holds) a b
  · exact kept analyzer sound

-- Answers the contrary of `b` where the constraint does not hold, so that nothing is asked of it.
def contrary (env : Env) (b : PrimExpr) : Simplifier where
  simplify e := e
  rewriteSimplify known e :=
    if Holds env known then e
    else if Holds env b then (if e = keyFalse then .not keyTrue else keyFalse)
    else if e = keyTrue then .not keyFalse else keyTrue

variable (env) in
theorem contrary_sound (b : PrimExpr) : (contrary env b).Sound env where
  simplify _ := Iff.rfl
  rewrite known e given := by simp [contrary, given]

theorem contrary_holds {known : PrimExpr} (unknown : ¬Holds env known) (a b : PrimExpr) :
    Holds env (trySimplifyAnd (contrary env b) known a b).2 ↔ ¬Holds env b := by
  have notTrue : ¬Holds env (.not keyTrue) := by simp
  have notFalse : Holds env (.not keyFalse) := by simp
  simp only [trySimplifyAnd, contrary, if_neg unknown]
  split_ifs <;> simp_all [keyTrue, keyFalse]

theorem mergeable_of_nodup {first second : Chunk} (nodup : second.Nodup) : Mergeable env first second := by
  intro ⟨length, count⟩ holds
  refine holds.mono fun key mem => ?_
  have inside := List.mem_of_mem_eraseP mem
  refine (mem_others inside).2 ?_
  by_contra missing
  have short : (others first second).length = first.length - 1 :=
    List.length_eraseP_of_mem inside (by simpa using missing)
  have subset : second.filter (· ∈ first) ⊆ others first second := by
    intro x found
    obtain ⟨here, shared⟩ := List.mem_filter.1 found
    exact (mem_others here).2 (by simpa using shared)
  -- The shared keys are as many as the others of the first chunk, so they are all of them.
  have perm := (List.subperm_of_subset (nodup.filter _) subset).perm_of_length_le (by
    rw [short, ← List.countP_eq_length_filter]
    omega)
  exact missing (List.mem_filter.1 (perm.mem_iff.2 mem)).1

theorem mergeable_iff (first second : Chunk) :
    (∀ analyzer : Simplifier, analyzer.Sound env → Kept env analyzer first second) ↔ Mergeable env first second := by
  refine ⟨fun every counted holds => ?_, fun mergeable analyzer sound => simplifyAcross_holds sound mergeable⟩
  rcases simplifyAcross_cases first second with ⟨a, b, merges⟩ | ⟨mergeable, -⟩
  · by_contra missing
    have sound := contrary_sound env b
    have kept := every _ sound
    have unknown := mt (assumption_holds sound (others first second)).1 (not_not.2 holds)
    rw [Kept, merges.left_after, merges.right_after, merges.left, merges.right, contrary_holds unknown] at kept
    simp [holds, missing] at kept
  · exact mergeable counted holds

theorem removeWithin_holds (chunk : Chunk) : ChunkHolds env (removeWithin chunk) ↔ ChunkHolds env chunk := by
  unfold removeWithin
  split
  next present => simpa [ChunkHolds] using ⟨keyTrue, present, keyTrue_holds env⟩
  · refine exists_congr fun key => and_congr_left fun holds => ?_
    have differs : key ≠ keyFalse := by
      rintro rfl
      exact keyFalse_holds env holds
    simp [differs]

theorem removeTrueFalse_holds (chunks : List Chunk) :
    AllHold env (removeTrueFalse chunks) ↔ AllHold env chunks := by
  have mapped : AllHold env (chunks.map removeWithin) ↔ AllHold env chunks := by
    simp [AllHold, removeWithin_holds]
  rw [← mapped]
  simp only [removeTrueFalse]
  split
  next present =>
    have fails : ¬AllHold env (chunks.map removeWithin) := by
      intro all
      simpa [ChunkHolds] using all [] present
    simp [fails]
    simp [AllHold, ChunkHolds]
  · refine ⟨fun all chunk mem => ?_, fun all chunk mem => all chunk (List.mem_filter.1 mem).1⟩
    by_cases trivial : chunk = [keyTrue]
    · simp [trivial, ChunkHolds]
    · exact all chunk (List.mem_filter.2 ⟨mem, by simpa using trivial⟩)

-- Every step in which two chunks are visited keeps the truth, whatever the analyzer answers, exactly if they are
-- mergeable, and then so does the whole run. Chunks without a repeated key are.
theorem simplifyAsAndOfOrs_holds (env : Env) :
    (∀ {analyzer : Simplifier}, analyzer.Sound env → ∀ e : PrimExpr,
      PairsAlong (simplifyAcross analyzer) (Mergeable env)
        (removeTrueFalse (simplifyWithinChunks analyzer (ofExpr (analyzer.simplify e)))) →
      (Holds env (simplifyAsAndOfOrs analyzer e) ↔ Holds env e)) ∧
    (∀ first second, (∀ analyzer : Simplifier, analyzer.Sound env → Kept env analyzer first second) ↔
      Mergeable env first second) ∧
    ∀ {first second}, second.Nodup → Mergeable env first second := by
  refine ⟨fun {analyzer} sound e merges => ?_, mergeable_iff, mergeable_of_nodup⟩
  have across : AllHold env (simplifyAcrossChunks analyzer _) ↔ AllHold env _ :=
    pairwise_forall (fun _ _ => simplifyAcross_holds sound) merges
  rw [simplifyAsAndOfOrs, asPrimExpr_holds, simplify, removeTrueFalse_holds, across, removeTrueFalse_holds,
    simplifyWithinChunks_holds sound, ofExpr_holds, sound.simplify]

section

def variable32 (id : Nat) : PrimExpr := .var ⟨id, .int32, false⟩

-- `u != v`, `u < v`, `v < u`, `y == 3`, `y != 7` and `z < 0`.
def different : PrimExpr := .binary .ne (variable32 1) (variable32 2)

def less : PrimExpr := .binary .lt (variable32 1) (variable32 2)

def greater : PrimExpr := .binary .lt (variable32 2) (variable32 1)

def isThree : PrimExpr := .binary .eq (variable32 3) (.intImm .int32 3)

def notSeven : PrimExpr := .binary .ne (variable32 3) (.intImm .int32 7)

def negative : PrimExpr := .binary .lt (variable32 4) (.intImm .int32 0)

-- Two rules of the rewrite simplifier: `x < y || y < x` is `x != y`, and `x == c1 && x != c2` is `x == c1`.
def twoRules : Simplifier where
  simplify e := e
  rewriteSimplify _ e :=
    if e = .binary .or less greater then different
    else if e = .binary .and isThree notSeven then isThree
    else e

theorem twoRules_sound (env : Env) : twoRules.Sound env where
  simplify _ := Iff.rfl
  rewrite known e _ := by
    simp only [twoRules]
    split
    next same =>
      subst same
      simp [Holds, different, less, greater, PrimExpr.value, BinOp.apply, BinOp.toInt_ne_zero]
    · split
      next same =>
        subst same
        have three : Holds env isThree ↔ (variable32 3).value env = 3 := BinOp.apply_eq_holds _ _
        have seven : Holds env notSeven ↔ (variable32 3).value env ≠ 7 :=
          BinOp.toInt_ne_zero.trans decide_eq_true_iff
        rw [and_holds, three, seven]
        omega
      · rfl

-- `(u != v || y == 3) && (u != v || y != 7)`.
def shared : PrimExpr :=
  .binary .and (.binary .or different isThree) (.binary .or different notSeven)

-- `(u != v || y == 3 || z < 0) && (u < v || y != 7 || v < u || u != v)`.
def repeated : PrimExpr :=
  .binary .and (.binary .or (.binary .or different isThree) negative)
    (.binary .or (.binary .or (.binary .or less notSeven) greater) different)

theorem shared_merged : let env : Env := ⟨fun _ => 3, fun _ => 0⟩
    Holds env (simplifyAsAndOfOrs twoRules shared) ↔ Holds env shared :=
  (simplifyAsAndOfOrs_holds _).1 (twoRules_sound _) shared (by decide +kernel)

theorem repeated_changed :
    let env : Env := ⟨fun v => if v.id = 4 then -1 else 5, fun _ => 0⟩
    twoRules.Sound env ∧ Holds env repeated ∧
      simplifyAsAndOfOrs twoRules repeated = .binary .or (.binary .or isThree different) different ∧
      ¬Holds env (simplifyAsAndOfOrs twoRules repeated) :=
  ⟨twoRules_sound _, by decide, by decide +kernel, by decide +kernel⟩

end

end Tlm.Arith.AndOfOrs
