import Tlm.Arith.ConstFold

set_option autoImplicit false

namespace Tlm.Arith

open Traced

def PrimExpr.vars : PrimExpr → List Var
  | .var v => [v]
  | .intImm _ _ | .atom _ _ => []
  | .binary _ a b | .letIn _ a b => a.vars ++ b.vars
  | .not a | .cast _ a => a.vars
  | .select condition a b => condition.vars ++ a.vars ++ b.vars

def castTo (t : DataType) (value : PrimExpr) : Folding PrimExpr :=
  if value.dtype = t then return value
  else
    match value.asIntImm with
    | some x => makeConst t x
    | none => return .cast t value

-- A number is cast to a float, the narrower to the wider, and the signed to the unsigned of its width.
def castsLeft (ltype rtype : DataType) : Bool :=
  if (ltype.code = .float) ≠ (rtype.code = .float) then rtype.code = .float
  else if ltype.bits ≠ rtype.bits then ltype.bits < rtype.bits
  else !ltype.isUInt

def binaryOpMatchTypes (lhs rhs : PrimExpr) : Folding (PrimExpr × PrimExpr) :=
  if lhs.dtype = rhs.dtype then return (lhs, rhs)
  else if castsLeft lhs.dtype rhs.dtype then do return (← castTo rhs.dtype lhs, rhs)
  else do return (lhs, ← castTo lhs.dtype rhs)

-- The operators of `op.cc` on any two numbers.
def binaryOp (op : BinOp) (lhs rhs : PrimExpr) : Folding PrimExpr := do
  let (lhs, rhs) ← binaryOpMatchTypes lhs rhs
  build (fun _ _ => false) op lhs rhs

def neg (a : PrimExpr) : Folding PrimExpr :=
  match a.asIntImm with
  | some pa => makeConst a.dtype (-pa)
  | none => do binaryOp .sub (← makeConst a.dtype 0) a

def Exact (event : Event) : Prop :=
  event ≠ .inexact

theorem note_exact {p : Prop} [Decidable p] : Ensures Exact (note p) fun _ => p := by
  unfold note
  split
  next holds => exact ensures_pure holds
  · exact ensures_emit fun fine => absurd rfl fine

theorem foldResult_exact (dtype : DataType) (value : Int) :
    Ensures Exact (foldResult dtype value) (· = .intImm dtype value) := by
  refine ensures_bind ensures_true fun _ _ => ?_
  refine ensures_bind note_exact fun _ same => ensures_pure ?_
  rw [same]

theorem makeConst_exact (dtype : DataType) (value : Int) :
    Ensures Exact (makeConst dtype value) (· = .intImm dtype value) := by
  refine ensures_bind ensures_true fun _ _ => ?_
  refine ensures_bind note_exact fun _ same => ?_
  split
  · exact ensures_pure (by rw [same.1])
  · exact ensures_fail

-- The expression has the value `f` and no variables but those of `vars`.
structure PrimExpr.Renders (e : PrimExpr) (f : Env → Int) (vars : List Var) : Prop where
  value : ∀ env, e.value env = f env
  fresh : ∀ w ∈ e.vars, w ∈ vars

theorem PrimExpr.Renders.refl (e : PrimExpr) : e.Renders (e.value ·) e.vars :=
  ⟨fun _ => rfl, fun _ => id⟩

theorem PrimExpr.Renders.mono {e : PrimExpr} {f g : Env → Int} {us vs : List Var} (renders : e.Renders f us)
    (same : ∀ env, f env = g env) (more : us ⊆ vs) : e.Renders g vs :=
  ⟨fun env => (renders.value env).trans (same env), fun w used => more (renders.fresh w used)⟩

theorem renders_intImm {f : Env → Int} {x : Int} (constant : ∀ env, f env = x) (dtype : DataType) (vs : List Var) :
    (PrimExpr.intImm dtype x).Renders f vs :=
  ⟨fun env => (constant env).symm, nofun⟩

theorem foldResult_renders {f : Env → Int} {x : Int} (constant : ∀ env, f env = x) (dtype : DataType) (vs : List Var) :
    Ensures Exact (some <$> foldResult dtype x) fun answer => ∀ e, answer = some e → e.Renders f vs := by
  refine ensures_bind (foldResult_exact dtype x) fun folded same => ensures_pure ?_
  rintro _ ⟨⟩
  rw [same]
  exact renders_intImm constant dtype vs

theorem castTo_exact (t : DataType) (e : PrimExpr) :
    Ensures Exact (castTo t e) fun c => c.Renders (e.value ·) e.vars ∧ (e.asIntImm = none → c = e ∨ c = .cast t e) := by
  unfold castTo
  split
  · exact ensures_pure ⟨.refl e, fun _ => .inl rfl⟩
  · cases found : e.asIntImm with
    | none => exact ensures_pure ⟨⟨fun _ => rfl, fun _ => id⟩, fun _ => .inr rfl⟩
    | some x =>
      obtain ⟨dtype, rfl⟩ := PrimExpr.asIntImm_eq found
      refine (makeConst_exact t x).mono ?_
      rintro _ rfl
      exact ⟨⟨fun _ => rfl, nofun⟩, nofun⟩

theorem binaryOpMatchTypes_exact (a b : PrimExpr) :
    Ensures Exact (binaryOpMatchTypes a b) fun (l, r) => l.Renders (a.value ·) a.vars ∧ r.Renders (b.value ·) b.vars ∧
      (a.asIntImm = none → l = a ∨ l = .cast b.dtype a) := by
  unfold binaryOpMatchTypes
  split_ifs
  · exact ensures_pure ⟨.refl a, .refl b, fun _ => .inl rfl⟩
  · exact ensures_bind (castTo_exact _ a) fun _ matched => ensures_pure ⟨matched.1, .refl b, matched.2⟩
  · exact ensures_bind (castTo_exact _ b) fun _ matched => ensures_pure ⟨.refl a, matched.1, fun _ => .inl rfl⟩

section

variable {a b : PrimExpr} {f g : Env → Int} {us vs : List Var}

theorem renders_binary (op : BinOp) (left : a.Renders f us) (right : b.Renders g vs) :
    (PrimExpr.binary op a b).Renders (fun env => op.apply (f env) (g env)) (us ++ vs) where
  value env := by rw [PrimExpr.value, left.value, right.value]
  fresh w used := by
    rw [PrimExpr.vars, List.mem_append] at used
    exact List.mem_append.2 (used.imp (left.fresh w) (right.fresh w))

variable (left : a.Renders f us) (right : b.Renders g vs)

include left right

omit right in
theorem PrimExpr.Renders.asIntImm {x : Int} (found : a.asIntImm = some x) (env : Env) : f env = x := by
  obtain ⟨dtype, rfl⟩ := PrimExpr.asIntImm_eq found
  exact (left.value env).symm

theorem foldAdd_exact : Ensures Exact (foldAdd a b) fun answer =>
    ∀ e, answer = some e → e.Renders (fun env => f env + g env) (us ++ vs) := by
  unfold foldAdd
  split
  next pa pb foundA foundB =>
    exact foldResult_renders (fun env => by rw [left.asIntImm foundA, right.asIntImm foundB]) _ _
  · apply ensures_pure
    intro e folded
    split_ifs at folded with zero zero
    · cases folded
      exact right.mono (fun env => by rw [left.asIntImm zero, zero_add]) (List.subset_append_right _ _)
    · cases folded
      exact left.mono (fun env => by rw [right.asIntImm zero, add_zero]) (List.subset_append_left _ _)

theorem foldSub_exact : Ensures Exact (foldSub a b) fun answer =>
    ∀ e, answer = some e → e.Renders (fun env => f env - g env) (us ++ vs) := by
  unfold foldSub
  split
  next pa pb foundA foundB =>
    split
    · exact ensures_fail
    · exact foldResult_renders (fun env => by rw [left.asIntImm foundA, right.asIntImm foundB]) _ _
  · apply ensures_pure
    intro e folded
    split_ifs at folded with zero
    cases folded
    exact left.mono (fun env => by rw [right.asIntImm zero, sub_zero]) (List.subset_append_left _ _)

theorem foldMul_exact : Ensures Exact (foldMul a b) fun answer =>
    ∀ e, answer = some e → e.Renders (fun env => f env * g env) (us ++ vs) := by
  unfold foldMul
  split
  next pa pb foundA foundB =>
    exact foldResult_renders (fun env => by rw [left.asIntImm foundA, right.asIntImm foundB]) _ _
  · apply ensures_pure
    intro e folded
    split_ifs at folded with one zero one zero
    · cases folded
      exact right.mono (fun env => by rw [left.asIntImm one, one_mul]) (List.subset_append_right _ _)
    · cases folded
      exact left.mono (fun env => by rw [left.asIntImm zero, zero_mul]) (List.subset_append_left _ _)
    · cases folded
      exact left.mono (fun env => by rw [right.asIntImm one, mul_one]) (List.subset_append_left _ _)
    · cases folded
      exact right.mono (fun env => by rw [right.asIntImm zero, mul_zero]) (List.subset_append_right _ _)

theorem binaryOp_exact {op : BinOp} (linear : op = .add ∨ op = .sub ∨ op = .mul) :
    Ensures Exact (binaryOp op a b) (·.Renders (fun env => op.apply (f env) (g env)) (us ++ vs)) := by
  refine ensures_bind (binaryOpMatchTypes_exact a b) fun (l, r) ⟨sameL, sameR, _⟩ => ?_
  replace left := sameL.mono left.value left.fresh
  replace right := sameR.mono right.value right.fresh
  have folds : Ensures Exact (tryConstFold (fun _ _ => false) op l r) fun answer =>
      ∀ e, answer = some e → e.Renders (fun env => op.apply (f env) (g env)) (us ++ vs) := by
    rcases linear with rfl | rfl | rfl
    · exact foldAdd_exact left right
    · exact foldSub_exact left right
    · exact foldMul_exact left right
  refine ensures_bind folds fun answer folded => ?_
  cases answer with
  | some e => exact ensures_pure (folded e rfl)
  | none => exact ensures_pure (renders_binary op left right)

end

theorem neg_exact (a : PrimExpr) : Ensures Exact (neg a) (·.Renders (fun env => -a.value env) a.vars) := by
  unfold neg
  cases found : a.asIntImm with
  | some pa =>
    obtain ⟨dtype, rfl⟩ := PrimExpr.asIntImm_eq found
    refine (makeConst_exact dtype (-pa)).mono ?_
    rintro _ rfl
    exact renders_intImm (fun _ => rfl) dtype _
  | none =>
    refine ensures_bind (makeConst_exact a.dtype 0) ?_
    rintro _ rfl
    have zero := renders_intImm (f := fun _ => 0) (fun _ => rfl) a.dtype []
    refine (binaryOp_exact zero (.refl a) (.inr (.inl rfl))).mono fun e renders => ?_
    exact renders.mono (fun env => zero_sub _) (fun _ => id)

-- A comparison with a variable is a node, in which the variable may have been cast.
theorem binaryOp_compare {op : BinOp} (compares : op = .eq ∨ op = .lt ∨ op = .ge) (v : Var) (b : PrimExpr) :
    Ensures Exact (binaryOp op (.var v) b) fun e => ∃ l r, e = .binary op l r ∧
      (l = .var v ∨ l = .cast b.dtype (.var v)) ∧ ∀ env, r.value env = b.value env := by
  refine ensures_bind (binaryOpMatchTypes_exact (.var v) b) fun (l, r) ⟨_, same, shape⟩ => ?_
  have node : build (fun _ _ => false) op l r = pure (.binary op l r) := by
    rcases compares with rfl | rfl | rfl <;> rcases shape rfl with rfl | rfl <;> rfl
  dsimp only
  rw [node]
  exact ensures_pure ⟨l, r, rfl, shape rfl, same.value⟩

end Tlm.Arith
