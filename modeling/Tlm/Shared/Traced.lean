import Mathlib.Data.List.Forall2
import Tlm.Shared.Loop

set_option autoImplicit false

structure Traced (ε τ : Type) (α : Type) where
  result : Except ε α
  log : List τ

namespace Traced

variable {ε τ α β : Type}

protected def bind (x : Traced ε τ α) (f : α → Traced ε τ β) : Traced ε τ β :=
  match x.result with
  | .ok a => ⟨(f a).result, x.log ++ (f a).log⟩
  | .error e => ⟨.error e, x.log⟩

instance : Monad (Traced ε τ) where
  pure a := ⟨.ok a, []⟩
  bind := Traced.bind

instance : LawfulMonad (Traced ε τ) :=
  LawfulMonad.mk' (Traced ε τ)
    (by
      rintro _ ⟨_ | _, log⟩
      · rfl
      · exact congrArg (Traced.mk _) (List.append_nil _))
    (by
      intros
      rfl)
    (by
      rintro _ _ _ ⟨_ | a, log⟩ f g
      · rfl
      · change Traced.bind ⟨(f a).result, log ++ (f a).log⟩ g = Traced.bind ⟨.ok a, log⟩ _
        cases first : f a with
        | mk result log' => cases result <;> simp [Traced.bind, bind, first])

def emit (event : τ) : Traced ε τ Unit :=
  ⟨.ok (), [event]⟩

def fail (e : ε) : Traced ε τ α :=
  ⟨.error e, []⟩

def Returns (fine : τ → Prop) (x : Traced ε τ α) (post : α → Prop) : Prop :=
  (∀ event ∈ x.log, fine event) → ∃ a, x.result = .ok a ∧ post a

variable {fine : τ → Prop} {post : α → Prop} {post' : β → Prop} {x : Traced ε τ α}
  {f : α → Traced ε τ β}

variable {a : α}

theorem returns_pure (holds : post a) : Returns fine (pure a : Traced ε τ α) post :=
  fun _ => ⟨a, rfl, holds⟩

theorem returns_bind (first : Returns fine x post)
    (rest : ∀ a, post a → Returns fine (f a) post') : Returns fine (x >>= f) post' := by
  intro events
  obtain ⟨result, log⟩ := x
  cases result with
  | error e =>
    obtain ⟨a, returned, -⟩ := first events
    cases returned
  | ok a =>
    have both : ∀ event ∈ log ++ (f a).log, fine event := events
    obtain ⟨b, returned, holds⟩ := first fun event mem => both event (List.mem_append_left _ mem)
    cases returned
    exact rest a holds fun event mem => both event (List.mem_append_right _ mem)

theorem returns_map {g : α → β} (run : Returns fine x fun a => post' (g a)) : Returns fine (g <$> x) post' :=
  returns_bind run fun _ holds => returns_pure holds

variable {weaker : α → Prop}

theorem Returns.mono (run : Returns fine x post) (implies : ∀ a, post a → weaker a) : Returns fine x weaker := by
  intro events
  obtain ⟨a, returned, holds⟩ := run events
  exact ⟨a, returned, implies a holds⟩

variable {other : α → Prop}

theorem Returns.and (left : Returns fine x post) (right : Returns fine x other) :
    Returns fine x fun a => post a ∧ other a := by
  intro events
  obtain ⟨a, returned, holds⟩ := left events
  obtain ⟨b, again, also⟩ := right events
  cases returned.symm.trans again
  exact ⟨a, returned, holds, also⟩

theorem result_bind {b : β} (ok : (x >>= f).result = .ok b) : ∃ a, x.result = .ok a ∧ (f a).result = .ok b := by
  obtain ⟨result, log⟩ := x
  cases result with
  | error e => cases ok
  | ok a => exact ⟨a, rfl, ok⟩

theorem Returns.of_result (run : Returns fine x post) (every : ∀ a, x.result = .ok a → other a) :
    Returns fine x fun a => post a ∧ other a := by
  intro events
  obtain ⟨a, returned, holds⟩ := run events
  exact ⟨a, returned, holds, every a returned⟩

variable {event : τ}

theorem returns_emit {post : Unit → Prop} (holds : fine event → post ()) :
    Returns fine (emit event : Traced ε τ Unit) post :=
  fun events => ⟨(), rfl, holds (events event List.mem_cons_self)⟩

-- Of a computation that comes to nothing, only the events to be kept count.
def settle (keep : τ → Bool) (applied : α → Bool) (x : Traced ε τ α) : Traced ε τ α :=
  match x.result with
  | .ok a => ⟨.ok a, if applied a then x.log else x.log.filter keep⟩
  | .error e => ⟨.error e, x.log⟩

theorem settle_result (keep : τ → Bool) (applied : α → Bool) : (settle keep applied x).result = x.result := by
  obtain ⟨_ | _, log⟩ := x <;> rfl

theorem returns_settle {keep : τ → Bool} {applied : α → Bool} (idle : ∀ a, applied a = false → post a)
    (run : Returns fine x post) : Returns fine (settle keep applied x) post := by
  obtain ⟨_ | a, log⟩ := x
  · exact run
  · cases used : applied a with
    | true =>
      intro events
      exact run (by simpa [settle, used] using events)
    | false => exact fun _ => ⟨a, rfl, idle a used⟩

def Ensures (fine : τ → Prop) (x : Traced ε τ α) (post : α → Prop) : Prop :=
  (∀ event ∈ x.log, fine event) → ∀ a, x.result = .ok a → post a

theorem ensures_pure (holds : post a) : Ensures fine (pure a : Traced ε τ α) post := by
  rintro - _ ⟨⟩
  exact holds

theorem ensures_true : Ensures fine x fun _ => True :=
  fun _ _ _ => trivial

theorem ensures_result : Ensures fine x fun a => x.result = .ok a :=
  fun _ _ returned => returned

theorem Ensures.holds {P : α → Prop} (run : Ensures (fun _ => True) x P) (returned : x.result = .ok a) : P a :=
  run (fun _ _ => trivial) a returned

theorem ensures_fail {e : ε} : Ensures fine (fail e : Traced ε τ α) post := by
  rintro - _ ⟨⟩

theorem ensures_bind (first : Ensures fine x post)
    (rest : ∀ a, post a → Ensures fine (f a) post') : Ensures fine (x >>= f) post' := by
  intro events b returned
  obtain ⟨result, log⟩ := x
  cases result with
  | error e => cases returned
  | ok a =>
    have both : ∀ event ∈ log ++ (f a).log, fine event := events
    have holds := first (fun event mem => both event (List.mem_append_left _ mem)) a rfl
    exact rest a holds (fun event mem => both event (List.mem_append_right _ mem)) b returned

theorem ensures_emit {post : Unit → Prop} (holds : fine event → post ()) :
    Ensures fine (emit event : Traced ε τ Unit) post :=
  fun events _ _ => holds (events event List.mem_cons_self)

theorem Ensures.mono (run : Ensures fine x post) (implies : ∀ a, post a → weaker a) : Ensures fine x weaker :=
  fun events a returned => implies a (run events a returned)

theorem ensures_foldlM {ι σ : Type} {body : σ → ι → Traced ε τ σ} {K : List ι → σ → Prop}
    (round : ∀ past i s, K past s → Ensures fine (body s i) (K (past ++ [i]))) (items past : List ι)
    (s : σ) (start : K past s) : Ensures fine (items.foldlM body s) (K (past ++ items)) := by
  induction items generalizing past s with
  | nil =>
    simpa using ensures_pure start
  | cons i items ih =>
    refine ensures_bind (round past i s start) fun s' middle => ?_
    simpa using ih (past ++ [i]) s' middle

theorem along_foldlM {ι σ : Type} {P : σ → ι → Prop} {I : σ → Prop} {body : σ → ι → Traced ε τ σ}
    (step : ∀ {s i s'}, I s → P s i → (body s i).result = .ok s' → I s') {items : List ι} {s s' : σ}
    (along : Cpp.Along P (fun s i => (body s i).result) items s) (start : I s)
    (run : (items.foldlM body s).result = .ok s') : I s' := by
  induction items generalizing s with
  | nil =>
    cases run
    exact start
  | cons i items ih =>
    obtain ⟨middle, first, later⟩ := result_bind run
    exact ih (along.2 middle first) (step start along.1 first) later

theorem quiet_foldlM {ι σ : Type} {body : σ → ι → Traced ε τ σ} {items : List ι} {s : σ}
    (along : Cpp.Along (fun s i => (body s i).log = []) (fun s i => (body s i).result) items s) :
    (items.foldlM body s).log = [] := by
  induction items generalizing s with
  | nil => rfl
  | cons i items ih =>
    change (Traced.bind (body s i) fun s' => items.foldlM body s').log = []
    unfold Traced.bind
    split
    next s' returned => simp [along.1, ih (along.2 s' returned)]
    · exact along.1

theorem ensures_mapM {R : α → β → Prop} {items : List α} (each : ∀ a ∈ items, Ensures fine (f a) (R a)) :
    Ensures fine (items.mapM f) fun results => List.Forall₂ R items results := by
  induction items with
  | nil => exact ensures_pure .nil
  | cons a rest ih =>
    rw [List.mapM_cons]
    refine ensures_bind (each a List.mem_cons_self) fun b holds => ?_
    refine ensures_bind (ih fun a' member => each a' (List.mem_cons_of_mem _ member)) fun later all => ?_
    exact ensures_pure (.cons holds all)

end Traced
