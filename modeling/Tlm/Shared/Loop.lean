import Tlm.Shared.Fault
import Mathlib.Tactic.Common

set_option autoImplicit false

namespace Cpp

section

variable {ε α σ : Type} (items : σ → List α) (body : α → σ → Except ε σ) (stuck : ε)

-- `for (i = 0; i < items.size(); ++i)`. The bound is read again in every round.
def forItems : Nat → Nat → σ → Except ε σ
  | 0, _, _ => .error stuck
  | fuel + 1, i, s =>
    match (items s)[i]? with
    | none => .ok s
    | some item => do forItems fuel (i + 1) (← body item s)

structure Grows (quiet : α → Prop) : Prop where
  skip : ∀ {item s}, quiet item → body item s = .ok s
  step : ∀ {item s s' done rest}, items s = done ++ item :: rest → body item s = .ok s' →
    ∃ done' added, items s' = done' ++ (rest ++ added) ∧ done'.length = done.length + 1 ∧
      (∀ a ∈ added, quiet a) ∧ added.length ≤ 1

variable {items body stuck} {quiet : α → Prop}

theorem forItems_quiet (grows : Grows items body quiet) {s : σ} {extra done : List α} {fuel : Nat}
    (shape : items s = done ++ extra) (silent : (∀ a ∈ extra, quiet a)) (enough : extra.length < fuel) :
    forItems items body stuck fuel done.length s = .ok s := by
  induction extra generalizing done fuel with
  | nil =>
    obtain ⟨fuel, rfl⟩ := Nat.exists_eq_succ_of_ne_zero (Nat.ne_of_gt enough)
    simp [forItems, shape]
  | cons item extra ih =>
    obtain ⟨fuel, rfl⟩ := Nat.exists_eq_succ_of_ne_zero (Nat.ne_of_gt (Nat.zero_lt_of_lt enough))
    have skipped : body item s = .ok s := grows.skip (silent item (by simp))
    have next := @ih (done ++ [item]) fuel (by simp [shape])
      (fun a member => silent a (List.mem_cons_of_mem _ member)) (by rw [List.length_cons] at enough; omega)
    have found : (items s)[done.length]? = some item := by simp [shape]
    rw [forItems, found]
    simpa [skipped, Except.bind] using next

theorem forItems_rest (grows : Grows items body quiet) {rest extra done : List α} {fuel : Nat} {s : σ}
    (shape : items s = done ++ (rest ++ extra)) (silent : (∀ a ∈ extra, quiet a))
    (enough : 2 * rest.length + extra.length < fuel) :
    forItems items body stuck fuel done.length s = rest.foldlM (fun s item => body item s) s := by
  induction rest generalizing extra done fuel s with
  | nil =>
    exact forItems_quiet grows (by simpa using shape) silent (by simpa using enough)
  | cons item rest ih =>
    rw [List.length_cons] at enough
    obtain ⟨fuel, rfl⟩ := Nat.exists_eq_succ_of_ne_zero (Nat.ne_of_gt (Nat.zero_lt_of_lt enough))
    have found : (items s)[done.length]? = some item := by simp [shape]
    simp only [forItems, found, List.foldlM_cons]
    cases run : body item s with
    | error => rfl
    | ok s' =>
      obtain ⟨done', added, shape', size, quietAdded, bound⟩ :=
        grows.step (by simpa using shape) run
      have silent' : ∀ a ∈ extra ++ added, quiet a := by
        intro a member
        exact (List.mem_append.mp member).elim (silent a) (quietAdded a)
      have next := @ih (extra ++ added) done' fuel s' (by simp [shape']) silent'
        (by rw [List.length_append]; omega)
      rw [size] at next
      exact next

theorem forItems_eq_foldlM (grows : Grows items body quiet) {s : σ} {fuel : Nat}
    (enough : 2 * (items s).length < fuel) :
    forItems items body stuck fuel 0 s = (items s).foldlM (fun s item => body item s) s :=
  @forItems_rest ε α σ items body stuck quiet grows (items s) [] [] fuel s (by simp) (by simp)
    (by simpa using enough)

end

def concatM {ε α β : Type} (f : α → Except ε (List β)) : List α → Except ε (List β)
  | [] => .ok []
  | a :: rest => return (← f a) ++ (← concatM f rest)

theorem mem_concatM {ε α β : Type} {f : α → Except ε (List β)} {b : β} {as : List α} {bs : List β}
    (run : concatM f as = .ok bs) (member : b ∈ bs) : ∃ a ∈ as, ∃ cs, f a = .ok cs ∧ b ∈ cs := by
  induction as generalizing bs with
  | nil =>
    cases run
    cases member
  | cons a rest ih =>
    simp only [concatM, bind_ok, pure_ok] at run
    obtain ⟨cs, first, ds, later, rfl⟩ := run
    rcases List.mem_append.mp member with here | there
    · exact ⟨a, by simp, cs, first, here⟩
    · obtain ⟨a', inside, found⟩ := ih later there
      exact ⟨a', List.mem_cons_of_mem _ inside, found⟩

theorem concatM_total {ε α β : Type} {f : α → Except ε (List β)} {as : List α} :
    (∃ bs, concatM f as = .ok bs) ↔ ∀ a ∈ as, ∃ bs, f a = .ok bs := by
  induction as with
  | nil => simp [concatM]
  | cons a rest ih =>
    rw [List.forall_mem_cons, ← ih]
    simp only [concatM, bind_ok]
    constructor
    · rintro ⟨_, here, first, there, later, -⟩
      exact ⟨⟨here, first⟩, there, later⟩
    · rintro ⟨⟨here, first⟩, there, later⟩
      exact ⟨_, here, first, there, later, rfl⟩

theorem foldlM_inv {ε ι σ : Type} {body : σ → ι → Except ε σ} {P : σ → Prop}
    (step : ∀ {s i s'}, P s → body s i = .ok s' → P s') {is : List ι} {s s' : σ}
    (run : is.foldlM body s = .ok s') (start : P s) : P s' := by
  induction is generalizing s s' with
  | nil =>
    simp only [List.foldlM_nil, pure_ok] at run
    exact run ▸ start
  | cons i is ih =>
    simp only [List.foldlM_cons, bind_ok] at run
    obtain ⟨middle, first, later⟩ := run
    exact ih later (step start first)

section

variable {ε ι σ : Type}

def Along (P : σ → ι → Prop) (body : σ → ι → Except ε σ) : List ι → σ → Prop
  | [], _ => True
  | i :: is, s => P s i ∧ ∀ s', body s i = .ok s' → Along P body is s'

instance decidableForallOk {α : Type} {P : α → Prop} [DecidablePred P] :
    (x : Except ε α) → Decidable (∀ a, x = .ok a → P a)
  | .ok a => decidable_of_iff (P a) (by simp)
  | .error _ => isTrue (by simp)

instance Along.decidable {P : σ → ι → Prop} [∀ s i, Decidable (P s i)] {body : σ → ι → Except ε σ} :
    (is : List ι) → (s : σ) → Decidable (Along P body is s)
  | [], _ => inferInstanceAs (Decidable True)
  | i :: is, s =>
    let _ : DecidablePred (Along P body is) := Along.decidable is
    inferInstanceAs (Decidable (P s i ∧ _))

theorem along_of_forall {P : σ → ι → Prop} {body : σ → ι → Except ε σ} (always : ∀ s i, P s i)
    {is : List ι} {s : σ} : Along P body is s := by
  induction is generalizing s with
  | nil =>
    trivial
  | cons i is ih =>
    exact ⟨always s i, fun _ _ => ih⟩

theorem foldlM_along {P : σ → ι → Prop} {body : σ → ι → Except ε σ} {Inv : σ → Prop}
    (step : ∀ {s i}, Inv s → P s i → ∃ s', body s i = .ok s' ∧ Inv s') {is : List ι} {s : σ}
    (start : Inv s) (along : Along P body is s) : ∃ s', is.foldlM body s = .ok s' ∧ Inv s' := by
  induction is generalizing s with
  | nil =>
    exact ⟨s, rfl, start⟩
  | cons i is ih =>
    obtain ⟨middle, first, held⟩ := step start along.1
    obtain ⟨s', later, done⟩ := ih held (along.2 middle first)
    exact ⟨s', by simpa [first] using later, done⟩

theorem along_and_iff {P : σ → Prop} {Q : σ → ι → Prop} {body : σ → ι → Except ε σ}
    (step : ∀ {s i s'}, P s → body s i = .ok s' → (P s' ↔ Q s i)) {is : List ι} {s s' : σ} (start : P s)
    (run : is.foldlM body s = .ok s') :
    (Along (fun s _ => P s) body is s ∧ P s' ↔ Along Q body is s) := by
  induction is generalizing s s' with
  | nil =>
    simp only [List.foldlM_nil, pure_ok] at run
    subst run
    exact iff_of_true ⟨trivial, start⟩ trivial
  | cons i is ih =>
    simp only [List.foldlM_cons, bind_ok] at run
    obtain ⟨middle, first, later⟩ := run
    have only : ∀ {R : σ → Prop}, (∀ t, body s i = .ok t → R t) ↔ R middle := by
      intro R
      simp [first]
    simp only [Along, only, start, true_and]
    constructor
    · rintro ⟨along, final⟩
      -- the state behind this item is the start of the rest, or the last one
      have here : P middle := by
        cases is with
        | nil =>
          simp only [List.foldlM_nil, pure_ok] at later
          exact later ▸ final
        | cons => exact along.1
      exact ⟨(step start first).mp here, (ih here later).mp ⟨along, final⟩⟩
    · rintro ⟨holds, along⟩
      exact (ih ((step start first).mpr holds) later).mpr along

end

section

variable {ι σ ρ τ ε ε' : Type} {gen : σ × ρ → ι → Except ε (σ × ρ)}
  {dec : σ × List τ → ι → Except ε' (σ × List τ)} {wrote : σ → σ → List τ → Prop}
  {P : σ × ρ → ι → Prop}

theorem foldlM_lockstep (still : ∀ s, wrote s s [])
    (chain : ∀ {a b c x y}, wrote a b x → wrote b c y → wrote a c (x ++ y))
    (step : ∀ {i s r s' r'}, P (s, r) i → gen (s, r) i = .ok (s', r') →
      ∃ out, wrote s s' out ∧ ∀ rest, dec (s, out ++ rest) i = .ok (s', rest)) {is : List ι} {s : σ}
    {r : ρ} {s' : σ} {r' : ρ} (along : Along P gen is (s, r)) (run : is.foldlM gen (s, r) = .ok (s', r')) :
    ∃ out, wrote s s' out ∧ ∀ rest, is.foldlM dec (s, out ++ rest) = .ok (s', rest) := by
  induction is generalizing s r s' r' with
  | nil =>
    obtain ⟨rfl, rfl⟩ := run
    exact ⟨[], still s, fun rest => rfl⟩
  | cons i is ih =>
    simp only [List.foldlM_cons, bind_ok, Prod.exists] at run
    obtain ⟨middle, r₁, first, later⟩ := run
    obtain ⟨out, written, read⟩ := step along.1 first
    obtain ⟨out', written', read'⟩ := ih (along.2 _ first) later
    refine ⟨out ++ out', chain written written', fun rest => ?_⟩
    simp only [List.foldlM_cons, bind_ok, Prod.exists]
    exact ⟨middle, out' ++ rest, by rw [List.append_assoc]; exact read _, read' rest⟩

end

theorem mapM_mem {ε α β : Type} {f : α → Except ε β} {xs : List α} {ys : List β}
    (run : xs.mapM f = .ok ys) {y : β} (mem : y ∈ ys) : ∃ x ∈ xs, f x = .ok y := by
  induction xs generalizing ys with
  | nil =>
    rw [List.mapM_nil, pure_ok] at run
    simp [← run] at mem
  | cons x xs ih =>
    simp only [List.mapM_cons, bind_ok, pure_ok] at run
    obtain ⟨first, head, rest, later, rfl⟩ := run
    rcases List.mem_cons.1 mem with rfl | mem
    · exact ⟨x, List.mem_cons_self, head⟩
    · obtain ⟨z, among, result⟩ := ih later mem
      exact ⟨z, List.mem_cons_of_mem _ among, result⟩

end Cpp
