import Mathlib.Data.List.Basic

set_option autoImplicit false

namespace Circle

variable {α : Type}

def place (size head steps : Nat) : Nat :=
  if head + steps < size then head + steps else head + steps - size

structure Holds (ring : List α) (head : Nat) (items : List α) : Prop where
  inside : head < ring.length
  fits : items.length ≤ ring.length
  each : ∀ i, i < items.length → ring[place ring.length head i]? = items[i]?

def stored (cells : List α) (start : Nat) (items : List α) : List α :=
  cells.take start ++ items ++ cells.drop (start + items.length)

variable {ring cells items more : List α} {head start : Nat}

theorem length_stored (room : start + items.length ≤ cells.length) :
    (stored cells start items).length = cells.length := by
  simp [stored]
  omega

theorem getElem?_stored (room : start + items.length ≤ cells.length) (i : Nat) :
    (stored cells start items)[i]? =
      if start ≤ i ∧ i < start + items.length then items[i - start]? else cells[i]? := by
  have left : min start cells.length = start := by omega
  simp only [stored, List.getElem?_append,
    List.length_append, List.length_take, left]
  by_cases before : i < start
  · have outside : ¬ start ≤ i := by omega
    have first : i < start + items.length := by omega
    simp [before, outside, first]
  · by_cases within : i < start + items.length
    · simp [before, within]
    · have back : start + items.length + (i - (start + items.length)) = i := by omega
      simp [within, back]

@[simp] theorem stored_nil : stored cells start [] = cells := by
  simp [stored]

theorem Holds.nil (inside : head < ring.length) : Holds ring head [] :=
  ⟨inside, Nat.zero_le _, by simp⟩

theorem Holds.read (holds : Holds ring head items) {count : Nat} (enough : count ≤ items.length) :
    (ring.drop head).take (min count (ring.length - head)) ++
      ring.take (count - min count (ring.length - head)) = items.take count := by
  obtain ⟨inside, fits, each⟩ := holds
  apply List.ext_getElem?
  intro i
  have here := each i
  unfold place at here
  grind

theorem place_eq_mod {size : Nat} (inside : head < size) {steps : Nat} (once : steps < size) :
    (head + steps) % size = place size head steps := by
  unfold place
  split
  next below => exact Nat.mod_eq_of_lt below
  next passed =>
    rw [Nat.mod_eq_sub_mod (by omega), Nat.mod_eq_of_lt (by omega)]

theorem Holds.drop (holds : Holds ring head items) {count : Nat} (enough : count ≤ items.length) :
    Holds ring ((head + count) % ring.length) (items.drop count) := by
  obtain ⟨inside, fits, each⟩ := holds
  have fewer : (items.drop count).length ≤ ring.length := by simp; omega
  refine ⟨Nat.mod_lt _ (by omega), fewer, ?_⟩
  intro i within
  have here := each (count + i) (by simp at within; omega)
  rw [place_eq_mod inside (by simp at within; omega), List.getElem?_drop, ← here]
  congr 1
  unfold place
  grind

def extended (ring : List α) (tail : Nat) (more : List α) : List α :=
  if ring.length ≤ tail then stored ring (tail - ring.length) more
  else
    stored (stored ring tail (more.take (ring.length - tail))) 0 (more.drop (ring.length - tail))

theorem Holds.extend (holds : Holds ring head items) (room : items.length + more.length ≤ ring.length) :
    Holds (extended ring (head + items.length) more) head (items ++ more) := by
  obtain ⟨inside, fits, each⟩ := holds
  unfold extended
  split
  next around =>
    have fit : head + items.length - ring.length + more.length ≤ ring.length := by omega
    have length := length_stored fit
    refine ⟨by omega, by rw [length, List.length_append]; omega, ?_⟩
    intro i within
    have here := each i
    rw [length, getElem?_stored fit, List.getElem?_append]
    unfold place at here ⊢
    grind
  next straight =>
    have first : (more.take (ring.length - (head + items.length))).length =
        min (ring.length - (head + items.length)) more.length := List.length_take
    have fit : head + items.length + (more.take (ring.length - (head + items.length))).length ≤
        ring.length := by omega
    have length := length_stored fit
    have again : 0 + (more.drop (ring.length - (head + items.length))).length ≤
        (stored ring (head + items.length) (more.take (ring.length - (head + items.length)))).length := by
      rw [length, List.length_drop]
      omega
    refine ⟨by rw [length_stored again]; omega,
      by rw [length_stored again, List.length_append]; omega, ?_⟩
    intro i within
    have here := each i
    rw [length_stored again, length, getElem?_stored again, getElem?_stored fit,
      List.getElem?_append, List.length_drop, first]
    unfold place at here ⊢
    grind

theorem Holds.grow (holds : Holds ring head items) (more : List α)
    (room : head + items.length ≤ ring.length + more.length) :
    Holds (stored (ring ++ more) ring.length (ring.take (head + items.length - ring.length))) head items := by
  obtain ⟨inside, fits, each⟩ := holds
  have left : (ring.take (head + items.length - ring.length)).length =
      head + items.length - ring.length := by simp; omega
  have fit : ring.length + (ring.take (head + items.length - ring.length)).length ≤
      (ring ++ more).length := by rw [left, List.length_append]; omega
  refine ⟨by rw [length_stored fit, List.length_append]; omega,
    by rw [length_stored fit, List.length_append]; omega, ?_⟩
  intro i within
  rw [length_stored fit, getElem?_stored fit, left, ← each i within, List.length_append]
  unfold place
  grind

theorem holds_zero (some : 0 < (items ++ more).length) : Holds (items ++ more) 0 items := by
  refine ⟨some, by simp, ?_⟩
  intro i within
  have below : 0 + i < (items ++ more).length := by simp; omega
  rw [place, if_pos below, Nat.zero_add, List.getElem?_append_left within]

end Circle
