import Tlm.AutoScheduler.Primitives
import Tlm.Shared.Loop
import Tlm.Shared.Machine
import Mathlib.Data.List.Sort

set_option autoImplicit false

namespace Tlm.AutoScheduler

open Cpp

-- The square root bound of the source is `i * i ≤ n`. No root exists of a negative extent.
def getFactors (n : Int32) : Except Fault (List Int32) := do
  ensure .undefined (0 ≤ n.toInt)
  let size := n.toInt.toNat
  let step := if size % 2 = 0 then 1 else 2
  let divisors := (List.range size).map (1 + step * ·) |>.filter fun i => i * i ≤ size ∧ size % i = 0
  let res := divisors.flatMap fun i => if size / i ≠ i then [i, size / i] else [i]
  return (res.insertionSort (· ≤ ·)).map Int32.ofNat

theorem getFactors_sound {n f : Int32} {factors : List Int32}
    (run : getFactors n = .ok factors) (member : f ∈ factors) :
    1 ≤ f.toInt ∧ f.toInt ∣ n.toInt ∧ 1 ≤ n.toInt := by
  simp only [getFactors, bind_ok, ensure_ok, decide_eq_true_eq, pure_ok] at run
  obtain ⟨-, nonneg, rfl⟩ := run
  simp only [List.mem_map, List.mem_insertionSort, List.mem_flatMap, List.mem_filter,
    decide_eq_true_eq, List.mem_range] at member
  obtain ⟨d, ⟨i, ⟨⟨k, below, rfl⟩, _, divides⟩, chosen⟩, rfl⟩ := member
  generalize (if n.toInt.toNat % 2 = 0 then 1 else 2) = step at divides chosen
  have exact := Nat.mul_div_cancel' (Nat.dvd_of_mod_eq_zero divides)
  have positive : 0 < n.toInt.toNat := Nat.zero_lt_of_lt below
  have d_dvd : d ∣ n.toInt.toNat := by
    have cases : d = 1 + step * k ∨ d = n.toInt.toNat / (1 + step * k) := by
      split at chosen <;> simp at chosen <;> tauto
    rcases cases with rfl | rfl
    · exact ⟨_, exact.symm⟩
    · exact ⟨_, ((Nat.mul_comm _ _).trans exact).symm⟩
  have d_le := Nat.le_of_dvd positive d_dvd
  have d_pos := Nat.pos_of_dvd_of_pos d_dvd positive
  have value : (Int32.ofNat d).toInt = d :=
    Int32.toInt_ofNat_of_lt (by have := n.toInt_lt; omega)
  rw [value]
  refine ⟨by omega, ?_, by omega⟩
  have cast : (n.toInt.toNat : Int) = n.toInt := Int.toNat_of_nonneg nonneg
  rw [← cast]
  exact Int.natCast_dvd_natCast.mpr d_dvd

def dfsEnumerate (maxInnermostFactor : Int32) :
    Nat → Int32 → List Int32 → Except Fault (List (List Int32))
  | 0, _, stack => do
      let innermost ← found .check stack.getLast?
      return if innermost ≤ maxInnermostFactor then [stack] else []
  | left + 1, remaining, stack => do
      concatM (fun f => dfsEnumerate maxInnermostFactor left (remaining / f) (stack ++ [f]))
        (← getFactors remaining)

def getFactorizationSchemes (extent : Int32) (nLengths : Nat) (maxInnermostFactor : Int32) :
    Except Fault (List (List Int32)) :=
  dfsEnumerate maxInnermostFactor nLengths extent []

def Tiles (extent : Int32) (lengths : List Int32) : Prop :=
  (∀ length ∈ lengths, 1 ≤ length.toInt) ∧ product lengths ∣ extent.toInt

theorem product_append_singleton (stack : List Int32) (f : Int32) :
    product (stack ++ [f]) = product stack * f.toInt := by
  simp [product]

variable {maxInnermostFactor : Int32}

theorem dfsEnumerate_sound {extent : Int32} {left : Nat} {remaining : Int32} {stack scheme : List Int32}
    {schemes : List (List Int32)}
    (run : dfsEnumerate maxInnermostFactor left remaining stack = .ok schemes) (member : scheme ∈ schemes)
    (pos : (∀ length ∈ stack, 1 ≤ length.toInt)) (exact : product stack * remaining.toInt = extent.toInt) :
    scheme.length = stack.length + left ∧ Tiles extent scheme := by
  induction left generalizing remaining stack scheme schemes with
  | zero =>
    simp only [dfsEnumerate, bind_ok, pure_ok] at run
    obtain ⟨innermost, _, rfl⟩ := run
    split at member
    · rw [List.mem_singleton] at member
      subst member
      exact ⟨rfl, pos, Dvd.intro _ exact⟩
    · cases member
  | succ left ih =>
    simp only [dfsEnumerate, bind_ok] at run
    obtain ⟨factors, split, run⟩ := run
    obtain ⟨f, inside, later, run, member⟩ := mem_concatM run member
    obtain ⟨f_pos, f_dvd, remaining_pos⟩ := getFactors_sound split inside
    have quotient : (remaining / f).toInt = remaining.toInt / f.toInt :=
      toInt_div_of_nonneg (by omega) (by omega)
    have pos' : ∀ length ∈ stack ++ [f], 1 ≤ length.toInt := by
      intro length within
      rcases List.mem_append.mp within with old | new
      · exact pos length old
      · rw [List.mem_singleton.mp new]
        exact f_pos
    have exact' : product (stack ++ [f]) * (remaining / f).toInt = extent.toInt := by
      rw [product_append_singleton, quotient, mul_assoc, Int.mul_ediv_cancel' f_dvd, exact]
    obtain ⟨size, tiles⟩ := ih run member pos' exact'
    rw [List.length_append, List.length_singleton] at size
    exact ⟨by omega, tiles⟩

variable {nLengths : Nat} {schemes : List (List Int32)} {scheme : List Int32}

theorem getFactorizationSchemes_sound {extent : Int32}
    (run : getFactorizationSchemes extent nLengths maxInnermostFactor = .ok schemes)
    (member : scheme ∈ schemes) : scheme.length = nLengths ∧ Tiles extent scheme := by
  have sound := @dfsEnumerate_sound _ extent _ _ _ _ _ run member (by simp) (by simp)
  simpa using sound

theorem getFactorizationSchemes_pos {extent : Int32}
    (run : getFactorizationSchemes extent (nLengths + 1) maxInnermostFactor = .ok schemes)
    (member : scheme ∈ schemes) : 1 ≤ extent.toInt := by
  simp only [getFactorizationSchemes, dfsEnumerate, bind_ok] at run
  obtain ⟨factors, split, run⟩ := run
  obtain ⟨f, inside, -⟩ := mem_concatM run member
  exact (getFactors_sound split inside).2.2

def outerLength (extent : Int64) (inner : List Int32) : Except Fault Int32 := do
  ensure .undefined (int64Product inner ≠ 0)
  return (extent / int64Product inner).toInt32

def maxFactorIndex (maxInnermost dstLength : Int32) (factors : List Int32) : Nat → Nat
  | 0 => 0
  | index + 1 =>
    if factors.getD (index + 1) 0 * dstLength ≤ maxInnermost then index + 1
    else maxFactorIndex maxInnermost dstLength factors index

-- `none` is the `continue` of a destination that cannot grow.
def drawFactor (maxInnermost : Int32) (innermost : Bool) (dstLength : Int32)
    (factors : List Int32) (rand : RandGen) : Except Fault (Option (Int32 × RandGen)) := do
  let (value, rand) := draw rand
  if innermost then
    let index := maxFactorIndex maxInnermost dstLength factors (factors.length - 1)
    if index = 0 then return none
    return some (← found .undefined factors[value % (index + 1)]?, rand)
  else
    return some (← found .undefined factors[value % factors.length]?, rand)

-- Positions are counted from `j`. The source position comes first when both are the same.
def moveFactor (src dst : Nat) (factor : Int32) : Nat → List Int32 → List Int32
  | _, [] => []
  | j, length :: rest =>
    (if j = src then length / factor else if j = dst then length * factor else length) ::
      moveFactor src dst factor (j + 1) rest

-- `RandomPermutation`. Every order of the positions comes out for some draws.
def randomPermutation : Nat → RandGen → List Nat × RandGen
  | 0, rand => ([], rand)
  | n + 1, rand =>
    let (perm, rand) := randomPermutation n rand
    let (value, rand) := draw rand
    (perm.insertIdx (value % (n + 1)) n, rand)

def mutateRound (maxInnermost : Int32) (extent : Int64) (perm : List Nat)
    (lengths : List Int32) (rand : RandGen) (i : Nat) : Except Fault (List Int32 × RandGen) := do
  let srcIdx ← found .undefined perm[i]?
  let length ← found .undefined lengths[srcIdx]?
  if length ≤ 1 then return (lengths, rand)
  let dstIdx ← found .undefined perm[(i + 1) % perm.length]?
  let dstLength ← found .undefined lengths[dstIdx]?
  let factors ← getFactors length
  ensure .check (1 ≤ factors.length)
  match ← drawFactor maxInnermost (dstIdx = lengths.length - 1) dstLength factors rand with
  | none => return (lengths, rand)
  | some (factor, rand) =>
    let inner := moveFactor srcIdx dstIdx factor 1 lengths.tail
    let newLengths := (← outerLength extent inner) :: inner
    ensure .check (newLengths.getLast?.all (· ≤ maxInnermost))
    return (newLengths, rand)

def definedLengths : List (Option Int32) → Except Fault (List Int32)
  | [] => .ok []
  | length :: rest => return (← found .check length) :: (← definedLengths rest)

def mutateTileSize (policy : SketchPolicy) (fields : SplitFields) (rand : RandGen) :
    Except Fault (List Int32 × RandGen) := do
  let extent := (← found .check fields.extent).toInt64
  let inner ← definedLengths fields.lengths
  let lengths := (← outerLength extent inner) :: inner
  let (perm, rand) := randomPermutation lengths.length rand
  let (lengths, rand) ← (List.range perm.length).foldlM
    (fun (lengths, rand) i =>
      mutateRound policy.maxInnermostSplitFactor extent perm lengths rand i) (lengths, rand)
  return (lengths.tail, rand)

section

variable {src dst : Nat} {factor : Int32}

def share (factor : Int32) (position j size : Nat) : Int :=
  if j ≤ position ∧ position < j + size then factor.toInt else 1

theorem share_here (j size : Nat) : share factor j j (size + 1) = factor.toInt :=
  if_pos (by omega)

theorem share_behind (j size : Nat) : share factor j (j + 1) size = 1 :=
  if_neg (by omega)

variable {j : Nat}

theorem share_later {position : Nat} (apart : j ≠ position) (size : Nat) :
    share factor position j (size + 1) = share factor position (j + 1) size :=
  if_congr (by omega) rfl rfl

theorem toInt_div_factor {length : Int32} (pos : 1 ≤ length.toInt) (factorPos : 1 ≤ factor.toInt)
    (divides : factor.toInt ∣ length.toInt) :
    1 ≤ (length / factor).toInt ∧ (length / factor).toInt * factor.toInt = length.toInt := by
  have quotient : (length / factor).toInt = length.toInt / factor.toInt :=
    toInt_div_of_nonneg (by omega) (by omega)
  have back := Int.ediv_mul_cancel divides
  rw [quotient]
  refine ⟨?_, back⟩
  by_contra small
  nlinarith

theorem moveFactor_sound (factorPos : 1 ≤ factor.toInt) :
    ∀ {j : Nat} {inner : List Int32}, (∀ length ∈ inner, 1 ≤ length.toInt) →
      (∀ length, j ≤ src → inner[src - j]? = some length → factor.toInt ∣ length.toInt) →
      (∀ length, j ≤ dst → dst ≠ src → inner[dst - j]? = some length →
        length.toInt * factor.toInt < 2 ^ 31) →
      (∀ length ∈ moveFactor src dst factor j inner, 1 ≤ length.toInt) ∧
        product (moveFactor src dst factor j inner) * share factor src j inner.length =
          product inner * if dst = src then 1 else share factor dst j inner.length := by
  intro j inner
  induction inner generalizing j with
  | nil =>
    intro _ _ _
    simp [moveFactor, share, show ∀ n, ¬(j ≤ n ∧ n < j) by omega]
  | cons length rest ih =>
    intro pos divides fits
    have headPos := pos length (by simp)
    obtain ⟨laterPos, laterProduct⟩ := @ih (j + 1) (fun l member => pos l (List.mem_cons_of_mem _ member))
      (fun l after found => divides l (by omega)
        (by rw [show src - j = (src - (j + 1)) + 1 by omega]; simpa using found))
      (fun l after apart found => fits l (by omega) apart
        (by rw [show dst - j = (dst - (j + 1)) + 1 by omega]; simpa using found))
    simp only [moveFactor, List.forall_mem_cons, product_cons, List.length_cons]
    by_cases atSrc : j = src
    · subst atSrc
      obtain ⟨quotientPos, back⟩ := toInt_div_factor headPos factorPos (divides length (by omega) (by simp))
      have gain : (if dst = j then 1 else share factor dst j (rest.length + 1)) =
          if dst = j then 1 else share factor dst (j + 1) rest.length := by
        split
        · rfl
        · exact share_later (by omega) _
      rw [share_behind, mul_one] at laterProduct
      rw [if_pos rfl, share_here, gain, laterProduct]
      refine ⟨⟨quotientPos, laterPos⟩, ?_⟩
      rw [← back]
      ring
    · rw [if_neg atSrc, share_later atSrc]
      by_cases atDst : j = dst
      · subst atDst
        have grown : (length * factor).toInt = length.toInt * factor.toInt :=
          toInt_mul_of_fits (by nlinarith) (fits length (by omega) atSrc (by simp))
        rw [if_neg atSrc, share_behind, mul_one] at laterProduct
        rw [if_pos rfl, if_neg atSrc, share_here, grown]
        refine ⟨⟨by nlinarith, laterPos⟩, ?_⟩
        rw [mul_assoc, laterProduct]
        ring
      · rw [if_neg atDst, share_later atDst, mul_assoc, laterProduct, mul_assoc]
        exact ⟨⟨headPos, laterPos⟩, rfl⟩

theorem moveFactor_length {inner : List Int32} : (moveFactor src dst factor j inner).length = inner.length := by
  induction inner generalizing j with
  | nil => rfl
  | cons length rest ih => simp [moveFactor, ih]

end

section

variable {extent : Int32}

structure Balanced (extent outer : Int32) (inner : List Int32) : Prop where
  tiles : Tiles extent inner
  exact : outer.toInt * product inner = extent.toInt

variable {inner : List Int32} {outer : Int32}

theorem outerLength_balanced (extentPos : 1 ≤ extent.toInt) (tiles : Tiles extent inner)
    (run : outerLength extent.toInt64 inner = .ok outer) : Balanced extent outer inner := by
  simp only [outerLength, bind_ok, pure_ok] at run
  obtain ⟨-, -, rfl⟩ := run
  have pos := product_pos tiles.1
  have le := Int.le_of_dvd (by omega) tiles.2
  have bound := extent.toInt_lt
  have whole : (int64Product inner).toInt = product inner := by
    rw [toInt_int64Product, bmod64_of_fits (by omega) (by omega)]
  have quotientBound : extent.toInt / product inner ≤ extent.toInt :=
    Int.ediv_le_self _ (by omega)
  have quotientNonneg : 0 ≤ extent.toInt / product inner :=
    Int.ediv_nonneg (by omega) (by omega)
  have quotient : (extent.toInt64 / int64Product inner).toInt = extent.toInt / product inner := by
    rw [Int64.toInt_div, whole, Int32.toInt_toInt64, Int.tdiv_eq_ediv_of_nonneg (by omega),
      bmod64_of_fits (by omega) (by omega)]
  refine ⟨tiles, ?_⟩
  rw [Int64.toInt_toInt32, quotient, bmod32_of_fits (by omega) (by omega), Int.ediv_mul_cancel tiles.2]

variable {rand rand' : RandGen} {maxInnermost : Int32}

theorem drawFactor_mem {dstLength factor : Int32} {innermost : Bool} {factors : List Int32}
    (run : drawFactor maxInnermost innermost dstLength factors rand = .ok (some (factor, rand'))) :
    factor ∈ factors := by
  unfold drawFactor at run
  cases innermost with
  | true =>
    simp only [if_true] at run
    split at run
    · simp at run
    · simp only [bind_ok, found_ok] at run
      obtain ⟨_, present, rfl, -⟩ := run
      exact List.mem_of_getElem? present
  | false =>
    simp only [Bool.false_eq_true, if_false, bind_ok, found_ok] at run
    obtain ⟨_, present, rfl, -⟩ := run
    exact List.mem_of_getElem? present

-- Taking a factor out of one length and putting it into another keeps the tiling exact.
theorem moveFactor_tiles {length factor : Int32} {src dst : Nat} (extentPos : 1 ≤ extent.toInt)
    (balanced : Balanced extent outer inner) (source : (outer :: inner)[src]? = some length)
    (factorPos : 1 ≤ factor.toInt) (divides : factor.toInt ∣ length.toInt) :
    Tiles extent (moveFactor src dst factor 1 inner) := by
  have atSrc : ∀ l, 1 ≤ src → inner[src - 1]? = some l → l = length := by
    intro l after found
    rw [show src = (src - 1) + 1 by omega, List.getElem?_cons_succ, found] at source
    exact Option.some.inj source
  -- outside the list the factor comes from the outermost length
  have outside : src = 0 → product inner * factor.toInt ∣ extent.toInt := by
    rintro rfl
    simp only [List.getElem?_cons_zero, Option.some.injEq] at source
    rw [← balanced.exact, mul_comm outer.toInt, source]
    exact mul_dvd_mul_left _ divides
  have fits : ∀ l, 1 ≤ dst → dst ≠ src → inner[dst - 1]? = some l →
      l.toInt * factor.toInt < 2 ^ 31 := by
    intro l after apart found
    have whole : l.toInt * factor.toInt ∣ extent.toInt := by
      rcases Nat.eq_zero_or_pos src with first | later
      · have member : l ∈ inner := List.mem_of_getElem? found
        exact (mul_dvd_mul_right (dvd_product member) _).trans (outside first)
      · have present : inner[src - 1]? = some length := by
          rw [show src = (src - 1) + 1 by omega, List.getElem?_cons_succ] at source
          simpa using source
        have pair := mul_dvd_product found present (by omega)
        exact ((mul_dvd_mul_left _ divides).trans pair).trans balanced.tiles.2
    have := Int.le_of_dvd (by omega) whole
    have := extent.toInt_lt
    omega
  obtain ⟨pos, moved⟩ := @moveFactor_sound src dst factor factorPos 1 inner balanced.tiles.1
    (fun l after found => by rw [atSrc l after found]; exact divides) fits
  refine ⟨pos, ?_⟩
  have gain : (if dst = src then 1 else share factor dst 1 inner.length) = factor.toInt ∨
      (if dst = src then 1 else share factor dst 1 inner.length) = 1 := by
    unfold share
    split_ifs <;> simp
  by_cases inRange : 1 ≤ src ∧ src < 1 + inner.length
  · rw [share, if_pos inRange] at moved
    rcases gain with gained | lost
    · rw [gained, Int.mul_eq_mul_right_iff (by omega)] at moved
      rw [moved]
      exact balanced.tiles.2
    · rw [lost, mul_one] at moved
      exact (Dvd.intro _ moved).trans balanced.tiles.2
  · have first : src = 0 := by
      have bound := (List.getElem?_eq_some_iff.mp source).1
      rw [List.length_cons] at bound
      omega
    rw [share, if_neg inRange, mul_one] at moved
    rw [moved]
    rcases gain with gained | lost
    · rw [gained]
      exact outside first
    · rw [lost, mul_one]
      exact balanced.tiles.2

theorem mutateRound_cases {extent : Int64} {lengths' : List Int32} {perm : List Nat} {i : Nat}
    (run : mutateRound maxInnermost extent perm (outer :: inner) rand i = .ok (lengths', rand')) :
    lengths' = outer :: inner ∨ ∃ src dst length factor outer',
      (outer :: inner)[src]? = some length ∧ 1 ≤ factor.toInt ∧ factor.toInt ∣ length.toInt ∧
      outerLength extent (moveFactor src dst factor 1 inner) = .ok outer' ∧
      lengths' = outer' :: moveFactor src dst factor 1 inner := by
  simp only [mutateRound, bind_ok, found_ok] at run
  obtain ⟨src, -, length, source, run⟩ := run
  split at run
  · simp only [pure_ok, Prod.mk.injEq] at run
    exact .inl run.1.symm
  · simp only [bind_ok] at run
    obtain ⟨dst, -, dstLength, -, factors, listed, -, -, drawn, picked, run⟩ := run
    cases drawn with
    | none =>
      simp only [pure_ok, Prod.mk.injEq] at run
      exact .inl run.1.symm
    | some pick =>
      obtain ⟨factor, rand₁⟩ := pick
      simp only [bind_ok] at run
      obtain ⟨outer', divided, -, -, rfl, -⟩ := run
      obtain ⟨factorPos, divides, -⟩ := getFactors_sound listed (drawFactor_mem picked)
      exact .inr ⟨src, dst, length, factor, outer', source, factorPos, divides, divided, rfl⟩

theorem definedLengths_ok {lengths : List (Option Int32)} :
    definedLengths lengths = .ok inner ↔ lengths = inner.map some := by
  induction lengths generalizing inner with
  | nil => cases inner <;> simp [definedLengths]
  | cons length rest ih =>
    simp only [definedLengths, bind_ok, found_ok, pure_ok]
    constructor
    · rintro ⟨value, rfl, values, later, rfl⟩
      simp [ih.mp later]
    · intro same
      cases inner with
      | nil => cases same
      | cons value values =>
        simp only [List.map_cons, List.cons.injEq] at same
        exact ⟨value, same.1, values, ih.mpr same.2, rfl⟩

theorem mutateTileSize_sound {policy : SketchPolicy} {fields : SplitFields} {lengths : List Int32}
    (run : mutateTileSize policy fields rand = .ok (lengths, rand')) :
    ∃ extent inner, fields.extent = some extent ∧ fields.lengths = inner.map some ∧
      lengths.length = inner.length ∧ (1 ≤ extent.toInt → Tiles extent inner → Tiles extent lengths) := by
  simp only [mutateTileSize, bind_ok, found_ok, definedLengths_ok, Prod.exists] at run
  obtain ⟨extent, hasExtent, inner, allDefined, outer, divided, lengths', _, run, rfl, -⟩ := run
  refine ⟨extent, inner, hasExtent, allDefined, ?_⟩
  have kept := foldlM_inv (P := fun (st : List Int32 × RandGen) => ∃ outer' inner',
      st.1 = outer' :: inner' ∧ inner'.length = inner.length ∧
        (1 ≤ extent.toInt → Tiles extent inner → Balanced extent outer' inner')) (by
      rintro ⟨lengths, rand⟩ i ⟨lengths', rand'⟩ ⟨outer', inner', rfl, size, good⟩ round
      rcases mutateRound_cases round with rfl | ⟨src, dst, length, factor, outer'', source,
        factorPos, divides, divided, rfl⟩
      · exact ⟨outer', inner', rfl, size, good⟩
      · refine ⟨outer'', _, rfl, by rw [moveFactor_length, size], fun pos tiles => ?_⟩
        exact outerLength_balanced pos (moveFactor_tiles pos (good pos tiles) source factorPos divides) divided)
    run ⟨outer, inner, rfl, rfl, fun pos tiles => outerLength_balanced pos tiles divided⟩
  obtain ⟨outer', inner', shape, size, good⟩ := kept
  subst shape
  exact ⟨size, fun pos tiles => (good pos tiles).tiles⟩

end

end Tlm.AutoScheduler
