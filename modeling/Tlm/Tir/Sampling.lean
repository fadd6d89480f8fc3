import Tlm.Shared.Fault
import Mathlib.Algebra.BigOperators.Group.List.Basic
import Mathlib.Algebra.Ring.Int.Defs

set_option autoImplicit false

namespace Tlm.Tir

inductive SamplingError where
  | check
  | divisionByZero
  deriving DecidableEq, Repr

-- The factors come innermost first, as the loop visits them.
def repairLoop : Int → List Int → Except SamplingError (List Int × Int)
  | len, [] => return ([], len)
  | len, l :: outer => do
    if l = 0 then throw .divisionByZero
    let l := if len.tmod l ≠ 0 then len else l
    let (kept, len) ← repairLoop (len.tdiv l) outer
    return (l :: kept, len)

def repairDecision (extent : Int) (decision : List Int) : Except SamplingError (List Int) := do
  if decision.length < 2 then throw .check
  let (kept, len) ← repairLoop extent decision.tail.reverse
  return len :: kept.reverse

-- `fresh` is the outcome of a new sampling. The tile is also the decision that is recorded.
def samplePerfectTile (fresh : Except SamplingError (List Int)) (extent : Option Int)
    (nSplits : Nat) (maxInnermostFactor : Int) (decision : Option (List Int)) :
    Except SamplingError (List Int) :=
  match extent, decision with
  | none, _ => return (List.replicate nSplits 1).set 0 (-1)
  | some extent, some decision => repairDecision extent decision
  | some _, none => do
    let result ← fresh
    if maxInnermostFactor ≠ -1 ∧ ∃ last ∈ result.getLast?, maxInnermostFactor < last then throw .check
    return result

structure PerfectTile (extent : Int) (nSplits : Nat) (tile : List Int) : Prop where
  length : tile.length = nSplits
  positive : ∀ l ∈ tile, 1 ≤ l
  product : tile.prod = extent

-- No negative factor divides the length that the factors inside of it have left.
def NegativesDropped : Int → List Int → Prop
  | _, [] => True
  | len, l :: outer => (l ∣ len → 0 < l) ∧ NegativesDropped (if l ∣ len then len / l else 1) outer

theorem repairLoop_cons {len l : Int} (nonzero : l ≠ 0) (remains : len ≠ 0) (outer : List Int) :
    repairLoop len (l :: outer) = do
      let (kept, left) ← repairLoop (if l ∣ len then len / l else 1) outer
      return ((if l ∣ len then l else len) :: kept, left) := by
  by_cases divides : l ∣ len
  · simp [repairLoop, nonzero, divides, Int.tmod_eq_zero_of_dvd divides, Int.tdiv_eq_ediv_of_dvd divides]
  · have rest : len.tmod l ≠ 0 := fun none => divides (Int.dvd_of_tmod_eq_zero none)
    simp [repairLoop, nonzero, divides, rest, Int.tdiv_self remains]

theorem repairLoop_ok {factors : List Int} (nonzero : ∀ l ∈ factors, l ≠ 0) {len : Int}
    (remains : len ≠ 0) :
    ∃ kept left, repairLoop len factors = .ok (kept, left) ∧ kept.length = factors.length ∧
      left * kept.prod = len ∧
      (0 < len → ((1 ≤ left ∧ ∀ l ∈ kept, 1 ≤ l) ↔ NegativesDropped len factors)) := by
  induction factors generalizing len with
  | nil => exact ⟨[], len, rfl, rfl, by simp, fun positive => by simp [NegativesDropped]; omega⟩
  | cons l outer ih =>
    have factor := nonzero l (by simp)
    have next : (if l ∣ len then len / l else 1) ≠ 0 := by
      split
      · next divides =>
        intro zero
        exact remains (by rw [← Int.mul_ediv_cancel' divides, zero, Int.mul_zero])
      · decide
    obtain ⟨kept, left, run, size, product, exact⟩ := ih (fun m member => nonzero m (by simp [member])) next
    refine ⟨_, left, by rw [repairLoop_cons factor remains, run]; rfl, by simp [size], ?_, ?_⟩
    · rw [List.prod_cons, mul_left_comm, product]
      split
      · next divides => exact Int.mul_ediv_cancel' divides
      · exact mul_one len
    · intro positive
      simp only [NegativesDropped, List.forall_mem_cons]
      by_cases divides : l ∣ len
      · simp only [divides, if_true, true_imp_iff] at exact ⊢
        by_cases forward : 0 < l
        · have kept : 1 ≤ l := forward
          simp [← exact (Int.ediv_pos_of_pos_of_dvd positive (by omega) divides), forward, kept]
        · omega
      · simp only [divides, false_imp_iff] at exact ⊢
        rw [← exact Int.one_pos, true_and]
        have kept : 1 ≤ len := positive
        simp [kept]

theorem samplePerfectTile_repairs_iff (fresh : Except SamplingError (List Int)) (nSplits : Nat)
    (maxInnermostFactor : Int) {extent : Int} (positive : 1 ≤ extent) {decision : List Int}
    (nonzero : ∀ l ∈ decision, l ≠ 0) :
    (∀ tile, samplePerfectTile fresh (some extent) nSplits maxInnermostFactor (some decision) = .ok tile →
        PerfectTile extent nSplits tile) ↔
      decision.length < 2 ∨
        decision.length = nSplits ∧ NegativesDropped extent decision.tail.reverse := by
  by_cases short : decision.length < 2
  · simp [samplePerfectTile, repairDecision, short]
  obtain ⟨kept, left, run, size, product, exact⟩ := @repairLoop_ok decision.tail.reverse
    (fun l member => nonzero l (List.mem_of_mem_tail (List.mem_reverse.mp member))) extent (by omega)
  have sample : samplePerfectTile fresh (some extent) nSplits maxInnermostFactor (some decision) =
      .ok (left :: kept.reverse) := by
    simp only [samplePerfectTile, repairDecision, short, run]
    rfl
  rw [sample, ← exact (by omega)]
  simp only [short, false_or, Except.ok.injEq, forall_eq']
  have length : (left :: kept.reverse).length = decision.length := by
    simp [size]; omega
  constructor
  · intro perfect
    exact ⟨length ▸ perfect.length, by simpa using perfect.positive⟩
  · rintro ⟨whole, factors⟩
    exact ⟨length.trans whole, by simpa using factors, by rw [List.prod_cons, List.prod_reverse, product]⟩

theorem samplePerfectTile_repairs_twelve :
    ∃ tile, samplePerfectTile (.error .check) (some 12) 3 64 (some [7, -5, 3]) = .ok tile ∧ PerfectTile 12 3 tile := by
  have perfect := (@samplePerfectTile_repairs_iff (.error .check) 3 64 12 (by decide) [7, -5, 3] (by decide)).mpr
    (.inr ⟨rfl, by simp [NegativesDropped]⟩)
  exact ⟨_, rfl, perfect _ rfl⟩

theorem negative_factors_kept :
    samplePerfectTile (.error .check) (some 4) 2 64 (some [1, -2]) = .ok [-2, -2] ∧
      ¬ PerfectTile 4 2 [-2, -2] ∧
      samplePerfectTile (.error .check) (some 4) 3 64 (some [1, 2]) = .ok [2, 2] ∧
      ¬ PerfectTile 4 3 [2, 2] :=
  ⟨rfl, fun perfect => absurd (perfect.positive (-2) (by simp)) (by decide), rfl,
    fun perfect => absurd perfect.length (by decide)⟩

end Tlm.Tir
