import Mathlib.Algebra.Order.BigOperators.GroupWithZero.List
import Tlm.MetaSchedule.ParallelExtent
import Tlm.Shared.Loop
import Tlm.Shared.Machine

set_option autoImplicit false

namespace Tlm.MetaSchedule

open Cpp

section

variable {limit prod : Int} {rest : List Int}

theorem numFused_below (sorted : rest.Pairwise (· ≤ ·)) (below : prod < limit) :
    numFused limit (prod :: rest) = numFused limit rest + 1 := by
  obtain ⟨front, back, rfl, low, high⟩ := sorted_partition limit sorted
  have here := upperBound_eq low high
  have lower : ∀ item ∈ prod :: front, item ≤ limit := by simpa [below.le] using low
  have more : upperBound (prod :: (front ++ back)) limit = front.length + 1 :=
    upperBound_eq lower high
  cases front with
  | nil => cases back <;> simp_all [numFused, below.ne]
  | cons first front =>
    simp only [numFused, here, more, List.length_cons, Nat.zero_lt_succ,
      Nat.add_sub_cancel, List.getD_cons_succ]
    split <;> split <;> split <;> omega

theorem numFused_above (above : limit < prod) (later : ∀ next ∈ rest, limit < next) :
    numFused limit (prod :: rest) = 1 := by
  have higher : ∀ item ∈ prod :: rest, limit < item := by simpa [above] using later
  have low : ∀ item ∈ ([] : List Int), item ≤ limit := by simp
  have none : upperBound (prod :: rest) limit = 0 := upperBound_eq low higher
  simp [numFused, none]

theorem numFused_reached (sorted : rest.Pairwise (· ≤ ·)) (later : ∀ next ∈ rest, limit ≤ next) :
    numFused limit (limit :: rest) = rest.count limit + 1 := by
  obtain ⟨front, back, rfl, low, high⟩ := sorted_partition limit sorted
  have equal : ∀ item ∈ limit :: front, item = limit := by
    intro item member
    rcases List.mem_cons.1 member with rfl | member
    · rfl
    · exact (low item member).antisymm (later item (List.mem_append_left _ member))
  have all := upperBound_eq (fun item member => (equal item member).le) high
  have last := equal _ (getD_front back (show front.length < (limit :: front).length by simp) limit)
  have inside : front.count limit = front.length :=
    List.count_eq_length.2 fun item member => (equal item (List.mem_cons_of_mem _ member)).symm
  have outside : back.count limit = 0 :=
    List.count_eq_zero.2 fun member => lt_irrefl limit (high limit member)
  have more : front.length ≠ (limit :: front ++ back).length := by
    rw [List.length_append, List.length_cons]
    omega
  rw [← List.cons_append, List.count_append, inside, outside]
  simp only [numFused, all, List.length_cons, Nat.zero_lt_succ, true_and, Nat.add_sub_cancel, last,
    if_true, more, ne_eq, not_false_eq_true]

end

def plainLoops (extents : List Int) : List Loop :=
  extents.map fun extent => ⟨some extent, false, .dataPar, false, false, true⟩

variable {extents : List Int}

theorem loopExtents_plain (positive : ∀ extent ∈ extents, 0 < extent) :
    loopExtents (plainLoops extents) = extents.reverse := by
  have fold : ∀ (rest done : List Int), (∀ extent ∈ rest, 0 < extent) →
      (plainLoops rest).foldl (fun extents loop =>
        if loop.spatialExtent = -1 then [] else extents ++ [loop.spatialExtent]) done =
        done ++ rest := by
    intro rest
    induction rest with
    | nil => simp [plainLoops]
    | cons extent rest ih =>
      intro done positive
      have first : extent ≠ -1 := by have := positive extent (by simp); omega
      have next := ih (done ++ [extent]) fun e member => positive e (List.mem_cons_of_mem _ member)
      simpa [plainLoops, Loop.spatialExtent, first] using next
  have reversed : (plainLoops extents).reverse = plainLoops extents.reverse := by
    simp [plainLoops]
  rw [loopExtents, reversed, fold _ _ (by simpa using positive), List.nil_append]

theorem fusibleFrom_plain : ∀ (strided : List (Int × Loop)) (fusible : Int)
    (prevUsed : Option (Int × Loop)), (∀ pair ∈ strided, pair.2.extent ≠ none) →
      (∀ pair, prevUsed = some pair → pair.2.extent ≠ none) →
      ∃ count, fusibleFrom strided fusible prevUsed = .ok count := by
  intro strided
  induction strided with
  | nil => exact fun fusible _ _ _ => ⟨fusible, rfl⟩
  | cons pair rest ih =>
    intro fusible prevUsed constant used
    obtain ⟨stride, loop⟩ := pair
    have later : ∀ pair ∈ rest, pair.2.extent ≠ none :=
      fun pair member => constant pair (List.mem_cons_of_mem _ member)
    have here : ∀ pair, some (stride, loop) = some pair → pair.2.extent ≠ none := by
      rintro _ ⟨⟩
      exact constant _ (by simp)
    unfold fusibleFrom
    split
    · exact ih _ _ later used
    · cases prevUsed with
      | none =>
        dsimp only
        split
        · exact ⟨fusible, rfl⟩
        · exact ih _ _ later here
      | some prev =>
        obtain ⟨extent, known⟩ := Option.ne_none_iff_exists'.1 (used prev rfl)
        simp only [known]
        split
        · exact ih _ _ later here
        · exact ⟨fusible, rfl⟩

theorem maxFusible_plain (extents : List Int) (accesses : List (Nat → Int)) :
    ∃ count, Nest.maxFusible ⟨plainLoops extents, accesses⟩ = .ok count := by
  have step : ∀ {count : Int} {access : Nat → Int}, True → True →
      ∃ after, (do
        let strided := (plainLoops extents).zipIdx.map fun pair => (access pair.2, pair.1)
        return min count (← fusibleFrom strided.reverse 0 none) : Except Fault Int) = .ok after ∧
        True := by
    intro count access _ _
    obtain ⟨fusible, done⟩ := fusibleFrom_plain
      ((plainLoops extents).zipIdx.map fun pair => (access pair.2, pair.1)).reverse 0 none (by
        intro pair member
        simp only [List.mem_reverse, List.mem_map] at member
        obtain ⟨⟨loop, i⟩, inside, rfl⟩ := member
        have loopIn : loop ∈ plainLoops extents := by
          have := List.fst_mem_of_mem_zipIdx inside
          exact this
        obtain ⟨extent, -, rfl⟩ := List.mem_map.1 loopIn
        simp) (by simp)
    exact ⟨min count fusible, by simp only [done]; rfl, trivial⟩
  obtain ⟨count, done, -⟩ := foldlM_along step trivial (along_of_forall (fun _ _ => trivial))
  exact ⟨count, done⟩

theorem scale_eq {prodExtent extent : Int} (positive : 0 < prodExtent * extent) :
    scale prodExtent extent =
      if prodExtent * extent < 2 ^ 63 then .ok (prodExtent * extent) else .error .undefined := by
  have low : -2 ^ 63 ≤ prodExtent * extent := by omega
  simp only [scale, low, true_and]

section

variable {prodExtent extent : Int} (positive : 0 < prodExtent * extent)

include positive

theorem prefixProducts_cons {maxExtent : Int} {rest prods : List Int} :
    prefixProducts maxExtent (extent :: rest) prodExtent = .ok prods ↔
      prodExtent * extent < 2 ^ 63 ∧
        (maxExtent ≤ prodExtent * extent ∧ [prodExtent * extent] = prods ∨
          prodExtent * extent < maxExtent ∧
            ∃ later, prefixProducts maxExtent rest (prodExtent * extent) = .ok later ∧
              prodExtent * extent :: later = prods) := by
  rw [prefixProducts, scale_eq positive]
  by_cases fits : prodExtent * extent < 2 ^ 63
  · simp only [fits]
    by_cases reached : maxExtent ≤ prodExtent * extent
    · simp [reached]
    · simp [reached, not_le.1 reached]
  · simp only [fits, if_false, error_bind, reduceCtorEq, false_and]

theorem parallelFrom_cons {limit num : Int} {rest : List Int} {result : Int × Int} :
    parallelFrom limit (plainLoops (extent :: rest)) num prodExtent = .ok result ↔
      prodExtent * extent < 2 ^ 63 ∧
        (limit < prodExtent * extent ∧ (num + 1, prodExtent * extent) = result ∨
          prodExtent * extent ≤ limit ∧
            parallelFrom limit (plainLoops rest) (num + 1) (prodExtent * extent) = .ok result) := by
  simp only [plainLoops, List.map_cons, parallelFrom, Loop.hasAnnOrBinding, ne_eq, not_true,
    Bool.or_self, Bool.false_eq_true, or_self, scale_eq positive]
  by_cases fits : prodExtent * extent < 2 ^ 63
  · simp only [fits]
    by_cases exceeds : limit < prodExtent * extent
    · simp [exceeds]
    · simp [exceeds, not_lt.1 exceeds]
  · simp only [fits, if_false, error_bind, reduceCtorEq, false_and]

end

theorem parallelFrom_counts {limit : Int} {loops : List Loop} {num prodExtent : Int} {result : Int × Int}
    (run : parallelFrom limit loops num prodExtent = .ok result) : num ≤ result.1 := by
  induction loops generalizing num prodExtent result with
  | nil =>
    cases run
    exact le_refl num
  | cons loop rest ih =>
    unfold parallelFrom at run
    split at run
    · cases run
      exact le_refl num
    · split at run
      · cases run
        exact le_refl num
      · rw [bind_ok] at run
        obtain ⟨next, -, run⟩ := run
        split at run
        · cases run
          simp
        · have := ih run
          omega

section

variable {limit maxExtent : Int}

theorem prefixProducts_sorted {extents : List Int} {prodExtent : Int} {prods : List Int}
    (positive : (∀ extent ∈ extents, 0 < extent)) (some : 0 < prodExtent)
    (run : prefixProducts maxExtent extents prodExtent = .ok prods) :
    (prodExtent :: prods).Pairwise (· ≤ ·) := by
  induction extents generalizing prodExtent prods with
  | nil =>
    cases run
    simp
  | cons extent rest ih =>
    rw [List.forall_mem_cons] at positive
    have next : prodExtent ≤ prodExtent * extent := le_mul_of_one_le_right some.le positive.1
    obtain ⟨-, ⟨-, rfl⟩ | ⟨-, later, computed, rfl⟩⟩ := (prefixProducts_cons (by omega)).1 run
    · simpa using next
    · have sorted := ih positive.2 (by omega) computed
      rw [List.pairwise_cons, List.forall_mem_cons]
      exact ⟨⟨next, fun prod member => next.trans ((List.pairwise_cons.1 sorted).1 prod member)⟩, sorted⟩

variable {extents : List Int}

theorem prefixProducts_above {prodExtent : Int} {prods : List Int}
    (positive : ∀ extent ∈ extents, 0 < extent) (above : limit < prodExtent) (some : 0 < prodExtent)
    (run : prefixProducts maxExtent extents prodExtent = .ok prods) : ∀ prod ∈ prods, limit < prod := by
  intro prod member
  exact above.trans_le ((List.pairwise_cons.1 (prefixProducts_sorted positive some run)).1 prod member)

theorem fuses_ones_iff (below : limit < maxExtent) (some : 0 < limit) {extents later : List Int}
    {num : Int} (positive : (∀ extent ∈ extents, 0 < extent))
    (run : prefixProducts maxExtent extents limit = .ok later) :
    ((∃ result, parallelFrom limit (plainLoops extents) num limit = .ok result ∧
          result.1 = num + later.count limit) ↔ ∀ extent ∈ extents, extent = 1) := by
  induction extents generalizing later num with
  | nil =>
    cases run
    simp [plainLoops, parallelFrom]
  | cons extent rest ih =>
    rw [List.forall_mem_cons] at positive ⊢
    have next : limit ≤ limit * extent := le_mul_of_one_le_right some.le positive.1
    rw [prefixProducts_cons (by omega)] at run
    obtain ⟨fits, run⟩ := run
    simp only [parallelFrom_cons (show 0 < limit * extent by omega), fits]
    by_cases one : extent = 1
    · subst one
      rw [mul_one] at *
      obtain ⟨reached, -⟩ | ⟨-, later, run, rfl⟩ := run
      · omega
      · have rest := @ih later (num + 1) positive.2 run
        simp only [lt_irrefl, false_and, le_refl, true_and, false_or, ← rest, List.count_cons_self]
        push_cast
        simp only [add_assoc, add_comm (1 : Int)]
    · have above : limit < limit * extent := lt_mul_of_one_lt_right some (by omega)
      have none : later.count limit = 0 := by
        refine List.count_eq_zero.2 fun member => ?_
        obtain ⟨-, rfl⟩ | ⟨-, later, computed, rfl⟩ := run
        · simp [above.ne] at member
        · rcases List.mem_cons.1 member with same | member
          · omega
          · exact lt_irrefl limit (prefixProducts_above positive.2 above (by omega) computed limit member)
      simp only [above, not_le.2 above, true_and, false_and, or_false, none, one, iff_false]
      rintro ⟨result, rfl, count⟩
      simp at count

def Matches (limit maxExtent : Int) : List Int → Int → Prop
  | [], _ => True
  | extent :: rest, prodExtent =>
    (prodExtent * extent = limit → (rest = [] ∨ limit < maxExtent) ∧ ∀ later ∈ rest, later = 1) ∧
      (prodExtent * extent < limit → Matches limit maxExtent rest (prodExtent * extent))

theorem fuses_iff_matches (within : limit ≤ maxExtent) {extents prods : List Int} {prodExtent num : Int}
    (positive : (∀ extent ∈ extents, 0 < extent)) (some : 0 < prodExtent)
    (run : prefixProducts maxExtent extents prodExtent = .ok prods) :
    ((∃ result, parallelFrom limit (plainLoops extents) num prodExtent = .ok result ∧
          result.1 = num + numFused limit prods) ↔ Matches limit maxExtent extents prodExtent) := by
  induction extents generalizing prods prodExtent num with
  | nil =>
    cases run
    simp [plainLoops, parallelFrom, Matches, numFused, upperBound, upperBoundFrom]
  | cons extent rest ih =>
    rw [List.forall_mem_cons] at positive
    have next : 0 < prodExtent * extent := mul_pos some positive.1
    obtain ⟨fits, run⟩ := (prefixProducts_cons next).1 run
    simp only [Matches, parallelFrom_cons next, fits]
    rcases lt_trichotomy (prodExtent * extent) limit with below | same | above
    · obtain ⟨reached, -⟩ | ⟨-, later, computed, rfl⟩ := run
      · omega
      · have sorted := prefixProducts_sorted positive.2 next computed
        have rest := @ih later _ (num + 1) positive.2 next computed
        simp only [below, below.le, below.ne, not_lt.2 below.le, true_and, false_and, false_or,
          false_implies, true_implies, ← rest, numFused_below (List.pairwise_cons.1 sorted).2 below]
        push_cast
        simp only [add_assoc, add_comm (1 : Int)]
    · rw [same] at run next ⊢
      simp only [lt_irrefl, false_and, le_refl, true_and, false_or, true_implies, false_implies, and_true]
      obtain ⟨reached, rfl⟩ | ⟨more, later, computed, rfl⟩ := run
      · have one : numFused limit [limit] = 1 := numFused_reached .nil (by simp)
        rw [one]
        cases rest with
        | nil => simp [plainLoops, parallelFrom]
        | cons later rest =>
          have positive := mul_pos next (positive.2 later (by simp))
          simp only [parallelFrom_cons positive, reduceCtorEq, not_lt.2 reached, or_self, false_and, iff_false]
          rintro ⟨result, ⟨-, ⟨-, rfl⟩ | ⟨-, fused⟩⟩, count⟩
          · simp at count
          · have := parallelFrom_counts fused
            omega
      · have sorted := List.pairwise_cons.1 (prefixProducts_sorted positive.2 next computed)
        have ones := @fuses_ones_iff _ _ more next rest later (num + 1) positive.2 computed
        simp only [numFused_reached sorted.2 sorted.1, more, or_true, true_and, ← ones]
        push_cast
        simp only [add_assoc, add_comm (1 : Int)]
    · have one : numFused limit prods = 1 := by
        obtain ⟨-, rfl⟩ | ⟨-, later, computed, rfl⟩ := run
        · exact numFused_above above (by simp)
        · exact numFused_above above (prefixProducts_above positive.2 above next computed)
      simp [above, above.ne', not_lt.2 above.le, one]

theorem matches_iff {extents : List Int} {prodExtent : Int} (positive : (∀ extent ∈ extents, 0 < extent))
    (some : 0 < prodExtent) :
    (Matches limit maxExtent extents prodExtent ↔
      ∀ front back, extents = front ++ back → front ≠ [] → back ≠ [] →
        prodExtent * front.prod = limit → limit < maxExtent ∧ ∀ extent ∈ back, extent = 1) := by
  induction extents generalizing prodExtent with
  | nil =>
    simp +contextual [Matches]
  | cons extent rest ih =>
    rw [List.forall_mem_cons] at positive
    have next : 0 < prodExtent * extent := mul_pos some positive.1
    rw [Matches, ih positive.2 next]
    constructor
    · rintro ⟨reached, later⟩ front back split inside more same
      cases front with
      | nil => exact absurd rfl inside
      | cons first front =>
        obtain ⟨rfl, rfl⟩ := split
        rw [List.prod_cons, ← mul_assoc] at same
        by_cases first : prodExtent * extent = limit
        · obtain ⟨left, ones⟩ := reached first
          have nonempty : front ++ back ≠ [] := by simp [more]
          exact ⟨left.resolve_left nonempty, fun extent member => ones extent (List.mem_append_right _ member)⟩
        · have rest : 0 < front.prod :=
            List.prod_pos fun e member => positive.2 e (List.mem_append_left _ member)
          have below : prodExtent * extent < limit := by
            have := le_mul_of_one_le_right next.le (show 1 ≤ front.prod by omega)
            omega
          refine later below front back rfl ?_ more same
          rintro rfl
          simp at same
          exact first same
    · intro all
      constructor
      · intro same
        by_cases empty : rest = []
        · simp [empty]
        · obtain ⟨more, ones⟩ := all [extent] rest rfl (by simp) empty (by simpa using same)
          exact ⟨.inr more, ones⟩
      · intro below front back split inside more same
        refine all (extent :: front) back (by simp [split]) (by simp) more ?_
        rw [List.prod_cons, ← mul_assoc]
        exact same

theorem prefixProducts_fits_iff {extents : List Int} {prodExtent : Int}
    (positive : (∀ extent ∈ extents, 0 < extent)) (some : 0 < prodExtent) :
    ((∃ prods, prefixProducts maxExtent extents prodExtent = .ok prods) ↔
      ∀ front extent back, extents = front ++ extent :: back →
        front = [] ∨ prodExtent * front.prod < maxExtent → prodExtent * front.prod * extent < 2 ^ 63) := by
  induction extents generalizing prodExtent with
  | nil =>
    simp [prefixProducts]
  | cons extent rest ih =>
    rw [List.forall_mem_cons] at positive
    have next : 0 < prodExtent * extent := mul_pos some positive.1
    simp only [prefixProducts_cons next]
    constructor
    · rintro ⟨prods, fits, run⟩ front last back split before
      cases front with
      | nil =>
        obtain ⟨rfl, rfl⟩ := split
        simpa using fits
      | cons first front =>
        obtain ⟨rfl, rfl⟩ := split
        have one : 1 ≤ front.prod :=
          List.prod_pos fun e member => positive.2 e (List.mem_append_left _ member)
        have least := le_mul_of_one_le_right next.le one
        rw [List.prod_cons, ← mul_assoc] at before ⊢
        replace before := before.resolve_left (by simp)
        obtain ⟨reached, -⟩ | ⟨-, later, computed, -⟩ := run
        · omega
        · exact (ih positive.2 next).1 ⟨later, computed⟩ front last back rfl (.inr before)
    · intro all
      have fits := all [] extent rest rfl (.inl rfl)
      rw [List.prod_nil, mul_one] at fits
      by_cases reached : maxExtent ≤ prodExtent * extent
      · exact ⟨_, fits, .inl ⟨reached, rfl⟩⟩
      · obtain ⟨later, computed⟩ := (ih positive.2 next).2 fun front last back split before => by
          have below : prodExtent * (extent :: front).prod < maxExtent := by
            rw [List.prod_cons, ← mul_assoc]
            rcases before with rfl | below
            · simpa using reached
            · exact below
          have := all (extent :: front) last back (by simp [split]) (.inr below)
          rwa [List.prod_cons, ← mul_assoc] at this
        exact ⟨_, fits, .inr ⟨not_le.1 reached, later, computed, rfl⟩⟩

theorem parallelFrom_product {extents : List Int} {num prodExtent : Int} {result : Int × Int}
    (positive : (∀ extent ∈ extents, 0 < extent)) (some : 0 < prodExtent)
    (run : parallelFrom limit (plainLoops extents) num prodExtent = .ok result) :
    ∃ front back, extents = front ++ back ∧ result.2 = prodExtent * front.prod ∧
      (back = [] ∨ limit < result.2) := by
  induction extents generalizing num prodExtent result with
  | nil =>
    cases run
    exact ⟨[], [], rfl, by simp, .inl rfl⟩
  | cons extent rest ih =>
    rw [List.forall_mem_cons] at positive
    have next : 0 < prodExtent * extent := mul_pos some positive.1
    obtain ⟨-, ⟨above, rfl⟩ | ⟨-, fused⟩⟩ := (parallelFrom_cons next).1 run
    · exact ⟨[extent], rest, rfl, by simp, .inr above⟩
    · obtain ⟨front, back, rfl, product, stop⟩ := ih positive.2 next fused
      exact ⟨extent :: front, back, rfl, by rw [product, List.prod_cons, mul_assoc], stop⟩

theorem parallelFrom_trivial_iff (positive : ∀ extent ∈ extents, 0 < extent) {num : Int}
    {result : Int × Int} (run : parallelFrom limit (plainLoops extents) num 1 = .ok result) :
    result.2 = 1 ↔ ∀ extent ∈ (if 0 < limit then extents else extents.take 1), extent = 1 := by
  split
  next some =>
    obtain ⟨front, back, rfl, product, stop⟩ := parallelFrom_product positive one_pos run
    rw [one_mul] at product
    constructor
    · intro one
      have whole : back = [] := stop.resolve_right (by omega)
      intro extent member
      rw [whole, List.append_nil] at member
      have divides : extent ∣ 1 := by
        rw [← one, product]
        exact List.dvd_prod member
      exact Int.eq_one_of_dvd_one (positive extent (List.mem_append_left _ member)).le divides
    · intro ones
      rw [product]
      exact List.prod_eq_one fun extent member => ones extent (List.mem_append_left _ member)
  next none =>
    cases extents with
    | nil =>
      cases run
      simp
    | cons extent rest =>
      have first : 0 < 1 * extent := by simpa using positive extent (by simp)
      obtain ⟨-, ⟨-, rfl⟩ | ⟨below, -⟩⟩ := (parallelFrom_cons first).1 run
      · simp
      · omega

end

def Predicts (extents : List Int) (accesses : List (Nat → Int)) (limit maxExtent : Int) : Prop :=
  ∃ prods count parsed, analyzeParallel [plainLoops extents] maxExtent = .ok prods ∧
    getNumFusedLoops prods limit = [count] ∧
    adjustParallelVectorize ⟨plainLoops extents, accesses⟩
      (Prod.fst <| parseAnnotation [(.parallel, some limit)]) = .ok parsed ∧
    parsed.numParallelLoops = count

structure Predictable (extents : List Int) (limit maxExtent : Int) : Prop where
  annotated : limit ≠ -1
  -- Where the product of some outer loops is the limit, what follows has extent 1.
  passes : ∀ front back, extents = front ++ back → front ≠ [] → back ≠ [] → front.prod = limit →
    limit < maxExtent ∧ ∀ extent ∈ back, extent = 1
  fits : ∀ front extent back, extents = front ++ extent :: back →
    front = [] ∨ front.prod < maxExtent → front.prod * extent < 2 ^ 63
  large : ∃ extent ∈ (if 0 < limit then extents else extents.take 1), 1 < extent

theorem analyzeParallel_plain (positive : ∀ extent ∈ extents, 0 < extent) (some : extents ≠ [])
    (maxExtent : Int) {prods : List (List Int)} :
    analyzeParallel [plainLoops extents] maxExtent = .ok prods ↔
      ∃ only, prefixProducts maxExtent extents 1 = .ok only ∧ [only] = prods := by
  simp [analyzeParallel, loopExtents_plain positive, some]

theorem parseAnnotation_parallel {limit : Int} (low : -2 ^ 31 ≤ limit) (high : limit < 2 ^ 31) :
    (Prod.fst <| parseAnnotation [(.parallel, some limit)]) = ⟨limit, -1, -1, -1, -1, -1⟩ := by
  simp only [List.foldl, parseAnnotation, ParsedAnnotation.set, immOr, Option.map_some,
    bmod32_of_fits low high, Option.getD_some]

theorem adjust_plain (some : extents ≠ []) (accesses : List (Nat → Int)) {limit : Int}
    (annotated : limit ≠ -1) (count : Int) :
    (∃ parsed, adjustParallelVectorize ⟨plainLoops extents, accesses⟩
        ⟨limit, -1, -1, -1, -1, -1⟩ = .ok parsed ∧ parsed.numParallelLoops = count) ↔
      ∃ result, parallelFrom limit (plainLoops extents) 0 1 = .ok result ∧ decided result = count := by
  obtain ⟨fusible, done⟩ := maxFusible_plain extents accesses
  have loops : plainLoops extents ≠ [] := by simpa [plainLoops] using some
  simp [adjustParallelVectorize, annotated, loops, done, Nest.numParallel,
    Nest.numVectorize, Nest.combine]

theorem decided_eq_iff {result : Int × Int} {count : Nat} :
    decided result = count ↔ result.1 = count ∧ result.2 ≠ 1 := by
  unfold decided
  split
  next trivial =>
    omega
  next large => simp [large]

theorem large_iff (positive : ∀ extent ∈ extents, 0 < extent) (limit : Int) :
    (¬ ∀ extent ∈ (if 0 < limit then extents else extents.take 1), extent = 1) ↔
      ∃ extent ∈ (if 0 < limit then extents else extents.take 1), 1 < extent := by
  have sub : ∀ extent ∈ (if 0 < limit then extents else extents.take 1), 0 < extent := by
    intro extent member
    split at member
    · exact positive extent member
    · exact positive extent (List.mem_of_mem_take member)
  simp only [not_forall]
  constructor
  · rintro ⟨extent, member, other⟩
    have := sub extent member
    exact ⟨extent, member, by omega⟩
  · rintro ⟨extent, member, above⟩
    exact ⟨extent, member, by omega⟩

theorem predicts_nil (accesses : List (Nat → Int)) (limit maxExtent : Int) :
    ¬ Predicts [] accesses limit maxExtent := by
  rintro ⟨prods, count, parsed, analyzed, predicted, -⟩
  cases analyzed
  cases predicted

theorem predicts_unannotated (extents : List Int) (accesses : List (Nat → Int)) (maxExtent : Int) :
    ¬ Predicts extents accesses (-1) maxExtent := by
  rintro ⟨prods, count, parsed, -, -, adjusted, same⟩
  rw [ parseAnnotation_parallel (by decide) (by decide)] at adjusted
  cases adjusted
  simp only at same
  omega

theorem predicts_iff {extents : List Int} (positive : ∀ extent ∈ extents, 0 < extent)
    (accesses : List (Nat → Int)) {limit maxExtent : Int} (within : limit ≤ maxExtent)
    (low : -2 ^ 31 ≤ limit) (high : limit < 2 ^ 31) :
    Predicts extents accesses limit maxExtent ↔ Predictable extents limit maxExtent := by
  have products := @prefixProducts_fits_iff maxExtent extents 1 positive one_pos
  have loops := @matches_iff limit maxExtent extents 1 positive one_pos
  simp only [one_mul] at products loops
  by_cases some : extents = []
  · subst some
    exact iff_of_false (predicts_nil _ _ _) fun predictable => by simpa using predictable.large
  by_cases annotated : limit = -1
  · subst annotated
    exact iff_of_false (predicts_unannotated _ _ _) fun predictable => predictable.annotated rfl
  constructor
  · rintro ⟨prods, count, parsed, analyzed, predicted, adjusted, same⟩
    rw [ parseAnnotation_parallel low high] at adjusted
    obtain ⟨only, computed, rfl⟩ := (analyzeParallel_plain positive some maxExtent).1 analyzed
    obtain ⟨result, fused, decision⟩ :=
      (adjust_plain some accesses annotated count).1 ⟨parsed, adjusted, same⟩
    obtain ⟨counted, large⟩ := decided_eq_iff.1 decision
    obtain rfl : numFused limit only = count := by simpa [getNumFusedLoops] using predicted
    have agreed := (fuses_iff_matches within positive one_pos computed).1
      ⟨result, fused, by simpa using counted⟩
    exact ⟨annotated, loops.1 agreed, products.1 ⟨only, computed⟩, (large_iff positive limit).1
      (fun ones => large ((parallelFrom_trivial_iff positive fused).2 ones))⟩
  · intro predictable
    obtain ⟨only, computed⟩ := products.2 predictable.fits
    obtain ⟨result, fused, counted⟩ := (@fuses_iff_matches _ _ within _ _ _ 0 positive one_pos
      computed).2 (loops.2 predictable.passes)
    have large : result.2 ≠ 1 := fun one => (large_iff positive limit).2 predictable.large
      ((parallelFrom_trivial_iff positive fused).1 one)
    rw [zero_add] at counted
    obtain ⟨parsed, adjusted, same⟩ := (adjust_plain some accesses annotated (numFused limit only)).2
      ⟨result, fused, decided_eq_iff.2 ⟨counted, large⟩⟩
    refine ⟨[only], numFused limit only, parsed, ?_, rfl, ?_, same⟩
    · exact (analyzeParallel_plain positive some maxExtent).2 ⟨only, computed, rfl⟩
    · rw [ parseAnnotation_parallel low high]
      exact adjusted

theorem predicts_iff_between : Predicts [4, 3] [] 5 5 := by
  refine (predicts_iff (by decide) [] (le_refl 5) (by decide) (by decide)).2
    ⟨by decide, ?_, ?_, 4, by decide, by decide⟩
  · intro front back split inside more same
    rcases front with _ | ⟨first, _ | ⟨second, front⟩⟩ <;> simp_all
  · intro front extent back split _
    rcases front with _ | ⟨first, _ | ⟨second, front⟩⟩ <;> simp at split
    · simp [← split.1]
    · simp [← split.1, ← split.2.1]

-- The first loop alone reaches the limit: one loop is predicted and two are fused.
theorem limit_reached :
    (analyzeParallel [plainLoops [4, 2]] 4).toOption.map (getNumFusedLoops · 4) = some [1] ∧
      (adjustParallelVectorize ⟨plainLoops [4, 2], []⟩
        (Prod.fst <| parseAnnotation [(.parallel, some 4)])).toOption.map (·.numParallelLoops) = some 2 := by
  decide

end Tlm.MetaSchedule
