import Tlm.AutoScheduler.TileSize

set_option autoImplicit false

namespace Tlm.AutoScheduler

open Cpp

variable {policy : SketchPolicy} {fields : SplitFields} {factors : List Int32} {tokens : List String}

variable {rest : List String}

theorem tokenLengths_ok :
    tokenLengths policy fields tokens = .ok (factors, rest) ↔
      ∃ extent stage iter size read order, fields.extent = some extent ∧
        tokens = "SPC" :: stage :: iter :: size :: (read ++ order :: rest) ∧
        stoi stage = .ok fields.stageId ∧ stoi iter = .ok fields.iterId ∧
        stoi size = .ok extent ∧ read.length = fields.lengths.length ∧
        read.map stoi = factors.map .ok ∧
        (policy.searchTask.deviceType ≠ .cpu ∨ dividesEvenly extent factors = true) ∧
        stoi order = .ok (if fields.innerToOuter then 1 else 0) := by
  constructor
  · intro run
    simp only [tokenLengths, run_bind_ok, run_lift_ok, raise_ok, found_ok, expectToken_ok,
      expectInt_ok, nextInts_ok, require_ok, decide_eq_true_eq,
      Bool.or_eq_true] at run
    obtain ⟨extent, _, ⟨_, hasExtent, rfl, rfl⟩, -, _, rfl, -, _, ⟨stage, rfl, atStage⟩, -, _,
      ⟨iter, rfl, atIter⟩, -, _, ⟨size, rfl, ofSize⟩, _, _, ⟨read, rfl, count, parsed⟩, -, _,
      ⟨guard, rfl⟩, -, _, ⟨order, rfl, ofOrder⟩, rfl, rfl⟩ := run
    exact ⟨_, stage, iter, size, read, order, hasExtent, rfl, atStage, atIter, ofSize, count,
      parsed, guard, ofOrder⟩
  · rintro ⟨extent, stage, iter, size, read, order, hasExtent, rfl, atStage, atIter, ofSize, count,
      parsed, guard, ofOrder⟩
    have ints : nextInts fields.lengths.length (read ++ order :: rest) =
        .ok (factors, order :: rest) :=
      nextInts_ok.mpr ⟨read, rfl, count, parsed⟩
    simp [tokenLengths, hasExtent, atStage, atIter, ofSize, ints, guard, ofOrder]

variable {extent : Int32}

theorem dividesEvenly_iff :
    dividesEvenly extent factors = true ↔ 0 < (intProduct factors).toInt ∧
      (intProduct factors).toInt ≤ extent.toInt ∧ (intProduct factors).toInt ∣ extent.toInt := by
  simp only [dividesEvenly, Bool.not_eq_true', Bool.or_eq_false_iff, decide_eq_false_iff_not,
    Int32.le_iff_toInt_le, Int32.lt_iff_toInt_lt, Int32.toInt_zero, not_le, not_lt, not_not, and_assoc]
  refine and_congr_right fun pos => and_congr_right fun le => ?_
  exact mod_eq_zero_iff_dvd (by omega)

theorem toInt_intProduct_of_lt (pos : ∀ factor ∈ factors, 1 ≤ factor.toInt)
    (bound : product factors < 2 ^ 31) : (intProduct factors).toInt = product factors := by
  have := product_pos pos
  rw [toInt_intProduct, bmod32_of_fits (by omega) bound]

theorem product_lt_of_tiles (extentPos : 1 ≤ extent.toInt) (tiles : Tiles extent factors) :
    product factors < 2 ^ 31 := by
  have := Int.le_of_dvd (by omega) tiles.2
  have := extent.toInt_lt
  omega

theorem dividesEvenly_of_tiles (extentPos : 1 ≤ extent.toInt) (tiles : Tiles extent factors) :
    dividesEvenly extent factors = true := by
  have same := toInt_intProduct_of_lt tiles.1 (product_lt_of_tiles extentPos tiles)
  have pos := product_pos tiles.1
  rw [dividesEvenly_iff, same]
  exact ⟨by omega, Int.le_of_dvd (by omega) tiles.2, tiles.2⟩

def SplitFields.ExactlyTiled (fields : SplitFields) : Prop :=
  ∀ extent inner, fields.extent = some extent → fields.lengths = inner.map some →
    1 ≤ extent.toInt ∧ Tiles extent inner

variable {rand rand' : RandGen} {lengths : List Int32}

theorem randomLengths_sound (run : randomLengths policy fields rand = .ok (lengths, rand')) :
    ∃ extent, fields.extent = some extent ∧ lengths.length = fields.lengths.length ∧
      (fields.ExactlyTiled → 1 ≤ extent.toInt ∧ Tiles extent lengths) := by
  unfold randomLengths at run
  split at run
  · obtain ⟨extent, inner, hasExtent, allDefined, size, keeps⟩ := mutateTileSize_sound run
    refine ⟨extent, hasExtent, by rw [size, allDefined, List.length_map], fun exactly => ?_⟩
    obtain ⟨pos, tiles⟩ := exactly extent inner hasExtent allDefined
    exact ⟨pos, keeps pos tiles⟩
  · rename_i someUndefined
    simp only [bind_ok, found_ok] at run
    obtain ⟨extent, hasExtent, candidates, listed, -, -, scheme, picked, rfl, -⟩ := run
    have member := List.mem_of_getElem? picked
    obtain ⟨size, tiles⟩ := getFactorizationSchemes_sound listed member
    obtain ⟨n, count⟩ : ∃ n, fields.lengths.length = n + 1 := by
      cases lengths : fields.lengths with
      | nil => simp [lengths] at someUndefined
      | cons => exact ⟨_, rfl⟩
    rw [count] at listed
    exact ⟨extent, hasExtent, size, fun _ => ⟨getFactorizationSchemes_pos listed member, tiles⟩⟩

theorem tokenLengths_random (run : randomLengths policy fields rand = .ok (lengths, rand'))
    (exactOnCPU : policy.searchTask.deviceType = .cpu → fields.ExactlyTiled) (rest : List String) :
    tokenLengths policy fields ((Step.splitCopy (fields.withLengths lengths)).tokens ++ rest) =
      .ok (lengths, rest) := by
  obtain ⟨extent, hasExtent, size, exactly⟩ := randomLengths_sound run
  refine tokenLengths_ok.mpr ⟨extent, _, _, _, lengths.map fun length => length.toInt.repr,
    if fields.innerToOuter then "1" else "0", hasExtent, ?_, stoi_repr _, stoi_repr _,
    stoi_repr _, by simpa using size, ?_, ?_, ?_⟩
  · simp [Step.tokens_splitCopy, SplitFields.tokens, SplitFields.withLengths, hasExtent]
  · simp
  · by_cases onCPU : policy.searchTask.deviceType = .cpu
    · obtain ⟨pos, tiles⟩ := exactly (exactOnCPU onCPU)
      exact .inr (dividesEvenly_of_tiles pos tiles)
    · exact .inl onCPU
  · cases fields.innerToOuter <;> decide

variable {splits copies : List SplitFields}

theorem chooseAll_random {rand rand' : RandGen} (run : chooseAll
    (randomLengths policy) splits rand = .ok (copies, rand')) (exactOnCPU :
    (policy.searchTask.deviceType = .cpu → ∀ fields ∈ splits, fields.ExactlyTiled)) :
    chooseAll (tokenLengths policy) splits (recordTokens (copies.map .splitCopy)) = .ok (copies, []) := by
  induction splits generalizing rand rand' copies with
  | nil =>
    cases run
    rfl
  | cons fields splits ih =>
    simp only [chooseAll, bind_ok, Prod.exists] at run
    obtain ⟨lengths, rand₁, first, later, _, second, rfl, -⟩ := run
    have head := tokenLengths_random first (fun onCPU => exactOnCPU onCPU fields (by simp))
      (recordTokens (later.map .splitCopy))
    have tail := ih second fun onCPU f member =>
      exactOnCPU onCPU f (List.mem_cons_of_mem _ member)
    simp only [chooseAll, List.map_cons, recordTokens_cons, head, bind_ok, pure_ok, Prod.exists, Prod.mk.injEq]
    exact ⟨lengths, _, rfl, later, [], tail, rfl, rfl⟩

theorem splitCopies_appended (copies : List SplitFields) (s : State) :
    (copies.foldl (fun s copy => s.splitCopy copy) s).transformSteps.drop s.transformSteps.length =
      copies.map .splitCopy := by
  have size : (copies.foldl (fun steps copy => copyLengths copy steps) s.transformSteps).length =
      s.transformSteps.length := by
    generalize s.transformSteps = steps
    induction copies generalizing steps with
    | nil => rfl
    | cons copy copies ih => rw [List.foldl_cons, ih, copyLengths_length]
  rw [splitCopies_eq, ← size]
  simp

theorem initFillTileSize_decoded (policy : SketchPolicy) (s s' : State) (rand rand' : RandGen)
    (exactOnCPU : policy.searchTask.deviceType = .cpu →
      ∀ fields ∈ splitsOf s.transformSteps, fields.ExactlyTiled)
    (run : initFillTileSize policy s rand = .ok (s', rand')) :
    initFillTileSizeTokens policy [s]
      (fun _ _ => [recordTokens (s'.transformSteps.drop s.transformSteps.length)]) = .ok [s'] := by
  simp only [initFillTileSize, fillSplits_eq, bind_ok, Prod.exists] at run
  obtain ⟨filled, _, ⟨copies, _, chosen, rfl, -⟩, rfl, -⟩ := run
  have decoded := chooseAll_random chosen exactOnCPU
  have appended := splitCopies_appended copies s
  rw [initFillTileSizeTokens, tokenRule_single]
  refine ⟨s, _, some _, rfl, ?_, rfl⟩
  simp only [decodeTileSize, fillSplits_eq, appended, decoded]
  rfl

def bareSketch (steps : List Step) : State :=
  ⟨[], steps, .empty, none, true⟩

def cpuPolicy : SketchPolicy :=
  ⟨⟨⟨[], fun _ => none, fun _ => none⟩, .cpu⟩, 64, 16, 0⟩

theorem initFillTileSize_decoded_mixed :
    let s := bareSketch [.split ⟨0, 0, some 12, [some 3, some 2], true⟩,
      .split ⟨0, 1, some 10, [none, none], true⟩]
    ∃ s' rand', initFillTileSize cpuPolicy s (fun _ => 3) = .ok (s', rand') ∧
      (splitsOf s'.transformSteps).map (·.lengths) = [[some 1, some 3], [some 1, some 10]] ∧
      initFillTileSizeTokens cpuPolicy [s]
        (fun _ _ => [recordTokens (s'.transformSteps.drop s.transformSteps.length)]) =
          .ok [s'] := by
  refine ⟨_, _, rfl, rfl, initFillTileSize_decoded _ _ _ (fun _ => 3) _ ?_ rfl⟩
  intro _ fields member extent inner hasExtent allDefined
  rcases List.mem_cons.mp member with rfl | member
  · cases hasExtent
    have lengths : [3, 2] = inner := List.map_injective_iff.mpr (Option.some_injective _) allDefined
    subst lengths
    exact ⟨by decide, by simp, by decide⟩
  · rw [List.mem_singleton.mp member] at allDefined
    cases inner <;> cases allDefined

-- On a CPU a split that leaves a remainder is sampled and then refused.
theorem initFillTileSize_uneven_refused :
    let s := bareSketch [.split ⟨0, 0, some 10, [some 3], true⟩]
    ∃ s' rand', initFillTileSize cpuPolicy s (fun _ => 0) = .ok (s', rand') ∧
      initFillTileSizeTokens cpuPolicy [s]
        (fun _ _ => [recordTokens (s'.transformSteps.drop s.transformSteps.length)]) = .ok [] :=
  ⟨_, _, rfl, rfl⟩

def factorTokens : List SplitFields → List String → List (List String)
  | [], _ => []
  | fields :: rest, tokens =>
    (tokens.drop 4).take fields.lengths.length ::
      factorTokens rest (tokens.drop (fields.lengths.length + 5))

def ReadsGroups (splits : List SplitFields) (tokens : List String) (groups : List (List Int32)) :
    Prop :=
  (factorTokens splits tokens).map (·.map stoi) = groups.map (·.map .ok)

theorem chooseAll_tokens {tokens : List String} (run : chooseAll
    (tokenLengths policy) splits tokens = .ok (copies, rest)) :
    ∃ groups, ReadsGroups splits tokens groups ∧
        copies = List.zipWith SplitFields.withLengths splits groups ∧
        List.Forall₂ (fun fields group => ∃ extent, fields.extent = some extent ∧
          (policy.searchTask.deviceType = .cpu → dividesEvenly extent group = true)) splits groups := by
  induction splits generalizing tokens rest copies with
  | nil =>
    cases run
    exact ⟨[], rfl, rfl, .nil⟩
  | cons fields splits ih =>
    simp only [chooseAll, bind_ok, Prod.exists] at run
    obtain ⟨group, middle, first, later, _, second, rfl, -⟩ := run
    obtain ⟨extent, stage, iter, size, read, order, hasExtent, rfl, -, -, -, count, parsed, guard,
      -⟩ := tokenLengths_ok.mp first
    obtain ⟨groups, reads, rfl, guards⟩ := ih second
    refine ⟨group :: groups, ?_, rfl, .cons ⟨extent, hasExtent, ?_⟩ guards⟩
    · simp only [ReadsGroups, factorTokens, List.map_cons, List.cons.injEq]
      refine ⟨by simp [← count, parsed], ?_⟩
      have behind : ("SPC" :: stage :: iter :: size :: (read ++ order :: middle)).drop
          (fields.lengths.length + 5) = middle := by
        simp [← count]
      rw [behind]
      exact reads
    · exact fun onCPU => guard.resolve_left (absurd onCPU)

theorem decodeTileSize_accepted {s s' : State}
    (accepted : initFillTileSizeTokens policy [s] (fun _ _ => [tokens]) = .ok [s']) :
    ∃ copies rest, chooseAll (tokenLengths policy) (splitsOf s.transformSteps) tokens =
      .ok (copies, rest) ∧ s'.transformSteps =
        (copies.foldl (fun s copy => s.splitCopy copy) s).transformSteps := by
  rw [initFillTileSizeTokens, tokenRule_single] at accepted
  obtain ⟨_, _, decoded, prepared, read, listed⟩ := accepted
  cases prepared
  obtain rfl : decoded = some s' := by
    cases decoded <;> simp_all
  simp only [decodeTileSize, bind_ok, pure_ok, Option.map_eq_some_iff, Prod.exists] at read
  obtain ⟨_, filled, state, rest, rfl, rfl⟩ := read
  rw [guarded_ok_some, fillSplits_eq] at filled
  simp only [bind_ok, pure_ok, Prod.exists, Prod.mk.injEq] at filled
  obtain ⟨copies, rest', chosen, rfl, rfl⟩ := filled
  exact ⟨copies, rest', chosen, rfl⟩

-- The machine guard sees an exact tiling only where the product does not wrap.
theorem tiles_iff_of_dividesEvenly (guard : dividesEvenly extent factors = true) :
    Tiles extent factors ↔ (∀ factor ∈ factors, 1 ≤ factor.toInt) ∧ product factors < 2 ^ 31 := by
  rw [dividesEvenly_iff] at guard
  constructor
  · intro tiles
    exact ⟨tiles.1, product_lt_of_tiles (by omega) tiles⟩
  · rintro ⟨pos, bound⟩
    rw [toInt_intProduct_of_lt pos bound] at guard
    exact ⟨pos, guard.2.2⟩

theorem initFillTileSizeTokens_tiles (policy : SketchPolicy) (s s' : State) (tokens : List String)
    (onCPU : policy.searchTask.deviceType = .cpu)
    (accepted : initFillTileSizeTokens policy [s] (fun _ _ => [tokens]) = .ok [s']) :
    ∃ groups, ReadsGroups (splitsOf s.transformSteps) tokens groups ∧
      (List.Forall₂ (fun fields group => ∃ extent, fields.extent = some extent ∧
          Tiles extent group) (splitsOf s.transformSteps) groups ↔
        ∀ group ∈ groups, (∀ factor ∈ group, 1 ≤ factor.toInt) ∧ product group < 2 ^ 31) := by
  obtain ⟨copies, rest, chosen, -⟩ := decodeTileSize_accepted accepted
  obtain ⟨groups, reads, -, guards⟩ := chooseAll_tokens chosen
  refine ⟨groups, reads, ?_⟩
  clear reads chosen accepted
  generalize splitsOf s.transformSteps = splits at guards
  induction guards with
  | nil => simp
  | @cons fields group splits groups guard guards ih =>
    obtain ⟨extent, hasExtent, even⟩ := guard
    have same := tiles_iff_of_dividesEvenly (even onCPU)
    simp only [List.forall₂_cons, List.mem_cons, forall_eq_or_imp, ih, hasExtent,
      Option.some.injEq, exists_eq_left', same]

theorem initFillTileSizeTokens_tiles_pair :
    let s := bareSketch [.split ⟨0, 0, some 12, [none, none], true⟩,
      .split ⟨0, 1, some 10, [none], false⟩]
    let tokens := ["SPC", "0", "0", "12", "2", "3", "1", "SPC", "0", "1", "10", "5", "0"]
    ∃ s', initFillTileSizeTokens cpuPolicy [s] (fun _ _ => [tokens]) = .ok [s'] ∧
      ∃ groups, ReadsGroups (splitsOf s.transformSteps) tokens groups ∧
        (List.Forall₂ (fun fields group => ∃ extent, fields.extent = some extent ∧
            Tiles extent group) (splitsOf s.transformSteps) groups ↔
          ∀ group ∈ groups, (∀ factor ∈ group, 1 ≤ factor.toInt) ∧ product group < 2 ^ 31) :=
  ⟨_, rfl, initFillTileSizeTokens_tiles cpuPolicy _ _ _ rfl rfl⟩

-- The product of the first group is 1, that of the second 2 ^ 32 + 2.
theorem initFillTileSizeTokens_wraps :
    (∃ s', initFillTileSizeTokens cpuPolicy [bareSketch [.split ⟨0, 0, some 1, [none, none], true⟩]]
        (fun _ _ => [["SPC", "0", "0", "1", "-1", "-1", "1"]]) = .ok [s'] ∧
      splitsOf s'.transformSteps = [⟨0, 0, some 1, [some (-1), some (-1)], true⟩]) ∧
    (∃ s', initFillTileSizeTokens cpuPolicy [bareSketch [.split ⟨0, 0, some 2, [none, none], true⟩]]
        (fun _ _ => [["SPC", "0", "0", "2", "3", "1431655766", "1"]]) = .ok [s'] ∧
      splitsOf s'.transformSteps = [⟨0, 0, some 2, [some 3, some 1431655766], true⟩]) ∧
    ¬Tiles 1 [-1, -1] ∧ ¬Tiles 2 [3, 1431655766] := by
  refine ⟨⟨_, rfl, rfl⟩, ⟨_, rfl, rfl⟩, ?_, ?_⟩
  · rintro ⟨pos, -⟩
    exact absurd (pos (-1) (by simp)) (by decide)
  · rintro ⟨-, divides⟩
    exact absurd divides (by decide)

def copyFields (copy : SplitFields) : List SplitFields → List SplitFields
  | [] => []
  | fields :: rest =>
    if fields.key = copy.key then { fields with lengths := copy.lengths } :: rest
    else fields :: copyFields copy rest

theorem splitsOf_copyLengths (copy : SplitFields) (steps : List Step) :
    splitsOf (copyLengths copy steps) = copyFields copy (splitsOf steps) := by
  induction steps with
  | nil => rfl
  | cons step steps ih =>
    cases step with
    | split fields =>
      by_cases same : fields.key = copy.key
      · simp [copyLengths, splitsOf, Step.split?, copyFields, same]
      · simpa [copyLengths, splitsOf, Step.split?, copyFields, same] using ih
    | _ => exact ih

variable {copy : SplitFields}

theorem copyLengths_other {steps : List Step} {i : Nat} {step : Step} (present : steps[i]? = some step)
    (plain : step.split? = none) : (copyLengths copy steps)[i]? = some step := by
  induction steps generalizing i with
  | nil => simp at present
  | cons head steps ih =>
    cases i with
    | zero =>
      simp only [List.getElem?_cons_zero, Option.some.injEq] at present
      subst present
      cases head <;> simp_all [copyLengths, Step.split?]
    | succ i =>
      have later := ih (by simpa using present)
      cases head with
      | split fields =>
        simp only [copyLengths]
        split
        · simpa using present
        · simpa using later
      | _ => simpa [copyLengths] using later

theorem foldl_copyFields_cons (fields : SplitFields) (rest copies : List SplitFields) :
    copies.foldl (fun splits copy => copyFields copy splits) (fields :: rest) =
      { fields with lengths :=
          ((copies.filter (·.key = fields.key)).getLast?.map (·.lengths)).getD fields.lengths } ::
        (copies.filter (·.key ≠ fields.key)).foldl (fun splits copy => copyFields copy splits)
          rest := by
  induction copies generalizing fields rest with
  | nil => simp
  | cons copy copies ih =>
    by_cases same : fields.key = copy.key
    · have later := ih { fields with lengths := copy.lengths } rest
      have key : SplitFields.key { fields with lengths := copy.lengths } = fields.key := rfl
      simp only [List.foldl_cons, copyFields, same, if_true]
      rw [later, key, same]
      simp [List.getLast?_cons]
    · have apart : ¬copy.key = fields.key := fun equal => same equal.symm
      simp only [List.foldl_cons, copyFields, same, if_false, ih]
      simp [apart]

-- One split of a scan whose copies for the iterators seen before are spent: a seen iterator keeps
-- its lengths, and the copies for this one are spent on it.
theorem foldl_copyFields_unseen (same : copy.key = fields.key) (rest copies : List SplitFields)
    (seen : List (Int32 × Int32)) :
    ((copy :: copies).filter (·.key ∉ seen)).foldl (fun splits copy => copyFields copy splits)
        (fields :: rest) =
      { fields with lengths :=
          if fields.key ∈ seen then fields.lengths
          else ((copies.filter (·.key = fields.key)).getLast?.getD copy).lengths } ::
        (copies.filter (·.key ∉ fields.key :: seen)).foldl
          (fun splits copy => copyFields copy splits) rest := by
  have others : ((copies.filter (·.key ∉ seen)).filter (·.key ≠ fields.key)) =
      copies.filter (·.key ∉ fields.key :: seen) := by
    rw [List.filter_filter]
    exact List.filter_congr fun copy _ => by simp
  by_cases old : fields.key ∈ seen
  · have noCopy : (copies.filter (·.key ∉ seen)).filter (·.key = fields.key) = [] := by
      rw [List.filter_filter, List.filter_eq_nil_iff]
      simp only [Bool.and_eq_true, decide_eq_true_eq, not_and, not_not]
      rintro copy - equal
      exact equal ▸ old
    rw [List.filter_cons_of_neg (by simp [same, old]), foldl_copyFields_cons, noCopy, others, if_pos old]
    rfl
  · have mine : (copies.filter (·.key ∉ seen)).filter (·.key = fields.key) =
        copies.filter (·.key = fields.key) := by
      rw [List.filter_filter]
      refine List.filter_congr fun other _ => ?_
      by_cases equal : other.key = fields.key
      · simp [equal, old]
      · simp [equal]
    rw [List.filter_cons_of_pos (by simp [same, old]), foldl_copyFields_cons,
      List.filter_cons_of_pos (by simp [same]), List.filter_cons_of_neg (by simp [same]), mine,
      others, List.getLast?_cons, if_neg old]
    rfl

-- Scanned in order, with the iterators that had a split before: the first split of an iterator must end
-- up with its own group, a later one must hold its own group already.
def OwnGroups : List (Int32 × Int32) → List (SplitFields × List Int32) → Prop
  | _, [] => True
  | seen, (fields, group) :: rest =>
    (if fields.key ∈ seen then fields.lengths = group.map some
      else ∀ last ∈ (rest.filter (·.1.key = fields.key)).getLast?, last.2 = group) ∧
    OwnGroups (fields.key :: seen) rest

def groupCopy (entry : SplitFields × List Int32) : SplitFields :=
  entry.1.withLengths entry.2

@[simp]
theorem groupCopy_key (entry : SplitFields × List Int32) : (groupCopy entry).key = entry.1.key := rfl

theorem ownGroups_iff (entries : List (SplitFields × List Int32)) (seen : List (Int32 × Int32)) :
    (((entries.map groupCopy).filter (·.key ∉ seen)).foldl
        (fun splits copy => copyFields copy splits) (entries.map (·.1))).map (·.lengths) =
      entries.map (fun entry => entry.2.map some) ↔ OwnGroups seen entries := by
  induction entries generalizing seen with
  | nil => simp [OwnGroups]
  | cons entry rest ih =>
    obtain ⟨fields, group⟩ := entry
    have later := ih (fields.key :: seen)
    have lasts : ((rest.map groupCopy).filter (·.key = fields.key)).getLast? =
        (rest.filter (·.1.key = fields.key)).getLast?.map groupCopy := by
      rw [List.filter_map, List.getLast?_map]
      rfl
    have injective : ∀ last : SplitFields × List Int32,
        last.2.map some = group.map some ↔ last.2 = group := fun last =>
      List.map_inj_right fun _ _ => Option.some.inj
    simp only [List.map_cons]
    rw [foldl_copyFields_unseen (groupCopy_key (fields, group)), lasts]
    simp only [List.map_cons, List.cons.injEq, later]
    refine and_congr_left fun _ => ?_
    by_cases old : fields.key ∈ seen
    · rw [if_pos old, if_pos old]
    · rw [if_neg old, if_neg old]
      cases (rest.filter (·.1.key = fields.key)).getLast? with
      | none => simp [groupCopy, SplitFields.withLengths]
      | some last => simpa [groupCopy, SplitFields.withLengths] using injective last

theorem splitsOf_foldl_copyLengths (copies : List SplitFields) (steps : List Step) :
    splitsOf (copies.foldl (fun steps copy => copyLengths copy steps) steps) =
      copies.foldl (fun splits copy => copyFields copy splits) (splitsOf steps) := by
  induction copies generalizing steps with
  | nil => rfl
  | cons copy copies ih => rw [List.foldl_cons, ih, splitsOf_copyLengths, List.foldl_cons]

theorem splitsOf_copies (copies : List SplitFields) (s : State) :
    splitsOf (copies.foldl (fun s copy => s.splitCopy copy) s).transformSteps =
      copies.foldl (fun splits copy => copyFields copy splits) (splitsOf s.transformSteps) := by
  have noSplits : splitsOf (copies.map .splitCopy) = [] := by
    simp [splitsOf, Step.split?]
  rw [splitCopies_eq, splitsOf, List.filterMap_append, ← splitsOf, ← splitsOf, noSplits,
    List.append_nil, splitsOf_foldl_copyLengths]

theorem splitCopies_other (copies : List SplitFields) (s : State) (i : Nat) (step : Step)
    (present : s.transformSteps[i]? = some step) (plain : step.split? = none) :
    (copies.foldl (fun s copy => s.splitCopy copy) s).transformSteps[i]? = some step := by
  induction copies generalizing s with
  | nil => exact present
  | cons copy copies ih =>
    refine ih _ ?_
    have kept : (copyLengths copy s.transformSteps)[i]? = some step :=
      copyLengths_other present plain
    obtain ⟨inside, -⟩ := List.getElem?_eq_some_iff.mp kept
    rw [splitCopy_transformSteps, List.getElem?_append_left inside, kept]

theorem initFillTileSizeTokens_own (policy : SketchPolicy) (s s' : State) (tokens : List String)
    (accepted : initFillTileSizeTokens policy [s] (fun _ _ => [tokens]) = .ok [s']) :
    ∃ groups, ReadsGroups (splitsOf s.transformSteps) tokens groups ∧
      (((splitsOf s'.transformSteps).map (·.lengths) = groups.map (·.map some) ∧
          ∀ (i : Nat) (step : Step), s.transformSteps[i]? = some step → step.split? = none →
            s'.transformSteps[i]? = some step) ↔
        OwnGroups [] ((splitsOf s.transformSteps).zip groups)) := by
  obtain ⟨copies, rest, chosen, steps⟩ := decodeTileSize_accepted accepted
  obtain ⟨groups, reads, rfl, guards⟩ := chooseAll_tokens chosen
  have unchanged := splitCopies_other
    (List.zipWith SplitFields.withLengths (splitsOf s.transformSteps) groups) s
  have sameLength := guards.length_eq
  have whole := ownGroups_iff ((splitsOf s.transformSteps).zip groups) []
  refine ⟨groups, reads, ?_⟩
  rw [steps, splitsOf_copies, and_iff_left unchanged, ← whole]
  have copies : ((splitsOf s.transformSteps).zip groups).map groupCopy =
      List.zipWith SplitFields.withLengths (splitsOf s.transformSteps) groups :=
    List.map_zip_eq_zipWith ..
  have own : ((splitsOf s.transformSteps).zip groups).map (fun entry => entry.2.map some) =
      groups.map (·.map some) := by
    have second : ((splitsOf s.transformSteps).zip groups).map Prod.snd = groups :=
      List.map_snd_zip sameLength.ge
    conv_rhs => rw [← second, List.map_map]
    rfl
  rw [own, List.map_fst_zip sameLength.le, copies]
  simp

theorem initFillTileSizeTokens_own_staged :
    let s := bareSketch [.split ⟨0, 0, some 10, [none], true⟩, .cacheWrite 0 "local",
      .split ⟨1, 0, some 12, [none, none], true⟩]
    let tokens := ["SPC", "0", "0", "10", "5", "1", "SPC", "1", "0", "12", "2", "3", "1"]
    ∃ s', initFillTileSizeTokens cpuPolicy [s] (fun _ _ => [tokens]) = .ok [s'] ∧
      ∃ groups, ReadsGroups (splitsOf s.transformSteps) tokens groups ∧
        (((splitsOf s'.transformSteps).map (·.lengths) = groups.map (·.map some) ∧
            ∀ (i : Nat) (step : Step), s.transformSteps[i]? = some step → step.split? = none →
              s'.transformSteps[i]? = some step) ↔
          OwnGroups [] ((splitsOf s.transformSteps).zip groups)) :=
  ⟨_, rfl, initFillTileSizeTokens_own cpuPolicy _ _ _ rfl⟩

-- The cache stage takes the number of the stage split first, so both splits are of iterator 0 of
-- stage 0: the first ends with the group of the second, and the second stays undefined.
theorem initFillTileSizeTokens_own_cacheWrite :
    ∃ s', initFillTileSizeTokens cpuPolicy
        [bareSketch [.split ⟨0, 0, some 10, [none], true⟩, .cacheWrite 0 "local",
          .split ⟨0, 0, some 8, [none], true⟩]]
        (fun _ _ => [["SPC", "0", "0", "10", "5", "1", "SPC", "0", "0", "8", "2", "1"]]) =
          .ok [s'] ∧
      (splitsOf s'.transformSteps).map (·.lengths) = [[some 2], [none]] :=
  ⟨_, rfl, rfl⟩

end Tlm.AutoScheduler
